import Mathlib.Data.List.Forall2
import DpopAuth.Verified.Transactions

/-!
# Row-level policies

Every row has an owner, and a policy lets a transaction see and write the rows
of one owner only.  Two tables `Agree` for an owner when they have the same
cells of that owner at the same places; what is in the other cells does not
matter.  A statement under the policy of the owner cannot tell such tables
apart, and leaves tables that agree again; a transaction that writes rows of
somebody else leaves a table that agrees with the one before it.

`Owned` is what the policy makes of the writes: a version that is not
committed yet has the owner its transaction writes for, and so has the
committed version under it.

## Main results

* `Agree.view`, `Agree.targets`, `Agree.visit`, `Agree.insertRows` — what a
  statement sees and does.
* `Owned.agree_commit`, `Owned.agree_rollback`, `agree_write` — what the
  transactions of others do.
-/

namespace DpopAuth.Verified.RowPolicies

open DpopAuth.Verified.RowVersions
open DpopAuth.Verified.Transactions

variable {ρ κ : Type} {owner : ρ → κ} {b : κ} {c c' : Cell ρ} {t t' : Table ρ}
  {i k : Nat} {r s : ρ}

/-! ## Cells -/

/-- No version in the cell belongs to `b`. -/
def Foreign (owner : ρ → κ) (b : κ) (c : Cell ρ) : Prop :=
  (∀ r, c.committed = some r → owner r ≠ b) ∧
    ∀ j r, c.pending = some (j, r) → owner r ≠ b

/-- The cells are the same as far as `b` is concerned. -/
def CellAgree (owner : ρ → κ) (b : κ) (c c' : Cell ρ) : Prop :=
  c = c' ∨ Foreign owner b c ∧ Foreign owner b c'

theorem foreign_vacant : Foreign owner b ⟨none, none⟩ := by
  constructor
  · intro r hr
    cases hr
  · intro j r hr
    cases hr

theorem foreign_fresh (h : owner r ≠ b) : Foreign owner b (Cell.fresh i r) := by
  constructor
  · intro r' hr'
    cases hr'
  · intro j r' hr'
    cases hr'
    exact h

theorem Foreign.write (hc : Foreign owner b c) (h : owner r ≠ b) :
    Foreign owner b (c.write i r) := by
  constructor
  · exact hc.1
  · intro j r' hr'
    cases hr'
    exact h

theorem Foreign.seenBy (hc : Foreign owner b c) (hr : c.seenBy i = some r) :
    owner r ≠ b := by
  obtain ⟨o, _ | ⟨j, v⟩⟩ := c
  · exact hc.1 r hr
  · by_cases hj : j = i
    · have hv : v = r := by simpa [Cell.seenBy, hj] using hr
      exact hv ▸ hc.2 j v rfl
    · exact hc.1 r (by simpa [Cell.seenBy, hj] using hr)

theorem Foreign.commit (hc : Foreign owner b c) :
    Foreign owner b (c.commit i) := by
  obtain ⟨o, _ | ⟨j, v⟩⟩ := c
  · exact hc
  · by_cases hj : j = i
    · have hcell : Cell.commit i ⟨o, some (j, v)⟩ = ⟨some v, none⟩ := by
        simp [Cell.commit, hj]
      rw [hcell]
      constructor
      · intro r hr
        cases hr
        exact hc.2 j v rfl
      · intro j' r hr
        cases hr
    · have hcell : Cell.commit i ⟨o, some (j, v)⟩ = ⟨o, some (j, v)⟩ := by
        simp [Cell.commit, hj]
      rw [hcell]
      exact hc

theorem Foreign.rollback (hc : Foreign owner b c) :
    Foreign owner b (c.rollback i) := by
  constructor
  · intro r hr
    rw [Cell.rollback_committed] at hr
    exact hc.1 r hr
  · intro j r hr
    obtain ⟨o, _ | ⟨l, v⟩⟩ := c
    · cases hr
    · by_cases hl : l = i
      · simp [Cell.rollback, hl] at hr
      · exact hc.2 j r (by simpa [Cell.rollback, hl] using hr)

theorem CellAgree.refl (c : Cell ρ) : CellAgree owner b c c := .inl rfl

theorem CellAgree.symm (h : CellAgree owner b c c') : CellAgree owner b c' c :=
  h.imp Eq.symm And.symm

theorem CellAgree.trans {c'' : Cell ρ} (h : CellAgree owner b c c')
    (h' : CellAgree owner b c' c'') : CellAgree owner b c c'' := by
  rcases h with rfl | ⟨hc, hc'⟩
  · exact h'
  · rcases h' with rfl | ⟨-, hc''⟩
    · exact .inr ⟨hc, hc'⟩
    · exact .inr ⟨hc, hc''⟩

/-- A test that no foreign cell passes. -/
theorem CellAgree.test {P : Cell ρ → Bool} (h : CellAgree owner b c c')
    (hP : ∀ c, Foreign owner b c → P c = false) : P c = P c' := by
  rcases h with rfl | ⟨hc, hc'⟩
  · rfl
  · rw [hP c hc, hP c' hc']

/-! ## Tables that agree -/

/-- The tables have the same cells of `b`, at the same places. -/
def Agree (owner : ρ → κ) (b : κ) : Table ρ → Table ρ → Prop :=
  List.Forall₂ (CellAgree owner b)

namespace Agree

theorem refl (t : Table ρ) : Agree owner b t t :=
  List.forall₂_same.mpr fun c _ => .refl c

theorem symm (h : Agree owner b t t') : Agree owner b t' t :=
  h.flip.imp fun _ _ => CellAgree.symm

theorem trans {t'' : Table ρ} (h : Agree owner b t t')
    (h' : Agree owner b t' t'') : Agree owner b t t'' := by
  induction h generalizing t'' with
  | nil => exact h'
  | cons hcell _ ih =>
      cases h' with
      | cons hcell' hrest' => exact .cons (hcell.trans hcell') (ih hrest')

theorem length (h : Agree owner b t t') : t.length = t'.length :=
  h.length_eq

theorem map {f g : Cell ρ → Cell ρ}
    (hfg : ∀ c c', CellAgree owner b c c' → CellAgree owner b (f c) (g c'))
    (h : Agree owner b t t') : Agree owner b (t.map f) (t'.map g) := by
  induction h with
  | nil => exact .nil
  | cons hcell _ ih => exact .cons (hfg _ _ hcell) ih

theorem commit (h : Agree owner b t t') :
    Agree owner b (t.commit i) (t'.commit i) := by
  refine h.map fun c c' hcell => ?_
  rcases hcell with rfl | ⟨hc, hc'⟩
  · exact .refl _
  · exact .inr ⟨hc.commit, hc'.commit⟩

theorem rollback (h : Agree owner b t t') :
    Agree owner b (t.rollback i) (t'.rollback i) := by
  refine h.map fun c c' hcell => ?_
  rcases hcell with rfl | ⟨hc, hc'⟩
  · exact .refl _
  · exact .inr ⟨hc.rollback, hc'.rollback⟩

theorem append (h : Agree owner b t t') (hcell : CellAgree owner b c c') :
    Agree owner b (t ++ [c]) (t' ++ [c']) := by
  induction h with
  | nil => exact .cons hcell .nil
  | cons hhead _ ih => exact .cons hhead ih

theorem set (h : Agree owner b t t') (hcell : CellAgree owner b c c') :
    Agree owner b (t.set k c) (t'.set k c') := by
  induction h generalizing k with
  | nil => exact .nil
  | cons hhead hrest ih =>
      cases k with
      | zero => exact .cons hcell hrest
      | succ k => exact .cons hhead ih

theorem getElem (h : Agree owner b t t') :
    (t[k]? = none ∧ t'[k]? = none) ∨
      ∃ c c', t[k]? = some c ∧ t'[k]? = some c' ∧ CellAgree owner b c c' := by
  induction h generalizing k with
  | nil => exact .inl ⟨rfl, rfl⟩
  | cons hhead _ ih =>
      cases k with
      | zero => exact .inr ⟨_, _, rfl, rfl, hhead⟩
      | succ k => simpa using ih

/-- A test that no foreign cell passes. -/
theorem any {P : Cell ρ → Bool} (h : Agree owner b t t')
    (hP : ∀ c, Foreign owner b c → P c = false) : t.any P = t'.any P := by
  induction h with
  | nil => rfl
  | cons hcell _ ih => rw [List.any_cons, List.any_cons, hcell.test hP, ih]

/-- A way to read a cell that finds no row of `b` in a foreign one. -/
theorem read {g : Cell ρ → Option ρ}
    (hg : ∀ c r, Foreign owner b c → g c = some r → owner r ≠ b)
    (h : Agree owner b t t') {p : ρ → Bool}
    (hp : ∀ r, p r = true → owner r = b) :
    (t.filterMap g).filter p = (t'.filterMap g).filter p := by
  have hforeign : ∀ {c : Cell ρ}, Foreign owner b c → ∀ u : Table ρ,
      (List.filterMap g (c :: u)).filter p = (u.filterMap g).filter p := by
    intro c hc u
    cases hread : g c with
    | none => rw [List.filterMap_cons_none hread]
    | some r =>
        have hr : ¬ p r = true := fun hpr => hg c r hc hread (hp r hpr)
        rw [List.filterMap_cons_some hread, List.filter_cons_of_neg hr]
  induction h with
  | nil => rfl
  | @cons c c' u u' hcell _ ih =>
      rcases hcell with rfl | ⟨hc, hc'⟩
      · cases hread : g c with
        | none =>
            rw [List.filterMap_cons_none hread, List.filterMap_cons_none hread]
            exact ih
        | some r =>
            rw [List.filterMap_cons_some hread, List.filterMap_cons_some hread,
              List.filter_cons, List.filter_cons, ih]
      · rw [hforeign hc, hforeign hc']
        exact ih

/-- **The rows of `b` that a transaction sees.** -/
theorem view (h : Agree owner b t t') {p : ρ → Bool}
    (hp : ∀ r, p r = true → owner r = b) :
    (t.view i).filter p = (t'.view i).filter p :=
  read (fun _ _ hc hr => hc.seenBy hr) h hp

/-- The committed rows of `b`. -/
theorem rows (h : Agree owner b t t') {p : ρ → Bool}
    (hp : ∀ r, p r = true → owner r = b) :
    t.rows.filter p = t'.rows.filter p :=
  read (fun _ r hc hr => hc.1 r hr) h hp

/-- **The rows of `b` that an `UPDATE` is going to visit.** -/
theorem targets (h : Agree owner b t t') {p : ρ → Bool}
    (hp : ∀ r, p r = true → owner r = b) :
    t.targets i p = t'.targets i p := by
  unfold Table.targets
  rw [h.length]
  refine List.filter_congr fun k _ => ?_
  rcases h.getElem (k := k) with ⟨hk, hk'⟩ | ⟨c, c', hk, hk', hcell⟩
  · rw [hk, hk']
  · rw [hk, hk']
    refine hcell.test (P := fun c => (c.seenBy i).any p) fun c hc => ?_
    cases hseen : c.seenBy i with
    | none => rfl
    | some r =>
        show p r = false
        exact Bool.eq_false_iff.mpr fun hpr => hc.seenBy hseen (hp r hpr)

/-- **One visit of an `UPDATE`**: it writes over a row of `b`, or leaves both
tables alone.  In the second table all open versions are those of `b`. -/
theorem visit (h : Agree owner b t t') {p : ρ → Bool} {f : ρ → ρ}
    (hp : ∀ r, p r = true → owner r = b)
    (hquiet : ∀ c ∈ t', ∀ j r, c.pending = some (j, r) → owner r = b)
    {o : Option ρ} {u : Table ρ} (hvisit : t.visit i p f k = some (o, u)) :
    ∃ u', t'.visit i p f k = some (o, u') ∧ Agree owner b u u' := by
  rcases Table.visit_set hvisit with ⟨rfl, rfl, hskip⟩ |
    ⟨c, r, hk, hfree, hseen, hpr, rfl, rfl⟩
  · refine ⟨t', ?_, h⟩
    unfold Table.visit
    rcases h.getElem (k := k) with ⟨-, hk'⟩ | ⟨c, c', hk, hk', hcell⟩
    · rw [hk']
    · rw [hk']
      have hskip' : c'.blocks i = false ∧
          ∀ r, c'.seenBy i = some r → p r = false := by
        rcases hcell with rfl | ⟨-, hc'⟩
        · cases hseen : c.seenBy i with
          | none =>
              refine ⟨?_, fun r hr => by cases hr⟩
              unfold Table.visit at hvisit
              rw [hk] at hvisit
              dsimp only at hvisit
              by_cases hb : c.blocks i = true
              · rw [if_pos hb] at hvisit
                cases hvisit
              · exact Bool.eq_false_iff.mpr hb
          | some r =>
              obtain ⟨hfree, hr⟩ := hskip c r hk
              refine ⟨hfree, fun r' hr' => ?_⟩
              cases hr'
              exact hr hseen
        · obtain ⟨o, _ | ⟨j, v⟩⟩ := c'
          · refine ⟨rfl, fun r hr => Bool.eq_false_iff.mpr fun hpr => ?_⟩
            exact hc'.1 r hr (hp r hpr)
          · have hv := hquiet _ (List.mem_of_getElem? hk') j v rfl
            exact absurd hv (hc'.2 j v rfl)
      dsimp only
      rw [if_neg (Bool.eq_false_iff.mp hskip'.1)]
      cases hseen : c'.seenBy i with
      | none => rfl
      | some r =>
          have hr := hskip'.2 r hseen
          simp [hr]
  · rcases h.getElem (k := k) with ⟨hk', -⟩ | ⟨d, d', hd, hd', hcell⟩
    · rw [hk] at hk'
      cases hk'
    · rw [hk] at hd
      cases hd
      rcases hcell with rfl | ⟨hc, -⟩
      · refine ⟨t'.set k (c.write i (f r)), ?_, h.set (.refl _)⟩
        unfold Table.visit
        rw [hd']
        simp [hfree, hseen, hpr]
      · exact absurd (hp r hpr) (hc.seenBy hseen)

/-- **The insertion of a row of `b`**, where the unique keys tell owners
apart. -/
theorem insertRows {τ : Type} {Row : τ → Type} {a : τ} {owner : Row a → κ}
    {t t' : Table (Row a)} {r : Row a} {dup : Row a → Row a → Bool}
    (h : Agree owner b t t') (hr : owner r = b)
    (hdup : ∀ s, dup r s = true → owner r = owner s)
    {res : Except SqlxError (Table (Row a))}
    (hinsert : Transactions.insertRows i dup [r] t = some res) :
    (∃ u u', res = .ok u ∧ u = t.insert i r ∧ u' = t'.insert i r ∧
        Transactions.insertRows i dup [r] t' = some (.ok u')) ∨
      ∃ e, res = .error e ∧
        Transactions.insertRows i dup [r] t' = some (.error e) := by
  have hother : ∀ {s}, owner s ≠ b → dup r s = false := fun hs =>
    Bool.eq_false_iff.mpr fun htrue => hs ((hdup _ htrue).symm.trans hr)
  have hblock := h.any (P := fun c => c.blocks i &&
      (c.committed.any (dup r) || c.pending.any fun v => dup r v.2)) fun c hc => by
    obtain ⟨o, v⟩ := c
    have hcommitted : o.any (dup r) = false := by
      cases o with
      | none => rfl
      | some s => exact hother (hc.1 s rfl)
    have hpending : (v.any fun v => dup r v.2) = false := by
      cases v with
      | none => rfl
      | some v => exact hother (hc.2 v.1 v.2 rfl)
    simp [hcommitted, hpending]
  have hviews : ∀ u : Table (Row a), (u.view i).any (dup r) =
      u.any fun c => (c.seenBy i).any (dup r) := by
    intro u
    induction u with
    | nil => rfl
    | cons c u ih =>
        unfold Table.view at ih ⊢
        cases hseen : c.seenBy i with
        | none =>
            rw [List.filterMap_cons_none hseen, List.any_cons, hseen, ih]
            rfl
        | some s =>
            rw [List.filterMap_cons_some hseen, List.any_cons, List.any_cons,
              hseen, ih]
            rfl
  have hseen := h.any (P := fun c => (c.seenBy i).any (dup r)) fun c hc => by
    cases hseen : c.seenBy i with
    | none => rfl
    | some s => exact hother (hc.seenBy hseen)
  have hview : (t.view i).any (dup r) = (t'.view i).any (dup r) := by
    rw [hviews, hviews, hseen]
  simp only [Transactions.insertRows] at hinsert ⊢
  rw [← hblock, ← hview]
  split at hinsert
  · cases hinsert
  · rename_i hfree
    rw [if_neg hfree]
    split at hinsert
    · rename_i htaken
      rw [if_pos htaken]
      cases hinsert
      exact .inr ⟨_, rfl, rfl⟩
    · rename_i hopen
      rw [if_neg hopen]
      cases hinsert
      exact .inl ⟨_, _, rfl, rfl, rfl, rfl⟩

end Agree

/-! ## Open versions -/

/-- **Every open version has the owner its transaction writes for**, and so
has the committed version under it. -/
def Owned (owner : ρ → κ) (writesFor : Nat → Option κ) (t : Table ρ) : Prop :=
  ∀ c ∈ t, ∀ k s, c.pending = some (k, s) → writesFor k = some (owner s) ∧
    ∀ r, c.committed = some r → owner r = owner s

namespace Owned

variable {writesFor writesFor' : Nat → Option κ}

theorem of_unlocked (h : ∀ c ∈ t, c.pending = none) : Owned owner writesFor t :=
  fun c hc k s hpending => by
    rw [h c hc] at hpending
    cases hpending

/-- The cells of a transaction of somebody else. -/
theorem foreign (h : Owned owner writesFor t) (hc : c ∈ t)
    (hheld : c.heldBy k = true) (hne : writesFor k ≠ some b) :
    Foreign owner b c := by
  obtain ⟨o, _ | ⟨j, v⟩⟩ := c
  · cases hheld
  · obtain rfl : j = k := beq_iff_eq.mp hheld
    obtain ⟨hwrites, hunder⟩ := h _ hc j v rfl
    have hv : owner v ≠ b := fun heq => hne (by rw [hwrites, heq])
    constructor
    · intro r hr
      rw [hunder r hr]
      exact hv
    · intro j' r hr
      cases hr
      exact hv

theorem commit (h : Owned owner writesFor t) :
    Owned owner writesFor (t.commit i) := by
  intro c hc k s hpending
  obtain ⟨d, hd, rfl⟩ := List.mem_map.mp hc
  cases hheld : d.heldBy i with
  | false =>
      rw [Cell.commit_of_not_heldBy hheld] at hpending ⊢
      exact h d hd k s hpending
  | true =>
      obtain ⟨o, _ | ⟨j, v⟩⟩ := d
      · cases hheld
      · simp [Cell.commit, beq_iff_eq.mp hheld] at hpending

theorem rollback (h : Owned owner writesFor t) :
    Owned owner writesFor (t.rollback i) := by
  intro c hc k s hpending
  obtain ⟨d, hd, rfl⟩ := List.mem_map.mp hc
  cases hheld : d.heldBy i with
  | false =>
      rw [Cell.rollback_of_not_heldBy hheld] at hpending ⊢
      exact h d hd k s hpending
  | true =>
      obtain ⟨o, _ | ⟨j, v⟩⟩ := d
      · cases hheld
      · simp [Cell.rollback, beq_iff_eq.mp hheld] at hpending

theorem insert (h : Owned owner writesFor t)
    (hr : writesFor i = some (owner r)) : Owned owner writesFor (t.insert i r) := by
  intro c hc k s hpending
  rcases List.mem_append.mp hc with hc | hc
  · exact h c hc k s hpending
  · obtain rfl := List.mem_singleton.mp hc
    cases hpending
    exact ⟨hr, fun r' hr' => by cases hr'⟩

theorem vacant (h : Owned owner writesFor t) :
    Owned owner writesFor (t ++ [⟨none, none⟩]) := by
  intro c hc k s hpending
  rcases List.mem_append.mp hc with hc | hc
  · exact h c hc k s hpending
  · obtain rfl := List.mem_singleton.mp hc
    cases hpending

/-- A new version of a row, for the owner of the row. -/
theorem write (h : Owned owner writesFor t) (hk : t[k]? = some c)
    (hfree : c.blocks i = false) (hseen : c.seenBy i = some r)
    (hwrites : writesFor i = some (owner s)) (hsame : owner r = owner s) :
    Owned owner writesFor (t.set k (c.write i s)) := by
  intro d hd j v hpending
  rcases List.mem_or_eq_of_mem_set hd with hd | rfl
  · exact h d hd j v hpending
  · cases hpending
    refine ⟨hwrites, fun r' hr' => ?_⟩
    have hc := List.mem_of_getElem? hk
    obtain ⟨o, _ | ⟨l, u⟩⟩ := c
    · have heq : r' = r := Option.some.inj (hr'.symm.trans hseen)
      rw [heq, hsame]
    · have hl : l = i := by simpa using hfree
      have hu : u = r := by simpa [Cell.seenBy, hl] using hseen
      rw [(h _ hc l u rfl).2 r' hr', hu, hsame]

/-- A transaction that holds nothing may begin to write for somebody else. -/
theorem change (h : Owned owner writesFor t)
    (hsame : ∀ k, t.own k = [] ∨ writesFor' k = writesFor k) :
    Owned owner writesFor' t := by
  intro c hc k s hpending
  obtain ⟨hwrites, hunder⟩ := h c hc k s hpending
  rcases hsame k with hnone | heq
  · have hheld : c.heldBy k = true := by
      obtain ⟨o, _ | ⟨j, v⟩⟩ := c
      · cases hpending
      · cases hpending
        exact beq_self_eq_true _
    rw [Table.own_eq_nil.mp hnone c hc] at hheld
    cases hheld
  · exact ⟨heq.trans hwrites, hunder⟩

theorem own_nil (h : Owned owner writesFor t) (hk : writesFor k = none) :
    t.own k = [] := by
  refine Table.own_eq_nil.mpr fun c hc => ?_
  obtain ⟨o, _ | ⟨j, v⟩⟩ := c
  · rfl
  · refine Bool.eq_false_iff.mpr fun hheld => ?_
    obtain rfl : j = k := beq_iff_eq.mp hheld
    rw [(h _ hc j v rfl).1] at hk
    cases hk

/-- **The end of a transaction of somebody else.** -/
theorem agree_commit (h : Owned owner writesFor t)
    (hne : writesFor k ≠ some b) : Agree owner b t (t.commit k) := by
  refine List.forall₂_map_right_iff.mpr (List.forall₂_same.mpr fun c hc => ?_)
  cases hheld : c.heldBy k with
  | false =>
      rw [Cell.commit_of_not_heldBy hheld]
      exact .refl c
  | true =>
      have hforeign := h.foreign hc hheld hne
      exact .inr ⟨hforeign, hforeign.commit⟩

theorem agree_rollback (h : Owned owner writesFor t)
    (hne : writesFor k ≠ some b) : Agree owner b t (t.rollback k) := by
  refine List.forall₂_map_right_iff.mpr (List.forall₂_same.mpr fun c hc => ?_)
  cases hheld : c.heldBy k with
  | false =>
      rw [Cell.rollback_of_not_heldBy hheld]
      exact .refl c
  | true =>
      have hforeign := h.foreign hc hheld hne
      exact .inr ⟨hforeign, hforeign.rollback⟩

/-- A new version of a row of somebody else. -/
theorem agree_write (h : Owned owner writesFor t) (hk : t[k]? = some c)
    (hfree : c.blocks i = false) (hseen : c.seenBy i = some r)
    (hr : owner r ≠ b) (hs : owner s ≠ b) :
    Agree owner b t (t.set k (c.write i s)) := by
  have hforeign : Foreign owner b c := by
    have hc := List.mem_of_getElem? hk
    obtain ⟨o, _ | ⟨l, u⟩⟩ := c
    · refine ⟨fun r' hr' => ?_, fun j r' hr' => by cases hr'⟩
      rw [Option.some.inj (hr'.symm.trans hseen)]
      exact hr
    · have hl : l = i := by simpa using hfree
      have hu : u = r := by simpa [Cell.seenBy, hl] using hseen
      refine ⟨fun r' hr' => ?_, fun j r' hr' => ?_⟩
      · rw [(h _ hc l u rfl).2 r' hr', hu]
        exact hr
      · cases hr'
        rw [hu]
        exact hr
  have hset : Agree owner b (t.set k c) (t.set k (c.write i s)) :=
    (Agree.refl t).set (.inr ⟨hforeign, hforeign.write hs⟩)
  obtain ⟨hlt, hget⟩ := List.getElem?_eq_some_iff.mp hk
  rw [← hget, List.set_getElem_self, hget] at hset
  exact hset

end Owned

end DpopAuth.Verified.RowPolicies
