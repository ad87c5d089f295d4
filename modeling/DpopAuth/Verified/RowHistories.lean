import DpopAuth.Verified.StepRules

/-!
# What becomes of a row

A relation between two versions of a row that every write respects is
respected by the whole history of the row: the version an open transaction has
written is related to the committed one (`Linked`), and so is each later
committed version to each earlier one (`Evolves`).  Rows keep their positions,
so a row is named by its position in the table.

## Main results

* `respects_follows`, `follows_visit`, `follows_insert` — the rules.
* `Linked.write` — one visit of an `UPDATE`, from what is known of its cell.
* `respects_keys` — key columns.
-/

namespace DpopAuth.Verified.RowHistories

open DpopAuth.Verified.Resumption
open DpopAuth.Verified.RowVersions
open DpopAuth.Verified.Transactions
open DpopAuth.Verified.StepRules

variable {π ω ν τ β : Type} {Row : τ → Type} {i : Nat}
  {ψ : ∀ t, Row t → Prop} {ρ : ∀ t, Row t → Row t → Prop}
  {w w' : World π Row ω} {t : τ}

/-- The committed version of row `k`. -/
def committedAt {α : Type} (x : Table α) (k : Nat) : Option α :=
  x[k]?.bind Cell.committed

theorem committedAt_eq {α : Type} {x : Table α} {k : Nat} {r : α} :
    committedAt x k = some r ↔ ∃ c, x[k]? = some c ∧ c.committed = some r := by
  simp [committedAt, Option.bind_eq_some_iff]

theorem mem_rows_iff {α : Type} {x : Table α} {r : α} :
    r ∈ x.rows ↔ ∃ k, committedAt x k = some r := by
  rw [Table.mem_rows]
  constructor
  · rintro ⟨c, hc, hr⟩
    obtain ⟨k, hk⟩ := List.mem_iff_getElem?.mp hc
    exact ⟨k, committedAt_eq.mpr ⟨c, hk, hr⟩⟩
  · rintro ⟨k, hk⟩
    obtain ⟨c, hc, hr⟩ := committedAt_eq.mp hk
    exact ⟨c, List.mem_of_getElem? hc, hr⟩

/-! ## One cell -/

/-- A relation that composes. -/
structure IsHistory (ρ : ∀ t, Row t → Row t → Prop) : Prop where
  refl : ∀ {t} (r : Row t), ρ t r r
  trans : ∀ {t} {r s u : Row t}, ρ t r s → ρ t s u → ρ t r u

section Cells

variable {α : Type} {φ : α → α → Prop} {c : Cell α} {r v : α}

/-- The version that is not committed yet is related to the committed one. -/
def CellLinked (φ : α → α → Prop) (c : Cell α) : Prop :=
  ∀ r, c.committed = some r → ∀ j v, c.pending = some (j, v) → φ r v

theorem CellLinked.write (h : ∀ r, c.committed = some r → φ r v) :
    CellLinked φ (c.write i v) := by
  intro r hr j x hx
  simp only [Cell.write_pending, Option.some.injEq, Prod.mk.injEq] at hx
  exact hx.2 ▸ h r hr

theorem CellLinked.commit (h : CellLinked φ c) : CellLinked φ (c.commit i) := by
  obtain ⟨x, _ | ⟨j, y⟩⟩ := c
  · exact h
  · by_cases hj : j = i
    · intro r hr k v hv
      simp [Cell.commit, hj] at hv
    · simpa [Cell.commit, hj] using h

theorem CellLinked.rollback (h : CellLinked φ c) :
    CellLinked φ (c.rollback i) := by
  obtain ⟨x, _ | ⟨j, y⟩⟩ := c
  · exact h
  · by_cases hj : j = i
    · intro r hr k v hv
      simp [Cell.rollback, hj] at hv
    · simpa [Cell.rollback, hj] using h

theorem CellLinked.fresh : CellLinked φ (Cell.fresh i r) := by
  intro v hv
  cases hv

/-- What the others see of the row after the commit. -/
theorem CellLinked.committed (h : CellLinked φ c) (hrefl : φ r r)
    (hr : c.committed = some r) :
    ∃ v, (c.commit i).committed = some v ∧ φ r v := by
  obtain ⟨x, _ | ⟨j, y⟩⟩ := c
  · exact ⟨r, hr, hrefl⟩
  · by_cases hj : j = i
    · refine ⟨y, by simp [Cell.commit, hj], h r hr j y rfl⟩
    · exact ⟨r, by simpa [Cell.commit, hj] using hr, hrefl⟩

/-- What is seen of a row is related to its committed version. -/
theorem CellLinked.seen (h : CellLinked φ c) (hrefl : φ r r)
    (hr : c.committed = some r) (hv : c.seenBy i = some v) : φ r v := by
  obtain ⟨x, _ | ⟨j, y⟩⟩ := c
  · simp only [Cell.seenBy] at hr hv
    rw [hr, Option.some.injEq] at hv
    exact hv ▸ hrefl
  · by_cases hj : j = i
    · simp only [Cell.seenBy, hj, if_true, Option.some.injEq] at hv
      exact hv ▸ h r hr j y rfl
    · simp only [Cell.seenBy, hj, if_false] at hr hv
      rw [hr, Option.some.injEq] at hv
      exact hv ▸ hrefl

end Cells

/-! ## States and steps -/

/-- Every version satisfies `ψ`, and the one an open transaction has written
is related to the committed one. -/
structure Linked (ψ : ∀ t, Row t → Prop) (ρ : ∀ t, Row t → Row t → Prop)
    (w : World π Row ω) : Prop where
  versions : Versions ψ w
  links : ∀ t, ∀ c ∈ w.db t, CellLinked (ρ t) c

/-- Each committed version is related to the next one. -/
def Evolves (ρ : ∀ t, Row t → Row t → Prop) (w w' : World π Row ω) : Prop :=
  ∀ t k r, committedAt (w.db t) k = some r →
    ∃ r', committedAt (w'.db t) k = some r' ∧ ρ t r r'

theorem Evolves.refl (h : IsHistory ρ) (w : World π Row ω) : Evolves ρ w w :=
  fun _ _ r hr => ⟨r, hr, h.refl r⟩

theorem Evolves.trans (h : IsHistory ρ) {w'' : World π Row ω}
    (hw : Evolves ρ w w') (hw' : Evolves ρ w' w'') : Evolves ρ w w'' := by
  intro t k r hr
  obtain ⟨r', hr', hstep⟩ := hw t k r hr
  obtain ⟨r'', hr'', hstep'⟩ := hw' t k r' hr'
  exact ⟨r'', hr'', h.trans hstep hstep'⟩

/-- Nothing is committed. -/
theorem Evolves.of_committed (h : IsHistory ρ)
    (hw : ∀ t k, committedAt (w'.db t) k = committedAt (w.db t) k) :
    Evolves ρ w w' :=
  fun t k r hr => ⟨r, by rw [hw, hr], h.refl r⟩

/-- A step along which rows evolve. -/
def Follows (ψ : ∀ t, Row t → Prop) (ρ : ∀ t, Row t → Row t → Prop)
    (w w' : World π Row ω) : Prop :=
  Linked ψ ρ w → Linked ψ ρ w' ∧ Evolves ρ w w'

theorem Follows.trans (h : IsHistory ρ) {w'' : World π Row ω}
    (hw : Follows ψ ρ w w') (hw' : Follows ψ ρ w' w'') : Follows ψ ρ w w'' := by
  intro hlinked
  obtain ⟨hnext, hstep⟩ := hw hlinked
  obtain ⟨hlast, hstep'⟩ := hw' hnext
  exact ⟨hlast, hstep.trans h hstep'⟩

/-- The tables are the same. -/
theorem Follows.same (h : IsHistory ρ) (hdb : w'.db = w.db) :
    Follows ψ ρ w w' := by
  refine fun hw => ⟨⟨fun t => ?_, fun t => ?_⟩,
    .of_committed h fun t k => by rw [hdb]⟩
  · rw [hdb]
    exact hw.versions t
  · rw [hdb]
    exact hw.links t

theorem committedAt_commit {α : Type} {x : Table α} {k : Nat} :
    committedAt (x.commit i) k =
      x[k]?.bind fun c => (c.commit i).committed := by
  simp only [committedAt, Table.commit, List.getElem?_map]
  cases x[k]? <;> rfl

theorem committedAt_rollback {α : Type} {x : Table α} {k : Nat} :
    committedAt (x.rollback i) k = committedAt x k := by
  simp only [committedAt, Table.rollback, List.getElem?_map]
  cases x[k]? with
  | none => rfl
  | some c => simp

/-- A transaction commits. -/
theorem Linked.commit (h : IsHistory ρ) (hw : Linked ψ ρ w)
    (hdb : ∀ t, w'.db t = (w.db t).commit i) :
    Linked ψ ρ w' ∧ Evolves ρ w w' := by
  refine ⟨⟨hw.versions.commit hdb, fun t c hc => ?_⟩, fun t k r hr => ?_⟩
  · rw [hdb] at hc
    obtain ⟨d, hd, rfl⟩ := List.mem_map.mp hc
    exact (hw.links t d hd).commit
  · obtain ⟨c, hc, hcr⟩ := committedAt_eq.mp hr
    obtain ⟨v, hv, hstep⟩ := (hw.links t c (List.mem_of_getElem? hc)).committed
      (i := i) (h.refl r) hcr
    exact ⟨v, by rw [hdb, committedAt_commit, hc]; exact hv, hstep⟩

/-- A transaction rolls back. -/
theorem Linked.rollback (h : IsHistory ρ) (hw : Linked ψ ρ w)
    (hdb : ∀ t, w'.db t = (w.db t).rollback i) :
    Linked ψ ρ w' ∧ Evolves ρ w w' := by
  refine ⟨⟨hw.versions.rollback hdb, fun t c hc => ?_⟩,
    .of_committed h fun t k => by rw [hdb, committedAt_rollback]⟩
  rw [hdb] at hc
  obtain ⟨d, hd, rfl⟩ := List.mem_map.mp hc
  exact (hw.links t d hd).rollback

theorem respects_follows (h : IsHistory ρ) :
    Respects i (Follows ψ ρ : World π Row ω → World π Row ω → Prop) where
  refl _ := .same h rfl
  trans hw hw' := hw.trans h hw'
  opens w pt := .same h (by unfold World.openStatement; split <;> rfl)
  fails _ := fun hw => hw.rollback h fun _ => rfl
  completes w := by
    unfold World.completeStatement
    split
    · exact fun hw => hw.commit h fun _ => rfl
    · exact .same h rfl
  begins _ := .same h rfl
  drops _ := fun hw => hw.rollback h fun _ => rfl
  commits _ _ := fun hw => hw.commit h fun _ => rfl

section Writes

variable [DecidableEq τ]

theorem Linked.setTable (h : IsHistory ρ) (hw : Linked ψ ρ w)
    {x : Table (Row t)} (hall : ∀ c ∈ x, CellAll (ψ t) c)
    (hlinks : ∀ c ∈ x, CellLinked (ρ t) c)
    (hkept : ∀ k r, committedAt (w.db t) k = some r →
      committedAt x k = some r) :
    Linked ψ ρ (w.setTable t x) ∧ Evolves ρ w (w.setTable t x) := by
  refine ⟨⟨hw.versions.setTable hall, fun u c hc => ?_⟩, fun u k r hr => ?_⟩
  · by_cases hu : u = t
    · subst hu
      simp only [World.setTable, Function.update_self] at hc
      exact hlinks c hc
    · simp only [World.setTable, Function.update_of_ne hu] at hc
      exact hw.links u c hc
  · refine ⟨r, ?_, h.refl r⟩
    by_cases hu : u = t
    · subst hu
      simp only [World.setTable, Function.update_self]
      exact hkept k r hr
    · simp only [World.setTable, Function.update_of_ne hu]
      exact hr

/-- **One visit of an `UPDATE`** keeps the links, if what it writes is related
to the committed version. -/
theorem Linked.write (h : IsHistory ρ) (hw : Linked ψ ρ w)
    {p : Row t → Bool} {f : Row t → Row t} {k : Nat} {o : Option (Row t)}
    {x : Table (Row t)} (hvisit : (w.db t).visit i p f k = some (o, x))
    (hwrite : ∀ c r, (w.db t)[k]? = some c → c.blocks i = false →
      c.seenBy i = some r → p r = true →
        ψ t (f r) ∧ ∀ r₀, c.committed = some r₀ → ρ t r₀ (f r)) :
    Linked ψ ρ (w.setTable t x) ∧ Evolves ρ w (w.setTable t x) := by
  rcases Table.visit_set hvisit with ⟨-, rfl, -⟩ |
    ⟨c, r, hat, hfree, hseen, hp, -, rfl⟩
  · exact hw.setTable h (hw.versions t) (hw.links t) fun _ _ hr => hr
  · obtain ⟨hnew, hlink⟩ := hwrite c r hat hfree hseen hp
    apply hw.setTable h
    · intro d hd
      rcases List.mem_or_eq_of_mem_set hd with hold | rfl
      · exact hw.versions t d hold
      · exact (hw.versions t c (List.mem_of_getElem? hat)).write hnew
    · intro d hd
      rcases List.mem_or_eq_of_mem_set hd with hold | rfl
      · exact hw.links t d hold
      · exact .write hlink
    · intro l r' hr'
      obtain ⟨d, hd, hdr⟩ := committedAt_eq.mp hr'
      by_cases hl : k = l
      · subst hl
        rw [hat, Option.some.injEq] at hd
        refine committedAt_eq.mpr ⟨c.write i (f r), ?_, by rw [← hdr, ← hd]; rfl⟩
        exact List.getElem?_set_self (List.getElem?_eq_some_iff.mp hat).1
      · refine committedAt_eq.mpr ⟨d, ?_, hdr⟩
        rw [List.getElem?_set_ne hl]
        exact hd

theorem follows_visit (h : IsHistory ρ) {p : Row t → Bool}
    {f : Row t → Row t} {k : Nat} {o : Option (Row t)} {x : Table (Row t)}
    (hf : ∀ r, ψ t r → p r = true → ψ t (f r) ∧ ρ t r (f r))
    (hvisit : (w.db t).visit i p f k = some (o, x)) :
    Follows ψ ρ w (w.setTable t x) := by
  intro hw
  refine hw.write h hvisit fun c r hc _ hseen hp => ?_
  have hmem := List.mem_of_getElem? hc
  have hstep := hf r ((hw.versions t c hmem).seen hseen) hp
  exact ⟨hstep.1, fun r₀ hr₀ =>
    h.trans ((hw.links t c hmem).seen (h.refl r₀) hr₀ hseen) hstep.2⟩

theorem follows_insert (h : IsHistory ρ) {dup : Row t → Row t → Bool}
    {rs : List (Row t)} {x : Table (Row t)} (hrs : ∀ r ∈ rs, ψ t r)
    (hinsert : insertRows i dup rs (w.db t) = some (.ok x)) :
    Follows ψ ρ w (w.setTable t x) := by
  intro hw
  rw [insertRows_ok hinsert]
  apply hw.setTable h
  · intro c hc
    rcases List.mem_append.mp hc with hold | hnew
    · exact hw.versions t c hold
    · obtain ⟨r, hr, rfl⟩ := List.mem_map.mp hnew
      exact CellAll.fresh (hrs r hr)
  · intro c hc
    rcases List.mem_append.mp hc with hold | hnew
    · exact hw.links t c hold
    · obtain ⟨r, hr, rfl⟩ := List.mem_map.mp hnew
      exact CellLinked.fresh
  · intro k r hr
    obtain ⟨c, hc, hcr⟩ := committedAt_eq.mp hr
    refine committedAt_eq.mpr ⟨c, ?_, hcr⟩
    rw [List.getElem?_append_left (List.getElem?_eq_some_iff.mp hc).1]
    exact hc

end Writes

/-! ## Tables that do not grow -/

/-- Table `t` has as many rows as before. -/
def SameSize (t : τ) (w w' : World π Row ω) : Prop :=
  (w'.db t).length = (w.db t).length

theorem respects_size :
    Respects i (SameSize t : World π Row ω → World π Row ω → Prop) where
  refl _ := rfl
  trans h h' := Eq.trans h' h
  opens w pt := by unfold World.openStatement; split <;> rfl
  fails _ := List.length_map _
  completes w := by
    unfold World.completeStatement
    split
    · exact List.length_map _
    · rfl
  begins _ := rfl
  drops _ := List.length_map _
  commits _ _ := List.length_map _

theorem size_other [DecidableEq τ] {u : τ} (hu : u ≠ t)
    (x : Table (Row u)) : SameSize t w (w.setTable u x) := by
  simp [SameSize, World.setTable, Function.update_of_ne (Ne.symm hu)]

theorem size_visit [DecidableEq τ] {u : τ} {p : Row u → Bool}
    {f : Row u → Row u} {k : Nat} {o : Option (Row u)} {x : Table (Row u)}
    (hvisit : (w.db u).visit i p f k = some (o, x)) :
    SameSize t w (w.setTable u x) := by
  by_cases hu : u = t
  · subst hu
    simp only [SameSize, World.setTable, Function.update_self]
    rcases Table.visit_set hvisit with ⟨-, rfl, -⟩ | ⟨c, r, -, -, -, -, -, rfl⟩
    · rfl
    · exact List.length_set
  · exact size_other hu x

/-! ## Key columns -/

/-- `r` is one of the versions of the cell. -/
def IsVersion {α : Type} (c : Cell α) (r : α) : Prop :=
  c.committed = some r ∨ ∃ j, c.pending = some (j, r)

section Keys

variable {α κ : Type} {key : α → κ} {c : Cell α} {r v : α}

theorem IsVersion.seen (h : c.seenBy i = some r) : IsVersion c r := by
  obtain ⟨x, _ | ⟨j, y⟩⟩ := c
  · exact .inl h
  · by_cases hj : j = i
    · simp only [Cell.seenBy, hj, if_true, Option.some.injEq] at h
      exact .inr ⟨j, by rw [← h]⟩
    · simp only [Cell.seenBy, hj, if_false] at h
      exact .inl h

theorem IsVersion.of_commit (h : IsVersion (c.commit i) r) : IsVersion c r := by
  obtain ⟨x, _ | ⟨j, y⟩⟩ := c
  · exact h
  · by_cases hj : j = i
    · simp only [Cell.commit, hj, if_true] at h
      rcases h with h | ⟨k, h⟩
      · exact .inr ⟨j, by rw [← Option.some.inj h]⟩
      · cases h
    · simpa only [Cell.commit, hj, if_false] using h

theorem IsVersion.of_rollback (h : IsVersion (c.rollback i) r) :
    IsVersion c r := by
  obtain ⟨x, _ | ⟨j, y⟩⟩ := c
  · exact h
  · by_cases hj : j = i
    · simp only [Cell.rollback, hj, if_true] at h
      rcases h with h | ⟨k, h⟩
      · exact .inl h
      · cases h
    · simpa only [Cell.rollback, hj, if_false] using h

theorem IsVersion.of_write (h : IsVersion (c.write i v) r) :
    IsVersion c r ∨ r = v := by
  rcases h with h | ⟨j, h⟩
  · exact .inl (.inl h)
  · simp only [Cell.write_pending, Option.some.injEq, Prod.mk.injEq] at h
    exact .inr h.2.symm

theorem IsVersion.of_fresh (h : IsVersion (Cell.fresh i v) r) : r = v := by
  rcases h with h | ⟨j, h⟩
  · cases h
  · simp only [Cell.fresh, Option.some.injEq, Prod.mk.injEq] at h
    exact h.2.symm

/-- Some version of row `k` has the key `y`. -/
def HasKey (key : α → κ) (x : Table α) (k : Nat) (y : κ) : Prop :=
  ∃ c r, x[k]? = some c ∧ IsVersion c r ∧ key r = y

/-- A key belongs to one row. -/
def UniqueKeys (key : α → κ) (x : Table α) : Prop :=
  ∀ k l y, HasKey key x k y → HasKey key x l y → k = l

theorem hasKey_commit {x : Table α} {k : Nat} {y : κ}
    (h : HasKey key (x.commit i) k y) : HasKey key x k y := by
  obtain ⟨c, r, hc, hr, hy⟩ := h
  rw [Table.commit, List.getElem?_map] at hc
  obtain ⟨d, hd, rfl⟩ := Option.map_eq_some_iff.mp hc
  exact ⟨d, r, hd, hr.of_commit, hy⟩

theorem hasKey_rollback {x : Table α} {k : Nat} {y : κ}
    (h : HasKey key (x.rollback i) k y) : HasKey key x k y := by
  obtain ⟨c, r, hc, hr, hy⟩ := h
  rw [Table.rollback, List.getElem?_map] at hc
  obtain ⟨d, hd, rfl⟩ := Option.map_eq_some_iff.mp hc
  exact ⟨d, r, hd, hr.of_rollback, hy⟩

/-- Inserted rows come last. -/
theorem hasKey_append {x : Table α} {rs : List α} {k : Nat} {y : κ}
    (h : HasKey key (x ++ rs.map (Cell.fresh i)) k y) :
    HasKey key x k y ∨
      x.length ≤ k ∧ ∃ r, rs[k - x.length]? = some r ∧ key r = y := by
  obtain ⟨c, r, hc, hr, hy⟩ := h
  rcases Nat.lt_or_ge k x.length with hlt | hge
  · rw [List.getElem?_append_left hlt] at hc
    exact .inl ⟨c, r, hc, hr, hy⟩
  · rw [List.getElem?_append_right hge, List.getElem?_map] at hc
    obtain ⟨v, hv, rfl⟩ := Option.map_eq_some_iff.mp hc
    exact .inr ⟨hge, v, hv, by rw [← hr.of_fresh]; exact hy⟩

/-- A visit that does not change the key. -/
theorem hasKey_visit {x x' : Table α} {p : α → Bool} {f : α → α} {l : Nat}
    {o : Option α} (hf : ∀ r, key (f r) = key r)
    (hvisit : x.visit i p f l = some (o, x')) {k : Nat} {y : κ}
    (h : HasKey key x' k y) : HasKey key x k y := by
  rcases Table.visit_set hvisit with ⟨-, rfl, -⟩ |
    ⟨c, r, hc, -, hseen, -, -, rfl⟩
  · exact h
  · obtain ⟨d, v, hd, hv, hy⟩ := h
    by_cases hl : l = k
    · subst hl
      rw [List.getElem?_set_self (List.getElem?_eq_some_iff.mp hc).1,
        Option.some.injEq] at hd
      subst hd
      rcases hv.of_write with hold | rfl
      · exact ⟨c, v, hc, hold, hy⟩
      · exact ⟨c, r, hc, .seen hseen, by rw [← hy, hf]⟩
    · rw [List.getElem?_set_ne hl] at hd
      exact ⟨d, v, hd, hv, hy⟩

end Keys

variable {κ : Type} {key : Row t → κ}

/-- No row of table `t` gets a key it has not had. -/
def NoNewKeys (t : τ) (key : Row t → κ) (w w' : World π Row ω) : Prop :=
  ∀ k y, HasKey key (w'.db t) k y → HasKey key (w.db t) k y

theorem NoNewKeys.same (hdb : w'.db t = w.db t) : NoNewKeys t key w w' := by
  intro k y h
  rwa [hdb] at h

theorem respects_keys :
    Respects i (NoNewKeys t key : World π Row ω → World π Row ω → Prop) where
  refl _ := .same rfl
  trans h h' := fun k y hk => h k y (h' k y hk)
  opens w pt := .same (by unfold World.openStatement; split <;> rfl)
  fails _ := fun _ _ h => hasKey_rollback h
  completes w := by
    unfold World.completeStatement
    split
    · exact fun _ _ h => hasKey_commit h
    · exact .same rfl
  begins _ := .same rfl
  drops _ := fun _ _ h => hasKey_rollback h
  commits _ _ := fun _ _ h => hasKey_commit h

theorem keys_other [DecidableEq τ] {u : τ} (hu : u ≠ t) (x : Table (Row u)) :
    NoNewKeys t key w (w.setTable u x) :=
  .same (by simp [World.setTable, Function.update_of_ne (Ne.symm hu)])

theorem keys_visit [DecidableEq τ] {p : Row t → Bool} {f : Row t → Row t}
    {l : Nat} {o : Option (Row t)} {x : Table (Row t)}
    (hf : ∀ r, key (f r) = key r)
    (hvisit : (w.db t).visit i p f l = some (o, x)) :
    NoNewKeys t key w (w.setTable t x) := by
  intro k y h
  simp only [World.setTable, Function.update_self] at h
  exact hasKey_visit hf hvisit h

end DpopAuth.Verified.RowHistories
