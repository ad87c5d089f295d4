import DpopAuth.Verified.TransactionRules

/-!
# What a transaction block has written

While a block is open, the versions it has written stand in the cells its
session holds, and no other session can change them.  A `Draft` lists
properties of such versions; a session that is `Drafting` it has written a
version with each of them, or its block is aborted.

The rules follow a draft through the statements of the block.  Where the
`COMMIT` is not sent in an aborted block, every property of the draft is one
of a committed row afterwards: `Outline.draft`.

## Main results

* `shut_select`, `shut_insert`, `shut_update` — no statement of an open block
  changes a committed row.
* `draft_select`, `draft_insert`, `draft_update` — the statements.
* `Outline.draft` — the block.
-/

namespace DpopAuth.Verified.BlockDrafts

open DpopAuth.Verified.Resumption
open DpopAuth.Verified.RelyGuarantee
open DpopAuth.Verified.RowVersions
open DpopAuth.Verified.Transactions
open DpopAuth.Verified.TransactionRules

variable {π ω ν τ α β E : Type} {Row : τ → Type} {i j : Nat} {t : τ}
  {w w' : World π Row ω}

/-! ## Drafts -/

/-- Session `i` has written a version with the property, and not committed
it. -/
def Wrote (i : Nat) (t : τ) (ψ : Row t → Prop) (w : World π Row ω) : Prop :=
  ∃ c ∈ w.db t, ∃ r, c.pending = some (i, r) ∧ ψ r

/-- Properties of versions. -/
abbrev Draft (Row : τ → Type) := List (Σ t, Row t → Prop)

/-- Session `i` has written a version with each of the properties, unless its
block is aborted. -/
def Drafting (i : Nat) (D : Draft Row) (w : World π Row ω) : Prop :=
  (w.session i).status = .aborted ∨
    (w.session i).status = .explicit ∧ ∀ x ∈ D, Wrote i x.1 x.2 w

/-- A committed row has each of the properties. -/
def Published (D : Draft Row) (w : World π Row ω) : Prop :=
  ∀ x ∈ D, ∃ r ∈ (w.db x.1).rows, x.2 r

variable {D : Draft Row} {ψ : Row t → Prop}

theorem Wrote.frame (hne : j ≠ i) (hf : w.Frame j w') (h : Wrote i t ψ w) :
    Wrote i t ψ w' := by
  obtain ⟨c, hc, r, hr, hψ⟩ := h
  obtain ⟨k, hk⟩ := List.mem_iff_getElem?.mp hc
  have hheld : c.heldBy i = true := by simp [Cell.heldBy, hr]
  have hsame := (hf.held i (Ne.symm hne) t k c hheld).mp hk
  exact ⟨c, List.mem_of_getElem? hsame, r, hr, hψ⟩

theorem Wrote.same (hdb : w'.db t = w.db t) (h : Wrote i t ψ w) :
    Wrote i t ψ w' := by
  unfold Wrote
  rw [hdb]
  exact h

theorem Wrote.commit (hdb : w'.db t = (w.db t).commit i) (h : Wrote i t ψ w) :
    ∃ r ∈ (w'.db t).rows, ψ r := by
  obtain ⟨c, hc, r, hr, hψ⟩ := h
  refine ⟨r, ?_, hψ⟩
  rw [hdb]
  refine Table.mem_rows.mpr ⟨c.commit i, List.mem_map_of_mem hc, ?_⟩
  obtain ⟨v, p⟩ := c
  simp only at hr
  simp [Cell.commit, hr]

/-- Other sessions do not interfere. -/
theorem Drafting.frame (hne : j ≠ i) (hf : w.Frame j w') (h : Drafting i D w) :
    Drafting i D w' := by
  unfold Drafting
  rw [hf.session i (Ne.symm hne)]
  rcases h with haborted | ⟨hexplicit, hall⟩
  · exact .inl haborted
  · exact .inr ⟨hexplicit, fun x hx => (hall x hx).frame hne hf⟩

theorem Drafting.same (hdb : w'.db = w.db) (hsession : w'.session = w.session)
    (h : Drafting i D w) : Drafting i D w' := by
  unfold Drafting
  rw [hsession]
  rcases h with haborted | ⟨hexplicit, hall⟩
  · exact .inl haborted
  · exact .inr ⟨hexplicit, fun x hx => (hall x hx).same (by rw [hdb])⟩

theorem Drafting.fail {D' : Draft Row} (h : Drafting i D w) :
    Drafting i D' (w.failStatement i) := by
  left
  rcases h with haborted | ⟨hexplicit, -⟩
  · simp [World.failStatement, haborted]
  · simp [World.failStatement, hexplicit]

/-- Part of a draft. -/
theorem Drafting.part {D' : Draft Row} (h : Drafting i D w) (hD : D' ⊆ D) :
    Drafting i D' w := by
  rcases h with haborted | ⟨hexplicit, hall⟩
  · exact .inl haborted
  · exact .inr ⟨hexplicit, fun x hx => hall x (hD hx)⟩

/-! ## Writes -/

section Writes

variable [DecidableEq τ] {u : τ} {ψ : Row u → Prop}

theorem wrote_insert {dup : Row t → Row t → Bool} {rs : List (Row t)}
    {x : Table (Row t)} (hinsert : insertRows i dup rs (w.db t) = some (.ok x))
    (h : Wrote i u ψ w) : Wrote i u ψ (w.setTable t x) := by
  obtain ⟨c, hc, hr⟩ := h
  refine ⟨c, ?_, hr⟩
  by_cases hu : u = t
  · subst hu
    simp only [World.setTable, Function.update_self]
    rw [insertRows_ok hinsert]
    exact List.mem_append_left _ hc
  · simp only [World.setTable, Function.update_of_ne hu]
    exact hc

theorem wrote_inserted {dup : Row t → Row t → Bool} {r : Row t}
    {x : Table (Row t)} (hinsert : insertRows i dup [r] (w.db t) = some (.ok x))
    {ψ : Row t → Prop} (hr : ψ r) : Wrote i t ψ (w.setTable t x) := by
  refine ⟨Cell.fresh i r, ?_, r, rfl, hr⟩
  simp only [World.setTable, Function.update_self]
  rw [insertRows_ok hinsert]
  simp

/-- A visit of an `UPDATE` whose new versions keep the property. -/
theorem wrote_visit {p : Row t → Bool} {f : Row t → Row t} {k : Nat}
    {o : Option (Row t)} {x : Table (Row t)}
    (hf : ∀ φ : Row t → Prop, (⟨t, φ⟩ : Σ t, Row t → Prop) = ⟨u, ψ⟩ →
      ∀ r, φ r → φ (f r))
    (hvisit : (w.db t).visit i p f k = some (o, x)) (h : Wrote i u ψ w) :
    Wrote i u ψ (w.setTable t x) := by
  by_cases hu : u = t
  · subst hu
    obtain ⟨c, hc, r, hr, hψ⟩ := h
    unfold Wrote
    simp only [World.setTable, Function.update_self]
    rcases Table.visit_cases hvisit with ⟨-, rfl, -⟩ |
      ⟨pre, d, post, v, htable, -, -, hseen, -, -, rfl⟩
    · exact ⟨c, hc, r, hr, hψ⟩
    · rw [htable] at hc
      rcases List.mem_append.mp hc with hpre | hrest
      · exact ⟨c, List.mem_append_left _ hpre, r, hr, hψ⟩
      rcases List.mem_cons.mp hrest with rfl | hpost
      · -- the session's own version is the one it sees
        have hsame : r = v := by simpa [Cell.seenBy, hr] using hseen
        subst hsame
        refine ⟨_, List.mem_append_right _ List.mem_cons_self, f r,
          Cell.write_pending _ _ _, hf ψ rfl r hψ⟩
      · exact ⟨c, List.mem_append_right _ (List.mem_cons_of_mem _ hpost), r, hr,
          hψ⟩
  · exact h.same (by simp only [World.setTable, Function.update_of_ne hu])

/-- A visit that writes a version with the property. -/
theorem wrote_visited {p : Row t → Bool} {f : Row t → Row t} {k : Nat}
    {r : Row t} {x : Table (Row t)} {ψ : Row t → Prop}
    (hf : ∀ r, p r = true → ψ (f r))
    (hvisit : (w.db t).visit i p f k = some (some r, x)) :
    Wrote i t ψ (w.setTable t x) := by
  rcases Table.visit_cases hvisit with ⟨h, -⟩ |
    ⟨pre, c, post, v, -, -, -, -, hp, -, rfl⟩
  · cases h
  · refine ⟨c.write i (f v), ?_, f v, Cell.write_pending _ _ _, hf v hp⟩
    simp [World.setTable]

end Writes

/-! ## Nothing is published -/

/-- Session `i` has a block open. -/
def Opened (i : Nat) (w : World π Row ω) : Prop :=
  (w.session i).status = .explicit ∨ (w.session i).status = .aborted

/-- A step that publishes nothing while a block is open. -/
def Shut (i : Nat) (f : Action (World π Row ω) (Choice ν) β) : Prop :=
  ∀ ⦃ch w b w'⦄, f i ch w = some (b, w') → Opened i w →
    Opened i w' ∧ ∀ t, (w'.db t).rows = (w.db t).rows

theorem rows_rollback {ρ : Type} (i : Nat) (x : Table ρ) :
    (x.rollback i).rows = x.rows := by
  simp only [Table.rollback, Table.rows, List.filterMap_map]
  exact List.filterMap_congr fun c _ => Cell.rollback_committed i c

theorem rows_visit {ρ : Type} {p : ρ → Bool} {f : ρ → ρ} {k : Nat}
    {o : Option ρ} {x y : Table ρ} (h : x.visit i p f k = some (o, y)) :
    y.rows = x.rows := by
  rcases Table.visit_cases h with ⟨-, rfl, -⟩ |
    ⟨pre, c, post, r, rfl, -, -, -, -, -, rfl⟩
  · rfl
  · simp [Table.rows, List.filterMap_append, List.filterMap_cons]

theorem rows_fresh {ρ : Type} (x : Table ρ) (rs : List ρ) :
    Table.rows (x ++ rs.map (Cell.fresh i)) = x.rows := by
  have hnone : (rs.map (Cell.fresh i)).filterMap Cell.committed = [] := by
    rw [List.filterMap_map]
    exact List.filterMap_eq_nil_iff.mpr fun r _ => rfl
  simp only [Table.rows, List.filterMap_append, hnone, List.append_nil]

theorem shut_statement {pt : π}
    {f : Nat → World π Row ω → Option (Except SqlxError β × World π Row ω)}
    (hf : ∀ {w r w'}, f i w = some (r, w') → (w.session i).status = .explicit →
      Opened i w' ∧ ∀ t, (w'.db t).rows = (w.db t).rows) :
    Shut i (statement (ν := ν) pt f) := by
  intro ch w r w' hstep hblock
  rcases statement_cases hstep with ⟨-, rfl, -⟩ | ⟨hne, rfl, -, -⟩ | ⟨hne, hrun⟩
  · exact ⟨hblock, fun _ => rfl⟩
  · have hexplicit := hblock.resolve_right hne
    exact ⟨.inr (by simp [World.failStatement, hexplicit]),
      fun t => rows_rollback i (w.db t)⟩
  · have hexplicit := hblock.resolve_right hne
    have hopen : w.openStatement i pt =
        w.setSession i { w.session i with query := some pt } := by
      simp [World.openStatement, hexplicit]
    rw [hopen] at hrun
    obtain ⟨hin, hrows⟩ := hf hrun (by simp [World.setSession, hexplicit])
    exact ⟨hin, fun t => hrows t⟩

theorem shut_complete (h : (w.session i).status = .explicit) :
    Opened i (w.completeStatement i) ∧
      ∀ t, ((w.completeStatement i).db t).rows = (w.db t).rows := by
  refine ⟨.inl ?_, fun t => ?_⟩ <;>
    simp [World.completeStatement, h, World.setSession]

theorem shut_select {pt : π} {f : Int → (∀ t, List (Row t)) → β} :
    (select (ω := ω) (ν := ν) pt f).Every (Shut i) := by
  refine Prog.Every.step (shut_statement fun hrun hst => ?_)
  simp only [Option.some.injEq, Prod.mk.injEq] at hrun
  rw [← hrun.2]
  exact shut_complete hst

section Shut

variable [DecidableEq τ] {pt : π}

theorem rows_setTable {x : Table (Row t)} (hx : x.rows = (w.db t).rows) (u : τ) :
    ((w.setTable t x).db u).rows = (w.db u).rows := by
  by_cases hu : u = t
  · subst hu
    simpa [World.setTable] using hx
  · simp [World.setTable, hu]

theorem shut_insert {dup : Row t → Row t → Bool} {rs : Int → List (Row t)} :
    (insert (ω := ω) (ν := ν) pt t dup rs).Every (Shut i) := by
  refine Prog.Every.step (shut_statement fun {w _ _} hrun hst => ?_)
  split at hrun
  · cases hrun
  · simp only [Option.some.injEq, Prod.mk.injEq] at hrun
    rw [← hrun.2]
    exact ⟨.inr (by simp [World.failStatement, hst]),
      fun t => rows_rollback i (w.db t)⟩
  · rename_i x hx
    simp only [Option.some.injEq, Prod.mk.injEq] at hrun
    rw [← hrun.2]
    have hrows : x.rows = (w.db t).rows := by
      rw [insertRows_ok hx, rows_fresh]
    have hset : ((w.setTable t x).session i).status = .explicit := hst
    obtain ⟨hin, hsame⟩ := shut_complete hset
    exact ⟨hin, fun u => (hsame u).trans (rows_setTable hrows u)⟩

theorem shut_update {p : Int → Row t → Bool} {f : Int → Row t → Row t} :
    (update (ω := ω) (ν := ν) pt t p f).Every (Shut i) := by
  have hvisits : ∀ ks done, (updateVisits (ω := ω) (ν := ν) pt t p f done
      ks).Every (Shut i) := by
    intro ks
    induction ks with
    | nil =>
        intro done
        refine ⟨shut_statement fun hrun hst => ?_, fun r => by cases r <;> trivial⟩
        simp only [Option.some.injEq, Prod.mk.injEq] at hrun
        rw [← hrun.2]
        exact shut_complete hst
    | cons k ks ih =>
        intro done
        refine ⟨shut_statement fun {w _ _} hrun hst => ?_, fun r => ?_⟩
        · split at hrun
          · cases hrun
          · rename_i o x hx
            simp only [Option.some.injEq, Prod.mk.injEq] at hrun
            rw [← hrun.2]
            exact ⟨.inl hst, rows_setTable (rows_visit hx)⟩
        · cases r with
          | error e => trivial
          | ok o => exact ih _
  refine ⟨shut_statement fun hrun hst => ?_, fun r => ?_⟩
  · simp only [Option.some.injEq, Prod.mk.injEq] at hrun
    rw [← hrun.2]
    exact ⟨.inl hst, fun _ => rfl⟩
  · cases r with
    | error e => trivial
    | ok ks => exact hvisits ks []

end Shut

/-! ## Statements -/

variable {L : Logic (World π Row ω)}
  {F : π → Choice ν → World π Row ω → World π Row ω → Prop} {pt : π}

/-- A program that adds to the draft, unless it fails. -/
abbrev Drafts (L : Logic (World π Row ω)) (i : Nat)
    (F : π → Choice ν → World π Row ω → World π Row ω → Prop) (D : Draft Row)
    (p : Prog π (World π Row ω) (Choice ν) (Except E α)) (D' : α → Draft Row) :
    Prop :=
  Outline L F i p (Drafting i D)
    (exceptPost (fun a => Drafting i (D' a)) (Drafting i D))

/-- A step of a statement, from what it does once it is open. -/
theorem drafting_statement
    {f : Nat → World π Row ω → Option (Except SqlxError β × World π Row ω)}
    {ch : Choice ν} {r : Except SqlxError β} {R : β → World π Row ω → Prop}
    (hstep : statement pt f i ch w = some (r, w')) (h : Drafting i D w)
    (hrun : ∀ v, (v.session i).status = .explicit → v.db = w.db →
      Drafting i D v → f i v = some (r, w') →
        exceptPost R (Drafting i D) r w') :
    exceptPost R (Drafting i D) r w' := by
  rcases statement_cases hstep with ⟨-, rfl, e, rfl⟩ | ⟨-, rfl, -, e, rfl⟩ |
    ⟨hne, hf⟩
  · exact h
  · exact h.fail
  · have hexplicit : (w.session i).status = .explicit := by
      rcases h with haborted | h
      · exact absurd haborted hne
      · exact h.1
    have hdb : (w.openStatement i pt).db = w.db := by
      simp [World.openStatement, hexplicit, World.setSession]
    have hstatus : ((w.openStatement i pt).session i).status = .explicit := by
      simp [World.openStatement, hexplicit, World.setSession]
    refine hrun _ hstatus hdb ?_ hf
    rcases h with haborted | ⟨-, hall⟩
    · exact absurd haborted hne
    · exact .inr ⟨hstatus, fun x hx => (hall x hx).same (by rw [hdb])⟩

theorem Drafting.complete (h : Drafting i D w)
    (hst : (w.session i).status = .explicit) :
    Drafting i D (w.completeStatement i) := by
  rcases h with haborted | ⟨-, hall⟩
  · rw [hst] at haborted
    cases haborted
  · refine .inr ⟨?_, fun x hx => (hall x hx).same ?_⟩
    · simp [World.completeStatement, hst, World.setSession]
    · simp [World.completeStatement, hst, World.setSession]

/-- How the region of a block ends: with an error, or with a draft `D` and a
fact `K` about its result. -/
def Submits (i : Nat) (D : α → Draft Row) (K : α → World π Row ω → Prop)
    (Sends : π → Prop) : TxExit π E α → World π Row ω → Prop
  | .leave r, _ => ∃ e, r = .error e
  | .commit pt (.ok a), w => Sends pt ∧ Drafting i (D a) w ∧ K a w
  | .commit _ (.error _), _ => True

section Rules

variable (hL : ∀ D : Draft Row, Stable L i (Drafting i D))
  (hF : ∀ {pt ch w w'}, L.inv w → F pt ch w w' → L.inv w' ∧ L.guar i w w')

include hL hF

theorem draft_select {f : Int → (∀ t, List (Row t)) → β} :
    Drafts L i F D (select (ω := ω) (ν := ν) pt f) fun _ => D := by
  refine Outline.step (fun r => Stable.exceptPost (fun _ => hL D) (hL D) r)
    fun {w ch r w'} hinv hD hstep hw => ?_
  obtain ⟨hinv', hguar⟩ := hF hinv hw
  refine ⟨hinv', hguar, drafting_statement hstep hD fun v hst _ hv hrun => ?_⟩
  simp only [Option.some.injEq, Prod.mk.injEq] at hrun
  rw [← hrun.1, ← hrun.2]
  exact hv.complete hst

/-- Steps that change the memory at most. -/
theorem draft_quiet {p : Prog π (World π Row ω) (Choice ν) α}
    (hp : p.Every fun f => ∀ ⦃ch w b w'⦄, f i ch w = some (b, w') →
      w'.db = w.db ∧ w'.session = w.session) :
    Outline L F i p (Drafting i D) fun _ => Drafting i D := by
  induction p with
  | ret a => exact fun _ _ h => h
  | act pt f next ih =>
      intro w ch b w' hinv hD hstep hw
      obtain ⟨hinv', hguar⟩ := hF hinv hw
      obtain ⟨hdb, hsession⟩ := hp.1 hstep
      exact ⟨hinv', hguar, Drafting i D, hL D, hD.same hdb hsession,
        ih b (hp.2 b)⟩

variable [DecidableEq τ]

theorem draft_insert {dup : Row t → Row t → Bool} {r : Row t} (hr : ψ r) :
    Drafts L i F D (insert (ω := ω) (ν := ν) pt t dup fun _ => [r])
      fun _ => ⟨t, ψ⟩ :: D := by
  refine Outline.step (fun r => Stable.exceptPost (fun _ => hL _) (hL D) r)
    fun {w ch out w'} hinv hD hstep hw => ?_
  obtain ⟨hinv', hguar⟩ := hF hinv hw
  refine ⟨hinv', hguar, drafting_statement hstep hD fun v hst _ hv hrun => ?_⟩
  split at hrun
  · cases hrun
  · simp only [Option.some.injEq, Prod.mk.injEq] at hrun
    rw [← hrun.1, ← hrun.2]
    exact hv.fail
  · rename_i x hx
    simp only [Option.some.injEq, Prod.mk.injEq] at hrun
    rw [← hrun.1, ← hrun.2]
    have hset : Drafting i (⟨t, ψ⟩ :: D) (v.setTable t x) := by
      refine .inr ⟨hst, fun y hy => ?_⟩
      rcases List.mem_cons.mp hy with rfl | hy
      · exact wrote_inserted hx hr
      · rcases hv with haborted | ⟨-, hall⟩
        · rw [hst] at haborted
          cases haborted
        · exact wrote_insert hx (hall y hy)
    exact hset.complete hst

theorem draft_update {p : Int → Row t → Bool} {f : Int → Row t → Row t}
    (hf : ∀ now (φ : Row t → Prop), ⟨t, φ⟩ ∈ D → ∀ r, φ r → φ (f now r)) :
    Drafts L i F D (update (ω := ω) (ν := ν) pt t p f) fun _ => D := by
  refine Outline.update (fun _ _ => Drafting i D) (fun _ _ => hL D)
    (fun _ => hL D) (hL D) ?_ ?_ ?_
  · intro w ch r w' hinv hD hstep hw
    obtain ⟨hinv', hguar⟩ := hF hinv hw
    refine ⟨hinv', hguar, drafting_statement hstep hD fun v _ _ hv hrun => ?_⟩
    simp only [Option.some.injEq, Prod.mk.injEq] at hrun
    rw [← hrun.1, ← hrun.2]
    exact hv
  · intro done k ks w ch r w' hinv hD hstep hw
    obtain ⟨hinv', hguar⟩ := hF hinv hw
    refine ⟨hinv', hguar, drafting_statement hstep hD fun v hst _ hv hrun => ?_⟩
    split at hrun
    · cases hrun
    · rename_i o x hx
      simp only [Option.some.injEq, Prod.mk.injEq] at hrun
      rw [← hrun.1, ← hrun.2]
      rcases hv with haborted | ⟨-, hall⟩
      · rw [hst] at haborted
        cases haborted
      · refine .inr ⟨hst, fun y hy => wrote_visit (fun φ heq r hr => ?_) hx
          (hall y hy)⟩
        exact hf _ φ (heq ▸ hy) r hr
  · intro done w ch r w' hinv hD hstep hw
    obtain ⟨hinv', hguar⟩ := hF hinv hw
    refine ⟨hinv', hguar, drafting_statement hstep hD fun v hst _ hv hrun => ?_⟩
    simp only [Option.some.injEq, Prod.mk.injEq] at hrun
    rw [← hrun.1, ← hrun.2]
    exact hv.complete hst

/-- The rows an `UPDATE` returns stand in the draft. -/
theorem draft_updated {p : Int → Row t → Bool} {f : Int → Row t → Row t}
    (hp : ∀ now r, p now r = true → ψ (f now r))
    (hf : ∀ now r, ψ r → ψ (f now r)) :
    Drafts L i F [] (update (ω := ω) (ν := ν) pt t p f)
      fun rows => rows.map fun _ => ⟨t, ψ⟩ := by
  refine Outline.update (fun done _ => Drafting i (done.map fun _ => ⟨t, ψ⟩))
    (fun _ _ => hL _) (fun _ => hL _) (hL []) ?_ ?_ ?_
  · intro w ch r w' hinv hD hstep hw
    obtain ⟨hinv', hguar⟩ := hF hinv hw
    refine ⟨hinv', hguar, drafting_statement hstep hD fun v _ _ hv hrun => ?_⟩
    simp only [Option.some.injEq, Prod.mk.injEq] at hrun
    rw [← hrun.1, ← hrun.2]
    exact hv
  · intro done k ks w ch r w' hinv hD hstep hw
    obtain ⟨hinv', hguar⟩ := hF hinv hw
    refine ⟨hinv', hguar, ?_⟩
    refine exceptPost_imp (fun _ h => h) (fun h => h.part (by simp))
      (drafting_statement hstep hD fun v hst _ hv hrun => ?_)
    split at hrun
    · cases hrun
    · rename_i o x hx
      simp only [Option.some.injEq, Prod.mk.injEq] at hrun
      rw [← hrun.1, ← hrun.2]
      rcases hv with haborted | ⟨-, hall⟩
      · rw [hst] at haborted
        cases haborted
      · refine .inr ⟨hst, fun y hy => ?_⟩
        obtain ⟨row, hrow, rfl⟩ := List.mem_map.mp hy
        rcases List.mem_append.mp hrow with hdone | hnew
        · refine wrote_visit (fun φ heq r hr => ?_) hx
            (hall _ (List.mem_map_of_mem hdone))
          cases heq
          exact hf _ r hr
        · obtain rfl : o = some row := by simpa using hnew
          exact wrote_visited (fun r hr => hp _ r hr) hx
  · intro done w ch r w' hinv hD hstep hw
    obtain ⟨hinv', hguar⟩ := hF hinv hw
    refine ⟨hinv', hguar, ?_⟩
    refine exceptPost_imp (fun _ h => h) (fun h => h.part (by simp))
      (drafting_statement hstep hD fun v hst _ hv hrun => ?_)
    simp only [Option.some.injEq, Prod.mk.injEq] at hrun
    rw [← hrun.1, ← hrun.2]
    exact hv.complete hst

omit [DecidableEq τ]

/-- **The rule of a block.**  `D` is what the region has drafted when it asks
for its `COMMIT`, which `Sends` says is not sent in an aborted block; `K` is
what else it knows then, and no step of the session falsifies. -/
theorem Outline.draft [Inhabited π] {conv : SqlxError → E}
    {region : Prog π (World π Row ω) (Choice ν) (Except E (TxExit π E α))}
    {P : World π Row ω → Prop} (D : α → Draft Row)
    (K : α → World π Row ω → Prop) (Sends : π → Prop)
    (hsends : ∀ {pt ch w w'}, Sends pt → F pt ch w w' →
      (w.session i).status ≠ .aborted)
    (hpub : ∀ a, Stable L i (Published (D a))) (hK : ∀ a, Stable L i (K a))
    (hkept : ∀ {a w w'}, L.guar i w w' → K a w → K a w')
    (inside : Outline L F i region (Drafting i [])
      (exceptPost (Submits i D K Sends) fun _ => True)) :
    Outline L F i (transaction conv region) P
      (exceptPost (fun a w => Published (D a) w ∧ K a w) fun _ => True) := by
  refine Outline.transaction (Drafting i []) _ (fun _ => True) (hL [])
    (fun r => Stable.exceptPost (fun a => (hpub a).and (hK a)) (.const True) r)
    ?_ inside ?_ ?_
  · intro w w' ch r hinv _ hstep hw
    obtain ⟨hinv', hguar⟩ := hF hinv hw
    refine ⟨hinv', hguar, ?_⟩
    rcases beginStep_cases hstep with ⟨rfl, -, e, rfl⟩ | ⟨rfl, rfl⟩
    · trivial
    · refine .inr ⟨by simp [World.beginTx, World.setSession], ?_⟩
      simp
  · intro w r ch hinv hr hw
    obtain ⟨hinv', hguar⟩ := hF hinv hw
    refine ⟨hinv', hguar, ?_⟩
    rcases hr with ⟨e, rfl, -⟩ | ⟨e, rfl⟩
    · trivial
    · trivial
  · intro w ch pt r r' w' hinv hS hstep hw
    obtain ⟨hinv', hguar⟩ := hF hinv hw
    refine ⟨hinv', hguar, ?_⟩
    cases r with
    | error e => cases r' <;> trivial
    | ok a =>
        obtain ⟨hpt, hD, hknown⟩ := hS
        have hsent := hsends hpt hw
        rcases commitStep_cases hstep with ⟨haborted, -, -⟩ |
          ⟨-, ⟨e, rfl⟩, -, -⟩ | ⟨-, rfl, rfl⟩
        · exact absurd haborted hsent
        · trivial
        · rcases hD with haborted | ⟨-, hall⟩
          · exact absurd haborted hsent
          · exact ⟨fun x hx => (hall x hx).commit rfl, hkept hguar hknown⟩

end Rules

end DpopAuth.Verified.BlockDrafts
