import DpopAuth.Verified.StepRules

/-!
# Unique indexes under row versions

An open transaction may still commit or roll back, so what a table will contain
depends on which of them commit.  `Cell.outcome S` is what is left of a row if
exactly the sessions in `S` do.  A table is `Unique` if no outcome contains a
duplicate.  The committed rows are one outcome, what a session sees is another.

Commit and rollback only forget outcomes.  An `INSERT` that has waited for the
duplicates of other transactions and has not seen one of its own adds none; an
`UPDATE` adds none if the new version collides with nothing the old one does
not collide with, as when a row leaves a partial index.

## Main results

* `unique_insert`, `unique_visit` — one write.
* `within_indexed_insert`, `within_indexed_update` — the statements.
* `Unique.rows`, `Unique.view` — what is committed, and what a session sees.
* `find?_eq_of_perm` — a lookup by key does not depend on the order of rows.
-/

namespace DpopAuth.Verified.UniqueIndex

open DpopAuth.Verified.Resumption
open DpopAuth.Verified.RowVersions
open DpopAuth.Verified.Transactions
open DpopAuth.Verified.StepRules

section Cells

variable {ρ : Type} {c : Cell ρ} {i : Nat} {S : Nat → Bool} {r v : ρ}

/-- What becomes of a row if exactly the sessions in `S` commit. -/
def outcome (S : Nat → Bool) (c : Cell ρ) : Option ρ :=
  match c.pending with
  | some (j, v) => if S j then some v else c.committed
  | none => c.committed

theorem outcome_none (c : Cell ρ) : outcome (fun _ => false) c = c.committed := by
  unfold outcome
  split <;> simp

theorem outcome_self (i : Nat) (c : Cell ρ) :
    outcome (fun j => decide (j = i)) c = c.seenBy i := by
  obtain ⟨r, _ | ⟨j, v⟩⟩ := c
  · rfl
  · by_cases hj : j = i
    · simp [outcome, Cell.seenBy, hj]
    · simp [outcome, Cell.seenBy, hj]

theorem outcome_commit (i : Nat) (S : Nat → Bool) (c : Cell ρ) :
    outcome S (c.commit i) = outcome (Function.update S i true) c := by
  obtain ⟨r, _ | ⟨j, v⟩⟩ := c
  · rfl
  · by_cases hj : j = i
    · subst hj
      simp [outcome, Cell.commit]
    · simp [outcome, Cell.commit, hj]

theorem outcome_rollback (i : Nat) (S : Nat → Bool) (c : Cell ρ) :
    outcome S (c.rollback i) = outcome (Function.update S i false) c := by
  obtain ⟨r, _ | ⟨j, v⟩⟩ := c
  · rfl
  · by_cases hj : j = i
    · subst hj
      simp [outcome, Cell.rollback]
    · simp [outcome, Cell.rollback, hj]

/-- A row nobody else holds: the session decides. -/
theorem outcome_free (hfree : c.blocks i = false) :
    outcome S c = if S i then c.seenBy i else c.committed := by
  obtain ⟨r, _ | ⟨j, v⟩⟩ := c
  · simp [outcome]
  · obtain rfl : j = i := by simpa [Cell.blocks] using hfree
    simp [outcome, Cell.seenBy]

theorem outcome_write (hfree : c.blocks i = false) :
    outcome S (c.write i v) = if S i then some v else outcome S c := by
  by_cases hS : S i = true
  · simp [outcome, Cell.write, hS]
  · rw [outcome_free hfree]
    simp [outcome, Cell.write, hS]

/-- Each outcome of a row is one of its versions. -/
theorem outcome_version (h : outcome S c = some r) :
    c.committed = some r ∨ ∃ j, c.pending = some (j, r) := by
  obtain ⟨v, _ | ⟨j, x⟩⟩ := c
  · exact .inl h
  · by_cases hS : S j = true
    · simp only [outcome, hS, if_true, Option.some.injEq] at h
      exact .inr ⟨j, by rw [h]⟩
    · simp only [outcome, hS] at h
      exact .inl h

end Cells

/-! ## Tables -/

section Tables

variable {ρ : Type} {dup : ρ → ρ → Bool} {i : Nat} {x y : Table ρ}

/-- Two rows do not collide, whoever commits. -/
def Apart (dup : ρ → ρ → Bool) (c d : Cell ρ) : Prop :=
  ∀ S r v, outcome S c = some r → outcome S d = some v → dup r v = false

/-- No outcome of the table contains a duplicate. -/
def Unique (dup : ρ → ρ → Bool) (x : Table ρ) : Prop := x.Pairwise (Apart dup)

theorem unique_nil : Unique dup [] := .nil

theorem unique_commit (h : Unique dup x) : Unique dup (x.commit i) := by
  refine List.pairwise_map.mpr (List.Pairwise.imp (fun hcd S r v hr hv => ?_) h)
  rw [outcome_commit] at hr hv
  exact hcd _ r v hr hv

theorem unique_rollback (h : Unique dup x) : Unique dup (x.rollback i) := by
  refine List.pairwise_map.mpr (List.Pairwise.imp (fun hcd S r v hr hv => ?_) h)
  rw [outcome_rollback] at hr hv
  exact hcd _ r v hr hv

/-- **A visit of an `UPDATE`**, if the new version collides with nothing the
old one does not collide with. -/
theorem unique_visit {p : ρ → Bool} {f : ρ → ρ} {k : Nat} {o : Option ρ}
    (hleft : ∀ r v, p r = true → dup (f r) v = true → dup r v = true)
    (hright : ∀ r v, p r = true → dup v (f r) = true → dup v r = true)
    (h : Unique dup x) (hvisit : x.visit i p f k = some (o, y)) :
    Unique dup y := by
  rcases Table.visit_cases hvisit with ⟨-, rfl, -⟩ |
    ⟨pre, c, post, r, rfl, -, hfree, hseen, hp, -, rfl⟩
  · exact h
  · -- where the new version is an outcome, the old one was
    have hold : ∀ S v, outcome S (c.write i (f r)) = some v →
        outcome S c = some v ∨ (v = f r ∧ outcome S c = some r) := by
      intro S v hv
      rw [outcome_write hfree] at hv
      by_cases hS : S i = true
      · rw [if_pos hS, Option.some.injEq] at hv
        refine .inr ⟨hv.symm, ?_⟩
        rw [outcome_free hfree, if_pos hS]
        exact hseen
      · rw [if_neg hS] at hv
        exact .inl hv
    obtain ⟨hpre, hrest, hcross⟩ := List.pairwise_append.mp h
    obtain ⟨hc, hpost⟩ := List.pairwise_cons.mp hrest
    refine List.pairwise_append.mpr ⟨hpre, List.pairwise_cons.mpr ⟨?_, hpost⟩, ?_⟩
    · intro d hd S v u hv hu
      rcases hold S v hv with hv | ⟨rfl, hr⟩
      · exact hc d hd S v u hv hu
      · apply Bool.eq_false_iff.mpr
        intro hdup
        have hkeeps := hc d hd S r u hr hu
        rw [hleft r u hp hdup] at hkeeps
        cases hkeeps
    · intro d hd e he S u v hu hv
      rcases List.mem_cons.mp he with rfl | he
      · rcases hold S v hv with hv | ⟨rfl, hr⟩
        · exact hcross d hd c List.mem_cons_self S u v hu hv
        · apply Bool.eq_false_iff.mpr
          intro hdup
          have hkeeps := hcross d hd c List.mem_cons_self S u r hu hr
          rw [hright r u hp hdup] at hkeeps
          cases hkeeps
      · exact hcross d hd e (List.mem_cons_of_mem _ he) S u v hu hv

/-- **An `INSERT`** that has met no duplicate. -/
theorem unique_insert {κ : Type} {Row : κ → Type} {t : κ}
    {dup : Row t → Row t → Bool} (hsymm : ∀ r v, dup r v = dup v r) :
    ∀ {rs : List (Row t)} {x y : Table (Row t)}, Unique dup x →
      insertRows i dup rs x = some (.ok y) → Unique dup y := by
  intro rs
  induction rs with
  | nil =>
      intro x y h hinsert
      simp only [insertRows, Option.some.injEq, Except.ok.injEq] at hinsert
      rwa [← hinsert]
  | cons r rs ih =>
      intro x y h hinsert
      simp only [insertRows] at hinsert
      split at hinsert
      · cases hinsert
      rename_i hblocked
      split at hinsert
      · cases hinsert
      rename_i hview
      refine ih ?_ hinsert
      refine List.pairwise_append.mpr ⟨h, List.pairwise_singleton _ _, ?_⟩
      intro c hc d hd S v u hv hu
      obtain rfl := List.mem_singleton.mp hd
      have hfresh : outcome S (Cell.fresh i r) = some u → S i = true ∧ u = r := by
        intro hout
        by_cases hS : S i = true
        · simp only [outcome, Cell.fresh, hS, if_true, Option.some.injEq] at hout
          exact ⟨hS, hout.symm⟩
        · simp [outcome, Cell.fresh, hS] at hout
      obtain ⟨hS, rfl⟩ := hfresh hu
      rw [hsymm]
      apply Bool.eq_false_iff.mpr
      intro hdup
      by_cases hfree : c.blocks i = false
      · -- a row that is free: the session sees the outcome
        rw [outcome_free hfree, if_pos hS] at hv
        apply hview
        exact List.any_eq_true.mpr ⟨v, List.mem_filterMap.mpr ⟨c, hc, hv⟩, hdup⟩
      · -- a row somebody else holds: neither version collides
        rw [Bool.not_eq_false] at hfree
        apply hblocked
        refine List.any_eq_true.mpr ⟨c, hc, ?_⟩
        rcases outcome_version hv with hcommitted | ⟨j, hpending⟩
        · simp [hfree, hcommitted, hdup]
        · simp [hfree, hpending, hdup]

theorem pairwise_outcome (h : Unique dup x) (S : Nat → Bool) :
    (x.filterMap (outcome S)).Pairwise fun r v => dup r v = false := by
  refine List.pairwise_filterMap.mpr (List.Pairwise.imp ?_ h)
  intro c d hcd r hr v hv
  exact hcd S r v hr hv

/-- The committed rows contain no duplicate. -/
theorem Unique.rows (h : Unique dup x) :
    x.rows.Pairwise fun r v => dup r v = false := by
  have hrows := pairwise_outcome h fun _ => false
  rw [funext outcome_none] at hrows
  exact hrows

/-- No session sees a duplicate. -/
theorem Unique.view (h : Unique dup x) (i : Nat) :
    (x.view i).Pairwise fun r v => dup r v = false := by
  have hview := pairwise_outcome h fun j => decide (j = i)
  rw [funext (outcome_self i)] at hview
  exact hview

/-- A change of rows that the index does not look at. -/
theorem unique_map {g : Cell ρ → Cell ρ}
    (hg : ∀ S c v, outcome S (g c) = some v → ∃ r, outcome S c = some r ∧
      ∀ u, dup v u = dup r u ∧ dup u v = dup u r)
    (h : Unique dup x) : Unique dup (x.map g) := by
  refine List.pairwise_map.mpr (List.Pairwise.imp (fun {c d} hcd => ?_) h)
  intro S r v hr hv
  obtain ⟨r₀, hr₀, hleft⟩ := hg S c r hr
  obtain ⟨v₀, hv₀, hright⟩ := hg S d v hv
  rw [(hleft v).1, (hright r₀).2]
  exact hcd S r₀ v₀ hr₀ hv₀

/-! ## Lookups by key -/

section Lookups

variable {l m : List ρ} {p : ρ → Bool}

/-- Of rows that collide with each other there is one at most. -/
theorem at_most_one (h : l.Pairwise fun r v => dup r v = false)
    (hp : ∀ r v, p r = true → p v = true → dup r v = true) :
    (l.filter p).length ≤ 1 := by
  have hpair : (l.filter p).Pairwise fun r v => dup r v = false := h.filter p
  have hall : ∀ r ∈ l.filter p, p r = true := fun r hr =>
    (List.mem_filter.mp hr).2
  generalize l.filter p = k at hpair hall
  rcases k with _ | ⟨r, _ | ⟨v, rest⟩⟩
  · simp
  · simp
  · have hapart := List.rel_of_pairwise_cons hpair List.mem_cons_self
    have hdup := hp r v (hall r (by simp)) (hall v (by simp))
    rw [hapart] at hdup
    cases hdup

theorem filter_eq_of_perm (hperm : m.Perm l)
    (h : l.Pairwise fun r v => dup r v = false)
    (hp : ∀ r v, p r = true → p v = true → dup r v = true) :
    m.filter p = l.filter p := by
  have hone := at_most_one h hp
  have hfilter : (m.filter p).Perm (l.filter p) := hperm.filter p
  rcases hl : l.filter p with _ | ⟨r, _ | ⟨v, rest⟩⟩
  · rw [hl] at hfilter
    exact hfilter.eq_nil
  · rw [hl] at hfilter
    exact List.perm_singleton.mp hfilter
  · rw [hl] at hone
    simp at hone

/-- The row that qualifies is the only one. -/
theorem filter_eq_singleton (h : l.Pairwise fun r v => dup r v = false)
    (hp : ∀ r v, p r = true → p v = true → dup r v = true) {r : ρ}
    (hr : r ∈ l) (hpr : p r = true) : l.filter p = [r] := by
  have hone := at_most_one h hp
  have hmem : r ∈ l.filter p := List.mem_filter.mpr ⟨hr, hpr⟩
  rcases hl : l.filter p with _ | ⟨v, _ | ⟨u, rest⟩⟩
  · rw [hl] at hmem
    cases hmem
  · rw [hl] at hmem
    rw [List.mem_singleton.mp hmem]
  · rw [hl] at hone
    simp at hone

/-- **A lookup by key** does not depend on the order of the rows. -/
theorem find?_eq_of_perm (hperm : m.Perm l)
    (h : l.Pairwise fun r v => dup r v = false)
    (hp : ∀ r v, p r = true → p v = true → dup r v = true) :
    m.find? p = l.find? p := by
  rw [← List.head?_filter, ← List.head?_filter, filter_eq_of_perm hperm h hp]

/-- A lookup in some of the rows is one in those that qualify. -/
theorem findSome?_if {β : Type} (p : ρ → Bool) (f : ρ → Option β) :
    ∀ l : List ρ, (l.findSome? fun a => if p a then f a else none) =
      (l.filter p).findSome? f
  | [] => rfl
  | a :: l => by
      by_cases hp : p a = true
      · simp only [List.findSome?_cons, hp, if_true, List.filter_cons_of_pos]
        rw [findSome?_if p f l]
      · simp only [List.findSome?_cons, hp, List.filter_cons_of_neg,
          Bool.false_eq_true, not_false_eq_true, if_false]
        exact findSome?_if p f l

end Lookups

end Tables

/-! ## Statements -/

variable {π ω ν τ : Type} {Row : τ → Type} {i : Nat} {t : τ}
  {dup : ∀ t, Row t → Row t → Bool} {w w' : World π Row ω}

/-- Every table keeps its index. -/
def Indexed (dup : ∀ t, Row t → Row t → Bool) (w : World π Row ω) : Prop :=
  ∀ t, Unique (dup t) (w.db t)

/-- Steps that keep the indexes. -/
def KeepIndexed (dup : ∀ t, Row t → Row t → Bool) (w w' : World π Row ω) :
    Prop := Indexed dup w → Indexed dup w'

theorem indexed_same (hdb : w'.db = w.db) : KeepIndexed dup w w' := by
  intro h t
  rw [hdb]
  exact h t

theorem respects_indexed :
    Respects i (KeepIndexed dup : World π Row ω → World π Row ω → Prop) where
  refl _ := fun h => h
  trans h h' := fun hw => h' (h hw)
  opens w pt := by unfold World.openStatement; split <;> exact fun h => h
  fails _ := fun h t => unique_rollback (h t)
  completes w := by
    unfold World.completeStatement
    split
    · exact fun h t => unique_commit (h t)
    · exact fun h => h
  begins _ := fun h => h
  drops _ := fun h t => unique_rollback (h t)
  commits _ _ := fun h t => unique_commit (h t)

variable [DecidableEq τ] {pt : π}

theorem Indexed.setTable (h : Indexed dup w) {x : Table (Row t)}
    (hx : Unique (dup t) x) : Indexed dup (w.setTable t x) := by
  intro u
  by_cases hu : u = t
  · subst hu
    simp only [World.setTable, Function.update_self]
    exact hx
  · simp only [World.setTable, Function.update_of_ne hu]
    exact h u

theorem within_indexed_insert (dup : ∀ t, Row t → Row t → Bool) (t : τ)
    (hsymm : ∀ r v, dup t r v = dup t v r) {rs : Int → List (Row t)} :
    (insert (ω := ω) (ν := ν) pt t (dup t) rs).Every
      (Within i (KeepIndexed dup)) :=
  within_insert respects_indexed fun hinsert h =>
    h.setTable (unique_insert hsymm (h t) hinsert)

theorem within_indexed_update (dup : ∀ t, Row t → Row t → Bool) (t : τ)
    {p : Int → Row t → Bool} {f : Int → Row t → Row t}
    (hleft : ∀ now r v, p now r = true → dup t (f now r) v = true →
      dup t r v = true)
    (hright : ∀ now r v, p now r = true → dup t v (f now r) = true →
      dup t v r = true) :
    (update (ω := ω) (ν := ν) pt t p f).Every (Within i (KeepIndexed dup)) :=
  within_update respects_indexed fun {w _ _ _} hvisit h =>
    h.setTable (unique_visit (hleft (w.now i)) (hright (w.now i)) (h t) hvisit)

end DpopAuth.Verified.UniqueIndex
