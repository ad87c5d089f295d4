import DpopAuth.Verified.AtomicRules

/-!
# A block that does not commit

Inside a transaction block a session changes no committed row.  `Discardable`
says so of the state between two steps; every statement keeps it, whether it
succeeds, fails, or meets an aborted block.  So a block that ends without a
successful `COMMIT` leaves the committed rows of all tables as they were.

## Main results

* `every_select`, `every_insert`, `every_update` — statements in a block.
* `discardable_rollback` — the end of the block.
-/

namespace DpopAuth.Verified.BlockRules

open DpopAuth.Verified.Resumption
open DpopAuth.Verified.RelyGuarantee
open DpopAuth.Verified.RowVersions
open DpopAuth.Verified.Transactions
open DpopAuth.Verified.AtomicRules

/-! ## Committed rows -/

section Tables

variable {ρ : Type} {i : Nat} {t t' : Table ρ}

theorem rows_rollback : (t.rollback i).rows = t.rows := by
  simp [Table.rollback, Table.rows, List.filterMap_map]

theorem rows_visit {p : ρ → Bool} {f : ρ → ρ} {k : Nat} {o : Option ρ}
    (h : t.visit i p f k = some (o, t')) : t'.rows = t.rows := by
  rcases Table.visit_cases h with ⟨-, rfl, -⟩ |
    ⟨pre, c, post, r, rfl, -, -, -, -, -, rfl⟩
  · rfl
  · rw [Table.rows, Table.rows, List.filterMap_append, List.filterMap_append,
      List.filterMap_cons, List.filterMap_cons, Cell.write_committed]

theorem rows_append_fresh (rs : List ρ) :
    (t ++ rs.map (Cell.fresh i)).rows = t.rows := by
  simp [Table.rows, Cell.fresh, List.filterMap_append, List.filterMap_map,
    Function.comp_def]

/-- What a transaction sees, it commits or finds committed. -/
theorem view_commit {r : ρ} (h : r ∈ t.view i) : r ∈ (t.commit i).rows := by
  obtain ⟨c, hc, hseen⟩ := List.mem_filterMap.mp h
  refine Table.mem_rows.mpr ⟨c.commit i, List.mem_map_of_mem hc, ?_⟩
  obtain ⟨v, _ | ⟨j, x⟩⟩ := c
  · exact hseen
  · by_cases hj : j = i
    · simpa [Cell.seenBy, Cell.commit, hj] using hseen
    · simpa [Cell.seenBy, Cell.commit, hj] using hseen

theorem view_insert_self (r : ρ) : r ∈ (t.insert i r).view i := by
  refine List.mem_filterMap.mpr ⟨Cell.fresh i r, ?_, ?_⟩
  · exact List.mem_append_right _ List.mem_cons_self
  · simp [Cell.fresh, Cell.seenBy]

/-- An undisturbed `UPDATE` keeps a visible row, or its new version. -/
theorem view_sweep {p : ρ → Bool} {f : ρ → ρ} {r : ρ} (h : r ∈ t.view i) :
    r ∈ (t.sweep i p f).view i ∨ f r ∈ (t.sweep i p f).view i := by
  obtain ⟨c, hc, hseen⟩ := List.mem_filterMap.mp h
  by_cases hp : p r = true
  · refine .inr (List.mem_filterMap.mpr ⟨c.write i (f r), ?_, ?_⟩)
    · exact List.mem_map.mpr ⟨c, hc, by simp [hseen, hp]⟩
    · simp [Cell.write, Cell.seenBy]
  · exact .inl (List.mem_filterMap.mpr ⟨c,
      List.mem_map.mpr ⟨c, hc, by simp [hseen, hp]⟩, hseen⟩)

end Tables

variable {π ω ν τ β : Type} {Row : τ → Type} {i : Nat}
  {w w' : World π Row ω} {pt : π} {t : τ} {rows : ∀ t, List (Row t)}
  {M : ω → Prop}

/-- Session `i` is in a block, the committed rows are `rows`, and the memory
satisfies `M`. -/
structure Discardable (i : Nat) (rows : ∀ t, List (Row t)) (M : ω → Prop)
    (w : World π Row ω) : Prop where
  inside : (w.session i).status = .explicit ∨ (w.session i).status = .aborted
  rows_eq : ∀ t, (w.db t).rows = rows t
  mem : M w.mem

/-- An action that keeps a block discardable. -/
abbrev Keeps (i : Nat) (rows : ∀ t, List (Row t)) (M : ω → Prop)
    (f : Action (World π Row ω) (Choice ν) β) : Prop :=
  ∀ {w ch b w'}, Discardable i rows M w → f i ch w = some (b, w') →
    Discardable i rows M w'

theorem Discardable.open (h : Discardable i rows M w) :
    Discardable i rows M (w.openStatement i pt) := by
  refine ⟨?_, fun t => by rw [db_open]; exact h.rows_eq t, ?_⟩
  · rcases h.inside with hs | hs <;>
      simp [World.openStatement, World.setSession, hs]
  · rcases h.inside with hs | hs <;>
      simpa [World.openStatement, World.setSession, hs] using h.mem

theorem Discardable.fail (h : Discardable i rows M w) :
    Discardable i rows M (w.failStatement i) := by
  refine ⟨?_, fun t => (rows_rollback).trans (h.rows_eq t), h.mem⟩
  rcases h.inside with hs | hs <;> simp [World.failStatement, hs]

theorem Discardable.complete (h : Discardable i rows M w) :
    Discardable i rows M (w.completeStatement i) := by
  rcases h.inside with hs | hs
  · refine ⟨?_, fun t => ?_, ?_⟩ <;>
      simp [World.completeStatement, World.setSession, hs, h.rows_eq, h.mem]
  · refine ⟨?_, fun t => ?_, ?_⟩ <;>
      simp [World.completeStatement, World.setSession, hs, h.rows_eq, h.mem]

theorem Discardable.setTable [DecidableEq τ] {x : Table (Row t)}
    (h : Discardable i rows M w) (hx : x.rows = (w.db t).rows) :
    Discardable i rows M (w.setTable t x) := by
  refine ⟨h.inside, fun u => ?_, h.mem⟩
  by_cases hu : u = t
  · subst hu
    simpa [World.setTable, hx] using h.rows_eq u
  · simpa [World.setTable, hu] using h.rows_eq u

theorem Discardable.beginTx (hrows : ∀ t, (w.db t).rows = rows t)
    (hM : M w.mem) : Discardable i rows M (w.beginTx i) :=
  ⟨by simp [World.beginTx, World.setSession], hrows, hM⟩

/-- A block that ends without its changes. -/
theorem discardable_rollback (h : Discardable i rows M w) :
    (∀ t, ((w.rollbackTx i).db t).rows = rows t) ∧ M (w.rollbackTx i).mem :=
  ⟨fun t => (rows_rollback).trans (h.rows_eq t), h.mem⟩

theorem keeps_statement
    {f : Nat → World π Row ω → Option (Except SqlxError β × World π Row ω)}
    (hf : ∀ {w r w'}, Discardable i rows M w → f i w = some (r, w') →
      Discardable i rows M w') : Keeps (ν := ν) i rows M (statement pt f) := by
  intro w ch r w' hw hstep
  rcases statement_cases hstep with ⟨-, rfl, -⟩ | ⟨-, rfl, -⟩ | ⟨-, hrun⟩
  · exact hw
  · exact hw.fail
  · exact hf hw.open hrun

theorem every_select {f : Int → (∀ t, List (Row t)) → β} :
    (select (ω := ω) (ν := ν) pt f).Every (Keeps i rows M) := by
  refine Prog.Every.step (φ := Keeps i rows M) ?_
  refine keeps_statement fun hw hrun => ?_
  simp only [Option.some.injEq, Prod.mk.injEq] at hrun
  rw [← hrun.2]
  exact hw.complete

section Writes

variable [DecidableEq τ]

theorem every_insert {dup : Row t → Row t → Bool} {rs : Int → List (Row t)} :
    (insert (ω := ω) (ν := ν) pt t dup rs).Every (Keeps i rows M) := by
  refine Prog.Every.step (φ := Keeps i rows M) ?_
  refine keeps_statement fun {w r w'} hw hrun => ?_
  split at hrun
  · cases hrun
  · simp only [Option.some.injEq, Prod.mk.injEq] at hrun
    rw [← hrun.2]
    exact hw.fail
  · rename_i x hx
    simp only [Option.some.injEq, Prod.mk.injEq] at hrun
    have hrows : x.rows = (w.db t).rows := by
      rw [insertRows_ok hx]
      exact rows_append_fresh _
    rw [← hrun.2]
    exact (hw.setTable hrows).complete

theorem every_visits {p : Int → Row t → Bool} {f : Int → Row t → Row t}
    (ks : List Nat) : ∀ done,
      (updateVisits (ω := ω) (ν := ν) pt t p f done ks).Every
        (Keeps i rows M) := by
  induction ks with
  | nil =>
      intro done
      refine ⟨keeps_statement fun hw hrun => ?_, fun r => ?_⟩
      · simp only [Option.some.injEq, Prod.mk.injEq] at hrun
        rw [← hrun.2]
        exact hw.complete
      · cases r <;> trivial
  | cons k ks ih =>
      intro done
      refine ⟨keeps_statement fun {w r w'} hw hrun => ?_, fun r => ?_⟩
      · split at hrun
        · cases hrun
        · rename_i o x hvisit
          simp only [Option.some.injEq, Prod.mk.injEq] at hrun
          rw [← hrun.2]
          exact hw.setTable (rows_visit hvisit)
      · cases r with
        | error e => trivial
        | ok o => exact ih _

theorem every_update {p : Int → Row t → Bool} {f : Int → Row t → Row t} :
    (update (ω := ω) (ν := ν) pt t p f).Every (Keeps i rows M) := by
  refine ⟨keeps_statement fun hw hrun => ?_, fun r => ?_⟩
  · simp only [Option.some.injEq, Prod.mk.injEq] at hrun
    rw [← hrun.2]
    exact hw
  · cases r with
    | error e => trivial
    | ok ks => exact every_visits ks []

end Writes

end DpopAuth.Verified.BlockRules
