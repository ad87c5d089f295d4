import DpopAuth.Verified.Transactions

/-!
# What every step of a session respects

A relation between states that the parts of a statement respect is respected
by every step of every statement: `Within`.  It is respected by a transaction
block as well, if `BEGIN`, `COMMIT` and `ROLLBACK` respect it.  What a program
writes enters in two places only: the rows an `INSERT` appends, and the
version one visit of an `UPDATE` writes.

Two relations are worked out.  `SameMemory`: no statement touches the memory
of the process or the clock.  `Versions`: a property of all row versions that
every `INSERT` and `UPDATE` gives to what it writes.

A property that every step keeps is a `Logic` of its own, `keeping`, in which
nothing but a fact is stable.

## Main results

* `within_select`, `within_insert`, `within_update`, `within_transaction`.
* `respects_memory`, `respects_versions` and what they ask of a write.
* `keeping_run` — a property kept by every step holds along every run.
* `every_run` — a thread stands at a step of its call.
-/

namespace DpopAuth.Verified.StepRules

open DpopAuth.Verified.Resumption
open DpopAuth.Verified.RelyGuarantee
open DpopAuth.Verified.RowVersions
open DpopAuth.Verified.Transactions

variable {π ω ν τ α β E : Type} {Row : τ → Type} {i : Nat}
  {R : World π Row ω → World π Row ω → Prop} {w w' : World π Row ω}
  {pt : π} {t : τ}

/-! ## Relations the parts of a statement respect -/

/-- `R` holds across each part of a statement of session `i`, and of a
block. -/
structure Respects (i : Nat) (R : World π Row ω → World π Row ω → Prop) :
    Prop where
  refl : ∀ w, R w w
  trans : ∀ {u v w}, R u v → R v w → R u w
  opens : ∀ w pt, R w (w.openStatement i pt)
  fails : ∀ w, R w (w.failStatement i)
  completes : ∀ w, R w (w.completeStatement i)
  begins : ∀ w, R w (w.beginTx i)
  drops : ∀ w, R w (w.rollbackTx i)
  commits : ∀ w pt, R w (w.commitTx i pt)

/-- Two relations at once. -/
theorem Respects.and {S : World π Row ω → World π Row ω → Prop}
    (h : Respects i R) (h' : Respects i S) :
    Respects i fun w w' => R w w' ∧ S w w' where
  refl w := ⟨h.refl w, h'.refl w⟩
  trans hu hv := ⟨h.trans hu.1 hv.1, h'.trans hu.2 hv.2⟩
  opens w pt := ⟨h.opens w pt, h'.opens w pt⟩
  fails w := ⟨h.fails w, h'.fails w⟩
  completes w := ⟨h.completes w, h'.completes w⟩
  begins w := ⟨h.begins w, h'.begins w⟩
  drops w := ⟨h.drops w, h'.drops w⟩
  commits w pt := ⟨h.commits w pt, h'.commits w pt⟩

/-- A family of relations. -/
theorem Respects.forall {κ : Sort _}
    {S : κ → World π Row ω → World π Row ω → Prop}
    (h : ∀ k, Respects i (S k)) : Respects i fun w w' => ∀ k, S k w w' where
  refl w k := (h k).refl w
  trans hu hv k := (h k).trans (hu k) (hv k)
  opens w pt k := (h k).opens w pt
  fails w k := (h k).fails w
  completes w k := (h k).completes w
  begins w k := (h k).begins w
  drops w k := (h k).drops w
  commits w pt k := (h k).commits w pt

/-- A weaker relation that is transitive. -/
theorem Respects.weaken {S : World π Row ω → World π Row ω → Prop}
    (h : Respects i R) (hS : ∀ {w w'}, R w w' → S w w')
    (htrans : ∀ {u v w}, S u v → S v w → S u w) : Respects i S where
  refl w := hS (h.refl w)
  trans := htrans
  opens w pt := hS (h.opens w pt)
  fails w := hS (h.fails w)
  completes w := hS (h.completes w)
  begins w := hS (h.begins w)
  drops w := hS (h.drops w)
  commits w pt := hS (h.commits w pt)

/-- An action of session `i` that stays within `R`. -/
abbrev Within (i : Nat) (R : World π Row ω → World π Row ω → Prop)
    (f : Action (World π Row ω) (Choice ν) β) : Prop :=
  ∀ ⦃ch w b w'⦄, f i ch w = some (b, w') → R w w'

theorem within_statement (h : Respects i R)
    {f : Nat → World π Row ω → Option (Except SqlxError β × World π Row ω)}
    (hf : ∀ {w r w'}, f i w = some (r, w') → R w w') :
    Within i R (statement (ν := ν) pt f) := by
  intro ch w r w' hstep
  rcases statement_cases hstep with ⟨-, rfl, -⟩ | ⟨-, rfl, -⟩ | ⟨-, hrun⟩
  · exact h.refl _
  · exact h.fails _
  · exact h.trans (h.opens w pt) (hf hrun)

theorem within_select (h : Respects i R)
    {f : Int → (∀ t, List (Row t)) → β} :
    (select (ω := ω) (ν := ν) pt f).Every (Within i R) := by
  refine Prog.Every.step (φ := Within i R) (within_statement h fun hrun => ?_)
  simp only [Option.some.injEq, Prod.mk.injEq] at hrun
  rw [← hrun.2]
  exact h.completes _

section Writes

variable [DecidableEq τ]

theorem within_insert (h : Respects i R) {dup : Row t → Row t → Bool}
    {rs : Int → List (Row t)}
    (hinsert : ∀ {w x}, insertRows i dup (rs (w.now i)) (w.db t) =
      some (.ok x) → R w (w.setTable t x)) :
    (insert (ω := ω) (ν := ν) pt t dup rs).Every (Within i R) := by
  refine Prog.Every.step (φ := Within i R) (within_statement h fun hrun => ?_)
  split at hrun
  · cases hrun
  · simp only [Option.some.injEq, Prod.mk.injEq] at hrun
    rw [← hrun.2]
    exact h.fails _
  · rename_i x hx
    simp only [Option.some.injEq, Prod.mk.injEq] at hrun
    rw [← hrun.2]
    exact h.trans (hinsert hx) (h.completes _)

theorem within_update (h : Respects i R) {p : Int → Row t → Bool}
    {f : Int → Row t → Row t}
    (hvisit : ∀ {w k o x}, (w.db t).visit i (p (w.now i)) (f (w.now i)) k =
      some (o, x) → R w (w.setTable t x)) :
    (update (ω := ω) (ν := ν) pt t p f).Every (Within i R) := by
  have hvisits : ∀ ks done, (updateVisits (ω := ω) (ν := ν) pt t p f done
      ks).Every (Within i R) := by
    intro ks
    induction ks with
    | nil =>
        intro done
        refine ⟨within_statement h fun hrun => ?_, fun r => by cases r <;> trivial⟩
        simp only [Option.some.injEq, Prod.mk.injEq] at hrun
        rw [← hrun.2]
        exact h.completes _
    | cons k ks ih =>
        intro done
        refine ⟨within_statement h fun hrun => ?_, fun r => ?_⟩
        · split at hrun
          · cases hrun
          · rename_i o x hx
            simp only [Option.some.injEq, Prod.mk.injEq] at hrun
            rw [← hrun.2]
            exact hvisit hx
        · cases r with
          | error e => trivial
          | ok o => exact ih _
  refine ⟨within_statement h fun hrun => ?_, fun r => ?_⟩
  · simp only [Option.some.injEq, Prod.mk.injEq] at hrun
    rw [← hrun.2]
    exact h.refl _
  · cases r with
    | error e => trivial
    | ok ks => exact hvisits ks []

end Writes

/-- The type of `BEGIN`, `COMMIT` and `ROLLBACK`. -/
abbrev BlockStep (π ω ν : Type) (Row : τ → Type) (β : Type) :=
  Action (World π Row ω) (Choice ν) β

/-- A block of steps with a property, if those of its frame have it. -/
theorem every_transaction [Inhabited π]
    {φ : ∀ {β : Type}, Action (World π Row ω) (Choice ν) β → Prop}
    (hbegin : φ (beginStep : BlockStep π ω ν Row (Except SqlxError Unit)))
    (hdrop : φ (dropStep : BlockStep π ω ν Row Unit))
    (hcommit : ∀ pt, φ (commitStep pt : BlockStep π ω ν Row (Except SqlxError Unit)))
    {conv : SqlxError → E}
    {region : Prog π (World π Row ω) (Choice ν) (Except E (TxExit π E α))}
    (hregion : region.Every φ) : (transaction conv region).Every φ := by
  refine ⟨hbegin, fun r => ?_⟩
  cases r with
  | error e => trivial
  | ok u =>
      refine Prog.Every.bind (fun out => ?_) hregion
      cases out with
      | error e => exact ⟨hdrop, fun _ => trivial⟩
      | ok exit =>
          cases exit with
          | leave r => exact ⟨hdrop, fun _ => trivial⟩
          | commit pt r => exact ⟨hcommit pt, fun r => by cases r <;> trivial⟩

theorem within_begin (h : Respects i R) :
    Within i R (beginStep : BlockStep π ω ν Row (Except SqlxError Unit)) := by
  intro ch w b w' hstep
  rcases beginStep_cases hstep with ⟨rfl, -⟩ | ⟨rfl, -⟩
  · exact h.refl _
  · exact h.begins _

theorem within_drop (h : Respects i R) :
    Within i R (dropStep : BlockStep π ω ν Row Unit) := by
  intro ch w b w' hstep
  rw [dropStep_eq hstep]
  exact h.drops w

theorem within_commit (h : Respects i R) :
    Within i R (commitStep pt : BlockStep π ω ν Row (Except SqlxError Unit)) := by
  intro ch w b w' hstep
  rcases commitStep_cases hstep with ⟨-, -, rfl⟩ | ⟨-, -, -, rfl⟩ | ⟨-, -, rfl⟩
  · exact h.drops _
  · exact h.drops _
  · exact h.commits _ _

theorem within_transaction [Inhabited π] (h : Respects i R)
    {conv : SqlxError → E}
    {region : Prog π (World π Row ω) (Choice ν) (Except E (TxExit π E α))}
    (hregion : region.Every (Within i R)) :
    (transaction conv region).Every (Within i R) :=
  every_transaction (within_begin h) (within_drop h)
    (fun _ => within_commit h) hregion

/-! ## The memory of the process -/

/-- The memory and the clock are the same. -/
def SameMemory (w w' : World π Row ω) : Prop :=
  w'.mem = w.mem ∧ w'.clock = w.clock

theorem respects_memory :
    Respects i (SameMemory : World π Row ω → World π Row ω → Prop) where
  refl _ := ⟨rfl, rfl⟩
  trans h h' := ⟨h'.1.trans h.1, h'.2.trans h.2⟩
  opens w pt := by unfold World.openStatement; split <;> exact ⟨rfl, rfl⟩
  fails _ := ⟨rfl, rfl⟩
  completes w := by unfold World.completeStatement; split <;> exact ⟨rfl, rfl⟩
  begins _ := ⟨rfl, rfl⟩
  drops _ := ⟨rfl, rfl⟩
  commits _ _ := ⟨rfl, rfl⟩

/-! ## Frames -/

theorem respects_frame :
    Respects i (World.Frame i : World π Row ω → World π Row ω → Prop) where
  refl := World.Frame.refl i
  trans h h' := h.trans h'
  opens w pt := World.frame_openStatement i pt w
  fails w := World.frame_failStatement i w
  completes w := World.frame_completeStatement i w
  begins w := World.frame_setSession i _ w
  drops w := World.frame_rollbackTx i w
  commits w pt := World.frame_commitTx i pt w

/-- Outside of every statement and block, session `i` holds nothing. -/
structure AtRest (i : Nat) (w : World π Row ω) : Prop where
  status : (w.session i).status = .idle
  own : ∀ t, (w.db t).own i = []

theorem AtRest.frame {j : Nat} (h : AtRest i w) (hne : i ≠ j)
    (hf : w.Frame j w') : AtRest i w' :=
  ⟨by rw [hf.session i hne]; exact h.status,
    fun t => by rw [(hf.held i hne t).own]; exact h.own t⟩

theorem AtRest.rollback (w : World π Row ω) : AtRest i (w.rollbackTx i) :=
  ⟨by simp [World.rollbackTx], fun _ => Table.own_rollback_self i _⟩

theorem AtRest.fail (h : AtRest i w) : AtRest i (w.failStatement i) :=
  ⟨by simp [World.failStatement, h.status],
    fun _ => Table.own_rollback_self i _⟩

theorem AtRest.opens (h : AtRest i w) :
    w.openStatement i pt =
      w.setSession i ⟨.implicit, w.clock, some pt⟩ := by
  simp only [World.openStatement, h.status]

/-- A `SELECT` outside of a block reads the committed rows. -/
theorem AtRest.select (h : AtRest i w) {f : Int → (∀ t, List (Row t)) → β}
    {ch : Choice ν} {r : Except SqlxError β}
    (hstep : selectStep pt f i ch w = some (r, w')) :
    AtRest i w' ∧ w'.db = w.db ∧
      ((∃ e, r = .error e) ∨ r = .ok (f w.clock fun t => (w.db t).rows)) := by
  have hback : (fun t => (w.db t).rollback i) = w.db :=
    funext fun t => Table.rollback_of_own_nil (h.own t)
  have hcommit : (fun t => (w.db t).commit i) = w.db :=
    funext fun t => Table.commit_of_own_nil (h.own t)
  rcases statement_cases hstep with ⟨hst, -, -⟩ | ⟨-, rfl, -, e, rfl⟩ |
    ⟨-, hrun⟩
  · rw [h.status] at hst
    cases hst
  · exact ⟨h.fail, hback, .inl ⟨e, rfl⟩⟩
  · simp only [Option.some.injEq, Prod.mk.injEq] at hrun
    obtain ⟨rfl, rfl⟩ := hrun
    have hview : w.view i = fun t => (w.db t).rows :=
      funext fun t => Table.view_of_own_nil (h.own t)
    rw [h.opens]
    refine ⟨⟨?_, fun t => ?_⟩, ?_, .inr ?_⟩
    · simp [World.completeStatement, World.setSession]
    · simp only [World.completeStatement, World.setSession, Function.update_self]
      exact Table.own_commit_self i _
    · simp only [World.completeStatement, World.setSession, Function.update_self]
      exact hcommit
    · simp only [World.now, World.setSession, Function.update_self,
        Except.ok.injEq]
      exact congrArg _ hview

/-! ## A property of all versions -/

/-- Both versions of a cell satisfy `ψ`. -/
def CellAll {ρ : Type} (ψ : ρ → Prop) (c : Cell ρ) : Prop :=
  (∀ r, c.committed = some r → ψ r) ∧ ∀ j v, c.pending = some (j, v) → ψ v

section Cells

variable {ρ : Type} {ψ : ρ → Prop} {c : Cell ρ} {r : ρ}

theorem CellAll.seen (h : CellAll ψ c) (hr : c.seenBy i = some r) : ψ r := by
  obtain ⟨v, _ | ⟨j, x⟩⟩ := c
  · exact h.1 r hr
  · by_cases hj : j = i
    · simp only [Cell.seenBy, hj, if_true, Option.some.injEq] at hr
      exact hr ▸ h.2 j x rfl
    · simp only [Cell.seenBy, hj, if_false] at hr
      exact h.1 r hr

theorem CellAll.write (h : CellAll ψ c) (hr : ψ r) : CellAll ψ (c.write i r) := by
  refine ⟨h.1, fun j v hv => ?_⟩
  simp only [Cell.write_pending, Option.some.injEq, Prod.mk.injEq] at hv
  exact hv.2 ▸ hr

theorem CellAll.commit (h : CellAll ψ c) : CellAll ψ (c.commit i) := by
  obtain ⟨v, _ | ⟨j, x⟩⟩ := c
  · exact h
  · by_cases hj : j = i
    · refine ⟨fun r hr => ?_, fun k v hv => ?_⟩
      · simp only [Cell.commit, hj, if_true, Option.some.injEq] at hr
        exact hr ▸ h.2 j x rfl
      · simp [Cell.commit, hj] at hv
    · simpa [Cell.commit, hj] using h

theorem CellAll.rollback (h : CellAll ψ c) : CellAll ψ (c.rollback i) := by
  refine ⟨fun r hr => h.1 r (by simpa using hr), fun j v hv => ?_⟩
  obtain ⟨x, _ | ⟨k, y⟩⟩ := c
  · cases hv
  · by_cases hk : k = i
    · simp [Cell.rollback, hk] at hv
    · simp only [Cell.rollback, hk, if_false] at hv
      exact h.2 j v hv

theorem CellAll.fresh (h : ψ r) : CellAll ψ (Cell.fresh i r) := by
  refine ⟨fun v hv => (by cases hv), fun j v hv => ?_⟩
  simp only [Cell.fresh, Option.some.injEq, Prod.mk.injEq] at hv
  exact hv.2 ▸ h

end Cells

/-- Every version of every row satisfies `ψ`. -/
def Versions (ψ : ∀ t, Row t → Prop) (w : World π Row ω) : Prop :=
  ∀ t, ∀ c ∈ w.db t, CellAll (ψ t) c

/-- Steps that keep a property of all versions. -/
def KeepVersions (ψ : ∀ t, Row t → Prop) (w w' : World π Row ω) : Prop :=
  Versions ψ w → Versions ψ w'

variable {ψ : ∀ t, Row t → Prop}

theorem Versions.commit (h : Versions ψ w)
    (hdb : ∀ t, w'.db t = (w.db t).commit i) : Versions ψ w' := by
  intro t c hc
  rw [hdb] at hc
  obtain ⟨d, hd, rfl⟩ := List.mem_map.mp hc
  exact (h t d hd).commit

theorem Versions.rollback (h : Versions ψ w)
    (hdb : ∀ t, w'.db t = (w.db t).rollback i) : Versions ψ w' := by
  intro t c hc
  rw [hdb] at hc
  obtain ⟨d, hd, rfl⟩ := List.mem_map.mp hc
  exact (h t d hd).rollback

theorem respects_versions :
    Respects i (KeepVersions ψ : World π Row ω → World π Row ω → Prop) where
  refl _ := fun h => h
  trans h h' := fun hw => h' (h hw)
  opens w pt := by unfold World.openStatement; split <;> exact fun h => h
  fails _ := fun h => h.rollback fun _ => rfl
  completes w := by
    unfold World.completeStatement
    split
    · exact fun h => h.commit fun _ => rfl
    · exact fun h => h
  begins _ := fun h => h
  drops _ := fun h => h.rollback fun _ => rfl
  commits _ _ := fun h => h.commit fun _ => rfl

/-- What a session sees satisfies the property. -/
theorem Versions.view (h : Versions ψ w) {r : Row t}
    (hr : r ∈ (w.db t).view i) : ψ t r := by
  obtain ⟨c, hc, hseen⟩ := List.mem_filterMap.mp hr
  exact (h t c hc).seen hseen

theorem Versions.setTable [DecidableEq τ] (h : Versions ψ w)
    {x : Table (Row t)} (hx : ∀ c ∈ x, CellAll (ψ t) c) :
    Versions ψ (w.setTable t x) := by
  intro u c hc
  by_cases hu : u = t
  · subst hu
    simp only [World.setTable, Function.update_self] at hc
    exact hx c hc
  · simp only [World.setTable, Function.update_of_ne hu] at hc
    exact h u c hc

theorem versions_visit [DecidableEq τ] {p : Row t → Bool} {f : Row t → Row t}
    (hf : ∀ r, ψ t r → p r = true → ψ t (f r)) {k : Nat} {o : Option (Row t)}
    {x : Table (Row t)} (h : (w.db t).visit i p f k = some (o, x)) :
    KeepVersions ψ w (w.setTable t x) := by
  intro hw
  refine hw.setTable fun c hc => ?_
  rcases Table.visit_cases h with ⟨-, rfl, -⟩ |
    ⟨pre, d, post, r, hdb, -, -, hseen, hp, -, rfl⟩
  · exact hw t c hc
  · have hall : ∀ c ∈ pre ++ d :: post, CellAll (ψ t) c := hdb ▸ hw t
    rcases List.mem_append.mp hc with hpre | hrest
    · exact hall c (List.mem_append_left _ hpre)
    rcases List.mem_cons.mp hrest with rfl | hpost
    · have hd := hall d (List.mem_append_right _ List.mem_cons_self)
      exact hd.write (hf r (hd.seen hseen) hp)
    · exact hall c (List.mem_append_right _ (List.mem_cons_of_mem _ hpost))

theorem versions_insert [DecidableEq τ] {dup : Row t → Row t → Bool}
    {rs : List (Row t)} {x : Table (Row t)} (hrs : ∀ r ∈ rs, ψ t r)
    (h : insertRows i dup rs (w.db t) = some (.ok x)) :
    KeepVersions ψ w (w.setTable t x) := by
  intro hw
  refine hw.setTable fun c hc => ?_
  rw [insertRows_ok h] at hc
  rcases List.mem_append.mp hc with hold | hnew
  · exact hw t c hold
  · obtain ⟨r, hr, rfl⟩ := List.mem_map.mp hnew
    exact CellAll.fresh (hrs r hr)

/-! ## Properties every step keeps -/

section Keeping

variable {σ χ ε ι : Type} {J : σ → Prop} {F : π → χ → σ → σ → Prop}

/-- The logic of an invariant alone. -/
def keeping (J : σ → Prop) : Logic σ where
  inv := J
  guar _ _ _ := True
  env _ _ := True

/-- A program each of whose steps keeps the invariant. -/
theorem outline_keeping {p : Prog π σ χ α} {φ : Prop}
    (h : p.Every fun f => ∀ ⦃ch s b s'⦄, f i ch s = some (b, s') → J s → J s') :
    Outline (keeping J) F i p (fun _ => φ) fun _ _ => φ := by
  refine Outline.every (.const φ) ?_
  induction p with
  | ret a => trivial
  | act pt f next ih =>
      exact ⟨fun hJ hφ hf => ⟨h.1 hf hJ, trivial, hφ⟩, fun b => ih b (h.2 b)⟩

/-- A property that every call, every cancellation and the environment keep
holds along every run. -/
theorem keeping_run {M : System π σ χ ε ι α} {G : Filter π σ χ ε ι} {s : σ}
    {d : Config π σ χ ι α}
    (hbody : ∀ i q, Outline (keeping J) (G.run i q) i (M.body q)
      (fun _ => True) fun _ _ => True)
    (hcancel : ∀ {i s}, J s → J (M.cancel i s))
    (henv : ∀ {e s s'}, J s → M.env e s = some s' → J s')
    (hstart : J s) (hrun : M.Reaches G (Config.start s) d) : J d.shared := by
  have hgood : Good (keeping J) G (fun _ _ => True) (fun _ _ _ _ => True)
      (Config.start s : Config π σ χ ι α) := Good.start hstart fun _ => trivial
  have hend : Good (keeping J) G (fun _ _ => True) (fun _ _ _ _ => True) d :=
    sound (fun _ => .const True) hbody
      (fun hJ _ => ⟨hcancel hJ, trivial, trivial⟩)
      (fun hJ he _ => ⟨henv hJ he, trivial⟩) hgood hrun
  exact hend.inv

/-- What is left of a thread's program is made of the steps of its call. -/
theorem every_run {M : System π σ χ ε ι α} {F : Filter π σ χ ε ι}
    {φ : Nat → ∀ {β : Type}, Action σ χ β → Prop}
    (hbody : ∀ i q, (M.body q).Every (φ i)) {c d : Config π σ χ ι α}
    (hstart : ∀ i q p, c.thread i = some (q, p) → p.Every (φ i))
    (hrun : M.Reaches F c d) :
    ∀ i q p, d.thread i = some (q, p) → p.Every (φ i) := by
  induction hrun with
  | refl => exact hstart
  | tail _ hstep ih =>
      intro j q' p hp
      cases hstep with
      | @call i q free =>
          by_cases hji : j = i
          · subst hji
            rw [Config.set_thread_self] at hp
            cases hp
            exact hbody _ _
          · rw [Config.set_thread_ne _ hji] at hp
            exact ih j q' p hp
      | @run i q _ pt f next ch b s' stands takes allowed =>
          by_cases hji : j = i
          · subst hji
            rw [Config.set_thread_self] at hp
            cases hp
            exact (ih _ _ _ stands).2 b
          · rw [Config.set_thread_ne _ hji] at hp
            exact ih j q' p hp
      | @cancel i q p' stands allowed =>
          by_cases hji : j = i
          · subst hji
            rw [Config.clear_thread_self] at hp
            cases hp
          · rw [Config.clear_thread_ne _ hji] at hp
            exact ih j q' p hp
      | env takes allowed => exact ih j q' p hp

end Keeping

end DpopAuth.Verified.StepRules
