import DpopAuth.Verified.Transactions

/-!
# Outline rules for statements and transaction blocks

The rules outlines of database programs are built from.  An `UPDATE` is a
loop over its targets and has a loop rule; a transaction block asks for an
outline of its region and for what `COMMIT` and `ROLLBACK` do to the region's
assertions.

A program that leaves a table alone still ends its own transaction now and
then.  `Holds t i block X` says what session `i` holds of table `t`,
whatever the status of its transaction, and `OffTable t` collects the steps
that can only keep the table or roll `i`'s versions back.

## Main results

* `Outline.update` — the loop rule of `UPDATE`.
* `Outline.transaction` — the rule of a transaction block.
* `offTable_select`, `offTable_insert`, `offTable_update` — statements on
  other tables.
-/

namespace DpopAuth.Verified.TransactionRules

open DpopAuth.Verified.Resumption
open DpopAuth.Verified.RelyGuarantee
open DpopAuth.Verified.RowVersions
open DpopAuth.Verified.Transactions

variable {π ω ν τ α β E : Type} {Row : τ → Type}
  {L : Logic (World π Row ω)} {i : Nat}
  {F : π → Choice ν → World π Row ω → World π Row ω → Prop}

/-! ## Updates -/

/-- **The loop rule of `UPDATE`.**  `J done ks` is what holds when the rows
`done` have been updated and the targets `ks` are still to be visited. -/
theorem Outline.update [DecidableEq τ] {pt : π} {t : τ}
    {p : Int → Row t → Bool} {f : Int → Row t → Row t}
    {P : World π Row ω → Prop}
    (J : List (Row t) → List Nat → World π Row ω → Prop)
    {R : List (Row t) → World π Row ω → Prop} {X : World π Row ω → Prop}
    (hJ : ∀ done ks, Stable L i (J done ks)) (hR : ∀ done, Stable L i (R done))
    (hX : Stable L i X)
    (start : ∀ {w ch r w'}, L.inv w → P w →
      updateStart pt t p i ch w = some (r, w') → F pt ch w w' →
        L.inv w' ∧ L.guar i w w' ∧ exceptPost (J []) X r w')
    (visit : ∀ {done k ks w ch r w'}, L.inv w → J done (k :: ks) w →
      updateVisit pt t p f k i ch w = some (r, w') → F pt ch w w' →
        L.inv w' ∧ L.guar i w w' ∧
          exceptPost (fun o => J (done ++ o.toList) ks) X r w')
    (finish : ∀ {done w ch r w'}, L.inv w → J done [] w →
      updateEnd pt i ch w = some (r, w') → F pt ch w w' →
        L.inv w' ∧ L.guar i w w' ∧ exceptPost (fun _ => R done) X r w') :
    Outline L F i (update pt t p f) P (exceptPost R X) := by
  have hloop : ∀ ks done, Outline L F i (updateVisits pt t p f done ks)
      (J done ks) (exceptPost R X) := by
    intro ks
    induction ks with
    | nil =>
        intro done
        refine .act (exceptPost (fun _ => R done) X)
          (Stable.exceptPost (fun _ => hR done) hX) finish fun r => ?_
        cases r with
        | error e => exact .ret fun _ _ hw => hw
        | ok u => exact .ret fun _ _ hw => hw
    | cons k ks ih =>
        intro done
        refine .act (exceptPost (fun o => J (done ++ o.toList) ks) X)
          (Stable.exceptPost (fun _ => hJ _ ks) hX) visit fun r => ?_
        cases r with
        | error e => exact .ret fun _ _ hw => hw
        | ok o => exact ih _
  refine .act (exceptPost (J []) X) (Stable.exceptPost (hJ []) hX) start
    fun r => ?_
  cases r with
  | error e => exact .ret fun _ _ hw => hw
  | ok ks => exact hloop ks []

/-! ## Transaction blocks -/

/-- **The rule of a transaction block.**  The region is outlined from `B`;
`S` says how it may end and `V` what holds when it fails. -/
theorem Outline.transaction [Inhabited π] {conv : SqlxError → E}
    {region : Prog π (World π Row ω) (Choice ν) (Except E (TxExit π E α))}
    {P : World π Row ω → Prop} (B : World π Row ω → Prop)
    (S : TxExit π E α → World π Row ω → Prop) (V : World π Row ω → Prop)
    {Q : Except E α → World π Row ω → Prop}
    (hB : Stable L i B) (hQ : ∀ r, Stable L i (Q r))
    (start : ∀ {w w'} {ch : Choice ν} {r}, L.inv w → P w →
      beginStep i ch w = some (r, w') → F default ch w w' →
        L.inv w' ∧ L.guar i w w' ∧ (match r with
          | .error e => Q (.error (conv e)) w'
          | .ok () => B w'))
    (inside : Outline L F i region B (exceptPost S V))
    (drop : ∀ {w r} {ch : Choice ν}, L.inv w →
      (∃ e, r = .error e ∧ V w) ∨ S (.leave r) w →
      F default ch w (w.rollbackTx i) →
        L.inv (w.rollbackTx i) ∧ L.guar i w (w.rollbackTx i) ∧
          Q r (w.rollbackTx i))
    (commit : ∀ {w ch pt r r' w'}, L.inv w → S (.commit pt r) w →
      commitStep pt i ch w = some (r', w') → F pt ch w w' →
        L.inv w' ∧ L.guar i w w' ∧
          (match r' with
            | .error e => Q (.error (conv e)) w'
            | .ok () => Q r w')) :
    Outline L F i (transaction conv region) P Q := by
  refine .act (fun r => match r with
      | .error e => Q (.error (conv e))
      | .ok () => B) ?_ ?_ fun r => ?_
  · intro r
    cases r with
    | error e => exact hQ _
    | ok u => exact hB
  · intro w ch r w' hw hP hstep hF
    have h := start hw hP hstep hF
    cases r with
    | error e => exact h
    | ok u => exact h
  · cases r with
    | error e => exact .ret fun _ _ hw => hw
    | ok u =>
        refine Outline.bind (fun out => ?_) inside
        have hdrop : ∀ (r : Except E α) (W : World π Row ω → Prop),
            (∀ {w}, L.inv w → W w →
              (∃ e, r = .error e ∧ V w) ∨ S (.leave r) w) →
            Outline L F i
              (.act default (dropStep (ν := ν)) fun _ => .ret r) W Q := by
          intro r W hW
          refine .act (fun _ => Q r) (fun _ => hQ r) ?_
            fun _ => .ret fun _ _ hw => hw
          intro w ch u w' hw hPw hstep hF
          obtain rfl := dropStep_eq hstep
          exact drop hw (hW hw hPw) hF
        cases out with
        | error e => exact hdrop (.error e) V fun _ hV => .inl ⟨e, rfl, hV⟩
        | ok x =>
            cases x with
            | leave r => exact hdrop r (S (.leave r)) fun _ hS => .inr hS
            | commit pt r =>
                refine .act (fun r' => match r' with
                    | .error e => Q (.error (conv e))
                    | .ok () => Q r) ?_ ?_ fun r' => ?_
                · intro r'
                  cases r' with
                  | error e => exact hQ _
                  | ok u => exact hQ r
                · intro w ch r' w' hw hS hstep hF
                  have h := commit hw hS hstep hF
                  cases r' with
                  | error e => exact h
                  | ok u => exact h
                · cases r' with
                  | error e => exact .ret fun _ _ hw => hw
                  | ok u => exact .ret fun _ _ hw => hw

/-! ## Statements on other tables -/

/-- What session `i` holds of table `t` between two statements.  With `block`,
inside of a block: `X`, or nothing once the block is aborted.  Otherwise the
session is outside of a block and holds nothing. -/
def Holds (t : τ) (i : Nat) (block : Bool) (X : List (Cell (Row t)))
    (w : World π Row ω) : Prop :=
  match (w.session i).status with
  | .explicit => block = true ∧ (w.db t).own i = X
  | .aborted => block = true ∧ (w.db t).own i = []
  | .idle => block = false ∧ X = [] ∧ (w.db t).own i = []
  | .implicit => block = false ∧ X = [] ∧ (w.db t).own i = []

/-- Steps of other sessions do not change what a session holds. -/
theorem Holds.frame {t : τ} {j : Nat} (hne : j ≠ i) {block : Bool}
    {X : List (Cell (Row t))} {w w' : World π Row ω} (hf : w.Frame j w')
    (h : Holds t i block X w) : Holds t i block X w' := by
  have hown := (hf.held i (Ne.symm hne) t).own
  simp only [Holds, hf.session i (Ne.symm hne), hown]
  exact h

/-- What a step of session `i` that leaves table `t` alone amounts to there. -/
structure Away (t : τ) (i : Nat) (block : Bool) (X : List (Cell (Row t)))
    (w w' : World π Row ω) : Prop where
  frame : w.Frame i w'
  mem : w'.mem = w.mem
  lastCommit : w'.lastCommit = w.lastCommit
  table : w'.db t = w.db t ∨ w'.db t = (w.db t).rollback i
  holds : Holds t i block X w'

/-- The steps that leave table `t` alone. -/
def OffTable (t : τ) {β : Type}
    (f : Action (World π Row ω) (Choice ν) β) : Prop :=
  ∀ ⦃i ch w b w'⦄, f i ch w = some (b, w') →
    ∀ ⦃block : Bool⦄ ⦃X : List (Cell (Row t))⦄, Holds t i block X w →
      Away t i block X w w'

variable {t : τ} {block : Bool} {X : List (Cell (Row t))} {w w' w'' : World π Row ω}

theorem Away.refl (h : Holds t i block X w) : Away t i block X w w :=
  ⟨.refl i w, rfl, rfl, .inl rfl, h⟩

theorem Away.trans (h : Away t i block X w w') (h' : Away t i block X w' w'') :
    Away t i block X w w'' where
  frame := h.frame.trans h'.frame
  mem := h'.mem.trans h.mem
  lastCommit := h'.lastCommit.trans h.lastCommit
  table := by
    rcases h.table with h₁ | h₁ <;> rcases h'.table with h₂ | h₂
    · exact .inl (h₂.trans h₁)
    · exact .inr (by rw [h₂, h₁])
    · exact .inr (h₂.trans h₁)
    · refine .inr ?_
      rw [h₂, h₁, Table.rollback_of_own_nil (Table.own_rollback_self i _)]
  holds := h'.holds

theorem away_failStatement (h : Holds t i block X w) :
    Away t i block X w (w.failStatement i) where
  frame := World.frame_failStatement i w
  mem := rfl
  lastCommit := rfl
  table := .inr rfl
  holds := by
    have hown : ((w.failStatement i).db t).own i = [] :=
      Table.own_rollback_self i _
    simp only [Holds, hown]
    simp only [Holds] at h
    cases hst : (w.session i).status <;>
      simp_all [World.failStatement]

theorem away_openStatement {p : π} (h : Holds t i block X w) :
    Away t i block X w (w.openStatement i p) where
  frame := World.frame_openStatement i p w
  mem := by unfold World.openStatement; split <;> rfl
  lastCommit := by unfold World.openStatement; split <;> rfl
  table := .inl (by unfold World.openStatement; split <;> rfl)
  holds := by
    simp only [Holds] at h ⊢
    cases hst : (w.session i).status <;>
      simp_all [World.openStatement, World.setSession]

theorem away_completeStatement (h : Holds t i block X w) :
    Away t i block X w (w.completeStatement i) where
  frame := World.frame_completeStatement i w
  mem := by unfold World.completeStatement; split <;> rfl
  lastCommit := by unfold World.completeStatement; split <;> rfl
  table := by
    simp only [Holds] at h
    cases hst : (w.session i).status <;>
      simp_all [World.completeStatement, World.setSession, Table.commit_of_own_nil]
  holds := by
    simp only [Holds] at h ⊢
    cases hst : (w.session i).status <;>
      simp_all [World.completeStatement, World.setSession, Table.own_commit_self]

theorem away_setTable [DecidableEq τ] {u : τ} (hu : u ≠ t)
    {x : Table (Row u)} (hsame : ∀ j, j ≠ i → Table.Same j (w.db u) x)
    (h : Holds t i block X w) : Away t i block X w (w.setTable u x) where
  frame := World.frame_setTable hsame
  mem := rfl
  lastCommit := rfl
  table := .inl (by simp [World.setTable, Ne.symm hu])
  holds := by
    simpa [Holds, World.setTable, Ne.symm hu] using h

theorem offTable_statement {pt : π}
    {f : Nat → World π Row ω → Option (Except SqlxError β × World π Row ω)}
    (hf : ∀ {i w r w' block} {X : List (Cell (Row t))}, f i w = some (r, w') →
      Holds t i block X w → Away t i block X w w') :
    OffTable t (statement (ν := ν) pt f) := by
  intro i ch w r w' h block X hX
  rcases statement_cases h with ⟨_, rfl, _⟩ | ⟨_, rfl, _⟩ | ⟨_, hrun⟩
  · exact .refl hX
  · exact away_failStatement hX
  · have hopen := away_openStatement (p := pt) hX
    exact hopen.trans (hf hrun hopen.holds)

theorem offTable_select {pt : π} {f : Int → (∀ t, List (Row t)) → β} :
    (select (ω := ω) (ν := ν) pt f).Every (OffTable t) := by
  refine Prog.Every.step (offTable_statement fun h hX => ?_)
  simp only [Option.some.injEq, Prod.mk.injEq] at h
  rw [← h.2]
  exact away_completeStatement hX

theorem offTable_insert [DecidableEq τ] {pt : π} {u : τ} (hu : u ≠ t)
    {dup : Row u → Row u → Bool} {rs : Int → List (Row u)} :
    (insert (ω := ω) (ν := ν) pt u dup rs).Every (OffTable t) := by
  refine Prog.Every.step (offTable_statement fun h hX => ?_)
  split at h
  · cases h
  · simp only [Option.some.injEq, Prod.mk.injEq] at h
    rw [← h.2]
    exact away_failStatement hX
  · rename_i x hx
    simp only [Option.some.injEq, Prod.mk.injEq] at h
    rw [← h.2]
    have hset := away_setTable hu (fun j hj => insertRows_same hj hx) hX
    exact hset.trans (away_completeStatement hset.holds)

theorem offTable_update [DecidableEq τ] {pt : π} {u : τ} (hu : u ≠ t)
    {p : Int → Row u → Bool} {f : Int → Row u → Row u} :
    (update (ω := ω) (ν := ν) pt u p f).Every (OffTable t) := by
  have hstart : OffTable t (updateStart (ω := ω) (ν := ν) pt u p) :=
    offTable_statement fun h hX => by
      simp only [Option.some.injEq, Prod.mk.injEq] at h
      rw [← h.2]
      exact .refl hX
  have hvisit : ∀ k, OffTable t (updateVisit (ω := ω) (ν := ν) pt u p f k) :=
    fun k => offTable_statement fun h hX => by
      split at h
      · cases h
      · rename_i o x hx
        simp only [Option.some.injEq, Prod.mk.injEq] at h
        rw [← h.2]
        exact away_setTable hu (fun j hj => Table.same_visit (Ne.symm hj) hx) hX
  have hend : OffTable t (updateEnd pt :
      Action (World π Row ω) (Choice ν) (Except SqlxError Unit)) :=
    offTable_statement fun h hX => by
      simp only [Option.some.injEq, Prod.mk.injEq] at h
      rw [← h.2]
      exact away_completeStatement hX
  have hloop : ∀ ks done, (updateVisits (ω := ω) (ν := ν) pt u p f done ks).Every
      (OffTable t) := by
    intro ks
    induction ks with
    | nil =>
        intro done
        refine ⟨hend, fun r => ?_⟩
        cases r <;> trivial
    | cons k ks ih =>
        intro done
        refine ⟨hvisit k, fun r => ?_⟩
        cases r with
        | error e => trivial
        | ok o => exact ih _
  refine ⟨hstart, fun r => ?_⟩
  cases r with
  | error e => trivial
  | ok ks => exact hloop ks []

end DpopAuth.Verified.TransactionRules
