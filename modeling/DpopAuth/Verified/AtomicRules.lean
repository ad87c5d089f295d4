import DpopAuth.Verified.TransactionRules

/-!
# Statements of a call that runs alone

Triples for statements and transaction blocks when nobody runs in between.
There are two layers.  `Resting` says that a session is between two
statements; every statement and every block keeps it, however it ends, and so
does every program built from them.  The exact rules say what a statement that
succeeds has done to the state: a `SELECT` nothing, an `INSERT` one
`insertRows`, an `UPDATE` one `sweep`.

## Main results

* `resting_select`, `resting_insert`, `resting_update`,
  `resting_transaction` — where a session stands.
* `select_block`, `insert_block`, `update_exact`, `update_block` — what a
  successful statement has done.
* `transaction_exact` — what a block has done.
-/

namespace DpopAuth.Verified.AtomicRules

open DpopAuth.Verified.Resumption
open DpopAuth.Verified.RelyGuarantee
open DpopAuth.Verified.RowVersions
open DpopAuth.Verified.Transactions
open DpopAuth.Verified.TransactionRules

variable {π ω ν τ α β E : Type} {Row : τ → Type} {i : Nat} {block : Bool}
  {w w' w₀ : World π Row ω} {pt : π} {t : τ}

/-! ## Sessions between statements -/

/-- Session `i` is between two statements: in a block, or outside of one and
holding nothing. -/
def Resting (i : Nat) (block : Bool) (w : World π Row ω) : Prop :=
  (w.session i).query = none ∧
    match (w.session i).status with
    | .explicit => block = true
    | .aborted => block = true
    | .idle => block = false ∧ ∀ t, (w.db t).own i = []
    | .implicit => False

/-- Session `i` is executing a statement. -/
def Busy (i : Nat) (block : Bool) (w : World π Row ω) : Prop :=
  match (w.session i).status with
  | .explicit => block = true
  | .implicit => block = false
  | _ => False

theorem Resting.frame {j : Nat} (hne : j ≠ i) (hf : w.Frame j w')
    (h : Resting i block w) : Resting i block w' := by
  have hown : ∀ t, (w'.db t).own i = (w.db t).own i := fun t =>
    (hf.held i (Ne.symm hne) t).own
  simp only [Resting, hf.session i (Ne.symm hne), hown]
  exact h

theorem Resting.own (h : Resting i false w) (t : τ) : (w.db t).own i = [] := by
  simp only [Resting] at h
  cases hst : (w.session i).status <;> simp_all

theorem Resting.fail (h : Resting i block w) :
    Resting i block (w.failStatement i) := by
  have hown : ∀ t, ((w.db t).rollback i).own i = [] := fun _ =>
    Table.own_rollback_self i _
  simp only [Resting] at h
  cases hst : (w.session i).status <;>
    simp_all [Resting, World.failStatement]

theorem Busy.fail (h : Busy i block w) :
    Resting i block (w.failStatement i) := by
  have hown : ∀ t, ((w.db t).rollback i).own i = [] := fun _ =>
    Table.own_rollback_self i _
  simp only [Busy] at h
  cases hst : (w.session i).status <;>
    simp_all [Resting, World.failStatement]

theorem Resting.open (h : Resting i block w)
    (hst : (w.session i).status ≠ .aborted) :
    Busy i block (w.openStatement i pt) := by
  simp only [Resting] at h
  cases hs : (w.session i).status <;>
    simp_all [Busy, World.openStatement, World.setSession]

theorem Busy.open (h : Busy i block w) : Busy i block (w.openStatement i pt) := by
  simp only [Busy] at h
  cases hs : (w.session i).status <;>
    simp_all [Busy, World.openStatement, World.setSession]

theorem Busy.complete (h : Busy i block w) :
    Resting i block (w.completeStatement i) := by
  have hown : ∀ t, ((w.db t).commit i).own i = [] := fun _ =>
    Table.own_commit_self i _
  simp only [Busy] at h
  cases hst : (w.session i).status <;>
    simp_all [Resting, World.completeStatement, World.setSession]

theorem resting_rollbackTx : Resting i false (w.rollbackTx i) := by
  have hown : ∀ t, ((w.db t).rollback i).own i = [] := fun _ =>
    Table.own_rollback_self i _
  simp [Resting, World.rollbackTx, hown]

theorem resting_commitTx : Resting i false (w.commitTx i pt) := by
  have hown : ∀ t, ((w.db t).commit i).own i = [] := fun _ =>
    Table.own_commit_self i _
  simp [Resting, World.commitTx, hown]

/-- A program that starts and ends between statements. -/
abbrev Restful (i : Nat) (block : Bool)
    (p : Prog π (World π Row ω) (Choice ν) α) : Prop :=
  Triple i p (Resting i block) fun _ => Resting i block

/-- A step of a statement that was not under way before. -/
theorem resting_statement {ch : Choice ν}
    {f : Nat → World π Row ω → Option (Except SqlxError β × World π Row ω)}
    {r : Except SqlxError β} {R : Except SqlxError β → World π Row ω → Prop}
    (hR : ∀ e w, Resting i block w → R (.error e) w)
    (hf : ∀ {v r v'}, Busy i block v → f i v = some (r, v') → R r v')
    (h : Resting i block w) (hstep : statement pt f i ch w = some (r, w')) :
    R r w' := by
  rcases statement_cases hstep with ⟨_, rfl, e, rfl⟩ | ⟨_, rfl, _, e, rfl⟩ |
    ⟨hst, hrun⟩
  · exact hR e _ h
  · exact hR e _ h.fail
  · exact hf (h.open hst) hrun

/-- A later step of a statement. -/
theorem busy_statement {ch : Choice ν}
    {f : Nat → World π Row ω → Option (Except SqlxError β × World π Row ω)}
    {r : Except SqlxError β} {R : Except SqlxError β → World π Row ω → Prop}
    (hR : ∀ e w, Resting i block w → R (.error e) w)
    (hf : ∀ {v r v'}, Busy i block v → f i v = some (r, v') → R r v')
    (h : Busy i block w) (hstep : statement pt f i ch w = some (r, w')) :
    R r w' := by
  rcases statement_cases hstep with ⟨hst, _, _⟩ | ⟨_, rfl, _, e, rfl⟩ |
    ⟨_, hrun⟩
  · simp [Busy, hst] at h
  · exact hR e _ h.fail
  · exact hf h.open hrun

theorem resting_select {f : Int → (∀ t, List (Row t)) → β} :
    Restful i block (select (ω := ω) (ν := ν) pt f) := by
  refine Triple.step fun hw hstep => ?_
  refine resting_statement (R := fun _ => Resting i block) (fun _ _ h => h)
    (fun hb hrun => ?_) hw hstep
  simp only [Option.some.injEq, Prod.mk.injEq] at hrun
  rw [← hrun.2]
  exact hb.complete

section Writes

variable [DecidableEq τ]

theorem resting_insert {dup : Row t → Row t → Bool}
    {rs : Int → List (Row t)} :
    Restful i block (insert (ω := ω) (ν := ν) pt t dup rs) := by
  refine Triple.step fun hw hstep => ?_
  refine resting_statement (R := fun _ => Resting i block) (fun _ _ h => h)
    (fun hb hrun => ?_) hw hstep
  split at hrun
  · cases hrun
  · simp only [Option.some.injEq, Prod.mk.injEq] at hrun
    rw [← hrun.2]
    exact hb.fail
  · simp only [Option.some.injEq, Prod.mk.injEq] at hrun
    rw [← hrun.2]
    exact Busy.complete hb

theorem resting_update {p : Int → Row t → Bool} {f : Int → Row t → Row t} :
    Restful i block (update (ω := ω) (ν := ν) pt t p f) := by
  refine Outline.post (Q := exceptPost (fun _ => Resting i block)
    (Resting i block)) (fun r _ _ hw => ?_)
    (Outline.update (fun _ _ => Busy i block) (fun _ _ => .solo)
      (fun _ => .solo) .solo ?_ ?_ ?_)
  · cases r with
    | error e => exact hw
    | ok rows => exact hw
  · intro w ch r w' _ hw hstep _
    refine ⟨trivial, .inl rfl, resting_statement
      (R := exceptPost (fun _ => Busy i block) (Resting i block))
      (fun _ _ h => h) (fun hb hrun => ?_) hw hstep⟩
    simp only [Option.some.injEq, Prod.mk.injEq] at hrun
    rw [← hrun.1, ← hrun.2]
    exact hb
  · intro done k ks w ch r w' _ hw hstep _
    refine ⟨trivial, .inl rfl, busy_statement
      (R := exceptPost (fun _ => Busy i block) (Resting i block))
      (fun _ _ h => h) (fun hb hrun => ?_) hw hstep⟩
    split at hrun
    · cases hrun
    · simp only [Option.some.injEq, Prod.mk.injEq] at hrun
      rw [← hrun.1, ← hrun.2]
      exact hb
  · intro done w ch r w' _ hw hstep _
    refine ⟨trivial, .inl rfl, busy_statement
      (R := exceptPost (fun _ => Resting i block) (Resting i block))
      (fun _ _ h => h) (fun hb hrun => ?_) hw hstep⟩
    simp only [Option.some.injEq, Prod.mk.injEq] at hrun
    rw [← hrun.1, ← hrun.2]
    exact hb.complete

end Writes

theorem resting_transaction [Inhabited π] {conv : SqlxError → E}
    {region : Prog π (World π Row ω) (Choice ν) (Except E (TxExit π E α))}
    (h : Restful i true region) :
    Restful i false (transaction conv region) := by
  refine Outline.transaction (Resting i true) (fun _ => Resting i true)
    (Resting i true) .solo (fun _ => .solo) ?_
    (h.post fun r _ _ hw => ?_) ?_ ?_
  · intro w w' ch r _ hw hstep _
    rcases beginStep_cases hstep with ⟨rfl, _, e, rfl⟩ | ⟨rfl, rfl⟩
    · exact ⟨trivial, .inl rfl, hw⟩
    · exact ⟨trivial, .inl rfl, by simp [Resting, World.beginTx, World.setSession]⟩
  · cases r with
    | error e => exact hw
    | ok x => exact hw
  · exact fun _ _ _ => ⟨trivial, .inl rfl, resting_rollbackTx⟩
  · intro w ch pt r r' w' _ hw hstep _
    rcases commitStep_cases hstep with ⟨_, rfl, rfl⟩ | ⟨_, ⟨e, rfl⟩, _, rfl⟩ |
      ⟨_, rfl, rfl⟩
    · exact ⟨trivial, .inl rfl, resting_rollbackTx⟩
    · exact ⟨trivial, .inl rfl, resting_rollbackTx⟩
    · exact ⟨trivial, .inl rfl, resting_commitTx⟩

/-! ## What a successful statement has done -/

/-- Session `i` is in a transaction block, between two statements. -/
def InBlock (i : Nat) (w : World π Row ω) : Prop :=
  (w.session i).status = .explicit ∧ (w.session i).query = none

theorem inBlock_beginTx : InBlock i (w.beginTx i) := by
  simp [InBlock, World.beginTx, World.setSession]

theorem InBlock.not_aborted (h : InBlock i w) :
    (w.session i).status ≠ .aborted := by simp [h.1]

theorem InBlock.now_open (h : InBlock i w) :
    (w.openStatement i pt).now i = w.now i := by
  simp [World.now, World.openStatement, World.setSession, h.1]

theorem db_open : (w.openStatement i pt).db = w.db := by
  unfold World.openStatement
  split <;> rfl

theorem view_open : (w.openStatement i pt).view i = w.view i := by
  funext t
  simp only [World.view, db_open]

/-- A statement that is under way is not opened again. -/
theorem open_open :
    (w.openStatement i pt).openStatement i pt = w.openStatement i pt := by
  cases hst : (w.session i).status <;>
    simp [World.openStatement, World.setSession, hst]

/-- In a block, a statement that has changed nothing leaves no trace. -/
theorem InBlock.complete_open (h : InBlock i w) :
    (w.openStatement i pt).completeStatement i = w := by
  obtain ⟨hst, hq⟩ := h
  have hsess : (⟨.explicit, (w.session i).started, none⟩ : Session π) =
      w.session i := by
    rw [← hst, ← hq]
  simp [World.openStatement, World.completeStatement, World.setSession, hst,
    hsess]

/-- A triple from one state. -/
abbrev From (i : Nat) (w₀ : World π Row ω)
    (p : Prog π (World π Row ω) (Choice ν) (Except E α))
    (Q : α → World π Row ω → Prop) : Prop :=
  Triple i p (fun w => w = w₀) (exceptPost Q fun _ => True)

/-- Nothing is asked of the end. -/
theorem From.of_all {p : Prog π (World π Row ω) (Choice ν) (Except E α)}
    {Q : α → World π Row ω → Prop} (h : ∀ a w, Q a w) : From i w₀ p Q := by
  have hany : ∀ P : World π Row ω → Prop,
      Triple i p P (exceptPost Q fun _ => True) := by
    induction p with
    | ret r =>
        intro P w _ _
        cases r with
        | error e => trivial
        | ok a => exact h a w
    | act pt f next ih =>
        exact fun P w ch b w' _ _ _ _ =>
          ⟨trivial, .inl rfl, fun _ => True, .solo, trivial, ih b _⟩
  exact hany _

theorem From.bind {p : ExceptT E (Prog π (World π Row ω) (Choice ν)) β}
    {k : β → ExceptT E (Prog π (World π Row ω) (Choice ν)) α}
    {R : β → World π Row ω → Prop} {Q : α → World π Row ω → Prop}
    (h : From i w₀ p.run R) (rest : ∀ b w, R b w → From i w (k b).run Q) :
    From i w₀ (p >>= k).run Q :=
  Outline.except_bind h fun b => Outline.of_states (rest b)

theorem From.pure {a : α} {Q : α → World π Row ω → Prop} (h : Q a w₀) :
    From i w₀ (pure a : ExceptT E (Prog π (World π Row ω) (Choice ν)) α).run Q :=
  fun _ _ hw => by
    subst hw
    exact h

theorem From.throw {e : E} {Q : α → World π Row ω → Prop} :
    From i w₀ (throw e : ExceptT E (Prog π (World π Row ω) (Choice ν)) α).run
      Q := fun _ _ _ => trivial

theorem select_block {f : Int → (∀ t, List (Row t)) → β} (h : InBlock i w₀) :
    From i w₀ (select (ω := ω) (ν := ν) pt f) fun b w =>
      w = w₀ ∧ b = f (w₀.now i) (w₀.view i) := by
  refine Triple.step fun hw hstep => ?_
  subst hw
  rcases statement_cases hstep with ⟨_, _, e, rfl⟩ | ⟨_, _, _, e, rfl⟩ |
    ⟨_, hrun⟩
  · trivial
  · trivial
  · simp only [Option.some.injEq, Prod.mk.injEq] at hrun
    obtain ⟨rfl, rfl⟩ := hrun
    refine ⟨h.complete_open, ?_⟩
    rw [h.now_open, view_open]

section Writes

variable [DecidableEq τ] {p : Int → Row t → Bool} {f : Int → Row t → Row t}

theorem InBlock.setTable {x : Table (Row t)} (h : InBlock i w) :
    InBlock i (w.setTable t x) := h

theorem setTable_open {x : Table (Row t)} :
    (w.setTable t x).openStatement i pt = (w.openStatement i pt).setTable t x := by
  unfold World.openStatement
  simp only [World.setTable]
  split <;> rfl

theorem InBlock.complete_write {x : Table (Row t)} (h : InBlock i w) :
    ((w.openStatement i pt).setTable t x).completeStatement i =
      w.setTable t x := by
  rw [← setTable_open]
  exact h.setTable.complete_open

theorem insert_block {dup : Row t → Row t → Bool} {rs : Int → List (Row t)}
    (h : InBlock i w₀) :
    From i w₀ (insert (ω := ω) (ν := ν) pt t dup rs) fun _ w =>
      ∃ x, insertRows i dup (rs (w₀.now i)) (w₀.db t) = some (.ok x) ∧
        w = w₀.setTable t x := by
  refine Triple.step fun hw hstep => ?_
  subst hw
  rcases statement_cases hstep with ⟨_, _, e, rfl⟩ | ⟨_, _, _, e, rfl⟩ |
    ⟨_, hrun⟩
  · trivial
  · trivial
  · rw [h.now_open, db_open] at hrun
    split at hrun
    · cases hrun
    · simp only [Option.some.injEq, Prod.mk.injEq] at hrun
      rw [← hrun.1]
      trivial
    · rename_i x hx
      simp only [Option.some.injEq, Prod.mk.injEq] at hrun
      rw [← hrun.1, ← hrun.2]
      exact ⟨x, hx, h.complete_write⟩

theorem now_setTable {x : Table (Row t)} : (w.setTable t x).now i = w.now i :=
  rfl

theorem db_setTable {x : Table (Row t)} : (w.setTable t x).db t = x := by
  simp [World.setTable]

theorem setTable_setTable {x y : Table (Row t)} :
    (w.setTable t x).setTable t y = w.setTable t y := by
  simp [World.setTable]

theorem setTable_self : w.setTable t (w.db t) = w := by
  simp [World.setTable]

/-- **An undisturbed `UPDATE` is one sweep over the table.** -/
theorem update_exact :
    From i w₀ (update (ω := ω) (ν := ν) pt t p f) fun rows w =>
      rows = (w₀.db t).swept i (p ((w₀.openStatement i pt).now i))
        (f ((w₀.openStatement i pt).now i)) ∧
      w = ((w₀.openStatement i pt).setTable t ((w₀.db t).sweep i
        (p ((w₀.openStatement i pt).now i))
        (f ((w₀.openStatement i pt).now i)))).completeStatement i := by
  -- what the targets to go amount to from the table reached so far
  let now := (w₀.openStatement i pt).now i
  let J : List (Row t) → List Nat → World π Row ω → Prop := fun done ks w =>
    ∃ x, w = (w₀.openStatement i pt).setTable t x ∧
      ∀ rs u, Table.visits i (p now) (f now) ks x = some (rs, u) →
        done ++ rs = (w₀.db t).swept i (p now) (f now) ∧
          u = (w₀.db t).sweep i (p now) (f now)
  refine Outline.update J (fun _ _ => .solo) (fun _ => .solo) .solo ?_ ?_ ?_
  · intro w ch r w' _ hw hstep _
    subst hw
    refine ⟨trivial, .inl rfl, ?_⟩
    rcases statement_cases hstep with ⟨_, _, e, rfl⟩ | ⟨_, _, _, e, rfl⟩ |
      ⟨_, hrun⟩
    · trivial
    · trivial
    · simp only [Option.some.injEq, Prod.mk.injEq] at hrun
      obtain ⟨rfl, rfl⟩ := hrun
      refine ⟨w.db t, ?_, fun rs u hvisits => ?_⟩
      · rw [← setTable_open, setTable_self]
      · rw [db_open] at hvisits
        exact Table.visits_targets hvisits
  · intro done k ks w ch r w' _ hJ hstep _
    obtain ⟨x, rfl, hx⟩ := hJ
    refine ⟨trivial, .inl rfl, ?_⟩
    rcases statement_cases hstep with ⟨_, _, e, rfl⟩ | ⟨_, _, _, e, rfl⟩ |
      ⟨_, hrun⟩
    · trivial
    · trivial
    · rw [setTable_open, open_open, db_setTable, now_setTable] at hrun
      split at hrun
      · cases hrun
      · rename_i o y hvisit
        simp only [Option.some.injEq, Prod.mk.injEq] at hrun
        obtain ⟨rfl, rfl⟩ := hrun
        refine ⟨y, setTable_setTable, fun rs u hvisits => ?_⟩
        rw [List.append_assoc]
        refine hx (o.toList ++ rs) u ?_
        simp only [Table.visits, now, hvisit]
        simp only [now] at hvisits
        rw [hvisits]
  · intro done w ch r w' _ hJ hstep _
    obtain ⟨x, rfl, hx⟩ := hJ
    refine ⟨trivial, .inl rfl, ?_⟩
    rcases statement_cases hstep with ⟨_, _, e, rfl⟩ | ⟨_, _, _, e, rfl⟩ |
      ⟨_, hrun⟩
    · trivial
    · trivial
    · simp only [Option.some.injEq, Prod.mk.injEq] at hrun
      obtain ⟨rfl, rfl⟩ := hrun
      obtain ⟨hdone, rfl⟩ := hx [] x rfl
      rw [List.append_nil] at hdone
      refine ⟨hdone, ?_⟩
      rw [setTable_open, open_open]

theorem update_block (h : InBlock i w₀) :
    From i w₀ (update (ω := ω) (ν := ν) pt t p f) fun rows w =>
      rows = (w₀.db t).swept i (p (w₀.now i)) (f (w₀.now i)) ∧
      w = w₀.setTable t ((w₀.db t).sweep i (p (w₀.now i)) (f (w₀.now i))) := by
  refine update_exact.post fun r w _ hw => ?_
  cases r with
  | error e => trivial
  | ok rows =>
      obtain ⟨hrows, hw⟩ := hw
      rw [h.now_open] at hrows hw
      exact ⟨hrows, hw.trans h.complete_write⟩

end Writes

/-- **What a block has done**, if it ends with a result: the region ran from
the state after `BEGIN`; then its changes were discarded, or committed. -/
theorem transaction_exact [Inhabited π] {conv : SqlxError → E}
    {region : Prog π (World π Row ω) (Choice ν) (Except E (TxExit π E α))}
    {S : TxExit π E α → World π Row ω → Prop}
    {Q : α → World π Row ω → Prop}
    (inside : From i (w₀.beginTx i) region S)
    (leave : ∀ {a w}, S (.leave (.ok a)) w → Q a (w.rollbackTx i))
    (commit : ∀ {a pt w}, S (.commit pt (.ok a)) w → InBlock i w ∧
      Q a (w.commitTx i pt)) :
    From i w₀ (transaction conv region) Q := by
  refine Outline.transaction (fun w => w = w₀.beginTx i) S (fun _ => True)
    .solo (fun _ => .solo) ?_ inside ?_ ?_
  · intro w w' ch r _ hw hstep _
    subst hw
    rcases beginStep_cases hstep with ⟨rfl, _, e, rfl⟩ | ⟨rfl, rfl⟩
    · exact ⟨trivial, .inl rfl, trivial⟩
    · exact ⟨trivial, .inl rfl, rfl⟩
  · intro w r ch _ hr _
    refine ⟨trivial, .inl rfl, ?_⟩
    cases r with
    | error e => trivial
    | ok a =>
        rcases hr with ⟨e, he, _⟩ | hS
        · cases he
        · exact leave hS
  · intro w ch pt r r' w' _ hS hstep _
    refine ⟨trivial, .inl rfl, ?_⟩
    cases r with
    | error e => cases r' <;> trivial
    | ok a =>
        obtain ⟨hblock, hQ⟩ := commit hS
        rcases commitStep_cases hstep with ⟨hst, _, _⟩ | ⟨_, ⟨e, rfl⟩, _, _⟩ |
          ⟨_, rfl, rfl⟩
        · exact absurd hst hblock.not_aborted
        · trivial
        · exact hQ

end DpopAuth.Verified.AtomicRules
