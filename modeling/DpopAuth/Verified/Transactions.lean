import DpopAuth.Verified.RelyGuarantee
import DpopAuth.Verified.RowVersions

/-!
# SQL statements and transactions as concurrent programs

A `World` is a database server shared by any number of sessions, together
with the memory `ω` of the process that talks to it.  Each thread number has
its own session.  This module says how statements are split into indivisible
steps.

* A `SELECT` is one step: it reads one snapshot.
* An `INSERT` is one step: it appends rows, fails on a duplicate of a unique
  key, and waits while the duplicate belongs to an open transaction.
* An `UPDATE` fixes its targets in one step, visits them one step each, and
  completes in one more; other threads run in between.
* Outside `BEGIN … COMMIT` a statement is its own transaction and commits
  when it completes.
* A statement may fail at any step.  In a transaction block the failure
  discards the block's changes at once and makes every later statement fail;
  `COMMIT` of such a block reports success and persists nothing.
* A failed `COMMIT` persists nothing.

`now()` is the start of the transaction, as in PostgreSQL.

`transaction` is the scope of a transaction handle that rolls back when it is
dropped: the region returns either `TxExit.commit`, or `TxExit.leave` for a
`return` that leaves the handle open; an error leaves it open too.

## Main results

* `statement_cases`, `commitStep_cases` — what one step can do.
* `World.frame_setTable`, `World.frame_commitTx` and the like — what one
  session does leaves the other sessions alone.
-/

namespace DpopAuth.Verified.Transactions

open DpopAuth.Verified.Resumption
open DpopAuth.Verified.RelyGuarantee
open DpopAuth.Verified.RowVersions

/-! ## The server -/

/-- Where a session stands: no transaction, the transaction of one statement,
a transaction block, or a block that a failed statement has aborted. -/
inductive TxStatus where
  | idle
  | implicit
  | explicit
  | aborted
  deriving DecidableEq, Repr

/-- A session: its status, the start of its transaction, and the statement it
is executing, if one is under way. -/
structure Session (π : Type) where
  status : TxStatus
  started : Int
  query : Option π
  deriving Repr

/-- What the surroundings decide about a step: that it goes through, that it
fails, or which random value it draws. -/
inductive Choice (ν : Type) where
  | ok
  | fail (msg : String)
  | draw (v : ν)
  deriving Repr

/-- A database error as the client sees it. -/
inductive SqlxError where
  | uniqueViolation
  | other (msg : String)
  deriving DecidableEq, Repr

/-- The server, the clock, and the memory of the process.

`lastCommit i` is an observation: the point and the database of thread `i`'s
latest successful `COMMIT`. -/
structure World {τ : Type} (π : Type) (Row : τ → Type) (ω : Type) where
  db : ∀ t, Table (Row t)
  session : Nat → Session π
  lastCommit : Nat → Option (π × ∀ t, Table (Row t))
  clock : Int
  mem : ω

variable {π ω ν τ α β E : Type} {Row : τ → Type}

namespace World

/-- The value of `now()` in session `i`. -/
def now (i : Nat) (w : World π Row ω) : Int := (w.session i).started

/-- The rows session `i` sees. -/
def view (i : Nat) (w : World π Row ω) : ∀ t, List (Row t) :=
  fun t => (w.db t).view i

/-- Replace one table. -/
def setTable [DecidableEq τ] (t : τ) (x : Table (Row t)) (w : World π Row ω) :
    World π Row ω :=
  { w with db := Function.update w.db t x }

/-- Replace one session. -/
def setSession (i : Nat) (s : Session π) (w : World π Row ω) :
    World π Row ω :=
  { w with session := Function.update w.session i s }

/-- Session `i` starts executing a statement; outside a block this starts a
transaction. -/
def openStatement (i : Nat) (pt : π) (w : World π Row ω) : World π Row ω :=
  match (w.session i).status with
  | .idle => w.setSession i ⟨.implicit, w.clock, some pt⟩
  | st => w.setSession i ⟨st, (w.session i).started, some pt⟩

/-- The statement of session `i` fails. -/
def failStatement (i : Nat) (w : World π Row ω) : World π Row ω :=
  { w with
    db := fun t => (w.db t).rollback i
    session := Function.update w.session i
      ⟨match (w.session i).status with
        | .explicit => .aborted
        | .aborted => .aborted
        | _ => .idle, (w.session i).started, none⟩ }

/-- The statement of session `i` completes; outside a block its transaction
commits. -/
def completeStatement (i : Nat) (w : World π Row ω) : World π Row ω :=
  match (w.session i).status with
  | .implicit =>
      { w with
        db := fun t => (w.db t).commit i
        session := Function.update w.session i
          ⟨.idle, (w.session i).started, none⟩ }
  | st => w.setSession i ⟨st, (w.session i).started, none⟩

/-- `BEGIN`. -/
def beginTx (i : Nat) (w : World π Row ω) : World π Row ω :=
  w.setSession i ⟨.explicit, w.clock, none⟩

/-- The transaction block of session `i` ends without a trace. -/
def rollbackTx (i : Nat) (w : World π Row ω) : World π Row ω :=
  { w with
    db := fun t => (w.db t).rollback i
    session := Function.update w.session i
      ⟨.idle, (w.session i).started, none⟩ }

/-- The transaction block of session `i` commits. -/
def commitTx (i : Nat) (pt : π) (w : World π Row ω) : World π Row ω :=
  { w with
    db := fun t => (w.db t).commit i
    session := Function.update w.session i
      ⟨.idle, (w.session i).started, none⟩
    lastCommit := Function.update w.lastCommit i
      (some (pt, fun t => (w.db t).commit i)) }

end World

/-! ## Statements -/

/-- A step of a statement: refused in an aborted block, possibly failing,
otherwise `f` once the statement is open. -/
def statement (pt : π)
    (f : Nat → World π Row ω → Option (Except SqlxError β × World π Row ω)) :
    Action (World π Row ω) (Choice ν) (Except SqlxError β) :=
  fun i ch w =>
    match (w.session i).status with
    | .aborted =>
        some (.error (.other "current transaction is aborted"), w)
    | _ =>
        match ch with
        | .fail msg => some (.error (.other msg), w.failStatement i)
        | _ => f i (w.openStatement i pt)

/-- The program of one statement. -/
abbrev Sql (π : Type) {τ : Type} (Row : τ → Type) (ω ν β : Type) :=
  Prog π (World π Row ω) (Choice ν) (Except SqlxError β)

/-- The step of a `SELECT`. -/
def selectStep (pt : π) (f : Int → (∀ t, List (Row t)) → β) :
    Action (World π Row ω) (Choice ν) (Except SqlxError β) :=
  statement pt fun i w =>
    some (.ok (f (w.now i) (w.view i)), w.completeStatement i)

/-- `SELECT`: any function of `now()` and of one snapshot. -/
def select (pt : π) (f : Int → (∀ t, List (Row t)) → β) : Sql π Row ω ν β :=
  .step pt (selectStep pt f)

section Writes

variable [DecidableEq τ]

/-- Insert rows one after the other: `none` while a duplicate belongs to an
open transaction, an error if a duplicate is visible. -/
def insertRows (i : Nat) (dup : Row t → Row t → Bool) :
    List (Row t) → Table (Row t) → Option (Except SqlxError (Table (Row t)))
  | [], x => some (.ok x)
  | r :: rs, x =>
      if x.any fun c => c.blocks i &&
          (c.committed.any (dup r) || c.pending.any fun v => dup r v.2) then
        none
      else if (x.view i).any (dup r) then some (.error .uniqueViolation)
      else insertRows i dup rs (x.insert i r)

/-- The step of an `INSERT`. -/
def insertStep (pt : π) (t : τ) (dup : Row t → Row t → Bool)
    (r : Int → List (Row t)) :
    Action (World π Row ω) (Choice ν) (Except SqlxError Unit) :=
  statement pt fun i w =>
    match insertRows i dup (r (w.now i)) (w.db t) with
    | none => none
    | some (.error e) => some (.error e, w.failStatement i)
    | some (.ok x) => some (.ok (), (w.setTable t x).completeStatement i)

/-- `INSERT` of the rows `r now`, with the unique keys given by `dup`. -/
def insert (pt : π) (t : τ) (dup : Row t → Row t → Bool)
    (r : Int → List (Row t)) : Sql π Row ω ν Unit :=
  .step pt (insertStep pt t dup r)

/-- The start of an `UPDATE`: its targets. -/
def updateStart (pt : π) (t : τ) (p : Int → Row t → Bool) :
    Action (World π Row ω) (Choice ν) (Except SqlxError (List Nat)) :=
  statement pt fun i w => some (.ok ((w.db t).targets i (p (w.now i))), w)

/-- The visit of one target of an `UPDATE`. -/
def updateVisit (pt : π) (t : τ) (p : Int → Row t → Bool)
    (f : Int → Row t → Row t) (k : Nat) :
    Action (World π Row ω) (Choice ν) (Except SqlxError (Option (Row t))) :=
  statement pt fun i w =>
    match (w.db t).visit i (p (w.now i)) (f (w.now i)) k with
    | none => none
    | some (o, x) => some (.ok o, w.setTable t x)

/-- The end of an `UPDATE`. -/
def updateEnd (pt : π) :
    Action (World π Row ω) (Choice ν) (Except SqlxError Unit) :=
  statement pt fun i w => some (.ok (), w.completeStatement i)

/-- The visits still to make, with the rows updated so far. -/
def updateVisits (pt : π) (t : τ) (p : Int → Row t → Bool)
    (f : Int → Row t → Row t) (done : List (Row t)) :
    List Nat → Sql π Row ω ν (List (Row t))
  | [] => .act pt (updateEnd pt) fun
      | .error e => .ret (.error e)
      | .ok () => .ret (.ok done)
  | k :: ks => .act pt (updateVisit pt t p f k) fun
      | .error e => .ret (.error e)
      | .ok o => updateVisits pt t p f (done ++ o.toList) ks

/-- `UPDATE … SET f WHERE p RETURNING *`. -/
def update (pt : π) (t : τ) (p : Int → Row t → Bool)
    (f : Int → Row t → Row t) : Sql π Row ω ν (List (Row t)) :=
  .act pt (updateStart pt t p) fun
    | .error e => .ret (.error e)
    | .ok ks => updateVisits pt t p f [] ks

end Writes

/-! ## Transaction blocks -/

/-- How the code inside a transaction handle's scope ends: with a `return`
that leaves the handle open, or with `COMMIT` and then the given result. -/
inductive TxExit (π E α : Type) where
  | leave (r : Except E α)
  | commit (pt : π) (r : Except E α)

/-- `BEGIN`, which takes a connection and may fail. -/
def beginStep : Action (World π Row ω) (Choice ν) (Except SqlxError Unit) :=
  fun i ch w =>
    match ch with
    | .fail msg => some (.error (.other msg), w)
    | _ => some (.ok (), w.beginTx i)

/-- `COMMIT`: of an aborted block it reports success and persists nothing; a
failed one persists nothing. -/
def commitStep (pt : π) :
    Action (World π Row ω) (Choice ν) (Except SqlxError Unit) :=
  fun i ch w =>
    match (w.session i).status, ch with
    | .aborted, _ => some (.ok (), w.rollbackTx i)
    | _, .fail msg => some (.error (.other msg), w.rollbackTx i)
    | _, _ => some (.ok (), w.commitTx i pt)

/-- `ROLLBACK` of a dropped handle. -/
def dropStep : Action (World π Row ω) (Choice ν) Unit :=
  fun i _ w => some ((), w.rollbackTx i)

/-- The scope of a transaction handle; `conv` turns a database error into the
error of the function the scope belongs to. -/
def transaction [Inhabited π] (conv : SqlxError → E)
    (region : Prog π (World π Row ω) (Choice ν) (Except E (TxExit π E α))) :
    Prog π (World π Row ω) (Choice ν) (Except E α) :=
  .act default beginStep fun
    | .error e => .ret (.error (conv e))
    | .ok () => region.bind fun
        | .error e => .act default dropStep fun _ => .ret (.error e)
        | .ok (.leave r) => .act default dropStep fun _ => .ret r
        | .ok (.commit pt r) => .act pt (commitStep pt) fun
            | .error e => .ret (.error (conv e))
            | .ok () => .ret r

/-! ## Frames -/

/-- A step of session `i` leaves the other sessions, what they hold, their
latest commits, and the clock alone. -/
structure World.Frame (i : Nat) (w w' : World π Row ω) : Prop where
  session : ∀ j, j ≠ i → w'.session j = w.session j
  lastCommit : ∀ j, j ≠ i → w'.lastCommit j = w.lastCommit j
  held : ∀ j, j ≠ i → ∀ t, Table.Same j (w.db t) (w'.db t)
  clock : w'.clock = w.clock

namespace World

theorem Frame.refl (i : Nat) (w : World π Row ω) : Frame i w w :=
  ⟨fun _ _ => rfl, fun _ _ => rfl, fun _ _ _ => .refl _ _, rfl⟩

theorem Frame.trans {i : Nat} {u v w : World π Row ω} (h : Frame i u v)
    (h' : Frame i v w) : Frame i u w where
  session j hj := (h'.session j hj).trans (h.session j hj)
  lastCommit j hj := (h'.lastCommit j hj).trans (h.lastCommit j hj)
  held j hj t := (h.held j hj t).trans (h'.held j hj t)
  clock := h'.clock.trans h.clock

theorem frame_setSession (i : Nat) (x : Session π) (w : World π Row ω) :
    Frame i w (w.setSession i x) :=
  ⟨fun _ hj => Function.update_of_ne hj _ _, fun _ _ => rfl,
    fun _ _ _ => .refl _ _, rfl⟩

theorem frame_mem (i : Nat) (m : ω) (w : World π Row ω) :
    Frame i w { w with mem := m } :=
  ⟨fun _ _ => rfl, fun _ _ => rfl, fun _ _ _ => .refl _ _, rfl⟩

theorem frame_openStatement (i : Nat) (pt : π) (w : World π Row ω) :
    Frame i w (w.openStatement i pt) := by
  unfold openStatement
  split <;> exact frame_setSession i _ w

theorem frame_failStatement (i : Nat) (w : World π Row ω) :
    Frame i w (w.failStatement i) :=
  ⟨fun _ hj => Function.update_of_ne hj _ _, fun _ _ => rfl,
    fun _ hj _ => Table.same_rollback (Ne.symm hj) _, rfl⟩

theorem frame_completeStatement (i : Nat) (w : World π Row ω) :
    Frame i w (w.completeStatement i) := by
  unfold completeStatement
  split
  · exact ⟨fun _ hj => Function.update_of_ne hj _ _, fun _ _ => rfl,
      fun _ hj _ => Table.same_commit (Ne.symm hj) _, rfl⟩
  · exact frame_setSession i _ w

theorem frame_rollbackTx (i : Nat) (w : World π Row ω) :
    Frame i w (w.rollbackTx i) :=
  ⟨fun _ hj => Function.update_of_ne hj _ _, fun _ _ => rfl,
    fun _ hj _ => Table.same_rollback (Ne.symm hj) _, rfl⟩

theorem frame_commitTx (i : Nat) (pt : π) (w : World π Row ω) :
    Frame i w (w.commitTx i pt) :=
  ⟨fun _ hj => Function.update_of_ne hj _ _,
    fun _ hj => Function.update_of_ne hj _ _,
    fun _ hj _ => Table.same_commit (Ne.symm hj) _, rfl⟩

theorem frame_setTable [DecidableEq τ] {i : Nat} {t : τ} {x : Table (Row t)}
    {w : World π Row ω} (h : ∀ j, j ≠ i → Table.Same j (w.db t) x) :
    Frame i w (w.setTable t x) where
  session _ _ := rfl
  lastCommit _ _ := rfl
  held j hj u := by
    by_cases hu : u = t
    · subst hu
      simpa [setTable] using h j hj
    · simpa [setTable, hu] using Table.Same.refl j (w.db u)
  clock := rfl

end World

/-- **A step of a statement, case by case**: refused in an aborted block,
failed, or carried out. -/
theorem statement_cases {pt : π}
    {f : Nat → World π Row ω → Option (Except SqlxError β × World π Row ω)}
    {i : Nat} {ch : Choice ν} {w w' : World π Row ω} {r : Except SqlxError β}
    (h : statement pt f i ch w = some (r, w')) :
    ((w.session i).status = .aborted ∧ w' = w ∧ ∃ e, r = .error e) ∨
      ((w.session i).status ≠ .aborted ∧ w' = w.failStatement i ∧
        (∃ msg, ch = .fail msg) ∧ ∃ e, r = .error e) ∨
      ((w.session i).status ≠ .aborted ∧
        f i (w.openStatement i pt) = some (r, w')) := by
  unfold statement at h
  split at h
  · rename_i hst
    simp only [Option.some.injEq, Prod.mk.injEq] at h
    exact .inl ⟨hst, h.2.symm, _, h.1.symm⟩
  · rename_i hst
    split at h
    · rename_i msg
      simp only [Option.some.injEq, Prod.mk.injEq] at h
      exact .inr (.inl ⟨hst, h.2.symm, ⟨msg, rfl⟩, _, h.1.symm⟩)
    · exact .inr (.inr ⟨hst, h⟩)

/-- Inserted rows go to the end. -/
theorem insertRows_ok {t : τ} {i : Nat} {dup : Row t → Row t → Bool} :
    ∀ {rs : List (Row t)} {x y : Table (Row t)},
      insertRows i dup rs x = some (.ok y) →
        y = x ++ rs.map (Cell.fresh i) := by
  intro rs
  induction rs with
  | nil =>
      intro x y h
      simp only [insertRows, Option.some.injEq, Except.ok.injEq] at h
      simp [h]
  | cons r rs ih =>
      intro x y h
      simp only [insertRows] at h
      split at h
      · cases h
      · split at h
        · cases h
        · rw [ih h]
          simp [Table.insert]

theorem insertRows_same {t : τ} {i j : Nat} (hne : j ≠ i)
    {dup : Row t → Row t → Bool} {rs : List (Row t)} {x y : Table (Row t)}
    (h : insertRows i dup rs x = some (.ok y)) : Table.Same j x y := by
  rw [insertRows_ok h]
  clear h
  induction rs generalizing x with
  | nil => simpa using Table.Same.refl j x
  | cons r rs ih =>
      have hone := Table.same_insert (Ne.symm hne) r x
      have hrest := ih (x := x.insert i r)
      simp only [Table.insert, List.append_assoc, List.singleton_append] at hrest
      exact hone.trans hrest

/-- A single row is inserted when nobody else holds a duplicate of it and the
session sees none. -/
theorem insertRows_one {t : τ} {i : Nat} {dup : Row t → Row t → Bool}
    {r : Row t} {x y : Table (Row t)}
    (h : insertRows i dup [r] x = some (.ok y)) :
    y = x.insert i r ∧
      (∀ c ∈ x, c.blocks i = true → ¬ (c.committed.any (dup r) = true ∨
        c.pending.any (fun v => dup r v.2) = true)) ∧
      ∀ v ∈ x.view i, dup r v = false := by
  simp only [insertRows] at h
  split at h
  · cases h
  · rename_i hblock
    split at h
    · cases h
    · rename_i hview
      simp only [Option.some.injEq, Except.ok.injEq] at h
      refine ⟨h.symm, fun c hc hb hdup => hblock ?_, fun v hv => ?_⟩
      · exact List.any_eq_true.mpr ⟨c, hc, by simpa [hb] using hdup⟩
      · rw [Bool.not_eq_true, List.any_eq_false] at hview
        simpa using hview v hv

theorem beginStep_cases {i : Nat} {ch : Choice ν} {w w' : World π Row ω}
    {r : Except SqlxError Unit} (h : beginStep i ch w = some (r, w')) :
    (w' = w ∧ (∃ msg, ch = .fail msg) ∧ ∃ e, r = .error e) ∨
      (w' = w.beginTx i ∧ r = .ok ()) := by
  unfold beginStep at h
  split at h <;> simp only [Option.some.injEq, Prod.mk.injEq] at h
  · exact .inl ⟨h.2.symm, ⟨_, rfl⟩, _, h.1.symm⟩
  · exact .inr ⟨h.2.symm, h.1.symm⟩

/-- **`COMMIT`, case by case**: of an aborted block, failed, or carried out. -/
theorem commitStep_cases {pt : π} {i : Nat} {ch : Choice ν}
    {w w' : World π Row ω} {r : Except SqlxError Unit}
    (h : commitStep pt i ch w = some (r, w')) :
    ((w.session i).status = .aborted ∧ r = .ok () ∧ w' = w.rollbackTx i) ∨
      ((w.session i).status ≠ .aborted ∧ (∃ e, r = .error e) ∧
        (∃ msg, ch = .fail msg) ∧ w' = w.rollbackTx i) ∨
      ((w.session i).status ≠ .aborted ∧ r = .ok () ∧
        w' = w.commitTx i pt) := by
  unfold commitStep at h
  split at h <;> simp only [Option.some.injEq, Prod.mk.injEq] at h
  · rename_i hst
    exact .inl ⟨hst, h.1.symm, h.2.symm⟩
  · rename_i hst
    exact .inr (.inl ⟨hst, ⟨_, h.1.symm⟩, ⟨_, rfl⟩, h.2.symm⟩)
  · rename_i _ hst
    exact .inr (.inr ⟨hst, h.1.symm, h.2.symm⟩)

theorem dropStep_eq {i : Nat} {ch : Choice ν} {w w' : World π Row ω} {u : Unit}
    (h : dropStep i ch w = some (u, w')) : w' = w.rollbackTx i := by
  simp only [dropStep, Option.some.injEq, Prod.mk.injEq] at h
  exact h.2.symm

end DpopAuth.Verified.Transactions
