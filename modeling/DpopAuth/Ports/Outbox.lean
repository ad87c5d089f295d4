import DpopAuth.Verified.Machines
import Mathlib.Algebra.Group.Nat.Defs
import Mathlib.Data.List.Sort

/-!
# The email outbox

The table `dpop_email_outbox` of `store/repo/email.rs` and any number of
`process_batch` runs of `service/email.rs` on it.

One claim statement is three kinds of acts: it starts, where it fixes `now()`
and the candidates of its snapshot; it visits one candidate after the other,
skipping those another open statement has locked and those that no longer pass
the `WHERE`; and it returns what it locked.  `process_batch` spawns one
delivery for each returned email: the sender is called, and its answer is
recorded by one of the two mark statements, which waits while the row is
locked by a claim statement.  A delivery whose worker crashes, whose pool gives
no connection or whose mark fails is abandoned; nobody hears about it.

Times are microseconds.  `R` is `reclaim_after_secs` as an interval.

## Main results

* `step_mail` — what one act does to one email.
-/

namespace DpopAuth.Ports.Outbox

open DpopAuth.Verified.Machines

/-! ## The table -/

/-- A row of `dpop_email_outbox`. -/
structure Row where
  toAddress : String
  subject : String
  body : String
  attempts : Nat
  maxAttempts : Nat
  lastError : Option String
  availableAt : Int
  lockedAt : Option Int
  sentAt : Option Int
  createdAt : Int
  deriving DecidableEq, Repr

/-- `OutboxEmailRow`: what a claim returns. -/
structure OutboxEmailRow where
  id : Nat
  toAddress : String
  subject : String
  body : String
  attempts : Nat
  maxAttempts : Nat
  deriving DecidableEq, Repr

/-- The largest `SMALLINT`. -/
def maxSmallint : Nat := 32767

/-- The default of the column `max_attempts`. -/
def defaultMaxAttempts : Nat := 5

/-- `enqueue_email` in a transaction that started at `now`: the other columns
take their defaults. -/
def enqueueEmail (now : Int) (address subject body : String) : Row where
  toAddress := address
  subject := subject
  body := body
  attempts := 0
  maxAttempts := defaultMaxAttempts
  lastError := none
  availableAt := now
  lockedAt := none
  sentAt := none
  createdAt := now

/-- The `WHERE` of `claim_pending_emails`, at the statement's `now()`. -/
def Row.pending (R now : Int) (row : Row) : Bool :=
  row.sentAt = none
    && row.lockedAt.all (fun l => decide (l < now - R))
    && decide (row.availableAt ≤ now)
    && decide (row.attempts < row.maxAttempts)

/-- The `RETURNING` of `claim_pending_emails`. -/
def Row.returning (id : Nat) (row : Row) : OutboxEmailRow where
  id := id
  toAddress := row.toAddress
  subject := row.subject
  body := row.body
  attempts := row.attempts
  maxAttempts := row.maxAttempts

/-- The `SET` of `mark_email_sent`. -/
def Row.markSent (now : Int) (row : Row) : Row :=
  { row with sentAt := some now, lockedAt := none }

/-- The `SET` of `mark_email_failed`. -/
def Row.markFailed (availableAt : Int) (error : String) (row : Row) : Row :=
  { row with
    attempts := row.attempts + 1
    lastError := some error
    availableAt := availableAt
    lockedAt := none }

/-! ## The worker -/

def backoffBaseSecs : Nat := 30

def backoffMaxSecs : Nat := 3600

/-- `1_u64.checked_shl(shift)`. -/
def checkedShl (shift : Nat) : Option Nat :=
  if shift < 64 then some (2 ^ shift) else none

/-- `u64::saturating_mul`. -/
def saturatingMul (a b : Nat) : Nat := min (a * b) (2 ^ 64 - 1)

/-- `compute_backoff_secs`. -/
def computeBackoffSecs (attempts : Nat) : Nat :=
  let shift := min attempts 16
  let factor := (checkedShl shift).getD (2 ^ 64 - 1)
  min (saturatingMul backoffBaseSecs factor) backoffMaxSecs

theorem computeBackoffSecs_le (attempts : Nat) :
    computeBackoffSecs attempts ≤ backoffMaxSecs := Nat.min_le_right _ _

/-- Seconds, as microseconds. -/
def secs (n : Nat) : Int := n * 1000000

/-- How far one delivery of `process_batch` has got. -/
inductive Stage where
  /-- The task is spawned. -/
  | spawned
  /-- `sender.send` is under way. -/
  | sending
  /-- It returned `Ok`. -/
  | accepted
  /-- It returned `Err`, and the next retry has been computed. -/
  | refused (availableAt : Int) (error : String)
  deriving DecidableEq, Repr

/-- One spawned task. -/
structure Delivery where
  item : OutboxEmailRow
  stage : Stage
  deriving DecidableEq, Repr

/-- What an observer of one email notes, with the number of the claim. -/
inductive Obs where
  /-- Claim `k`, whose statement started at `startedAt`, returned the email at
  `now`; `unlocked` says that `locked_at` was null. -/
  | claimed (k : Nat) (startedAt now : Int) (unlocked : Bool)
  /-- `EmailSender::send` was called. -/
  | sent (k : Nat)
  /-- It returned `Ok`. -/
  | accepted (k : Nat)
  /-- A mark statement has taken effect. -/
  | marked (k : Nat)
  deriving DecidableEq, Repr

/-- The claim an observation belongs to. -/
def Obs.claim : Obs → Nat
  | claimed k _ _ _ => k
  | sent k => k
  | accepted k => k
  | marked k => k

/-! ## One email -/

/-- One email: its row, the claim statement that has the row locked (with its
`now()`), the deliveries under way by claim, and its history, newest first. -/
structure Mail where
  row : Option Row
  lock : Option (Nat × Int)
  deliveries : Nat → Option Delivery
  history : List Obs

/-- The acts of the delivery a claim has spawned. -/
inductive WorkerAct where
  | send
  | sendOk
  | sendErr (error : String)
  /-- The statement of the mark began at `startedAt` and takes effect. -/
  | markSent (startedAt : Int)
  | markFailed
  | abandon
  deriving DecidableEq, Repr

namespace Mail

/-- No row has this id yet. -/
def absent : Mail := ⟨none, none, fun _ => none, []⟩

/-- The delivery of claim `k` is now at `d`. -/
def setDelivery (k : Nat) (d : Option Delivery) (m : Mail) : Mail :=
  { m with deliveries := Function.update m.deliveries k d }

/-- Note an observation. -/
def note (o : Obs) (m : Mail) : Mail := { m with history := o :: m.history }

/-- `mark_email_sent` or `mark_email_failed` takes effect: the delivery is
over. -/
def setMarked (k : Nat) (row : Row) (m : Mail) : Mail :=
  ({ m with row := some row }.setDelivery k none).note (.marked k)

/-- What the delivery of claim `k` does next.  A mark waits while a claim
statement has the row locked, and fails where `attempts` would overflow. -/
def deliver (now : Int) (k : Nat) (w : WorkerAct) (m : Mail) : Option Mail :=
  match w, m.deliveries k with
  | .send, some ⟨item, .spawned⟩ =>
      some ((m.setDelivery k (some ⟨item, .sending⟩)).note (.sent k))
  | .sendOk, some ⟨item, .sending⟩ =>
      some ((m.setDelivery k (some ⟨item, .accepted⟩)).note (.accepted k))
  | .sendErr error, some ⟨item, .sending⟩ =>
      let availableAt := now + secs (computeBackoffSecs item.attempts)
      some (m.setDelivery k (some ⟨item, .refused availableAt error⟩))
  | .markSent startedAt, some ⟨_, .accepted⟩ =>
      match m.row with
      | some row =>
          if m.lock = none ∧ startedAt ≤ now then
            some (m.setMarked k (row.markSent startedAt))
          else none
      | none => none
  | .markFailed, some ⟨_, .refused availableAt error⟩ =>
      match m.row with
      | some row =>
          if m.lock = none ∧ row.attempts < maxSmallint then
            some (m.setMarked k (row.markFailed availableAt error))
          else none
      | none => none
  | .abandon, some _ => some (m.setDelivery k none)
  | _, _ => none

/-- A claim statement may take the row: it is not locked by another one, and
it passes the `WHERE` as it is now. -/
def free (R t : Int) (m : Mail) : Bool :=
  m.lock.isNone && m.row.any (Row.pending R t)

/-- The statement of claim `k` returns email `r` if it has the row locked. -/
def returned (now : Int) (k r : Nat) (m : Mail) : Mail :=
  match m.lock, m.row with
  | some (j, t), some row =>
      if j = k then
        { row := some { row with lockedAt := some t }
          lock := none
          deliveries := Function.update m.deliveries k
            (some ⟨row.returning r, .spawned⟩)
          history := .claimed k t now row.lockedAt.isNone :: m.history }
      else m
  | _, _ => m

/-- The statement of claim `k` fails: its row lock goes. -/
def released (k : Nat) (m : Mail) : Mail :=
  if m.lock.any (fun l => l.1 = k) then { m with lock := none } else m

end Mail

/-! ## The system -/

/-- An open claim statement: its `now()`, the candidates left, and how many
rows `LIMIT` still lets it take. -/
structure Claim where
  startedAt : Int
  todo : List Nat
  left : Nat
  deriving DecidableEq, Repr

structure State where
  now : Int
  mails : Nat → Mail
  nextId : Nat
  claims : Nat → Option Claim
  nextClaim : Nat

/-- An empty outbox. -/
def State.empty (now : Int) : State where
  now := now
  mails := fun _ => .absent
  nextId := 0
  claims := fun _ => none
  nextClaim := 0

/-- The acts; `k` numbers the claims, `r` the rows. -/
inductive Act where
  | tick (d : Nat)
  /-- A transaction that began at `startedAt` commits a new email.
  `enqueue_email` leaves `max_attempts` to its default; an `INSERT` of the
  application's own may not. -/
  | enqueue (startedAt : Int) (address subject body : String) (maxAttempts : Nat)
  | beginClaim (batchSize : Nat)
  | visit (k : Nat)
  | returnBatch (k : Nat)
  | failClaim (k : Nat)
  | deliver (k r : Nat) (w : WorkerAct)
  deriving DecidableEq, Repr

namespace State

variable (R : Int) (s : State)

def setMail (r : Nat) (m : Mail) : State :=
  { s with mails := Function.update s.mails r m }

def setClaim (k : Nat) (c : Option Claim) : State :=
  { s with claims := Function.update s.claims k c }

def enqueue (startedAt : Int) (address subject body : String) (maxAttempts : Nat) :
    Option State :=
  if startedAt ≤ s.now ∧ maxAttempts ≤ maxSmallint then
    let row := { enqueueEmail startedAt address subject body with
      maxAttempts := maxAttempts }
    some { s.setMail s.nextId { Mail.absent with row := some row } with
      nextId := s.nextId + 1 }
  else none

/-- The candidates of the snapshot, `ORDER BY created_at`. -/
def candidates : List Nat :=
  let createdAt r := ((s.mails r).row.map Row.createdAt).getD 0
  ((List.range s.nextId).filter fun r =>
      (s.mails r).row.any (Row.pending R s.now)).insertionSort
    fun a b => createdAt a ≤ createdAt b

def beginClaim (batchSize : Nat) : State :=
  { s.setClaim s.nextClaim (some ⟨s.now, s.candidates R, batchSize⟩) with
    nextClaim := s.nextClaim + 1 }

/-- The next candidate: taken, or left to the others. -/
def visit (k : Nat) : Option State :=
  match s.claims k with
  | some ⟨t, r :: todo, left + 1⟩ =>
      if (s.mails r).free R t then
        some ((s.setMail r { s.mails r with lock := some (k, t) }).setClaim k
          (some ⟨t, todo, left⟩))
      else some (s.setClaim k (some ⟨t, todo, left + 1⟩))
  | _ => none

def returnBatch (k : Nat) : Option State :=
  match s.claims k with
  | some c =>
      if c.todo = [] ∨ c.left = 0 then
        some { s.setClaim k none with
          mails := fun r => (s.mails r).returned s.now k r }
      else none
  | none => none

def failClaim (k : Nat) : Option State :=
  match s.claims k with
  | some _ =>
      some { s.setClaim k none with
        mails := fun r => (s.mails r).released k }
  | none => none

def deliver (k r : Nat) (w : WorkerAct) : Option State :=
  match (s.mails r).deliver s.now k w with
  | some m => some (s.setMail r m)
  | none => none

end State

/-- The outbox. -/
def outbox (R : Int) : Machine Act State
  | .tick d, s => some { s with now := s.now + d }
  | .enqueue t address subject body n, s =>
      s.enqueue t address subject body n
  | .beginClaim n, s => some (s.beginClaim R n)
  | .visit k, s => s.visit R k
  | .returnBatch k, s => s.returnBatch k
  | .failClaim k, s => s.failClaim k
  | .deliver k r w, s => s.deliver k r w

/-! ## One email in the system -/

/-- What a condition on a run may look at: the claim and the email it is about
to return, and the delivery of a claim about to do something to an email. -/
structure Rules where
  mayReturn : Nat → Mail → Prop
  mayDeliver : Nat → WorkerAct → Mail → Prop

/-- No condition. -/
def Rules.none : Rules := ⟨fun _ _ => True, fun _ _ _ => True⟩

/-- The acts that respect the rules. -/
def Rules.allow (ru : Rules) : Act → State → Prop
  | .returnBatch k, s =>
      ∀ r t, (s.mails r).lock = some (k, t) → ru.mayReturn k (s.mails r)
  | .deliver k r w, s => ru.mayDeliver k w (s.mails r)
  | _, _ => True

/-- What can happen to one email in one act. -/
inductive MailStep (R : Int) (ru : Rules) (now : Int) : Mail → Mail → Prop
  | quiet (m : Mail) : MailStep R ru now m m
  | inserted {t : Int} {address subject body : String} {n : Nat} (ht : t ≤ now)
      (hn : n ≤ maxSmallint) :
      MailStep R ru now .absent { Mail.absent with
        row := some { enqueueEmail t address subject body with maxAttempts := n } }
  | locked {m : Mail} {k : Nat} {t : Int} {row : Row} (hrow : m.row = some row)
      (hlock : m.lock = none) (ht : t ≤ now) (hpending : row.pending R t = true) :
      MailStep R ru now m { m with lock := some (k, t) }
  | released (m : Mail) : MailStep R ru now m { m with lock := none }
  | returned {m : Mail} {k : Nat} {t : Int} {row : Row} {item : OutboxEmailRow}
      (hrow : m.row = some row) (hlock : m.lock = some (k, t))
      (hidle : m.deliveries k = none) (hnew : ∀ o ∈ m.history, o.claim ≠ k)
      (hmay : ru.mayReturn k m) :
      MailStep R ru now m
        { row := some { row with lockedAt := some t }
          lock := none
          deliveries := Function.update m.deliveries k (some ⟨item, .spawned⟩)
          history := .claimed k t now row.lockedAt.isNone :: m.history }
  | delivered {m m' : Mail} {k : Nat} {w : WorkerAct}
      (hdeliver : m.deliver now k w = some m') (hmay : ru.mayDeliver k w m) :
      MailStep R ru now m m'

/-- The bookkeeping of the claim statements. -/
structure Booked (s : State) : Prop where
  absent : ∀ r, s.nextId ≤ r → s.mails r = .absent
  fresh : ∀ k, s.nextClaim ≤ k → s.claims k = none
  started : ∀ k c, s.claims k = some c → c.startedAt ≤ s.now
  lock : ∀ r k t, (s.mails r).lock = some (k, t) →
    ∃ c, s.claims k = some c ∧ c.startedAt = t
  held : ∀ r, (s.mails r).lock ≠ none → (s.mails r).row ≠ none
  idle : ∀ k, s.nextClaim ≤ k ∨ s.claims k ≠ none → ∀ r,
    (s.mails r).deliveries k = none ∧ ∀ o ∈ (s.mails r).history, o.claim ≠ k

theorem Booked.empty (now : Int) : Booked (State.empty now) where
  absent _ _ := rfl
  fresh _ _ := rfl
  started k c h := by cases h
  lock r k t h := by cases h
  held r h := absurd rfl h
  idle k _ r := ⟨rfl, fun o ho => by cases ho⟩

/-! ## What one act does -/

section Acts

variable {R : Int} {ru : Rules} {s s' : State} {a : Act} {r k : Nat}

@[simp] theorem State.setMail_self (s : State) (r : Nat) (m : Mail) :
    (s.setMail r m).mails r = m := by simp [State.setMail]

theorem State.setMail_ne (s : State) {r j : Nat} (h : j ≠ r) (m : Mail) :
    (s.setMail r m).mails j = s.mails j := by simp [State.setMail, h]

/-- Where claim `k` has not locked the row, its return does nothing. -/
theorem Mail.returned_other {m : Mail} {now : Int}
    (h : ∀ t, m.lock ≠ some (k, t)) : m.returned now k r = m := by
  unfold Mail.returned
  split
  · rename_i j t row hlock hrow
    have hj : j ≠ k := by
      rintro rfl
      exact h t hlock
    rw [if_neg hj]
  · rfl

theorem Mail.returned_held {m : Mail} {now t : Int} {row : Row}
    (hlock : m.lock = some (k, t)) (hrow : m.row = some row) :
    m.returned now k r =
      { row := some { row with lockedAt := some t }
        lock := none
        deliveries := Function.update m.deliveries k
          (some ⟨row.returning r, .spawned⟩)
        history := .claimed k t now row.lockedAt.isNone :: m.history } := by
  simp [Mail.returned, hlock, hrow]

/-- What a delivery does, by the stage it is at. -/
theorem Mail.deliver_cases {m m' : Mail} {now : Int} {w : WorkerAct}
    (h : m.deliver now k w = some m') :
    ∃ item stage, m.deliveries k = some ⟨item, stage⟩ ∧
      ((w = .send ∧ stage = .spawned ∧
          m' = (m.setDelivery k (some ⟨item, .sending⟩)).note (.sent k)) ∨
        (w = .sendOk ∧ stage = .sending ∧
          m' = (m.setDelivery k (some ⟨item, .accepted⟩)).note
            (.accepted k)) ∨
        (∃ e, w = .sendErr e ∧ stage = .sending ∧
          m' = m.setDelivery k (some ⟨item, .refused
            (now + secs (computeBackoffSecs item.attempts)) e⟩)) ∨
        (∃ t row, w = .markSent t ∧ stage = .accepted ∧ m.row = some row ∧
          m.lock = none ∧ t ≤ now ∧ m' = m.setMarked k (row.markSent t)) ∨
        (∃ t e row, w = .markFailed ∧ stage = .refused t e ∧
          m.row = some row ∧ m.lock = none ∧
          m' = m.setMarked k (row.markFailed t e)) ∨
        (w = .abandon ∧ m' = m.setDelivery k none)) := by
  unfold Mail.deliver at h
  split at h
  · rename_i item hd
    cases h
    exact ⟨item, _, hd, .inl ⟨rfl, rfl, rfl⟩⟩
  · rename_i item hd
    cases h
    exact ⟨item, _, hd, .inr (.inl ⟨rfl, rfl, rfl⟩)⟩
  · rename_i e item hd
    cases h
    exact ⟨item, _, hd, .inr (.inr (.inl ⟨e, rfl, rfl, rfl⟩))⟩
  · rename_i t item hd
    split at h
    · rename_i row hrow
      split at h
      · rename_i hg
        cases h
        exact ⟨item, _, hd, .inr (.inr (.inr (.inl
          ⟨t, row, rfl, rfl, hrow, hg.1, hg.2, rfl⟩)))⟩
      · cases h
    · cases h
  · rename_i item t e hd
    split at h
    · rename_i row hrow
      split at h
      · rename_i hg
        cases h
        exact ⟨item, _, hd, .inr (.inr (.inr (.inr (.inl
          ⟨t, e, row, rfl, rfl, hrow, hg.1, rfl⟩))))⟩
      · cases h
    · cases h
  · rename_i d hd
    cases h
    exact ⟨d.item, d.stage, hd, .inr (.inr (.inr (.inr (.inr ⟨rfl, rfl⟩))))⟩
  · cases h

/-- A delivery keeps the row lock, and touches no delivery and no observation
of other claims. -/
theorem Mail.deliver_frame {m m' : Mail} {now : Int} {w : WorkerAct}
    (h : m.deliver now k w = some m') :
    m'.lock = m.lock ∧ m.deliveries k ≠ none ∧
      (∀ j, j ≠ k → m'.deliveries j = m.deliveries j) ∧
      (∀ o ∈ m'.history, o ∈ m.history ∨ o.claim = k) := by
  obtain ⟨item, stage, hd, hcases⟩ := Mail.deliver_cases h
  have hlive : m.deliveries k ≠ none := by simp [hd]
  rcases hcases with ⟨-, -, rfl⟩ | ⟨-, -, rfl⟩ | ⟨e, -, -, rfl⟩ |
    ⟨t, row, -, -, -, -, -, rfl⟩ | ⟨t, e, row, -, -, -, -, rfl⟩ | ⟨-, rfl⟩
  all_goals
    refine ⟨rfl, hlive, fun j hj => ?_, fun o ho => ?_⟩
    · simp [Mail.setDelivery, Mail.setMarked, Mail.note, hj]
    · simp only [Mail.setDelivery, Mail.setMarked, Mail.note,
        List.mem_cons] at ho
      first
        | exact .inl ho
        | exact ho.elim (fun h => .inr (h ▸ rfl)) .inl

theorem visit_cases (h : s.visit R k = some s') :
    ∃ t r todo left, s.claims k = some ⟨t, r :: todo, left + 1⟩ ∧
      (((s.mails r).free R t = true ∧
          s' = (s.setMail r { s.mails r with lock := some (k, t) }).setClaim k
            (some ⟨t, todo, left⟩)) ∨
        s' = s.setClaim k (some ⟨t, todo, left + 1⟩)) := by
  unfold State.visit at h
  split at h
  · rename_i t r todo left hc
    refine ⟨t, r, todo, left, hc, ?_⟩
    split at h
    · rename_i hfree
      cases h
      exact .inl ⟨hfree, rfl⟩
    · cases h
      exact .inr rfl
  · cases h

theorem returnBatch_cases (h : s.returnBatch k = some s') :
    ∃ c, s.claims k = some c ∧
      s' = { s.setClaim k none with
        mails := fun r => (s.mails r).returned s.now k r } := by
  unfold State.returnBatch at h
  split at h
  · rename_i c hc
    split at h
    · cases h
      exact ⟨c, hc, rfl⟩
    · cases h
  · cases h

theorem failClaim_cases (h : s.failClaim k = some s') :
    (∃ c, s.claims k = some c) ∧
      s' = { s.setClaim k none with
        mails := fun r => (s.mails r).released k } := by
  unfold State.failClaim at h
  split at h
  · rename_i c hc
    cases h
    exact ⟨⟨c, hc⟩, rfl⟩
  · cases h

theorem deliver_cases {w : WorkerAct} (h : s.deliver k r w = some s') :
    ∃ m, (s.mails r).deliver s.now k w = some m ∧ s' = s.setMail r m := by
  unfold State.deliver at h
  split at h
  · rename_i m hm
    cases h
    exact ⟨m, hm, rfl⟩
  · cases h

theorem enqueue_cases {t : Int} {address subject body : String} {n : Nat}
    (h : s.enqueue t address subject body n = some s') :
    t ≤ s.now ∧ n ≤ maxSmallint ∧
      s' = { s.setMail s.nextId { Mail.absent with
        row := some { enqueueEmail t address subject body with
          maxAttempts := n } } with nextId := s.nextId + 1 } := by
  unfold State.enqueue at h
  split at h
  · rename_i hg
    cases h
    exact ⟨hg.1, hg.2, rfl⟩
  · cases h

theorem Mail.free_iff {m : Mail} {t : Int} (h : m.free R t = true) :
    m.lock = none ∧ ∃ row, m.row = some row ∧ row.pending R t = true := by
  rw [Mail.free, Bool.and_eq_true, Option.isNone_iff_eq_none,
    Option.any_eq_true] at h
  exact h

/-- **One act, one email.** -/
theorem step_mail (hb : Booked s)
    (hstep : outbox R a s = some s') (hallow : ru.allow a s) (r : Nat) :
    MailStep R ru s.now (s.mails r) (s'.mails r) := by
  cases a with
  | tick d =>
      cases hstep
      exact .quiet _
  | enqueue t address subject body n =>
      obtain ⟨ht, hn, rfl⟩ := enqueue_cases hstep
      by_cases hr : r = s.nextId
      · rw [hr]
        have habsent := hb.absent s.nextId (Nat.le_refl _)
        have hnew := State.setMail_self s s.nextId { Mail.absent with
          row := some { enqueueEmail t address subject body with
            maxAttempts := n } }
        rw [habsent]
        show MailStep R ru s.now _ ((s.setMail s.nextId _).mails s.nextId)
        rw [hnew]
        exact .inserted ht hn
      · show MailStep R ru s.now _ ((s.setMail s.nextId _).mails r)
        rw [State.setMail_ne s hr]
        exact .quiet _
  | beginClaim n =>
      cases hstep
      exact .quiet _
  | visit k =>
      obtain ⟨t, j, todo, left, hc, ⟨hfree, rfl⟩ | rfl⟩ := visit_cases hstep
      · by_cases hr : r = j
        · rw [hr]
          obtain ⟨hnone, row, hrow, hpending⟩ := Mail.free_iff hfree
          show MailStep R ru s.now _ ((s.setMail j _).mails j)
          rw [State.setMail_self]
          exact .locked hrow hnone (hb.started k _ hc) hpending
        · show MailStep R ru s.now _ ((s.setMail j _).mails r)
          rw [State.setMail_ne s hr]
          exact .quiet _
      · exact .quiet _
  | returnBatch k =>
      obtain ⟨c, hc, rfl⟩ := returnBatch_cases hstep
      show MailStep R ru s.now _ ((s.mails r).returned s.now k r)
      by_cases hk : ∃ t, (s.mails r).lock = some (k, t)
      · obtain ⟨t, hlock⟩ := hk
        obtain ⟨row, hrow⟩ := Option.ne_none_iff_exists'.1
          (hb.held r (by simp [hlock]))
        rw [Mail.returned_held hlock hrow]
        obtain ⟨hidle, hnew⟩ := hb.idle k (.inr (by simp [hc])) r
        exact .returned hrow hlock hidle hnew (hallow r t hlock)
      · rw [Mail.returned_other fun t ht => hk ⟨t, ht⟩]
        exact .quiet _
  | failClaim k =>
      obtain ⟨-, rfl⟩ := failClaim_cases hstep
      show MailStep R ru s.now _ ((s.mails r).released k)
      unfold Mail.released
      split
      · exact .released _
      · exact .quiet _
  | deliver k j w =>
      obtain ⟨m, hm, rfl⟩ := deliver_cases hstep
      by_cases hr : r = j
      · subst hr
        rw [State.setMail_self]
        exact .delivered hm hallow
      · rw [State.setMail_ne s hr]
        exact .quiet _

/-- An email that has a row keeps one. -/
theorem MailStep.row_ne_none {now : Int} {m m' : Mail}
    (h : MailStep R ru now m m') (hrow : m.row ≠ none) : m'.row ≠ none := by
  cases h with
  | quiet | locked | released => exact hrow
  | inserted | returned => simp
  | delivered hd _ =>
      obtain ⟨item, stage, -, hcases⟩ := Mail.deliver_cases hd
      rcases hcases with ⟨-, -, rfl⟩ | ⟨-, -, rfl⟩ | ⟨e, -, -, rfl⟩ |
        ⟨t, row, -, -, -, -, -, rfl⟩ | ⟨t, e, row, -, -, -, -, rfl⟩ | ⟨-, rfl⟩
      all_goals simp_all [Mail.setDelivery, Mail.setMarked, Mail.note]

/-- Only an email with a row is locked. -/
theorem MailStep.held {now : Int} {m m' : Mail} (h : MailStep R ru now m m')
    (hm : m.lock ≠ none → m.row ≠ none) : m'.lock ≠ none → m'.row ≠ none := by
  intro hlock
  refine h.row_ne_none ?_
  cases h with
  | quiet => exact hm hlock
  | inserted => exact absurd rfl hlock
  | locked hrow => simp [hrow]
  | released => exact absurd rfl hlock
  | returned => exact absurd rfl hlock
  | delivered hd _ => exact hm ((Mail.deliver_frame hd).1 ▸ hlock)

/-- Time does not go back. -/
theorem outbox_now (h : outbox R a s = some s') : s.now ≤ s'.now := by
  cases a with
  | tick d =>
      cases h
      show s.now ≤ s.now + d
      omega
  | enqueue t address subject body n =>
      obtain ⟨-, -, rfl⟩ := enqueue_cases h
      exact Int.le_refl _
  | beginClaim n =>
      cases h
      exact Int.le_refl _
  | visit k =>
      obtain ⟨t, j, todo, left, -, ⟨-, rfl⟩ | rfl⟩ := visit_cases h
      · exact Int.le_refl _
      · exact Int.le_refl _
  | returnBatch k =>
      obtain ⟨c, -, rfl⟩ := returnBatch_cases h
      exact Int.le_refl _
  | failClaim k =>
      obtain ⟨-, rfl⟩ := failClaim_cases h
      exact Int.le_refl _
  | deliver k j w =>
      obtain ⟨m, -, rfl⟩ := deliver_cases h
      exact Int.le_refl _

theorem Booked.setClaim_other {j : Nat} {c : Claim} (hj : j ≠ k)
    (h : (s.setClaim k none).claims j = some c) : s.claims j = some c := by
  simpa [State.setClaim, hj] using h

/-- The bookkeeping goes on. -/
theorem Booked.step (hb : Booked s) (hstep : outbox R a s = some s') :
    Booked s' := by
  have hheld : ∀ r, (s'.mails r).lock ≠ none → (s'.mails r).row ≠ none := by
    intro r
    have hfree : Rules.none.allow a s := by cases a <;> simp [Rules.allow, Rules.none]
    exact (step_mail hb hstep hfree r).held (hb.held r)
  cases a with
  | tick d =>
      cases hstep
      refine ⟨hb.absent, hb.fresh, fun k c hc => ?_, hb.lock, hheld, hb.idle⟩
      have hbefore : c.startedAt ≤ s.now := hb.started k c hc
      show c.startedAt ≤ s.now + d
      omega
  | enqueue t address subject body n =>
      obtain ⟨-, -, rfl⟩ := enqueue_cases hstep
      refine ⟨fun r hr => ?_, hb.fresh, hb.started, fun r k u hlock => ?_, hheld,
        fun k hk r => ?_⟩
      · have hlt : s.nextId < r := hr
        show (s.setMail s.nextId _).mails r = _
        rw [State.setMail_ne s (by omega)]
        exact hb.absent r (by omega)
      · by_cases hr : r = s.nextId
        · subst hr
          simp [State.setMail, Mail.absent] at hlock
        · refine hb.lock r k u ?_
          simpa [State.setMail, hr] using hlock
      · by_cases hr : r = s.nextId
        · subst hr
          simp [State.setMail, Mail.absent]
        · show ((s.setMail s.nextId _).mails r).deliveries k = none ∧ _
          rw [State.setMail_ne s hr]
          exact hb.idle k hk r
  | beginClaim n =>
      cases hstep
      have hnone : s.claims s.nextClaim = none := hb.fresh _ (Nat.le_refl _)
      refine ⟨hb.absent, fun k hk => ?_, fun k c hc => ?_, fun r k t hlock => ?_,
        hheld, fun k hk r => ?_⟩
      · have hlt : s.nextClaim < k := hk
        show Function.update s.claims s.nextClaim _ k = none
        rw [Function.update_of_ne (by omega)]
        exact hb.fresh k (by omega)
      · by_cases hk : k = s.nextClaim
        · subst hk
          simp only [State.beginClaim, State.setClaim, Function.update_self,
            Option.some.injEq] at hc
          subst hc
          exact Int.le_refl _
        · refine hb.started k c ?_
          simpa [State.beginClaim, State.setClaim, hk] using hc
      · obtain ⟨c, hc, ht⟩ := hb.lock r k t hlock
        have hk : k ≠ s.nextClaim := by
          rintro rfl
          rw [hnone] at hc
          cases hc
        exact ⟨c, by simpa [State.beginClaim, State.setClaim, hk] using hc, ht⟩
      · refine hb.idle k ?_ r
        rcases hk with hk | hk
        · have hlt : s.nextClaim + 1 ≤ k := hk
          exact .inl (by omega)
        · by_cases hnew : k = s.nextClaim
          · exact .inl (by omega)
          · refine .inr ?_
            simpa [State.beginClaim, State.setClaim, hnew] using hk
  | visit k =>
      obtain ⟨t, j, todo, left, hc, hcases⟩ := visit_cases hstep
      -- either way claim `k` stays open with the same `now()`
      have hclaims : ∃ left', s'.claims
          = Function.update s.claims k (some ⟨t, todo, left'⟩) := by
        rcases hcases with ⟨-, rfl⟩ | rfl
        · exact ⟨left, rfl⟩
        · exact ⟨left + 1, rfl⟩
      obtain ⟨left', hclaims⟩ := hclaims
      have hopen : s.claims k ≠ none := by simp [hc]
      have hold : k < s.nextClaim := by
        by_contra hge
        exact hopen (hb.fresh k (by omega))
      have hsame : s'.now = s.now ∧ s'.nextId = s.nextId
          ∧ s'.nextClaim = s.nextClaim := by
        rcases hcases with ⟨-, rfl⟩ | rfl <;> exact ⟨rfl, rfl, rfl⟩
      have hmails : ∀ r, (s'.mails r).deliveries = (s.mails r).deliveries
          ∧ (s'.mails r).history = (s.mails r).history
          ∧ ((s'.mails r).lock = (s.mails r).lock
            ∨ (s'.mails r).lock = some (k, t))
          ∧ (s.mails r = .absent → s'.mails r = .absent) := by
        intro r
        rcases hcases with ⟨hfree, rfl⟩ | rfl
        · by_cases hr : r = j
          · subst hr
            refine ⟨by simp [State.setMail, State.setClaim],
              by simp [State.setMail, State.setClaim],
              .inr (by simp [State.setMail, State.setClaim]), fun habs => ?_⟩
            rw [habs] at hfree
            cases hfree
          · simp [State.setMail, State.setClaim, hr]
        · exact ⟨rfl, rfl, .inl rfl, id⟩
      obtain ⟨hnow, hid, hnext⟩ := hsame
      refine ⟨fun r hr => (hmails r).2.2.2 (hb.absent r (hid ▸ hr)),
        fun i hi => ?_, fun i c' hc' => ?_, fun r i u hlock => ?_, hheld,
        fun i hi r => ?_⟩
      · rw [hclaims, Function.update_of_ne (by omega)]
        exact hb.fresh i (hnext ▸ hi)
      · rw [hnow]
        by_cases hi : i = k
        · subst hi
          rw [hclaims, Function.update_self, Option.some.injEq] at hc'
          have ht : t ≤ s.now := hb.started i _ hc
          rw [← hc']
          exact ht
        · rw [hclaims, Function.update_of_ne hi] at hc'
          exact hb.started i c' hc'
      · have hcase : ∃ c', s.claims i = some c' ∧ c'.startedAt = u := by
          rcases (hmails r).2.2.1 with hl | hl
          · exact hb.lock r i u (hl ▸ hlock)
          · rw [hlock] at hl
            cases hl
            exact ⟨_, hc, rfl⟩
        obtain ⟨c', hc', hu⟩ := hcase
        by_cases hi : i = k
        · subst hi
          rw [hc] at hc'
          cases hc'
          exact ⟨⟨t, todo, left'⟩, by rw [hclaims, Function.update_self], hu⟩
        · exact ⟨c', by rw [hclaims, Function.update_of_ne hi, hc'], hu⟩
      · rw [(hmails r).1, (hmails r).2.1]
        refine hb.idle i ?_ r
        rcases hi with hi | hi
        · exact .inl (hnext ▸ hi)
        · by_cases hk : i = k
          · exact .inr (hk ▸ hopen)
          · rw [hclaims, Function.update_of_ne hk] at hi
            exact .inr hi
  | returnBatch k =>
      obtain ⟨c, hc, rfl⟩ := returnBatch_cases hstep
      have hopen : s.claims k ≠ none := by simp [hc]
      have hold : k < s.nextClaim := by
        by_contra hge
        exact hopen (hb.fresh k (by omega))
      refine ⟨fun r hr => ?_, fun i hi => ?_, fun i c' hc' => ?_,
        fun r i u hlock => ?_, hheld, fun i hi r => ?_⟩
      · show (s.mails r).returned s.now k r = _
        rw [hb.absent r hr]
        rfl
      · have hge : s.nextClaim ≤ i := hi
        show Function.update s.claims k none i = none
        rw [Function.update_of_ne (by omega)]
        exact hb.fresh i hge
      · have hi : i ≠ k := by
          rintro rfl
          simp [State.setClaim] at hc'
        exact hb.started i c' (Booked.setClaim_other hi hc')
      · have hkeep : (s.mails r).lock = some (i, u) ∧ i ≠ k := by
          by_cases hk : ∃ t, (s.mails r).lock = some (k, t)
          · obtain ⟨t, hl⟩ := hk
            obtain ⟨row, hrow⟩ := Option.ne_none_iff_exists'.1
              (hb.held r (by simp [hl]))
            change ((s.mails r).returned s.now k r).lock = _ at hlock
            rw [Mail.returned_held hl hrow] at hlock
            cases hlock
          · change ((s.mails r).returned s.now k r).lock = _ at hlock
            rw [Mail.returned_other fun t ht => hk ⟨t, ht⟩] at hlock
            refine ⟨hlock, ?_⟩
            rintro rfl
            exact hk ⟨u, hlock⟩
        obtain ⟨c', hc', hu⟩ := hb.lock r i u hkeep.1
        exact ⟨c', by simp [State.setClaim, hkeep.2, hc'], hu⟩
      · have hik : i ≠ k ∧ (s.nextClaim ≤ i ∨ s.claims i ≠ none) := by
          rcases hi with hi | hi
          · have hge : s.nextClaim ≤ i := hi
            exact ⟨by omega, .inl hge⟩
          · have hne : i ≠ k := by
              rintro rfl
              simp [State.setClaim] at hi
            exact ⟨hne, .inr (by simpa [State.setClaim, hne] using hi)⟩
        obtain ⟨hidle, hnew⟩ := hb.idle i hik.2 r
        by_cases hk : ∃ t, (s.mails r).lock = some (k, t)
        · obtain ⟨t, hl⟩ := hk
          obtain ⟨row, hrow⟩ := Option.ne_none_iff_exists'.1
            (hb.held r (by simp [hl]))
          show ((s.mails r).returned s.now k r).deliveries i = none ∧
            ∀ o ∈ ((s.mails r).returned s.now k r).history, o.claim ≠ i
          rw [Mail.returned_held hl hrow]
          refine ⟨by simp [hik.1, hidle], fun o ho => ?_⟩
          rcases List.mem_cons.1 ho with rfl | ho
          · exact fun h => hik.1 h.symm
          · exact hnew o ho
        · show ((s.mails r).returned s.now k r).deliveries i = none ∧
            ∀ o ∈ ((s.mails r).returned s.now k r).history, o.claim ≠ i
          rw [Mail.returned_other fun t ht => hk ⟨t, ht⟩]
          exact ⟨hidle, hnew⟩
  | failClaim k =>
      obtain ⟨⟨c, hc⟩, rfl⟩ := failClaim_cases hstep
      have hopen : s.claims k ≠ none := by simp [hc]
      have hold : k < s.nextClaim := by
        by_contra hge
        exact hopen (hb.fresh k (by omega))
      have hmails : ∀ r, ((s.mails r).released k).deliveries
            = (s.mails r).deliveries
          ∧ ((s.mails r).released k).history = (s.mails r).history := by
        intro r
        unfold Mail.released
        split <;> exact ⟨rfl, rfl⟩
      refine ⟨fun r hr => ?_, fun i hi => ?_, fun i c' hc' => ?_,
        fun r i u hlock => ?_, hheld, fun i hi r => ?_⟩
      · show (s.mails r).released k = _
        rw [hb.absent r hr]
        rfl
      · have hge : s.nextClaim ≤ i := hi
        show Function.update s.claims k none i = none
        rw [Function.update_of_ne (by omega)]
        exact hb.fresh i hge
      · have hi : i ≠ k := by
          rintro rfl
          simp [State.setClaim] at hc'
        exact hb.started i c' (Booked.setClaim_other hi hc')
      · have hkeep : (s.mails r).lock = some (i, u) ∧ i ≠ k := by
          change ((s.mails r).released k).lock = _ at hlock
          unfold Mail.released at hlock
          split at hlock
          · cases hlock
          · rename_i hother
            refine ⟨hlock, ?_⟩
            rintro rfl
            simp [hlock] at hother
        obtain ⟨c', hc', hu⟩ := hb.lock r i u hkeep.1
        exact ⟨c', by simp [State.setClaim, hkeep.2, hc'], hu⟩
      · show ((s.mails r).released k).deliveries i = none ∧
          ∀ o ∈ ((s.mails r).released k).history, o.claim ≠ i
        rw [(hmails r).1, (hmails r).2]
        refine hb.idle i ?_ r
        rcases hi with hi | hi
        · exact .inl hi
        · have hne : i ≠ k := by
            rintro rfl
            simp [State.setClaim] at hi
          exact .inr (by simpa [State.setClaim, hne] using hi)
  | deliver k j w =>
      obtain ⟨m, hm, rfl⟩ := deliver_cases hstep
      obtain ⟨hlock, hlive, hothers, hhist⟩ := Mail.deliver_frame hm
      refine ⟨fun r hr => ?_, hb.fresh, hb.started, fun r i u hl => ?_, hheld,
        fun i hi r => ?_⟩
      · have hne : r ≠ j := by
          rintro rfl
          rw [hb.absent r hr] at hlive
          exact hlive rfl
        rw [State.setMail_ne s hne]
        exact hb.absent r hr
      · refine hb.lock r i u ?_
        by_cases hr : r = j
        · subst hr
          rw [State.setMail_self, hlock] at hl
          exact hl
        · rw [State.setMail_ne s hr] at hl
          exact hl
      · obtain ⟨hidle, hnew⟩ := hb.idle i hi r
        by_cases hr : r = j
        · subst hr
          have hik : i ≠ k := by
            rintro rfl
            exact hlive hidle
          rw [State.setMail_self, hothers i hik]
          refine ⟨hidle, fun o ho => ?_⟩
          rcases hhist o ho with ho | ho
          · exact hnew o ho
          · rw [ho]
            exact fun h => hik h.symm
        · rw [State.setMail_ne s hr]
          exact ⟨hidle, hnew⟩

theorem Booked.run (hrun : Reaches (outbox R) ru.allow s s')
    (hb : Booked s) : Booked s' :=
  hrun.invariant (fun _ _ _ hbs hact _ => hbs.step hact) hb

/-- **What an act keeps of an email, every run keeps of it.** -/
theorem mail_invariant {P : Int → Mail → Prop} {s₀ : State}
    (hgrow : ∀ {t t' m}, t ≤ t' → P t m → P t' m)
    (hstep : ∀ {t m m'}, P t m → MailStep R ru t m m' → P t m')
    (hb : Booked s₀) (hrun : Reaches (outbox R) ru.allow s₀ s)
    (h₀ : P s₀.now (s₀.mails r)) : P s.now (s.mails r) := by
  have hboth : Booked s ∧ P s.now (s.mails r) := by
    refine hrun.invariant (P := fun s => Booked s ∧ P s.now (s.mails r))
      ?_ ⟨hb, h₀⟩
    intro a s s' ⟨hbs, hP⟩ hact hallow
    refine ⟨hbs.step hact, ?_⟩
    exact hgrow (outbox_now hact) (hstep hP (step_mail hbs hact hallow r))
  exact hboth.2

end Acts

/-- The acts of one claim that finds one email. -/
def claimOne (k : Nat) : List Act :=
  [.beginClaim 1, .visit k, .returnBatch k]

end DpopAuth.Ports.Outbox
