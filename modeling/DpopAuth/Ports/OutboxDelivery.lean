import DpopAuth.Ports.Outbox

/-!
# How often an email is sent, and that it is not lost

`max_attempts` bounds the `attempts` a claim accepts, and only
`mark_email_failed` advances them.  A send whose worker crashes, or whose email
is claimed by another worker before its mark, is not counted when the email
is claimed again.

Whatever happens, `sent_at` is set only after a send has succeeded, a retired
email stays retired, and an email that is neither retired nor exhausted comes
up for the claims again.

## Main results

* `delivery_bound` — where every send is recorded before the next claim, there
  are at most `max_attempts` of them.
* `crash_is_not_counted` — elsewhere there may be more.
* `nothing_lost` — no email is lost or retired unsent.
-/

namespace DpopAuth.Ports.OutboxDelivery

open DpopAuth.Verified.Machines
open DpopAuth.Ports.Outbox

/-! ## How often -/

/-- The observation of a call of `EmailSender::send`. -/
def isSend : Obs → Bool
  | .sent _ => true
  | _ => false

/-- How often `EmailSender::send` has been called for the email. -/
def sends (m : Mail) : Nat := m.history.countP isSend

/-- Every send of the email has been recorded by a mark. -/
def Recorded (m : Mail) : Prop :=
  ∀ j, .sent j ∈ m.history → .marked j ∈ m.history

/-- No delivery of an earlier claim is under way, and none ended without its
mark after calling the sender. -/
def Settled (m : Mail) : Prop := (∀ j, m.deliveries j = none) ∧ Recorded m

/-- The runs in which only settled emails are claimed. -/
def settledRules : Rules where
  mayReturn _ m := Settled m
  mayDeliver _ _ _ := True

/-- What the runs keep: the sends are counted. -/
structure Counted (R now : Int) (m : Mail) : Prop where
  one : ∀ i j, m.deliveries i ≠ none → m.deliveries j ≠ none → i = j
  unmarked : ∀ j, m.deliveries j ≠ none → .marked j ∉ m.history
  bound : ∀ row, m.row = some row →
    row.attempts ≤ row.maxAttempts ∧ sends m ≤ row.maxAttempts
  waiting : ∀ row k t, m.row = some row → m.lock = some (k, t) →
    row.sentAt = none ∧ row.attempts < row.maxAttempts
  spawned : ∀ row k item, m.row = some row →
    m.deliveries k = some ⟨item, .spawned⟩ →
    sends m ≤ row.attempts ∧ row.attempts < row.maxAttempts ∧ Recorded m
  under_way : ∀ row k d, m.row = some row → m.deliveries k = some d →
    d.stage ≠ .spawned → sends m ≤ row.attempts + 1 ∧
      row.attempts < row.maxAttempts ∧ .sent k ∈ m.history
  settled : ∀ row, m.row = some row → Settled m → row.sentAt = none →
    sends m ≤ row.attempts

variable {R : Int} {now now' : Int} {m m' : Mail}

theorem Counted.absent : Counted R now .absent where
  one i j h := absurd rfl h
  unmarked j h := absurd rfl h
  bound row h := by cases h
  waiting row k t h := by cases h
  spawned row k item h := by cases h
  under_way row k d h := by cases h
  settled row h := by cases h

theorem Counted.inserted {row : Row} (ha : row.attempts = 0) :
    Counted R now { Mail.absent with row := some row } where
  one i j h := absurd rfl h
  unmarked j h := absurd rfl h
  bound row' h := by
    cases h
    exact ⟨by omega, Nat.zero_le _⟩
  waiting row k t _ h := by cases h
  spawned row k item _ h := by cases h
  under_way row k d _ h := by cases h
  settled row _ _ _ := Nat.zero_le _

theorem pending_open {row : Row} {t : Int} (h : row.pending R t = true) :
    row.sentAt = none ∧ row.attempts < row.maxAttempts := by
  simp only [Row.pending, Bool.and_eq_true, decide_eq_true_eq] at h
  exact ⟨h.1.1.1, h.2⟩

/-- A row lock comes or goes. -/
theorem Counted.relock {l : Option (Nat × Int)} (hc : Counted R now m)
    (hl : ∀ row k t, m.row = some row → l = some (k, t) →
      row.sentAt = none ∧ row.attempts < row.maxAttempts) :
    Counted R now { m with lock := l } :=
  { hc with waiting := hl }

theorem Counted.returned {row : Row} {item : OutboxEmailRow} {k : Nat} {t : Int}
    {u : Bool} (hc : Counted R now m) (hrow : m.row = some row)
    (hlock : m.lock = some (k, t)) (hnew : ∀ o ∈ m.history, o.claim ≠ k)
    (hsettled : Settled m) :
    Counted R now
      { row := some { row with lockedAt := some t }
        lock := none
        deliveries := Function.update m.deliveries k (some ⟨item, .spawned⟩)
        history := .claimed k t now u :: m.history } := by
  obtain ⟨hunsent, hopen⟩ := hc.waiting row k t hrow hlock
  have hfew : sends m ≤ row.attempts := hc.settled row hrow hsettled hunsent
  have honly : ∀ j d, Function.update m.deliveries k (some ⟨item, .spawned⟩) j
      = some d → j = k ∧ d = ⟨item, .spawned⟩ := by
    intro j d h
    by_cases hj : j = k
    · rw [hj, Function.update_self, Option.some.injEq] at h
      exact ⟨hj, h.symm⟩
    · rw [Function.update_of_ne hj, hsettled.1 j] at h
      cases h
  have hlive : ∀ j, Function.update m.deliveries k (some ⟨item, .spawned⟩) j
      ≠ none → j = k := by
    intro j h
    obtain ⟨d, hd⟩ := Option.ne_none_iff_exists'.1 h
    exact (honly j d hd).1
  have hrecorded : ∀ j, .sent j ∈ .claimed k t now u :: m.history →
      .marked j ∈ .claimed k t now u :: m.history := by
    intro j h
    rcases List.mem_cons.1 h with h | h
    · cases h
    · exact List.mem_cons_of_mem _ (hsettled.2 j h)
  have hcount : (Obs.claimed k t now u :: m.history).countP isSend = sends m :=
    by simp [sends, isSend]
  refine ⟨fun i j hi hj => (hlive i hi).trans (hlive j hj).symm,
    fun j hj hmem => ?_, fun row' h => ?_, fun row' _ _ _ h => (by cases h),
    fun row' j _ h _ => ?_, fun row' j d h hd hstage => ?_,
    fun row' h hs _ => ?_⟩
  · rcases List.mem_cons.1 hmem with h | h
    · cases h
    · exact hnew _ h (hlive j hj)
  · cases h
    exact ⟨by show row.attempts ≤ row.maxAttempts; omega,
      by rw [sends, hcount]; show _ ≤ row.maxAttempts; omega⟩
  · cases h
    exact ⟨by rw [sends, hcount]; exact hfew, hopen, hrecorded⟩
  · rw [(honly j d hd).2] at hstage
    exact absurd rfl hstage
  · cases h
    rw [sends, hcount]
    exact hfew

/-- The delivery of claim `k`, which had called the sender, goes on. -/
theorem Counted.moved {k : Nat} {d d' : Delivery} {h' : List Obs}
    (hc : Counted R now m) (hd : m.deliveries k = some d)
    (hstage : d.stage ≠ .spawned) (hstage' : d'.stage ≠ .spawned)
    (hh : h' = m.history ∨ ∃ o, h' = o :: m.history ∧ isSend o = false ∧
      ∀ j, o ≠ .marked j) :
    Counted R now
      { m with deliveries := Function.update m.deliveries k (some d')
               history := h' } := by
  have hlive : ∀ j, Function.update m.deliveries k (some d') j ≠ none →
      m.deliveries j ≠ none := by
    intro j h
    by_cases hj : j = k
    · rw [hj, hd]
      simp
    · rwa [Function.update_of_ne hj] at h
  have honly : ∀ j d₀, Function.update m.deliveries k (some d') j = some d₀ →
      j = k ∧ d₀ = d' := by
    intro j d₀ h
    have hj : j = k := by
      refine hc.one j k (hlive j (by simp [h])) (by simp [hd])
    rw [hj, Function.update_self, Option.some.injEq] at h
    exact ⟨hj, h.symm⟩
  have hsends : h'.countP isSend = sends m := by
    rcases hh with rfl | ⟨o, rfl, ho, -⟩
    · rfl
    · simp [sends, ho]
  have hmarked : ∀ j, .marked j ∈ h' → .marked j ∈ m.history := by
    intro j h
    rcases hh with rfl | ⟨o, rfl, -, ho⟩
    · exact h
    · exact (List.mem_cons.1 h).resolve_left fun he => ho j he.symm
  have hsub : ∀ o ∈ m.history, o ∈ h' := by
    intro o h
    rcases hh with rfl | ⟨_, rfl, -, -⟩
    · exact h
    · exact List.mem_cons_of_mem _ h
  refine ⟨fun i j hi hj => hc.one i j (hlive i hi) (hlive j hj),
    fun j hj h => hc.unmarked j (hlive j hj) (hmarked j h), fun row h => ?_,
    hc.waiting, fun row j item h hj => ?_, fun row j d₀ h hj _ => ?_,
    fun row h hs _ => ?_⟩
  · rw [sends, hsends]
    exact hc.bound row h
  · have hd' := (honly j _ hj).2
    rw [← hd'] at hstage'
    exact absurd rfl hstage'
  · obtain ⟨hsent, hopen, hmem⟩ := hc.under_way row k d h hd hstage
    rw [(honly j d₀ hj).1, sends, hsends]
    exact ⟨hsent, hopen, hsub _ hmem⟩
  · have hk : Function.update m.deliveries k (some d') k = none := hs.1 k
    rw [Function.update_self] at hk
    cases hk

/-- The delivery of claim `k` calls the sender. -/
theorem Counted.send {k : Nat} {item item' : OutboxEmailRow}
    (hc : Counted R now m) (hd : m.deliveries k = some ⟨item, .spawned⟩) :
    Counted R now
      ((m.setDelivery k (some ⟨item', .sending⟩)).note (.sent k)) := by
  have hlive : ∀ j, Function.update m.deliveries k (some ⟨item', .sending⟩) j
      ≠ none → m.deliveries j ≠ none := by
    intro j h
    by_cases hj : j = k
    · rw [hj, hd]
      simp
    · rwa [Function.update_of_ne hj] at h
  have honly : ∀ j d, Function.update m.deliveries k (some ⟨item', .sending⟩) j
      = some d → j = k ∧ d = ⟨item', .sending⟩ := by
    intro j d h
    have hj : j = k := hc.one j k (hlive j (by simp [h])) (by simp [hd])
    rw [hj, Function.update_self, Option.some.injEq] at h
    exact ⟨hj, h.symm⟩
  have hsends : sends ((m.setDelivery k (some ⟨item', .sending⟩)).note (.sent k))
      = sends m + 1 := List.countP_cons_of_pos rfl
  refine ⟨fun i j hi hj => hc.one i j (hlive i hi) (hlive j hj),
    fun j hj h => ?_, fun row h => ?_, hc.waiting, fun row j item₀ h hj => ?_,
    fun row j d h hj _ => ?_, fun row h hs _ => ?_⟩
  · exact hc.unmarked j (hlive j hj)
      ((List.mem_cons.1 h).resolve_left (by simp))
  · obtain ⟨hle, hopen, -⟩ := hc.spawned row k item h hd
    rw [hsends]
    omega
  · have h' := (honly j _ hj).2
    cases h'
  · obtain ⟨hle, hopen, -⟩ := hc.spawned row k item h hd
    rw [(honly j d hj).1, hsends]
    exact ⟨by omega, hopen, List.mem_cons_self⟩
  · have hk : Function.update m.deliveries k (some ⟨item', .sending⟩) k = none :=
      hs.1 k
    rw [Function.update_self] at hk
    cases hk

/-- The delivery of claim `k` ends: with a mark that leaves the row at `row'`,
or without one. -/
theorem Counted.idle {k : Nat} {d : Delivery} (hc : Counted R now m)
    (hd : m.deliveries k = some d) (j : Nat) :
    Function.update m.deliveries k none j = none := by
  by_cases hj : j = k
  · rw [hj, Function.update_self]
  · rw [Function.update_of_ne hj]
    by_contra h
    exact hj (hc.one j k h (by simp [hd]))

theorem Counted.marked {k : Nat} {d : Delivery} {row row' : Row}
    (hc : Counted R now m) (hd : m.deliveries k = some d)
    (hstage : d.stage ≠ .spawned) (hrow : m.row = some row)
    (hlock : m.lock = none) (hmax : row'.maxAttempts = row.maxAttempts)
    (hattempts : row'.attempts = row.attempts + 1 ∨
      row'.attempts = row.attempts ∧ row'.sentAt ≠ none) :
    Counted R now (m.setMarked k row') := by
  obtain ⟨hsent, hopen, -⟩ := hc.under_way row k d hrow hd hstage
  have hidle := hc.idle hd
  have hsends : sends (m.setMarked k row') = sends m := by
    simp [sends, Mail.note, Mail.setMarked, Mail.setDelivery, isSend]
  refine ⟨fun i j h => absurd (hidle i) h, fun j h => absurd (hidle j) h,
    fun row₀ h => ?_, fun row₀ i t _ h => ?_, fun row₀ j item _ h => ?_,
    fun row₀ j d₀ _ h => ?_, fun row₀ h _ hunsent => ?_⟩
  · cases h
    rw [hsends, hmax]
    omega
  · change m.lock = _ at h
    rw [hlock] at h
    cases h
  · have hnone : (m.setMarked k row').deliveries j = none := hidle j
    rw [hnone] at h
    cases h
  · have hnone : (m.setMarked k row').deliveries j = none := hidle j
    rw [hnone] at h
    cases h
  · cases h
    rw [hsends]
    rcases hattempts with h | ⟨-, h⟩
    · omega
    · exact absurd hunsent h

theorem Counted.abandoned {k : Nat} {d : Delivery} (hc : Counted R now m)
    (hd : m.deliveries k = some d) : Counted R now (m.setDelivery k none) := by
  have hidle := hc.idle hd
  refine ⟨fun i j h => absurd (hidle i) h, fun j h => absurd (hidle j) h,
    hc.bound, hc.waiting, fun row₀ j item _ h => ?_,
    fun row₀ j d₀ _ h => ?_, fun row₀ h hs _ => ?_⟩
  · have hnone : (m.setDelivery k none).deliveries j = none := hidle j
    rw [hnone] at h
    cases h
  · have hnone : (m.setDelivery k none).deliveries j = none := hidle j
    rw [hnone] at h
    cases h
  · by_cases hstage : d.stage = .spawned
    · obtain ⟨item, stage⟩ := d
      obtain rfl : stage = .spawned := hstage
      exact (hc.spawned row₀ k item h hd).1
    · -- the sender has been called, and there is no mark
      have hmem := (hc.under_way row₀ k d h hd hstage).2.2
      exact absurd (hs.2 k hmem) (hc.unmarked k (by simp [hd]))

/-- One act keeps the sends of an email counted. -/
theorem Counted.step (hc : Counted R now m)
    (h : MailStep R settledRules now m m') : Counted R now m' := by
  cases h with
  | quiet => exact hc
  | inserted _ _ => exact .inserted rfl
  | locked hrow _ _ hpending =>
      refine hc.relock fun row k t hrow' _ => ?_
      rw [hrow] at hrow'
      cases hrow'
      exact pending_open hpending
  | released => exact hc.relock fun _ _ _ _ h => by cases h
  | returned hrow hlock _ hnew hmay => exact hc.returned hrow hlock hnew hmay
  | delivered hd _ =>
      obtain ⟨item, stage, hk, hcases⟩ := Mail.deliver_cases hd
      rcases hcases with ⟨-, rfl, rfl⟩ | ⟨-, rfl, rfl⟩ | ⟨e, -, rfl, rfl⟩ |
        ⟨t, row, -, rfl, hrow, hlock, -, rfl⟩ |
        ⟨t, e, row, -, rfl, hrow, hlock, rfl⟩ | ⟨-, rfl⟩
      · exact hc.send hk
      · exact hc.moved hk (by simp) (by simp)
          (.inr ⟨_, rfl, rfl, fun j h => by cases h⟩)
      · exact hc.moved hk (by simp) (by simp) (.inl rfl)
      · exact hc.marked hk (by simp) hrow hlock rfl
          (.inr ⟨rfl, by simp [Row.markSent]⟩)
      · exact hc.marked hk (by simp) hrow hlock rfl (.inl rfl)
      · exact hc.abandoned hk

theorem Counted.grow (_ : now ≤ now') (h : Counted R now m) :
    Counted R now' m :=
  ⟨h.one, h.unmarked, h.bound, h.waiting, h.spawned, h.under_way, h.settled⟩

/-- The bound: the sender is called at most `max_attempts` times, and
`attempts` stays within it. -/
def Bounded (s : State) : Prop :=
  ∀ r row, (s.mails r).row = some row →
    sends (s.mails r) ≤ row.maxAttempts ∧ row.attempts ≤ row.maxAttempts

/-- **The delivery bound.**  In every run in which a claim returns only emails
all of whose earlier deliveries have been recorded. -/
theorem delivery_bound (R now : Int) (s : State)
    (hrun : Reaches (outbox R) settledRules.allow (.empty now) s) :
    Bounded s := by
  intro r row hrow
  have hcounted : Counted R s.now (s.mails r) :=
    mail_invariant (P := Counted R) Counted.grow Counted.step
      (Booked.empty now) hrun Counted.absent
  exact (hcounted.bound row hrow).symm

/-- A test that implies `settledRules.allow` in every reachable state. -/
def settledTest : Act → State → Bool
  | .returnBatch _, s => (List.range s.nextId).all fun r =>
      ((List.range s.nextClaim).all fun j =>
        ((s.mails r).deliveries j).isNone) &&
      (s.mails r).history.all fun o => match o with
        | .sent j => decide (.marked j ∈ (s.mails r).history)
        | _ => true
  | _, _ => true

theorem settledTest_allow (a : Act) (s : State) (hb : Booked s)
    (h : settledTest a s = true) : settledRules.allow a s := by
  cases a with
  | returnBatch k =>
      intro r t hlock
      have hr : r < s.nextId := by
        by_contra hge
        rw [hb.absent r (by omega)] at hlock
        cases hlock
      simp only [settledTest, List.all_eq_true, List.mem_range,
        Bool.and_eq_true] at h
      obtain ⟨hdeliveries, hrecorded⟩ := h r hr
      refine ⟨fun j => ?_, fun j hj => by simpa using hrecorded _ hj⟩
      by_cases hj : j < s.nextClaim
      · exact Option.isNone_iff_eq_none.mp (hdeliveries j hj)
      · exact (hb.idle j (.inl (by omega)) r).1
  | tick | enqueue | beginClaim | visit | failClaim | deliver => trivial

/-- An email that may be sent twice is refused; after its backoff a second
claim sends it again. -/
def resending : State :=
  (exec (outbox 300000000) settledTest
    ([.enqueue 0 "a@b.c" "Subject" "Body" 2] ++ claimOne 0
      ++ [.deliver 0 0 .send, .deliver 0 0 (.sendErr "smtp down"),
        .deliver 0 0 .markFailed, .tick 30000000] ++ claimOne 1
      ++ [.deliver 1 0 .send]) (.empty 0)).get (by decide +kernel)

theorem delivery_bound_resending :
    Reaches (outbox 300000000) settledRules.allow (.empty 0) resending ∧
      Bounded resending ∧ sends (resending.mails 0) = 2 ∧
      (resending.mails 0).row.map (fun row => (row.attempts, row.maxAttempts)) =
        some (1, 2) := by
  have htested : Reaches (outbox 300000000)
      (fun a s => settledTest a s = true) (.empty 0) resending :=
    exec_reaches (fun _ _ h => h) (Option.some_get _).symm
  have hrun : Reaches (outbox 300000000) settledRules.allow (.empty 0)
      resending :=
    htested.weaken_within (fun _ _ _ hb hact => Booked.step hb hact)
      settledTest_allow (Booked.empty 0)
  exact ⟨hrun, delivery_bound 300000000 0 resending hrun, by decide +kernel,
    by decide +kernel⟩

/-- One claim after the other, five minutes apart: each worker calls the sender
and crashes. -/
def crashing : State :=
  (exec (outbox 300000000) (fun _ _ => true)
    [.enqueue 0 "a@b.c" "Subject" "Body" 1, .beginClaim 1, .visit 0,
      .returnBatch 0, .deliver 0 0 .send, .deliver 0 0 .abandon,
      .tick 301000000, .beginClaim 1, .visit 1, .returnBatch 1,
      .deliver 1 0 .send] (.empty 0)).get (by decide +kernel)

/-- `max_attempts` is 1, and the sender has been called twice. -/
theorem crash_is_not_counted :
    Reaches (outbox 300000000) free (.empty 0) crashing ∧ ¬ Bounded crashing := by
  refine ⟨exec_reaches (fun _ _ _ => trivial) (Option.some_get _).symm, ?_⟩
  intro hbound
  have hsends : sends (crashing.mails 0) = 2 := by decide +kernel
  have hmax : (crashing.mails 0).row.map Row.maxAttempts = some 1 := by
    decide +kernel
  obtain ⟨row, hrow, hone⟩ := Option.map_eq_some_iff.1 hmax
  have hle := (hbound 0 row hrow).1
  omega

/-! ## Nothing is lost -/

/-- What every run keeps: `sent_at` follows a successful send, and no time
lies further ahead than the longest backoff. -/
structure Kept (R now : Int) (m : Mail) : Prop where
  sent : ∀ row, m.row = some row → row.sentAt ≠ none →
    ∃ k, .accepted k ∈ m.history
  available : ∀ row, m.row = some row →
    row.availableAt ≤ now + secs backoffMaxSecs
  locked : ∀ row l, m.row = some row → row.lockedAt = some l → l ≤ now
  waiting : ∀ row k t, m.row = some row → m.lock = some (k, t) →
    t ≤ now ∧ row.sentAt = none
  accepted : ∀ k item, m.deliveries k = some ⟨item, .accepted⟩ →
    .accepted k ∈ m.history
  refused : ∀ k item t e, m.deliveries k = some ⟨item, .refused t e⟩ →
    t ≤ now + secs backoffMaxSecs

theorem Kept.absent : Kept R now .absent where
  sent row h := by cases h
  available row h := by cases h
  locked row l h := by cases h
  waiting row k t h := by cases h
  accepted k item h := by cases h
  refused k item t e h := by cases h

theorem Kept.grow (hle : now ≤ now') (h : Kept R now m) : Kept R now' m where
  sent := h.sent
  available row hrow := by
    have := h.available row hrow
    omega
  locked row l hrow hl := by
    have := h.locked row l hrow hl
    omega
  waiting row k t hrow hl := by
    obtain ⟨ht, hunsent⟩ := h.waiting row k t hrow hl
    exact ⟨by omega, hunsent⟩
  accepted := h.accepted
  refused k item t e hd := by
    have := h.refused k item t e hd
    omega

/-- A delivery is put at a stage that keeps to the history and to the clock. -/
theorem Kept.setDelivery {k : Nat} {d : Option Delivery} {h' : List Obs}
    (hk : Kept R now m) (hsub : ∀ o ∈ m.history, o ∈ h')
    (haccepted : ∀ item, d = some ⟨item, .accepted⟩ → .accepted k ∈ h')
    (hrefused : ∀ item t e, d = some ⟨item, .refused t e⟩ →
      t ≤ now + secs backoffMaxSecs) :
    Kept R now
      { m with deliveries := Function.update m.deliveries k d
               history := h' } where
  sent row hrow hs := by
    obtain ⟨j, hj⟩ := hk.sent row hrow hs
    exact ⟨j, hsub _ hj⟩
  available := hk.available
  locked := hk.locked
  waiting := hk.waiting
  accepted j item hj := by
    by_cases h : j = k
    · subst h
      exact haccepted item (by simpa using hj)
    · exact hsub _ (hk.accepted j item (by simpa [h] using hj))
  refused j item t e hj := by
    by_cases h : j = k
    · subst h
      exact hrefused item t e (by simpa using hj)
    · exact hk.refused j item t e (by simpa [h] using hj)

/-- The row changes while no claim statement has it locked. -/
theorem Kept.setRow {row' : Row} (hk : Kept R now m) (hlock : m.lock = none)
    (hsent : row'.sentAt ≠ none → ∃ k, .accepted k ∈ m.history)
    (havailable : row'.availableAt ≤ now + secs backoffMaxSecs)
    (hlocked : ∀ l, row'.lockedAt = some l → l ≤ now) :
    Kept R now { m with row := some row' } where
  sent row hrow hs := by
    cases hrow
    exact hsent hs
  available row hrow := by
    cases hrow
    exact havailable
  locked row l hrow hl := by
    cases hrow
    exact hlocked l hl
  waiting row k t _ hl := by
    change m.lock = _ at hl
    rw [hlock] at hl
    cases hl
  accepted := hk.accepted
  refused := hk.refused

theorem secs_le {m n : Nat} (h : m ≤ n) : secs m ≤ secs n := by
  unfold secs
  omega

/-- One act keeps an email. -/
theorem Kept.step (hk : Kept R now m) (h : MailStep R .none now m m') :
    Kept R now m' := by
  cases h with
  | quiet => exact hk
  | inserted ht _ =>
      have hzero : (0 : Int) ≤ secs backoffMaxSecs := by decide
      refine ⟨fun row h hs => ?_, fun row h => ?_, fun row l h hl => ?_,
        fun row k t _ h => (by cases h), fun k item h => (by cases h),
        fun k item t e h => (by cases h)⟩
      · cases h
        exact absurd rfl hs
      · cases h
        show _ ≤ _
        simp only [enqueueEmail]
        omega
      · cases h
        cases hl
  | locked hrow _ ht hpending =>
      refine { hk with waiting := fun row k t hrow' hl => ?_ }
      cases hl
      rw [hrow] at hrow'
      cases hrow'
      exact ⟨ht, (pending_open hpending).1⟩
  | released => exact { hk with waiting := fun _ _ _ _ h => by cases h }
  | returned hrow hlock hidle hnew hmay =>
      rename_i k t row item
      obtain ⟨ht, hunsent⟩ := hk.waiting row k t hrow hlock
      have hdone : Kept R now
          { m with lock := none, row := some { row with lockedAt := some t } } :=
        (Kept.setRow (m := { m with lock := none })
          { hk with waiting := fun _ _ _ _ h => by cases h } rfl
          (fun h => absurd hunsent h) (hk.available row hrow)
          (fun l hl => by cases hl; exact ht))
      exact hdone.setDelivery (fun o ho => List.mem_cons_of_mem _ ho)
        (fun _ h => by cases h) (fun _ _ _ h => by cases h)
  | delivered hd _ =>
      obtain ⟨item, stage, hdk, hcases⟩ := Mail.deliver_cases hd
      rcases hcases with ⟨-, rfl, rfl⟩ | ⟨-, rfl, rfl⟩ | ⟨e, -, rfl, rfl⟩ |
        ⟨t, row, -, rfl, hrow, hlock, -, rfl⟩ |
        ⟨t, e, row, -, rfl, hrow, hlock, rfl⟩ | ⟨-, rfl⟩
      · exact hk.setDelivery (fun o ho => List.mem_cons_of_mem _ ho)
          (fun _ h => by cases h) (fun _ _ _ h => by cases h)
      · exact hk.setDelivery (fun o ho => List.mem_cons_of_mem _ ho)
          (fun _ _ => List.mem_cons_self) (fun _ _ _ h => by cases h)
      · refine hk.setDelivery (fun o ho => ho) (fun _ h => by cases h) ?_
        intro item' t e' h
        cases h
        have hle := secs_le (computeBackoffSecs_le item.attempts)
        omega
      · have hmarked : Kept R now { m with row := some (row.markSent t) } :=
          hk.setRow hlock (fun _ => ⟨_, hk.accepted _ item hdk⟩)
            (hk.available row hrow) (fun l hl => by cases hl)
        exact hmarked.setDelivery (fun o ho => List.mem_cons_of_mem _ ho)
          (fun _ h => by cases h) (fun _ _ _ h => by cases h)
      · have hmarked : Kept R now { m with row := some (row.markFailed t e) } :=
          hk.setRow hlock (hk.sent row hrow) (hk.refused _ item t e hdk)
            (fun l hl => by cases hl)
        exact hmarked.setDelivery (fun o ho => List.mem_cons_of_mem _ ho)
          (fun _ h => by cases h) (fun _ _ _ h => by cases h)
      · exact hk.setDelivery (fun o ho => ho) (fun _ h => by cases h)
          (fun _ _ _ h => by cases h)

/-- The claims that have returned the email. -/
def claims (m : Mail) : List Obs :=
  m.history.filter fun o => match o with
    | .claimed _ _ _ _ => true
    | _ => false

/-- A retired email: no claim has it or gets it. -/
structure Retired (cs : List Obs) (_now : Int) (m : Mail) : Prop where
  retired : ∃ row, m.row = some row ∧ row.sentAt ≠ none
  unlocked : m.lock = none
  claims_eq : claims m = cs

theorem Retired.step {cs : List Obs} (hm : Retired cs now m)
    (h : MailStep R .none now m m') : Retired cs now m' := by
  obtain ⟨⟨row, hrow, hsent⟩, hlock, hcs⟩ := hm
  cases h with
  | quiet => exact ⟨⟨row, hrow, hsent⟩, hlock, hcs⟩
  | released => exact ⟨⟨row, hrow, hsent⟩, rfl, hcs⟩
  | inserted _ _ => cases hrow
  | locked hrow' _ _ hpending =>
      rw [hrow] at hrow'
      cases hrow'
      exact absurd (pending_open hpending).1 hsent
  | returned _ hlock' _ _ _ =>
      rw [hlock] at hlock'
      cases hlock'
  | delivered hd _ =>
      obtain ⟨item, stage, -, hcases⟩ := Mail.deliver_cases hd
      rcases hcases with ⟨-, -, rfl⟩ | ⟨-, -, rfl⟩ | ⟨e, -, -, rfl⟩ |
        ⟨t, row', -, -, hrow', -, -, rfl⟩ | ⟨t, e, row', -, -, hrow', -, rfl⟩ |
        ⟨-, rfl⟩
      · exact ⟨⟨row, hrow, hsent⟩, hlock, hcs⟩
      · exact ⟨⟨row, hrow, hsent⟩, hlock, hcs⟩
      · exact ⟨⟨row, hrow, hsent⟩, hlock, hcs⟩
      · exact ⟨⟨_, rfl, by simp [Row.markSent]⟩, hlock, hcs⟩
      · rw [hrow] at hrow'
        cases hrow'
        exact ⟨⟨_, rfl, hsent⟩, hlock, hcs⟩
      · exact ⟨⟨row, hrow, hsent⟩, hlock, hcs⟩

/-- The longest time an email can be out of reach of the claims. -/
def longest (R : Int) : Int := max (secs backoffMaxSecs) R

/-- An email that can still be sent comes up again. -/
theorem Kept.pending {row : Row} {later : Int} (hk : Kept R now m)
    (hrow : m.row = some row) (hunsent : row.sentAt = none)
    (hopen : row.attempts < row.maxAttempts) (hlater : now + longest R < later) :
    row.pending R later = true := by
  have hbackoff : secs backoffMaxSecs ≤ longest R := Int.le_max_left _ _
  have hreclaim : R ≤ longest R := Int.le_max_right _ _
  have havailable := hk.available row hrow
  have hlock : row.lockedAt.all (fun l => decide (l < later - R)) = true := by
    cases hl : row.lockedAt with
    | none => rfl
    | some l =>
        have hle := hk.locked row l hrow hl
        simp only [Option.all_some, decide_eq_true_eq]
        omega
  simp only [Row.pending, Bool.and_eq_true, decide_eq_true_eq]
  exact ⟨⟨⟨hunsent, hlock⟩, by omega⟩, hopen⟩

/-- **Nothing is lost.**  In every run, for every email of every reachable
state: it is retired only after some send of it succeeded; once retired no
later claim returns it; and as long as it can be sent, no stored time lies
further ahead than `max(BACKOFF_MAX_SECS, reclaim_after)`, after which the
claims accept it. -/
theorem nothing_lost (R now : Int) (s : State)
    (hrun : Reaches (outbox R) free (.empty now) s) (r : Nat) (row : Row)
    (hrow : (s.mails r).row = some row) :
    (row.sentAt ≠ none → ∃ k, .accepted k ∈ (s.mails r).history) ∧
    (row.sentAt ≠ none → ∀ s', Reaches (outbox R) free s s' →
      claims (s'.mails r) = claims (s.mails r)) ∧
    (row.sentAt = none → row.attempts < row.maxAttempts →
      ∀ later, s.now + longest R < later → row.pending R later = true) ∧
    row.availableAt ≤ s.now + longest R ∧
    (∀ l, row.lockedAt = some l → l ≤ s.now + longest R) := by
  have hfree : ∀ (a : Act) (s : State), free a s → Rules.none.allow a s := by
    intro a s _
    cases a <;> simp [Rules.allow, Rules.none]
  have hall := hrun.weaken hfree
  have hkept : Kept R s.now (s.mails r) :=
    mail_invariant (P := Kept R) Kept.grow Kept.step (Booked.empty now) hall
      Kept.absent
  have hbooked : Booked s := (Booked.empty now).run hall
  have hbackoff : secs backoffMaxSecs ≤ longest R := Int.le_max_left _ _
  have hzero : (0 : Int) ≤ secs backoffMaxSecs := by decide
  refine ⟨hkept.sent row hrow, fun hsent s' hrun' => ?_,
    fun hunsent hopen later hlater => hkept.pending hrow hunsent hopen hlater,
    ?_, fun l hl => ?_⟩
  · have hunlocked : (s.mails r).lock = none := by
      by_contra hlock
      obtain ⟨⟨k, t⟩, hl⟩ := Option.ne_none_iff_exists'.1 hlock
      exact hsent (hkept.waiting row k t hrow hl).2
    have hretired : Retired (claims (s.mails r)) s.now (s.mails r) :=
      ⟨⟨row, hrow, hsent⟩, hunlocked, rfl⟩
    exact (mail_invariant (P := Retired (claims (s.mails r)))
      (fun _ h => ⟨h.1, h.2, h.3⟩) Retired.step hbooked
      (hrun'.weaken hfree) hretired).claims_eq
  · have := hkept.available row hrow
    omega
  · have := hkept.locked row l hrow hl
    omega

/-- One email has been sent and retired, and another one refused once. -/
def delivered : State :=
  (exec (outbox 300000000) (fun _ _ => true)
    ([.enqueue 0 "a@b.c" "Subject" "Body" 5] ++ claimOne 0
      ++ [.deliver 0 0 .send, .deliver 0 0 .sendOk, .deliver 0 0 (.markSent 0),
        .enqueue 0 "d@e.f" "Subject" "Body" 5] ++ claimOne 1
      ++ [.deliver 1 1 .send, .deliver 1 1 (.sendErr "smtp down"),
        .deliver 1 1 .markFailed]) (.empty 0)).get (by decide +kernel)

def deliveredRow : Row :=
  { enqueueEmail 0 "a@b.c" "Subject" "Body" with sentAt := some 0 }

/-- The refused email waits for its backoff. -/
def waitingRow : Row :=
  { enqueueEmail 0 "d@e.f" "Subject" "Body" with
    attempts := 1
    lastError := some "smtp down"
    availableAt := 30000000 }

theorem nothing_lost_delivered :
    (delivered.mails 0).row = some deliveredRow ∧
    (∃ k, .accepted k ∈ (delivered.mails 0).history) ∧
    (∀ s', Reaches (outbox 300000000) free delivered s' →
      claims (s'.mails 0) = claims (delivered.mails 0)) ∧
    (delivered.mails 1).row = some waitingRow ∧
    waitingRow.pending 300000000 0 = false ∧
    (∀ later, 3600000000 < later →
      waitingRow.pending 300000000 later = true) ∧
    waitingRow.availableAt ≤ delivered.now + longest 300000000 := by
  have hrun : Reaches (outbox 300000000) free (.empty 0) delivered :=
    exec_reaches (fun _ _ _ => trivial) (Option.some_get _).symm
  have hdelivered : (delivered.mails 0).row = some deliveredRow := by
    decide +kernel
  have hwaiting : (delivered.mails 1).row = some waitingRow := by
    decide +kernel
  obtain ⟨haccepted, hretired, -⟩ :=
    nothing_lost 300000000 0 delivered hrun 0 deliveredRow hdelivered
  obtain ⟨-, -, hcomesUp, havailable, -⟩ :=
    nothing_lost 300000000 0 delivered hrun 1 waitingRow hwaiting
  have hsent : deliveredRow.sentAt ≠ none := by decide
  have hlongest : delivered.now + longest 300000000 = 3600000000 := by
    decide +kernel
  refine ⟨hdelivered, haccepted hsent, hretired hsent, hwaiting, by decide,
    fun later hlater => ?_, havailable⟩
  exact hcomesUp rfl (by decide) later (by rwa [hlongest])

end DpopAuth.Ports.OutboxDelivery
