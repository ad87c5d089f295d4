import DpopAuth.Ports.Outbox

/-!
# Who may send an email

A claim that returns an email sets its `locked_at`, and for `R` nobody else
should get it.  `mark_email_sent` and `mark_email_failed` clear `locked_at` by
the email's id alone.  So a worker whose sender took longer than `R` and whose
email has been claimed by another worker in the meantime clears the lock of
that other worker.

And `locked_at` is the `now()` of the claim statement, not the moment it
returns.  A statement that takes `d` leaves its worker `R - d`.

## Main results

* `claims_exclusive` — without such a late `mark_email_failed`, claims that
  take no longer than `d` exclude each other for `R - d`.
* `late_mark_unlocks` — with one, they do not.
* `slow_claim_loses_time` — neither do they for `R`, if one takes longer.
-/

namespace DpopAuth.Ports.OutboxLease

open DpopAuth.Verified.Machines
open DpopAuth.Ports.Outbox

/-! ## Histories -/

/-- `P` of every observation, together with what came after it. -/
def Since (h : List Obs) (P : List Obs → Obs → Prop) : Prop :=
  ∀ after o before, h = after ++ o :: before → P after o

theorem since_nil (P : List Obs → Obs → Prop) : Since [] P := by
  intro after o before h
  simp at h

theorem since_cons {o : Obs} {h : List Obs} {P : List Obs → Obs → Prop} :
    Since (o :: h) P ↔ P [] o ∧ Since h fun after => P (o :: after) := by
  constructor
  · intro hall
    exact ⟨hall [] o h rfl, fun after x before hh =>
      hall (o :: after) x before (by rw [hh]; rfl)⟩
  · rintro ⟨hnow, hrest⟩ after x before hh
    cases after with
    | nil =>
        cases hh
        exact hnow
    | cons y after =>
        obtain ⟨hy, htail⟩ := List.cons.inj hh
        rw [← hy]
        exact hrest after x before htail

theorem Since.imp {h : List Obs} {P Q : List Obs → Obs → Prop}
    (hPQ : ∀ after o, P after o → Q after o) (hP : Since h P) : Since h Q :=
  fun after o before hh => hPQ after o (hP after o before hh)

/-- The claims of one email exclude each other, from return to return.  Of two
of them, the later one either comes after a mark of the earlier one, or returns
the email no sooner than `R` after the earlier one has; and between two claims
that both found the email unlocked there is a mark. -/
def Exclusive (R : Int) : List Obs → Prop
  | [] => True
  | o :: h =>
      (∀ k' t' now' unlocked', o = .claimed k' t' now' unlocked' →
        Since h fun after c => ∀ k t now unlocked, c = .claimed k t now unlocked →
          (.marked k ∈ after ∨ now + R ≤ now') ∧
          (unlocked = true → unlocked' = true → ∃ j, .marked j ∈ after)) ∧
      Exclusive R h

/-- The claim that returned the email last. -/
def lastClaim : List Obs → Option Nat
  | [] => none
  | .claimed k _ _ _ :: _ => some k
  | _ :: h => lastClaim h

/-- `mark_email_failed` of claim `k` meets no lock, or that of claim `k`
itself. -/
def ownLease (k : Nat) (m : Mail) : Bool :=
  m.row.any (fun row => row.lockedAt.isNone) || lastClaim m.history = some k

/-- At `now`: no late `mark_email_failed`, and no claim statement returns that
began more than `d` ago. -/
def leaseRules (d now : Int) : Rules where
  mayReturn k m := ∀ t, m.lock = some (k, t) → now ≤ t + d
  mayDeliver k w m := w = .markFailed → ownLease k m = true

/-- The runs without a late `mark_email_failed`, and in which no claim
statement takes longer than `d`. -/
def leaseAllow (d : Int) : Act → State → Prop
  | .returnBatch k, s => ∀ c, s.claims k = some c → s.now ≤ c.startedAt + d
  | .deliver k r w, s => w = .markFailed → ownLease k (s.mails r) = true
  | _, _ => True

theorem leaseRules_of_allow {d : Int} {a : Act} {s : State} (hb : Booked s)
    (h : leaseAllow d a s) : (leaseRules d s.now).allow a s := by
  cases a with
  | returnBatch k =>
      intro r t hlock t' hlock'
      obtain ⟨c, hc, rfl⟩ := hb.lock r k t' hlock'
      exact h c hc
  | deliver k r w => exact h
  | tick | enqueue | beginClaim | visit | failClaim => trivial

/-! ## What every run keeps -/

/-- The email as its claims left it. -/
structure Lease (R d now : Int) (m : Mail) : Prop where
  exclusive : Exclusive (R - d) m.history
  /-- A claim without a mark of its own has run out, or holds the lock. -/
  leased : Since m.history fun after c => ∀ k t n u, c = .claimed k t n u →
    .marked k ∈ after ∨ n + (R - d) ≤ now ∨ ∃ row, m.row = some row ∧
      (row.sentAt ≠ none ∨ n ≤ t + d ∧
        row.lockedAt = some t ∧ lastClaim m.history = some k)
  /-- Without a mark since the last claim, the email is locked. -/
  locked : Since m.history fun after c => ∀ k t n u, c = .claimed k t n u →
    (∃ j, .marked j ∈ after) ∨ ∃ row, m.row = some row ∧ row.lockedAt ≠ none
  /-- What an open claim statement has locked passes the `WHERE`. -/
  pending : ∀ k t, m.lock = some (k, t) →
    t ≤ now ∧ ∃ row, m.row = some row ∧ row.pending R t = true

variable {R d : Int} {now now' : Int} {m m' : Mail}

theorem Lease.absent : Lease R d now .absent where
  exclusive := trivial
  leased := since_nil _
  locked := since_nil _
  pending k t h := by cases h

theorem Lease.grow (hle : now ≤ now') (h : Lease R d now m) : Lease R d now' m where
  exclusive := h.exclusive
  leased := h.leased.imp fun after c hc k t n u hcl => by
    rcases hc k t n u hcl with hmark | hout | hrow
    · exact .inl hmark
    · exact .inr (.inl (by omega))
    · exact .inr (.inr hrow)
  locked := h.locked
  pending k t hlock := by
    obtain ⟨ht, hrow⟩ := h.pending k t hlock
    exact ⟨by omega, hrow⟩

theorem pending_unsent {row : Row} {t : Int} (h : row.pending R t = true) :
    row.sentAt = none := by
  simp only [Row.pending, Bool.and_eq_true, decide_eq_true_eq] at h
  exact h.1.1.1

theorem pending_stale {row : Row} {t l : Int} (h : row.pending R t = true)
    (hl : row.lockedAt = some l) : l + R < t := by
  simp only [Row.pending, Bool.and_eq_true, decide_eq_true_eq, hl,
    Option.all_some] at h
  omega

/-- An observation that is neither a claim nor a mark, and a row that keeps its
lock and its `sent_at`. -/
theorem Lease.quiet {h' : List Obs} (hl : Lease R d now m)
    (hhist : h' = m.history ∨ ∃ o, h' = o :: m.history ∧
      (∀ k t n u, o ≠ .claimed k t n u)) (ds : Nat → Option Delivery) :
    Lease R d now { m with deliveries := ds, history := h' } := by
  rcases hhist with rfl | ⟨o, rfl, ho⟩
  · exact ⟨hl.exclusive, hl.leased, hl.locked, hl.pending⟩
  · have hlast : lastClaim (o :: m.history) = lastClaim m.history := by
      cases o with
      | claimed k t n u => exact absurd rfl (ho k t n u)
      | sent | accepted | marked => rfl
    refine ⟨⟨fun k t n u h => absurd h (ho k t n u), hl.exclusive⟩, ?_, ?_,
      hl.pending⟩
    · refine since_cons.2 ⟨fun k t n u h => absurd h (ho k t n u), ?_⟩
      refine hl.leased.imp fun after c hc k t n u hcl => ?_
      rw [hlast]
      exact (hc k t n u hcl).imp_left (List.mem_cons_of_mem _)
    · refine since_cons.2 ⟨fun k t n u h => absurd h (ho k t n u), ?_⟩
      refine hl.locked.imp fun after c hc k t n u hcl => ?_
      exact (hc k t n u hcl).imp_left fun ⟨j, hj⟩ =>
        ⟨j, List.mem_cons_of_mem _ hj⟩

/-- A mark that retires the email, or is allowed to clear its lock. -/
theorem Lease.marked {row row' : Row} {k : Nat} (hl : Lease R d now m)
    (hrow : m.row = some row) (hlock : m.lock = none)
    (hsent : row.sentAt ≠ none → row'.sentAt ≠ none)
    (hown : row'.sentAt ≠ none ∨ ownLease k m = true) :
    Lease R d now (m.setMarked k row') := by
  have hleased : Since m.history fun after c =>
      ∀ j t n u, c = .claimed j t n u →
        .marked j ∈ .marked k :: after ∨ n + (R - d) ≤ now ∨
          row'.sentAt ≠ none := by
    refine hl.leased.imp fun after c hc j t n u hcl => ?_
    rcases hc j t n u hcl with hmark | hout | ⟨row₀, hrow₀, hcase⟩
    · exact .inl (List.mem_cons_of_mem _ hmark)
    · exact .inr (.inl hout)
    · rw [hrow] at hrow₀
      cases hrow₀
      rcases hcase with hs | ⟨-, hheld, hlast⟩
      · exact .inr (.inr (hsent hs))
      · rcases hown with hs | hown
        · exact .inr (.inr hs)
        · -- the lock is set, so it is the lock of claim `k`
          have hk : lastClaim m.history = some k := by
            simpa [ownLease, hrow, hheld] using hown
          rw [hlast, Option.some.injEq] at hk
          exact .inl (by simp [hk])
  refine ⟨⟨fun _ _ _ _ h => (by cases h), hl.exclusive⟩, ?_, ?_, ?_⟩
  · refine since_cons.2 ⟨fun _ _ _ _ h => (by cases h), ?_⟩
    refine hleased.imp fun after c hc j t n u hcl => ?_
    rcases hc j t n u hcl with hmark | hout | hs
    · exact .inl hmark
    · exact .inr (.inl hout)
    · exact .inr (.inr ⟨row', rfl, .inl hs⟩)
  · refine since_cons.2 ⟨fun _ _ _ _ h => (by cases h), ?_⟩
    exact hl.locked.imp fun after c _ j t n u _ =>
      .inl ⟨k, List.mem_cons_self⟩
  · intro j t hj
    change m.lock = _ at hj
    rw [hlock] at hj
    cases hj

/-- A claim returns the email. -/
theorem Lease.returned {row : Row} {k : Nat} {t : Int}
    (hl : Lease R d now m) (hrow : m.row = some row)
    (hlock : m.lock = some (k, t)) (hprompt : now ≤ t + d)
    (ds : Nat → Option Delivery) :
    Lease R d now
      { row := some { row with lockedAt := some t }
        lock := none
        deliveries := ds
        history := .claimed k t now row.lockedAt.isNone :: m.history } := by
  obtain ⟨hle, row₀, hrow₀, hpending⟩ := hl.pending k t hlock
  rw [hrow] at hrow₀
  cases hrow₀
  have hunsent := pending_unsent hpending
  -- whoever held the email before has marked it or has run out
  have hout : Since m.history fun after c => ∀ j t' n u,
      c = .claimed j t' n u → .marked j ∈ after ∨ n + (R - d) ≤ now := by
    refine hl.leased.imp fun after c hc j t' n u hcl => ?_
    rcases hc j t' n u hcl with hmark | hout | ⟨row₀, hrow₀, hcase⟩
    · exact .inl hmark
    · exact .inr hout
    · rw [hrow] at hrow₀
      cases hrow₀
      rcases hcase with hs | ⟨hshort, hheld, -⟩
      · exact absurd hunsent hs
      · have hstale := pending_stale hpending hheld
        exact .inr (by omega)
  have hfree : row.lockedAt.isNone = true → Since m.history fun after c =>
      ∀ j t' n u, c = .claimed j t' n u → ∃ i, .marked i ∈ after := by
    intro hnone
    refine hl.locked.imp fun after c hc j t' n u hcl => ?_
    rcases hc j t' n u hcl with hmark | ⟨row₀, hrow₀, hheld⟩
    · exact hmark
    · rw [hrow] at hrow₀
      cases hrow₀
      exact absurd (Option.isNone_iff_eq_none.1 hnone) hheld
  refine ⟨⟨?_, hl.exclusive⟩, ?_, ?_, ?_⟩
  · intro k' t' n' u' h
    cases h
    intro after c before hh j t₀ n u hcl
    refine ⟨hout after c before hh j t₀ n u hcl, fun _ hfound => ?_⟩
    exact hfree hfound after c before hh j t₀ n u hcl
  · refine since_cons.2 ⟨fun j t' n u h => ?_, ?_⟩
    · cases h
      exact .inr (.inr ⟨_, rfl, .inr ⟨hprompt, rfl, rfl⟩⟩)
    · refine hout.imp fun after c hc j t' n u hcl => ?_
      rcases hc j t' n u hcl with hmark | hpast
      · exact .inl (List.mem_cons_of_mem _ hmark)
      · exact .inr (.inl hpast)
  · intro after c before _ j t' n u _
    exact .inr ⟨_, rfl, by simp⟩
  · intro j t' h
    cases h

/-- One act keeps the lease of an email. -/
theorem Lease.step (hl : Lease R d now m)
    (h : MailStep R (leaseRules d now) now m m') : Lease R d now m' := by
  cases h with
  | quiet => exact hl
  | inserted _ _ =>
      exact ⟨trivial, since_nil _, since_nil _, fun k t h => by cases h⟩
  | locked hrow _ ht hpending =>
      refine ⟨hl.exclusive, hl.leased, hl.locked, fun k' t' h => ?_⟩
      cases h
      exact ⟨ht, _, hrow, hpending⟩
  | released =>
      exact ⟨hl.exclusive, hl.leased, hl.locked, fun k t h => by cases h⟩
  | returned hrow hlock hidle hnew hmay =>
      exact hl.returned hrow hlock (hmay _ hlock) _
  | delivered hd hmay =>
      obtain ⟨item, stage, -, hcases⟩ := Mail.deliver_cases hd
      rcases hcases with ⟨-, -, rfl⟩ | ⟨-, -, rfl⟩ | ⟨e, -, -, rfl⟩ |
        ⟨t, row, -, -, hrow, hlock, -, rfl⟩ |
        ⟨t, e, row, hw, -, hrow, hlock, rfl⟩ | ⟨-, rfl⟩
      · exact hl.quiet (.inr ⟨_, rfl, fun _ _ _ _ h => by cases h⟩) _
      · exact hl.quiet (.inr ⟨_, rfl, fun _ _ _ _ h => by cases h⟩) _
      · exact hl.quiet (.inl rfl) _
      · exact hl.marked hrow hlock (fun _ => by simp [Row.markSent])
          (.inl (by simp [Row.markSent]))
      · exact hl.marked hrow hlock id (.inr (hmay hw))
      · exact hl.quiet (.inl rfl) _

/-! ## Exclusive claims -/

/-- What every such run keeps of an email. -/
theorem lease_run {s : State} (r : Nat)
    (hrun : Reaches (outbox R) (leaseAllow d) (.empty now) s) :
    Booked s ∧ Lease R d s.now (s.mails r) := by
  refine hrun.invariant (P := fun s => Booked s ∧ Lease R d s.now (s.mails r))
    ?_ ⟨Booked.empty now, Lease.absent⟩
  intro a s s' ⟨hbs, hl⟩ hact hallow
  have hstep := step_mail hbs hact (leaseRules_of_allow hbs hallow) r
  exact ⟨hbs.step hact, (hl.step hstep).grow (outbox_now hact)⟩

/-- **Claims exclude each other**, for every email.  In every run of an outbox
in which no `mark_email_failed` of a claim clears the lock of a later claim, and
no claim statement takes longer than `d`: for `R - d` after a claim has returned
the email, no other claim returns it unless the first has marked it.  For
statements that take no time that is `R`. -/
theorem claims_exclusive (R d now : Int) (s : State)
    (hrun : Reaches (outbox R) (leaseAllow d) (.empty now) s) (r : Nat) :
    Exclusive (R - d) (s.mails r).history :=
  (lease_run r hrun).2.exclusive

/-- A test that implies `leaseAllow`. -/
def leaseTest (d : Int) : Act → State → Bool
  | .returnBatch k, s =>
      (s.claims k).all fun c => decide (s.now ≤ c.startedAt + d)
  | .deliver k r .markFailed, s => ownLease k (s.mails r)
  | _, _ => true

theorem leaseTest_allow (d : Int) (a : Act) (s : State)
    (h : leaseTest d a s = true) : leaseAllow d a s := by
  cases a with
  | deliver k r w =>
      intro hw
      subst hw
      exact h
  | returnBatch k =>
      intro c hc
      simpa [leaseTest, hc] using h
  | tick | enqueue | beginClaim | visit | failClaim => trivial

/-- A refused email is claimed again after its backoff, and once more when the
worker of that claim is silent for 300 seconds. -/
def retried : List Act :=
  [.enqueue 0 "a@b.c" "Subject" "Body" 5] ++ claimOne 0
    ++ [.deliver 0 0 .send, .deliver 0 0 (.sendErr "smtp down"),
      .deliver 0 0 .markFailed, .tick 30000000] ++ claimOne 1
    ++ [.deliver 1 0 .send, .tick 300000001] ++ claimOne 2

def afterRetry : State :=
  (exec (outbox 300000000) (leaseTest 0) retried (.empty 0)).get
    (by decide +kernel)

theorem claims_exclusive_retried :
    Reaches (outbox 300000000) (leaseAllow 0) (.empty 0) afterRetry ∧
      Exclusive 300000000 (afterRetry.mails 0).history ∧
      (afterRetry.mails 0).history =
        [.claimed 2 330000001 330000001 false, .sent 1,
          .claimed 1 30000000 30000000 true, .marked 0, .sent 0,
          .claimed 0 0 0 true] := by
  have hrun : Reaches (outbox 300000000) (leaseAllow 0) (.empty 0)
      afterRetry := exec_reaches (leaseTest_allow 0) (Option.some_get _).symm
  have hexclusive := claims_exclusive 300000000 0 0 afterRetry hrun 0
  rw [Int.sub_zero] at hexclusive
  exact ⟨hrun, hexclusive, by decide +kernel⟩

/-- Claim 0 sends for 302 seconds; claim 1 has taken the email over at 301
seconds.  The late mark of claim 0 clears its lock, and claim 2 gets the email
while claim 1 is sending it. -/
def overtaken : List Act :=
  [.enqueue 0 "a@b.c" "Subject" "Body" 5] ++ claimOne 0
    ++ [.deliver 0 0 .send, .tick 301000000] ++ claimOne 1
    ++ [.deliver 1 0 .send, .tick 1000000,
      .deliver 0 0 (.sendErr "smtp down"), .deliver 0 0 .markFailed,
      .tick 31000000] ++ claimOne 2

def afterOvertaken : State :=
  (exec (outbox 300000000) (fun _ _ => true) overtaken (.empty 0)).get
    (by decide +kernel)

theorem late_mark_unlocks :
    Reaches (outbox 300000000) free (.empty 0) afterOvertaken ∧
      ¬ Exclusive 300000000 (afterOvertaken.mails 0).history := by
  refine ⟨exec_reaches (fun _ _ _ => trivial) (Option.some_get _).symm, ?_⟩
  have hhist : (afterOvertaken.mails 0).history =
      .claimed 2 333000000 333000000 true ::
        ([.marked 0, .sent 1] ++ .claimed 1 301000000 301000000 false ::
          [.sent 0, .claimed 0 0 0 true]) := by decide +kernel
  rw [hhist]
  intro hex
  obtain ⟨hmark | hlate, -⟩ := hex.1 2 _ _ _ rfl _ _ _ rfl 1 _ _ _ rfl
  · simp at hmark
  · omega

/-- The statement of claim 0 takes 10 seconds.  Claim 1 gets the email 291
seconds after that, while claim 0 is sending it. -/
def slow : List Act :=
  [.enqueue 0 "a@b.c" "Subject" "Body" 5, .beginClaim 1, .visit 0,
      .tick 10000000, .returnBatch 0, .deliver 0 0 .send, .tick 291000000]
    ++ claimOne 1

def afterSlow : State :=
  (exec (outbox 300000000) (leaseTest 10000000) slow (.empty 0)).get
    (by decide +kernel)

theorem slow_claim_loses_time :
    Reaches (outbox 300000000) (leaseAllow 10000000) (.empty 0) afterSlow ∧
      ¬ Exclusive 300000000 (afterSlow.mails 0).history := by
  refine ⟨exec_reaches (leaseTest_allow _) (Option.some_get _).symm, ?_⟩
  have hhist : (afterSlow.mails 0).history =
      .claimed 1 301000000 301000000 false ::
        ([.sent 0] ++ .claimed 0 0 10000000 true :: []) := by decide +kernel
  rw [hhist]
  intro hex
  obtain ⟨hmark | hlate, -⟩ := hex.1 1 _ _ _ rfl _ _ _ rfl 0 _ _ _ rfl
  · simp at hmark
  · omega

end DpopAuth.Ports.OutboxLease
