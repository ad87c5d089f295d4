import DpopAuth.Ports.TotpAnswers

/-!
# A code spent on enrolment

`verify_totp_once` enters an accepted code into the replay cache, `confirm_2fa`
checks a code and enters nothing.  So the code of an enrolment is spent again
by a step-up that presents it while its window is open.  A step-up at any other
moment does not spend it, nor does one within 90 s of a step-up that has
accepted the code.

## Main results

* `enrolment_code_spent` — runs without such a step-up.
* `enrolment_code_accepted_again` — a run with one.
-/

namespace DpopAuth.Ports.EnrolmentCode

open DpopAuth.Verified.Resumption
open DpopAuth.Verified.RelyGuarantee
open DpopAuth.Verified.Transactions
open DpopAuth.Verified.StepRules
open DpopAuth.Verified.TtlCache
open DpopAuth.Ports.Errors
open DpopAuth.Ports.Schema
open DpopAuth.Ports.TwoFactor
open DpopAuth.Ports.TwoFactorSteps
open DpopAuth.Ports.TotpReplay
open DpopAuth.Ports.TotpAnswers

variable {ext : TotpExternals} {i j : Nat} {w w' : TotpSrv} {α β : Type}
  {user : Uuid} {secret code : String} {c d : TotpConfig}

/-! ## The window of a code -/

/-- The second of a moment. -/
def secondAt (t : DateTime) : Nat := (t / 1000000).toNat

/-- A step-up of the user with a spelling of the code. -/
def Presents (user : Uuid) (code : String) (q : TotpCall) : Prop :=
  ∃ s, StepsUp q user s ∧ trim s = trim code

/-- A step-up has accepted the code less than 90 s ago. -/
def JustAccepted (user : Uuid) (code : String) (w : TotpSrv) : Prop :=
  ∃ n ∈ w.mem.log, ∃ t, Accepts user (trim code) t n ∧
    w.clock < t + totpReplayTtl

/-- The runs in which no step-up of the user with the code does anything while
`secret` verifies the code, unless one has just accepted it. -/
def sparing (ext : TotpExternals) (user : Uuid) (secret code : String) :
    Filter Place TotpSrv Chance Nat TotpCall where
  run _ q _ _ w _ := Presents user code q →
    verifyCode ext secret code (unixSeconds w) = true → JustAccepted user code w
  cancel _ _ := True
  env _ _ _ := True

/-- **The code is not spent** between `c` and `d`: a step-up of the user with
the code that has come in since `c` and has answered `Ok` was accepted at a
moment at which `secret` does not verify the code. -/
def NotSpent (ext : TotpExternals) (user : Uuid) (secret code : String)
    (c d : TotpConfig) : Prop :=
  ∀ j q r, c.thread j = none → Presents user code q →
    d.answer j = some (q, .ok r) →
      HasAccepted c.shared j user (trim code)
        (fun t => verifyCode ext secret code (secondAt t) = false) d.shared

/-- A code of `totp-rs` has the six digits its builder is given. -/
def SixDigits (ext : TotpExternals) : Prop :=
  ∀ secret code second, ext.checkCurrent secret code second = true →
    code.utf8ByteSize = 6

/-- A code that has just been accepted is a replay. -/
theorem get_of_justAccepted (h : Replay w) (hjust : JustAccepted user code w) :
    (w.mem.replayCache.get totpReplayTtl w.clock (user, trim code)).isSome =
      true := by
  obtain ⟨n, hn, t, hacc, hlt⟩ := hjust
  obtain ⟨e, he, hkey, hle⟩ := h.entry hn hacc
  rw [← hkey]
  exact get_isSome he (Int.lt_of_lt_of_le hlt (Int.add_le_add_right hle _))

/-- A spared code is accepted at no moment at which `secret` verifies it. -/
theorem sparing_decides : Decides ext (sparing ext user secret code)
    fun q t => Presents user code q →
      verifyCode ext secret code (secondAt t) = false := by
  intro i q pt ch w w' u s n row stored hreplay hspared hq hid hvalid hpresents
  refine Bool.eq_false_iff.mpr fun hopen => ?_
  obtain ⟨s', hq', hs'⟩ := hpresents
  have hjust := hspared ⟨s', hq', hs'⟩ hopen
  obtain ⟨rfl, rfl⟩ : u = user ∧ s = s' := by
    cases hq <;> cases hq' <;> exact ⟨rfl, rfl⟩
  have hget := get_of_justAccepted hreplay hjust
  rw [← hid, ← hs'] at hget
  unfold checkTotp at hvalid
  split at hvalid
  · cases hvalid
  · simp [Cache.orInsert, hget] at hvalid

/-! ## The confirmation -/

section Outlines

variable {L : Logic TotpSrv} {F : Place → Chance → TotpSrv → TotpSrv → Prop}
  {P : TotpSrv → Prop}
  (hF : ∀ {pt ch w w'}, L.inv w → F pt ch w w' → L.inv w' ∧ L.guar i w w')

include hF

/-- A fact that does not depend on the state. -/
theorem fact_service {p : Service α} {φ : Prop} (hφ : φ) :
    Outline L F i p.run P (exceptPost (fun _ _ => φ) fun _ => True) := by
  refine (Outline.of_filter hF).post fun r w _ _ => ?_
  cases r with
  | error e => trivial
  | ok a => exact hφ

/-- **A code that `confirm_2fa` answers `Ok` to** was a code of some secret. -/
theorem confirm_verified : Outline L F i (confirm2fa ext user code).run P
    (exceptPost (fun _ _ => ∃ secret second,
      verifyCode ext secret code second = true) fun _ => True) := by
  refine Outline.except_bind (any_service hF) fun o => ?_
  cases o with
  | none => exact Outline.throw fun _ _ _ => trivial
  | some row =>
      dsimp only
      split
      · exact Outline.throw fun _ _ _ => trivial
      refine Outline.except_bind (any_service hF) fun pending => ?_
      cases pending with
      | none => exact Outline.throw fun _ _ _ => trivial
      | some secret =>
          refine Outline.except_bind (R := fun valid _ => valid = true →
            ∃ secret second, verifyCode ext secret code second = true)
            (Outline.lift (fact_step hF fun {ch w a w'} hstep hvalid => ?_))
            fun valid => ?_
          · simp only [Option.some.injEq, Prod.mk.injEq] at hstep
            exact ⟨secret, _, hstep.1.trans hvalid⟩
          · split
            · exact Outline.throw fun _ _ _ => trivial
            · rename_i hvalid
              refine Outline.weaken (P := fun _ => (∃ secret second,
                verifyCode ext secret code second = true) ∧ True)
                (fun _ _ h => ⟨h (by simpa using hvalid), trivial⟩)
                (Outline.of_prop fun hverified => fact_service hF hverified)

end Outlines

/-- What is known of a code that an enrolment was confirmed with. -/
def Verified (ext : TotpExternals) : TotpCall → TotpResult → Prop
  | .confirm2fa _ code, .ok _ =>
      ∃ secret second, verifyCode ext secret code second = true
  | _, _ => True

theorem confirmed_verified {users : List UserRow} {clock : DateTime}
    {r : TotpReply}
    (hrun : (totpSystem ext).Reaches .all
      (Config.start (startState users clock)) c)
    (hanswer : c.answer i = some (.confirm2fa user code, .ok r)) :
    ∃ secret second, verifyCode ext secret code second = true := by
  have hmoves : ∀ {i : Nat} {w w' : TotpSrv},
      (keeping fun _ : TotpSrv => True).inv w → True →
        (keeping fun _ : TotpSrv => True).inv w' ∧
          (keeping fun _ : TotpSrv => True).guar i w w' :=
    fun _ _ => ⟨trivial, trivial⟩
  have hbody : ∀ i q, Outline (keeping fun _ : TotpSrv => True)
      (fun (_ : Place) (_ : Chance) _ _ => True) i (q.body ext) (fun _ => True)
      fun r _ => Verified ext q r := by
    intro i q
    cases q with
    | confirm2fa u code =>
        refine (Outline.except_map (R := fun _ _ => ∃ secret second,
          verifyCode ext secret code second = true) (E := fun _ => True)
          (confirm_verified hmoves)).post fun r w _ h => ?_
        cases r with
        | error e => trivial
        | ok a => exact h
    | setup2fa u issuer accountName =>
        exact (Outline.of_filter hmoves).post fun r w _ _ => trivial
    | verify2faCode u code =>
        exact (Outline.of_filter hmoves).post fun r w _ _ => trivial
    | disable2fa u code =>
        exact (Outline.of_filter hmoves).post fun r w _ _ => trivial
    | cleanupExpiredDrafts =>
        exact (Outline.of_filter hmoves).post fun r w _ _ => trivial
  have hgood : Good (keeping fun _ : TotpSrv => True)
      (.all : Filter Place TotpSrv Chance Nat TotpCall) (fun _ _ => True)
      (fun q _ r _ => Verified ext q r)
      (Config.start (startState users clock) : TotpConfig) :=
    Good.start trivial fun _ => trivial
  have hend := sound (M := totpSystem ext) (fun _ => .const True) hbody
    (fun _ _ => ⟨trivial, trivial, trivial⟩)
    (fun _ _ _ => ⟨trivial, trivial⟩) hgood hrun
  exact hend.result (Config.answer_eq.mp hanswer)

/-! ## The enrolment code -/

/-- A code that was verified is not taken for a recovery code, in any
spelling. -/
theorem not_recovery (hdigits : SixDigits ext) {second : Nat} {typed : String}
    (hvalid : verifyCode ext secret code second = true)
    (htyped : trim typed = trim code) : isRecoveryCode typed = false := by
  unfold verifyCode at hvalid
  split at hvalid
  · have hsize := hdigits _ _ _ hvalid
    simp [isRecoveryCode, htyped, hsize]
  · cases hvalid

/-- **A code spent on enrolment is spent again in one way only.**  From any
state in which `confirm_2fa` has answered `Ok` to the code: if no step-up of
the user with a spelling of the code does anything while the window of the code
is open, except within 90 s of an acceptance of the code, the code is not
spent. -/
theorem enrolment_code_spent (ext : TotpExternals) (hdigits : SixDigits ext)
    (users : List UserRow) (clock : DateTime) (c d : TotpConfig) (i : Nat)
    (user : Uuid) (code secret : String) (codes : List String)
    (hrun : Run ext (Config.start (startState users clock)) c)
    (hconfirmed : c.answer i = some (.confirm2fa user code, .ok (.codes codes)))
    (hspared : (totpSystem ext).Reaches (sparing ext user secret code) c d) :
    NotSpent ext user secret code c d := by
  intro j q r hfree hpresents hanswer
  have hc : Standing c := (reaches_growing standing_start hrun).2.2
  obtain ⟨_, _, hvalid⟩ := confirmed_verified hrun hconfirmed
  obtain ⟨s, hq, hs⟩ := id hpresents
  have haccepted := accepted_of_answer (φ := fun q t => Presents user code q →
      verifyCode ext secret code (secondAt t) = false)
    sparing_decides hc hspared hfree hanswer user s r hq rfl
    (not_recovery hdigits hvalid hs)
  rw [hs] at haccepted
  obtain ⟨n, stored, enrolment, t, h⟩ := haccepted
  exact ⟨n, stored, enrolment, t, h.noted, h.number, h.after, h.before,
    h.holds hpresents⟩

theorem enrolled_confirmed : ∃ codes, enrolled.answer 1 =
    some (.confirm2fa 0 "755224", .ok (.codes codes)) :=
  ⟨sampleHashes.map Prod.fst, by decide +kernel⟩

theorem sample_sixDigits : SixDigits sampleExternals := by
  intro secret code second h
  simp only [sampleExternals, Bool.and_eq_true, List.any_eq_true] at h
  obtain ⟨-, step, -, hstep⟩ := h
  have hmem : code ∈ sampleCodes := List.mem_of_getElem? (beq_iff_eq.mp hstep)
  have hall : ∀ s ∈ sampleCodes, s.utf8ByteSize = 6 := by decide +kernel
  exact hall code hmem

/-- The same code is then submitted to `verify_2fa_code`. -/
def submittedAgain : TotpConfig :=
  ((totpSystem sampleExternals).exec .all enrolled
    (verifies 2 0 "755224")).get (by decide +kernel)

theorem submittedAgain_reaches : Run sampleExternals enrolled submittedAgain :=
  System.exec_reaches (Check.implies_all .all) (Option.some_get _).symm

/-- **The enrolment code is accepted again**, at the same second. -/
theorem enrolment_code_accepted_again :
    Run sampleExternals (Config.start (startState [sampleUser 0] 0)) enrolled ∧
    (∃ codes, enrolled.answer 1 =
      some (.confirm2fa 0 "755224", .ok (.codes codes))) ∧
    Run sampleExternals enrolled submittedAgain ∧
    enrolled.thread 2 = none ∧
    submittedAgain.answer 2 =
      some (.verify2faCode 0 "755224", .ok (.kind .totp)) ∧
    ¬ NotSpent sampleExternals 0 sampleSecret "755224" enrolled
      submittedAgain := by
  have hfree : enrolled.thread 2 = none :=
    Option.isNone_iff_eq_none.mp (by decide +kernel)
  have hanswer : submittedAgain.answer 2 =
      some (.verify2faCode 0 "755224", .ok (.kind .totp)) := by decide +kernel
  refine ⟨enrolled_reaches, enrolled_confirmed, submittedAgain_reaches, hfree,
    hanswer, fun hspared => ?_⟩
  obtain ⟨n, stored, enrolment, t, h⟩ :=
    hspared 2 _ _ hfree ⟨_, .verify 0 "755224", rfl⟩ hanswer
  have hlog : submittedAgain.shared.mem.log = [.accepted
      ⟨0, 0, .totp sampleSecret "755224", 1⟩ 0] := by decide +kernel
  have hnoted := h.noted
  rw [hlog, List.mem_singleton] at hnoted
  injection hnoted with _ ht
  have hfalse := h.holds
  rw [ht] at hfalse
  exact absurd hfalse (by decide +kernel)

/-! ## A code that comes again -/

/-- Another secret has the codes of the sample secret a minute later. -/
def laterExternals : TotpExternals :=
  { sampleExternals with checkCurrent := fun secret code now =>
      sampleExternals.checkCurrent secret code now ||
        secret == otherSecret && decide (60 ≤ now) &&
          sampleExternals.checkCurrent sampleSecret code (now - 60) }

theorem later_sixDigits : SixDigits laterExternals := by
  intro secret code second h
  simp only [laterExternals, Bool.or_eq_true, Bool.and_eq_true] at h
  rcases h with h | ⟨-, h⟩
  · exact sample_sixDigits _ _ _ h
  · exact sample_sixDigits _ _ _ h

/-- No step-up of user 0 with the code while it is open. -/
def sparingCheck : Check Place TotpSrv Chance Nat TotpCall where
  run _ q _ _ w _ := match q with
    | .verify2faCode u s | .disable2fa u s =>
        !(u == 0 && trim s == trim "755224" &&
          verifyCode laterExternals sampleSecret "755224" (unixSeconds w))
    | _ => true
  cancel _ _ := true
  env _ _ _ := true

theorem sparingCheck_implies :
    sparingCheck.Implies (sparing laterExternals 0 sampleSecret "755224") where
  run {i q pt ch w w'} h := by
    rintro ⟨s, hq, hs⟩ hopen
    cases hq <;> simp [sparingCheck, hs, hopen] at h
  cancel _ := trivial
  env _ := trivial

def enrolledFirst : TotpConfig :=
  ((totpSystem laterExternals).exec .all
    (Config.start (startState [sampleUser 0] 0))
    (setsUp 0 0 ++ confirms 1 0 "755224")).get (by decide +kernel)

/-- A minute later the enrolment code, out of its window, is not accepted, and
the next code is, to disable 2FA.  The user enrols again, and the first code is
also one of the new secret. -/
def spared : TotpConfig :=
  ((totpSystem laterExternals).exec sparingCheck enrolledFirst
    ([.env 60000000] ++ verifies 2 0 "755224" ++
      [.call 3 (.disable2fa 0 "287082")] ++ steps 3 21 ++
      [.call 4 (.setup2fa 0 "Example" "user")] ++ steps 4 2 ++
      [drawSecret 4 otherSecret] ++ steps 4 3 ++
      [.call 5 (.confirm2fa 0 "287082")] ++ steps 5 3 ++
      [.run 5 (.draw (.bytes (List.range' 100 100)))] ++ steps 5 8 ++
      verifies 6 0 " 755224")).get (by decide +kernel)

/-- The code is accepted, as a code of the new secret. -/
theorem enrolment_code_spent_spared :
    spared.answer 2 = some (.verify2faCode 0 "755224", .error .unauthorized) ∧
      spared.answer 6 = some (.verify2faCode 0 " 755224", .ok (.kind .totp)) ∧
      NotSpent laterExternals 0 sampleSecret "755224" enrolledFirst spared := by
  have hconfirmed : enrolledFirst.answer 1 = some (.confirm2fa 0 "755224",
      .ok (.codes (sampleHashes.map Prod.fst))) := by decide +kernel
  have hanswers :
      spared.answer 2 = some (.verify2faCode 0 "755224", .error .unauthorized) ∧
      spared.answer 6 =
        some (.verify2faCode 0 " 755224", .ok (.kind .totp)) := by
    decide +kernel
  exact ⟨hanswers.1, hanswers.2,
    enrolment_code_spent laterExternals later_sixDigits [sampleUser 0] 0
      enrolledFirst spared 1 0 "755224" sampleSecret _
      (System.exec_reaches (Check.implies_all .all) (Option.some_get _).symm)
      hconfirmed
      (System.exec_reaches sparingCheck_implies (Option.some_get _).symm)⟩

end DpopAuth.Ports.EnrolmentCode
