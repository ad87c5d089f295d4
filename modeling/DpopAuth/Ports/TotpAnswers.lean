import DpopAuth.Ports.TotpReplay
import DpopAuth.Ports.RecoveryOwner

/-!
# What a step-up answers

`verify_totp_once` writes down what it accepts, under the number of the
step-up.  Here the notes are tied to the calls: when `verify_2fa_code` or
`disable_2fa` has answered `Ok` to a code that is no recovery code, the code
was accepted, between the arrival of the call and its answer, under a number
that no other call has.  Since the notes of one code are 90 s apart, two calls
made in one validity window do not both answer `Ok`.

## Main results

* `accepted_of_answer` — an `Ok` has been accepted since the call came in.
* `code_accepted_once` — two `Ok` in one window are one call.
-/

namespace DpopAuth.Ports.TotpAnswers

open DpopAuth.Verified.Resumption
open DpopAuth.Verified.RelyGuarantee
open DpopAuth.Verified.Transactions
open DpopAuth.Verified.StepRules
open DpopAuth.Verified.TtlCache
open DpopAuth.Ports.Errors
open DpopAuth.Ports.Schema
open DpopAuth.Ports.TwoFactor
open DpopAuth.Ports.TwoFactorSteps
open DpopAuth.Ports.RecoveryOwner
open DpopAuth.Ports.TotpReplay

variable {ext : TotpExternals} {i j : Nat} {w w' : TotpSrv} {α β : Type}
  {user : Uuid} {code spelled : String} {c d : TotpConfig}

/-! ## The memory grows -/

/-- Notes and numbers are added and nothing else happens to them. -/
structure Grows (w w' : TotpSrv) : Prop where
  log : w.mem.log <:+ w'.mem.log
  stepUps : w.mem.stepUps <+: w'.mem.stepUps
  clock : w'.clock = w.clock
  replay : Replay w → Replay w'

theorem grows_same (h : SameMemory w w') : Grows w w' :=
  ⟨h.1 ▸ List.suffix_refl _, h.1 ▸ List.prefix_refl _, h.2, same_replay h⟩

theorem Grows.trans {u v : TotpSrv} (h : Grows u v) (h' : Grows v w) :
    Grows u w :=
  ⟨h.log.trans h'.log, h.stepUps.trans h'.stepUps, h'.clock.trans h.clock,
    fun hu => h'.replay (h.replay hu)⟩

theorem respects_grows : Respects i Grows :=
  respects_memory.weaken grows_same Grows.trans

theorem grows_update {t : TotpTbl} {pt : Place} {p : Int → TotpRow t → Bool}
    {f : Int → TotpRow t → TotpRow t} :
    (update (ω := TotpMemory) (ν := Entropy) pt t p f).Every (Within i Grows) :=
  within_update respects_grows fun _ => grows_same ⟨rfl, rfl⟩

theorem checkTotp_grows (ext : TotpExternals) (n : Nat) (row : TotpUser)
    (stored typed : String) (w : TotpSrv) :
    Grows w { w with mem := (checkTotp ext n row stored typed w).2 } := by
  refine ⟨?_, ?_, rfl, fun h => h.check⟩
  · unfold checkTotp
    dsimp only
    split
    · exact List.suffix_refl _
    · split <;> exact List.suffix_cons _ _
  · unfold checkTotp
    dsimp only
    split
    · exact List.prefix_refl _
    · split <;> exact List.prefix_refl _

/-- A note other than that of a TOTP code. -/
theorem grows_note {n : DateTime → Note}
    (hn : ∀ now user code t, ¬ Accepts user code t (n now))
    (hreplay : ∀ now user code t, n now ≠ .replayed user code t) :
    Within i Grows (noteStep n) := by
  intro ch w b w' hf
  simp only [noteStep, Option.some.injEq, Prod.mk.injEq] at hf
  rw [← hf.2]
  exact ⟨List.suffix_cons _ _, List.prefix_refl _, rfl,
    fun h => h.other (hn w.clock) (hreplay w.clock) rfl rfl⟩

theorem grants_grows : Grants ext (Within i Grows) where
  select := within_select respects_grows
  setPending _ _ := Prog.Every.except_bind grows_update fun _ => trivial
  activate _ _ := Prog.Every.except_bind grows_update fun _ => trivial
  disable _ _ := Prog.Every.except_bind grows_update fun _ => trivial
  consume _ _ _ := Prog.Every.except_bind grows_update fun _ => trivial
  invalidate _ := Prog.Every.except_bind grows_update fun _ => trivial
  cleanup := Prog.Every.except_bind grows_update fun _ => trivial
  create _ _ _ := by
    unfold createRecoveryCodes
    split
    · trivial
    · exact within_insert respects_grows fun _ => grows_same ⟨rfl, rfl⟩
  block hregion := within_transaction respects_grows hregion
  look hf := fun ch w b w' hstep => by
    rw [hf hstep]
    exact grows_same ⟨rfl, rfl⟩
  issue := fun ch w r w' hf => by
    rcases issueStep_cases hf with ⟨bs, -, -, -, -, -, rfl⟩ | ⟨-, rfl⟩
    · exact ⟨List.suffix_refl _, List.prefix_refl _, rfl, fun h =>
        ⟨h.entry, h.origin, h.spaced, h.past, h.replayed⟩⟩
    · exact grows_same ⟨rfl, rfl⟩
  number := fun ch w b w' hf => by
    simp only [numberStep, Option.some.injEq, Prod.mk.injEq] at hf
    rw [← hf.2]
    exact ⟨List.suffix_refl _, List.prefix_append _ _, rfl, fun h =>
      ⟨h.entry, h.origin, h.spaced, h.past, h.replayed⟩⟩
  check n u s c := fun ch w b w' hf => by
    simp only [checkStep, Option.some.injEq, Prod.mk.injEq] at hf
    rw [← hf.2]
    exact checkTotp_grows ext n u s c w
  burn n u h e := grows_note (fun now user code t hacc => by cases hacc)
    fun now user code t heq => by cases heq

theorem call_grows {q : TotpCall} : (q.body ext).Every (Within i Grows) :=
  grants_grows.call fun u => grows_note (fun now user code t hacc => by cases hacc)
    fun now user code t heq => by cases heq

/-- The steps of the threads of `c` let the memory grow. -/
structure Standing (c : TotpConfig) : Prop where
  replay : Replay c.shared
  steps : ∀ i q p, c.thread i = some (q, p) → p.Every (Within i Grows)

/-- The restriction, with what is known of the steps. -/
def growing (F : Filter Place TotpSrv Chance Nat TotpCall) :
    Filter Place TotpSrv Chance Nat TotpCall :=
  ⟨fun i q pt ch w w' => F.run i q pt ch w w' ∧ Grows w w', F.cancel, F.env⟩

theorem standing_start {users : List UserRow} {clock : DateTime} :
    Standing (Config.start (startState users clock)) :=
  ⟨replay_start, fun i q p h => by cases h⟩

variable {F : Filter Place TotpSrv Chance Nat TotpCall}

/-- What follows: time has passed, notes and numbers have been added. -/
structure Later (w w' : TotpSrv) : Prop where
  log : w.mem.log <:+ w'.mem.log
  stepUps : w.mem.stepUps <+: w'.mem.stepUps
  clock : w.clock ≤ w'.clock

theorem Later.refl (w : TotpSrv) : Later w w :=
  ⟨List.suffix_refl _, List.prefix_refl _, Int.le_refl _⟩

theorem Later.trans {u v : TotpSrv} (h : Later u v) (h' : Later v w) :
    Later u w :=
  ⟨h.log.trans h'.log, h.stepUps.trans h'.stepUps, Int.le_trans h.clock h'.clock⟩

theorem Grows.later (h : Grows w w') : Later w w' :=
  ⟨h.log, h.stepUps, Int.le_of_eq h.clock.symm⟩

theorem later_tick {n : Nat} : Later w { w with clock := w.clock + n } :=
  ⟨List.suffix_refl _, List.prefix_refl _, Int.le_add_of_nonneg_right (by omega)⟩

/-- One step. -/
theorem step_growing (hc : Standing c) (hstep : (totpSystem ext).Step F c d) :
    (totpSystem ext).Step (growing F) c d ∧ Later c.shared d.shared ∧
      Replay d.shared := by
  cases hstep with
  | call free => exact ⟨.call free, .refl _, hc.replay⟩
  | run stands takes allowed =>
      have hgrows : Grows _ _ := (hc.steps _ _ _ stands).1 takes
      exact ⟨.run stands takes ⟨allowed, hgrows⟩, hgrows.later,
        hgrows.replay hc.replay⟩
  | @cancel i q p stands allowed =>
      have hgrows : Grows c.shared (c.shared.rollbackTx i) := respects_grows.drops _
      exact ⟨.cancel stands allowed, hgrows.later, hgrows.replay hc.replay⟩
  | env takes allowed =>
      refine ⟨.env takes allowed, ?_⟩
      cases takes
      exact ⟨later_tick, hc.replay.tick⟩

/-- **A run**, from a state in which the invariant holds. -/
theorem reaches_growing (hc : Standing c) (hrun : (totpSystem ext).Reaches F c d) :
    (totpSystem ext).Reaches (growing F) c d ∧ Later c.shared d.shared ∧
      Standing d := by
  have hsteps : ∀ {d}, (totpSystem ext).Reaches F c d → ∀ i q p,
      d.thread i = some (q, p) → p.Every (Within i Grows) :=
    fun h => every_run (fun _ _ => call_grows) hc.steps h
  induction hrun with
  | refl => exact ⟨.refl, .refl _, hc⟩
  | tail hcd hstep ih =>
      obtain ⟨hgrowing, hlater, hd⟩ := ih
      obtain ⟨hnext, hlater', hreplay⟩ := step_growing hd hstep
      exact ⟨hgrowing.tail hnext, hlater.trans hlater', hreplay,
        hsteps (hcd.tail hstep)⟩

/-! ## What a call answers -/

section Services

variable {L : Logic TotpSrv} {F : Place → Chance → TotpSrv → TotpSrv → Prop}
  {P : TotpSrv → Prop}
  (hF : ∀ {pt ch w w'}, L.inv w → F pt ch w w' → L.inv w' ∧ L.guar i w w')

include hF

theorem any_service {p : Service α} :
    Outline L F i p.run P (exceptPost (fun _ _ => True) fun _ => True) := by
  refine (Outline.of_filter hF).post fun r w _ _ => ?_
  cases r <;> trivial

/-- A step whose answer says something that does not depend on the state. -/
theorem fact_step {pt : Place} {f : Action TotpSrv Chance α} {φ : α → Prop}
    (hφ : ∀ {ch w a w'}, f i ch w = some (a, w') → φ a) :
    Outline L F i (Prog.step pt f) P fun a _ => φ a :=
  Outline.step (fun _ => .const _) fun hw _ hstep hstepF =>
    ⟨(hF hw hstepF).1, (hF hw hstepF).2, hφ hstep⟩

theorem find_outline : Outline L F i (findUserById user).propagate.run P
    (exceptPost (fun o _ => ∀ row, o = some row → row.id = user)
      fun _ => True) := by
  refine Outline.bind (fun r => ?_) (fact_step hF (φ := fun r => ∀ o,
    r = Except.ok o → ∀ row, o = some row → row.id = user) ?_)
  · cases r with
    | error e => exact fun _ _ _ => trivial
    | ok o => exact fun _ _ h => h o rfl
  · intro ch w r w' hstep o ho row hrow
    subst ho hrow
    rcases statement_cases hstep with ⟨-, -, e, he⟩ | ⟨-, -, -, e, he⟩ | ⟨-, hrun⟩
    · cases he
    · cases he
    · simp only [Option.some.injEq, Prod.mk.injEq, Except.ok.injEq] at hrun
      have hmatch := List.find?_some hrun.1
      simp only [Bool.and_eq_true, beq_iff_eq] at hmatch
      exact hmatch.1

end Services

/-- What has happened since `before`. -/
def since (before : TotpSrv) : Logic TotpSrv where
  inv w := Later before w ∧ Replay w
  guar _ := Grows
  env := Later

/-- The step-up has drawn a number since. -/
structure Numbered (before : TotpSrv) (i n : Nat) (w : TotpSrv) : Prop where
  fresh : before.mem.stepUps.length ≤ n
  drawn : w.mem.stepUps[n]? = some i

/-- A step-up of thread `i` has accepted the code since, at a moment with the
property `φ`. -/
structure Accepted (before : TotpSrv) (i : Nat) (user : Uuid) (spelled : String)
    (φ : DateTime → Prop) (n : Nat) (secret : String) (enrolment : Nat)
    (t : DateTime) (w : TotpSrv) : Prop where
  noted : .accepted ⟨n, user, .totp secret spelled, enrolment⟩ t ∈ w.mem.log
  number : Numbered before i n w
  after : before.clock ≤ t
  before : t ≤ w.clock
  holds : φ t

/-- It has, in one way or another. -/
def HasAccepted (before : TotpSrv) (i : Nat) (user : Uuid) (spelled : String)
    (φ : DateTime → Prop) (w : TotpSrv) : Prop :=
  ∃ n secret enrolment t, Accepted before i user spelled φ n secret enrolment t w

/-- A step-up of the user with this code. -/
inductive StepsUp : TotpCall → Uuid → String → Prop
  | verify (u : Uuid) (s : String) : StepsUp (.verify2faCode u s) u s
  | disable (u : Uuid) (s : String) : StepsUp (.disable2fa u s) u s

/-- What the answer of a call says about the notes. -/
def Recorded (before : TotpSrv) (φ : TotpCall → DateTime → Prop) (i : Nat)
    (q : TotpCall) (r : TotpResult) (w : TotpSrv) : Prop :=
  ∀ u s a, StepsUp q u s → r = .ok a → isRecoveryCode s = false →
    HasAccepted before i u (trim s) (φ q) w

section StepUps

variable {before : TotpSrv} {φ : DateTime → Prop}
  {F : Place → Chance → TotpSrv → TotpSrv → Prop} {P : TotpSrv → Prop} {n : Nat}

theorem Numbered.later (h : Numbered before i n w) (hlater : Later w w') :
    Numbered before i n w' := by
  obtain ⟨more, hmore⟩ := hlater.stepUps
  refine ⟨h.fresh, ?_⟩
  rw [← hmore, List.getElem?_append_left (List.getElem?_eq_some_iff.mp h.drawn).1]
  exact h.drawn

theorem HasAccepted.later (h : HasAccepted before i user spelled φ w)
    (hlater : Later w w') : HasAccepted before i user spelled φ w' := by
  obtain ⟨n, secret, enrolment, t, h⟩ := h
  exact ⟨n, secret, enrolment, t, hlater.log.subset h.noted,
    h.number.later hlater, h.after, Int.le_trans h.before hlater.clock, h.holds⟩

theorem stable_later {P : TotpSrv → Prop}
    (h : ∀ {w w'}, P w → Later w w' → P w') : Stable (since before) i P where
  thread _ _ _ hgrows hP := h hP hgrows.later
  env _ _ hlater hP := h hP hlater

theorem since_moves (hw : (since before).inv w) (h : Grows w w') :
    (since before).inv w' ∧ (since before).guar i w w' :=
  ⟨⟨hw.1.trans h.later, h.replay hw.2⟩, h⟩

/-- A check that answers `valid` has written it down. -/
theorem check_noted {row : TotpUser} {stored typed : String}
    (h : (checkTotp ext n row stored typed w).1 = .valid) :
    .accepted ⟨n, row.id, .totp stored (trim typed), row.enrolments⟩ w.clock ∈
      (checkTotp ext n row stored typed w).2.log := by
  unfold checkTotp at h ⊢
  split at h
  · cases h
  · rename_i hvalid
    rw [if_neg hvalid]
    dsimp only at h ⊢
    split at h
    · rename_i hfresh
      rw [if_pos hfresh]
      exact List.mem_cons_self
    · cases h

variable (hF : ∀ {pt ch w w'}, F pt ch w w' → Grows w w')

include hF

/-- **The TOTP branch of a step-up** writes down what it accepts. -/
theorem stepUpTotp_accepts {row : TotpUser}
    (hφ : ∀ {pt ch w w' stored}, Replay w → F pt ch w w' →
      (checkTotp ext n row stored code w).1 = .valid → φ w.clock) :
    Outline (since before) F i (stepUpTotp ext n row code).run
      (Numbered before i n)
      (exceptPost (fun _ => HasAccepted before i row.id (trim code) φ)
        fun _ => True) := by
  have hmoves : ∀ {pt ch w w'}, (since before).inv w → F pt ch w w' →
      (since before).inv w' ∧ (since before).guar i w w' :=
    fun hw hstep => since_moves hw (hF hstep)
  unfold stepUpTotp
  split
  · exact Outline.except_bind (any_service hmoves)
      fun _ => Outline.throw fun _ _ _ => trivial
  · rename_i stored hstored
    refine Outline.except_bind (R := fun r w => r = TotpCheck.valid →
      HasAccepted before i row.id (trim code) φ w) (Outline.lift (Outline.step
        (fun r => Stable.forall fun _ => stable_later HasAccepted.later)
        fun {w ch r w'} hw hnumber hstep hstepF => ?_)) fun r => ?_
    · obtain ⟨hinv, hguar⟩ := hmoves hw hstepF
      refine ⟨hinv, hguar, fun hvalid => ?_⟩
      simp only [checkStep, Option.some.injEq, Prod.mk.injEq] at hstep
      have hok := hstep.1.trans hvalid
      refine ⟨n, stored, row.enrolments, w.clock, ?_,
        hnumber.later hguar.later, hw.1.clock, Int.le_of_eq hguar.clock.symm,
        hφ hw.2 hstepF hok⟩
      rw [← hstep.2]
      exact check_noted hok
    · cases r with
      | valid => exact Outline.pure fun _ _ h => h rfl
      | invalid => exact Outline.throw fun _ _ _ => trivial
      | replayed => exact Outline.throw fun _ _ _ => trivial

theorem stepUp_accepts (hcode : isRecoveryCode code = false)
    (hφ : ∀ {pt ch w w' n row stored}, row.id = user → Replay w →
      F pt ch w w' → (checkTotp ext n row stored code w).1 = .valid →
        φ w.clock) :
    Outline (since before) F i (stepUp ext user code).run P
      (exceptPost (fun _ => HasAccepted before i user (trim code) φ)
        fun _ => True) := by
  have hmoves : ∀ {pt ch w w'}, (since before).inv w → F pt ch w w' →
      (since before).inv w' ∧ (since before).guar i w w' :=
    fun hw hstep => since_moves hw (hF hstep)
  refine Outline.except_bind (find_outline hmoves) fun o => ?_
  cases o with
  | none => exact Outline.throw fun _ _ _ => trivial
  | some row =>
      refine Outline.weaken (P := fun _ => row.id = user ∧ True)
        (fun _ _ h => ⟨h row rfl, trivial⟩) (Outline.of_prop fun hid => ?_)
      dsimp only
      split
      · exact Outline.throw fun _ _ _ => trivial
      refine Outline.except_bind (R := Numbered before i) (Outline.lift
        (Outline.step (fun n => stable_later Numbered.later)
          fun {w ch n w'} hw _ hstep hstepF => ?_)) fun n => ?_
      · obtain ⟨hinv, hguar⟩ := hmoves hw hstepF
        simp only [numberStep, Option.some.injEq, Prod.mk.injEq] at hstep
        obtain ⟨rfl, rfl⟩ := hstep
        exact ⟨hinv, hguar, hw.1.stepUps.length_le, by simp⟩
      · rw [if_neg (by simp [hcode]), ← hid]
        exact stepUpTotp_accepts hF fun hreplay => hφ hid hreplay

end StepUps

/-- The restriction decides when a code of a call may be accepted. -/
def Decides (ext : TotpExternals) (F : Filter Place TotpSrv Chance Nat TotpCall)
    (φ : TotpCall → DateTime → Prop) : Prop :=
  ∀ {i q pt ch w w' u s n row stored}, Replay w → F.run i q pt ch w w' →
    StepsUp q u s → row.id = u →
      (checkTotp ext n row stored s w).1 = .valid → φ q w.clock

theorem call_recorded {before : TotpSrv} {φ : TotpCall → DateTime → Prop}
    {q : TotpCall} (hφ : Decides ext F φ) :
    Outline (since before) ((growing F).run i q) i (q.body ext) (fun _ => True)
      fun r w => Recorded before φ i q r w := by
  have hgrows : ∀ {pt ch w w'}, (growing F).run i q pt ch w w' → Grows w w' :=
    fun h => h.2
  have hmoves : ∀ {pt ch w w'}, (since before).inv w →
      (growing F).run i q pt ch w w' →
        (since before).inv w' ∧ (since before).guar i w w' :=
    fun hw h => since_moves hw h.2
  by_cases hstepsUp : ∃ u s, StepsUp q u s ∧ isRecoveryCode s = false
  · obtain ⟨u, s, hq, hcode⟩ := hstepsUp
    have hstepUp : ∀ {P}, Outline (since before) ((growing F).run i q) i
        (stepUp ext u s).run P (exceptPost (fun _ =>
          HasAccepted before i u (trim s) (φ q)) fun _ => True) :=
      stepUp_accepts hgrows hcode fun hid hreplay h hvalid =>
        hφ hreplay h.1 hq hid hvalid
    cases hq with
    | verify =>
        refine (Outline.except_map (R := fun _ =>
          HasAccepted before i u (trim s) (φ (.verify2faCode u s)))
          (E := fun _ => True) (Outline.except_map (R := fun _ =>
            HasAccepted before i u (trim s) (φ (.verify2faCode u s)))
            hstepUp)).post fun r w _ h => ?_
        rintro u s a ⟨⟩ rfl -
        exact h
    | disable =>
        refine (Outline.except_map (R := fun _ =>
          HasAccepted before i u (trim s) (φ (.disable2fa u s)))
          (E := fun _ => True) ?_).post fun r w _ h => ?_
        · refine Outline.except_bind (any_service hmoves) fun o => ?_
          cases o with
          | none => exact Outline.throw fun _ _ _ => trivial
          | some row =>
              dsimp only
              split
              · exact Outline.throw fun _ _ _ => trivial
              refine Outline.except_bind hstepUp fun a => ?_
              -- the transaction leaves the note in the log
              refine (Outline.keep_of_filter (stable_later HasAccepted.later)
                fun hw hnoted h => ?_).post fun r w _ h => ?_
              · obtain ⟨hinv, hguar⟩ := hmoves hw h
                exact ⟨hinv, hguar, hnoted.later hguar.later⟩
              · cases r with
                | error e => trivial
                | ok x => exact h
        · rintro u s a ⟨⟩ rfl -
          exact h
  · refine (Outline.of_filter hmoves).post fun r w _ _ => ?_
    intro u s a hq _ hcode
    exact absurd ⟨u, s, hq, hcode⟩ hstepsUp

/-- **An `Ok` of a step-up that came in since `c`** has been accepted since. -/
theorem accepted_of_answer {φ : TotpCall → DateTime → Prop}
    (hφ : Decides ext F φ) {q : TotpCall} {r : TotpResult} (hc : Standing c)
    (hrun : (totpSystem ext).Reaches F c d) (hfree : c.thread j = none)
    (hanswer : d.answer j = some (q, r)) :
    Recorded c.shared φ j q r d.shared := by
  have hgood : Good (since c.shared) (growing F) (fun _ _ => True)
      (fun q i r w => i = j → Recorded c.shared φ i q r w) c :=
    Good.fresh (Q := fun q i => Recorded c.shared φ i q) ⟨.refl _, hc.replay⟩
      (fun _ _ => trivial) hfree fun hw h => since_moves hw h.2
  have hend := sound (M := totpSystem ext) (fun _ => .const True)
    (fun i q => (call_recorded hφ).post fun _ _ _ h _ => h)
    (fun {i q w} hw _ => by
      have hgrows : Grows w (w.rollbackTx i) := respects_grows.drops w
      exact ⟨⟨hw.1.trans hgrows.later, hgrows.replay hw.2⟩, hgrows, trivial⟩)
    (fun hw he _ => by
      cases he
      exact ⟨⟨hw.1.trans later_tick, hw.2.tick⟩, later_tick⟩)
    hgood (reaches_growing hc hrun).1
  exact hend.result (Config.answer_eq.mp hanswer) rfl

/-! ## One window -/

/-- Thread `k` has answered `Ok` to a step-up of the user with the code. -/
def Answered (c : TotpConfig) (k : Nat) (user : Uuid) (s : String) : Prop :=
  ∃ q a, StepsUp q user s ∧ c.answer k = some (q, .ok a)

variable (ext) in
/-- Any run. -/
abbrev Run (c d : TotpConfig) : Prop := (totpSystem ext).Reaches .all c d

/-- Two acceptances in one window are one note. -/
theorem one_note {step t t' : Int} {n m : Note} (h : Replay w)
    (hn : n ∈ w.mem.log) (hm : m ∈ w.mem.log) (hacc : Accepts user code t n)
    (hacc' : Accepts user code t' m) (hvalid : ValidAt step t)
    (hvalid' : ValidAt step t') : n = m := by
  have hspaced := List.pairwise_filterMap.mp (h.spaced user code)
  rw [← acceptedAt_eq] at hacc hacc'
  obtain ⟨k, hk, rfl⟩ := List.mem_iff_getElem.mp hn
  obtain ⟨l, hl, rfl⟩ := List.mem_iff_getElem.mp hm
  rcases Nat.lt_trichotomy k l with hkl | rfl | hlk
  · have hapart := List.pairwise_iff_getElem.mp hspaced k l hk hl hkl t hacc t' hacc'
    exact absurd hapart (Int.not_le.mpr (hvalid'.close hvalid))
  · rfl
  · have hapart := List.pairwise_iff_getElem.mp hspaced l k hl hk hlk t' hacc' t hacc
    exact absurd hapart (Int.not_le.mpr (hvalid.close hvalid'))

/-- A code that is no recovery code is none in any spelling. -/
theorem isRecoveryCode_trim {s s' : String} (h : trim s' = trim s) :
    isRecoveryCode s' = isRecoveryCode s := by
  simp only [isRecoveryCode, h]

theorem accepted_of_answered {s : String} (hc : Standing c)
    (hrun : Run ext c d) (hfree : c.thread j = none)
    (hcode : isRecoveryCode s = false) (h : Answered d j user s) :
    HasAccepted c.shared j user (trim s) (fun _ => True) d.shared := by
  obtain ⟨q, a, hq, hanswer⟩ := h
  exact accepted_of_answer (φ := fun _ _ => True) (fun _ _ _ _ _ => trivial) hc
    hrun hfree hanswer user s a hq rfl hcode

/-- What a code is rejected for as a replay, it is rejected for without the
calls of other users as well. -/
theorem replayed_without {n : Nat} {row : TotpUser} {stored typed : String}
    (hkept : KeepsUser row.id w w')
    (h : (checkTotp ext n row stored typed w').1 = .replayed) :
    (checkTotp ext n row stored typed { w' with mem := w.mem }).1 =
      .replayed := by
  have hsame := hkept.entries (trim typed) w'.clock
  have hsecond : unixSeconds { w' with mem := w.mem } = unixSeconds w' := rfl
  unfold checkTotp at h ⊢
  rw [hsecond]
  split at h
  · cases h
  · rename_i hvalid
    rw [if_neg hvalid]
    simp only [Cache.orInsert, hsame] at h ⊢
    cases hget : (w.mem.replayCache.get totpReplayTtl w'.clock
        (row.id, trim typed)).isSome with
    | true => simp
    | false => simp [hget] at h

/--
**A TOTP code is accepted at most once in its validity window.**  Of the calls
of `verify_2fa_code` and `disable_2fa` that come in and are answered while a
code is valid for a time step, in whatever spellings and order, no two answer
`Ok` to it: two that do are one call.  At most one acceptance in the window is
written down, and every `Ok` is written down, between the arrival of the call
and its answer and under a number drawn by the call.  The calls of other users
make no code a replay, and a code rejected as replayed was accepted for the
same user less than 90 s before.
-/
theorem code_accepted_once (ext : TotpExternals) (users : List UserRow)
    (clock : DateTime) :
    (∀ a b d e k l user s s' step,
      Run ext (Config.start (startState users clock)) a → Run ext a d →
      Run ext (Config.start (startState users clock)) b → Run ext b e →
      Run ext d e → a.thread k = none → b.thread l = none →
      trim s' = trim s → isRecoveryCode s = false →
      Answered d k user s → Answered e l user s' →
      ValidAt step a.shared.clock → ValidAt step b.shared.clock →
      ValidAt step e.shared.clock →
      k = l ∧ ∀ m, Run ext d m → Run ext m e → m.thread l ≠ none) ∧
    (∀ c user code step, Run ext (Config.start (startState users clock)) c →
      (acceptances user code step c.shared.mem.log).length ≤ 1) ∧
    (∀ a d k user s, Run ext (Config.start (startState users clock)) a →
      Run ext a d → a.thread k = none → isRecoveryCode s = false →
      Answered d k user s →
      HasAccepted a.shared k user (trim s) (fun _ => True) d.shared) ∧
    (∀ c d, Run ext (Config.start (startState users clock)) c →
      ∀ n row stored typed, (totpSystem ext).Reaches (others row.id) c d →
      (checkTotp ext n row stored typed d.shared).1 = .replayed →
      (checkTotp ext n row stored typed
        { d.shared with mem := c.shared.mem }).1 = .replayed) ∧
    ∀ c user code t, Run ext (Config.start (startState users clock)) c →
      Note.replayed user code t ∈ c.shared.mem.log →
      ∃ n ∈ c.shared.mem.log, ∃ t', Accepts user code t' n ∧
        t < t' + totpReplayTtl := by
  have hstanding : ∀ {c}, Run ext (Config.start (startState users clock)) c →
      Standing c := fun h => (reaches_growing standing_start h).2.2
  have hlater : ∀ {c d}, Run ext (Config.start (startState users clock)) c →
      Run ext c d → Later c.shared d.shared :=
    fun hc h => (reaches_growing (hstanding hc) h).2.1
  refine ⟨?_, fun c user code step hc =>
      acceptances_le_one ((hstanding hc).replay.spaced user code),
    fun a d k user s ha had => accepted_of_answered (hstanding ha) had,
    fun c d hc n row stored typed hothers =>
      replayed_without (others_keep hc hothers),
    fun c user code t hc => (hstanding hc).replay.replayed⟩
  intro a b d e k l user s s' step ha had hb hbe hde hk hl hspelled hcode hok
    hok' hvalid hvalid' hend
  have hd := ha.trans had
  have he := hlater hd hde
  have hcode' : isRecoveryCode s' = false :=
    (isRecoveryCode_trim hspelled).trans hcode
  -- the note of the first call, in the log of the last state
  obtain ⟨n, secret, enrolment, t, h⟩ :=
    (accepted_of_answered (hstanding ha) had hk hcode hok).later he
  have ht : ValidAt step t := hvalid.between hend h.after h.before
  -- any note of the second call in the window is that note
  have hsame : ∀ {m : TotpConfig}, Run ext
      (Config.start (startState users clock)) m → Run ext m e →
      m.thread l = none → ValidAt step m.shared.clock →
        m.shared.mem.stepUps.length ≤ n ∧ e.shared.mem.stepUps[n]? = some l := by
    intro m hm hme hfree hopen
    obtain ⟨n', secret', enrolment', t', h'⟩ :=
      accepted_of_answered (hstanding hm) hme hfree hcode' hok'
    have hnote := h'.noted
    rw [hspelled] at hnote
    have hone := one_note (hstanding (hd.trans hde)).replay h.noted hnote
      (.mk _ _ _) (.mk _ _ _) ht (hopen.between hend h'.after h'.before)
    injection hone with hacceptance
    injection hacceptance with hn
    exact ⟨hn ▸ h'.number.fresh, hn ▸ h'.number.drawn⟩
  have hkl : k = l := Option.some.inj
    (h.number.drawn.symm.trans (hsame hb hbe hl hvalid').2)
  refine ⟨hkl, fun m hdm hme hfree => ?_⟩
  -- a call that comes in later has a later number
  obtain ⟨n', secret', enrolment', t', h'⟩ :=
    accepted_of_answered (hstanding ha) had hk hcode hok
  have hone := one_note (hstanding (hd.trans hde)).replay h.noted
    (he.log.subset h'.noted) (.mk _ _ _) (.mk _ _ _) ht
    (hvalid.between hend h'.after (Int.le_trans h'.before he.clock))
  injection hone with hacceptance
  injection hacceptance with hn
  have hdrawn := (List.getElem?_eq_some_iff.mp h'.number.drawn).1
  have hgrown := (hlater hd hdm).stepUps.length_le
  have hfresh := (hsame (hd.trans hdm) hme hfree (hvalid.between hend
    (Int.le_trans (hlater ha had).clock (hlater hd hdm).clock)
    (hlater (hd.trans hdm) hme).clock)).1
  omega

/-- User 0 has confirmed an enrolment, in the time step 1. -/
def confirmed : TotpConfig :=
  ((totpSystem sampleExternals).exec .all
    (Config.start (startState [sampleUser 0, sampleUser 1] 30000000))
    (setsUp 0 0 ++ confirms 1 0 "755224")).get (by decide +kernel)

/-- The code of the next step is submitted, and accepted. -/
def accepted : TotpConfig :=
  ((totpSystem sampleExternals).exec .all confirmed
    (verifies 2 0 "287082")).get (by decide +kernel)

/-- Half a minute later it is submitted again, with spaces. -/
def resubmitted : TotpConfig :=
  ((totpSystem sampleExternals).exec .all accepted
    ([.env 30000000] ++ verifies 3 0 " 287082 ")).get (by decide +kernel)

/-- The second call is rejected, and whoever has answered `Ok` to the code in
the meantime is the first call. -/
theorem code_accepted_once_submitted :
    Answered accepted 2 0 "287082" ∧
    resubmitted.answer 3 =
      some (.verify2faCode 0 " 287082 ", .error .unauthorized) ∧
    ∀ l, confirmed.thread l = none → Answered resubmitted l 0 " 287082 " →
      2 = l := by
  have hstart : Run sampleExternals (Config.start
      (startState [sampleUser 0, sampleUser 1] 30000000)) confirmed :=
    System.exec_reaches (Check.implies_all .all) (Option.some_get _).symm
  have hfirst : Run sampleExternals confirmed accepted :=
    System.exec_reaches (Check.implies_all .all) (Option.some_get _).symm
  have hsecond : Run sampleExternals accepted resubmitted :=
    System.exec_reaches (Check.implies_all .all) (Option.some_get _).symm
  have hok : Answered accepted 2 0 "287082" :=
    ⟨_, .kind .totp, .verify 0 "287082", by decide +kernel⟩
  refine ⟨hok, by decide +kernel, fun l hfree hl => ?_⟩
  exact ((code_accepted_once sampleExternals [sampleUser 0, sampleUser 1]
    30000000).1 confirmed confirmed accepted resubmitted 2 l 0 "287082"
    " 287082 " 1 hstart hfirst hstart (hfirst.trans hsecond) hsecond
    (Option.isNone_iff_eq_none.mp (by decide +kernel)) hfree (by decide +kernel)
    (by decide +kernel) hok hl (by decide +kernel) (by decide +kernel)
    (by decide +kernel)).1

end DpopAuth.Ports.TotpAnswers
