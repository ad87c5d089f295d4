import DpopAuth.Verified.StepRules
import DpopAuth.Ports.TwoFactor

/-!
# The steps of the two-factor calls

`Grants` lists the queries and the other steps the two-factor calls are made
of.  What holds of all of them holds of every step of every call.

## Main results

* `Grants.confirm2fa`, `Grants.disable2fa` and the like.
-/

namespace DpopAuth.Ports.TwoFactorSteps

open DpopAuth.Verified.Resumption
open DpopAuth.Verified.Transactions
open DpopAuth.Verified.StepRules
open DpopAuth.Ports.Errors
open DpopAuth.Ports.Schema
open DpopAuth.Ports.TwoFactor

variable {ext : TotpExternals} {φ : ∀ {β : Type}, Action TotpSrv Chance β → Prop}
  {α β : Type}

/-- The steps of `confirm_2fa` have the property `φ`. -/
structure Confirms (ext : TotpExternals)
    (φ : ∀ {β : Type}, Action TotpSrv Chance β → Prop) : Prop where
  select : ∀ {β : Type} {f : Int → (∀ t, List (TotpRow t)) → β},
    (select (ω := TotpMemory) (ν := Entropy) Place.plain f).Every φ
  activate : ∀ u s, (activateTotp u s).run.Every φ
  create : ∀ u hs e, (createRecoveryCodes u hs e).run.Every φ
  invalidate : ∀ u, (invalidateRecoveryCodesForUser u).run.Every φ
  block : ∀ {α : Type} {region : Service (TxExit Place ServiceError α)},
    region.run.Every φ → (inTransaction region).run.Every φ
  look : ∀ {β : Type} {f : Action TotpSrv Chance β},
    (∀ {i ch w b w'}, f i ch w = some (b, w') → w' = w) → φ f
  issue : φ (issueStep ext)

/-- The steps of the calls have the property `φ`. -/
structure Grants (ext : TotpExternals)
    (φ : ∀ {β : Type}, Action TotpSrv Chance β → Prop) : Prop
    extends Confirms ext φ where
  setPending : ∀ u s, (setPendingTotpSecret u s).run.Every φ
  disable : ∀ u a, (disableTotp u a).run.Every φ
  consume : ∀ n u h, (consumeRecoveryCode n u h).run.Every φ
  cleanup : cleanupExpiredDrafts.run.Every φ
  number : φ numberStep
  check : ∀ n u s c, φ (checkStep ext n u s c)
  burn : ∀ n u h e, φ (noteStep (.accepted ⟨n, u, .recovery h, e⟩))

/-! ## Steps that change the memory at most -/

theorem issueStep_cases {i : Nat} {ch : Chance} {w w' : TotpSrv}
    {r : Except ServiceError (List String)}
    (h : issueStep ext i ch w = some (r, w')) :
    (∃ bs, (∀ b ∈ bs, b < 256) ∧ bs.length = 100 ∧
      r = .ok (recoveryCodes 10 bs) ∧
      ((recoveryCodes 10 bs).map (hashRecoveryCode ext)).Nodup ∧
      (∀ h ∈ (recoveryCodes 10 bs).map (hashRecoveryCode ext),
        h ∉ w.mem.issued.map Prod.snd) ∧
      w' = { w with mem := { w.mem with
        issued := ((recoveryCodes 10 bs).map (hashRecoveryCode ext)).map
          (Prod.mk i) ++ w.mem.issued } }) ∨
    ((∃ e, r = .error e) ∧ w' = w) := by
  unfold issueStep at h
  split at h
  · dsimp only at h
    split at h
    · rename_i bs hfresh
      simp only [Option.some.injEq, Prod.mk.injEq] at h
      exact .inl ⟨bs, hfresh.2.1, hfresh.1, h.1.symm, hfresh.2.2.1,
        hfresh.2.2.2, h.2.symm⟩
    · cases h
  · simp only [Option.some.injEq, Prod.mk.injEq] at h
    exact .inr ⟨⟨_, h.1.symm⟩, h.2.symm⟩
  · cases h

/-- A step that changes the memory at most. -/
def MemoryOnly (f : Action TotpSrv Chance β) : Prop :=
  ∀ ⦃i ch w b w'⦄, f i ch w = some (b, w') → ∃ m, w' = { w with mem := m }

theorem memory_issue : MemoryOnly (issueStep ext) := by
  intro i ch w r w' h
  rcases issueStep_cases h with ⟨bs, -, -, -, -, -, rfl⟩ | ⟨-, rfl⟩
  · exact ⟨_, rfl⟩
  · exact ⟨_, rfl⟩

theorem memory_number : MemoryOnly numberStep := by
  intro i ch w b w' h
  simp only [numberStep, Option.some.injEq, Prod.mk.injEq] at h
  exact ⟨_, h.2.symm⟩

theorem memory_check {n : Nat} {u : TotpUser} {s c : String} :
    MemoryOnly (checkStep ext n u s c) := by
  intro i ch w b w' h
  simp only [checkStep, Option.some.injEq, Prod.mk.injEq] at h
  exact ⟨_, h.2.symm⟩

theorem memory_note {n : DateTime → Note} : MemoryOnly (noteStep n) := by
  intro i ch w b w' h
  simp only [noteStep, Option.some.injEq, Prod.mk.injEq] at h
  exact ⟨_, h.2.symm⟩

/-! ## The calls -/

theorem every_propagate {q : Query α} (h : q.run.Every φ) :
    q.propagate.run.Every φ :=
  Prog.Every.bind (fun r => by cases r <;> trivial) h

theorem every_map {p : Service α} {f : α → β} (h : p.run.Every φ) :
    (f <$> p).run.Every φ :=
  Prog.Every.bind (fun r => by cases r <;> trivial) h

namespace Confirms

variable (h : Confirms ext φ)

include h

theorem findUserById {id : Uuid} : (findUserById id).propagate.run.Every φ :=
  every_propagate h.select

theorem getPendingTotpSecret {id : Uuid} :
    (getPendingTotpSecret id).propagate.run.Every φ :=
  every_propagate h.select

theorem confirmTx {u : Uuid} {secret : String} {codes : List String} :
    (confirmTx ext u secret codes).run.Every φ := by
  refine Prog.Every.except_bind (every_propagate (h.activate _ _))
    fun enrolment => ?_
  refine Prog.Every.except_bind (every_propagate (h.invalidate _)) fun _ => ?_
  exact Prog.Every.except_bind (every_propagate (h.create _ _ _))
    fun _ => trivial

theorem verifyCodeNow {secret code : String} :
    (verifyCodeNow ext secret code).Every φ :=
  Prog.Every.step (h.look fun hf => by simp_all)

theorem confirm2fa {u : Uuid} {code : String} :
    (confirm2fa ext u code).run.Every φ := by
  refine Prog.Every.except_bind h.findUserById fun o => ?_
  cases o with
  | none => trivial
  | some user =>
      dsimp only
      split
      · trivial
      refine Prog.Every.except_bind h.getPendingTotpSecret fun pending => ?_
      cases pending with
      | none => trivial
      | some secret =>
          refine Prog.Every.except_bind (Prog.Every.lift h.verifyCodeNow)
            fun valid => ?_
          split
          · trivial
          · exact Prog.Every.except_bind (Prog.Every.step h.issue) fun codes =>
              h.block h.confirmTx

end Confirms

namespace Grants

variable (h : Grants ext φ)

include h

theorem setup2fa {u : Uuid} {issuer accountName : String} :
    (setup2fa ext u issuer accountName).run.Every φ := by
  refine Prog.Every.except_bind h.findUserById fun o => ?_
  cases o with
  | none => trivial
  | some user =>
      dsimp only
      split
      · trivial
      refine Prog.Every.except_bind h.getPendingTotpSecret fun pending => ?_
      cases pending with
      | some existing =>
          dsimp only
          split <;> trivial
      | none =>
          refine Prog.Every.except_bind (Prog.Every.step (h.look fun hf => ?_))
            fun r => ?_
          · split at hf <;> simp_all
          · cases r with
            | error e => trivial
            | ok setup =>
                exact Prog.Every.except_bind
                  (every_propagate (h.setPending _ _)) fun _ => trivial

theorem stepUpRecovery {n : Nat} {user : TotpUser} {code : String} :
    (stepUpRecovery ext n user code).run.Every φ := by
  refine Prog.Every.except_bind (every_propagate (h.consume _ _ _)) fun o => ?_
  cases o with
  | none => trivial
  | some row =>
      exact Prog.Every.except_bind (Prog.Every.lift
        (Prog.Every.step (h.burn _ _ _ _))) fun _ => trivial

theorem disableTx {u : Uuid} {a : Acceptance} :
    (disableTx u a).run.Every φ := by
  refine Prog.Every.except_bind (every_propagate (h.disable _ _)) fun _ => ?_
  exact Prog.Every.except_bind (every_propagate (h.invalidate _))
    fun _ => trivial

/-- The TOTP branch of a user who has a secret. -/
theorem stepUpTotp {n : Nat} {user : TotpUser} {code : String}
    (hmissing : ∀ u, φ (noteStep fun _ => .missingSecret u)) :
    (stepUpTotp ext n user code).run.Every φ := by
  unfold TwoFactor.stepUpTotp
  split
  · exact Prog.Every.except_bind (Prog.Every.lift (Prog.Every.step (hmissing _)))
      fun _ => trivial
  · refine Prog.Every.except_bind (Prog.Every.lift (Prog.Every.step (h.check _ _ _ _)))
      fun r => ?_
    cases r <;> trivial

theorem stepUp {u : Uuid} {code : String}
    (hmissing : ∀ u, φ (noteStep fun _ => .missingSecret u)) :
    (stepUp ext u code).run.Every φ := by
  refine Prog.Every.except_bind h.findUserById fun o => ?_
  cases o with
  | none => trivial
  | some user =>
      dsimp only
      split
      · trivial
      refine Prog.Every.except_bind (Prog.Every.lift (Prog.Every.step h.number))
        fun n => ?_
      split
      · exact h.stepUpRecovery
      · exact h.stepUpTotp hmissing

/-- Every step of every call. -/
theorem call {q : TotpCall}
    (hmissing : ∀ u, φ (noteStep fun _ => .missingSecret u)) :
    (q.body ext).Every φ := by
  cases q with
  | setup2fa u issuer accountName => exact every_map h.setup2fa
  | confirm2fa u code => exact every_map h.confirm2fa
  | verify2faCode u code => exact every_map (every_map (h.stepUp hmissing))
  | disable2fa u code =>
      refine every_map (Prog.Every.except_bind h.findUserById fun o => ?_)
      cases o with
      | none => trivial
      | some user =>
          dsimp only
          split
          · trivial
          · exact Prog.Every.except_bind (h.stepUp hmissing) fun a =>
              h.block h.disableTx
  | cleanupExpiredDrafts => exact every_map (every_propagate h.cleanup)

end Grants

end DpopAuth.Ports.TwoFactorSteps
