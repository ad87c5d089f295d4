import DpopAuth.Ports.TwoFactorSteps

/-!
# The columns of two-factor authentication

`Consistent` relates the five columns of a user's row.  Each of the `UPDATE`
statements keeps it, because of its own condition and of what the others have
kept; so it holds of every version of every row, however the statements are
interleaved.  A user that is read with 2FA on has a secret, and
`verify_2fa_code` never looks for one in vain.

## Main results

* `columns_consistent` — every reachable state.
-/

namespace DpopAuth.Ports.TwoFactorColumns

open DpopAuth.Verified.Resumption
open DpopAuth.Verified.RelyGuarantee
open DpopAuth.Verified.RowVersions
open DpopAuth.Verified.Transactions
open DpopAuth.Verified.StepRules
open DpopAuth.Ports.Errors
open DpopAuth.Ports.Schema
open DpopAuth.Ports.TwoFactor
open DpopAuth.Ports.TwoFactorSteps

variable {ext : TotpExternals} {i : Nat} {w w' : TotpSrv} {α β : Type}

/-- The columns of one row fit together. -/
structure Consistent (u : UserRow) : Prop where
  secret : u.totpEnabled = true ↔ u.totpSecret ≠ none
  since : u.totpEnabled = true ↔ u.totpEnabledAt ≠ none
  draft : u.totpPendingSecret = none ↔ u.totpPendingAt = none
  settled : u.totpEnabled = true → u.totpPendingSecret = none

/-- Every row version is consistent. -/
abbrev ConsistentRow : ∀ t, TotpRow t → Prop
  | .users, u => Consistent u.toUserRow
  | .recoveryCodes, _ => True

theorem Registered.consistent {u : UserRow} (h : Registered u) :
    Consistent u := by
  constructor <;> simp [h.totpSecret, h.totpEnabled, h.totpEnabledAt,
    h.totpPendingSecret, h.totpPendingAt]

/-- A draft is stored only where 2FA is off. -/
theorem Consistent.setPending {u : UserRow} {s : String} {now : DateTime}
    (h : Consistent u) (hoff : u.totpEnabled = false) :
    Consistent { u with
      totpPendingSecret := some s, totpPendingAt := some now } := by
  refine ⟨h.secret, h.since, by simp, fun hon => ?_⟩
  exact absurd hon (by simp [hoff])

/-- Activation promotes a draft that is there. -/
theorem Consistent.activate {u : UserRow} {now : DateTime}
    (hdraft : u.totpPendingSecret.isSome = true) :
    Consistent { u with
      totpSecret := u.totpPendingSecret
      totpEnabled := true
      totpEnabledAt := some now
      totpPendingSecret := none
      totpPendingAt := none } := by
  refine ⟨?_, by simp, by simp, fun _ => rfl⟩
  simpa [Option.isSome_iff_ne_none] using hdraft

theorem Consistent.disable {u : UserRow} :
    Consistent { u with
      totpSecret := none
      totpEnabled := false
      totpEnabledAt := none
      totpPendingSecret := none
      totpPendingAt := none } := by
  constructor <;> simp

theorem Consistent.cleanup {u : UserRow} (h : Consistent u) :
    Consistent { u with totpPendingSecret := none, totpPendingAt := none } :=
  ⟨h.secret, h.since, by simp, fun _ => rfl⟩

/-! ## The statements -/

/-- The rows are consistent, and no step-up has missed a secret. -/
structure Columns (w : TotpSrv) : Prop where
  rows : Versions ConsistentRow w
  found : ∀ u, Note.missingSecret u ∉ w.mem.log

/-- Keeping the columns. -/
def KeepColumns (w w' : TotpSrv) : Prop := Columns w → Columns w'

/-- An action that keeps the columns. -/
abbrev Keeps (i : Nat) (f : Action TotpSrv Chance β) : Prop :=
  Within i KeepColumns f

/-- What a statement respects. -/
abbrev Statement (w w' : TotpSrv) : Prop :=
  KeepVersions ConsistentRow w w' ∧ SameMemory w w'

theorem respects_statement : Respects i Statement :=
  respects_versions.and respects_memory

theorem Statement.columns (h : Statement w w') : KeepColumns w w' := by
  intro hw
  refine ⟨h.1 hw.rows, ?_⟩
  rw [h.2.1]
  exact hw.found

theorem respects_columns : Respects i KeepColumns :=
  respects_statement.weaken (fun h => Statement.columns h)
    fun h h' hw => h' (h hw)

theorem keeps_statement {p : TotpProg α} (h : p.Every (Within i Statement)) :
    p.Every (Keeps i) := by
  refine Prog.Every.mono (fun {β f} (hf : Within i Statement f) => ?_) h
  intro ch w b w' hstep
  exact Statement.columns (hf hstep)

/-- An `UPDATE` of users that keeps a row consistent. -/
theorem keeps_users {pt : Place} {p : Int → TotpUser → Bool}
    {f : Int → TotpUser → TotpUser}
    (hf : ∀ now u, Consistent u.toUserRow → p now u = true →
      Consistent (f now u).toUserRow) :
    (update (ω := TotpMemory) (ν := Entropy) pt TotpTbl.users p f).Every
      (Keeps i) :=
  keeps_statement (within_update respects_statement fun hvisit =>
    ⟨versions_visit (fun r hr hp => hf _ r hr hp) hvisit, rfl, rfl⟩)

/-- An `UPDATE` of recovery codes. -/
theorem keeps_codes {pt : Place} {p : Int → IssuedCode → Bool}
    {f : Int → IssuedCode → IssuedCode} :
    (update (ω := TotpMemory) (ν := Entropy) pt TotpTbl.recoveryCodes p
      f).Every (Keeps i) :=
  keeps_statement (within_update respects_statement fun hvisit =>
    ⟨versions_visit (fun _ _ _ => trivial) hvisit, rfl, rfl⟩)

/-- A step that touches neither the rows nor the log. -/
theorem keeps_memory {f : Action TotpSrv Chance β} (h : MemoryOnly f)
    (hlog : ∀ {ch w b w'}, f i ch w = some (b, w') →
      ∀ u, Note.missingSecret u ∈ w'.mem.log →
        Note.missingSecret u ∈ w.mem.log) : Keeps i f := by
  intro ch w b w' hf hw
  have hfound : ∀ u, Note.missingSecret u ∉ w'.mem.log :=
    fun u hu => hw.found u (hlog hf u hu)
  obtain ⟨m, rfl⟩ := h hf
  exact ⟨hw.rows, hfound⟩

theorem checkTotp_missing {n : Nat} {v : TotpUser} {s c : String} {u : Uuid}
    (h : Note.missingSecret u ∈ (checkTotp ext n v s c w).2.log) :
    Note.missingSecret u ∈ w.mem.log := by
  unfold checkTotp at h
  split at h
  · exact h
  · dsimp only at h
    split at h <;> simpa using h

/-- Every step of a call keeps the columns, as long as no secret is missed. -/
theorem grants_columns : Grants ext (Keeps i) where
  select := keeps_statement (within_select respects_statement)
  setPending u s := by
    refine Prog.Every.except_bind (keeps_users fun now u hu hp => ?_)
      fun _ => trivial
    simp only [Bool.and_eq_true, Bool.not_eq_true'] at hp
    exact hu.setPending hp.1.2
  activate u s := by
    refine Prog.Every.except_bind (keeps_users fun now u hu hp => ?_)
      fun _ => trivial
    simp only [Bool.and_eq_true] at hp
    exact .activate hp.1.2
  disable u a :=
    Prog.Every.except_bind (keeps_users fun _ _ _ _ => .disable)
      fun _ => trivial
  create u hs e := by
    unfold createRecoveryCodes
    split
    · trivial
    · exact keeps_statement (within_insert respects_statement fun hinsert =>
        ⟨versions_insert (fun _ _ => trivial) hinsert, rfl, rfl⟩)
  consume n u h := Prog.Every.except_bind keeps_codes fun _ => trivial
  invalidate u := Prog.Every.except_bind keeps_codes fun _ => trivial
  cleanup := Prog.Every.except_bind
    (keeps_users fun _ _ hu _ => hu.cleanup) fun _ => trivial
  block hregion := within_transaction respects_columns hregion
  look hf := fun ch w b w' hstep => by
    rw [hf hstep]
    exact fun h => h
  issue := keeps_memory memory_issue fun hf u hu => by
    rcases issueStep_cases hf with ⟨bs, -, -, -, -, -, rfl⟩ | ⟨-, rfl⟩
    · exact hu
    · exact hu
  number := keeps_memory memory_number fun hf u hu => by
    simp only [numberStep, Option.some.injEq, Prod.mk.injEq] at hf
    rw [← hf.2] at hu
    exact hu
  check n v s c := keeps_memory memory_check fun hf u hu => by
    simp only [checkStep, Option.some.injEq, Prod.mk.injEq] at hf
    rw [← hf.2] at hu
    exact checkTotp_missing hu
  burn _ _ _ _ := keeps_memory memory_note fun hf u hu => by
    simp only [noteStep, Option.some.injEq, Prod.mk.injEq] at hf
    rw [← hf.2] at hu
    simpa using hu

/-! ## A secret for every enrolled user -/

variable {F : Place → Chance → TotpSrv → TotpSrv → Prop} {φ : Prop}

theorem outline_keeps {p : TotpProg α} (h : p.Every (Keeps i)) :
    Outline (keeping Columns) F i p (fun _ => φ) fun _ _ => φ :=
  outline_keeping h

theorem outline_fallible {p : Service α} (h : p.run.Every (Keeps i)) :
    Outline (keeping Columns) F i p.run (fun _ => φ)
      (exceptPost (fun _ _ => φ) fun _ => True) := by
  refine (outline_keeping h).post fun r _ _ hr => ?_
  cases r with
  | error e => trivial
  | ok a => exact hr

/-- A user that is read is consistent. -/
theorem findUserById_outline {id : Uuid} :
    Outline (keeping Columns) F i (findUserById id).propagate.run
      (fun _ => True) (exceptPost
        (fun o _ => ∀ u, o = some u → Consistent u.toUserRow)
        fun _ => True) := by
  have hread : Outline (keeping Columns) F i (findUserById id).run
      (fun _ => True) (exceptPost
        (fun o _ => ∀ u, o = some u → Consistent u.toUserRow)
        fun _ => True) := by
    refine Outline.step (Stable.exceptPost (fun _ => .const _) (.const _))
      fun {w ch r w'} hw _ hstep _ => ?_
    have hkeep : Columns w' :=
      Statement.columns ((within_select respects_statement).1 hstep) hw
    refine ⟨hkeep, trivial, ?_⟩
    rcases statement_cases hstep with ⟨-, -, e, rfl⟩ | ⟨-, -, -, e, rfl⟩ |
      ⟨-, hrun⟩
    · trivial
    · trivial
    · simp only [Option.some.injEq, Prod.mk.injEq] at hrun
      rw [← hrun.1]
      intro u hu
      have hin := List.mem_of_find?_eq_some hu
      have hopen : Versions ConsistentRow (w.openStatement i Place.plain) :=
        respects_versions.opens w Place.plain hw.rows
      exact hopen.view (t := TotpTbl.users) hin
  refine Outline.bind (fun r => ?_) hread
  cases r with
  | error e => exact fun _ _ _ => trivial
  | ok o => exact fun _ _ h => h

/-- The secret of an enrolled user is never missing. -/
theorem stepUpTotp_outline {n : Nat} {user : TotpUser} {code : String}
    (hon : user.totpEnabled = true) (hrow : Consistent user.toUserRow) :
    Outline (keeping Columns) F i (stepUpTotp ext n user code).run
      (fun _ => True) (exceptPost (fun _ _ => True) fun _ => True) := by
  have hsecret : user.totpSecret ≠ none := hrow.secret.mp hon
  refine outline_fallible ?_
  unfold stepUpTotp
  split
  · rename_i hnone
    exact absurd hnone hsecret
  · refine Prog.Every.except_bind (Prog.Every.lift
      (Prog.Every.step (grants_columns.check _ _ _ _))) fun r => ?_
    cases r <;> trivial

theorem stepUp_outline {u : Uuid} {code : String} :
    Outline (keeping Columns) F i (stepUp ext u code).run (fun _ => True)
      (exceptPost (fun _ _ => True) fun _ => True) := by
  have hgrants : Grants ext (Keeps i) := grants_columns
  refine Outline.except_bind findUserById_outline fun o => ?_
  cases o with
  | none => exact Outline.throw fun _ _ _ => trivial
  | some user =>
      refine Outline.weaken (P := fun _ => Consistent user.toUserRow ∧ True)
        (fun _ _ h => ⟨h user rfl, trivial⟩) (Outline.of_prop fun hrow => ?_)
      dsimp only
      split
      · exact Outline.throw fun _ _ _ => trivial
      rename_i hon
      refine Outline.except_bind (R := fun _ _ => True) (outline_fallible
        (Prog.Every.lift (Prog.Every.step hgrants.number))) fun n => ?_
      split
      · exact outline_fallible hgrants.stepUpRecovery
      · exact stepUpTotp_outline (by simpa using hon) hrow

theorem outline_map {p : Service α} {f : α → β}
    (h : Outline (keeping Columns) F i p.run (fun _ => True)
      (exceptPost (fun _ _ => True) fun _ => True)) :
    Outline (keeping Columns) F i (f <$> p).run (fun _ => True)
      (exceptPost (fun _ _ => True) fun _ => True) :=
  Outline.except_map (R := fun _ _ => True) h

theorem call_outline {q : TotpCall} :
    Outline (keeping Columns) F i (q.body ext) (fun _ => True)
      fun _ _ => True := by
  have hweak : ∀ {p : Service TotpReply}, Outline (keeping Columns) F i p.run
      (fun _ => True) (exceptPost (fun _ _ => True) fun _ => True) →
      Outline (keeping Columns) F i p.run (fun _ => True) fun _ _ => True :=
    fun h => h.post fun _ _ _ _ => trivial
  have hgrants : Grants ext (Keeps i) := grants_columns
  cases q with
  | setup2fa u issuer accountName =>
      exact outline_keeps (every_map hgrants.setup2fa)
  | confirm2fa u code => exact outline_keeps (every_map hgrants.confirm2fa)
  | verify2faCode u code =>
      exact hweak (outline_map (outline_map stepUp_outline))
  | disable2fa u code =>
      refine hweak (outline_map ?_)
      refine Outline.except_bind (R := fun _ _ => True) (outline_fallible
        hgrants.findUserById) fun o => ?_
      cases o with
      | none => exact Outline.throw fun _ _ _ => trivial
      | some user =>
          dsimp only
          split
          · exact Outline.throw fun _ _ _ => trivial
          · exact Outline.except_bind stepUp_outline fun a =>
              outline_fallible (hgrants.block hgrants.disableTx)
  | cleanupExpiredDrafts =>
      exact outline_keeps (every_map (every_propagate hgrants.cleanup))

theorem columns_start {users : List UserRow} {clock : DateTime}
    (h : ∀ u ∈ users, Registered u) : Columns (startState users clock) := by
  refine ⟨fun t c hc => ?_, fun u hu => (by cases hu)⟩
  cases t with
  | users =>
      obtain ⟨u, hu, rfl⟩ := List.mem_map.mp hc
      refine ⟨fun r hr => ?_, fun j v hv => (by cases hv)⟩
      cases hr
      exact Registered.consistent (h u hu)
  | recoveryCodes => cases hc

/-- **The 2FA columns stay consistent.**  In every state any run reaches from
freshly registered users, each committed row is consistent, and no step-up has
found 2FA on without a secret. -/
theorem columns_consistent (ext : TotpExternals) (users : List UserRow)
    (clock : DateTime) (c : TotpConfig) (hfresh : ∀ u ∈ users, Registered u)
    (hrun : (totpSystem ext).Reaches .all (Config.start (startState users clock))
      c) :
    (∀ u ∈ (c.shared.db .users).rows, Consistent u.toUserRow) ∧
    ∀ id, Note.missingSecret id ∉ c.shared.mem.log := by
  have hcolumns : Columns c.shared := by
    refine keeping_run (fun i q => call_outline) (fun {i w} h => ?_)
      (fun {d w w'} h htick => ?_) (columns_start hfresh) hrun
    · exact respects_columns.drops w h
    · cases htick
      exact ⟨h.rows, h.found⟩
  refine ⟨fun u hu => ?_, hcolumns.found⟩
  obtain ⟨cell, hcell, hrow⟩ := Table.mem_rows.mp hu
  exact (hcolumns.rows .users cell hcell).1 u hrow

example : (enrolled.shared.db .users).rows.map (fun u => u.totpSecret) =
    [some sampleSecret] := by decide +kernel

theorem columns_consistent_enrolled :
    (∀ u ∈ (enrolled.shared.db .users).rows, Consistent u.toUserRow) ∧
    ∀ id, Note.missingSecret id ∉ enrolled.shared.mem.log := by
  refine columns_consistent sampleExternals [sampleUser 0] 0 enrolled
    (fun u hu => ?_) enrolled_reaches
  rw [List.mem_singleton.mp hu]
  exact ⟨rfl, rfl, rfl, rfl, rfl⟩

end DpopAuth.Ports.TwoFactorColumns
