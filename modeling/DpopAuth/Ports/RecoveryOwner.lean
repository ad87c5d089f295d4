import DpopAuth.Ports.RecoveryCodes

/-!
# Nobody touches the recovery codes of another user

A session that serves a call of a user writes recovery codes of this user only.
What it holds is `HoldsOnly` this user's, and so its steps are `Scoped`: the
committed rows of all other users stay as they are.

## Main results

* `scoped_visit`, `scoped_insert` — the statements.
* `call_scoped` — every call.
* `others_keep` — runs in which no call of the user takes a step.
-/

namespace DpopAuth.Ports.RecoveryOwner

open DpopAuth.Verified.Resumption
open DpopAuth.Verified.RelyGuarantee
open DpopAuth.Verified.RowVersions
open DpopAuth.Verified.Transactions
open DpopAuth.Verified.TransactionRules
open DpopAuth.Verified.StepRules
open DpopAuth.Verified.RowHistories
open DpopAuth.Verified.TtlCache
open DpopAuth.Ports.Errors
open DpopAuth.Ports.Schema
open DpopAuth.Ports.TwoFactor
open DpopAuth.Ports.TwoFactorSteps
open DpopAuth.Ports.RecoveryCodes

variable {ext : TotpExternals} {i j k : Nat} {u : Uuid} {o : Option Uuid}
  {w w' : TotpSrv} {α β : Type}

/-! ## Steps for one user -/

/-- The user a call works for. -/
def userOf : TotpCall → Option Uuid
  | .setup2fa u _ _ => some u
  | .confirm2fa u _ => some u
  | .verify2faCode u _ => some u
  | .disable2fa u _ => some u
  | .cleanupExpiredDrafts => none

/-- The row belongs to the user. -/
abbrev IsOf (o : Option Uuid) (r : IssuedCode) : Prop := some r.userId = o

/-- What session `i` has written belongs to the user, before and after. -/
def HoldsOnly (i : Nat) (o : Option Uuid) (w : TotpSrv) : Prop :=
  ∀ c ∈ codes w, ∀ v, c.pending = some (i, v) →
    IsOf o v ∧ ∀ r, c.committed = some r → IsOf o r

/-- The replay entries of other users answer as before. -/
def KeepsEntries (o : Option Uuid) (w w' : TotpSrv) : Prop :=
  ∀ user spelled now, some user ≠ o →
    w'.mem.replayCache.get totpReplayTtl now (user, spelled) =
      w.mem.replayCache.get totpReplayTtl now (user, spelled)

/-- The committed codes and the replay entries of other users are the same. -/
structure KeepsOthers (o : Option Uuid) (w w' : TotpSrv) : Prop where
  rows : ∀ k r, committedAt (codes w) k = some r → ¬ IsOf o r →
    committedAt (codes w') k = some r
  entries : KeepsEntries o w w'

/-- A step of a session that works for the user. -/
abbrev Scoped (i : Nat) (o : Option Uuid) (w w' : TotpSrv) : Prop :=
  HoldsOnly i o w → HoldsOnly i o w' ∧ KeepsOthers o w w'

theorem keepsEntries_same (h : w'.mem.replayCache = w.mem.replayCache) :
    KeepsEntries o w w' := fun _ _ _ _ => by rw [h]

theorem scoped_entries (hdb : codes w' = codes w) (h : KeepsEntries o w w') :
    Scoped i o w w' := by
  intro hw
  unfold HoldsOnly
  rw [hdb]
  exact ⟨hw, fun _ _ hr _ => hdb ▸ hr, h⟩

theorem scoped_same (hdb : codes w' = codes w) (hmem : w'.mem = w.mem) :
    Scoped i o w w' :=
  scoped_entries hdb (keepsEntries_same (by rw [hmem]))

theorem scoped_rollback (hdb : codes w' = (codes w).rollback i)
    (hmem : w'.mem = w.mem) : Scoped i o w w' := by
  intro h
  unfold HoldsOnly
  rw [hdb]
  refine ⟨fun c hc v hv => ?_, fun k r hr _ => ?_,
    keepsEntries_same (by rw [hmem])⟩
  · have hheld : c.heldBy i = true := by simp [Cell.heldBy, hv]
    have hnone := Table.own_eq_nil.mp (Table.own_rollback_self i (codes w)) c hc
    rw [hheld] at hnone
    cases hnone
  · rw [hdb, committedAt_rollback]
    exact hr

theorem scoped_commit (hdb : codes w' = (codes w).commit i)
    (hmem : w'.mem = w.mem) : Scoped i o w w' := by
  intro h
  unfold HoldsOnly
  rw [hdb]
  refine ⟨fun c hc v hv => ?_, fun k r hr hother => ?_,
    keepsEntries_same (by rw [hmem])⟩
  · have hheld : c.heldBy i = true := by simp [Cell.heldBy, hv]
    have hnone := Table.own_eq_nil.mp (Table.own_commit_self i (codes w)) c hc
    rw [hheld] at hnone
    cases hnone
  · obtain ⟨c, hc, hcr⟩ := committedAt_eq.mp hr
    rw [hdb, committedAt_commit, hc]
    show (c.commit i).committed = some r
    -- a row of another user is not one the session has written
    have hnot : c.heldBy i = false := by
      obtain ⟨x, _ | ⟨l, y⟩⟩ := c
      · rfl
      · by_cases hl : l = i
        · subst hl
          have hown := (h _ (List.mem_of_getElem? hc) y rfl).2 r hcr
          exact absurd hown hother
        · simp [Cell.heldBy, hl]
    rw [Cell.commit_of_not_heldBy hnot]
    exact hcr

theorem respects_scoped : Respects i (Scoped i o) where
  refl _ := scoped_same rfl rfl
  trans h h' := fun hu => by
    obtain ⟨hv, hkeep⟩ := h hu
    obtain ⟨hw, hkeep'⟩ := h' hv
    exact ⟨hw, fun k r hr hother =>
        hkeep'.rows k r (hkeep.rows k r hr hother) hother,
      fun user spelled now hne => (hkeep'.entries user spelled now hne).trans
        (hkeep.entries user spelled now hne)⟩
  opens w pt := by
    unfold World.openStatement
    split <;> exact scoped_same rfl rfl
  fails _ := scoped_rollback rfl rfl
  completes w := by
    unfold World.completeStatement
    split
    · exact scoped_commit rfl rfl
    · exact scoped_same rfl rfl
  begins _ := scoped_same rfl rfl
  drops _ := scoped_rollback rfl rfl
  commits _ _ := scoped_commit rfl rfl

/-! ## The statements -/

/-- One visit of an `UPDATE` that looks for the user's rows. -/
theorem scoped_visit {p : IssuedCode → Bool} {f : IssuedCode → IssuedCode}
    (hp : ∀ r, p r = true → IsOf o r) (hf : ∀ r, (f r).userId = r.userId)
    {x : Table IssuedCode} {a : Option IssuedCode}
    (hvisit : (codes w).visit i p f k = some (a, x)) :
    Scoped i o w (w.setTable .recoveryCodes x) := by
  have hset : codes (w.setTable .recoveryCodes x) = x := by
    simp [codes, World.setTable]
  rcases Table.visit_set hvisit with ⟨-, rfl, -⟩ |
    ⟨c, r, hc, -, hseen, hpr, -, rfl⟩
  · exact scoped_same hset rfl
  intro h
  have hr : IsOf o r := hp r hpr
  unfold HoldsOnly
  rw [hset]
  refine ⟨fun d hd v hv => ?_, fun l s hs _ => ?_, keepsEntries_same rfl⟩
  · rcases List.mem_or_eq_of_mem_set hd with hold | rfl
    · exact h d hold v hv
    · simp only [Cell.write_pending, Option.some.injEq, Prod.mk.injEq,
        true_and] at hv
      subst hv
      refine ⟨?_, fun s hs => ?_⟩
      · show some (f r).userId = o
        rw [hf]
        exact hr
      · rw [Cell.write_committed] at hs
        obtain ⟨y, _ | ⟨l, z⟩⟩ := c
        · obtain rfl : r = s := Option.some.inj (hseen.symm.trans hs)
          exact hr
        · by_cases hl : l = i
          · subst hl
            exact (h _ (List.mem_of_getElem? hc) z rfl).2 s hs
          · simp only [Cell.seenBy, hl, if_false] at hseen
            obtain rfl : r = s := Option.some.inj (hseen.symm.trans hs)
            exact hr
  · rw [hset]
    obtain ⟨d, hd, hds⟩ := committedAt_eq.mp hs
    by_cases hkl : k = l
    · subst hkl
      obtain rfl : c = d := Option.some.inj (hc.symm.trans hd)
      refine committedAt_eq.mpr ⟨_, List.getElem?_set_self
        (List.getElem?_eq_some_iff.mp hc).1, ?_⟩
      rw [Cell.write_committed]
      exact hds
    · exact committedAt_eq.mpr ⟨d, by rw [List.getElem?_set_ne hkl]; exact hd, hds⟩

/-- The rows of an `INSERT` belong to the user. -/
theorem scoped_insert {hashes : List String} {e : Nat} {x : Table IssuedCode}
    (hinsert : insertRows i IssuedCode.dup (newCodes u hashes e)
      (w.db TotpTbl.recoveryCodes) = some (.ok x)) :
    Scoped i (some u) w (w.setTable .recoveryCodes x) := by
  have hset : codes (w.setTable .recoveryCodes x) = x := by
    simp [codes, World.setTable]
  have hx := insertRows_ok hinsert
  intro h
  have hcodes := hset.trans hx
  unfold HoldsOnly
  rw [hcodes]
  refine ⟨fun c hc v hv => ?_, fun l r hr _ => ?_, keepsEntries_same rfl⟩
  · rcases List.mem_append.mp hc with hold | hnew
    · exact h c hold v hv
    · obtain ⟨row, hrow, rfl⟩ := List.mem_map.mp hnew
      obtain ⟨y, -, rfl⟩ := List.mem_map.mp hrow
      simp only [Cell.fresh, Option.some.injEq, Prod.mk.injEq, true_and] at hv
      subst hv
      exact ⟨rfl, fun r hr => by cases hr⟩
  · rw [hcodes]
    obtain ⟨c, hc, hcr⟩ := committedAt_eq.mp hr
    refine committedAt_eq.mpr ⟨c, ?_, hcr⟩
    rw [List.getElem?_append_left (List.getElem?_eq_some_iff.mp hc).1]
    exact hc

theorem every_select {f : Int → (∀ t, List (TotpRow t)) → β} :
    (Query.propagate (sql (select .plain f))).run.Every (Within i (Scoped i o)) :=
  every_propagate (within_select respects_scoped)

theorem every_users {pt : Place} {p : Int → TotpUser → Bool}
    {f : Int → TotpUser → TotpUser} {g : List TotpUser → Query α}
    (hg : ∀ rows, (g rows).run.Every (Within i (Scoped i o))) :
    (Query.propagate (sql (update pt TotpTbl.users p f) >>= g)).run.Every
      (Within i (Scoped i o)) :=
  every_propagate (Prog.Every.except_bind (within_update respects_scoped
    fun _ => scoped_same (by simp [codes, World.setTable]) rfl) hg)

theorem every_invalidate :
    (invalidateRecoveryCodesForUser u).propagate.run.Every
      (Within i (Scoped i (some u))) := by
  refine every_propagate (Prog.Every.except_bind (within_update respects_scoped
    fun hvisit => ?_) fun _ => trivial)
  apply scoped_visit _ _ hvisit
  · intro r hr
    simp only [Bool.and_eq_true, beq_iff_eq] at hr
    exact congrArg some hr.1
  · intro r
    rfl

theorem every_consume {n : Nat} {h : String} :
    (consumeRecoveryCode n u h).propagate.run.Every
      (Within i (Scoped i (some u))) := by
  refine every_propagate (Prog.Every.except_bind (within_update respects_scoped
    fun hvisit => ?_) fun _ => trivial)
  apply scoped_visit _ _ hvisit
  · intro r hr
    simp only [Bool.and_eq_true, beq_iff_eq] at hr
    exact congrArg some hr.1.1
  · intro r
    rfl

theorem every_create {hashes : List String} {e : Nat} :
    (createRecoveryCodes u hashes e).propagate.run.Every
      (Within i (Scoped i (some u))) := by
  refine every_propagate ?_
  unfold createRecoveryCodes
  split
  · trivial
  · exact within_insert respects_scoped fun hinsert => scoped_insert hinsert

/-- Steps on the memory touch no row. -/
theorem within_memory {f : Action TotpSrv Chance β} (h : MemoryOnly f)
    (hentries : ∀ ⦃i ch w b w'⦄, f i ch w = some (b, w') → KeepsEntries o w w') :
    Within i (Scoped i o) f := by
  intro ch w b w' hstep
  have hkeep := hentries hstep
  obtain ⟨m, rfl⟩ := h hstep
  exact scoped_entries rfl hkeep

theorem every_memory {f : Action TotpSrv Chance β} (h : MemoryOnly f)
    (hentries : ∀ ⦃i ch w b w'⦄, f i ch w = some (b, w') → KeepsEntries o w w') :
    (liftM (Prog.step (.plain : Place) f) : Service β).run.Every
      (Within i (Scoped i o)) :=
  Prog.Every.lift (Prog.Every.step (within_memory h hentries))

theorem every_note {n : DateTime → Note} :
    (liftM (Prog.step (.plain : Place) (noteStep n)) : Service Unit).run.Every
      (Within i (Scoped i o)) :=
  every_memory memory_note fun i ch w b w' h => by
    simp only [noteStep, Option.some.injEq, Prod.mk.injEq] at h
    exact keepsEntries_same (by rw [← h.2])

/-- `verify_totp_once` makes an entry for its user only. -/
theorem entries_check {n : Nat} {user : TotpUser} {secret code : String} :
    KeepsEntries (some user.id) w
      { w with mem := (checkTotp ext n user secret code w).2 } := by
  intro u spelled now hne
  have hkey : (u, spelled) ≠ (user.id, trim code) := fun heq =>
    hne (congrArg (fun k : Uuid × String => some k.1) heq)
  unfold checkTotp
  split
  · rfl
  · dsimp only [Cache.orInsert]
    split <;> dsimp only
    · split <;> rfl
    · split
      · exact Cache.get_insert_ne hkey () _
      · exact Cache.get_insert_ne hkey () _

/-! ## The transactions and the step-up -/

theorem every_confirmTx {secret : String} {cs : List String} :
    (inTransaction (confirmTx ext u secret cs)).run.Every
      (Within i (Scoped i (some u))) := by
  refine within_transaction respects_scoped ?_
  refine Prog.Every.except_bind (every_users fun _ => trivial) fun e => ?_
  exact Prog.Every.except_bind every_invalidate fun _ =>
    Prog.Every.except_bind every_create fun _ => trivial

theorem every_disableTx {a : Acceptance} :
    (inTransaction (disableTx u a)).run.Every
      (Within i (Scoped i (some u))) := by
  refine within_transaction respects_scoped ?_
  refine Prog.Every.except_bind (every_users fun _ => trivial) fun _ => ?_
  exact Prog.Every.except_bind every_invalidate fun _ => trivial

theorem every_stepUpRecovery {n : Nat} {user : TotpUser} {code : String} :
    (stepUpRecovery ext n user code).run.Every
      (Within i (Scoped i (some user.id))) := by
  refine Prog.Every.except_bind every_consume fun row => ?_
  cases row with
  | none => trivial
  | some row =>
      exact Prog.Every.except_bind every_note fun _ => trivial

theorem every_stepUpTotp {n : Nat} {user : TotpUser} {code : String} :
    (stepUpTotp ext n user code).run.Every
      (Within i (Scoped i (some user.id))) := by
  unfold stepUpTotp
  split
  · exact Prog.Every.except_bind every_note fun _ => trivial
  · refine Prog.Every.except_bind (every_memory memory_check
      fun i ch w b w' h => ?_) fun r => ?_
    · simp only [checkStep, Option.some.injEq, Prod.mk.injEq] at h
      rw [← h.2]
      exact entries_check
    · cases r <;> trivial

/-! ## The calls -/

theorem stable_holds : Stable codesLogic i (HoldsOnly i o) where
  thread hne _ _ hg h := by
    intro c hc v hv
    have hheld : c.heldBy i = true := by simp [Cell.heldBy, hv]
    obtain ⟨l, hl⟩ := List.mem_iff_getElem?.mp hc
    have hold := (hg.frame.held i (Ne.symm hne) .recoveryCodes l c hheld).mpr hl
    exact h c (List.mem_of_getElem? hold) v hv
  env _ _ he h := by
    unfold HoldsOnly codes
    rw [he.1]
    exact h

theorem holdsOnly_of_rest (h : AtRest i w) : HoldsOnly i o w := by
  intro c hc v hv
  have hheld : c.heldBy i = true := by simp [Cell.heldBy, hv]
  have hnone := Table.own_eq_nil.mp (h.own .recoveryCodes) c hc
  rw [hheld] at hnone
  cases hnone

/-- The steps of session `i` are known to be moves. -/
abbrev Moves (i : Nat) (F : Place → Chance → TotpSrv → TotpSrv → Prop) : Prop :=
  ∀ {pt ch w w'}, F pt ch w w' → Codes w' ∧ CodesMove i w w'

variable {F : Place → Chance → TotpSrv → TotpSrv → Prop}

/-- A program of a session that works for the user. -/
abbrev WorksFor (i : Nat) (o : Option Uuid)
    (F : Place → Chance → TotpSrv → TotpSrv → Prop) (p : TotpProg α) : Prop :=
  Outline (codesLogic.own i (KeepsOthers o)) F i p (HoldsOnly i o)
    fun _ => HoldsOnly i o

theorem works_map {p : Service α} {f : α → β} (h : WorksFor i o F p.run) :
    WorksFor i o F (f <$> p).run := by
  refine Outline.bind (fun r => ?_) h
  cases r <;> exact fun _ _ hs => hs

theorem works_bind {p : Service α} {k : α → Service β}
    (h : WorksFor i o F p.run) (rest : ∀ a, WorksFor i o F (k a).run) :
    WorksFor i o F (p >>= k).run := by
  refine Outline.bind (fun r => ?_) h
  cases r with
  | error e => exact fun _ _ hs => hs
  | ok a => exact rest a

section Outlines

variable (hF : Moves i F)

include hF

theorem works_scoped {p : TotpProg α}
    (h : p.Every (Within i (Scoped i o))) : WorksFor i o F p := by
  refine Outline.every_within stable_holds (fun _ hstep => hF hstep) ?_
  refine Prog.Every.mono (fun {β f} (hf : Within i (Scoped i o) f) => ?_) h
  intro ch w b w' hstep
  exact hf hstep

/-- A call whose first step looks the user up. -/
theorem works_found {k : Option TotpUser → Service α}
    (hnone : WorksFor i (some u) F (k none).run)
    (hrest : ∀ user, user.id = u → WorksFor i (some u) F (k (some user)).run) :
    WorksFor i (some u) F ((findUserById u).propagate >>= k).run := by
  have hfind : Outline (codesLogic.own i (KeepsOthers (some u))) F i
      (findUserById u).run (HoldsOnly i (some u))
      (fun r w => (∀ user, r = .ok (some user) → user.id = u) ∧
        HoldsOnly i (some u) w) := by
    refine Outline.step (fun _ => (Stable.const _).and
      (Stable.own_iff.mpr stable_holds)) fun {w ch r w'} _ hP hstep hstepF => ?_
    have hscoped : Scoped i (some u) w w' :=
      (within_select respects_scoped).1 hstep
    obtain ⟨hpost, hown⟩ := hscoped hP
    obtain ⟨hinv, hmove⟩ := hF hstepF
    refine ⟨hinv, ⟨hmove, fun _ => hown⟩, fun user huser => ?_, hpost⟩
    rcases statement_cases hstep with ⟨-, -, e, rfl⟩ | ⟨-, -, -, e, rfl⟩ |
      ⟨-, hrun⟩
    · cases huser
    · cases huser
    · simp only [Option.some.injEq, Prod.mk.injEq] at hrun
      rw [← hrun.1, Except.ok.injEq] at huser
      exact found_id huser
  refine Outline.bind (R := fun r w =>
    (∀ user, r = .ok (some user) → user.id = u) ∧ HoldsOnly i (some u) w)
    (fun r => ?_) (Outline.bind (fun r => ?_) hfind)
  · refine Outline.of_prop fun hid => ?_
    cases r with
    | error e => exact fun _ _ hs => hs
    | ok o =>
        cases o with
        | none => exact hnone
        | some user => exact hrest user (hid user rfl)
  · cases r with
    | error e => exact fun w _ h => ⟨fun user huser => (by cases huser), h.2⟩
    | ok o =>
        refine fun w _ h => ⟨fun user huser => h.1 user ?_, h.2⟩
        rw [Except.ok.injEq] at huser
        rw [huser]

theorem works_stepUp {code : String} :
    WorksFor i (some u) F (stepUp ext u code).run := by
  refine works_found hF (works_scoped hF trivial) fun user hid => ?_
  dsimp only
  split
  · exact works_scoped hF trivial
  refine works_bind (works_scoped hF (every_memory memory_number
    fun i ch w b w' h => ?_)) fun n => ?_
  · simp only [numberStep, Option.some.injEq, Prod.mk.injEq] at h
    exact keepsEntries_same (by rw [← h.2])
  rw [← hid]
  split
  · exact works_scoped hF every_stepUpRecovery
  · exact works_scoped hF every_stepUpTotp

/-- **Every call works for its user.** -/
theorem call_works {q : TotpCall} : WorksFor i (userOf q) F (q.body ext) := by
  cases q with
  | setup2fa u issuer accountName =>
      refine works_map (works_found hF (works_scoped hF trivial)
        fun user _ => works_scoped hF ?_)
      dsimp only
      split
      · trivial
      refine Prog.Every.except_bind every_select fun pending => ?_
      cases pending with
      | some existing =>
          dsimp only
          split <;> trivial
      | none =>
          refine Prog.Every.except_bind (Prog.Every.step ?_) fun r => ?_
          · intro ch w b w' hstep
            dsimp only at hstep
            split at hstep
            · simp only [Option.some.injEq, Prod.mk.injEq] at hstep
              rw [← hstep.2]
              exact scoped_same rfl rfl
            · cases hstep
          · cases r with
            | error e => trivial
            | ok setup =>
                exact Prog.Every.except_bind (every_users fun _ => trivial)
                  fun _ => trivial
  | confirm2fa u code =>
      refine works_map (works_found hF (works_scoped hF trivial)
        fun user hid => works_scoped hF ?_)
      dsimp only
      split
      · trivial
      refine Prog.Every.except_bind every_select fun pending => ?_
      cases pending with
      | none => trivial
      | some secret =>
          refine Prog.Every.except_bind (Prog.Every.lift (Prog.Every.step ?_))
            fun valid => ?_
          · intro ch w b w' hstep
            simp only [Option.some.injEq, Prod.mk.injEq] at hstep
            rw [← hstep.2]
            exact scoped_same rfl rfl
          split
          · trivial
          · refine Prog.Every.except_bind
              (Prog.Every.step (within_memory memory_issue
                fun i ch w r w' h => ?_)) fun cs => ?_
            · rcases issueStep_cases h with ⟨bs, -, -, -, -, -, rfl⟩ | ⟨-, rfl⟩ <;>
                exact keepsEntries_same rfl
            rw [hid]
            exact every_confirmTx
  | verify2faCode u code =>
      exact works_map (works_map (works_stepUp hF))
  | disable2fa u code =>
      refine works_map (works_found hF (works_scoped hF trivial)
        fun user hid => ?_)
      dsimp only
      split
      · exact works_scoped hF trivial
      refine works_bind (works_stepUp hF) fun a => works_scoped hF ?_
      rw [hid]
      exact every_disableTx
  | cleanupExpiredDrafts =>
      exact works_map (works_scoped hF (every_users fun _ => trivial))

end Outlines

/-! ## Runs -/

section Runs

variable {users : List UserRow} {clock : Int} {c d : TotpConfig}

/-- Every step of every run is a move. -/
abbrev moving : Filter Place TotpSrv Chance Nat TotpCall :=
  within allRuns codesLogic

theorem moves_moving {q : TotpCall} : Moves i (moving.run i q) :=
  fun h => h.2

theorem reaches_moving (h : GoodCodes c)
    (hrun : (totpSystem ext).Reaches allRuns c d) :
    (totpSystem ext).Reaches moving c d :=
  sound_within (M := totpSystem ext) (fun _ => stable_rest)
    (fun _ _ => call_outline) (fun hw _ => codes_cancel hw)
    (fun hw he _ => codes_env hw he) (fun h => h) (fun h => h) (fun h => h) h
    hrun

/-- What is known of every configuration, with the users of the calls. -/
abbrev GoodOwners (c : TotpConfig) : Prop :=
  GoodOwn codesLogic (fun q => KeepsOthers (userOf q)) moving AtRest
    (fun _ _ _ _ => True) c

theorem owners_reaches
    (hrun : (totpSystem ext).Reaches allRuns
      (Config.start (startState users clock)) d) :
    GoodOwners d := by
  have hstart : GoodCodes (Config.start (startState users clock)) := codes_start
  refine sound_own (M := totpSystem ext) (fun _ => stable_rest)
    (fun hw _ => codes_cancel hw) (fun hw he _ => codes_env hw he)
    (fun i q => ?_) ?_ (reaches_moving hstart hrun)
  · refine Outline.weaken (fun _ _ h => holdsOnly_of_rest h)
      ((call_works moves_moving).post fun _ _ _ _ => trivial)
  · exact ⟨hstart.inv, hstart.idle, fun i q p h => by cases h⟩

/-- Runs in which no call of the user takes a step. -/
def others (u : Uuid) : Filter Place TotpSrv Chance Nat TotpCall where
  run _ q _ _ _ _ := userOf q ≠ some u
  cancel _ _ := True
  env _ _ _ := True

/-- What belongs to the user is the same. -/
structure KeepsUser (u : Uuid) (w w' : TotpSrv) : Prop where
  rows : ∀ k r, committedAt (codes w) k = some r → r.userId = u →
    committedAt (codes w') k = some r
  entries : ∀ spelled now,
    w'.mem.replayCache.get totpReplayTtl now (u, spelled) =
      w.mem.replayCache.get totpReplayTtl now (u, spelled)

/-- One step of somebody else. -/
theorem others_step (h : GoodCodes c) (ho : GoodOwners c)
    (hstep : (totpSystem ext).Step (others u) c d) :
    KeepsUser u c.shared d.shared := by
  cases hstep with
  | call free => exact ⟨fun _ _ hr _ => hr, fun _ _ => rfl⟩
  | @run i q _ pt f next ch b s' stands takes allowed =>
      obtain ⟨P, -, hP, hout⟩ := h.stands i q _ stands
      obtain ⟨hinv, hmove, -⟩ := hout c.shared ch b s' h.inv hP takes trivial
      obtain ⟨P', -, hP', hown⟩ := ho.stands i q _ stands
      obtain ⟨-, ⟨-, hkeep⟩, -⟩ := hown c.shared ch b s' ho.inv hP' takes
        ⟨trivial, hinv, hmove⟩
      have hkept := hkeep rfl
      refine ⟨fun k r hr hu => hkept.rows k r hr fun heq => allowed ?_,
        fun spelled now => hkept.entries u spelled now (Ne.symm allowed)⟩
      rw [← heq, hu]
  | @cancel i q p stands allowed =>
      refine ⟨fun k r hr _ => ?_, fun _ _ => rfl⟩
      show committedAt ((codes c.shared).rollback i) k = some r
      rw [committedAt_rollback]
      exact hr
  | env takes allowed =>
      cases takes
      exact ⟨fun _ _ hr _ => hr, fun _ _ => rfl⟩

/-- **Nobody else touches what belongs to the user.** -/
theorem others_keep
    (hrun : (totpSystem ext).Reaches allRuns
      (Config.start (startState users clock)) c)
    (hothers : (totpSystem ext).Reaches (others u) c d) :
    KeepsUser u c.shared d.shared := by
  have hboth : (totpSystem ext).Reaches allRuns
      (Config.start (startState users clock)) d ∧
      KeepsUser u c.shared d.shared := by
    induction hothers with
    | refl => exact ⟨hrun, fun _ _ hr _ => hr, fun _ _ => rfl⟩
    | tail _ hstep ih =>
        obtain ⟨hreach, hkept⟩ := ih
        have hgood := (codes_reaches codes_start hreach).1
        have hnext := others_step hgood (owners_reaches hreach) hstep
        refine ⟨hreach.trans (System.Reaches.mono (fun _ => trivial)
          (fun _ => trivial) (fun _ => trivial) (.single hstep)),
          fun k r hr hu => hnext.rows k r (hkept.rows k r hr hu) hu,
          fun spelled now => ?_⟩
        exact (hnext.entries spelled now).trans (hkept.entries spelled now)
  exact hboth.2

end Runs

end DpopAuth.Ports.RecoveryOwner
