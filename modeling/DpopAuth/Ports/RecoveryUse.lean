import DpopAuth.Ports.RecoveryOwner
import DpopAuth.Ports.RecoverySpelling

/-!
# Recovery codes: once, for their owner, and not after their enrolment

With the life of the rows known (`RecoveryCodes`), it remains to follow three
kinds of calls.  A `confirm_2fa` that returns its codes has committed their
rows; a `confirm_2fa` or `disable_2fa` that returns `Ok` has left no row of the
user unused that was there when it started; and a session only ever holds rows
of the user it works for.

## Main results

* `invalidate_outline` — every row of the user is marked.
* `confirmTx_outline`, `disableTx_outline` — the transactions.
* `recovery_codes` — every run.
-/

namespace DpopAuth.Ports.RecoveryUse

open DpopAuth.Verified.Resumption
open DpopAuth.Verified.RelyGuarantee
open DpopAuth.Verified.RowVersions
open DpopAuth.Verified.Transactions
open DpopAuth.Verified.TransactionRules
open DpopAuth.Verified.StepRules
open DpopAuth.Verified.RowHistories
open DpopAuth.Ports.Errors
open DpopAuth.Ports.Schema
open DpopAuth.Ports.TwoFactor
open DpopAuth.Ports.TwoFactorSteps
open DpopAuth.Ports.RecoveryCodes
open DpopAuth.Ports.RecoveryOwner
open DpopAuth.Ports.RecoverySpelling

variable {ext : TotpExternals} {i j k N : Nat} {u : Uuid} {K : List Nat}
  {w w' : TotpSrv} {α β : Type}

/-! ## The logic -/

/-- Row `k` is committed and belongs to the user. -/
def Owned (u : Uuid) (k : Nat) (w : TotpSrv) : Prop :=
  ∃ r, committedAt (codes w) k = some r ∧ r.userId = u

/-- Row `k` is used. -/
def Used (k : Nat) (w : TotpSrv) : Prop :=
  ∃ r, committedAt (codes w) k = some r ∧ r.usedAt ≠ none

/-- There is a row of the user with this hash. -/
def Stored (u : Uuid) (h : String) (w : TotpSrv) : Prop :=
  ∃ k r, committedAt (codes w) k = some r ∧ r.userId = u ∧ r.codeHash = h

theorem Owned.evolves (h : Owned u k w) (he : Evolves CodeStep w w') :
    Owned u k w' := by
  obtain ⟨r, hr, hu⟩ := h
  obtain ⟨r', hr', hstep⟩ := he .recoveryCodes k r hr
  exact ⟨r', hr', hstep.userId.trans hu⟩

theorem Used.evolves (h : Used k w) (he : Evolves CodeStep w w') :
    Used k w' := by
  obtain ⟨r, hr, hused⟩ := h
  obtain ⟨r', hr', hstep⟩ := he .recoveryCodes k r hr
  obtain rfl : r' = r := hstep.final hused
  exact ⟨r', hr', hused⟩

theorem Stored.evolves {h : String} (hs : Stored u h w)
    (he : Evolves CodeStep w w') : Stored u h w' := by
  obtain ⟨k, r, hr, hu, hh⟩ := hs
  obtain ⟨r', hr', hstep⟩ := he .recoveryCodes k r hr
  exact ⟨k, r', hr', hstep.userId.trans hu, hstep.codeHash.trans hh⟩

/-- What is known from the start of a run: `K` are rows of the user, and `N`
step-ups have begun. -/
structure Known (u : Uuid) (K : List Nat) (N : Nat) (w : TotpSrv) : Prop where
  codes : Codes w
  owned : ∀ k ∈ K, Owned u k w
  begun : N ≤ w.mem.stepUps.length

theorem Known.move (h : Known u K N w) (hm : Codes w' ∧ CodesMove i w w') :
    Known u K N w' :=
  ⟨hm.1, fun k hk => (h.owned k hk).evolves hm.2.evolves,
    Nat.le_trans h.begun hm.2.stepUps.length_le⟩

/-- The moves, with what is known from the start. -/
def rowsLogic (u : Uuid) (K : List Nat) (N : Nat) : Logic TotpSrv where
  inv := Known u K N
  guar := CodesMove
  env w w' := w'.db = w.db ∧ w'.mem = w.mem ∧ w'.session = w.session

theorem same_evolves (hdb : w'.db = w.db) : Evolves CodeStep w w' :=
  .of_committed codeStep_history fun t k => by rw [hdb]

/-- What the history of the rows keeps is stable. -/
theorem stable_evolves {P : TotpSrv → Prop}
    (hP : ∀ {w w'}, Evolves CodeStep w w' → P w → P w') :
    Stable (rowsLogic u K N) i P where
  thread _ _ _ hg h := hP hg.evolves h
  env _ _ he h := hP (same_evolves he.1) h

/-- A step that is known to be a move. -/
theorem known_step {ξ : Type} {R : β → TotpSrv → Prop} {X : TotpSrv → Prop}
    {r : Except ξ β} (hw : (rowsLogic u K N).inv w)
    (h : Codes w' ∧ CodesMove i w w') (hpost : exceptPost R X r w') :
    (rowsLogic u K N).inv w' ∧ (rowsLogic u K N).guar i w w' ∧
      exceptPost R X r w' :=
  ⟨hw.move h, h.2, hpost⟩

variable {F : Place → Chance → TotpSrv → TotpSrv → Prop} (hF : Moves i F)

section Outlines

include hF

/-- What the history of the rows keeps, no step takes away. -/
theorem kept_outline {p : TotpProg α} {P : TotpSrv → Prop}
    (hP : Stable (rowsLogic u K N) i P)
    (hkeep : ∀ {w w'}, CodesMove i w w' → Codes w → P w → P w') :
    Outline (rowsLogic u K N) F i p P fun _ => P :=
  Outline.keep_of_filter hP fun hw hPw hstep =>
    ⟨hw.move (hF hstep), (hF hstep).2, hkeep (hF hstep).2 hw.codes hPw⟩

theorem any_outline {p : TotpProg α} {P : TotpSrv → Prop} :
    Outline (rowsLogic u K N) F i p P fun _ _ => True :=
  Outline.weaken (P := fun _ => True) (fun _ _ _ => trivial)
    (kept_outline hF (.const True) fun _ _ _ => trivial)

theorem any_service {p : Service α} {P : TotpSrv → Prop} :
    Outline (rowsLogic u K N) F i p.run P
      (exceptPost (fun _ _ => True) fun _ => True) := by
  refine (any_outline hF).post fun r w _ _ => ?_
  cases r <;> trivial

end Outlines

/-! ## Inside of a block -/

/-- Session `i` is inside of a block that has not failed. -/
def InBlock (i : Nat) (w : TotpSrv) : Prop :=
  (w.session i).status = .explicit

theorem stable_block : Stable (rowsLogic u K N) i (InBlock i) where
  thread hne _ _ hg h := by
    unfold InBlock
    rw [hg.frame.session i (Ne.symm hne)]
    exact h
  env _ _ he h := by
    unfold InBlock
    rw [he.2.2]
    exact h

theorem InBlock.opens (h : InBlock i w) (pt : Place) :
    InBlock i (w.openStatement i pt) ∧ (w.openStatement i pt).db = w.db := by
  simp only [InBlock] at h
  simp only [World.openStatement, h]
  exact ⟨by simp [InBlock, World.setSession], rfl⟩

theorem InBlock.completes (h : InBlock i w) :
    InBlock i (w.completeStatement i) ∧ (w.completeStatement i).db = w.db := by
  simp only [InBlock] at h
  simp only [World.completeStatement, h]
  exact ⟨by simp [InBlock, World.setSession], rfl⟩

theorem InBlock.setTable {t : TotpTbl} (h : InBlock i w)
    (x : Table (TotpRow t)) : InBlock i (w.setTable t x) := h

/-- A statement of the block: it fails, or it is carried out. -/
theorem InBlock.statement {pt : Place} {ch : Chance}
    {f : Nat → TotpSrv → Option (Except SqlxError β × TotpSrv)}
    {r : Except SqlxError β} (h : InBlock i w)
    (hstep : statement pt f i ch w = some (r, w')) :
    (∃ e, r = .error e) ∨ f i (w.openStatement i pt) = some (r, w') := by
  rcases statement_cases hstep with ⟨hst, -, -⟩ | ⟨-, -, -, e⟩ | ⟨-, hrun⟩
  · rw [InBlock] at h
    rw [h] at hst
    cases hst
  · exact .inl e
  · exact .inr hrun

/-- Row `k` is used, or session `i` is about to commit its use. -/
def Dying (i k : Nat) (w : TotpSrv) : Prop :=
  Used k w ∨ ∃ (c : Cell IssuedCode) (v : IssuedCode), (codes w)[k]? = some c ∧
    c.pending = some (i, v) ∧ v.usedAt ≠ none

theorem stable_dying : Stable (rowsLogic u K N) i (Dying i k) where
  thread hne _ _ hg h := by
    rcases h with h | ⟨c, v, hc, hpend, hused⟩
    · exact .inl (h.evolves hg.evolves)
    · have hheld : c.heldBy i = true := by simp [Cell.heldBy, hpend]
      exact .inr ⟨c, v, (hg.frame.held i (Ne.symm hne) .recoveryCodes k c
        hheld).mp hc, hpend, hused⟩
  env _ _ he h := by
    unfold Dying Used codes
    rw [he.1]
    exact h

theorem Dying.same (h : Dying i k w) (hdb : w'.db = w.db) : Dying i k w' := by
  unfold Dying Used codes
  rw [hdb]
  exact h

/-- What session `i` sees of a row of the user is unused, or dying. -/
theorem dying_of_seen {c : Cell IssuedCode} {r : IssuedCode}
    (hc : (codes w)[k]? = some c) (hseen : c.seenBy i = some r)
    (hused : r.usedAt ≠ none) : Dying i k w := by
  obtain ⟨x, _ | ⟨l, y⟩⟩ := c
  · exact .inl ⟨r, committedAt_eq.mpr ⟨_, hc, hseen⟩, hused⟩
  · by_cases hl : l = i
    · simp only [Cell.seenBy, hl, if_true, Option.some.injEq] at hseen
      subst hseen
      exact .inr ⟨_, y, hc, by rw [hl], hused⟩
    · simp only [Cell.seenBy, hl, if_false] at hseen
      exact .inl ⟨r, committedAt_eq.mpr ⟨_, hc, hseen⟩, hused⟩

/-- Every session sees a row of the user as the user's. -/
theorem Owned.seen (h : Owned u k w) (hw : Codes w) (i : Nat) :
    ∃ (c : Cell IssuedCode) (r : IssuedCode), (codes w)[k]? = some c ∧
      c.seenBy i = some r ∧ r.userId = u := by
  obtain ⟨r₀, hr₀, hu⟩ := h
  obtain ⟨c, hc, hcr⟩ := committedAt_eq.mp hr₀
  have hlink : CellLinked KeepsCode c :=
    hw.linked.links .recoveryCodes c (List.mem_of_getElem? hc)
  have hsome : ∃ r, c.seenBy i = some r := by
    obtain ⟨x, _ | ⟨l, y⟩⟩ := c
    · exact ⟨r₀, hcr⟩
    · by_cases hl : l = i
      · exact ⟨y, by simp [Cell.seenBy, hl]⟩
      · exact ⟨r₀, by simpa [Cell.seenBy, hl] using hcr⟩
  obtain ⟨r, hr⟩ := hsome
  exact ⟨c, r, hc, hr, (hlink.seen (.refl r₀) hcr hr).userId.trans hu⟩

section Statements

include hF

/-- An `UPDATE` of users inside of a block. -/
theorem users_outline {pt : Place} {p : Int → TotpUser → Bool}
    {f : Int → TotpUser → TotpUser} :
    Outline (rowsLogic u K N) F i (update pt TotpTbl.users p f) (InBlock i)
      (exceptPost (fun _ => InBlock i) fun _ => True) := by
  refine Outline.update (fun _ _ => InBlock i) (fun _ _ => stable_block)
    (fun _ => stable_block) (.const _) ?_ ?_ ?_
  · intro w ch r w' hw hP hstep hstepF
    refine known_step hw (hF hstepF) ?_
    rcases hP.statement hstep with ⟨e, rfl⟩ | hrun
    · trivial
    · simp only [Option.some.injEq, Prod.mk.injEq] at hrun
      obtain ⟨rfl, rfl⟩ := hrun
      exact (hP.opens pt).1
  · intro done k ks w ch r w' hw hP hstep hstepF
    refine known_step hw (hF hstepF) ?_
    rcases hP.statement hstep with ⟨e, rfl⟩ | hrun
    · trivial
    · split at hrun
      · cases hrun
      · simp only [Option.some.injEq, Prod.mk.injEq] at hrun
        obtain ⟨rfl, rfl⟩ := hrun
        exact (hP.opens pt).1
  · intro done w ch r w' hw hP hstep hstepF
    refine known_step hw (hF hstepF) ?_
    rcases hP.statement hstep with ⟨e, rfl⟩ | hrun
    · trivial
    · simp only [Option.some.injEq, Prod.mk.injEq] at hrun
      obtain ⟨rfl, rfl⟩ := hrun
      exact (hP.opens pt).1.completes.1

/-- Half-way through the `UPDATE`: each of the rows is dying, or still to be
visited. -/
def Marking (i : Nat) (K ks : List Nat) (w : TotpSrv) : Prop :=
  InBlock i w ∧ ∀ k ∈ K, k ∈ ks ∨ Dying i k w

omit hF in
theorem stable_marking {ks L : List Nat} :
    Stable (rowsLogic u K N) i (Marking i L ks) :=
  stable_block.and (.forall fun _ => .forall fun _ =>
    ⟨fun hne hw hw' hg h => h.imp id (stable_dying.thread hne hw hw' hg),
      fun hw hw' he h => h.imp id (stable_dying.env hw hw' he)⟩)

omit hF in
/-- A visit marks the row, unless it is marked already. -/
theorem visit_marks {l : Nat} {ks : List Nat} {now : DateTime}
    {o : Option IssuedCode} {x : Table IssuedCode} (hw : Codes w)
    (howned : ∀ k ∈ K, Owned u k w) (hmark : Marking i K (l :: ks) w)
    (hvisit : (codes w).visit i (fun r => r.userId == u && r.usedAt.isNone)
      (fun r => { r with usedAt := some now }) l = some (o, x)) :
    Marking i K ks (w.setTable .recoveryCodes x) := by
  refine ⟨hmark.1, fun k hk => ?_⟩
  rcases Table.visit_set hvisit with ⟨-, rfl, hskip⟩ |
    ⟨c, r, hc, -, hseen, -, -, rfl⟩
  · have hdb : (w.setTable .recoveryCodes (w.db TotpTbl.recoveryCodes)).db =
        w.db := Function.update_eq_self _ _
    rcases hmark.2 k hk with hin | hdying
    · rcases List.mem_cons.mp hin with rfl | hin
      · obtain ⟨c, r, hc, hseen, hu⟩ := (howned k hk).seen hw i
        have hnot := (hskip c r hc).2 hseen
        simp only [hu, beq_self_eq_true, Bool.true_and,
          Option.isNone_eq_false_iff] at hnot
        have hused : r.usedAt ≠ none := Option.isSome_iff_ne_none.mp hnot
        exact .inr ((dying_of_seen hc hseen hused).same hdb)
      · exact .inl hin
    · exact .inr (hdying.same hdb)
  · by_cases hkl : l = k
    · subst hkl
      refine .inr (.inr ⟨c.write i { r with usedAt := some now },
        { r with usedAt := some now }, ?_, rfl, by simp⟩)
      simp only [codes, World.setTable, Function.update_self]
      exact List.getElem?_set_self (List.getElem?_eq_some_iff.mp hc).1
    · rcases hmark.2 k hk with hin | hdying
      · rcases List.mem_cons.mp hin with rfl | hin
        · exact absurd rfl hkl
        · exact .inl hin
      · refine .inr ?_
        unfold Dying Used committedAt codes
        simp only [World.setTable, Function.update_self]
        rw [List.getElem?_set_ne hkl]
        exact hdying

/-- **Every row of the user is marked.** -/
theorem invalidate_outline :
    Outline (rowsLogic u K N) F i (invalidateRecoveryCodesForUser u).run
      (InBlock i) (exceptPost (fun _ w => InBlock i w ∧ ∀ k ∈ K, Dying i k w)
        fun _ => True) := by
  refine Outline.except_bind (R := fun _ w => InBlock i w ∧
    ∀ k ∈ K, Dying i k w) ?_ fun _ => Outline.pure fun _ _ h => h
  refine Outline.update (fun _ ks => Marking i K ks) (fun _ _ => stable_marking)
    (fun _ => stable_block.and (.forall fun _ => .forall fun _ => stable_dying))
    (.const _) ?_ ?_ ?_
  · intro w ch r w' hw hP hstep hstepF
    refine known_step hw (hF hstepF) ?_
    rcases hP.statement hstep with ⟨e, rfl⟩ | hrun
    · trivial
    · simp only [Option.some.injEq, Prod.mk.injEq] at hrun
      obtain ⟨rfl, rfl⟩ := hrun
      obtain ⟨hblock, hdb⟩ := hP.opens .plain
      refine ⟨hblock, fun k hk => ?_⟩
      obtain ⟨c, r, hc, hseen, hu⟩ := (hw.owned k hk).seen hw.codes i
      by_cases hused : r.usedAt = none
      · refine .inl (Table.mem_targets.mpr ⟨c, r, ?_, hseen, by simp [hu, hused]⟩)
        rw [hdb]
        exact hc
      · exact .inr ((dying_of_seen hc hseen hused).same hdb)
  · intro done l ks w ch r w' hw hP hstep hstepF
    refine known_step hw (hF hstepF) ?_
    rcases hP.1.statement hstep with ⟨e, rfl⟩ | hrun
    · trivial
    · split at hrun
      · cases hrun
      rename_i o x hvisit
      simp only [Option.some.injEq, Prod.mk.injEq] at hrun
      obtain ⟨rfl, rfl⟩ := hrun
      obtain ⟨hblock, hdb⟩ := hP.1.opens .plain
      have hcareful : Careful i w (w.openStatement i .plain) :=
        respects_careful.opens w .plain
      obtain ⟨hcodes, hmove⟩ := hcareful.move hw.codes
      exact visit_marks hcodes
        (fun k hk => (hw.owned k hk).evolves hmove.evolves)
        ⟨hblock, fun k hk => (hP.2 k hk).imp id fun h => h.same hdb⟩ hvisit
  · intro done w ch r w' hw hP hstep hstepF
    refine known_step hw (hF hstepF) ?_
    rcases hP.1.statement hstep with ⟨e, rfl⟩ | hrun
    · trivial
    · simp only [Option.some.injEq, Prod.mk.injEq] at hrun
      obtain ⟨rfl, rfl⟩ := hrun
      obtain ⟨hblock, hdb⟩ := hP.1.opens .plain
      obtain ⟨hend, hdb'⟩ := hblock.completes
      refine ⟨hend, fun k hk => ?_⟩
      rcases hP.2 k hk with hin | hdying
      · cases hin
      · exact hdying.same (hdb'.trans hdb)

/-- Session `i` has inserted a row of the user with this hash. -/
def Inserted (i : Nat) (u : Uuid) (h : String) (w : TotpSrv) : Prop :=
  ∃ (k : Nat) (c : Cell IssuedCode) (v : IssuedCode), (codes w)[k]? = some c ∧
    c.pending = some (i, v) ∧ v.userId = u ∧ v.codeHash = h

omit hF in
theorem stable_inserted {h : String} :
    Stable (rowsLogic u K N) i (Inserted i u h) where
  thread hne _ _ hg hin := by
    obtain ⟨k, c, v, hc, hpend, hrest⟩ := hin
    have hheld : c.heldBy i = true := by simp [Cell.heldBy, hpend]
    exact ⟨k, c, v, (hg.frame.held i (Ne.symm hne) .recoveryCodes k c
      hheld).mp hc, hpend, hrest⟩
  env _ _ he hin := by
    unfold Inserted codes
    rw [he.1]
    exact hin

/-- **The new rows are inserted**, and the old ones keep dying. -/
theorem create_outline {hashes : List String} {e : Nat} :
    Outline (rowsLogic u K N) F i (createRecoveryCodes u hashes e).run
      (fun w => InBlock i w ∧ ∀ k ∈ K, Dying i k w)
      (exceptPost (fun _ w => (InBlock i w ∧ ∀ k ∈ K, Dying i k w) ∧
        ∀ h ∈ hashes, Inserted i u h w) fun _ => True) := by
  unfold createRecoveryCodes
  split
  · rename_i hempty
    refine Outline.pure fun w _ h => ⟨h, fun y hy => ?_⟩
    rw [List.isEmpty_iff.mp hempty] at hy
    cases hy
  refine Outline.step (Stable.exceptPost (fun _ => (stable_block.and
    (.forall fun _ => .forall fun _ => stable_dying)).and
      (.forall fun _ => .forall fun _ => stable_inserted)) (.const _))
    fun {w ch r w'} hw hP hstep hstepF => ?_
  refine known_step hw (hF hstepF) ?_
  rcases hP.1.statement hstep with ⟨e, rfl⟩ | hrun
  · trivial
  · split at hrun
    · cases hrun
    · simp only [Option.some.injEq, Prod.mk.injEq] at hrun
      obtain ⟨rfl, -⟩ := hrun
      trivial
    · rename_i x hx
      simp only [Option.some.injEq, Prod.mk.injEq] at hrun
      obtain ⟨rfl, rfl⟩ := hrun
      obtain ⟨hblock, hdb⟩ := hP.1.opens .plain
      obtain ⟨hend, hdb'⟩ := (hblock.setTable (t := .recoveryCodes) x).completes
      have hx' : x = codes w ++ (newCodes u hashes e).map (Cell.fresh i) := by
        rw [insertRows_ok hx, hdb]
      have hcodes : codes (World.completeStatement i
          ((w.openStatement i .plain).setTable TotpTbl.recoveryCodes x)) = x := by
        rw [codes, hdb']
        simp [World.setTable]
      refine ⟨⟨hend, fun k hk => ?_⟩, fun y hy => ?_⟩
      · have hold : ∀ {c : Cell IssuedCode}, (codes w)[k]? = some c →
            x[k]? = some c := by
          intro c hc
          rw [hx', List.getElem?_append_left (List.getElem?_eq_some_iff.mp hc).1]
          exact hc
        rcases hP.2 k hk with ⟨r, hr, hused⟩ | ⟨c, v, hc, hrest⟩
        · obtain ⟨c, hc, hcr⟩ := committedAt_eq.mp hr
          refine .inl ⟨r, committedAt_eq.mpr ⟨c, ?_, hcr⟩, hused⟩
          rw [hcodes]
          exact hold hc
        · refine .inr ⟨c, v, ?_, hrest⟩
          rw [hcodes]
          exact hold hc
      · have hin : Cell.fresh i (IssuedCode.mk ⟨u, y, none⟩ e none) ∈ x := by
          rw [hx']
          refine List.mem_append_right _ (List.mem_map.mpr ⟨_, ?_, rfl⟩)
          exact List.mem_map.mpr ⟨y, hy, rfl⟩
        obtain ⟨k, hk⟩ := List.mem_iff_getElem?.mp hin
        refine ⟨k, Cell.fresh i (IssuedCode.mk ⟨u, y, none⟩ e none), _, ?_, rfl,
          rfl, rfl⟩
        rw [hcodes]
        exact hk

end Statements

/-! ## The transactions -/

theorem committed_pending {v : IssuedCode} {c : Cell IssuedCode} {pt : Place}
    (hc : (codes w)[k]? = some c) (hpend : c.pending = some (i, v)) :
    committedAt (codes (w.commitTx i pt)) k = some v := by
  simp only [codes, World.commitTx]
  rw [committedAt_commit, hc]
  simp [Cell.commit, hpend]

/-- The commit of a dying row. -/
theorem Dying.commit (h : Dying i k w) {pt : Place}
    (he : Evolves CodeStep w (w.commitTx i pt)) : Used k (w.commitTx i pt) := by
  rcases h with hused | ⟨c, v, hc, hpend, hused⟩
  · exact hused.evolves he
  · exact ⟨v, committed_pending hc hpend, hused⟩

theorem Inserted.commit {h : String} (hin : Inserted i u h w) (pt : Place) :
    Stored u h (w.commitTx i pt) := by
  obtain ⟨k, c, v, hc, hpend, hu, hh⟩ := hin
  exact ⟨k, v, committed_pending hc hpend, hu, hh⟩

section Transactions

include hF

/-- **A block**: what its region establishes, its commit makes permanent. -/
theorem block_outline {region : Service (TxExit Place ServiceError α)}
    {S : α → TotpSrv → Prop} {R : α → TotpSrv → Prop} {p : α → Place}
    (hR : ∀ a, Stable (rowsLogic u K N) i (R a))
    (inside : Outline (rowsLogic u K N) F i region.run (InBlock i)
      (exceptPost (fun exit w => ∃ a, exit = .commit (p a) (.ok a) ∧
        InBlock i w ∧ S a w) fun _ => True))
    (hcommit : ∀ {a w}, S a w →
      Evolves CodeStep w (w.commitTx i (p a)) → R a (w.commitTx i (p a))) :
    Outline (rowsLogic u K N) F i (inTransaction region).run (fun _ => True)
      (exceptPost R fun _ => True) := by
  have hmove : ∀ {w w' : TotpSrv} {pt ch}, (rowsLogic u K N).inv w →
      F pt ch w w' → (rowsLogic u K N).inv w' ∧ (rowsLogic u K N).guar i w w' :=
    fun hw hstepF => ⟨hw.move (hF hstepF), (hF hstepF).2⟩
  refine Outline.transaction (InBlock i)
    (fun exit w => ∃ a, exit = .commit (p a) (.ok a) ∧ InBlock i w ∧ S a w)
    (fun _ => True) stable_block (Stable.exceptPost hR (.const _)) ?_ inside
    ?_ ?_
  · intro w w' ch r hw _ hstep hstepF
    obtain ⟨hinv, hguar⟩ := hmove hw hstepF
    refine ⟨hinv, hguar, ?_⟩
    rcases beginStep_cases hstep with ⟨rfl, -, e, rfl⟩ | ⟨rfl, rfl⟩
    · trivial
    · show InBlock i (w.beginTx i)
      simp [InBlock, World.beginTx, World.setSession]
  · intro w r ch hw hends hstepF
    obtain ⟨hinv, hguar⟩ := hmove hw hstepF
    refine ⟨hinv, hguar, ?_⟩
    rcases hends with ⟨e, rfl, -⟩ | ⟨a, hexit, -⟩
    · trivial
    · cases hexit
  · intro w ch pt r r' w' hw hS hstep hstepF
    obtain ⟨hinv, hguar⟩ := hmove hw hstepF
    refine ⟨hinv, hguar, ?_⟩
    obtain ⟨a, hexit, hblock, hSa⟩ := hS
    cases hexit
    rcases commitStep_cases hstep with ⟨hst, -, -⟩ | ⟨-, ⟨e, rfl⟩, -, rfl⟩ |
      ⟨-, rfl, rfl⟩
    · rw [InBlock] at hblock
      rw [hblock] at hst
      cases hst
    · trivial
    · exact hcommit hSa hguar.evolves

omit hF in
/-- A query whose errors are passed on. -/
theorem propagate_outline {q : Query α} {P : TotpSrv → Prop}
    {R : α → TotpSrv → Prop}
    (h : Outline (rowsLogic u K N) F i q.run P (exceptPost R fun _ => True)) :
    Outline (rowsLogic u K N) F i q.propagate.run P
      (exceptPost R fun _ => True) := by
  refine Outline.bind (fun r => ?_) h
  cases r with
  | error e => exact fun _ _ _ => trivial
  | ok a => exact fun _ _ h => h

/-- **`confirm_2fa` replaces the codes**: when its transaction has committed,
the rows known before are used and the new ones are there. -/
theorem confirmTx_outline {secret : String} {cs : List String} :
    Outline (rowsLogic u K N) F i (inTransaction (confirmTx ext u secret cs)).run
      (fun _ => True)
      (exceptPost (fun cs' w => cs' = cs ∧ (∀ k ∈ K, Used k w) ∧
        ∀ c ∈ cs, Stored u (hashRecoveryCode ext c) w) fun _ => True) := by
  refine block_outline hF (p := fun cs' => .confirmed u secret cs')
    (S := fun cs' w => cs' = cs ∧ (∀ k ∈ K, Dying i k w) ∧
      ∀ h ∈ cs.map (hashRecoveryCode ext), Inserted i u h w) (fun cs' => ?_) ?_ ?_
  · exact (Stable.const _).and ((Stable.forall fun _ => .forall fun _ =>
      stable_evolves fun he h => h.evolves he).and (.forall fun _ =>
        .forall fun _ => stable_evolves fun he h => h.evolves he))
  · refine Outline.except_bind (R := fun _ => InBlock i)
      (propagate_outline (Outline.except_bind (users_outline hF)
        fun _ => Outline.pure fun _ _ h => h)) fun e => ?_
    refine Outline.except_bind (propagate_outline (invalidate_outline hF))
      fun _ => ?_
    refine Outline.except_bind (propagate_outline (create_outline hF))
      fun _ => Outline.pure fun w _ h => ?_
    exact ⟨cs, rfl, h.1.1, rfl, h.1.2, h.2⟩
  · intro cs' w h he
    refine ⟨h.1, fun k hk => (h.2.1 k hk).commit he, fun c hc => ?_⟩
    exact (h.2.2 _ (List.mem_map.mpr ⟨c, hc, rfl⟩)).commit _

/-- **`disable_2fa` invalidates the codes.** -/
theorem disableTx_outline {a : Acceptance} :
    Outline (rowsLogic u K N) F i (inTransaction (disableTx u a)).run
      (fun _ => True)
      (exceptPost (fun _ w => ∀ k ∈ K, Used k w) fun _ => True) := by
  refine block_outline hF (p := fun _ => .disabled u a)
    (S := fun _ w => ∀ k ∈ K, Dying i k w) (fun _ => ?_) ?_ ?_
  · exact .forall fun _ => .forall fun _ =>
      stable_evolves fun he h => h.evolves he
  · refine Outline.except_bind (R := fun _ => InBlock i)
      (propagate_outline (Outline.except_bind (users_outline hF)
        fun _ => Outline.pure fun _ _ h => h)) fun e => ?_
    refine Outline.except_bind (propagate_outline (invalidate_outline hF))
      fun _ => Outline.pure fun w _ h => ?_
    exact ⟨(), rfl, h.1, h.2⟩
  · intro _ w h he k hk
    exact (h k hk).commit he

/-! ## The calls -/

omit hF in
theorem stable_rows {P : TotpSrv → Prop} (hP : Stable codesLogic i P) :
    Stable (rowsLogic u K N) i P :=
  ⟨fun hne hw hw' => hP.thread hne hw.codes hw'.codes,
    fun hw hw' => hP.env hw.codes hw'.codes⟩

omit hF in
/-- What is known of every step is known with the rows `K` as well. -/
theorem to_rows {p : TotpProg α} {Q : α → TotpSrv → Prop} :
    ∀ {P : TotpSrv → Prop}, Outline codesLogic F i p P Q →
      Outline (rowsLogic u K N) F i p P Q := by
  induction p with
  | ret a => exact fun h w hw hP => h w hw.codes hP
  | act pt f next ih =>
      intro P h w ch b w' hw hP hf hstep
      obtain ⟨hinv, hmove, R, hR, hpost, hrest⟩ := h w ch b w' hw.codes hP hf hstep
      exact ⟨hw.move ⟨hinv, hmove⟩, hmove, R, stable_rows hR, hpost, ih b hrest⟩

/-- The codes that are drawn have the form of recovery codes. -/
theorem issue_isCode : Outline (rowsLogic u K N) F i
    (generateRecoveryCodes ext).run (fun _ => True)
    (exceptPost (fun cs _ => ∀ c ∈ cs, IsCode c) fun _ => True) := by
  refine Outline.step (Stable.exceptPost (fun _ => .const _) (.const _))
    fun {w ch r w'} hw _ hstep hstepF => ?_
  refine known_step hw (hF hstepF) ?_
  rcases issueStep_cases hstep with ⟨bs, hbytes, hlength, rfl, -, -, -⟩ |
    ⟨⟨e, rfl⟩, -⟩
  · exact fun c hc => isCode_of_mem hlength hbytes hc
  · trivial

/-- `confirm_2fa` of the user. -/
theorem confirm2fa_outline {code : String} :
    Outline (rowsLogic u K N) F i (confirm2fa ext u code).run (Ready i N)
      (exceptPost (fun cs w => (∀ c ∈ cs, IsCode c) ∧ (∀ k ∈ K, Used k w) ∧
        ∀ c ∈ cs, Stored u (hashRecoveryCode ext c) w) fun _ => True) := by
  refine Outline.except_bind (to_rows find_outline) fun o => ?_
  cases o with
  | none => exact Outline.throw fun _ _ _ => trivial
  | some user =>
      refine Outline.weaken (P := fun _ => user.id = u ∧ True)
        (fun _ _ h => ⟨h.1 user rfl, trivial⟩) (Outline.of_prop fun hid => ?_)
      dsimp only
      split
      · exact Outline.throw fun _ _ _ => trivial
      refine Outline.except_bind (any_service hF) fun pending => ?_
      cases pending with
      | none => exact Outline.throw fun _ _ _ => trivial
      | some secret =>
          refine Outline.except_bind (any_service hF) fun valid => ?_
          split
          · exact Outline.throw fun _ _ _ => trivial
          refine Outline.except_bind (Outline.weaken (fun _ _ _ => trivial)
            (issue_isCode hF)) fun cs => ?_
          rw [hid]
          refine Outline.weaken (P := fun _ => (∀ c ∈ cs, IsCode c) ∧ True)
            (fun _ _ h => ⟨h, trivial⟩) (Outline.of_prop fun hform => ?_)
          refine (confirmTx_outline hF).post fun r w _ h => ?_
          cases r with
          | error e => trivial
          | ok cs' =>
              obtain ⟨rfl, hrows⟩ := h
              exact ⟨hform, hrows⟩

/-- `disable_2fa`, for this user or another one. -/
theorem disable2fa_outline {v : Uuid} {code : String} :
    Outline (rowsLogic u K N) F i (disable2fa ext v code).run (Ready i N)
      (exceptPost (fun _ w => (v = u → ∀ k ∈ K, Used k w) ∧
        (isRecoveryCode code = true →
          Accepted i N v (hashRecoveryCode ext code) w)) fun _ => True) := by
  refine Outline.except_bind (to_rows find_outline) fun o => ?_
  cases o with
  | none => exact Outline.throw fun _ _ _ => trivial
  | some user =>
      refine Outline.weaken (P := fun w => user.id = v ∧ Ready i N w)
        (fun _ _ h => ⟨h.1 user rfl, h.2⟩) (Outline.of_prop fun hid => ?_)
      dsimp only
      split
      · exact Outline.throw fun _ _ _ => trivial
      refine Outline.except_bind (to_rows stepUp_outline) fun a => ?_
      rw [hid]
      -- the transaction leaves the burned row as it is
      have hkept : Outline (rowsLogic u K N) F i
          (inTransaction (disableTx v a)).run
          (fun w => isRecoveryCode code = true →
            Accepted i N v (hashRecoveryCode ext code) w)
          fun _ w => isRecoveryCode code = true →
            Accepted i N v (hashRecoveryCode ext code) w :=
        kept_outline hF (.forall fun _ => stable_rows stable_accepted)
          fun hmove hw h hrec => (h hrec).move hw hmove
      by_cases hvu : v = u
      · subst hvu
        refine Outline.weaken (fun _ _ h => ⟨trivial, h⟩)
          (((disableTx_outline hF).and hkept).post fun r w _ h => ?_)
        cases r with
        | error e => trivial
        | ok x => exact ⟨fun _ => h.1, h.2⟩
      · refine hkept.post fun r w _ h => ?_
        cases r with
        | error e => trivial
        | ok x => exact ⟨fun heq => absurd heq hvu, h⟩

end Transactions

/-! ## The answer of a call -/

/-- What is known once thread `i` has answered a call that started after `N`
step-ups. -/
def After (ext : TotpExternals) (u : Uuid) (K : List Nat) (N i : Nat) :
    TotpCall → TotpResult → TotpSrv → Prop
  | .confirm2fa v _, .ok (.codes cs), w => v = u → (∀ c ∈ cs, IsCode c) ∧
      (∀ k ∈ K, Used k w) ∧ ∀ c ∈ cs, Stored u (hashRecoveryCode ext c) w
  | .verify2faCode v code, .ok _, w => isRecoveryCode code = true →
      Accepted i N v (hashRecoveryCode ext code) w
  | .disable2fa v code, .ok _, w => (v = u → ∀ k ∈ K, Used k w) ∧
      (isRecoveryCode code = true →
        Accepted i N v (hashRecoveryCode ext code) w)
  | _, _, _ => True

theorem after_outline (hF : Moves i F) {q : TotpCall} :
    Outline (rowsLogic u K N) F i (q.body ext) (Ready i N)
      (After ext u K N i q) := by
  have hpost : ∀ {p : Service TotpReply} {R : TotpReply → TotpSrv → Prop},
      Outline (rowsLogic u K N) F i p.run (Ready i N)
        (exceptPost R fun _ => True) →
      (∀ a w, R a w → After ext u K N i q (.ok a) w) →
      Outline (rowsLogic u K N) F i p.run (Ready i N) (After ext u K N i q) := by
    intro p R h hR
    refine h.post fun r w _ hr => ?_
    cases r with
    | error e => cases q <;> trivial
    | ok a => exact hR a w hr
  cases q with
  | setup2fa v issuer accountName =>
      exact (any_outline hF).post fun _ _ _ _ => trivial
  | confirm2fa v code =>
      by_cases hvu : v = u
      · subst hvu
        refine hpost (R := fun a w => ∃ cs, a = .codes cs ∧ After ext v K N i
          (.confirm2fa v code) (.ok (.codes cs)) w) (Outline.except_map ?_) ?_
        · refine (confirm2fa_outline hF).post fun r w _ h => ?_
          cases r with
          | error e => trivial
          | ok cs => exact ⟨cs, rfl, fun _ => h⟩
        · rintro a w ⟨cs, rfl, h⟩
          exact h
      · refine (any_outline hF).post fun r w _ _ => ?_
        cases r with
        | error e => trivial
        | ok a =>
            cases a with
            | codes cs => exact fun heq => absurd heq hvu
            | setup _ => trivial
            | kind _ => trivial
            | done => trivial
  | verify2faCode v code =>
      refine hpost (R := fun _ w => isRecoveryCode code = true →
        Accepted i N v (hashRecoveryCode ext code) w)
        (Outline.except_map (Outline.except_map (to_rows stepUp_outline)))
        fun a w h => h
  | disable2fa v code =>
      exact hpost (Outline.except_map (R := fun _ w =>
        (v = u → ∀ k ∈ K, Used k w) ∧ (isRecoveryCode code = true →
          Accepted i N v (hashRecoveryCode ext code) w))
        (disable2fa_outline hF)) fun a w h => h
  | cleanupExpiredDrafts =>
      exact (any_outline hF).post fun _ _ _ _ => trivial

/-! ## Runs -/

section Runs

variable {users : List UserRow} {clock : Int} {c d : TotpConfig}

/-- **A call that starts now**: what is known when it has answered. -/
theorem after_reaches {q : TotpCall} {r : TotpResult} (h : GoodCodes c)
    (howned : ∀ k ∈ K, Owned u k c.shared)
    (hbegun : N ≤ c.shared.mem.stepUps.length) (hfree : c.thread j = none)
    (hrun : (totpSystem ext).Reaches allRuns c d)
    (hanswer : d.answer j = some (q, r)) : After ext u K N j q r d.shared := by
  have hgood : Good (rowsLogic u K N) moving (fun i => Ready i N)
      (fun q i r w => i = j → After ext u K N i q r w) c :=
    Good.fresh (Q := fun q i => After ext u K N i q) ⟨h.inv, howned, hbegun⟩
      (fun i hi => ⟨h.idle i hi, hbegun⟩) hfree
      fun hw hF => ⟨hw.move hF.2, hF.2.2⟩
  have hend := sound (M := totpSystem ext) (fun _ => stable_rows stable_ready)
    (fun i q => (after_outline moves_moving).post fun _ _ _ h _ => h)
    (fun hw _ => by
      obtain ⟨hinv, hmove, hrest⟩ := codes_cancel hw.codes
      have hknown := hw.move ⟨hinv, hmove⟩
      exact ⟨hknown, hmove, hrest, hknown.begun⟩)
    (fun hw he _ => by
      obtain ⟨hinv, henv⟩ := codes_env hw.codes he
      refine ⟨⟨hinv, fun k hk => (hw.owned k hk).evolves
        (same_evolves henv.1), ?_⟩, henv⟩
      rw [henv.2.1]
      exact hw.begun)
    hgood (reaches_moving h hrun)
  exact hend.result (Config.answer_eq.mp hanswer) rfl

/-- Thread `k` has answered `Ok`: the code `s` of user `v` was accepted. -/
def Accepts (c : TotpConfig) (k : Nat) (v : Uuid) (s : String) : Prop :=
  (∃ r, c.answer k = some (.verify2faCode v s, .ok r)) ∨
    ∃ r, c.answer k = some (.disable2fa v s, .ok r)

/-- Thread `k` has answered `Ok` to a call that ends the user's codes. -/
def Replaces (c : TotpConfig) (k : Nat) (u : Uuid) : Prop :=
  (∃ code cs, c.answer k = some (.confirm2fa u code, .ok (.codes cs))) ∨
    ∃ code r, c.answer k = some (.disable2fa u code, .ok r)

/-- There is an unused row of the user with this hash. -/
def Usable (u : Uuid) (h : String) (w : TotpSrv) : Prop :=
  ∃ k r, committedAt (codes w) k = some r ∧ r.userId = u ∧ r.codeHash = h ∧
    r.usedAt = none

/-- Two committed rows with one hash are the same row. -/
theorem same_row (hw : Codes w) {l : Nat} {r s : IssuedCode}
    (hr : committedAt (codes w) k = some r)
    (hs : committedAt (codes w) l = some s) (h : r.codeHash = s.codeHash) :
    k = l ∧ r = s := by
  obtain ⟨c, hc, hcr⟩ := committedAt_eq.mp hr
  obtain ⟨d, hd, hds⟩ := committedAt_eq.mp hs
  obtain rfl := hw.unique k l r.codeHash ⟨c, r, hc, .inl hcr, rfl⟩
    ⟨d, s, hd, .inl hds, h.symm⟩
  exact ⟨rfl, Option.some.inj (hr.symm.trans hs)⟩

/-- **A hash is burned at most once.** -/
theorem Burned.unique (hw : Codes w) {m n : Nat} {v : Uuid} {h : String}
    (hm : Burned m u h w) (hn : Burned n v h w) : m = n ∧ u = v := by
  obtain ⟨k, r, hr, hu, hh, hby⟩ := hm
  obtain ⟨l, s, hs, hv, hh', hby'⟩ := hn
  obtain ⟨-, rfl⟩ := same_row hw hr hs (hh.trans hh'.symm)
  exact ⟨Option.some.inj (hby.symm.trans hby'), hu.symm.trans hv⟩

theorem Stored.owner (hw : Codes w) {n : Nat} {v : Uuid} {h : String}
    (hstored : Stored u h w) (hb : Burned n v h w) : v = u := by
  obtain ⟨k, r, hr, hu, hh⟩ := hstored
  obtain ⟨l, s, hs, hv, hh', -⟩ := hb
  obtain ⟨-, rfl⟩ := same_row hw hr hs (hh.trans hh'.symm)
  exact hv.symm.trans hu

/-- The numbers of the acceptances of one code. -/
theorem acceptances_sublist (h : String) (log : List Note) :
    ((log.filterMap (acceptanceOf h)).map Acceptance.number).Sublist
      (log.filterMap burnedBy) := by
  induction log with
  | nil => exact .slnil
  | cons x log ih =>
      have hsame : ∀ {a}, acceptanceOf h x = some a →
          burnedBy x = some a.number := by
        intro a ha
        unfold acceptanceOf at ha
        split at ha
        · split at ha
          · simp only [Option.some.injEq] at ha
            rw [← ha]
            rfl
          · cases ha
        · cases ha
      cases ha : acceptanceOf h x with
      | none =>
          rw [List.filterMap_cons_none ha]
          cases hb : burnedBy x with
          | none => rwa [List.filterMap_cons_none hb]
          | some n =>
              rw [List.filterMap_cons_some hb]
              exact ih.cons n
      | some a =>
          rw [List.filterMap_cons_some ha,
            List.filterMap_cons_some (hsame ha), List.map_cons]
          exact ih.cons_cons _

theorem acceptance_burned (hw : Codes w) {h : String} {a : Acceptance}
    (ha : a ∈ w.mem.log.filterMap (acceptanceOf h)) :
    Burned a.number a.userId h w := by
  obtain ⟨x, hx, hxa⟩ := List.mem_filterMap.mp ha
  unfold acceptanceOf at hxa
  split at hxa
  · split at hxa
    · rename_i heq
      simp only [Option.some.injEq] at hxa
      subst heq
      rw [← hxa]
      exact hw.notes hx
    · cases hxa
  · cases hxa

/-- **The step-ups accept a code once.** -/
theorem acceptances_le_one (hw : Codes w) (h : String) :
    (w.mem.log.filterMap (acceptanceOf h)).length ≤ 1 := by
  have hnodup := hw.burns.sublist (acceptances_sublist h w.mem.log)
  have hsame : ∀ a ∈ w.mem.log.filterMap (acceptanceOf h),
      ∀ b ∈ w.mem.log.filterMap (acceptanceOf h), a.number = b.number :=
    fun a ha b hb => (Burned.unique hw (acceptance_burned hw ha)
      (acceptance_burned hw hb)).1
  revert hnodup hsame
  generalize w.mem.log.filterMap (acceptanceOf h) = xs
  intro hnodup hsame
  rcases xs with _ | ⟨a, _ | ⟨b, rest⟩⟩
  · exact Nat.zero_le _
  · exact Nat.le_refl _
  · have heq := hsame a List.mem_cons_self b
      (List.mem_cons_of_mem _ List.mem_cons_self)
    simp [heq] at hnodup

/-- **An accepted code has been burned**, by a step-up of the call. -/
theorem accepts_burned {v : Uuid} {s : String} (h : GoodCodes c)
    (hfree : c.thread k = none) (hrun : (totpSystem ext).Reaches allRuns c d)
    (hrec : isRecoveryCode s = true) (haccepts : Accepts d k v s) :
    Accepted k c.shared.mem.stepUps.length v (hashRecoveryCode ext s)
      d.shared := by
  rcases haccepts with ⟨r, hanswer⟩ | ⟨r, hanswer⟩
  · exact after_reaches (u := v) (K := []) h (fun k hk => by cases hk)
      (Nat.le_refl _) hfree hrun hanswer hrec
  · have hafter := after_reaches (u := v) (K := []) h (fun k hk => by cases hk)
      (Nat.le_refl _) hfree hrun hanswer
    exact hafter.2 hrec

/-- **A code that is replaced has been used before**: a row of the user that
was there when the call started. -/
theorem replaces_used (h : GoodCodes c) (howned : Owned u k c.shared)
    (hfree : c.thread j = none) (hrun : (totpSystem ext).Reaches allRuns c d)
    (hreplaces : Replaces d j u) : Used k d.shared := by
  have hone : ∀ l ∈ [k], Owned u l c.shared := fun l hl => by
    rw [List.mem_singleton.mp hl]
    exact howned
  rcases hreplaces with ⟨code, cs, hanswer⟩ | ⟨code, r, hanswer⟩
  · have hafter := after_reaches h hone (Nat.le_refl _) hfree hrun hanswer
    exact (hafter rfl).2.1 k List.mem_cons_self
  · have hafter := after_reaches h hone (Nat.le_refl _) hfree hrun hanswer
    exact hafter.1 rfl k List.mem_cons_self

/-- A used row was burned before, or never. -/
theorem burned_before (h : GoodCodes c) (hd : Codes d.shared)
    (hlater : Later c.shared d.shared) {r : IssuedCode}
    (hr : committedAt (codes c.shared) k = some r) (hused : r.usedAt ≠ none)
    {n : Nat} {v : Uuid} (hb : Burned n v r.codeHash d.shared) :
    n < c.shared.mem.stepUps.length := by
  obtain ⟨r', hr', hstep⟩ := hlater.evolves .recoveryCodes k r hr
  obtain rfl : r' = r := hstep.final hused
  obtain ⟨l, s, hs, -, hh, hby⟩ := hb
  obtain ⟨-, rfl⟩ := same_row hd hr' hs hh.symm
  obtain ⟨x, hx, hxr⟩ := committedAt_eq.mp hr
  have hdrawn : Drawn c.shared.mem r' :=
    (h.inv.linked.versions .recoveryCodes x (List.mem_of_getElem? hx)).1 r' hxr
  exact (hdrawn.burned n hby).1

variable (ext) in
/-- Any run. -/
abbrev Run (c d : TotpConfig) : Prop := (totpSystem ext).Reaches allRuns c d

variable (ext) in
/-- The step-ups that have accepted the code. -/
def acceptances (rc : String) (w : TotpSrv) : List Acceptance :=
  w.mem.log.filterMap (acceptanceOf (hashRecoveryCode ext rc))

/--
**A recovery code is accepted once, for its owner, and not after its
enrolment.**  Of a code `rc` that `confirm_2fa` has returned to user `u`, in
every spelling and every run: at most one step-up accepts it, for `u`; two
calls that answered `Ok` are one call of `u`; the steps of calls of other users
leave it usable; and after a `confirm_2fa` or `disable_2fa` of `u` that started
later has answered `Ok`, no call that starts then accepts it.
-/
theorem recovery_codes (hlower : LowersAscii ext) (users : List UserRow)
    (clock : DateTime) (c : TotpConfig) (i : Nat) (u : Uuid)
    (code rc : String) (cs : List String)
    (hreach : Run ext (Config.start (startState users clock)) c)
    (hanswer : c.answer i = some (.confirm2fa u code, .ok (.codes cs)))
    (hrc : rc ∈ cs) :
    (∀ d, Run ext c d → (acceptances ext rc d.shared).length ≤ 1 ∧
      ∀ a ∈ acceptances ext rc d.shared, a.userId = u) ∧
    (∀ d e k l v v' s s', Run ext (Config.start (startState users clock)) d →
      Run ext d e → Run ext c e → Spelling rc s → Spelling rc s' →
      Accepts d k v s → Accepts e l v' s' →
      v = u ∧ v' = u ∧ k = l ∧
        ∀ m, Run ext d m → Run ext m e → m.thread l ≠ none) ∧
    (∀ d e, Run ext c d → (totpSystem ext).Reaches (others u) d e →
      Usable u (hashRecoveryCode ext rc) d.shared →
      Usable u (hashRecoveryCode ext rc) e.shared) ∧
    ∀ d e f j, Run ext c d → d.thread j = none → Run ext d e →
      Replaces e j u → Run ext e f →
      (∀ a ∈ acceptances ext rc f.shared,
        a.number < e.shared.mem.stepUps.length) ∧
      ∀ k v s, e.thread k = none → Spelling rc s → ¬ Accepts f k v s := by
  have hstart : GoodCodes (Config.start (startState users clock)) := codes_start
  have hgood : ∀ {d}, Run ext (Config.start (startState users clock)) d →
      GoodCodes d := fun h => (codes_reaches hstart h).1
  have hfresh : ∀ k, (Config.start (startState users clock) :
      TotpConfig).thread k = none := fun _ => rfl
  -- the row of the code, and its form
  have hafter := after_reaches (u := u) (K := []) hstart
    (fun k hk => by cases hk) (Nat.zero_le _) (hfresh i) hreach hanswer
  obtain ⟨hform, -, hstored⟩ := hafter rfl
  have hcode : IsCode rc := hform rc hrc
  have hrow : Stored u (hashRecoveryCode ext rc) c.shared := hstored rc hrc
  have hspell : ∀ {s}, Spelling rc s → isRecoveryCode s = true ∧
      hashRecoveryCode ext s = hashRecoveryCode ext rc :=
    fun hs => ⟨hcode.isRecoveryCode hs, hcode.hash_eq hlower hs⟩
  have hrowAt : ∀ {d}, Run ext c d →
      Stored u (hashRecoveryCode ext rc) d.shared := fun h =>
    hrow.evolves (codes_reaches (hgood hreach) h).2.evolves
  refine ⟨fun d hd => ?_, fun d e k l v v' s s' hd hde hce hs hs' hk hl => ?_,
    fun d e hd hde husable => ?_, fun d e f j hd hfree hde hreplaces hef => ?_⟩
  · have hinv := (hgood (hreach.trans hd)).inv
    refine ⟨acceptances_le_one hinv _, fun a ha => ?_⟩
    exact (hrowAt hd).owner hinv (acceptance_burned hinv ha)
  · have hinv := (hgood (hd.trans hde)).inv
    obtain ⟨n, -, hnk, hn⟩ :=
      accepts_burned hstart (hfresh k) hd (hspell hs).1 hk
    obtain ⟨m, -, hml, hm⟩ :=
      accepts_burned hstart (hfresh l) (hd.trans hde) (hspell hs').1 hl
    rw [(hspell hs).2] at hn
    rw [(hspell hs').2] at hm
    obtain ⟨-, hlater⟩ := codes_reaches (hgood hd) hde
    have hn' := hn.evolves (hgood hd).inv hlater.evolves
    obtain ⟨rfl, -⟩ := Burned.unique hinv hn' hm
    have hkl : k = l := Option.some.inj
      ((getElem?_longer hlater.stepUps hnk).symm.trans hml)
    refine ⟨(hrowAt hce).owner hinv hn', (hrowAt hce).owner hinv hm, hkl,
      fun x hdx hxe hfree => ?_⟩
    -- a call that starts later has a later number
    obtain ⟨m, hle, -, hm'⟩ :=
      accepts_burned (hgood (hd.trans hdx)) hfree hxe (hspell hs').1 hl
    rw [(hspell hs').2] at hm'
    obtain ⟨rfl, -⟩ := Burned.unique hinv hn' hm'
    have hlt := (List.getElem?_eq_some_iff.mp hnk).1
    have hprefix := (codes_reaches (hgood hd) hdx).2.stepUps.length_le
    omega
  · obtain ⟨k, r, hr, hu, hh, hunused⟩ := husable
    exact ⟨k, r, (others_keep (hreach.trans hd) hde).rows k r hr hu, hu, hh,
      hunused⟩
  · have hde' := hreach.trans hd
    have he := hgood (hde'.trans hde)
    have hf := (codes_reaches he hef)
    obtain ⟨k₀, r₀, hr₀, hu₀, hh₀⟩ := hrowAt hd
    obtain ⟨r, hr, hused⟩ := replaces_used (hgood hde') ⟨r₀, hr₀, hu₀⟩
      hfree hde hreplaces
    obtain ⟨r', hr', hstep⟩ :=
      (codes_reaches (hgood hde') hde).2.evolves .recoveryCodes k₀ r₀ hr₀
    obtain rfl : r' = r := Option.some.inj (hr'.symm.trans hr)
    have hhash : r'.codeHash = hashRecoveryCode ext rc :=
      hstep.codeHash.trans hh₀
    have hbefore : ∀ {n v}, Burned n v (hashRecoveryCode ext rc) f.shared →
        n < e.shared.mem.stepUps.length := fun hb =>
      burned_before he hf.1.inv hf.2 hr hused (hhash.symm ▸ hb)
    refine ⟨fun a ha => hbefore (acceptance_burned hf.1.inv ha),
      fun k v s hk hs haccepts => ?_⟩
    obtain ⟨n, hle, -, hn⟩ :=
      accepts_burned he hk hef (hspell hs).1 haccepts
    rw [(hspell hs).2] at hn
    have hlt := hbefore hn
    omega

end Runs

/-! ## A run -/

/-- User 0 has ten recovery codes. -/
def enrolled : TotpConfig :=
  ((totpSystem sampleExternals).exec .all
    (Config.start (startState [sampleUser 0, sampleUser 1] 0))
    (setsUp 0 0 ++ confirms 1 0 "755224")).get (by decide +kernel)

/-- A spelling of the second code. -/
def typed : String := "\t0A0B0-C0D0E-0F101-11213 "

theorem typed_spelling : Spelling "0a0b0-c0d0e-0f101-11213" typed :=
  ⟨['\t'], "0A0B0-C0D0E-0F101-11213".toList, [' '], by decide +kernel,
    fun c hc => (by rw [List.mem_singleton.mp hc]; rfl),
    fun c hc => (by rw [List.mem_singleton.mp hc]; rfl), by decide +kernel⟩

/-- User 0 has used it. -/
def burnedOnce : TotpConfig :=
  ((totpSystem sampleExternals).exec .all enrolled
    ([.call 2 (.verify2faCode 0 typed)] ++ steps 2 6)).get (by decide +kernel)

theorem recovery_codes_typed : Accepts burnedOnce 2 0 typed ∧
    ∀ e l v s, Run sampleExternals burnedOnce e →
      Spelling "0a0b0-c0d0e-0f101-11213" s → Accepts e l v s →
      2 = l ∧ v = 0 ∧ ∀ m, Run sampleExternals burnedOnce m →
        Run sampleExternals m e → m.thread l ≠ none := by
  have haccepts : Accepts burnedOnce 2 0 typed :=
    .inl ⟨.kind .recoveryCode, by decide +kernel⟩
  have henrolled : Run sampleExternals (Config.start
      (startState [sampleUser 0, sampleUser 1] 0)) enrolled :=
    System.exec_reaches (Check.implies_all _) (Option.some_get _).symm
  have hburned : Run sampleExternals enrolled burnedOnce :=
    System.exec_reaches (Check.implies_all _) (Option.some_get _).symm
  refine ⟨haccepts, fun e l v s he hs hl => ?_⟩
  have hrules := recovery_codes (fun s _ => rfl) [sampleUser 0, sampleUser 1] 0
    enrolled 1 0 "755224" "0a0b0-c0d0e-0f101-11213"
    (recoveryCodes 10 (List.range 100)) henrolled (by decide +kernel)
    (by decide +kernel)
  obtain ⟨-, hv, hkl, hbusy⟩ := hrules.2.1 burnedOnce e 2 l 0 v typed s
    (henrolled.trans hburned) he (hburned.trans he) typed_spelling hs haccepts hl
  exact ⟨hkl, hv, hbusy⟩

end DpopAuth.Ports.RecoveryUse
