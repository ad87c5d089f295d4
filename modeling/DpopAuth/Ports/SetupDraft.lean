import DpopAuth.Verified.RowHistories
import DpopAuth.Verified.TransactionRules
import DpopAuth.Ports.TwoFactorColumns

/-!
# Setting up twice

`setup_2fa` stores a fresh draft unless it has seen one.  As long as the draft
is stored only where there still is none, a stored secret stays with its user:
the draft is promoted, not replaced.  Two calls that both see no draft show
what happens otherwise.

## Main results

* `setPending_outline` — the `UPDATE`, where there is no live draft.
* `setup_keeps_secret` — runs of `setup_2fa` and `confirm_2fa`.
* `second_setup_orphans_first` — the overwritten draft.
-/

namespace DpopAuth.Ports.SetupDraft

open DpopAuth.Verified.Resumption
open DpopAuth.Verified.RelyGuarantee
open DpopAuth.Verified.RowVersions
open DpopAuth.Verified.Transactions
open DpopAuth.Verified.TransactionRules
open DpopAuth.Verified.StepRules
open DpopAuth.Verified.RowHistories
open DpopAuth.Ports.Errors
open DpopAuth.Ports.Schema
open DpopAuth.Ports.TwoFactor
open DpopAuth.Ports.TwoFactorSteps
open DpopAuth.Ports.TwoFactorColumns

/-! ## Drafts -/

/-- `get_pending_totp_secret` would answer the draft of the row. -/
def Live (now : Int) (r : TotpUser) : Prop :=
  r.totpPendingAt.any (fun t => now - draftTtl < t) = true

instance (now : Int) (r : TotpUser) : Decidable (Live now r) := by
  unfold Live
  infer_instance

/-- The row holds the secret: as a draft made since `t₀`, or as the secret of
the enrolment. -/
def HoldsSecret (t₀ : Int) (r : TotpUser) (s : String) : Prop :=
  (r.totpPendingSecret = some s ∧ ∃ t : Int, r.totpPendingAt = some t ∧ t₀ ≤ t) ∨
    (r.totpEnabled = true ∧ r.totpSecret = some s)

/-- What is known of one row: the columns fit together, a draft was made in
the lifetime that began at `t₀` or had expired at `c₀`, and its Base32 is
spelled the way the library does. -/
structure Drafted (ext : TotpExternals) (t₀ c₀ : Int) (u : UserRow) : Prop where
  columns : Consistent u
  made : ∀ t : Int, u.totpPendingAt = some t → t₀ ≤ t ∨ t + draftTtl ≤ c₀
  spelled : ∀ s, u.totpPendingSecret = some s → ext.tryFromBase32 s = .ok s

abbrev DraftRow (ext : TotpExternals) (t₀ c₀ : Int) : ∀ t, TotpRow t → Prop
  | .users, u => Drafted ext t₀ c₀ u.toUserRow
  | .recoveryCodes, _ => True

/-- A secret stays with its row. -/
structure KeepsSecret (t₀ : Int) (r v : TotpUser) : Prop where
  id : v.id = r.id
  deletedAt : v.deletedAt = r.deletedAt
  held : ∀ s, HoldsSecret t₀ r s → HoldsSecret t₀ v s

abbrev DraftStep (t₀ : Int) : ∀ t, TotpRow t → TotpRow t → Prop
  | .users, r, v => KeepsSecret t₀ r v
  | .recoveryCodes, _, _ => True

variable {ext : TotpExternals} {t₀ c₀ : Int} {i : Nat} {w w' : TotpSrv}
  {α β : Type}

theorem draftStep_history : IsHistory (DraftStep t₀) where
  refl {t} r := by
    cases t with
    | users => exact ⟨rfl, rfl, fun _ h => h⟩
    | recoveryCodes => trivial
  trans {t} r s u h h' := by
    cases t with
    | users =>
        exact ⟨h'.id.trans h.id, h'.deletedAt.trans h.deletedAt,
          fun s hs => h'.held s (h.held s hs)⟩
    | recoveryCodes => trivial

/-- A row that is off and has no live draft holds nothing. -/
theorem holds_nothing {r : TotpUser} {now : Int} (hnow : now < t₀ + draftTtl)
    (hoff : r.totpEnabled = false) (hdraft : ¬ Live now r) (s : String) :
    ¬ HoldsSecret t₀ r s := by
  rintro (⟨-, t, ht, hle⟩ | ⟨hon, -⟩)
  · apply hdraft
    have hlive : now - draftTtl < t := by omega
    simp [Live, ht, hlive]
  · rw [hoff] at hon
    cases hon

/-- Activation promotes the draft. -/
theorem KeepsSecret.activate {r : TotpUser} {now : DateTime}
    (hcols : Consistent r.toUserRow) (hdraft : r.totpPendingSecret.isSome = true) :
    KeepsSecret t₀ r { r with
      totpSecret := r.totpPendingSecret
      totpEnabled := true
      totpEnabledAt := some now
      totpPendingSecret := none
      totpPendingAt := none
      enrolments := r.enrolments + 1 } := by
  refine ⟨rfl, rfl, fun s hs => .inr ⟨rfl, ?_⟩⟩
  rcases hs with ⟨hs, -⟩ | ⟨hon, -⟩
  · exact hs
  · have hnone : r.totpPendingSecret = none := hcols.settled hon
    rw [hnone] at hdraft
    cases hdraft

/-! ## The logic -/

/-- Steps keep every secret, and the lifetime has not ended. -/
def draftLogic (ext : TotpExternals) (t₀ c₀ : Int) : Logic TotpSrv where
  inv w := Linked (DraftRow ext t₀ c₀) (DraftStep t₀) w ∧ c₀ ≤ w.clock ∧
    w.clock < t₀ + draftTtl
  guar i w w' := w.Frame i w' ∧ Evolves (DraftStep t₀) w w' ∧
    SameSize .users w w'
  env w w' := w'.db = w.db ∧ w'.session = w.session

/-- What every statement but one respects. -/
abbrev Careful (ext : TotpExternals) (t₀ c₀ : Int) (i : Nat) (w w' : TotpSrv) :
    Prop :=
  w.Frame i w' ∧ Follows (DraftRow ext t₀ c₀) (DraftStep t₀) w w' ∧
    SameSize .users w w'

theorem respects_careful : Respects i (Careful ext t₀ c₀ i) :=
  respects_frame.and ((respects_follows draftStep_history).and respects_size)

theorem Careful.logic (h : Careful ext t₀ c₀ i w w')
    (hw : (draftLogic ext t₀ c₀).inv w) :
    (draftLogic ext t₀ c₀).inv w' ∧ (draftLogic ext t₀ c₀).guar i w w' := by
  obtain ⟨hframe, hfollows, hsize⟩ := h
  obtain ⟨hlinked, hevolves⟩ := hfollows hw.1
  refine ⟨⟨hlinked, ?_⟩, hframe, hevolves, hsize⟩
  rw [hframe.clock]
  exact hw.2

theorem careful_memory {f : Action TotpSrv Chance β} (h : MemoryOnly f) :
    Within i (Careful ext t₀ c₀ i) f := by
  intro ch w b w' hf
  obtain ⟨m, rfl⟩ := h hf
  exact ⟨World.frame_mem i m w, .same draftStep_history rfl, rfl⟩

theorem careful_codes {pt : Place} {p : Int → IssuedCode → Bool}
    {f : Int → IssuedCode → IssuedCode} :
    (update (ω := TotpMemory) (ν := Entropy) pt TotpTbl.recoveryCodes p
      f).Every (Within i (Careful ext t₀ c₀ i)) :=
  within_update respects_careful fun hvisit =>
    ⟨World.frame_setTable fun _ hj => Table.same_visit (Ne.symm hj) hvisit,
      follows_visit draftStep_history (fun _ _ _ => ⟨trivial, trivial⟩) hvisit,
      size_visit hvisit⟩

theorem confirms_careful : Confirms ext (Within i (Careful ext t₀ c₀ i)) where
  select := within_select respects_careful
  activate u s := by
    refine Prog.Every.except_bind (within_update respects_careful
      fun hvisit => ⟨World.frame_setTable fun _ hj =>
        Table.same_visit (Ne.symm hj) hvisit,
        follows_visit draftStep_history (fun r hr hp => ?_) hvisit,
        size_visit hvisit⟩) fun _ => trivial
    simp only [Bool.and_eq_true] at hp
    exact ⟨⟨.activate hp.1.2, by simp, by simp⟩,
      KeepsSecret.activate hr.columns hp.1.2⟩
  create u hs e := by
    unfold createRecoveryCodes
    split
    · trivial
    · exact within_insert respects_careful fun hinsert =>
        ⟨World.frame_setTable fun _ hj => insertRows_same hj hinsert,
          follows_insert draftStep_history (fun _ _ => trivial) hinsert,
          size_other (by simp) _⟩
  invalidate u := Prog.Every.except_bind careful_codes fun _ => trivial
  block hregion := within_transaction respects_careful hregion
  look hf := fun ch w b w' hstep => by
    rw [hf hstep]
    exact respects_careful.refl w
  issue := careful_memory memory_issue

/-! ## Assertions -/

/-- Row `k` is the row of the user, who is not deleted. -/
def RowOf (u : Uuid) (k : Nat) (w : TotpSrv) : Prop :=
  ∃ r, committedAt (w.db .users) k = some r ∧ r.id = u ∧ r.deletedAt = none

/-- A row of the user holds the secret. -/
def Kept (t₀ : Int) (u : Uuid) (s : String) (w : TotpSrv) : Prop :=
  ∃ k r, committedAt (w.db .users) k = some r ∧ r.id = u ∧ HoldsSecret t₀ r s

theorem RowOf.evolves {u : Uuid} {k : Nat} (h : RowOf u k w)
    (hw : Evolves (DraftStep t₀) w w') : RowOf u k w' := by
  obtain ⟨r, hr, hid, hdel⟩ := h
  obtain ⟨r', hr', hstep⟩ := hw .users k r hr
  exact ⟨r', hr', hstep.id.trans hid, hstep.deletedAt.trans hdel⟩

theorem Kept.evolves {u : Uuid} {s : String} (h : Kept t₀ u s w)
    (hw : Evolves (DraftStep t₀) w w') : Kept t₀ u s w' := by
  obtain ⟨k, r, hr, hid, hs⟩ := h
  obtain ⟨r', hr', hstep⟩ := hw .users k r hr
  exact ⟨k, r', hr', hstep.id.trans hid, hstep.held s hs⟩

variable {L : Logic TotpSrv} {u : Uuid} {k : Nat} {s : String}

theorem stable_rest : Stable (draftLogic ext t₀ c₀) i (AtRest i) where
  thread hne _ _ hg h := h.frame (Ne.symm hne) hg.1
  env _ _ he h := ⟨by rw [he.2]; exact h.status, fun t => by rw [he.1]; exact h.own t⟩

theorem stable_rowOf : Stable (draftLogic ext t₀ c₀) i (RowOf u k) where
  thread _ _ _ hg h := h.evolves hg.2.1
  env _ _ he h := by
    unfold RowOf
    rw [he.1]
    exact h

theorem stable_kept : Stable (draftLogic ext t₀ c₀) i (Kept t₀ u s) where
  thread _ _ _ hg h := h.evolves hg.2.1
  env _ _ he h := by
    unfold Kept
    rw [he.1]
    exact h

/-! ## The `UPDATE` of `set_pending_totp_secret` -/

/-- The user's committed row is off and has no live draft. -/
def Vacant (u : Uuid) (w : TotpSrv) : Prop :=
  ∀ r ∈ (w.db .users).rows, r.id = u →
    r.totpEnabled = false ∧ ¬ Live w.clock r

instance (u : Uuid) (w : TotpSrv) : Decidable (Vacant u w) := by
  unfold Vacant
  infer_instance

/-- Session `i` has written the draft into row `k`. -/
def Written (t₀ : Int) (i : Nat) (u : Uuid) (s : String) (k : Nat)
    (w : TotpSrv) : Prop :=
  ∃ c v, (w.db .users)[k]? = some c ∧ c.pending = some (i, v) ∧ v.id = u ∧
    HoldsSecret t₀ v s

/-- Session `i` does not hold row `k`. -/
def Unwritten (i : Nat) (k : Nat) (w : TotpSrv) : Prop :=
  ∀ c, (w.db .users)[k]? = some c → c.heldBy i = false

/-- Half-way through the `UPDATE`: row `k` is written, or still to be
visited. -/
structure Storing (t₀ : Int) (i : Nat) (u : Uuid) (s : String) (k : Nat)
    (ks : List Nat) (w : TotpSrv) : Prop where
  status : (w.session i).status = .implicit
  started : t₀ ≤ (w.session i).started
  row : RowOf u k w
  stage : k ∈ ks ∧ Unwritten i k w ∨ Written t₀ i u s k w

theorem Written.frame {j : Nat} (h : Written t₀ i u s k w) (hne : i ≠ j)
    (hf : w.Frame j w') : Written t₀ i u s k w' := by
  obtain ⟨c, v, hc, hv, hrest⟩ := h
  have hheld : c.heldBy i = true := by simp [Cell.heldBy, hv]
  exact ⟨c, v, (hf.held i hne .users k c hheld).mp hc, hv, hrest⟩

theorem Unwritten.frame {j : Nat} (h : Unwritten i k w) (hne : i ≠ j)
    (hf : w.Frame j w') : Unwritten i k w' := by
  intro c hc
  cases hheld : c.heldBy i with
  | false => rfl
  | true =>
      have hold := h c ((hf.held i hne .users k c hheld).mpr hc)
      rw [hheld] at hold
      cases hold

theorem stable_storing {ks : List Nat} :
    Stable (draftLogic ext t₀ c₀) i (Storing t₀ i u s k ks) where
  thread hne _ _ hg h := by
    have hsession := hg.1.session i (Ne.symm hne)
    refine ⟨hsession ▸ h.status, hsession ▸ h.started, h.row.evolves hg.2.1, ?_⟩
    rcases h.stage with ⟨hin, hfree⟩ | hdone
    · exact .inl ⟨hin, hfree.frame (Ne.symm hne) hg.1⟩
    · exact .inr (hdone.frame (Ne.symm hne) hg.1)
  env _ _ he h := by
    refine ⟨he.2 ▸ h.status, he.2 ▸ h.started, ?_, ?_⟩
    · unfold RowOf
      rw [he.1]
      exact h.row
    · unfold Written Unwritten
      rw [he.1]
      exact h.stage

/-- The condition of the `UPDATE`. -/
def offRow (u : Uuid) (r : TotpUser) : Bool :=
  r.id == u && !r.totpEnabled && r.deletedAt.isNone

/-- The draft is written where there is none. -/
theorem Vacant.write (hlinked : Linked (DraftRow ext t₀ c₀) (DraftStep t₀) w)
    (hclock : w.clock < t₀ + draftTtl) (hvacant : Vacant u w) {now : Int}
    (hnow : t₀ ≤ now) (hspelled : ext.tryFromBase32 s = .ok s) {l : Nat}
    {o : Option TotpUser} {x : Table TotpUser}
    (hvisit : (w.db TotpTbl.users).visit i (offRow u) (fun r : TotpUser =>
      { r with totpPendingSecret := some s, totpPendingAt := some now }) l =
        some (o, x)) :
    Careful ext t₀ c₀ i w (w.setTable .users x) := by
  refine ⟨World.frame_setTable fun _ hj => Table.same_visit (Ne.symm hj) hvisit,
    fun _ => hlinked.write draftStep_history hvisit ?_, size_visit hvisit⟩
  intro c r hc _ hseen hp
  have hmem := List.mem_of_getElem? hc
  have hr : Drafted ext t₀ c₀ r.toUserRow := (hlinked.versions .users c hmem).seen hseen
  simp only [offRow, Bool.and_eq_true, Bool.not_eq_true', beq_iff_eq] at hp
  refine ⟨⟨hr.columns.setPending hp.1.2, fun t ht => ?_, fun v hv => ?_⟩,
    fun r₀ hr₀ => ?_⟩
  · simp only [Option.some.injEq] at ht
    exact .inl (ht ▸ hnow)
  · simp only [Option.some.injEq] at hv
    exact hv ▸ hspelled
  · have hlink : KeepsSecret t₀ r₀ r :=
      (hlinked.links .users c hmem).seen (draftStep_history.refl r₀) hr₀ hseen
    have hid : r₀.id = u := hlink.id.symm.trans hp.1.1
    obtain ⟨hoff, hdraft⟩ := hvacant r₀ (Table.mem_rows.mpr ⟨c, hmem, hr₀⟩) hid
    exact ⟨hlink.id, hlink.deletedAt, fun v hv =>
      absurd hv (holds_nothing hclock hoff hdraft v)⟩

/-- A visit brings row `k` forward. -/
theorem Storing.visit {l : Nat} {ks : List Nat}
    (h : Storing t₀ i u s k (l :: ks) w) (hvacant : Vacant u w)
    {o : Option TotpUser} {x : Table TotpUser}
    (hvisit : (w.db TotpTbl.users).visit i (offRow u) (fun r : TotpUser =>
      { r with totpPendingSecret := some s
               totpPendingAt := some (w.session i).started }) l = some (o, x))
    (hrow : RowOf u k (w.setTable .users x)) :
    Storing t₀ i u s k ks (w.setTable .users x) := by
  refine ⟨h.status, h.started, hrow, ?_⟩
  unfold Written Unwritten
  simp only [World.setTable, Function.update_self]
  rcases Table.visit_set hvisit with ⟨-, rfl, hskip⟩ |
    ⟨c, r, hc, -, -, hp, -, rfl⟩
  · rcases h.stage with ⟨hin, hfree⟩ | hdone
    · rcases List.mem_cons.mp hin with rfl | hin
      · -- the row qualifies, so it is not skipped
        obtain ⟨r, hr, hid, hdel⟩ := h.row
        obtain ⟨c, hc, hcr⟩ := committedAt_eq.mp hr
        have hseen : c.seenBy i = some r := by
          rw [Cell.seenBy_of_not_heldBy (hfree c hc), hcr]
        have hoff := (hvacant r (mem_rows_iff.mpr ⟨k, hr⟩) hid).1
        have hnot := (hskip c r hc).2 hseen
        simp [offRow, hid, hoff, hdel] at hnot
      · exact .inl ⟨hin, hfree⟩
    · exact .inr hdone
  · by_cases hl : l = k
    · subst hl
      have hlt := (List.getElem?_eq_some_iff.mp hc).1
      simp only [offRow, Bool.and_eq_true, beq_iff_eq] at hp
      exact .inr ⟨_, _, List.getElem?_set_self hlt, rfl, hp.1.1,
        .inl ⟨rfl, _, rfl, h.started⟩⟩
    · rw [List.getElem?_set_ne hl]
      rcases h.stage with ⟨hin, hfree⟩ | hdone
      · rcases List.mem_cons.mp hin with rfl | hin
        · exact absurd rfl hl
        · exact .inl ⟨hin, hfree⟩
      · exact .inr hdone

/-- A statement that is under way stays open. -/
theorem Storing.opens {ks : List Nat} (h : Storing t₀ i u s k ks w)
    (pt : Place) : Storing t₀ i u s k ks (w.openStatement i pt) := by
  simp only [World.openStatement, h.status]
  exact ⟨by simp [World.setSession], by simpa [World.setSession] using h.started,
    h.row, h.stage⟩

/-- The end of the statement commits the draft. -/
theorem Storing.completes (h : Storing t₀ i u s k [] w) :
    Kept t₀ u s (w.completeStatement i) := by
  rcases h.stage with ⟨hin, -⟩ | ⟨c, v, hc, hv, hid, hs⟩
  · cases hin
  · refine ⟨k, v, ?_, hid, hs⟩
    simp only [World.completeStatement, h.status]
    rw [committedAt_commit, hc]
    simp [Cell.commit, hv]

variable {F : Place → Chance → TotpSrv → TotpSrv → Prop}

/-- A step that only ever fails or does what `Careful` allows. -/
theorem careful_step {R : β → TotpSrv → Prop} {X : TotpSrv → Prop}
    {ξ : Type} {r : Except ξ β} (hw : (draftLogic ext t₀ c₀).inv w)
    (h : Careful ext t₀ c₀ i w w')
    (hpost : (draftLogic ext t₀ c₀).guar i w w' → exceptPost R X r w') :
    (draftLogic ext t₀ c₀).inv w' ∧ (draftLogic ext t₀ c₀).guar i w w' ∧
      exceptPost R X r w' := by
  obtain ⟨hinv, hguar⟩ := h.logic hw
  exact ⟨hinv, hguar, hpost hguar⟩

/-- **Storing a draft where there is none.** -/
theorem setPending_outline (hspelled : ext.tryFromBase32 s = .ok s)
    (ht₀ : t₀ ≤ c₀)
    (hF : ∀ {ch w w'}, F (.setPendingTotpSecret u s) ch w w' → Vacant u w) :
    Outline (draftLogic ext t₀ c₀) F i (setPendingTotpSecret u s).run
      (fun w => AtRest i w ∧ RowOf u k w)
      (exceptPost (fun _ => Kept t₀ u s) fun _ => True) := by
  refine Outline.except_bind (R := fun _ => Kept t₀ u s) ?_
    fun _ => Outline.pure fun _ _ h => h
  refine Outline.update (fun _ ks => Storing t₀ i u s k ks)
    (fun _ _ => stable_storing) (fun _ => stable_kept) (.const _) ?_ ?_ ?_
  · intro w ch r w' hw hP hstep hF'
    have hvacant := hF hF'
    rcases statement_cases hstep with ⟨hst, -, -⟩ | ⟨-, rfl, -, e, rfl⟩ |
      ⟨-, hrun⟩
    · rw [hP.1.status] at hst
      cases hst
    · exact careful_step hw (respects_careful.fails w) fun _ => trivial
    · simp only [Option.some.injEq, Prod.mk.injEq] at hrun
      obtain ⟨rfl, rfl⟩ := hrun
      refine careful_step hw (respects_careful.opens w _) fun hguar => ?_
      rw [hP.1.opens] at hguar ⊢
      have hfree : Unwritten i k w := fun c hc =>
        Table.own_eq_nil.mp (hP.1.own .users) c (List.mem_of_getElem? hc)
      refine ⟨by simp [World.setSession], ?_, hP.2, .inl ⟨?_, hfree⟩⟩
      · simp only [World.setSession, Function.update_self]
        exact Int.le_trans ht₀ hw.2.1
      · obtain ⟨r, hr, hid, hdel⟩ := hP.2
        obtain ⟨c, hc, hcr⟩ := committedAt_eq.mp hr
        have hoff := (hvacant r (mem_rows_iff.mpr ⟨k, hr⟩) hid).1
        refine Table.mem_targets.mpr ⟨c, r, hc, ?_, ?_⟩
        · rw [Cell.seenBy_of_not_heldBy (hfree c hc), hcr]
        · simp [hid, hoff, hdel]
  · intro done l ks w ch r w' hw hP hstep hF'
    have hvacant := hF hF'
    rcases statement_cases hstep with ⟨hst, -, -⟩ | ⟨-, rfl, -, e, rfl⟩ |
      ⟨-, hrun⟩
    · rw [hP.status] at hst
      cases hst
    · exact careful_step hw (respects_careful.fails w) fun _ => trivial
    · split at hrun
      · cases hrun
      rename_i o x hvisit
      simp only [Option.some.injEq, Prod.mk.injEq] at hrun
      obtain ⟨rfl, rfl⟩ := hrun
      have hopen := hP.opens (.setPendingTotpSecret u s)
      obtain ⟨hinv, hguar⟩ := Careful.logic
        (respects_careful.opens w (.setPendingTotpSecret u s)) hw
      have hvacant' : Vacant u (w.openStatement i (.setPendingTotpSecret u s)) := by
        simp only [World.openStatement, hP.status]
        exact hvacant
      have hwrite :=
        hvacant'.write (i := i) hinv.1 hinv.2.2 hopen.started hspelled hvisit
      refine careful_step hw (respects_careful.trans
        (respects_careful.opens w _) hwrite) fun hguar' => ?_
      exact hopen.visit hvacant' hvisit (hP.row.evolves hguar'.2.1)
  · intro done w ch r w' hw hP hstep _
    rcases statement_cases hstep with ⟨hst, -, -⟩ | ⟨-, rfl, -, e, rfl⟩ |
      ⟨-, hrun⟩
    · rw [hP.status] at hst
      cases hst
    · exact careful_step hw (respects_careful.fails w) fun _ => trivial
    · simp only [Option.some.injEq, Prod.mk.injEq] at hrun
      obtain ⟨rfl, rfl⟩ := hrun
      exact careful_step hw (respects_careful.trans
        (respects_careful.opens w _) (respects_careful.completes _))
        fun _ => (hP.opens _).completes

/-! ## The calls -/

theorem select_outline {f : Int → (∀ t, List (TotpRow t)) → β}
    {P : TotpSrv → Prop} {R : β → TotpSrv → Prop}
    (hR : ∀ b, Stable (draftLogic ext t₀ c₀) i (R b))
    (hread : ∀ {w w'}, (draftLogic ext t₀ c₀).inv w → AtRest i w → P w →
      AtRest i w' → w'.db = w.db → R (f w.clock fun t => (w.db t).rows) w') :
    Outline (draftLogic ext t₀ c₀) F i
      (Query.propagate (sql (select .plain f))).run
      (fun w => AtRest i w ∧ P w) (exceptPost R fun _ => True) := by
  have hstep : Outline (draftLogic ext t₀ c₀) F i (select .plain f)
      (fun w => AtRest i w ∧ P w) (exceptPost R fun _ => True) := by
    refine Outline.step (Stable.exceptPost hR (.const _))
      fun {w ch r w'} hw hP hstep _ => ?_
    have hwithin : Careful ext t₀ c₀ i w w' :=
      (within_select respects_careful).1 hstep
    obtain ⟨hrest, hdb, hanswer⟩ := hP.1.select hstep
    refine careful_step hw hwithin fun _ => ?_
    rcases hanswer with ⟨e, rfl⟩ | rfl
    · trivial
    · exact hread hw hP.1 hP.2 hrest hdb
  refine Outline.bind (fun r => ?_) hstep
  cases r with
  | error e => exact fun _ _ _ => trivial
  | ok b => exact fun _ _ h => h

theorem findUserById_outline :
    Outline (draftLogic ext t₀ c₀) F i (findUserById u).propagate.run
      (AtRest i) (exceptPost
        (fun o w => ∀ user, o = some user → AtRest i w ∧ ∃ k, RowOf u k w)
        fun _ => True) := by
  refine Outline.weaken (P := fun w => AtRest i w ∧ True)
    (fun _ _ h => ⟨h, trivial⟩) (select_outline (fun o => ?_) ?_)
  · exact Stable.forall fun user => Stable.forall fun _ =>
      stable_rest.and (.exists fun _ => stable_rowOf)
  · intro w w' _ _ _ hrest hdb user huser
    have hin := List.mem_of_find?_eq_some huser
    have hmatch := List.find?_some huser
    simp only [Bool.and_eq_true, beq_iff_eq, Option.isNone_iff_eq_none]
      at hmatch
    obtain ⟨k, hk⟩ := mem_rows_iff.mp hin
    refine ⟨hrest, k, user, ?_, hmatch⟩
    rw [hdb]
    exact hk

/-- A draft that is read was made in this lifetime. -/
theorem getPending_outline :
    Outline (draftLogic ext t₀ c₀) F i (getPendingTotpSecret u).propagate.run
      (fun w => AtRest i w ∧ RowOf u k w) (exceptPost
        (fun o w => (∀ v, o = some v → ext.tryFromBase32 v = .ok v ∧
          Kept t₀ u v w) ∧ AtRest i w ∧ RowOf u k w)
        fun _ => True) := by
  refine select_outline (fun o => ?_) ?_
  · refine Stable.and (Stable.forall fun v => Stable.forall fun _ =>
      (Stable.const _).and stable_kept) (stable_rest.and stable_rowOf)
  · intro w w' hw _ hrow hrest hdb
    refine ⟨fun v hv => ?_, hrest, ?_⟩
    · obtain ⟨r, hfind, hr⟩ := Option.bind_eq_some_iff.mp hv
      have hin := List.mem_of_find?_eq_some hfind
      have hmatch := List.find?_some hfind
      simp only [Bool.and_eq_true, beq_iff_eq] at hmatch
      obtain ⟨⟨⟨hid, -⟩, hlive⟩, -⟩ := hmatch
      obtain ⟨c, hc, hcr⟩ := Table.mem_rows.mp hin
      have hdrafted : Drafted ext t₀ c₀ r.toUserRow :=
        (hw.1.versions .users c hc).1 r hcr
      obtain ⟨k', hk'⟩ := mem_rows_iff.mp hin
      refine ⟨hdrafted.spelled v hr, k', r, by rw [hdb]; exact hk', hid, .inl ⟨hr, ?_⟩⟩
      obtain ⟨t, ht, hlt⟩ := (Option.any_eq_true _ _).mp hlive
      refine ⟨t, ht, ?_⟩
      rcases hdrafted.made t ht with hmade | hexpired
      · exact hmade
      · have hclock : c₀ ≤ w.clock := hw.2.1
        have hlater : w.clock - draftTtl < t := of_decide_eq_true hlt
        omega
    · unfold RowOf
      rw [hdb]
      exact hrow

theorem setupFromSecret_ok {issuer accountName : String} {setup : TotpSetup}
    (h : setupFromSecret ext s issuer accountName = .ok setup) :
    ext.tryFromBase32 s = .ok setup.secretBase32 := by
  unfold setupFromSecret at h
  split at h
  · cases h
  · rename_i totp hbuild
    split at h
    · cases h
    · simp only [Except.ok.injEq] at h
      subst h
      unfold buildTotp at hbuild
      split at hbuild
      · cases hbuild
      · rename_i secret hsecret
        dsimp only at hbuild
        split at hbuild
        · cases hbuild
        · simp only [Except.ok.injEq] at hbuild
          subst hbuild
          exact hsecret

/-- The answer is a secret that is kept. -/
theorem setup2fa_outline {issuer accountName : String}
    (hspell : ∀ s c, ext.tryFromBase32 s = .ok c → ext.tryFromBase32 c = .ok c)
    (ht₀ : t₀ ≤ c₀)
    (hF : ∀ {s ch w w'}, F (.setPendingTotpSecret u s) ch w w' → Vacant u w) :
    Outline (draftLogic ext t₀ c₀) F i
      (setup2fa ext u issuer accountName).run (AtRest i)
      (exceptPost (fun setup => Kept t₀ u setup.secretBase32) fun _ => True) := by
  refine Outline.except_bind findUserById_outline fun o => ?_
  cases o with
  | none => exact Outline.throw fun _ _ _ => trivial
  | some user =>
      dsimp only
      split
      · exact Outline.throw fun _ _ _ => trivial
      refine Outline.weaken (P := fun w => ∃ k, AtRest i w ∧ RowOf u k w)
        (fun _ _ h => ?_) (Outline.of_exists fun k => ?_)
      · obtain ⟨hrest, k, hk⟩ := h user rfl
        exact ⟨k, hrest, hk⟩
      refine Outline.except_bind getPending_outline fun pending => ?_
      cases pending with
      | some existing =>
          refine Outline.weaken (P := fun w =>
            ext.tryFromBase32 existing = .ok existing ∧ Kept t₀ u existing w)
            (fun _ _ h => h.1 existing rfl) (Outline.of_prop fun hspelled => ?_)
          dsimp only
          split
          · rename_i setup hsetup
            refine Outline.pure fun w _ h => ?_
            have hsame := setupFromSecret_ok hsetup
            rw [hspelled, Except.ok.injEq] at hsame
            exact hsame ▸ h
          · exact Outline.throw fun _ _ _ => trivial
      | none =>
          refine Outline.weaken (P := fun w => AtRest i w ∧ RowOf u k w)
            (fun _ _ h => h.2) ?_
          refine Outline.except_bind (R := fun r w =>
            (∀ setup, r = .ok setup →
              ext.tryFromBase32 setup.secretBase32 = .ok setup.secretBase32) ∧
              AtRest i w ∧ RowOf u k w) ?_ fun r => ?_
          · refine Outline.step (Stable.exceptPost (fun r => (Stable.const _).and
              (stable_rest.and stable_rowOf)) (.const _))
              fun {w ch r w'} hw hP hstep _ => ?_
            split at hstep
            · simp only [Option.some.injEq, Prod.mk.injEq] at hstep
              obtain ⟨rfl, rfl⟩ := hstep
              refine careful_step hw (respects_careful.refl w) fun _ => ?_
              exact ⟨fun setup hsetup => hspell _ _ (setupFromSecret_ok hsetup), hP⟩
            · cases hstep
          · cases r with
            | error e => exact Outline.throw fun _ _ _ => trivial
            | ok setup =>
                refine Outline.weaken (P := fun w =>
                  ext.tryFromBase32 setup.secretBase32 = .ok setup.secretBase32 ∧
                    AtRest i w ∧ RowOf u k w)
                  (fun _ _ h => ⟨h.1 setup rfl, h.2⟩)
                  (Outline.of_prop fun hspelled => ?_)
                refine Outline.except_bind (R := fun _ =>
                  Kept t₀ u setup.secretBase32) ?_
                  fun _ => Outline.pure fun _ _ h => h
                refine Outline.bind (fun r => ?_)
                  (setPending_outline hspelled ht₀ hF)
                cases r with
                | error e => exact fun _ _ _ => trivial
                | ok x => exact fun _ _ h => h

/-- A call whose steps are all careful. -/
theorem careful_outline {p : TotpProg α} {P : TotpSrv → Prop}
    (h : p.Every (Within i (Careful ext t₀ c₀ i))) :
    Outline (draftLogic ext t₀ c₀) F i p P fun _ _ => True := by
  refine Outline.weaken (P := fun _ => True) (fun _ _ _ => trivial)
    (Outline.every (.const _) ?_)
  refine Prog.Every.mono (fun {β f} (hf : Within i (Careful ext t₀ c₀ i) f) => ?_) h
  intro w ch b w' hw _ hstep
  obtain ⟨hinv, hguar⟩ := (hf hstep).logic hw
  exact ⟨hinv, hguar, trivial⟩

/-! ## Runs -/

/-- A call of `setup_2fa` or `confirm_2fa`. -/
def enrols : TotpCall → Bool
  | .setup2fa _ _ _ => true
  | .confirm2fa _ _ => true
  | _ => false

/-- Runs of `setup_2fa` and `confirm_2fa` within the lifetime that began at
`t₀`. -/
def lifetimeRuns (t₀ : Int) : Filter Place TotpSrv Chance Nat TotpCall where
  run _ q _ _ _ _ := enrols q = true
  cancel _ _ := True
  env _ _ w' := w'.clock < t₀ + draftTtl

/-- Those in which a draft is stored only where there is none. -/
def vacantRuns (t₀ : Int) : Filter Place TotpSrv Chance Nat TotpCall where
  run _ q pt _ w _ := enrols q = true ∧
    ∀ u s, pt = .setPendingTotpSecret u s → Vacant u w
  cancel _ _ := True
  env _ _ w' := w'.clock < t₀ + draftTtl

/-- A call of `setup_2fa` has answered with a secret that is kept. -/
def Answered (t₀ : Int) (q : TotpCall) (r : TotpResult) (w : TotpSrv) : Prop :=
  ∀ u issuer accountName setup, q = .setup2fa u issuer accountName →
    r = .ok (.setup setup) → Kept t₀ u setup.secretBase32 w

theorem call_outline {q : TotpCall}
    (hspell : ∀ s c, ext.tryFromBase32 s = .ok c → ext.tryFromBase32 c = .ok c)
    (ht₀ : t₀ ≤ c₀) :
    Outline (draftLogic ext t₀ c₀) ((vacantRuns t₀).run i q) i (q.body ext)
      (AtRest i) (Answered t₀ q) := by
  have hno : ∀ {p : TotpProg TotpResult}, enrols q = false →
      Outline (draftLogic ext t₀ c₀) ((vacantRuns t₀).run i q) i p (AtRest i)
        fun _ _ => True := by
    intro p hq
    refine Outline.of_filter fun _ hF => ?_
    rw [hF.1] at hq
    cases hq
  cases q with
  | setup2fa u issuer accountName =>
      refine Outline.bind (fun r => ?_) (setup2fa_outline hspell ht₀
        fun hF => hF.2 u _ rfl)
      cases r with
      | error e =>
          refine Outline.ret fun _ _ _ _ _ _ _ _ h => ?_
          cases h
      | ok setup =>
          refine Outline.ret fun w _ hkept u' _ _ setup' hq h => ?_
          cases hq
          cases h
          exact hkept
  | confirm2fa u code =>
      refine (careful_outline (every_map confirms_careful.confirm2fa)).post
        fun _ _ _ _ _ _ _ _ hq => ?_
      cases hq
  | verify2faCode u code =>
      refine (hno rfl).post fun _ _ _ _ _ _ _ _ hq => ?_
      cases hq
  | disable2fa u code =>
      refine (hno rfl).post fun _ _ _ _ _ _ _ _ hq => ?_
      cases hq
  | cleanupExpiredDrafts =>
      refine (hno rfl).post fun _ _ _ _ _ _ _ _ hq => ?_
      cases hq

/-- The user's row stores the secret, as the draft or as the secret of the
enrolment. -/
def Stored (u : Uuid) (s : String) (w : TotpSrv) : Prop :=
  ∃ r ∈ (w.db .users).rows, r.id = u ∧ (r.totpPendingSecret = some s ∨
    (r.totpEnabled = true ∧ r.totpSecret = some s))

instance (u : Uuid) (s : String) (w : TotpSrv) : Decidable (Stored u s w) := by
  unfold Stored
  infer_instance

theorem Kept.stored (h : Kept t₀ u s w) : Stored u s w := by
  obtain ⟨k, r, hr, hid, hs⟩ := h
  refine ⟨r, mem_rows_iff.mpr ⟨k, hr⟩, hid, ?_⟩
  rcases hs with ⟨hs, -⟩ | hs
  · exact .inl hs
  · exact .inr hs

section Runs

variable {users : List UserRow} {clock : Int} {c d : TotpConfig}

/-- What is known of every configuration of these runs. -/
abbrev GoodDraft (ext : TotpExternals) (t₀ c₀ : Int) (c : TotpConfig) : Prop :=
  Good (draftLogic ext t₀ c₀) (vacantRuns t₀) AtRest
    (fun q _ => Answered t₀ q) c

theorem draft_cancel {w : TotpSrv} (hw : (draftLogic ext t₀ c₀).inv w) :
    (draftLogic ext t₀ c₀).inv (w.rollbackTx i) ∧
      (draftLogic ext t₀ c₀).guar i w (w.rollbackTx i) ∧
        AtRest i (w.rollbackTx i) := by
  obtain ⟨hinv, hguar⟩ := Careful.logic (respects_careful.drops w) hw
  exact ⟨hinv, hguar, .rollback w⟩

theorem draft_env {d : Nat} {w w' : TotpSrv} (hw : (draftLogic ext t₀ c₀).inv w)
    (h : tick d w = some w') (hF : w'.clock < t₀ + draftTtl) :
    (draftLogic ext t₀ c₀).inv w' ∧ (draftLogic ext t₀ c₀).env w w' := by
  cases h
  refine ⟨⟨⟨hw.1.versions, hw.1.links⟩, ?_, hF⟩, rfl, rfl⟩
  exact Int.le_trans hw.2.1 (Int.le_add_of_nonneg_right (by omega))

theorem draft_start (hin : clock < t₀ + draftTtl)
    (husers : ∀ u ∈ users, Drafted ext t₀ clock u) :
    GoodDraft ext t₀ clock (Config.start (startState users clock)) := by
  refine Good.start ⟨⟨fun t c hc => ?_, fun t c hc => ?_⟩, Int.le_refl _, hin⟩
    fun i => ⟨rfl, fun t => ?_⟩
  · cases t with
    | users =>
        obtain ⟨u, hu, rfl⟩ := List.mem_map.mp hc
        refine ⟨fun r hr => ?_, fun j v hv => (by cases hv)⟩
        cases hr
        exact husers u hu
    | recoveryCodes => cases hc
  · cases t with
    | users =>
        obtain ⟨u, hu, rfl⟩ := List.mem_map.mp hc
        intro r hr j v hv
        cases hv
    | recoveryCodes => cases hc
  · cases t with
    | users =>
        refine Table.own_eq_nil.mpr fun c hc => ?_
        obtain ⟨u, hu, rfl⟩ := List.mem_map.mp hc
        rfl
    | recoveryCodes => rfl

theorem draft_reaches
    (hspell : ∀ s c, ext.tryFromBase32 s = .ok c → ext.tryFromBase32 c = .ok c)
    (ht₀ : t₀ ≤ c₀) (h : GoodDraft ext t₀ c₀ c)
    (hrun : (totpSystem ext).Reaches (vacantRuns t₀) c d) :
    GoodDraft ext t₀ c₀ d ∧ Evolves (DraftStep t₀) c.shared d.shared ∧
      SameSize .users c.shared d.shared := by
  have hbody : ∀ i q, Outline (draftLogic ext t₀ c₀) ((vacantRuns t₀).run i q)
      i ((totpSystem ext).body q) (AtRest i) (Answered t₀ q) :=
    fun i q => call_outline hspell ht₀
  have hcancel : ∀ {i : Nat} {q : TotpCall} {w : TotpSrv},
      (draftLogic ext t₀ c₀).inv w → (vacantRuns t₀).cancel i q →
        (draftLogic ext t₀ c₀).inv (w.rollbackTx i) ∧
          (draftLogic ext t₀ c₀).guar i w (w.rollbackTx i) ∧
            AtRest i (w.rollbackTx i) := fun hw _ => draft_cancel hw
  have henv : ∀ {e : Nat} {w w' : TotpSrv}, (draftLogic ext t₀ c₀).inv w →
      tick e w = some w' → (vacantRuns t₀).env e w w' →
        (draftLogic ext t₀ c₀).inv w' ∧ (draftLogic ext t₀ c₀).env w w' :=
    fun hw he hF => draft_env hw he hF
  refine ⟨sound (fun _ => stable_rest) hbody hcancel henv h hrun, ?_⟩
  exact sound_trans (R := fun w w' => Evolves (DraftStep t₀) w w' ∧
      SameSize .users w w') (fun _ => stable_rest) hbody hcancel henv
    (fun w => ⟨.refl draftStep_history w, rfl⟩)
    (fun h h' => ⟨h.1.trans draftStep_history h'.1,
      (respects_size (t := TotpTbl.users) (i := 0)).trans h.2 h'.2⟩)
    (fun _ _ hg => hg.2)
    (fun _ _ he => ⟨.of_committed draftStep_history fun t k => by rw [he.1],
      by rw [SameSize, he.1]⟩) h hrun

/-- Rows keep their places, so a user has one row. -/
theorem row_unique (hids : (users.map UserRow.id).Nodup)
    (hevolves : Evolves (DraftStep t₀) (startState users clock) w)
    (hsize : SameSize .users (startState users clock) w) {k l : Nat}
    {r v : TotpUser} (hr : committedAt (w.db .users) k = some r)
    (hv : committedAt (w.db .users) l = some v) (hid : r.id = v.id) : k = l := by
  have hplace : ∀ {k : Nat} {r : TotpUser},
      committedAt (w.db .users) k = some r →
        (users.map UserRow.id)[k]? = some r.id := by
    intro k r hr
    obtain ⟨c, hc, -⟩ := committedAt_eq.mp hr
    have hlt : k < users.length := by
      have hlen := (List.getElem?_eq_some_iff.mp hc).1
      rw [hsize] at hlen
      simpa [startState] using hlen
    have hold : committedAt ((startState users clock).db .users) k =
        some { users[k] with enrolments := 0 } := by
      simp [committedAt, startState, hlt]
    obtain ⟨r', hr', hstep⟩ := hevolves .users k _ hold
    rw [hr, Option.some.injEq] at hr'
    rw [hr', hstep.id]
    simp [hlt]
  have hlt : k < (users.map UserRow.id).length :=
    (List.getElem?_eq_some_iff.mp (hplace hr)).1
  exact (List.getElem?_inj hlt hids).mp (by rw [hplace hr, hplace hv, hid])

/-- **A secret that `setup_2fa` has answered is kept.**  In runs of `setup_2fa`
and `confirm_2fa` within one lifetime of a draft, in which a draft is stored
only where the user's row is off and has no live draft: from the moment a call
has returned `Ok` with a secret, the user's row stores this secret as its draft
or as the secret of the enrolment; and all calls return the same one. -/
theorem setup_keeps_secret (ext : TotpExternals)
    (hspell : ∀ s c, ext.tryFromBase32 s = .ok c → ext.tryFromBase32 c = .ok c)
    (users : List UserRow) (hids : (users.map UserRow.id).Nodup)
    (t₀ clock : Int) (hstart : t₀ ≤ clock) (hin : clock < t₀ + draftTtl)
    (husers : ∀ u ∈ users, Drafted ext t₀ clock u) (c d : TotpConfig)
    (hrun : (totpSystem ext).Reaches (vacantRuns t₀)
      (Config.start (startState users clock)) c)
    (hlater : (totpSystem ext).Reaches (vacantRuns t₀) c d)
    (i : Nat) (u : Uuid) (issuer accountName : String) (setup : TotpSetup)
    (hi : c.answer i = some (.setup2fa u issuer accountName,
      .ok (.setup setup))) :
    Stored u setup.secretBase32 d.shared ∧
    ∀ j issuer' accountName' setup',
      d.answer j = some (.setup2fa u issuer' accountName', .ok (.setup setup')) →
      setup'.secretBase32 = setup.secretBase32 := by
  obtain ⟨hc, -, -⟩ := draft_reaches hspell hstart (draft_start hin husers) hrun
  obtain ⟨hd, hevolves, -⟩ := draft_reaches hspell hstart hc hlater
  obtain ⟨-, hall, hsize⟩ := draft_reaches hspell hstart
    (draft_start hin husers) (hrun.trans hlater)
  have hkept : Kept t₀ u setup.secretBase32 d.shared :=
    (hc.result (Config.answer_eq.mp hi) u _ _ setup rfl rfl).evolves hevolves
  refine ⟨hkept.stored, fun j issuer' accountName' setup' hj => ?_⟩
  obtain ⟨k, r, hr, hid, hs⟩ := hkept
  obtain ⟨l, v, hv, hid', hs'⟩ :=
    hd.result (Config.answer_eq.mp hj) u _ _ setup' rfl rfl
  obtain rfl : k = l := row_unique hids hall hsize hr hv (hid.trans hid'.symm)
  rw [hr, Option.some.injEq] at hv
  subst hv
  obtain ⟨x, hx, hxr⟩ := committedAt_eq.mp hr
  have hcols : Consistent r.toUserRow :=
    ((hd.inv.1.versions .users x (List.mem_of_getElem? hx)).1 r hxr).columns
  rcases hs with ⟨hs, -⟩ | ⟨hon, hs⟩ <;> rcases hs' with ⟨hs', -⟩ | ⟨hon', hs'⟩
  · rw [hs, Option.some.injEq] at hs'
    exact hs'.symm
  · rw [hcols.settled hon'] at hs
    cases hs
  · rw [hcols.settled hon] at hs'
    cases hs'
  · rw [hs, Option.some.injEq] at hs'
    exact hs'.symm

end Runs

/-! ## Two calls at once -/

/-- The tests of the two kinds of runs. -/
def lifetimeCheck (t₀ : Int) : Check Place TotpSrv Chance Nat TotpCall where
  run _ q _ _ _ _ := enrols q
  cancel _ _ := true
  env _ _ w' := decide (w'.clock < t₀ + draftTtl)

def vacantCheck (t₀ : Int) : Check Place TotpSrv Chance Nat TotpCall where
  run _ q pt _ w _ := enrols q && match pt with
    | .setPendingTotpSecret u _ => decide (Vacant u w)
    | _ => true
  cancel _ _ := true
  env _ _ w' := decide (w'.clock < t₀ + draftTtl)

theorem lifetimeCheck_implies (t₀ : Int) :
    (lifetimeCheck t₀).Implies (lifetimeRuns t₀) :=
  ⟨fun h => h, fun _ => trivial, fun h => by
    simpa [lifetimeCheck, lifetimeRuns] using h⟩

theorem vacantCheck_implies (t₀ : Int) :
    (vacantCheck t₀).Implies (vacantRuns t₀) := by
  refine ⟨fun h => ?_, fun _ => trivial, fun h => by
    simpa [vacantCheck, vacantRuns] using h⟩
  obtain ⟨hq, hpt⟩ := (Bool.and_eq_true _ _).mp h
  refine ⟨hq, fun u s heq => ?_⟩
  subst heq
  exact of_decide_eq_true hpt

/-- A user is set up, asks again, and confirms. -/
def setUpTwice : TotpConfig :=
  ((totpSystem sampleExternals).exec (vacantCheck 0)
    (Config.start (startState [sampleUser 0] 0))
    (setsUp 0 0 ++ [.call 1 (.setup2fa 0 "Example" "user")] ++ steps 1 2)).get
    (by decide +kernel)

def setUpConfirmed : TotpConfig :=
  ((totpSystem sampleExternals).exec (vacantCheck 0) setUpTwice
    (confirms 2 0 "755224")).get (by decide +kernel)

theorem setup_keeps_secret_confirmed :
    Stored 0 sampleSecret setUpConfirmed.shared ∧
    ∀ j issuer' accountName' setup', setUpConfirmed.answer j =
        some (.setup2fa 0 issuer' accountName', .ok (.setup setup')) →
      setup'.secretBase32 = sampleSecret := by
  have hspell : ∀ s c, sampleExternals.tryFromBase32 s = .ok c →
      sampleExternals.tryFromBase32 c = .ok c := fun _ _ _ => rfl
  have hfresh : Drafted sampleExternals 0 0 (sampleUser 0) :=
    ⟨Registered.consistent ⟨rfl, rfl, rfl, rfl, rfl⟩, fun t ht => (by cases ht),
      fun s hs => (by cases hs)⟩
  exact setup_keeps_secret sampleExternals hspell [sampleUser 0] (by decide) 0 0
    (by decide) (by decide)
    (fun u hu => by rw [List.mem_singleton.mp hu]; exact hfresh)
    setUpTwice setUpConfirmed
    (System.exec_reaches (vacantCheck_implies 0) (Option.some_get _).symm)
    (System.exec_reaches (vacantCheck_implies 0) (Option.some_get _).symm)
    1 0 "Example" "user"
    ⟨sampleSecret, "otpauth://totp/?secret=" ++ sampleSecret⟩
    (by decide +kernel)

/-- Both calls see no draft; the second overwrites the draft of the first. -/
def setUpAtOnce : TotpConfig :=
  ((totpSystem sampleExternals).exec (lifetimeCheck 0)
    (Config.start (startState [sampleUser 0] 0))
    ([.call 0 (.setup2fa 0 "Example" "user"),
      .call 1 (.setup2fa 0 "Example" "user")] ++ steps 0 2 ++ steps 1 2 ++
      [drawSecret 0 sampleSecret, drawSecret 1 otherSecret] ++
      steps 0 3 ++ steps 1 3)).get (by decide +kernel)

/-- **The first QR code is orphaned**: two calls return `Ok` with different
secrets, and only one of them is stored. -/
theorem second_setup_orphans_first :
    (totpSystem sampleExternals).Reaches (lifetimeRuns 0)
      (Config.start (startState [sampleUser 0] 0)) setUpAtOnce ∧
    (∃ url, setUpAtOnce.answer 0 = some (.setup2fa 0 "Example" "user",
      .ok (.setup ⟨sampleSecret, url⟩))) ∧
    (∃ url, setUpAtOnce.answer 1 = some (.setup2fa 0 "Example" "user",
      .ok (.setup ⟨otherSecret, url⟩))) ∧
    ¬ Stored 0 sampleSecret setUpAtOnce.shared :=
  ⟨System.exec_reaches (lifetimeCheck_implies 0) (Option.some_get _).symm,
    ⟨"otpauth://totp/?secret=" ++ sampleSecret, by decide +kernel⟩,
    ⟨"otpauth://totp/?secret=" ++ otherSecret, by decide +kernel⟩,
    by decide +kernel⟩

end DpopAuth.Ports.SetupDraft
