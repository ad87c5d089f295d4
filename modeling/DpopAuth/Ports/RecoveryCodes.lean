import Mathlib.Data.List.Nodup
import DpopAuth.Verified.RowHistories
import DpopAuth.Verified.TransactionRules
import DpopAuth.Ports.TwoFactorSteps

/-!
# The life of a recovery code

What every step of every call does to `dpop_recovery_codes`: a row is inserted
once, by the thread that drew its code; a used row never changes again; and a
step-up that burns a code leaves its number in the row.

`Codes` is the invariant and `CodesMove` what a step may do.  The statements
that touch no code, or only mark codes as used, are `Careful`; the three steps
that do more are the drawing of codes, their `INSERT`, and the `UPDATE` of
`consume_recovery_code` with the note that follows.

## Main results

* `createRecoveryCodes_outline`, `consume_outline` — the two statements.
* `codes_reaches` — every run.
-/

namespace DpopAuth.Ports.RecoveryCodes

open DpopAuth.Verified.Resumption
open DpopAuth.Verified.RelyGuarantee
open DpopAuth.Verified.RowVersions
open DpopAuth.Verified.Transactions
open DpopAuth.Verified.TransactionRules
open DpopAuth.Verified.StepRules
open DpopAuth.Verified.RowHistories
open DpopAuth.Ports.Errors
open DpopAuth.Ports.Schema
open DpopAuth.Ports.TwoFactor
open DpopAuth.Ports.TwoFactorSteps

/-! ## Rows and notes -/

/-- The table of recovery codes. -/
abbrev codes (w : TotpSrv) : Table IssuedCode := w.db .recoveryCodes

/-- The hash of a row. -/
abbrev hashOf (r : IssuedCode) : String := r.codeHash

/-- What is known of one row: its code has been drawn, and if a step-up has
burned it, the row is used. -/
structure Drawn (m : TotpMemory) (r : IssuedCode) : Prop where
  issued : r.codeHash ∈ m.issued.map Prod.snd
  burned : ∀ n, r.usedBy = some n → n < m.stepUps.length ∧ r.usedAt ≠ none

abbrev CodeRow (m : TotpMemory) : ∀ t, TotpRow t → Prop
  | .users, _ => True
  | .recoveryCodes, r => Drawn m r

/-- A row keeps its owner, its hash and its enrolment, and once used it does
not change. -/
structure KeepsCode (r v : IssuedCode) : Prop where
  userId : v.userId = r.userId
  codeHash : v.codeHash = r.codeHash
  enrolment : v.enrolment = r.enrolment
  final : r.usedAt ≠ none → v = r

abbrev CodeStep : ∀ t, TotpRow t → TotpRow t → Prop
  | .users, _, _ => True
  | .recoveryCodes, r, v => KeepsCode r v

theorem KeepsCode.refl (r : IssuedCode) : KeepsCode r r :=
  ⟨rfl, rfl, rfl, fun _ => rfl⟩

theorem codeStep_history : IsHistory CodeStep where
  refl {t} r := by
    cases t with
    | users => trivial
    | recoveryCodes => exact .refl r
  trans {t} r s u h h' := by
    cases t with
    | users => trivial
    | recoveryCodes =>
        refine ⟨h'.userId.trans h.userId, h'.codeHash.trans h.codeHash,
          h'.enrolment.trans h.enrolment, fun hused => ?_⟩
        have hsame : s = r := h.final hused
        rw [h'.final (hsame ▸ hused), hsame]

/-- The step-up that burned a recovery code. -/
def burnedBy : Note → Option Nat
  | .accepted ⟨n, _, .recovery _, _⟩ _ => some n
  | _ => none

/-- The acceptance of the code with this hash. -/
def acceptanceOf (hash : String) : Note → Option Acceptance
  | .accepted ⟨n, u, .recovery h, e⟩ _ =>
      if h = hash then some ⟨n, u, .recovery h, e⟩ else none
  | _ => none

/-- The step-ups that burned a code, newest first. -/
def burns (w : TotpSrv) : List Nat := w.mem.log.filterMap burnedBy

variable {ext : TotpExternals} {i j n : Nat} {w w' w'' : TotpSrv} {α β : Type}

/-! ## The invariant -/

/-- The row that a step-up has burned. -/
def Burned (n : Nat) (u : Uuid) (h : String) (w : TotpSrv) : Prop :=
  ∃ k r, committedAt (codes w) k = some r ∧ r.userId = u ∧ r.codeHash = h ∧
    r.usedBy = some n

/-- The invariant of the recovery codes. -/
structure Codes (w : TotpSrv) : Prop where
  linked : Linked (CodeRow w.mem) CodeStep w
  unique : UniqueKeys hashOf (codes w)
  issued : (w.mem.issued.map Prod.snd).Nodup
  notes : ∀ {n u h e t},
    Note.accepted ⟨n, u, .recovery h, e⟩ t ∈ w.mem.log → Burned n u h w
  burns : (burns w).Nodup

/-- What a step of thread `i` may do. -/
structure CodesMove (i : Nat) (w w' : TotpSrv) : Prop where
  frame : w.Frame i w'
  evolves : Evolves CodeStep w w'
  keys : ∀ k h, HasKey hashOf (codes w') k h →
    HasKey hashOf (codes w) k h ∨ (i, h) ∈ w'.mem.issued
  issued : w.mem.issued <:+ w'.mem.issued
  stepUps : w.mem.stepUps <+: w'.mem.stepUps
  burns : ∀ n ∈ burns w', n ∈ RecoveryCodes.burns w ∨
    w'.mem.stepUps[n]? = some i

/-- What a longer list has at a place of the shorter one. -/
theorem getElem?_longer {xs ys : List α} (h : xs <+: ys) {k : Nat} {a : α}
    (hk : xs[k]? = some a) : ys[k]? = some a := by
  obtain ⟨zs, rfl⟩ := h
  rw [List.getElem?_append_left (List.getElem?_eq_some_iff.mp hk).1]
  exact hk

theorem CodesMove.trans (h : CodesMove i w w') (h' : CodesMove i w' w'') :
    CodesMove i w w'' where
  frame := h.frame.trans h'.frame
  evolves := h.evolves.trans codeStep_history h'.evolves
  keys k y hk := by
    rcases h'.keys k y hk with hold | hnew
    · rcases h.keys k y hold with hold | hnew
      · exact .inl hold
      · exact .inr (h'.issued.subset hnew)
    · exact .inr hnew
  issued := h.issued.trans h'.issued
  stepUps := h.stepUps.trans h'.stepUps
  burns n hn := by
    rcases h'.burns n hn with hold | hnew
    · rcases h.burns n hold with hold | hnew
      · exact .inl hold
      · exact .inr (getElem?_longer h'.stepUps hnew)
    · exact .inr hnew

/-- A burned row stays as it is. -/
theorem Burned.evolves {u : Uuid} {h : String} (hw : Codes w)
    (hb : Burned n u h w) (he : Evolves CodeStep w w') : Burned n u h w' := by
  obtain ⟨k, r, hr, hu, hh, hn⟩ := hb
  obtain ⟨c, hc, hcr⟩ := committedAt_eq.mp hr
  have hdrawn : Drawn w.mem r :=
    (hw.linked.versions .recoveryCodes c (List.mem_of_getElem? hc)).1 r hcr
  obtain ⟨r', hr', hstep⟩ := he .recoveryCodes k r hr
  obtain rfl : r' = r := hstep.final (hdrawn.burned n hn).2
  exact ⟨k, r', hr', hu, hh, hn⟩

theorem Drawn.grows {m m' : TotpMemory} {r : IssuedCode} (h : Drawn m r)
    (hissued : m.issued <:+ m'.issued) (hstepUps : m.stepUps <+: m'.stepUps) :
    Drawn m' r := by
  refine ⟨?_, fun n hn => ⟨?_, (h.burned n hn).2⟩⟩
  · obtain ⟨e, he, hh⟩ := List.mem_map.mp h.issued
    exact List.mem_map.mpr ⟨e, hissued.subset he, hh⟩
  · exact Nat.lt_of_lt_of_le (h.burned n hn).1 hstepUps.length_le

theorem Linked.grows {m m' : TotpMemory} (h : Linked (CodeRow m) CodeStep w)
    (hissued : m.issued <:+ m'.issued) (hstepUps : m.stepUps <+: m'.stepUps) :
    Linked (CodeRow m') CodeStep w := by
  refine ⟨fun t c hc => ?_, h.links⟩
  have hall := h.versions t c hc
  cases t with
  | users => exact ⟨fun _ _ => trivial, fun _ _ _ => trivial⟩
  | recoveryCodes =>
      exact ⟨fun r hr => (hall.1 r hr).grows hissued hstepUps,
        fun l v hv => (hall.2 l v hv).grows hissued hstepUps⟩

/-! ## Careful steps -/

/-- A step that inserts no code, writes no number, and leaves the memory
alone. -/
abbrev Careful (i : Nat) (w w' : TotpSrv) : Prop :=
  (w.Frame i w' ∧ SameMemory w w') ∧
    (∀ m, Follows (CodeRow m) CodeStep w w') ∧
      NoNewKeys TotpTbl.recoveryCodes hashOf w w'

theorem respects_careful : Respects i (Careful i) :=
  (respects_frame.and respects_memory).and
    ((Respects.forall fun _ => respects_follows codeStep_history).and
      respects_keys)

theorem Careful.move (h : Careful i w w') (hw : Codes w) :
    Codes w' ∧ CodesMove i w w' := by
  obtain ⟨⟨hframe, hmem, -⟩, hfollows, hkeys⟩ := h
  obtain ⟨hlinked, hevolves⟩ := hfollows w.mem hw.linked
  refine ⟨⟨hmem ▸ hlinked, fun k l y hk hl => ?_, hmem ▸ hw.issued,
    fun hin => ?_, ?_⟩, ⟨hframe, hevolves, fun k y hk => .inl (hkeys k y hk),
    ?_, ?_, fun n hn => .inl ?_⟩⟩
  · exact hw.unique k l y (hkeys k y hk) (hkeys l y hl)
  · rw [hmem] at hin
    exact (hw.notes hin).evolves hw hevolves
  · unfold burns
    rw [hmem]
    exact hw.burns
  · exact hmem ▸ List.suffix_refl _
  · exact hmem ▸ List.prefix_refl _
  · unfold burns at hn
    rwa [hmem] at hn

/-- A step on the memory that burns no code. -/
theorem memory_move {f : Action TotpSrv Chance β} (h : MemoryOnly f)
    {ch : Chance} {b : β} (hf : f i ch w = some (b, w')) (hw : Codes w)
    (hissued : w.mem.issued <:+ w'.mem.issued)
    (hnodup : (w'.mem.issued.map Prod.snd).Nodup)
    (hstepUps : w.mem.stepUps <+: w'.mem.stepUps)
    (hlog : ∀ {n u h e t},
      Note.accepted ⟨n, u, .recovery h, e⟩ t ∈ w'.mem.log →
        Note.accepted ⟨n, u, .recovery h, e⟩ t ∈ w.mem.log)
    (hburns : burns w' = burns w) : Codes w' ∧ CodesMove i w w' := by
  obtain ⟨m, rfl⟩ := h hf
  have hevolves : Evolves CodeStep w { w with mem := m } :=
    .of_committed codeStep_history fun _ _ => rfl
  refine ⟨⟨?_, hw.unique, hnodup, fun hin => ?_, hburns ▸ hw.burns⟩,
    ⟨World.frame_mem i m w, hevolves, fun k y hk => .inl hk, hissued, hstepUps,
      fun n hn => .inl (hburns ▸ hn)⟩⟩
  · have hgrown := Linked.grows hw.linked hissued hstepUps
    exact ⟨hgrown.versions, hgrown.links⟩
  · exact (hw.notes (hlog hin)).evolves hw hevolves

/-- An `UPDATE` of users. -/
theorem careful_users {pt : Place} {p : Int → TotpUser → Bool}
    {f : Int → TotpUser → TotpUser} :
    (update (ω := TotpMemory) (ν := Entropy) pt TotpTbl.users p f).Every
      (Within i (Careful i)) :=
  within_update respects_careful fun hvisit =>
    ⟨⟨World.frame_setTable fun _ hj => Table.same_visit (Ne.symm hj) hvisit,
      rfl, rfl⟩, fun _ => follows_visit codeStep_history
        (fun _ _ _ => ⟨trivial, trivial⟩) hvisit, keys_other (by simp) _⟩

/-- Marking codes as used. -/
theorem careful_codes {pt : Place} {p : Int → IssuedCode → Bool}
    (hp : ∀ now r, p now r = true → r.usedAt = none) :
    (update (ω := TotpMemory) (ν := Entropy) pt TotpTbl.recoveryCodes p
      fun now (r : IssuedCode) => { r with usedAt := some now }).Every
        (Within i (Careful i)) := by
  refine within_update respects_careful fun {w k o x} hvisit => ?_
  have hkeys : NoNewKeys TotpTbl.recoveryCodes hashOf w
      (w.setTable TotpTbl.recoveryCodes x) := by
    apply keys_visit _ hvisit
    intro r
    rfl
  refine ⟨⟨World.frame_setTable fun _ hj =>
    Table.same_visit (Ne.symm hj) hvisit, rfl, rfl⟩, fun m =>
      follows_visit codeStep_history (fun r hr hpr => ?_) hvisit, hkeys⟩
  have hdrawn : Drawn m r := hr
  have hunused := hp _ r hpr
  refine ⟨⟨hdrawn.issued, fun n hn => ⟨(hdrawn.burned n hn).1, by simp⟩⟩,
    rfl, rfl, rfl, fun hused => ?_⟩
  exact absurd hunused hused

theorem careful_invalidate {u : Uuid} :
    (invalidateRecoveryCodesForUser u).run.Every (Within i (Careful i)) := by
  refine Prog.Every.except_bind (careful_codes fun now r hp => ?_)
    fun _ => trivial
  simpa using ((Bool.and_eq_true _ _).mp hp).2

/-! ## The logic -/

/-- Steps keep the invariant and are moves. -/
def codesLogic : Logic TotpSrv where
  inv := Codes
  guar := CodesMove
  env w w' := w'.db = w.db ∧ w'.mem = w.mem ∧ w'.session = w.session

variable {F : Place → Chance → TotpSrv → TotpSrv → Prop}

theorem stable_rest : Stable codesLogic i (AtRest i) where
  thread hne _ _ hg h := h.frame (Ne.symm hne) hg.frame
  env _ _ he h := ⟨by rw [he.2.2]; exact h.status, fun t => by rw [he.1]; exact h.own t⟩

/-- Careful steps that keep an assertion. -/
theorem careful_outline {p : TotpProg α} {P : TotpSrv → Prop}
    (hP : Stable codesLogic i P)
    (hkeep : ∀ {w w'}, Codes w → Careful i w w' → P w → P w')
    (h : p.Every (Within i (Careful i))) :
    Outline codesLogic F i p P fun _ => P := by
  refine Outline.every hP ?_
  refine Prog.Every.mono (fun {β f} (hf : Within i (Careful i) f) => ?_) h
  intro w ch b w' hw hPw hstep
  obtain ⟨hinv, hguar⟩ := (hf hstep).move hw
  exact ⟨hinv, hguar, hkeep hw (hf hstep) hPw⟩

theorem careful_fallible {p : Service α} {P X : TotpSrv → Prop}
    (hP : Stable codesLogic i P)
    (hkeep : ∀ {w w'}, Codes w → Careful i w w' → P w → P w')
    (hX : ∀ w, P w → X w) (h : p.run.Every (Within i (Careful i))) :
    Outline codesLogic F i p.run P (exceptPost (fun _ => P) X) := by
  refine (careful_outline hP hkeep h).post fun r w _ hr => ?_
  cases r with
  | error e => exact hX w hr
  | ok a => exact hr

/-- A step that fails or does what a move may do. -/
theorem move_step {ξ : Type} {R : β → TotpSrv → Prop} {X : TotpSrv → Prop}
    {r : Except ξ β} (h : Codes w' ∧ CodesMove i w w')
    (hpost : exceptPost R X r w') :
    codesLogic.inv w' ∧ codesLogic.guar i w w' ∧ exceptPost R X r w' :=
  ⟨h.1, h.2, hpost⟩

/-! ## Drawing and storing codes -/

/-- Thread `i` has drawn codes with these hashes, and no row has them. -/
def Reserved (i : Nat) (hashes : List String) (w : TotpSrv) : Prop :=
  ∀ h ∈ hashes, (i, h) ∈ w.mem.issued ∧ ∀ k, ¬ HasKey hashOf (codes w) k h

theorem owner_unique {issued : List (Nat × String)}
    (hnodup : (issued.map Prod.snd).Nodup) {h : String}
    (hi : (i, h) ∈ issued) (hj : (j, h) ∈ issued) : i = j := by
  have heq := List.inj_on_of_nodup_map hnodup hi hj rfl
  exact (Prod.mk.injEq _ _ _ _ ▸ heq).1

theorem stable_reserved {hashes : List String} :
    Stable codesLogic i (Reserved i hashes) where
  thread hne _ hw' hg h := by
    intro y hy
    obtain ⟨hissued, hfree⟩ := h y hy
    have hkept := hg.issued.subset hissued
    refine ⟨hkept, fun k hk => ?_⟩
    rcases hg.keys k y hk with hold | hnew
    · exact hfree k hold
    · exact hne (owner_unique hw'.issued hnew hkept)
  env _ _ he h := by
    unfold Reserved codes
    rw [he.1, he.2.1]
    exact h

theorem Reserved.careful {hashes : List String} (h : Reserved i hashes w)
    (hc : Careful i w w') : Reserved i hashes w' := by
  intro y hy
  obtain ⟨hissued, hfree⟩ := h y hy
  rw [hc.1.2.1]
  exact ⟨hissued, fun k hk => hfree k (hc.2.2 k y hk)⟩

theorem Codes.newKeys (h : Codes w) {y : String} {k : Nat}
    (hk : HasKey hashOf (codes w) k y) : y ∈ w.mem.issued.map Prod.snd := by
  obtain ⟨c, r, hc, hr, rfl⟩ := hk
  have hall := h.linked.versions .recoveryCodes c (List.mem_of_getElem? hc)
  rcases hr with hr | ⟨l, hr⟩
  · exact (hall.1 r hr).issued
  · exact (hall.2 l r hr).issued

/-- Drawing reserves the codes. -/
theorem issue_outline : Outline codesLogic F i
    (generateRecoveryCodes ext).run (fun _ => True)
    (exceptPost (fun cs w => (cs.map (hashRecoveryCode ext)).Nodup ∧
      Reserved i (cs.map (hashRecoveryCode ext)) w) fun _ => True) := by
  refine Outline.step (Stable.exceptPost
    (fun _ => (Stable.const _).and stable_reserved) (.const _))
    fun {w ch r w'} hw _ hstep _ => ?_
  rcases issueStep_cases hstep with ⟨bs, -, -, rfl, hnodup, hfresh, hw'⟩ |
    ⟨⟨e, rfl⟩, rfl⟩
  · have hsuffix : w.mem.issued <:+ w'.mem.issued := by
      rw [hw']
      exact List.suffix_append _ _
    have hmove : Codes w' ∧ CodesMove i w w' := by
      refine memory_move memory_issue hstep hw hsuffix ?_ ?_ ?_ ?_
      · rw [hw']
        simp only [List.map_append, List.map_map]
        refine List.Nodup.append ?_ hw.issued fun y hy hold => ?_
        · simpa [Function.comp_def] using hnodup
        · exact hfresh y (by simpa [Function.comp_def] using hy) hold
      · exact hw' ▸ List.prefix_refl _
      · rw [hw']
        exact fun hin => hin
      · rw [hw']
        rfl
    refine move_step hmove ⟨hnodup, fun y hy => ⟨?_, fun k hk => ?_⟩⟩
    · rw [hw']
      exact List.mem_append_left _ (List.mem_map.mpr ⟨y, hy, rfl⟩)
    · have hold : HasKey hashOf (codes w) k y := by
        rw [hw'] at hk
        exact hk
      exact hfresh y hy (hw.newKeys hold)
  · exact ⟨hw, (Careful.move (respects_careful.refl _) hw).2, trivial⟩

/-- The rows of reserved codes can be inserted. -/
theorem Reserved.insert {hashes : List String} {u : Uuid} {e : Nat}
    {x : Table IssuedCode} (h : Reserved i hashes w) (hnodup : hashes.Nodup)
    (hw : Codes w) (hinsert : insertRows i IssuedCode.dup (newCodes u hashes e)
      (w.db TotpTbl.recoveryCodes) = some (.ok x)) :
    Codes (w.setTable .recoveryCodes x) ∧
      CodesMove i w (w.setTable .recoveryCodes x) := by
  have hnew : ∀ {k : Nat} {r : IssuedCode},
      (newCodes u hashes e)[k]? = some r → hashes[k]? = some r.codeHash := by
    intro k r hr
    simp only [newCodes, List.getElem?_map, Option.map_eq_some_iff] at hr
    obtain ⟨y, hy, rfl⟩ := hr
    exact hy
  have hkeys : ∀ k y, HasKey hashOf (codes (w.setTable .recoveryCodes x)) k y →
      HasKey hashOf (codes w) k y ∨ (codes w).length ≤ k ∧
        hashes[k - (codes w).length]? = some y := by
    intro k y hk
    simp only [codes, World.setTable, Function.update_self] at hk
    rw [insertRows_ok hinsert] at hk
    rcases hasKey_append hk with hold | ⟨hle, r, hr, rfl⟩
    · exact .inl hold
    · exact .inr ⟨hle, hnew hr⟩
  obtain ⟨hlinked, hevolves⟩ := follows_insert (ψ := CodeRow w.mem)
    codeStep_history (fun r hr => by
      obtain ⟨k, hk⟩ := List.mem_iff_getElem?.mp hr
      obtain ⟨hissued, -⟩ := h _ (List.mem_of_getElem? (hnew hk))
      simp only [newCodes, List.mem_map] at hr
      obtain ⟨y, -, rfl⟩ := hr
      exact ⟨List.mem_map.mpr ⟨_, hissued, rfl⟩, fun n hn => by cases hn⟩)
    hinsert hw.linked
  refine ⟨⟨hlinked, fun k l y hk hl => ?_, hw.issued,
    fun hin => (hw.notes hin).evolves hw hevolves, hw.burns⟩,
    ⟨World.frame_setTable fun _ hj => insertRows_same hj hinsert, hevolves,
      fun k y hk => ?_, List.suffix_refl _, List.prefix_refl _, fun n hn => .inl hn⟩⟩
  · rcases hkeys k y hk with hk | ⟨hlek, hk⟩ <;>
      rcases hkeys l y hl with hl | ⟨hlel, hl⟩
    · exact hw.unique k l y hk hl
    · exact absurd hk ((h y (List.mem_of_getElem? hl)).2 k)
    · exact absurd hl ((h y (List.mem_of_getElem? hk)).2 l)
    · have hlt := (List.getElem?_eq_some_iff.mp hk).1
      have hsame := (List.getElem?_inj hlt hnodup).mp (hk.trans hl.symm)
      omega
  · rcases hkeys k y hk with hold | ⟨-, hin⟩
    · exact .inl hold
    · exact .inr (h y (List.mem_of_getElem? hin)).1

/-- **Codes are inserted by the thread that has drawn them.** -/
theorem createRecoveryCodes_outline {u : Uuid} {hashes : List String} {e : Nat}
    (hnodup : hashes.Nodup) :
    Outline codesLogic F i (createRecoveryCodes u hashes e).run
      (Reserved i hashes) (exceptPost (fun _ _ => True) fun _ => True) := by
  unfold createRecoveryCodes
  split
  · exact Outline.pure fun _ _ _ => trivial
  refine Outline.step (Stable.exceptPost (fun _ => .const _) (.const _))
    fun {w ch r w'} hw hres hstep _ => ?_
  have hpost : ∀ r : Except SqlxError Unit,
      exceptPost (fun _ _ => True) (fun _ => True) r w' := fun r => by
    cases r <;> trivial
  rcases statement_cases hstep with ⟨-, rfl, e, rfl⟩ | ⟨-, rfl, -, e, rfl⟩ |
    ⟨-, hrun⟩
  · exact move_step (Careful.move (respects_careful.refl _) hw) trivial
  · exact move_step (Careful.move (respects_careful.fails _) hw) trivial
  · have hcareful : Careful i w (w.openStatement i .plain) :=
      respects_careful.opens w .plain
    have hopen := hcareful.move hw
    have hres' := hres.careful hcareful
    split at hrun
    · cases hrun
    · simp only [Option.some.injEq, Prod.mk.injEq] at hrun
      obtain ⟨-, rfl⟩ := hrun
      obtain ⟨hinv, hmove⟩ := Careful.move (respects_careful.fails _) hopen.1
      exact move_step ⟨hinv, hopen.2.trans hmove⟩ (hpost _)
    · rename_i x hx
      simp only [Option.some.injEq, Prod.mk.injEq] at hrun
      obtain ⟨-, rfl⟩ := hrun
      obtain ⟨hset, hmove⟩ := hres'.insert hnodup hopen.1 hx
      obtain ⟨hinv, hend⟩ := Careful.move (respects_careful.completes _) hset
      exact move_step ⟨hinv, (hopen.2.trans hmove).trans hend⟩ (hpost _)

/-! ## Burning a code -/

/-- Thread `i` has drawn the number, and no step-up has used it to burn a
code. -/
def Numbered (i n : Nat) (w : TotpSrv) : Prop :=
  w.mem.stepUps[n]? = some i ∧ n ∉ burns w

theorem stable_numbered : Stable codesLogic i (Numbered i n) where
  thread hne _ _ hg h := by
    have hkept := getElem?_longer hg.stepUps h.1
    refine ⟨hkept, fun hin => ?_⟩
    rcases hg.burns n hin with hold | hnew
    · exact h.2 hold
    · rw [hkept, Option.some.injEq] at hnew
      exact hne hnew.symm
  env _ _ he h := by
    unfold Numbered burns
    rw [he.2.1]
    exact h

theorem Numbered.same (h : Numbered i n w) (hmem : w'.mem = w.mem) :
    Numbered i n w' := by
  unfold Numbered burns
  rw [hmem]
  exact h

theorem stable_burned {u : Uuid} {h : String} :
    Stable codesLogic i (Burned n u h) where
  thread _ hw _ hg hb := hb.evolves hw hg.evolves
  env _ _ he hb := by
    unfold Burned codes
    rw [he.1]
    exact hb

/-- Session `i` has written the row, with its number. -/
def Burning (i n : Nat) (u : Uuid) (h : String) (r : IssuedCode)
    (w : TotpSrv) : Prop :=
  ∃ (k : Nat) (c : Cell IssuedCode), (codes w)[k]? = some c ∧
    c.pending = some (i, r) ∧ r.userId = u ∧ r.codeHash = h ∧ r.usedBy = some n ∧
      r.usedAt ≠ none

theorem Burning.frame {u : Uuid} {h : String} {r : IssuedCode}
    (hb : Burning i n u h r w) (hne : i ≠ j) (hf : w.Frame j w') :
    Burning i n u h r w' := by
  obtain ⟨k, c, hc, hpend, hrest⟩ := hb
  have hheld : c.heldBy i = true := by simp [Cell.heldBy, hpend]
  exact ⟨k, c, (hf.held i hne .recoveryCodes k c hheld).mp hc, hpend, hrest⟩

/-- Half-way through the `UPDATE` of `consume_recovery_code`. -/
structure Burnt (i n : Nat) (u : Uuid) (h : String) (done : List IssuedCode)
    (w : TotpSrv) : Prop where
  status : (w.session i).status = .implicit
  number : Numbered i n w
  written : ∀ r ∈ done, Burning i n u h r w

theorem stable_burnt {u : Uuid} {h : String} {done : List IssuedCode} :
    Stable codesLogic i (Burnt i n u h done) where
  thread hne hw hw' hg hb :=
    ⟨by rw [hg.frame.session i (Ne.symm hne)]; exact hb.status,
      stable_numbered.thread hne hw hw' hg hb.number,
      fun r hr => (hb.written r hr).frame (Ne.symm hne) hg.frame⟩
  env hw hw' he hb := by
    refine ⟨by rw [he.2.2]; exact hb.status,
      stable_numbered.env hw hw' he hb.number, fun r hr => ?_⟩
    unfold Burning codes
    rw [he.1]
    exact hb.written r hr

theorem Burnt.opens {u : Uuid} {h : String} {done : List IssuedCode}
    (hb : Burnt i n u h done w) (pt : Place) :
    Burnt i n u h done (w.openStatement i pt) := by
  simp only [World.openStatement, hb.status]
  exact ⟨by simp [World.setSession], hb.number, hb.written⟩

/-- The condition of the `UPDATE`. -/
def unusedRow (u : Uuid) (h : String) (r : IssuedCode) : Bool :=
  r.userId == u && r.codeHash == h && r.usedAt.isNone

/-- The new version of the row. -/
def burn (n : Nat) (now : DateTime) (r : IssuedCode) : IssuedCode :=
  { r with usedAt := some now, usedBy := some n }

/-- A visit burns an unused row with a number that has been drawn. -/
theorem visit_burn {u : Uuid} {h : String} {now : DateTime} {l : Nat}
    {o : Option IssuedCode} {x : Table IssuedCode} (hw : Codes w)
    (hnumber : Numbered i n w)
    (hvisit : (codes w).visit i (unusedRow u h) (burn n now) l = some (o, x)) :
    Codes (w.setTable .recoveryCodes x) ∧
      CodesMove i w (w.setTable .recoveryCodes x) := by
  have hlt : n < w.mem.stepUps.length :=
    (List.getElem?_eq_some_iff.mp hnumber.1).1
  have hkeys : NoNewKeys TotpTbl.recoveryCodes hashOf w
      (w.setTable TotpTbl.recoveryCodes x) := by
    apply keys_visit _ hvisit
    intro r
    rfl
  have hfollows : Follows (CodeRow w.mem) CodeStep w
      (w.setTable TotpTbl.recoveryCodes x) := by
    apply follows_visit codeStep_history _ hvisit
    intro r hr hp
    have hdrawn : Drawn w.mem r := hr
    simp only [unusedRow, Bool.and_eq_true, Option.isNone_iff_eq_none] at hp
    refine ⟨⟨hdrawn.issued, fun m hm => ?_⟩, rfl, rfl, rfl,
      fun hused => absurd hp.2 hused⟩
    simp only [burn, Option.some.injEq] at hm
    subst hm
    exact ⟨hlt, by simp [burn]⟩
  obtain ⟨hlinked, hevolves⟩ := hfollows hw.linked
  exact ⟨⟨hlinked, fun k m y hk hm => hw.unique k m y (hkeys k y hk) (hkeys m y hm),
    hw.issued, fun hin => (hw.notes hin).evolves hw hevolves, hw.burns⟩,
    ⟨World.frame_setTable fun _ hj => Table.same_visit (Ne.symm hj) hvisit,
      hevolves, fun k y hk => .inl (hkeys k y hk), List.suffix_refl _,
      List.prefix_refl _, fun n hn => .inl hn⟩⟩

/-- What a visit has written, session `i` holds. -/
theorem Burnt.visit {u : Uuid} {h : String} {done : List IssuedCode}
    (hb : Burnt i n u h done w) {now : DateTime} {l : Nat}
    {o : Option IssuedCode} {x : Table IssuedCode}
    (hvisit : (codes w).visit i (unusedRow u h) (burn n now) l = some (o, x)) :
    Burnt i n u h (done ++ o.toList) (w.setTable .recoveryCodes x) := by
  refine ⟨hb.status, hb.number, fun r hr => ?_⟩
  unfold Burning codes
  simp only [World.setTable, Function.update_self]
  rcases Table.visit_set hvisit with ⟨rfl, rfl, -⟩ |
    ⟨c, v, hc, -, hseen, hp, rfl, rfl⟩
  · simp only [Option.toList_none, List.append_nil] at hr
    exact hb.written r hr
  · have hlt := (List.getElem?_eq_some_iff.mp hc).1
    simp only [unusedRow, Bool.and_eq_true, beq_iff_eq,
      Option.isNone_iff_eq_none] at hp
    rcases List.mem_append.mp hr with hold | hnew
    · obtain ⟨k, d, hd, hpend, hu, hh, hn, hused⟩ := hb.written r hold
      refine ⟨k, d, ?_, hpend, hu, hh, hn, hused⟩
      by_cases hkl : l = k
      · -- a row the session has burned does not qualify again
        subst hkl
        have hcd : c = d := Option.some.inj (hc.symm.trans hd)
        simp only [hcd, Cell.seenBy, hpend, if_true, Option.some.injEq] at hseen
        rw [hseen] at hused
        exact absurd hp.2 hused
      · rw [List.getElem?_set_ne hkl]
        exact hd
    · simp only [Option.toList_some, List.mem_singleton] at hnew
      subst hnew
      exact ⟨l, _, List.getElem?_set_self hlt, rfl, hp.1.1, hp.1.2, rfl,
        by simp [burn]⟩

/-- The end of the statement commits the rows. -/
theorem Burnt.completes {u : Uuid} {h : String} {done : List IssuedCode}
    (hb : Burnt i n u h done w) {r : IssuedCode} (hr : r ∈ done) :
    ∃ k, committedAt (codes (w.completeStatement i)) k = some r ∧
      r.userId = u ∧ r.codeHash = h ∧ r.usedBy = some n := by
  obtain ⟨k, c, hc, hpend, hu, hh, hn, -⟩ := hb.written r hr
  refine ⟨k, ?_, hu, hh, hn⟩
  simp only [codes, World.completeStatement, hb.status]
  rw [committedAt_commit, hc]
  simp [Cell.commit, hpend]

/-- **Burning a code**: what the `UPDATE` returns is committed, with the number
of the step-up. -/
theorem consume_outline {u : Uuid} {h : String} :
    Outline codesLogic F i (consumeRecoveryCode n u h).run
      (fun w => AtRest i w ∧ Numbered i n w)
      (exceptPost (fun o w => Numbered i n w ∧
        ∀ row, o = some row → Burned n u h w) fun _ => True) := by
  refine Outline.except_bind (R := fun rows w => Numbered i n w ∧
    ∀ row ∈ rows, Burned n u h w) ?_ fun rows => ?_
  · refine Outline.update (fun done _ => Burnt i n u h done)
      (fun _ _ => stable_burnt)
      (fun _ => stable_numbered.and (.forall fun _ => .forall fun _ =>
        stable_burned)) (.const _) ?_ ?_ ?_
    · intro w ch r w' hw hP hstep _
      rcases statement_cases hstep with ⟨hst, -, -⟩ | ⟨-, rfl, -, e, rfl⟩ |
        ⟨-, hrun⟩
      · rw [hP.1.status] at hst
        cases hst
      · exact move_step (Careful.move (respects_careful.fails _) hw) trivial
      · simp only [Option.some.injEq, Prod.mk.injEq] at hrun
        obtain ⟨rfl, rfl⟩ := hrun
        refine move_step (Careful.move (respects_careful.opens _ _) hw) ?_
        rw [hP.1.opens]
        exact ⟨by simp [World.setSession], hP.2, fun r hr => by cases hr⟩
    · intro done l ks w ch r w' hw hP hstep _
      rcases statement_cases hstep with ⟨hst, -, -⟩ | ⟨-, rfl, -, e, rfl⟩ |
        ⟨-, hrun⟩
      · rw [hP.status] at hst
        cases hst
      · exact move_step (Careful.move (respects_careful.fails _) hw) trivial
      · split at hrun
        · cases hrun
        rename_i o x hvisit
        simp only [Option.some.injEq, Prod.mk.injEq] at hrun
        obtain ⟨rfl, rfl⟩ := hrun
        have hopen := hP.opens .plain
        have hcareful : Careful i w (w.openStatement i .plain) :=
          respects_careful.opens w .plain
        obtain ⟨hinv, hmove⟩ := hcareful.move hw
        obtain ⟨hset, hwrite⟩ := visit_burn hinv hopen.number hvisit
        exact move_step ⟨hset, hmove.trans hwrite⟩ (hopen.visit hvisit)
    · intro done w ch r w' hw hP hstep _
      rcases statement_cases hstep with ⟨hst, -, -⟩ | ⟨-, rfl, -, e, rfl⟩ |
        ⟨-, hrun⟩
      · rw [hP.status] at hst
        cases hst
      · exact move_step (Careful.move (respects_careful.fails _) hw) trivial
      · simp only [Option.some.injEq, Prod.mk.injEq] at hrun
        obtain ⟨rfl, rfl⟩ := hrun
        have hopen := hP.opens .plain
        have hcareful : Careful i w ((w.openStatement i .plain).completeStatement i) :=
          respects_careful.trans (respects_careful.opens w .plain)
            (respects_careful.completes _)
        refine move_step (hcareful.move hw) ⟨hP.number.same hcareful.1.2.1,
          fun row hrow => ?_⟩
        obtain ⟨k, hk⟩ := hopen.completes hrow
        exact ⟨k, row, hk⟩
  · refine Outline.pure fun w _ h => ⟨h.1, fun row hrow => ?_⟩
    exact h.2 row (List.mem_of_mem_head? (by rw [hrow]; rfl))

/-! ## The calls -/

theorem careful_select {f : Int → (∀ t, List (TotpRow t)) → β} :
    (Query.propagate (sql (select .plain f))).run.Every (Within i (Careful i)) :=
  every_propagate (within_select respects_careful)

theorem careful_query {q : Query (List TotpUser)} {f : List TotpUser → Query α}
    (hq : q.run.Every (Within i (Careful i)))
    (hf : ∀ rows, (f rows).run.Every (Within i (Careful i))) :
    (q >>= f).propagate.run.Every (Within i (Careful i)) :=
  every_propagate (Prog.Every.except_bind hq hf)

theorem careful_setPending {u : Uuid} {s : String} :
    (setPendingTotpSecret u s).propagate.run.Every (Within i (Careful i)) :=
  careful_query careful_users fun _ => trivial

theorem careful_activate {u : Uuid} {s : String} :
    (activateTotp u s).propagate.run.Every (Within i (Careful i)) :=
  careful_query careful_users fun _ => trivial

theorem careful_disable {u : Uuid} {a : Acceptance} :
    (disableTotp u a).propagate.run.Every (Within i (Careful i)) :=
  careful_query careful_users fun _ => trivial

theorem careful_cleanup :
    cleanupExpiredDrafts.propagate.run.Every (Within i (Careful i)) :=
  careful_query careful_users fun _ => trivial

/-- A program of careful steps, whatever it answers. -/
theorem careful_any {p : TotpProg α} {P : TotpSrv → Prop}
    (h : p.Every (Within i (Careful i))) :
    Outline codesLogic F i p P fun _ _ => True :=
  Outline.weaken (P := fun _ => True) (fun _ _ _ => trivial)
    (careful_outline (.const _) (fun _ _ _ => trivial) h)

theorem careful_service {p : Service α} {P : TotpSrv → Prop}
    (h : p.run.Every (Within i (Careful i))) :
    Outline codesLogic F i p.run P (exceptPost (fun _ _ => True) fun _ => True) := by
  refine (careful_any h).post fun r w _ _ => ?_
  cases r <;> trivial

/-- Session `i` is at rest, and at least `n` step-ups have begun. -/
def Ready (i n : Nat) (w : TotpSrv) : Prop :=
  AtRest i w ∧ n ≤ w.mem.stepUps.length

theorem stable_ready : Stable codesLogic i (Ready i n) where
  thread hne hw hw' hg h :=
    ⟨stable_rest.thread hne hw hw' hg h.1, Nat.le_trans h.2 hg.stepUps.length_le⟩
  env hw hw' he h := ⟨stable_rest.env hw hw' he h.1, by rw [he.2.1]; exact h.2⟩

/-- A read outside of a block. -/
theorem read_outline {f : Int → (∀ t, List (TotpRow t)) → β} {φ : β → Prop}
    (hφ : ∀ now rows, φ (f now rows)) :
    Outline codesLogic F i (Query.propagate (sql (select .plain f))).run
      (Ready i n) (exceptPost (fun b w => φ b ∧ Ready i n w) fun _ => True) := by
  have hstep : Outline codesLogic F i (select .plain f) (Ready i n)
      (exceptPost (fun b w => φ b ∧ Ready i n w) fun _ => True) := by
    refine Outline.step (Stable.exceptPost
      (fun _ => (Stable.const _).and stable_ready) (.const _))
      fun {w ch r w'} hw hP hstep _ => ?_
    have hcareful : Careful i w w' := (within_select respects_careful).1 hstep
    refine move_step (hcareful.move hw) ?_
    obtain ⟨hrest, -, ⟨e, rfl⟩ | rfl⟩ := hP.1.select hstep
    · trivial
    · refine ⟨hφ _ _, hrest, ?_⟩
      rw [hcareful.1.2.1]
      exact hP.2
  refine Outline.bind (fun r => ?_) hstep
  cases r with
  | error e => exact fun _ _ _ => trivial
  | ok b => exact fun _ _ h => h

/-- A user that is found has the id that was asked for. -/
theorem found_id {u : Uuid} {users : List TotpUser} {user : TotpUser}
    (h : users.find? (fun r => r.id == u && r.deletedAt.isNone) = some user) :
    user.id = u := by
  have hmatch := List.find?_some h
  simp only [Bool.and_eq_true, beq_iff_eq] at hmatch
  exact hmatch.1

theorem find_outline {u : Uuid} :
    Outline codesLogic F i (findUserById u).propagate.run (Ready i n)
      (exceptPost (fun o w => (∀ user, o = some user → user.id = u) ∧
        Ready i n w) fun _ => True) :=
  read_outline fun _ _ _ h => found_id h

theorem confirm2fa_outline {u : Uuid} {code : String} :
    Outline codesLogic F i (confirm2fa ext u code).run (AtRest i)
      (exceptPost (fun _ _ => True) fun _ => True) := by
  refine Outline.except_bind (careful_service careful_select)
    fun o => ?_
  cases o with
  | none => exact Outline.throw fun _ _ _ => trivial
  | some user =>
      dsimp only
      split
      · exact Outline.throw fun _ _ _ => trivial
      refine Outline.except_bind (careful_service careful_select)
        fun pending => ?_
      cases pending with
      | none => exact Outline.throw fun _ _ _ => trivial
      | some secret =>
          refine Outline.except_bind (R := fun _ _ => True) ?_ fun valid => ?_
          · refine Outline.lift (careful_any (Prog.Every.step ?_))
            intro ch w b w' hstep
            simp only [Option.some.injEq, Prod.mk.injEq] at hstep
            rw [← hstep.2]
            exact respects_careful.refl w
          split
          · exact Outline.throw fun _ _ _ => trivial
          refine Outline.except_bind issue_outline fun cs => ?_
          refine Outline.of_prop fun hnodup => ?_
          refine (Outline.transaction
            (Reserved i (cs.map (hashRecoveryCode ext))) (fun _ _ => True)
            (fun _ => True) (Q := fun _ _ => True) stable_reserved
            (fun _ => .const _) ?_ ?_ ?_ ?_).post fun r w _ _ => by
              cases r <;> trivial
          · intro w w' ch r hw hres hstep _
            rcases beginStep_cases hstep with ⟨rfl, -, e, rfl⟩ | ⟨rfl, rfl⟩
            · obtain ⟨hinv, hguar⟩ :=
                Careful.move (respects_careful.refl w') hw
              exact ⟨hinv, hguar, trivial⟩
            · have hcareful : Careful i w (w.beginTx i) :=
                respects_careful.begins w
              obtain ⟨hinv, hguar⟩ := hcareful.move hw
              exact ⟨hinv, hguar, hres.careful hcareful⟩
          · refine Outline.except_bind (careful_fallible stable_reserved
              (fun _ hc h => h.careful hc) (fun _ _ => trivial)
              careful_activate) fun e => ?_
            refine Outline.except_bind (careful_fallible stable_reserved
              (fun _ hc h => h.careful hc) (fun _ _ => trivial)
              (every_propagate careful_invalidate)) fun _ => ?_
            refine Outline.except_bind (R := fun _ _ => True) ?_
              fun _ => Outline.pure fun _ _ _ => trivial
            refine Outline.bind (fun r => ?_) (createRecoveryCodes_outline hnodup)
            cases r with
            | error e => exact fun _ _ _ => trivial
            | ok x => exact fun _ _ _ => trivial
          · intro w r ch hw _ _
            obtain ⟨hinv, hguar⟩ := Careful.move (respects_careful.drops w) hw
            exact ⟨hinv, hguar, trivial⟩
          · intro w ch pt r r' w' hw _ hstep _
            have hcareful : Careful i w w' := by
              rcases commitStep_cases hstep with ⟨-, -, rfl⟩ |
                ⟨-, -, -, rfl⟩ | ⟨-, -, rfl⟩
              · exact respects_careful.drops w
              · exact respects_careful.drops w
              · exact respects_careful.commits w pt
            obtain ⟨hinv, hguar⟩ := hcareful.move hw
            refine ⟨hinv, hguar, ?_⟩
            cases r' <;> trivial

/-- A number that has been used to burn a code has been drawn. -/
theorem burns_lt (h : Codes w) (hn : n ∈ burns w) :
    n < w.mem.stepUps.length := by
  obtain ⟨x, hx, hxn⟩ := List.mem_filterMap.mp hn
  unfold burnedBy at hxn
  split at hxn
  · simp only [Option.some.injEq] at hxn
    subst hxn
    obtain ⟨k, r, hr, -, -, hby⟩ := h.notes hx
    obtain ⟨c, hc, hcr⟩ := committedAt_eq.mp hr
    have hdrawn : Drawn w.mem r :=
      (h.linked.versions .recoveryCodes c (List.mem_of_getElem? hc)).1 r hcr
    exact (hdrawn.burned _ hby).1
  · cases hxn

theorem stepUpNumber_outline {m : Nat} : Outline codesLogic F i
    (liftM stepUpNumber : Service Nat).run (Ready i m)
    (exceptPost (fun n w => m ≤ n ∧ AtRest i w ∧ Numbered i n w)
      fun _ => True) := by
  refine Outline.lift (Outline.step
    (fun _ => (Stable.const _).and (stable_rest.and stable_numbered))
    fun {w ch n w'} hw hP hstep _ => ?_)
  simp only [numberStep, Option.some.injEq, Prod.mk.injEq] at hstep
  obtain ⟨rfl, rfl⟩ := hstep
  have hstep : numberStep i ch w = some (w.mem.stepUps.length, { w with
      mem := { w.mem with stepUps := w.mem.stepUps ++ [i] } }) := rfl
  obtain ⟨hinv, hguar⟩ := memory_move memory_number hstep hw
    (List.suffix_refl _) hw.issued (List.prefix_append _ _) (fun hin => hin) rfl
  refine ⟨hinv, hguar, hP.2, ⟨hP.1.status, hP.1.own⟩, by simp, fun hin => ?_⟩
  exact absurd (burns_lt hw hin) (Nat.lt_irrefl _)

/-- The note of an acceptance, after the code has been burned. -/
theorem note_burned {u : Uuid} {h : String} {e : Nat} (hw : Codes w)
    (hnumber : Numbered i n w) (hburned : Burned n u h w) :
    Codes { w with mem := { w.mem with
      log := .accepted ⟨n, u, .recovery h, e⟩ w.clock :: w.mem.log } } ∧
    CodesMove i w { w with mem := { w.mem with
      log := .accepted ⟨n, u, .recovery h, e⟩ w.clock :: w.mem.log } } := by
  have hgrown : Linked (CodeRow { w.mem with
      log := .accepted ⟨n, u, .recovery h, e⟩ w.clock :: w.mem.log }) CodeStep w :=
    Linked.grows hw.linked (List.suffix_refl _) (List.prefix_refl _)
  refine ⟨⟨⟨hgrown.versions, hgrown.links⟩, hw.unique, hw.issued,
    fun hin => ?_, ?_⟩, ⟨World.frame_mem i _ w, .of_committed codeStep_history
      fun _ _ => rfl, fun k y hk => .inl hk, List.suffix_refl _,
      List.prefix_refl _, fun m hm => ?_⟩⟩
  · rcases List.mem_cons.mp hin with heq | hin
    · cases heq
      exact hburned
    · exact hw.notes hin
  · exact List.nodup_cons.mpr ⟨hnumber.2, hw.burns⟩
  · rcases List.mem_cons.mp hm with rfl | hold
    · exact .inr hnumber.1
    · exact .inl hold

/-- Thread `i` has burned the user's code with this hash, in a step-up that
began when at least `m` had. -/
def Accepted (i m : Nat) (u : Uuid) (h : String) (w : TotpSrv) : Prop :=
  ∃ n, m ≤ n ∧ w.mem.stepUps[n]? = some i ∧ Burned n u h w

theorem Accepted.move {m : Nat} {u : Uuid} {h : String}
    (ha : Accepted i m u h w) (hw : Codes w) (hg : CodesMove j w w') :
    Accepted i m u h w' := by
  obtain ⟨n, hle, hn, hb⟩ := ha
  exact ⟨n, hle, getElem?_longer hg.stepUps hn, hb.evolves hw hg.evolves⟩

theorem stable_accepted {m : Nat} {u : Uuid} {h : String} :
    Stable codesLogic i (Accepted i m u h) where
  thread _ hw _ hg ha := ha.move hw hg
  env hw hw' he ha := by
    obtain ⟨n, hle, hn, hb⟩ := ha
    exact ⟨n, hle, by rw [he.2.1]; exact hn,
      (stable_burned (i := i)).env hw hw' he hb⟩

theorem stepUpRecovery_outline {m : Nat} {user : TotpUser} {code : String} :
    Outline codesLogic F i (stepUpRecovery ext n user code).run
      (fun w => m ≤ n ∧ AtRest i w ∧ Numbered i n w)
      (exceptPost (fun _ => Accepted i m user.id (hashRecoveryCode ext code))
        fun _ => True) := by
  refine Outline.of_prop fun hle => ?_
  refine Outline.except_bind (R := fun o w => Numbered i n w ∧
    ∀ row, o = some row →
      Burned n user.id (hashRecoveryCode ext code) w) ?_ fun o => ?_
  · refine Outline.bind (fun r => ?_) consume_outline
    cases r with
    | error e => exact fun _ _ _ => trivial
    | ok o => exact fun _ _ h => h
  · cases o with
    | none => exact Outline.throw fun _ _ _ => trivial
    | some row =>
        refine Outline.except_bind
          (R := fun _ => Accepted i m user.id (hashRecoveryCode ext code))
          (Outline.lift (Outline.step (fun _ => stable_accepted)
            fun {w ch b w'} hw hP hstep _ => ?_))
          fun _ => Outline.pure fun _ _ h => h
        simp only [noteStep, Option.some.injEq, Prod.mk.injEq] at hstep
        rw [← hstep.2]
        obtain ⟨hinv, hguar⟩ := note_burned hw hP.1 (hP.2 row rfl)
        exact ⟨hinv, hguar, n, hle, hP.1.1, hP.2 row rfl⟩

/-- A step on the memory that writes down no burned code. -/
theorem quiet_note {f : Action TotpSrv Chance β} (hf : MemoryOnly f)
    (hlog : ∀ {ch w b w'}, f i ch w = some (b, w') →
      w'.mem.issued = w.mem.issued ∧ w'.mem.stepUps = w.mem.stepUps ∧
        (w'.mem.log = w.mem.log ∨ ∃ x, burnedBy x = none ∧
          w'.mem.log = x :: w.mem.log)) {P : TotpSrv → Prop} :
    Outline codesLogic F i (Prog.step (.plain : Place) f) P fun _ _ => True := by
  refine Outline.step (fun _ => .const _) fun {w ch b w'} hw _ hstep _ => ?_
  obtain ⟨hissued, hstepUps, hnew⟩ := hlog hstep
  have hmove : Codes w' ∧ CodesMove i w w' := by
    refine memory_move hf hstep hw (hissued ▸ List.suffix_refl _)
      (hissued ▸ hw.issued) (hstepUps ▸ List.prefix_refl _) (fun hin => ?_) ?_
    · rcases hnew with hsame | ⟨x, hx, hcons⟩
      · rwa [hsame] at hin
      · rw [hcons] at hin
        rcases List.mem_cons.mp hin with rfl | hold
        · cases hx
        · exact hold
    · unfold burns
      rcases hnew with hsame | ⟨x, hx, hcons⟩
      · rw [hsame]
      · rw [hcons, List.filterMap_cons, hx]
  exact ⟨hmove.1, hmove.2, trivial⟩

theorem checkTotp_log {user : TotpUser} {secret code : String} :
    (checkTotp ext n user secret code w).2.issued = w.mem.issued ∧
    (checkTotp ext n user secret code w).2.stepUps = w.mem.stepUps ∧
    ((checkTotp ext n user secret code w).2.log = w.mem.log ∨
      ∃ x, burnedBy x = none ∧
        (checkTotp ext n user secret code w).2.log = x :: w.mem.log) := by
  unfold checkTotp
  split
  · exact ⟨rfl, rfl, .inl rfl⟩
  · dsimp only
    split
    · exact ⟨rfl, rfl, .inr ⟨_, rfl, rfl⟩⟩
    · exact ⟨rfl, rfl, .inr ⟨_, rfl, rfl⟩⟩

theorem stepUpTotp_outline {user : TotpUser} {code : String}
    {P : TotpSrv → Prop} :
    Outline codesLogic F i (stepUpTotp ext n user code).run P
      (exceptPost (fun _ _ => True) fun _ => True) := by
  unfold stepUpTotp
  split
  · refine Outline.except_bind (R := fun _ _ => True)
      (Outline.lift (quiet_note memory_note fun hf => ?_))
      fun _ => Outline.throw fun _ _ _ => trivial
    simp only [noteStep, Option.some.injEq, Prod.mk.injEq] at hf
    rw [← hf.2]
    exact ⟨rfl, rfl, .inr ⟨_, rfl, rfl⟩⟩
  · refine Outline.except_bind (R := fun _ _ => True)
      (Outline.lift (quiet_note memory_check fun hf => ?_)) fun r => ?_
    · simp only [checkStep, Option.some.injEq, Prod.mk.injEq] at hf
      rw [← hf.2]
      exact checkTotp_log
    · cases r with
      | valid => exact Outline.pure fun _ _ _ => trivial
      | invalid => exact Outline.throw fun _ _ _ => trivial
      | replayed => exact Outline.throw fun _ _ _ => trivial

/-- **A recovery code that is accepted has been burned**, by this call. -/
theorem stepUp_outline {m : Nat} {u : Uuid} {code : String} :
    Outline codesLogic F i (stepUp ext u code).run (Ready i m)
      (exceptPost (fun _ w => isRecoveryCode code = true →
        Accepted i m u (hashRecoveryCode ext code) w) fun _ => True) := by
  refine Outline.except_bind find_outline fun o => ?_
  cases o with
  | none => exact Outline.throw fun _ _ _ => trivial
  | some user =>
      refine Outline.weaken (P := fun w => user.id = u ∧ Ready i m w)
        (fun _ _ h => ⟨h.1 user rfl, h.2⟩) (Outline.of_prop fun hid => ?_)
      dsimp only
      split
      · exact Outline.throw fun _ _ _ => trivial
      refine Outline.except_bind stepUpNumber_outline fun n => ?_
      split
      · refine stepUpRecovery_outline.post fun r w _ h => ?_
        cases r with
        | error e => trivial
        | ok a => exact fun _ => hid ▸ h
      · rename_i hcode
        refine stepUpTotp_outline.post fun r w _ h => ?_
        cases r with
        | error e => trivial
        | ok a => exact fun hrec => absurd hrec hcode

theorem stepUp_any {u : Uuid} {code : String} :
    Outline codesLogic F i (stepUp ext u code).run (Ready i 0)
      (exceptPost (fun _ _ => True) fun _ => True) := by
  refine stepUp_outline.post fun r w _ _ => ?_
  cases r <;> trivial

/-- A block of careful steps. -/
theorem careful_block {region : Service (TxExit Place ServiceError α)}
    (h : region.run.Every (Within i (Careful i))) {P : TotpSrv → Prop} :
    Outline codesLogic F i (inTransaction region).run P
      (exceptPost (fun _ _ => True) fun _ => True) :=
  careful_service (within_transaction respects_careful h)

theorem careful_disableTx {u : Uuid} {a : Acceptance} :
    (disableTx u a).run.Every (Within i (Careful i)) :=
  Prog.Every.except_bind careful_disable fun _ =>
    Prog.Every.except_bind (every_propagate careful_invalidate) fun _ => trivial

theorem outline_map {p : Service α} {f : α → β} {P : TotpSrv → Prop}
    (h : Outline codesLogic F i p.run P
      (exceptPost (fun _ _ => True) fun _ => True)) :
    Outline codesLogic F i (f <$> p).run P
      (exceptPost (fun _ _ => True) fun _ => True) :=
  Outline.except_map (R := fun _ _ => True) h

/-- **Every step of every call is a move.** -/
theorem call_outline {q : TotpCall} :
    Outline codesLogic F i (q.body ext) (AtRest i) fun _ _ => True := by
  have hweak : ∀ {p : Service TotpReply}, Outline codesLogic F i p.run
      (AtRest i) (exceptPost (fun _ _ => True) fun _ => True) →
      Outline codesLogic F i p.run (AtRest i) fun _ _ => True :=
    fun h => h.post fun _ _ _ _ => trivial
  have hready : ∀ w, codesLogic.inv w → AtRest i w → Ready i 0 w :=
    fun _ _ h => ⟨h, Nat.zero_le _⟩
  cases q with
  | setup2fa u issuer accountName =>
      refine hweak (outline_map ?_)
      refine Outline.except_bind (careful_service careful_select) fun o => ?_
      cases o with
      | none => exact Outline.throw fun _ _ _ => trivial
      | some user =>
          dsimp only
          split
          · exact Outline.throw fun _ _ _ => trivial
          refine Outline.except_bind (careful_service careful_select)
            fun pending => ?_
          cases pending with
          | some existing =>
              dsimp only
              split
              · exact Outline.pure fun _ _ _ => trivial
              · exact Outline.throw fun _ _ _ => trivial
          | none =>
              refine Outline.except_bind (R := fun _ _ => True)
                (careful_service (Prog.Every.step ?_)) fun r => ?_
              · intro ch w b w' hstep
                dsimp only at hstep
                split at hstep
                · simp only [Option.some.injEq, Prod.mk.injEq] at hstep
                  rw [← hstep.2]
                  exact respects_careful.refl w
                · cases hstep
              · cases r with
                | error e => exact Outline.throw fun _ _ _ => trivial
                | ok setup =>
                    exact Outline.except_bind (careful_service careful_setPending)
                      fun _ => Outline.pure fun _ _ _ => trivial
  | confirm2fa u code => exact hweak (outline_map confirm2fa_outline)
  | verify2faCode u code =>
      refine hweak (outline_map (outline_map (stepUp_any.weaken hready)))
  | disable2fa u code =>
      refine hweak (outline_map (Outline.weaken hready ?_))
      refine Outline.except_bind find_outline fun o => ?_
      cases o with
      | none => exact Outline.throw fun _ _ _ => trivial
      | some user =>
          dsimp only
          split
          · exact Outline.throw fun _ _ _ => trivial
          · exact Outline.except_bind (stepUp_any.weaken fun _ _ h => h.2)
              fun a => careful_block careful_disableTx
  | cleanupExpiredDrafts =>
      exact hweak (outline_map (careful_service careful_cleanup))

/-! ## Runs -/

section Runs

variable {users : List UserRow} {clock : Int} {c d : TotpConfig}

theorem codes_cancel (hw : Codes w) : Codes (w.rollbackTx i) ∧
    CodesMove i w (w.rollbackTx i) ∧ AtRest i (w.rollbackTx i) := by
  obtain ⟨hinv, hmove⟩ := Careful.move (respects_careful.drops w) hw
  exact ⟨hinv, hmove, .rollback w⟩

theorem codes_env {d : Nat} (hw : Codes w) (h : tick d w = some w') :
    Codes w' ∧ codesLogic.env w w' := by
  cases h
  exact ⟨⟨⟨hw.linked.versions, hw.linked.links⟩, hw.unique, hw.issued,
    hw.notes, hw.burns⟩, rfl, rfl, rfl⟩

/-- Runs without a restriction. -/
abbrev allRuns : Filter Place TotpSrv Chance Nat TotpCall := .all

/-- What is known of every configuration. -/
abbrev GoodCodes (c : TotpConfig) : Prop :=
  Good codesLogic allRuns AtRest (fun _ _ _ _ => True) c

theorem codes_start : GoodCodes (Config.start (startState users clock)) := by
  refine Good.start ⟨⟨fun t c hc => ?_, fun t c hc => ?_⟩, fun k l y hk => ?_,
    .nil, fun hin => (by cases hin), .nil⟩ fun i => ⟨rfl, fun t => ?_⟩
  · cases t with
    | users => exact ⟨fun _ _ => trivial, fun _ _ _ => trivial⟩
    | recoveryCodes => cases hc
  · cases t with
    | users => exact fun _ _ _ _ _ => trivial
    | recoveryCodes => cases hc
  · obtain ⟨c, r, hc, -⟩ := hk
    cases hc
  · cases t with
    | users =>
        refine Table.own_eq_nil.mpr fun c hc => ?_
        obtain ⟨u, hu, rfl⟩ := List.mem_map.mp hc
        rfl
    | recoveryCodes => rfl

/-- What one configuration knows of a later one. -/
structure Later (w w' : TotpSrv) : Prop where
  evolves : Evolves CodeStep w w'
  stepUps : w.mem.stepUps <+: w'.mem.stepUps

/-- **The life of a recovery code**, along every run. -/
theorem codes_reaches (h : GoodCodes c)
    (hrun : (totpSystem ext).Reaches allRuns c d) :
    GoodCodes d ∧ Later c.shared d.shared := by
  have hbody : ∀ i q, Outline codesLogic (allRuns.run i q) i
      ((totpSystem ext).body q) (AtRest i) fun _ _ => True :=
    fun i q => call_outline
  have hcancel : ∀ {i : Nat} {q : TotpCall} {w : TotpSrv}, Codes w →
      allRuns.cancel i q →
        Codes (w.rollbackTx i) ∧ CodesMove i w (w.rollbackTx i) ∧
          AtRest i (w.rollbackTx i) := fun hw _ => codes_cancel hw
  have henv : ∀ {e : Nat} {w w' : TotpSrv}, Codes w → tick e w = some w' →
      allRuns.env e w w' →
        Codes w' ∧ codesLogic.env w w' := fun hw he _ => codes_env hw he
  refine ⟨sound (fun _ => stable_rest) hbody hcancel henv h hrun, ?_⟩
  exact sound_trans (R := Later) (fun _ => stable_rest) hbody hcancel henv
    (fun w => ⟨.refl codeStep_history w, List.prefix_refl _⟩)
    (fun h h' => ⟨h.evolves.trans codeStep_history h'.evolves,
      h.stepUps.trans h'.stepUps⟩)
    (fun _ _ hg => ⟨hg.evolves, hg.stepUps⟩)
    (fun _ _ he => ⟨.of_committed codeStep_history fun t k => by rw [he.1],
      he.2.1 ▸ List.prefix_refl _⟩) h hrun

end Runs

end DpopAuth.Ports.RecoveryCodes
