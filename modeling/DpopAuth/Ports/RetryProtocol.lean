import DpopAuth.Ports.FamilyInvariant

/-!
# Concurrent retries of one refresh

Several `refresh` calls present one token at the same time.  What they do to
the token's family goes through five stages: the row of the token is `free`;
one call, the winner, has `locked` it; the winner has `replaced` it by a
successor that is not committed yet; the winner has cached the pair it is going
to return, and is `ready` to commit; the rotation is `final`.

A `Submit` is the setting: the service, the token, its row, and the rows of the
family before it.  `Sits` relates a stage to the family's cells and the grace
cache, and `retryLogic` says that a step of one thread leaves every stage alone
that another thread has reached.

## Main results

* `Sits.commit`, `Sits.insert`, `Sits.lock` — the winner's steps.
* `Sits.rollback` — a call that is not the winner gives up nothing.
* `stable_pinned` — nobody moves the winner's stage.
-/

namespace DpopAuth.Ports.RetryProtocol

open DpopAuth.Verified.Resumption
open DpopAuth.Verified.RelyGuarantee
open DpopAuth.Verified.RowVersions
open DpopAuth.Verified.Transactions
open DpopAuth.Verified.AtomicRules
open DpopAuth.Verified.TtlCache
open DpopAuth.Ports.Schema
open DpopAuth.Ports.Service
open DpopAuth.Ports.Auth
open DpopAuth.Ports.FamilyProtocol
open DpopAuth.Ports.FamilyOutlines
open DpopAuth.Ports.FamilyInvariant

/-! ## The cells of a family -/

/-- The cells about rows of a family, committed or not. -/
def famCells (fam : Uuid) (t : Tokens) : Tokens :=
  t.filter fun c => c.row?.any fun r => r.fam == fam

variable {t u : Tokens} {fam : Uuid} {c d : Cell RefreshTokenRow}
  {r v : RefreshTokenRow} {i j : Nat} {w w' : Srv}

theorem mem_famCells :
    c ∈ famCells fam t ↔ c ∈ t ∧ ∃ r, c.row? = some r ∧ r.fam = fam := by
  simp [famCells, Option.any_eq_true]

theorem famCells_append :
    famCells fam (t ++ u) = famCells fam t ++ famCells fam u :=
  List.filter_append t u

theorem famCells_cons (hr : c.row? = some r) (hfam : r.fam = fam) :
    famCells fam (c :: t) = c :: famCells fam t := by
  simp [famCells, hr, hfam]

theorem famCells_insert (hfam : r.fam = fam) :
    famCells fam (t.insert i r) = famCells fam t ++ [.fresh i r] := by
  have hrow : (Cell.fresh i r).row? = some r := rfl
  rw [Table.insert, famCells_append, famCells_cons hrow hfam]
  rfl

theorem famCells_eq_nil (h : ∀ c ∈ t, ∀ r, c.row? = some r → r.fam ≠ fam) :
    famCells fam t = [] := by
  have hnone : ∀ c, c ∉ famCells fam t := fun c hc => by
    obtain ⟨hct, r, hr, hfam⟩ := mem_famCells.mp hc
    exact h c hct r hr hfam
  exact List.eq_nil_iff_forall_not_mem.mpr hnone

/-- What ends a transaction acts on a family by itself, unless rows of it
disappear. -/
theorem famCells_map {f : Cell RefreshTokenRow → Cell RefreshTokenRow}
    (h : ∀ c ∈ t, (f c).row?.any (fun r => r.fam == fam) =
      c.row?.any fun r => r.fam == fam) :
    famCells fam (t.map f) = (famCells fam t).map f := by
  rw [famCells, famCells, List.filter_map]
  congr 1
  exact List.filter_congr h

theorem famCells_commit (h : ∀ c ∈ t, Shape c) :
    famCells fam (t.commit i) = (famCells fam t).map (Cell.commit i) := by
  refine famCells_map fun c hc => ?_
  cases h c hc with
  | empty => rfl
  | plain r => rfl
  | locked k now r hactive =>
      by_cases hk : k = i <;> simp [Cell.commit, hk, RefreshTokenRow.revoke]
  | inserted k r hactive => by_cases hk : k = i <;> simp [Cell.commit, hk]

theorem famCells_rollback (h : ∀ c ∈ famCells fam t, c.heldBy i = false) :
    famCells fam (t.rollback i) = famCells fam t := by
  have hmap : famCells fam (t.rollback i) =
      (famCells fam t).map (Cell.rollback i) := by
    refine famCells_map fun c hc => ?_
    cases hfam : c.row?.any fun r => r.fam == fam with
    | true =>
        have hin : c ∈ famCells fam t := List.mem_filter.mpr ⟨hc, hfam⟩
        rw [Cell.rollback_of_not_heldBy (h c hin), hfam]
    | false =>
        rw [Option.any_eq_false] at hfam ⊢
        exact fun r hr => hfam r (row?_rollback hr)
  rw [hmap]
  exact (List.map_congr_left fun c hc =>
    Cell.rollback_of_not_heldBy (h c hc)).trans (List.map_id _)

/-- The committed rows of a family are those of its cells. -/
theorem famRows_cells (fam : Uuid) (t : Tokens) :
    famRows fam t = (famCells fam t).rows.filter fun r => r.fam == fam := by
  induction t with
  | nil => rfl
  | cons c t ih =>
      obtain ⟨_ | r, p⟩ := c
      · have hleft : famRows fam (⟨none, p⟩ :: t) = famRows fam t := rfl
        rw [hleft, ih]
        simp only [famCells, List.filter_cons]
        split <;> rfl
      · by_cases hfam : r.fam == fam <;>
          simpa [famRows, famCells, Table.rows, hfam] using ih

/-- An active row that nobody holds is the end of its family; the rows before
it are settled. -/
theorem famCells_active (h : FamInv t) (hr : r.revokedAt = none)
    {pre post : Tokens} (ht : t = pre ++ ⟨some r, none⟩ :: post) :
    famCells r.fam t = famCells r.fam pre ++ [⟨some r, none⟩] ∧
      ∀ c ∈ famCells r.fam pre, Settled c := by
  subst ht
  obtain ⟨_, hord, hcross⟩ := List.pairwise_append.mp h.order
  obtain ⟨hlast, _⟩ := List.pairwise_cons.mp hord
  have hpost : famCells r.fam post = [] :=
    famCells_eq_nil fun d hd v hv hfam =>
      (hlast d hd).active_last hr hv hfam.symm
  refine ⟨?_, fun c hc => ?_⟩
  · rw [famCells_append, famCells_cons rfl rfl, hpost]
  · obtain ⟨hcp, v, hv, hfam⟩ := mem_famCells.mp hc
    rcases ((hcross c hcp _ List.mem_cons_self) v r hv rfl).2 hfam with
      ⟨_, hs | ⟨k, _, hfresh⟩⟩
    · exact hs
    · cases hfresh.1

/-! ## The stages of a rotation -/

/-- The threads `ours` present one token, whose row is active and bound to
their key. -/
structure Retry where
  svc : AuthService
  refreshToken : String
  jkt : String
  row : RefreshTokenRow
  ours : Nat → Prop
  hash : row.tokenHash = svc.hashToken refreshToken
  bound : row.dpopJkt = jkt
  active : row.revokedAt = none
  window : 0 < svc.config.gracePeriod.asMicros
  signs : Signs svc jkt

namespace Retry

variable (S : Retry)

/-- What the grace cache answers for the token. -/
def cached (w : Srv) : Option ReplacementTokens :=
  w.mem.graceCache.get S.svc.config.gracePeriod.asMicros w.clock
    (S.row.fam, S.svc.hashToken S.refreshToken)

/-- The session of the token lasts: it has not expired and its user exists. -/
structure Lasts (w : Srv) : Prop where
  unexpired : w.clock < S.row.expiresAt
  owner : ∃ u ∈ (w.db .users).rows, u.id = S.row.userId ∧ u.deletedAt = none

/-- Nothing happens to the family or to the grace entry of the token. -/
structure Untouched (w w' : Srv) : Prop where
  cells : famCells S.row.fam (tokens w') = famCells S.row.fam (tokens w)
  cached : S.cached w' = S.cached w

/-- The runs in which our threads retry and are not cancelled, none of their
statements fails, no other call touches the family, and a grace entry for the
token stays. -/
def submissions : Filter Point Srv Pick Outside Call where
  run i q _ ch w w' :=
    (S.ours i → (∃ ua, q = .refresh S.refreshToken S.jkt ua) ∧
      (∀ msg, ch ≠ .fail msg) ∧ (w'.session i).status ≠ .aborted) ∧
    (¬ S.ours i → S.Untouched w w')
  cancel i _ := ¬ S.ours i
  env _ w w' := ∀ p, S.cached w = some p → S.cached w' = some p

/-- Those in which the session lasts as well. -/
def runs : Filter Point Srv Pick Outside Call where
  run i q pt ch w w' := S.Lasts w' ∧ S.submissions.run i q pt ch w w'
  cancel := S.submissions.cancel
  env e w w' := S.Lasts w' ∧ S.submissions.env e w w'

end Retry

/-- The same, with the rows of the family before the token's. -/
structure Submit extends Retry where
  before : Tokens
  settled : ∀ c ∈ before, Settled c

inductive Stage where
  | free
  | locked (i : Nat) (now : DateTime)
  | replaced (i : Nat) (now : DateTime) (next : RefreshTokenRow)
  | ready (i : Nat) (now : DateTime) (next : RefreshTokenRow)
      (pair : ReplacementTokens)
  | final (now : DateTime) (next : RefreshTokenRow) (pair : ReplacementTokens)

namespace Stage

/-- The winner, while its transaction is open. -/
def holder : Stage → Option Nat
  | .free => none
  | .locked i _ => some i
  | .replaced i _ _ => some i
  | .ready i _ _ _ => some i
  | .final _ _ _ => none

/-- The cell of the token. -/
def first (r : RefreshTokenRow) : Stage → Cell RefreshTokenRow
  | .free => ⟨some r, none⟩
  | .locked i now => ⟨some r, some (i, r.revoke now)⟩
  | .replaced i now _ => ⟨some r, some (i, r.revoke now)⟩
  | .ready i now _ _ => ⟨some r, some (i, r.revoke now)⟩
  | .final now _ _ => ⟨some (r.revoke now), none⟩

/-- The cell of its successor. -/
def second : Stage → Tokens
  | .free => []
  | .locked _ _ => []
  | .replaced i _ n => [.fresh i n]
  | .ready i _ n _ => [.fresh i n]
  | .final _ n _ => [⟨some n, none⟩]

/-- The successor and the pair it was returned with. -/
def rotation : Stage → Option (RefreshTokenRow × ReplacementTokens)
  | .ready _ _ n p => some (n, p)
  | .final _ n p => some (n, p)
  | _ => none

/-- Nobody but thread `i` moves on from this stage. -/
def Pinned (i : Nat) (st : Stage) : Prop :=
  st ≠ .free ∧ ∀ j, st.holder = some j → j = i

theorem first_row (r : RefreshTokenRow) (st : Stage) :
    ∃ v, (st.first r).row? = some v ∧ (st.first r).committed = some v ∧
      SameToken r v := by
  cases st with
  | final now n p => exact ⟨r.revoke now, rfl, rfl, .revoke now r⟩
  | _ => exact ⟨r, rfl, rfl, .refl r⟩

/-- The cells tell who holds the row. -/
theorem first_holder {r : RefreshTokenRow} {st : Stage} :
    (st.first r).heldBy i = true ↔ st.holder = some i := by
  cases st <;> simp [first, holder]

theorem second_holder {st : Stage} (hne : st.holder ≠ some i) :
    ∀ c ∈ st.second, c.heldBy i = false := by
  intro c hc
  cases st <;> simp_all [second, holder]

end Stage

namespace Submit

variable (S : Submit)

/-- `n` is the active row of the refresh token in `p`. -/
structure Succeeds (n : RefreshTokenRow) (p : ReplacementTokens) : Prop where
  hash : n.tokenHash = S.svc.hashToken p.refreshToken
  fam : n.fam = S.row.fam
  active : n.revokedAt = none

/-- The family is at this stage. -/
structure Sits (st : Stage) (w : Srv) : Prop where
  cells : famCells S.row.fam (tokens w) =
    S.before ++ st.first S.row :: st.second
  rotation : ∀ n p, st.rotation = some (n, p) →
    S.Succeeds n p ∧ S.cached w = some p

/-- The rotation has committed. -/
def Finished (w : Srv) : Prop := ∃ now n p, S.Sits (.final now n p) w

/-- The cell at place `k` is the token's. -/
def Spot (k : Nat) (w : Srv) : Prop :=
  ∃ c v, (tokens w)[k]? = some c ∧ c.committed = some v ∧
    v.tokenHash = S.row.tokenHash

end Submit

variable {S : Submit} {st st' : Stage}

namespace Submit.Sits

theorem mem_first (h : S.Sits st w) : st.first S.row ∈ tokens w := by
  have hin : st.first S.row ∈ famCells S.row.fam (tokens w) := by
    rw [h.cells]
    simp
  exact (mem_famCells.mp hin).1

/-- The cell with the token's hash. -/
theorem eq_first (h : S.Sits st w) (hf : FamInv (tokens w)) (hc : c ∈ tokens w)
    (hv : c.row? = some v) (hhash : v.tokenHash = S.row.tokenHash) :
    c = st.first S.row := by
  obtain ⟨u, hu, _, hsame⟩ := st.first_row S.row
  exact hf.cell_unique hc h.mem_first hv hu (hhash.trans hsame.tokenHash.symm)

/-- The stages one state may be at have one winner. -/
theorem first_eq (h : S.Sits st w) (h' : S.Sits st' w) :
    st.first S.row = st'.first S.row := by
  have heq := h.cells.symm.trans h'.cells
  rw [List.append_cancel_left_eq, List.cons.injEq] at heq
  exact heq.1

theorem holder_eq (h : S.Sits st w) (h' : S.Sits st' w) :
    st.holder = st'.holder := by
  have heq := h.first_eq h'
  have hiff : ∀ i, st.holder = some i ↔ st'.holder = some i := fun i => by
    rw [← Stage.first_holder (r := S.row), heq, Stage.first_holder]
  exact Option.ext hiff

theorem free_of (h : S.Sits st w) (h' : S.Sits .free w) : st = .free := by
  have heq := h.first_eq h'
  cases st with
  | free => rfl
  | final now n p =>
      have hactive := S.active
      have hrow : S.row.revoke now = S.row := by simpa [Stage.first] using heq
      rw [← hrow] at hactive
      cases hactive
  | _ => simp [Stage.first] at heq

/-- A step that changes neither the tokens nor the grace entry. -/
theorem same (h : S.Sits st w) (htab : tokens w' = tokens w)
    (hc : S.cached w' = S.cached w) : S.Sits st w' where
  cells := htab ▸ h.cells
  rotation n p hrot := by
    rw [hc]
    exact h.rotation n p hrot

/-- The winner takes the row. -/
theorem lock {pre post : Tokens} {now : DateTime} (h : S.Sits .free w)
    (hf : FamInv (tokens w)) (hhere : tokens w = pre ++ ⟨some S.row, none⟩ :: post)
    (htab : tokens w' = pre ++ ⟨some S.row, some (i, S.row.revoke now)⟩ :: post) :
    S.Sits (.locked i now) w' where
  cells := by
    have hpost : famCells S.row.fam post = [] := by
      obtain ⟨hcells, _⟩ := famCells_active hf S.active hhere
      rw [hhere, famCells_append, famCells_cons rfl rfl,
        List.append_cancel_left_eq, List.cons.injEq] at hcells
      exact hcells.2
    have hpre : famCells S.row.fam pre = S.before := by
      have hcells := h.cells
      rw [hhere, famCells_append, famCells_cons rfl rfl, hpost] at hcells
      exact List.append_inj_left' hcells rfl
    rw [htab, famCells_append, famCells_cons rfl rfl, hpost, hpre]
    rfl
  rotation _ _ hrot := by cases hrot

/-- The winner inserts the successor. -/
theorem insert {now : DateTime} {n : RefreshTokenRow}
    (h : S.Sits (.locked i now) w) (hfam : n.fam = S.row.fam)
    (htab : tokens w' = (tokens w).insert i n) :
    S.Sits (.replaced i now n) w' where
  cells := by
    rw [htab, famCells_insert hfam, h.cells]
    simp [Stage.first, Stage.second]
  rotation _ _ hrot := by cases hrot

/-- The winner caches its answer. -/
theorem cache {now : DateTime} {n : RefreshTokenRow} {p : ReplacementTokens}
    (h : S.Sits (.replaced i now n) w) (hs : S.Succeeds n p)
    (htab : tokens w' = tokens w) (hc : S.cached w' = some p) :
    S.Sits (.ready i now n p) w' where
  cells := htab ▸ h.cells
  rotation n' p' hrot := by
    cases hrot
    exact ⟨hs, hc⟩

/-- The winner commits. -/
theorem commit {now : DateTime} {n : RefreshTokenRow} {p : ReplacementTokens}
    (h : S.Sits (.ready i now n p) w) (hf : FamInv (tokens w))
    (htab : tokens w' = (tokens w).commit i) (hc : S.cached w' = S.cached w) :
    S.Sits (.final now n p) w' where
  cells := by
    have hbefore : S.before.map (Cell.commit i) = S.before :=
      (List.map_congr_left fun c hc =>
        Cell.commit_of_not_heldBy (S.settled c hc).not_held).trans
          (List.map_id _)
    rw [htab, famCells_commit hf.shape, h.cells, List.map_append, hbefore]
    simp [Stage.first, Stage.second, Cell.commit, Cell.fresh]
  rotation n' p' hrot := by
    cases hrot
    rw [hc]
    exact h.rotation n p rfl

/-- Somebody else rolls back. -/
theorem rollback (h : S.Sits st w) (hne : st.holder ≠ some i)
    (htab : tokens w' = (tokens w).rollback i) (hc : S.cached w' = S.cached w) :
    S.Sits st w' where
  cells := by
    rw [htab, famCells_rollback, h.cells]
    intro c hc
    rw [h.cells, List.mem_append, List.mem_cons] at hc
    rcases hc with hc | rfl | hc
    · exact (S.settled c hc).not_held
    · rw [← Bool.not_eq_true, Stage.first_holder]
      exact hne
    · exact Stage.second_holder hne c hc
  rotation n p hrot := by
    rw [hc]
    exact h.rotation n p hrot

/-- A step of the environment. -/
theorem env (h : S.Sits st w) (he : Elsewhere w w')
    (hc : ∀ p, S.cached w = some p → S.cached w' = some p) :
    S.Sits st w' where
  cells := he.table ▸ h.cells
  rotation n p hrot := ⟨(h.rotation n p hrot).1, hc p (h.rotation n p hrot).2⟩

end Submit.Sits

/-! ## The logic -/

namespace Submit

/-- The family is at some stage, and the winner is one of us. -/
def Staged (w : Srv) : Prop :=
  ∃ st, S.Sits st w ∧ ∀ i, st.holder = some i → S.ours i

variable (S) in
/-- A step of thread `j` leaves the stages others have reached alone. -/
def Yields (j : Nat) (w w' : Srv) : Prop :=
  ∀ st, st ≠ .free → st.holder ≠ some j → S.Sits st w → S.Sits st w'

end Submit

/-- The logic of the retries: on top of the moves of the family protocol,
stages are respected. -/
def retryLogic (S : Submit) : Logic Srv where
  inv w := Inv False w ∧ S.Lasts w ∧ S.Staged w
  guar j w w' := Relation.ReflTransGen (Move False j) w w' ∧ S.Yields j w w'
  env w w' := Elsewhere w w' ∧ ∀ st, S.Sits st w → S.Sits st w'

/-- What is stable under the family protocol is stable here. -/
theorem stable_of_family {P : Srv → Prop} (h : Stable (familyLogic False) i P) :
    Stable (retryLogic S) i P where
  thread hne hi hi' hg hP := h.thread hne hi.1 hi'.1 hg.1 hP
  env hi hi' he hP := h.env hi.1 hi'.1 he.1 hP

theorem stable_pinned (h : st.Pinned i) : Stable (retryLogic S) i (S.Sits st) where
  thread hne _ _ hg hs :=
    hg.2 st h.1 (fun hj => hne (h.2 _ hj)) hs
  env _ _ he hs := he.2 st hs

theorem pinned_final {now : DateTime} {n : RefreshTokenRow}
    {p : ReplacementTokens} : (Stage.final now n p).Pinned i :=
  ⟨fun h => (by cases h), fun _ h => by cases h⟩

theorem stable_finished : Stable (retryLogic S) i S.Finished :=
  .exists fun _ => .exists fun _ => .exists fun _ => stable_pinned pinned_final

theorem stable_spot {k : Nat} : Stable (retryLogic S) i (S.Spot k) :=
  stable_of_family <| stable_of_move
    (fun _ hi hm ⟨c, v, hk, hv, hhash⟩ => by
      obtain ⟨c', hk', hstep⟩ := hm.change.stays hk
      obtain ⟨v', hv', hsame, _⟩ :=
        hstep.committed (hi.fams.shape c (List.mem_of_getElem? hk)) hv
      exact ⟨c', v', hk', hv', hsame.tokenHash.trans hhash⟩)
    fun he ⟨c, v, hk, h⟩ => ⟨c, v, he.table ▸ hk, h⟩

/-- What one of our steps may count on. -/
structure Smooth (S : Submit) (i : Nat) (ch : Pick) (w w' : Srv) : Prop where
  ours : S.ours i
  succeeds : ∀ msg, ch ≠ .fail msg
  alive : (w'.session i).status ≠ .aborted
  lasts : S.Lasts w'
  inv : Inv False w'
  moves : Relation.ReflTransGen (Move False i) w w'

/-- One of our steps, as the logic wants it. -/
theorem Smooth.step {ch : Pick} (h : Smooth S i ch w w') (hst : S.Sits st w')
    (hours : ∀ j, st.holder = some j → S.ours j) (hy : S.Yields i w w') :
    (retryLogic S).inv w' ∧ (retryLogic S).guar i w w' :=
  ⟨⟨h.inv, h.lasts, st, hst, hours⟩, h.moves, hy⟩

/-- A step that changes neither the tokens nor the grace entry. -/
theorem Smooth.keep {ch : Pick} (h : Smooth S i ch w w')
    (hi : (retryLogic S).inv w) (htab : tokens w' = tokens w)
    (hc : S.cached w' = S.cached w) :
    (retryLogic S).inv w' ∧ (retryLogic S).guar i w w' := by
  obtain ⟨st, hst, hours⟩ := hi.2.2
  exact h.step (hst.same htab hc) hours fun st _ _ hs => hs.same htab hc

/-- A step of the winner: no other stage is in the way. -/
theorem Smooth.win {ch : Pick} (h : Smooth S i ch w w') (hst : S.Sits st w)
    (hholds : st.holder = some i) (hst' : S.Sits st' w')
    (hours : ∀ j, st'.holder = some j → j = i) :
    (retryLogic S).inv w' ∧ (retryLogic S).guar i w w' := by
  refine h.step hst' (fun j hj => hours j hj ▸ h.ours) fun st₁ _ hne hs => ?_
  rw [hs.holder_eq hst] at hne
  exact absurd hholds hne

end DpopAuth.Ports.RetryProtocol
