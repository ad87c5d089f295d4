import DpopAuth.Verified.BlockDrafts
import DpopAuth.Ports.AuthQueries
import DpopAuth.Ports.Sessions

/-!
# Sessions in every run

`authSystem`, seen family by family, is a machine for sessions: each of its
steps leaves the session of a family as it is, or is the `COMMIT` of a call
that may do what is done to it.  A session is begun by a registration or a
login, rotated by a refresh that shows its current token and its key, and
finished by a logout or by a refresh that shows one of its tokens; a call that
shows no token of a session cannot touch it.

The proof is an outline of each call in which the bound of a step is what it
does to the sessions.  No statement inside of a block changes a committed row,
so the bound is at stake where a transaction commits, and there the call has a
`Mandate` for what it holds.

## Main results

* `step_session` — the steps of any run, as steps of a session.
* `session_history` — what becomes of a session in the course of a run.
* `session_untouched` — calls that do not show its tokens leave it alone.
-/

namespace DpopAuth.Ports.SessionRuns

open DpopAuth.Verified.Resumption
open DpopAuth.Verified.RelyGuarantee
open DpopAuth.Verified.RowVersions
open DpopAuth.Verified.Transactions
open DpopAuth.Verified.TransactionRules
open DpopAuth.Verified.AtomicRules
open DpopAuth.Verified.BlockDrafts
open DpopAuth.Verified.Machines
open DpopAuth.Verified.KeyChains
open DpopAuth.Ports.Schema
open DpopAuth.Ports.Service
open DpopAuth.Ports.Repo
open DpopAuth.Ports.Auth
open DpopAuth.Ports.AuthQueries
open DpopAuth.Ports.FamilyProtocol
open DpopAuth.Ports.FamilyInvariant
open DpopAuth.Ports.FamilyOutlines
open DpopAuth.Ports.RetryProtocol
open DpopAuth.Ports.Sessions

variable {svc : AuthService} {q : Call} {i j : Nat} {w w' : Srv} {t : Tokens}
  {α β : Type}

/-! ## The bound of a step -/

/-- What a step of a call does to the sessions. -/
def Bound (svc : AuthService) (q : Call) (w w' : Srv) : Prop :=
  ∀ fam, SessionStep svc q (session fam (tokens w)) (session fam (tokens w'))

/-- What is known of every step. -/
abbrev Steps (i : Nat) (q : Call) : Point → Pick → Srv → Srv → Prop :=
  (within (.all : Filter Point Srv Pick Outside Call) (familyLogic False)).run i q

/-- An outline whose steps keep the bound. -/
abbrev Bounded (svc : AuthService) (q : Call) (i : Nat)
    (p : Prog Point Srv Pick α) (P : Srv → Prop) (Q : α → Srv → Prop) : Prop :=
  Outline ((familyLogic False).own i (Bound svc q)) (Steps i q) i p P Q

theorem session_of_rows {u : Tokens} (h : u.rows = t.rows) (fam : Uuid) :
    session fam u = session fam t := by
  rw [session, session, famRows, famRows, h]

theorem bound_of_rows (h : (tokens w').rows = (tokens w).rows) :
    Bound svc q w w' := fun fam => .inl (session_of_rows h fam)

/-- A `COMMIT` of what the call has a mandate for. -/
theorem bound_of_commit (h : FamInv t) (hm : Mandate svc q i t)
    (hbefore : t.rows = (tokens w).rows) (hafter : tokens w' = t.commit i) :
    Bound svc q w w' := by
  intro fam
  rw [hafter, ← session_of_rows hbefore]
  exact commit_session h hm fam

/-- Facts proved of a program, beside the bound. -/
theorem Bounded.facts {p : Prog Point Srv Pick α} {P P' : Srv → Prop}
    {Q Q' : α → Srv → Prop}
    (h : Outline (familyLogic False) (Allowed False i) i p P Q)
    (hb : Bounded svc q i p P' Q') :
    Bounded svc q i p (fun w => P w ∧ P' w) fun a w => Q a w ∧ Q' a w :=
  Outline.and_own (Outline.restrict (fun _ hfalse => hfalse.elim) h) hb

/-! ## Inside of a block -/

theorem stable_opened : Stable (familyLogic False) i (Opened i) :=
  stable_of_move
    (fun hne _ hm h => by
      unfold Opened
      rw [hm.frame.session i (Ne.symm hne)]
      exact h)
    fun he h => by
      unfold Opened
      rw [he.session]
      exact h

theorem bounded_block {p : Prog Point Srv Pick α} (hp : p.Every (Shut i)) :
    Bounded svc q i p (Opened i) fun _ => Opened i := by
  refine Outline.every_within stable_opened (fun _ hF => hF.2) ?_
  refine Prog.Every.mono (fun {β f} hf ch w b w' hstep hin => ?_) hp
  obtain ⟨hin', hrows⟩ := hf hstep hin
  exact ⟨hin', bound_of_rows (hrows .refreshTokens)⟩

/-- No statement changes a committed row of an open block. -/
theorem writes_shut : Writes svc (Shut i) where
  select := shut_select
  insertUser row := shut_insert
  insertIdentifier row := shut_insert
  insertToken row := shut_insert
  updateLastLoginAt id :=
    Prog.Every.except_bind shut_update fun _ => trivial
  revokeWhere pt p := shut_update
  recordLoginAttempt kind value ip success reason := shut_insert
  look hf := fun ch w b w' hstep hin => by
    rw [hf hstep]
    exact ⟨hin, fun _ => rfl⟩
  fresh := fun ch w b w' hstep hin => by
    unfold newUuidStep at hstep
    split at hstep
    · split at hstep
      · cases hstep
      · simp only [Option.some.injEq, Prod.mk.injEq] at hstep
        rw [← hstep.2]
        exact ⟨hin, fun _ => rfl⟩
    · cases hstep
  graceInsert key value := Prog.Every.step fun ch w b w' hstep hin => by
    simp only [Option.some.injEq, Prod.mk.injEq] at hstep
    rw [← hstep.2]
    exact ⟨hin, fun _ => rfl⟩

theorem opened_of_hold {X : List (Cell RefreshTokenRow)} (h : Hold i true X w) :
    Opened i w := by
  simp only [Holds] at h
  cases hst : (w.session i).status <;> simp_all [Opened]

/-! ## Outside of a block -/

/-- A step outside of a block that leaves the tokens alone. -/
def Silent (i : Nat) {β : Type} (f : Action Srv Pick β) : Prop :=
  ∀ ⦃ch w b w'⦄, f i ch w = some (b, w') → Hold i false [] w →
    Hold i false [] w' ∧ (tokens w').rows = (tokens w).rows

theorem silent_of_offTable {f : Action Srv Pick β}
    (h : OffTable Tbl.refreshTokens f) : Silent i f := fun ch w b w' hf hX => by
  have haway := h hf hX
  refine ⟨haway.holds, ?_⟩
  rcases haway.table with htab | htab
  · exact congrArg Table.rows htab
  · exact (congrArg Table.rows htab).trans (rows_rollback i _)

theorem every_silent {p : Prog Point Srv Pick α}
    (h : p.Every (OffTable Tbl.refreshTokens)) : p.Every (Silent i) :=
  Prog.Every.mono (fun hf => silent_of_offTable hf) h

theorem others_silent : Others svc (Silent i) where
  select := every_silent offTable_select
  insertUser row := every_silent (offTable_insert (by decide))
  insertIdentifier row := every_silent (offTable_insert (by decide))
  updateLastLoginAt id :=
    Prog.Every.except_bind (every_silent (offTable_update (by decide)))
      fun _ => trivial
  recordLoginAttempt kind value ip success reason :=
    every_silent (offTable_insert (by decide))
  look hf := fun ch w b w' hstep hX => by
    rw [hf hstep]
    exact ⟨hX, rfl⟩
  fresh := fun ch w b w' hstep hX => by
    unfold newUuidStep at hstep
    split at hstep
    · split at hstep
      · cases hstep
      · simp only [Option.some.injEq, Prod.mk.injEq] at hstep
        rw [← hstep.2]
        exact ⟨hX, rfl⟩
    · cases hstep
  graceInsert key value := Prog.Every.step fun ch w b w' hstep hX => by
    simp only [Option.some.injEq, Prod.mk.injEq] at hstep
    rw [← hstep.2]
    exact ⟨hX, rfl⟩

theorem bounded_silent {p : Prog Point Srv Pick α} (hp : p.Every (Silent i)) :
    Bounded svc q i p (Hold i false []) fun _ => Hold i false [] := by
  refine Outline.every_within stable_hold (fun _ hF => hF.2) ?_
  refine Prog.Every.mono (fun {β f} hf ch w b w' hstep hX => ?_) hp
  obtain ⟨hX', hrows⟩ := hf hstep hX
  exact ⟨hX', bound_of_rows hrows⟩

/-- A program that leaves the tokens alone, in front. -/
theorem silent_bind {p : Svc α} {k : α → Svc β}
    (hp : p.run.Every (Silent i))
    (rest : ∀ a, Bounded svc q i (k a).run (Hold i false []) fun _ _ => True) :
    Bounded svc q i (p >>= k).run (Hold i false []) fun _ _ => True := by
  refine Outline.bind (fun r => ?_) (bounded_silent hp)
  cases r with
  | error e => exact fun _ _ _ => trivial
  | ok a => exact rest a

/-! ## Mandates -/

/-- What does not depend on whether a committed row is revoked stays true. -/
theorem row_move {φ : RefreshTokenRow → Prop}
    (hφ : ∀ {r v}, SameToken r v → φ r → φ v) (hf : FamInv (tokens w))
    (hm : Move False j w w') (h : ∃ r ∈ (tokens w).rows, φ r) :
    ∃ r ∈ (tokens w').rows, φ r := by
  obtain ⟨r, hr, hφr⟩ := h
  obtain ⟨c, hc, hcr⟩ := Table.mem_rows.mp hr
  obtain ⟨c', hc', hstep⟩ := hm.change.image hc
  obtain ⟨v, hv, hsame, -⟩ := hstep.committed (hf.shape c hc) hcr
  exact ⟨v, Table.mem_rows.mpr ⟨c', hc', hv⟩, hφ hsame hφr⟩

/-- A committed row of the family has the hash. -/
def Shown (tokenHash : String) (fam : Uuid) (w : Srv) : Prop :=
  ∃ r ∈ (tokens w).rows, r.fam = fam ∧ r.tokenHash = tokenHash

theorem shown_move {tokenHash : String} {fam : Uuid} (hf : FamInv (tokens w))
    (hm : Move False j w w') (h : Shown tokenHash fam w) :
    Shown tokenHash fam w' :=
  row_move (fun hsame hr => ⟨hsame.fam.trans hr.1, hsame.tokenHash.trans hr.2⟩)
    hf hm h

theorem stable_shown {tokenHash : String} {fam : Uuid} :
    Stable (familyLogic False) i (Shown tokenHash fam) :=
  stable_of_move (fun _ hi hm h => shown_move hi.fams hm h)
    fun he h => by
      unfold Shown
      rw [he.table]
      exact h

/-- A session that holds nothing needs no mandate. -/
theorem mandate_nil (h : t.own i = []) : Mandate svc q i t :=
  ⟨fun c hc => by simp [h] at hc, fun d hd => by simp [h] at hd⟩

/-- The first row of a family, and nothing else. -/
theorem mandate_first {v : RefreshTokenRow} (hown : t.own i = [Cell.fresh i v])
    (hq : presents q = none) (hkey : boundTo q = some v.dpopJkt) :
    Mandate svc q i t := by
  refine ⟨fun c hc old hold => ?_, fun d hd _ u hu => ?_⟩
  · rw [hown, List.mem_singleton] at hc
    rw [hc] at hold
    cases hold
  · rw [hown, List.mem_singleton] at hd
    rw [hd] at hu
    obtain rfl := Option.some.inj hu
    exact ⟨hkey, .inl hq⟩

/-- The rows an `UPDATE` has locked are those it was to revoke. -/
theorem locks_old {p : RefreshTokenRow → Bool} {done : List RefreshTokenRow}
    (hp : ∀ now r, p (RefreshTokenRow.revoke now r) = p r) (hf : FamInv t)
    (hl : Locks p done (t.own i)) {c : Cell RefreshTokenRow} (hc : c ∈ t.own i)
    {old : RefreshTokenRow} (hold : c.committed = some old) : p old = true := by
  obtain ⟨hct, hheld⟩ := Table.mem_own.mp hc
  obtain ⟨r, now, -, rfl⟩ :=
    locked_cell (hf.shape c hct) ⟨hheld, by simp [hold]⟩
  obtain rfl : r = old := by simpa using hold
  have hin := hl.rows.subset (List.mem_map_of_mem hc)
  obtain ⟨row, hdone, hrow⟩ := List.mem_map.mp hin
  have hrow' : row = r.revoke now := by simpa using hrow
  rw [← hp now r, ← hrow']
  exact hl.qualify row hdone

/-- Rows that an `UPDATE` has locked, and nothing else. -/
theorem mandate_locks {p : RefreshTokenRow → Bool} {done : List RefreshTokenRow}
    (hp : ∀ now r, p (RefreshTokenRow.revoke now r) = p r) (hf : FamInv t)
    (hl : Locks p done (t.own i))
    (hmay : ∀ old, p old = true → MayRevoke svc t old q) : Mandate svc q i t :=
  ⟨fun _ hc _ hold => hmay _ (locks_old hp hf hl hc hold),
    fun d hd hfresh => absurd hfresh (hl.locked d hd)⟩

/-! ## What the region of a block has written -/

/-- A token once shown stays so. -/
theorem carry_shown {ξ : Type} {p : Prog Point Srv Pick (Except ξ α)}
    (tokenHash : String) (fam : Uuid) {P X : Srv → Prop} {R : α → Srv → Prop}
    (h : Outline (familyLogic False) (Allowed False i) i p P (exceptPost R X)) :
    Outline (familyLogic False) (Allowed False i) i p
      (fun w => P w ∧ Shown tokenHash fam w)
      (exceptPost (fun a w => R a w ∧ Shown tokenHash fam w) X) := by
  refine (Outline.carry stable_shown (fun hi hg hshown => ?_) h).post
    fun r w _ hw => ?_
  · exact (moves_keep (fun hi hm h => shown_move hi.fams hm h) hi hg hshown).2
  · cases r with
    | error e => exact hw.1
    | ok a => exact hw

/-- How the region of a block may end: with a mandate for its `COMMIT`. -/
def Exit (svc : AuthService) (q : Call) (i : Nat) :
    TxExit Point Stop α → Srv → Prop
  | .leave _, _ => True
  | .commit _ _, w => Mandate svc q i (tokens w)

theorem mandate_of_hold {X : List (Cell RefreshTokenRow)} (h : Hold i true X w)
    (hm : (tokens w).own i = X → Mandate svc q i (tokens w)) :
    Mandate svc q i (tokens w) := by
  simp only [Holds] at h
  cases hst : (w.session i).status with
  | explicit => exact hm (by simp_all)
  | aborted => exact mandate_nil (by simp_all)
  | idle => simp_all
  | implicit => simp_all

/-- What the compare-and-swap of `refresh` leaves behind, with the hash. -/
def SwappedOf (i : Nat) (tokenHash : String) :
    Option RefreshTokenRow → Srv → Prop
  | none, w => Hold i true [] w
  | some row, w => ∃ c old, (c.committed = some old ∧ SameToken old row ∧
      old.tokenHash = tokenHash) ∧ Hold i true [c] w

/-- A committed row has the hash and is the same token as `row`. -/
def Origin (tokenHash : String) (row : RefreshTokenRow) (w : Srv) : Prop :=
  ∃ r ∈ (tokens w).rows, SameToken r row ∧ r.tokenHash = tokenHash

theorem revokeRefreshTokenIfActive_shows {tokenHash : String} :
    Outline (familyLogic False) (Allowed False i) i
      (revokeRefreshTokenIfActive tokenHash).run (Hold i true [])
      (exceptPost (fun o w => SwappedOf i tokenHash o w ∧
        ∀ row, o = some row → Origin tokenHash row w) (Held i true)) := by
  refine Outline.except_bind ((revokeWhere_outline (fun _ _ => rfl)
    (fun _ h => by cases h)).weaken fun _ _ hX => ⟨hX, fun _ h => by cases h⟩)
    fun rows => Outline.pure fun w hi hw => ?_
  rcases hw.1 with ⟨hst, _, hlocks⟩ | ⟨_, hfalse, _⟩
  · have hf : FamInv (tokens w) := FamilyProtocol.Inv.fams hi
    rcases hlocks.of_hash hf with
      ⟨rfl, hown⟩ | ⟨row, c, old, rfl, hown, hold, hsame⟩
    · exact ⟨(by simp [Holds, hst, hown] : Hold i true [] w),
        fun row h => by cases h⟩
    · have hc : c ∈ (tokens w).own i := hown ▸ List.mem_singleton_self c
      have hhash : old.tokenHash = tokenHash :=
        beq_iff_eq.mp (locks_old (fun _ _ => rfl) hf hlocks hc hold)
      have hheld : Hold i true [c] w := by simp [Holds, hst, hown]
      refine ⟨⟨c, old, ⟨hold, hsame, hhash⟩, hheld⟩, fun row' h => ?_⟩
      cases h
      exact ⟨old, Table.mem_rows.mpr ⟨c, (Table.mem_own.mp hc).1, hold⟩, hsame,
        hhash⟩
  · cases hfalse

theorem findRefreshTokenByHash_shows {tokenHash : String} :
    Outline (familyLogic False) (Allowed False i) i
      (findRefreshTokenByHash tokenHash).run (Hold i true [])
      (exceptPost (fun o w => Hold i true [] w ∧
        ∀ r, o = some r → Shown tokenHash r.fam w) (Held i true)) := by
  refine Outline.step (Stable.exceptPost (fun o => stable_hold.and
    (.forall fun r => .forall fun _ => stable_shown)) stable_held)
    fun {w ch o w'} hi hX hstep _ => ?_
  rcases statement_cases hstep with ⟨_, rfl, e, rfl⟩ | ⟨_, rfl, _, e, rfl⟩ |
    ⟨hst, hrun⟩
  · exact ⟨hi, .refl, [], hX⟩
  · have haway := away_failStatement hX
    exact ⟨(move_of_away haway).inv hi, .single (move_of_away haway), [],
      haway.holds⟩
  · simp only [Option.some.injEq, Prod.mk.injEq] at hrun
    obtain ⟨rfl, rfl⟩ := hrun
    have hopen := away_openStatement (p := Point.plain) hX
    have hdone := hopen.trans (away_completeStatement hopen.holds)
    have hm : Move False i _ _ := move_of_away hdone
    refine ⟨hm.inv hi, .single hm, hdone.holds, fun r hr => ?_⟩
    have hown : (tokens w).own i = [] := by
      simp only [Holds] at hX
      cases hs : (w.session i).status <;> simp_all
    have hin : r ∈ (tokens (w.openStatement i .plain)).view i :=
      List.mem_of_find?_eq_some hr
    rw [tokens_open, Table.view_of_own_nil hown] at hin
    have hhash : r.tokenHash = tokenHash :=
      beq_iff_eq.mp (List.find?_some (p := fun r : RefreshTokenRow =>
        r.tokenHash == tokenHash) hr)
    exact shown_move (FamilyProtocol.Inv.fams hi) hm ⟨r, hin, rfl, hhash⟩

section Refresh

variable {refreshToken jkt : String} {userAgent : Option String}

theorem Shown.known {tokenHash : String} {fam : Uuid}
    (h : Shown tokenHash fam w) : Known fam (tokens w) := by
  obtain ⟨r, hr, hfam, -⟩ := h
  obtain ⟨c, hc, hcr⟩ := Table.mem_rows.mp hr
  exact ⟨c, hc, r, hcr, hfam⟩

theorem revokeRefreshTokenFamily_mandate {fam : Uuid} :
    Outline (familyLogic False) (Allowed False i) i
      (revokeRefreshTokenFamily fam).run
      (fun w => Hold i true [] w ∧ Shown (svc.hashToken refreshToken) fam w)
      (exceptPost (fun _ w => Mandate svc (.refresh refreshToken jkt userAgent) i
        (tokens w)) (Held i true)) := by
  have hrevoke : Outline (familyLogic False) (Allowed False i) i
      (revokeWhere (.revokeRefreshTokenFamily fam)
        fun r => r.fam == fam).run
      (fun w => Hold i true [] w ∧ ∀ f,
        Point.revokeRefreshTokenFamily fam = .revokeRefreshTokenFamily f →
          Known f (tokens w)) _ :=
    revokeWhere_outline (fun _ _ => rfl) fun f h => by
      cases h
      rfl
  refine Outline.except_bind ((carry_shown (svc.hashToken refreshToken)
    fam hrevoke).weaken ?_) fun rows =>
    Outline.pure fun w hi hw => ?_
  · intro w _ hw
    refine ⟨⟨hw.1, fun f h => ?_⟩, hw.2⟩
    cases h
    exact hw.2.known
  · obtain ⟨⟨⟨-, -, hlocks⟩ | ⟨-, hfalse, -⟩, -⟩, hshown⟩ := hw
    · refine mandate_locks (fun _ _ => rfl) (FamilyProtocol.Inv.fams hi) hlocks
        fun old hold => ?_
      obtain ⟨r, hr, hfam, hhash⟩ := hshown
      exact ⟨r, hr, hfam.trans (beq_iff_eq.mp hold).symm, hhash⟩
    · cases hfalse

/-- A reuse revokes the family of the token it was shown. -/
theorem refreshRevoked_mandate :
    Outline (familyLogic False) (Allowed False i) i
      (refreshRevoked svc (svc.hashToken refreshToken)).run (Hold i true [])
      (exceptPost (Exit svc (.refresh refreshToken jkt userAgent) i)
        (Held i true)) := by
  refine Outline.except_bind
    (propagate_outline findRefreshTokenByHash_shows) fun o => ?_
  cases o with
  | none => exact Outline.throw fun w _ hw => ⟨[], hw.1⟩
  | some existing =>
      refine Outline.except_bind (Outline.lift (graceGet_outline
        (stable_hold.and (.forall fun r => .forall fun _ => stable_shown))))
        fun cached => ?_
      cases cached with
      | some cached => exact Outline.pure fun _ _ _ => trivial
      | none =>
          refine Outline.except_bind (propagate_outline
            (revokeRefreshTokenFamily_mandate.weaken fun w _ hw =>
              ⟨hw.1, hw.2 existing rfl⟩))
            fun _ => Outline.pure fun w _ hw => hw

/-- A rotation inserts the successor of the token it has locked. -/
theorem refreshActive_mandate {row : RefreshTokenRow} :
    Outline (familyLogic False) (Allowed False i) i
      (refreshActive svc (svc.hashToken refreshToken) jkt userAgent row).run
      (SwappedOf i (svc.hashToken refreshToken) (some row))
      (exceptPost (Exit svc (.refresh refreshToken jkt userAgent) i)
        (Held i true)) := by
  refine Outline.of_exists fun c => Outline.of_exists fun old =>
    Outline.of_prop fun ⟨hold, hsame, hhash⟩ => ?_
  refine calm_bind (Prog.Every.lift calm_utcNow) fun now => ?_
  split
  · exact Outline.throw fun w _ hw => ⟨[c], hw⟩
  split
  · exact Outline.throw fun w _ hw => ⟨[c], hw⟩
  rename_i hjkt
  refine calm_bind (calm_propagate calm_findUserById) fun user => ?_
  cases user with
  | none => exact Outline.throw fun w _ hw => ⟨[c], hw⟩
  | some user =>
      refine calm_bind calm_newText fun secret => ?_
      refine Outline.except_bind (propagate_outline
        (createRefreshToken_outline (fun w hw => hw) fun w hw hst => ?_))
        fun new => Outline.of_prop fun _ => ?_
      · refine .inr ⟨c, old, ?_, hold, hsame.fam, hsame.session.1, ?_,
          hsame.session.3⟩
        · simp only [Holds] at hw
          cases hs : (w.session i).status <;> simp_all
        · rw [← hsame.session.2]
          exact (not_ne_iff.mp hjkt).symm
      · refine calm_bind calm_issueAccessToken fun access => ?_
        refine calm_bind (Prog.Every.lift calm_graceInsert) fun _ => ?_
        refine Outline.pure fun w hi hw => mandate_of_hold hw fun hown => ?_
        have hc : c ∈ (tokens w).own i := by
          rw [hown]
          simp [withInserted]
        have hcommitted : old ∈ (tokens w).rows :=
          Table.mem_rows.mpr ⟨c, (Table.mem_own.mp hc).1, hold⟩
        refine ⟨fun d hd u hu => ?_, fun d hd hfresh v hv => ?_⟩
        · rw [hown] at hd
          rcases List.mem_append.mp hd with hd | hd
          · rw [List.mem_singleton.mp hd, hold] at hu
            obtain rfl := Option.some.inj hu
            exact ⟨old, hcommitted, rfl, hhash⟩
          · rw [List.mem_singleton.mp hd] at hu
            cases hu
        · rw [hown] at hd
          rcases List.mem_append.mp hd with hd | hd
          · rw [List.mem_singleton.mp hd, hold] at hfresh
            cases hfresh
          · rw [List.mem_singleton.mp hd] at hv
            obtain rfl := Option.some.inj hv
            exact ⟨rfl, .inr ⟨refreshToken, jkt, userAgent, c, old, rfl, hc, hold,
              hsame.fam.symm, hhash⟩⟩

end Refresh

/-- A registration inserts the first row of a family. -/
theorem registerTx_mandate {params : RegisterParams} {hash : String} :
    Outline (familyLogic False) (Allowed False i) i
      (registerTx svc params hash).run (Hold i true [])
      (exceptPost (Exit svc (.register params) i) (Held i true)) := by
  refine calm_bind (Prog.Every.lift calm_utcNow) fun changedAt => ?_
  refine calm_bind (calm_propagate calm_createUser) fun user => ?_
  refine calm_bind (Prog.Every.lift calm_utcNow) fun verifiedAt => ?_
  refine calm_bind (Prog.Every.bind (fun r => ?_) calm_createIdentifier)
    fun _ => ?_
  · cases r <;> trivial
  refine calm_bind (calm_propagate calm_updateLastLoginAt) fun _ => ?_
  refine calm_bind calm_newText fun secret => ?_
  refine Outline.except_bind (Outline.lift newUuid_outline) fun fam => ?_
  refine Outline.except_bind (refreshExpiry_outline
    (stable_hold.and stable_reserved) fun w hw => ⟨[], hw.1⟩) fun expiry => ?_
  refine Outline.except_bind found_outline fun _ => ?_
  refine calm_bind (calm_ignore calm_recordLoginAttempt) fun _ => ?_
  exact Outline.pure fun w _ hw =>
    mandate_of_hold hw fun hown => mandate_first hown rfl rfl

/-! ## Blocks -/

theorem hold_beginTx (h : Hold i false [] w) : Hold i true [] (w.beginTx i) := by
  simp only [Holds] at h ⊢
  cases hs : (w.session i).status <;>
    simp_all [World.beginTx, World.setSession]

/-- **The rule of a block**: its region has a mandate when it asks for the
`COMMIT`. -/
theorem bounded_transaction {region : Svc (TxExit Point Stop α)}
    (hregion : region.run.Every (Shut i))
    (inside : Outline (familyLogic False) (Allowed False i) i region.run
      (Hold i true []) (exceptPost (Exit svc q i) (Held i true))) :
    Bounded svc q i (inTransaction region).run (Hold i false [])
      fun _ => Hold i false [] := by
  have hstable : ∀ {P : Srv → Prop}, Stable (familyLogic False) i P →
      Stable ((familyLogic False).own i (Bound svc q)) i P :=
    fun h => Stable.own_iff.mpr h
  refine Outline.transaction (Hold i true []) (Exit svc q i) (fun _ => True)
    (hstable stable_hold) (fun _ => hstable stable_hold) ?_ ?_ ?_ ?_
  · intro w w' ch r hi hX hstep hF
    obtain ⟨-, hinv, hguar⟩ := hF
    rcases beginStep_cases hstep with ⟨rfl, _, e, rfl⟩ | ⟨rfl, rfl⟩
    · exact ⟨hinv, ⟨hguar, fun _ => bound_of_rows rfl⟩, hX⟩
    · exact ⟨hinv, ⟨hguar, fun _ => bound_of_rows rfl⟩, hold_beginTx hX⟩
  · refine ((Bounded.facts inside (bounded_block hregion)).weaken
      fun w _ hw => ⟨hw, opened_of_hold hw⟩).post fun r w _ hw => ?_
    cases r with
    | error e => trivial
    | ok exit => exact hw.1
  · intro w r ch hi _ hF
    obtain ⟨-, hinv, hguar⟩ := hF
    exact ⟨hinv, ⟨hguar, fun _ => bound_of_rows (rows_rollback i _)⟩,
      hold_rollbackTx⟩
  · intro w ch pt r r' w' hi hS hstep hF
    obtain ⟨-, hinv, hguar⟩ := hF
    rcases commitStep_cases hstep with ⟨_, rfl, rfl⟩ | ⟨_, ⟨e, rfl⟩, _, rfl⟩ |
      ⟨hst, rfl, rfl⟩
    · exact ⟨hinv, ⟨hguar, fun _ => bound_of_rows (rows_rollback i _)⟩,
        hold_rollbackTx⟩
    · exact ⟨hinv, ⟨hguar, fun _ => bound_of_rows (rows_rollback i _)⟩,
        hold_rollbackTx⟩
    · have hf : FamInv (tokens w) := FamilyProtocol.Inv.fams hi
      exact ⟨hinv, ⟨hguar, fun _ => bound_of_commit hf hS rfl rfl⟩,
        hold_commitTx⟩

/-! ## Calls -/

theorem refresh_bounded {refreshToken jkt : String} {userAgent : Option String} :
    Bounded svc (.refresh refreshToken jkt userAgent) i
      (refresh svc refreshToken jkt userAgent).run (Hold i false [])
      fun _ _ => True := by
  have hshut : Writes svc (Shut i) := writes_shut
  refine (bounded_transaction ?_ (Outline.except_bind
    (propagate_outline revokeRefreshTokenIfActive_shows) fun o => ?_)).post
      fun _ _ _ _ => trivial
  · refine Prog.Every.except_bind (AuthSteps.every_propagate
      (Prog.Every.except_bind (hshut.revokeWhere _ _) fun _ => trivial))
      fun o => ?_
    cases o with
    | none => exact hshut.refreshRevoked
    | some row => exact hshut.refreshActive
  · cases o with
    | none => exact refreshRevoked_mandate.weaken fun _ _ hw => hw.1
    | some row => exact refreshActive_mandate.weaken fun _ _ hw => hw.1

theorem register_bounded {params : RegisterParams} :
    Bounded svc (.register params) i (register svc params).run (Hold i false [])
      fun _ _ => True := by
  have hsilent : Others svc (Silent i) := others_silent
  have hshut : Writes svc (Shut i) := writes_shut
  unfold register
  split
  · exact Outline.ret fun _ _ _ => trivial
  · refine silent_bind hsilent.hashPasswordAsync fun hash => ?_
    refine Outline.bind (fun r => ?_)
      (bounded_transaction hshut.registerTx registerTx_mandate)
    cases r with
    | error e => exact fun _ _ _ => trivial
    | ok res =>
        exact silent_bind hsilent.issueAccessToken
          fun _ => Outline.ret fun _ _ _ => trivial

/-- A statement that completes outside of a block commits. -/
theorem complete_implicit (h : (w.session i).status = .implicit) :
    tokens (w.completeStatement i) = (tokens w).commit i ∧
      Hold i false [] (w.completeStatement i) := by
  constructor
  · simp [tokens, World.completeStatement, h]
  · simp [Holds, World.completeStatement, h, Table.own_commit_self]

/-- Outside of a block the first row of a family is committed at once. -/
theorem create_bounded {params : CreateRefreshTokenParams}
    (hq : presents q = none) (hkey : boundTo q = some params.dpopJkt) :
    Bounded svc q i (createRefreshToken params).propagate.run
      (fun w => Hold i false [] w ∧ Reserved i params.fam w)
      (exceptPost (fun _ => Hold i false []) fun _ => True) := by
  have hstable : Stable ((familyLogic False).own i (Bound svc q)) i
      (Hold i false []) := Stable.own_iff.mpr stable_hold
  refine propagate_outline (Outline.except_bind
    (R := fun _ => Hold i false []) (Outline.step
      (Stable.exceptPost (fun _ => hstable) (.const True))
      fun {w ch r w'} hi hw hstep hF => ?_)
    fun _ => Outline.pure fun _ _ hw => hw)
  obtain ⟨hX, hres⟩ := hw
  obtain ⟨-, hinv, hguar⟩ := hF
  rcases statement_cases hstep with ⟨hst, -, -⟩ | ⟨-, rfl, -, e, rfl⟩ |
    ⟨hst, hrun⟩
  · simp [Holds, hst] at hX
  · exact ⟨hinv, ⟨hguar, fun _ => bound_of_rows (rows_rollback i _)⟩, trivial⟩
  · have hidle : Running i false (w.openStatement i .plain) ∧
        (tokens w).own i = [] := by
      simp only [Holds] at hX
      cases hs : (w.session i).status <;>
        simp_all [Running, World.openStatement, World.setSession]
    split at hrun
    · cases hrun
    · simp only [Option.some.injEq, Prod.mk.injEq] at hrun
      obtain ⟨rfl, rfl⟩ := hrun
      have hrows : (tokens ((w.openStatement i .plain).failStatement i)).rows =
          (tokens w).rows :=
        (rows_rollback i _).trans (congrArg Table.rows tokens_open)
      exact ⟨hinv, ⟨hguar, fun _ => bound_of_rows hrows⟩, trivial⟩
    · rename_i x hx
      simp only [Option.some.injEq, Prod.mk.injEq] at hrun
      obtain ⟨rfl, rfl⟩ := hrun
      obtain ⟨rfl, hblocked, hview⟩ := insertRows_one hx
      have htab : (w.openStatement i .plain).db .refreshTokens = tokens w :=
        tokens_open
      rw [htab] at hblocked hview
      have hf : FamInv (tokens w) := FamilyProtocol.Inv.fams hi
      have hinserted : FamInv ((tokens w).insert i params.row) :=
        hf.insert rfl (hf.newHash hblocked hview)
          (fun c hc v hv hfam => absurd hfam (hres.unused c hc v hv))
          (.inr hres.unused)
      have hown : Table.own i ((tokens w).insert i params.row) =
          [Cell.fresh i params.row] := by
        rw [own_insert_self, hidle.2, List.nil_append]
      have hrows : Table.rows ((tokens w).insert i params.row) =
          (tokens w).rows := rows_fresh (tokens w) [params.row]
      have himplicit : (((w.openStatement i .plain).setTable .refreshTokens
          ((tokens w).insert i params.row)).session i).status = .implicit := by
        rcases hidle.1 with ⟨-, hfalse⟩ | ⟨himplicit, -⟩
        · cases hfalse
        · exact himplicit
      rw [htab] at hguar hinv ⊢
      obtain ⟨hafter, hheld⟩ := complete_implicit himplicit
      rw [tokens_setTable] at hafter
      exact ⟨hinv, ⟨hguar, fun _ => bound_of_commit hinserted
        (mandate_first hown hq hkey) hrows hafter⟩, hheld⟩

theorem issueSession_bounded {user : UserRow} {jkt : String}
    {userAgent : Option String} (hq : presents q = none)
    (hkey : boundTo q = some jkt) :
    Bounded svc q i (issueSession svc user jkt userAgent).run (Hold i false [])
      fun _ _ => True := by
  have hsilent : Others svc (Silent i) := others_silent
  refine silent_bind hsilent.newText fun secret => ?_
  refine Outline.bind (R := exceptPost
    (fun fam w => Hold i false [] w ∧ Reserved i fam w) fun _ => True)
    (fun r => ?_) ?_
  · cases r with
    | error e => exact fun _ _ _ => trivial
    | ok fam =>
        refine Outline.bind (R := exceptPost
          (fun _ w => Hold i false [] w ∧ Reserved i fam w) fun _ => True)
          (fun r => ?_) ?_
        · cases r with
          | error e => exact fun _ _ _ => trivial
          | ok expiresAt =>
              refine Outline.bind (fun r => ?_) (create_bounded hq hkey)
              cases r with
              | error e => exact fun _ _ _ => trivial
              | ok row =>
                  exact silent_bind hsilent.issueAccessToken
                    fun _ => Outline.ret fun _ _ _ => trivial
        · refine ((Bounded.facts (@refreshExpiry_outline _ _ false _ _
            (stable_hold.and stable_reserved) fun w hw => ⟨[], hw.1⟩)
            (bounded_silent hsilent.refreshExpiry)).weaken
              fun w _ hw => ⟨hw, hw.1⟩).post fun r w _ hw => ?_
          cases r with
          | error e => trivial
          | ok expiresAt => exact hw.1
  · refine ((Bounded.facts (Outline.lift (E := fun _ => True) newUuid_outline)
      (bounded_silent (Prog.Every.lift hsilent.newUuid))).weaken
        fun w _ hw => ⟨hw, hw⟩).post fun r w _ hw => ?_
    cases r with
    | error e => trivial
    | ok fam => exact hw.1

theorem login_bounded {kind value password jkt ip : String}
    {userAgent : Option String} :
    Bounded svc (.login kind value password jkt ip userAgent) i
      (login svc kind value password jkt ip userAgent).run (Hold i false [])
      fun _ _ => True := by
  have hsilent : Others svc (Silent i) := others_silent
  refine silent_bind hsilent.authenticateUser fun user => ?_
  split
  · exact Outline.ret fun _ _ _ => trivial
  · refine silent_bind (AuthSteps.every_ignore (hsilent.updateLastLoginAt _))
      fun _ => ?_
    refine silent_bind (AuthSteps.every_ignore
      (hsilent.recordLoginAttempt _ _ _ _ _)) fun _ => ?_
    refine Outline.bind (fun r => ?_) (issueSession_bounded rfl rfl)
    cases r <;> exact fun _ _ _ => trivial

/-- A statement that changes no committed row. -/
theorem rows_statement {pt : Point} {ch : Pick}
    {f : Nat → Srv → Option (Except SqlxError β × Srv)} {r : Except SqlxError β}
    (hf : ∀ {v r v'}, f i v = some (r, v') →
      (tokens v').rows = (tokens v).rows)
    (hstep : statement pt f i ch w = some (r, w')) :
    (tokens w').rows = (tokens w).rows := by
  rcases statement_cases hstep with ⟨-, rfl, -⟩ | ⟨-, rfl, -⟩ | ⟨-, hrun⟩
  · rfl
  · exact rows_rollback i _
  · exact (hf hrun).trans (congrArg Table.rows tokens_open)

/-- A logout revokes the row of the token it is shown. -/
theorem logout_bounded {refreshToken : String} :
    Bounded svc (.logout refreshToken) i (logout svc refreshToken).run
      (Hold i false []) fun _ _ => True := by
  have hstable : ∀ {P : Srv → Prop}, Stable (familyLogic False) i P →
      Stable ((familyLogic False).own i (Bound svc (.logout refreshToken))) i P :=
    fun h => Stable.own_iff.mpr h
  refine (propagate_outline (R := fun _ _ => True) (E := fun _ => True)
    (Outline.except_bind (R := fun _ _ => True) (Outline.update
      (fun done _ w => Revoking i false
        (fun r => r.tokenHash == svc.hashToken refreshToken) done w)
      (fun _ _ => hstable stable_revoking) (fun _ => .const True) (.const True)
      ?_ ?_ ?_) fun rows => Outline.pure fun _ _ _ => trivial)).post
        fun _ _ _ _ => trivial
  · intro w ch r w' hi hX hstep hF
    obtain ⟨-, hinv, hguar⟩ := hF
    obtain ⟨-, -, hpost⟩ := revoke_start (fun _ h => by cases h) hi hX
      (fun _ h => by cases h) hstep
    refine ⟨hinv, ⟨hguar, fun _ => bound_of_rows (rows_statement
      (fun hrun => ?_) hstep)⟩, ?_⟩
    · simp only [Option.some.injEq, Prod.mk.injEq] at hrun
      rw [← hrun.2]
    · cases r with
      | error e => trivial
      | ok ks => exact hpost.1
  · intro done k ks w ch r w' hi hJ hstep hF
    obtain ⟨-, hinv, hguar⟩ := hF
    have hsweep : Sweeping False i Point.plain [k] w := fun hfalse => hfalse.elim
    obtain ⟨-, -, hpost⟩ := revoke_visit (fun _ _ => rfl) (fun _ h => by cases h)
      hi hJ hsweep hstep
    refine ⟨hinv, ⟨hguar, fun _ => bound_of_rows (rows_statement
      (fun {v r v'} hrun => ?_) hstep)⟩, ?_⟩
    · split at hrun
      · cases hrun
      · rename_i o x hx
        simp only [Option.some.injEq, Prod.mk.injEq] at hrun
        rw [← hrun.2, tokens_setTable]
        exact rows_visit hx
    · cases r with
      | error e => trivial
      | ok o => exact hpost.1
  · intro done w ch r w' hi hJ hstep hF
    obtain ⟨-, hinv, hguar⟩ := hF
    obtain ⟨hst, hlocks⟩ := hJ
    have hpost : exceptPost (fun _ _ => True) (fun _ => True) r w' := by
      cases r <;> trivial
    rcases statement_cases hstep with ⟨-, rfl, -⟩ | ⟨-, rfl, -⟩ | ⟨-, hrun⟩
    · exact ⟨hinv, ⟨hguar, fun _ => bound_of_rows rfl⟩, hpost⟩
    · exact ⟨hinv, ⟨hguar, fun _ => bound_of_rows (rows_rollback i _)⟩, hpost⟩
    · simp only [Option.some.injEq, Prod.mk.injEq] at hrun
      obtain ⟨-, rfl⟩ := hrun
      have himplicit : ((w.openStatement i .plain).session i).status =
          .implicit := by
        have hopen : Running i false (w.openStatement i .plain) := hst.open
        rcases hopen with ⟨-, hfalse⟩ | ⟨himplicit, -⟩
        · cases hfalse
        · exact himplicit
      have hafter := (complete_implicit himplicit).1
      rw [tokens_open] at hafter
      exact ⟨hinv, ⟨hguar, fun _ => bound_of_commit
        (FamilyProtocol.Inv.fams hi)
        (mandate_locks (fun _ _ => rfl) (FamilyProtocol.Inv.fams hi) hlocks
          fun old hold => beq_iff_eq.mp hold) rfl hafter⟩, hpost⟩

/-- **Every call keeps the bound.** -/
theorem call_bounded {q : Call} :
    Bounded svc q i (q.body svc) (Hold i false []) fun _ _ => True := by
  have hmap : ∀ {γ δ : Type} {p : Svc γ} {f : γ → δ},
      Bounded svc q i p.run (Hold i false []) (fun _ _ => True) →
        Bounded svc q i (f <$> p).run (Hold i false []) fun _ _ => True := by
    intro γ δ p f h
    refine Outline.bind (R := fun _ _ => True) (fun r => ?_) h
    cases r <;> exact fun _ _ _ => trivial
  cases q with
  | register params => exact hmap register_bounded
  | login kind value password jkt ip ua => exact hmap login_bounded
  | refresh rt jkt ua => exact hmap refresh_bounded
  | logout rt => exact hmap logout_bounded

/-! ## Runs -/

variable {clock : DateTime} {c d : AuthConfig}
  {F : Filter Point Srv Pick Outside Call} {fam : Uuid}

/-- Every thread stands at an outline whose steps keep the bound of its
call. -/
abbrev SessionGood (svc : AuthService) (c : AuthConfig) : Prop :=
  GoodOwn (familyLogic False) (Bound svc)
    (within (.all : Filter Point Srv Pick Outside Call) (familyLogic False))
    (fun i => Resting i false) (fun _ _ _ _ => True) c

theorem all_of_reaches (h : (authSystem svc).Reaches F c d) :
    (authSystem svc).Reaches .all c d :=
  h.mono (fun _ => trivial) (fun _ => trivial) fun _ => trivial

/-- **Every reachable configuration is good.** -/
theorem sessionGood_of_reaches
    (h : (authSystem svc).Reaches .all (.start (initial clock)) c) :
    SessionGood svc c := by
  have hstart : FamilyGood False (.start (initial clock) : AuthConfig) :=
    .start inv_initial fun _ => resting_initial
  have hrun := sound_within (fun _ => stable_resting) (fun _ _ => body_good)
    cancel_good env_good (fun _ hfalse => hfalse.elim) (fun _ => trivial)
    (fun _ => trivial) hstart h
  refine sound_own (fun _ => stable_resting) (fun hi _ => ?_)
    (fun hi he _ => ?_) (fun i q => ?_) ?_ hrun
  · exact cancel_good (q := .logout "") hi trivial
  · exact env_good hi he trivial
  · exact call_bounded.weaken fun w _ hw => hold_resting hw
  · exact ⟨inv_initial, fun _ _ => resting_initial, fun _ _ _ h => by
      simp [Config.start] at h⟩

/-- A step of a run that does an act to the session of a family, and the call
that takes it. -/
def Takes (svc : AuthService) (F : Filter Point Srv Pick Outside Call)
    (fam : Uuid) (o o' : Option Session) : Prop :=
  ∃ i q pt ch w w' act, F.run i q pt ch w w' ∧ session fam (tokens w) = o ∧
    session fam (tokens w') = o' ∧ Authorised svc q o act ∧
      chainMachine act o = some o'

/-- **The steps of a run, as steps of a session.** -/
theorem step_session
    (hc : (authSystem svc).Reaches .all (.start (initial clock)) c)
    (hstep : (authSystem svc).Step F c d) (fam : Uuid) :
    session fam (tokens d.shared) = session fam (tokens c.shared) ∨
      Takes svc F fam (session fam (tokens c.shared))
        (session fam (tokens d.shared)) := by
  cases hstep with
  | call hfree => exact .inl rfl
  | @run i q _ pt f next ch b s' stands takes allowed =>
      have hfamily := good_of_all hc
      obtain ⟨R, -, hR, hmoves⟩ := hfamily.stands i q _ stands
      obtain ⟨hinv, hguar, -⟩ := hmoves c.shared ch b s' hfamily.inv hR takes
        fun hfalse => hfalse.elim
      have hgood := sessionGood_of_reaches hc
      obtain ⟨P, -, hP, hout⟩ := hgood.stands i q _ stands
      obtain ⟨-, ⟨-, hbound⟩, -⟩ := hout c.shared ch b s' hgood.inv hP takes
        ⟨trivial, hinv, hguar⟩
      rcases hbound rfl fam with hsame | ⟨act, hauth, hact⟩
      · exact .inl hsame
      · exact .inr ⟨i, q, pt, ch, c.shared, s', act, allowed, rfl, rfl, hauth,
          hact⟩
  | cancel stands allowed => exact .inl (session_of_rows (rows_rollback _ _) fam)
  | env takes allowed =>
      refine .inl ?_
      show session fam (tokens _) = _
      rw [(elsewhere_of_effect takes).table]

/-- **Runs are runs of sessions.**  Let `c` and then `d` be configurations of
any run of any calls.  The session of a family gets from what it is in `c` to
what it is in `d` by acts of calls that may do them. -/
theorem sessions_refine
    (hc : (authSystem svc).Reaches .all (.start (initial clock)) c)
    (hd : (authSystem svc).Reaches F c d) (fam : Uuid) :
    Relation.ReflTransGen (Takes svc F fam) (session fam (tokens c.shared))
      (session fam (tokens d.shared)) := by
  induction hd with
  | refl => exact .refl
  | tail hcd hstep ih =>
      rcases step_session (hc.trans (all_of_reaches hcd)) hstep fam with hsame | htakes
      · rw [hsame]
        exact ih
      · exact ih.tail htakes

/-- A registration and a rotation: the session is begun and rotated. -/
theorem sessions_refine_rotated :
    ((session (sampleUuid 2) (tokens rotated.shared)).map Chain.spent).map
        List.length = some 1 ∧
      Relation.ReflTransGen (Takes sampleService .all (sampleUuid 2)) none
        (session (sampleUuid 2) (tokens rotated.shared)) :=
  ⟨by decide +kernel,
    @sessions_refine _ 0 _ _ _ .refl
      (System.exec_reaches (Check.implies_all .all) (Option.some_get _).symm)
      (sampleUuid 2)⟩

/-- Without the calls it is a run of the machine. -/
theorem machine_of_takes {o o' : Option Session}
    (h : Relation.ReflTransGen (Takes svc F fam) o o') :
    Reaches chainMachine free o o' := by
  refine Relation.ReflTransGen.mono (fun o o' htakes => ?_) _ _ h
  obtain ⟨-, -, -, -, -, -, act, -, -, -, -, hact⟩ := htakes
  exact ⟨act, hact, trivial⟩

/-- **What becomes of a session.**  It keeps its user, its key and its end;
the tokens spent stay spent, in their order, and no token comes back; and it
changes only in that its current token is spent, so a session that is over
stays as it is. -/
theorem session_history
    (hc : (authSystem svc).Reaches .all (.start (initial clock)) c)
    (hd : (authSystem svc).Reaches .all c d) {s : Session}
    (hs : session fam (tokens c.shared) = some s) :
    ∃ s', session fam (tokens d.shared) = some s' ∧ s'.keys.Nodup ∧
      s'.holder = s.holder ∧ s.spent <+: s'.spent ∧
        (s' = s ∨ ∃ tokenHash, s.current = some tokenHash ∧
          tokenHash ∈ s'.spent) := by
  have hrun := machine_of_takes (sessions_refine hc hd fam)
  rw [hs] at hrun
  obtain ⟨s', hs', hlater⟩ := chain_later hrun
  have hall := machine_of_takes (sessions_refine .refl (hc.trans hd) fam)
  have hdistinct : s'.keys.Nodup := chain_distinct hall s' hs'
  refine ⟨s', hs', hdistinct, hlater.holder, hlater.spent, ?_⟩
  rcases hlater with rfl | ⟨-, key, hkey, hspent⟩
  · exact .inl rfl
  · exact .inr ⟨key, hkey, hspent.subset (by simp)⟩

/-- The session of the sample family after one rotation. -/
def rotatedSession : Session :=
  (session (sampleUuid 2) (tokens rotated.shared)).get (by decide +kernel)

theorem session_history_rotated :
    ∃ s', session (sampleUuid 2) (tokens rotatedTwice.shared) = some s' ∧
      s'.keys.Nodup ∧ s'.holder = rotatedSession.holder ∧
        rotatedSession.spent <+: s'.spent ∧
          (s' = rotatedSession ∨ ∃ tokenHash,
            rotatedSession.current = some tokenHash ∧ tokenHash ∈ s'.spent) :=
  session_history
    (System.exec_reaches (Check.implies_all .all) (Option.some_get _).symm)
    (System.exec_reaches (Check.implies_all .all) (Option.some_get _).symm)
    (Option.some_get _).symm

/-- The runs in which no call that takes a step shows a token of the
session. -/
def withheld (svc : AuthService) (fam : Uuid) :
    Filter Point Srv Pick Outside Call where
  run _ q _ _ w _ := ∀ s, session fam (tokens w) = some s →
    ∀ refreshToken, presents q = some refreshToken →
      svc.hashToken refreshToken ∉ s.keys
  cancel _ _ := True
  env _ _ _ := True

/-- **A session is out of reach of the calls that show none of its tokens**:
whatever they are and however they interleave, they leave it as it is. -/
theorem session_untouched
    (hc : (authSystem svc).Reaches .all (.start (initial clock)) c)
    (hd : (authSystem svc).Reaches (withheld svc fam) c d) {s : Session}
    (hs : session fam (tokens c.shared) = some s) :
    session fam (tokens d.shared) = some s := by
  have hkeep : ∀ o, Relation.ReflTransGen (Takes svc (withheld svc fam) fam)
      (some s) o → o = some s := by
    intro o hrun
    induction hrun with
    | refl => rfl
    | tail _ htakes ih =>
        subst ih
        obtain ⟨i, q, pt, ch, w, w', act, hrun, hw, -, hauth, -⟩ := htakes
        have hhidden := hrun s hw
        have hcurrent : ∀ tokenHash, s.current = some tokenHash →
            tokenHash ∈ s.keys := fun _ h => by simp [Chain.keys, h]
        cases hauth with
        | rotate current => exact absurd (hcurrent _ current) (hhidden _ rfl)
        | reuse known => exact absurd known (hhidden _ rfl)
        | logout current => exact absurd (hcurrent _ current) (hhidden _ rfl)
  refine hkeep _ ?_
  rw [← hs]
  exact sessions_refine hc hd fam

/-- The test of an executed schedule. -/
def withheldCheck (svc : AuthService) (fam : Uuid) :
    Check Point Srv Pick Outside Call where
  run _ q _ _ w _ :=
    ((session fam (tokens w)).map Chain.keys).all fun keys =>
      (presents q).all fun refreshToken => svc.hashToken refreshToken ∉ keys
  cancel _ _ := true
  env _ _ _ := true

theorem withheldCheck_implies (svc : AuthService) (fam : Uuid) :
    (withheldCheck svc fam).Implies (withheld svc fam) where
  run {i q pt ch w w'} h s hs refreshToken hq := by
    simpa [withheldCheck, hs, hq] using h
  cancel _ := trivial
  env _ := trivial

/-- A logout and a refresh with tokens that are not of the session. -/
def strangers : AuthConfig :=
  ((authSystem sampleService).exec (withheldCheck sampleService (sampleUuid 2))
    rotated ([.call 3 (.logout (sampleSecret 8)),
      .call 4 (.refresh (sampleSecret 9) "thumbprint" none)] ++
      steps 4 2 ++ steps 3 2 ++ steps 4 3)).get (by decide +kernel)

theorem session_untouched_strangers :
    session (sampleUuid 2) (tokens strangers.shared) = some rotatedSession :=
  session_untouched
    (System.exec_reaches (Check.implies_all .all) (Option.some_get _).symm)
    (System.exec_reaches (withheldCheck_implies sampleService (sampleUuid 2))
      (Option.some_get _).symm)
    (Option.some_get _).symm

end DpopAuth.Ports.SessionRuns
