import DpopAuth.Ports.RefreshFailure
import DpopAuth.Ports.SessionRuns
import DpopAuth.Ports.Registration

/-!
# The key a token pair is good for

Where `refresh` answers out of the grace cache it does not look at the key of
the caller.  The pair it hands out is bound to a key all the same: the access
token was issued for the user and the key of the session whose refresh token
was shown, in whatever order calls interleave, fail or are cancelled, and also
when the rotation that made the entry never committed.

The cache is written inside of a block that has locked the row of the token
shown, and the row says whose session it is.  So an invariant ties each entry
to a committed row, and rows keep their user and their key.  The user itself
the block has read among the committed rows, and users keep their public id
and their name: at the end of a run the row is still there.

## Main results

* `Cached` — the invariant of the grace cache.
* `tokens_bound` — every pair a call is answered with.
-/

namespace DpopAuth.Ports.TokenBinding

open DpopAuth.Verified.Resumption
open DpopAuth.Verified.RelyGuarantee
open DpopAuth.Verified.RowVersions
open DpopAuth.Verified.RowHistories
open DpopAuth.Verified.Transactions
open DpopAuth.Verified.TransactionRules
open DpopAuth.Verified.StepRules
open DpopAuth.Verified.AtomicRules
open DpopAuth.Verified.TtlCache
open DpopAuth.Verified.KeyChains
open DpopAuth.Ports.Schema
open DpopAuth.Ports.Token
open DpopAuth.Ports.Service
open DpopAuth.Ports.Repo
open DpopAuth.Ports.Auth
open DpopAuth.Ports.FamilyProtocol
open DpopAuth.Ports.FamilyInvariant
open DpopAuth.Ports.FamilyOutlines
open DpopAuth.Ports.RefreshFailure
open DpopAuth.Ports.Sessions
open DpopAuth.Ports.SessionRuns

variable {svc : AuthService} {q : Call} {i j : Nat} {w w' d : Srv}
  {tokenHash token jkt : String} {fam : Uuid} {α β : Type}

/-! ## What lasts -/

/-- The text is an access token issued for the public id and the name of the
user, and for this key. -/
def Issued (svc : AuthService) (user : UserRow) (jkt token : String) : Prop :=
  ∃ (now : Nat) (jti : Uuid),
    Token.issueAccessToken svc.ext.encode now (uuidText jti) svc.config.signer
      svc.config.issuer svc.config.audience svc.config.accessTokenTtl.secs
      (uuidText user.publicId) jkt [("name", Json.str user.name)] = .ok token

/-- It is issued for the user that has this id in the users table of `d`. -/
def IssuedFor (svc : AuthService) (d : Srv) (userId : Uuid)
    (jkt token : String) : Prop :=
  ∃ user ∈ (d.db .users).rows, user.id = userId ∧ Issued svc user jkt token

/-- The access token was issued for the user and the key of the committed row
that the family has for the hash. -/
def Vouched (svc : AuthService) (d : Srv) (tokenHash : String) (fam : Uuid)
    (token : String) (w : Srv) : Prop :=
  ∃ r ∈ (tokens w).rows, r.fam = fam ∧ r.tokenHash = tokenHash ∧
    IssuedFor svc d r.userId r.dpopJkt token

/-- No call and nothing else makes the fact false. -/
structure Lasts (P : Srv → Prop) : Prop where
  move : ∀ {j w w'}, Inv False w → Move False j w w' → P w → P w'
  env : ∀ {w w'}, Elsewhere w w' → P w → P w'

variable {P : Srv → Prop} {Q : α → Srv → Prop}

theorem Lasts.stable (h : Lasts P) : Stable (familyLogic False) i P :=
  stable_of_move (fun _ hi hm hP => h.move hi hm hP) fun he hP => h.env he hP

theorem Lasts.moves (h : Lasts P) (hi : Inv False w)
    (hg : Relation.ReflTransGen (Move False i) w w') (hP : P w) : P w' :=
  (moves_keep (fun hi hm hP => h.move hi hm hP) hi hg hP).2

theorem Lasts.true : Lasts fun _ => True := ⟨fun _ _ h => h, fun _ h => h⟩

theorem Lasts.exists {κ : Sort _} {P : κ → Srv → Prop} (h : ∀ k, Lasts (P k)) :
    Lasts fun w => ∃ k, P k w where
  move hi hm := fun ⟨k, hP⟩ => ⟨k, (h k).move hi hm hP⟩
  env he := fun ⟨k, hP⟩ => ⟨k, (h k).env he hP⟩

theorem Lasts.row {φ : RefreshTokenRow → Prop}
    (hφ : ∀ {r v}, SameToken r v → φ r → φ v) :
    Lasts fun w => ∃ r ∈ (tokens w).rows, φ r where
  move hi hm h := row_move hφ (FamilyProtocol.Inv.fams hi) hm h
  env he h := by
    rw [he.table]
    exact h

theorem lasts_vouched : Lasts (Vouched svc d tokenHash fam token) :=
  .row fun hsame ⟨hfam, hhash, hissued⟩ => by
    refine ⟨hsame.fam.trans hfam, hsame.tokenHash.trans hhash, ?_⟩
    rw [hsame.session.userId, hsame.session.dpopJkt]
    exact hissued

theorem lasts_origin {row : RefreshTokenRow} : Lasts (Origin tokenHash row) :=
  .row fun {r v} hsame ⟨hrow, hhash⟩ => by
    have hv : v = { r with revokedAt := v.revokedAt } := hsame
    have hr : row = { r with revokedAt := row.revokedAt } := hrow
    refine ⟨?_, hsame.tokenHash.trans hhash⟩
    show row = { v with revokedAt := row.revokedAt }
    rw [hv]
    exact hr

/-! ## The users table -/

/-- Session `i` has written no user that is not committed. -/
def Unwritten (i : Nat) (w : Srv) : Prop := (w.db .users).own i = []

theorem stable_unwritten : Stable (familyLogic False) i (Unwritten i) :=
  stable_of_move
    (fun hne _ hm h => (hm.frame.held i (Ne.symm hne) .users).own.trans h)
    fun he h => (he.held i .users).trans h

/-- No part of a statement, or of a block, writes a user. -/
theorem respects_unwritten :
    Respects i fun w w' : Srv => Unwritten i w → Unwritten i w' where
  refl _ h := h
  trans h h' hu := h' (h hu)
  opens w pt h := by
    unfold World.openStatement
    split <;> exact h
  fails _ _ := Table.own_rollback_self i _
  completes w h := by
    unfold World.completeStatement
    split
    · exact Table.own_commit_self i _
    · exact h
  begins _ h := h
  drops _ _ := Table.own_rollback_self i _
  commits _ _ _ := Table.own_commit_self i _

/-- A row of the users table of `d` has this id, and the public id and the name
of `user`. -/
def Stored (d : Srv) (id : Uuid) (user : UserRow) : Prop :=
  ∃ v ∈ (d.db .users).rows, v.id = id ∧ v.publicId = user.publicId ∧
    v.name = user.name

/-- Users that are committed stay. -/
theorem stored_of_evolves (h : Evolves Registration.SameRow w d)
    {user : UserRow} (huser : user ∈ (w.db .users).rows) :
    Stored d user.id user := by
  obtain ⟨k, hk⟩ := mem_rows_iff.mp huser
  obtain ⟨v, hv, hid, hpublic, hname, -⟩ := h .users k user hk
  exact ⟨v, mem_rows_iff.mpr ⟨k, hv⟩, hid, hpublic, hname⟩

theorem issuedFor_of_stored {userId : Uuid} {user : UserRow}
    (hstored : Stored d userId user) (hissued : Issued svc user jkt token) :
    IssuedFor svc d userId jkt token := by
  obtain ⟨v, hv, hid, hpublic, hname⟩ := hstored
  obtain ⟨now, jti, hissue⟩ := hissued
  exact ⟨v, hv, hid, now, jti, by rw [hpublic, hname]; exact hissue⟩

/-! ## The grace cache -/

/-- Each entry of the grace cache holds an access token for the user and the
key of the token it replaces. -/
def Cached (svc : AuthService) (d w : Srv) : Prop :=
  ∀ e ∈ w.mem.graceCache, Vouched svc d e.key.2 e.key.1 e.value.accessToken w

/-- Runs that end at `d`. -/
abbrev runsTo (d : Srv) : Filter Point Srv Pick Outside Call :=
  within (Filter.all.toward (Evolves Registration.SameRow) d) (familyLogic False)

abbrev StepsTo (d : Srv) (i : Nat) (q : Call) : Point → Pick → Srv → Srv → Prop :=
  (runsTo d).run i q

/-- An outline that keeps the cache vouched for. -/
abbrev Binds (svc : AuthService) (d : Srv) (q : Call) (i : Nat)
    (p : Prog Point Srv Pick α) (P : Srv → Prop) (Q : α → Srv → Prop) : Prop :=
  Outline ((familyLogic False).also (Cached svc d)) (StepsTo d i q) i p P Q

theorem cached_moves (hi : Inv False w)
    (hg : Relation.ReflTransGen (Move False i) w w')
    (hcache : ∀ e ∈ w'.mem.graceCache, e ∈ w.mem.graceCache)
    (h : Cached svc d w) : Cached svc d w' :=
  fun e he => lasts_vouched.moves hi hg (h e (hcache e he))

/-- A program that leaves the cache alone. -/
theorem free_binds {p : Prog Point Srv Pick α} (hp : CacheFree i p)
    (h : Outline (familyLogic False) (StepsTo d i q) i p P Q) :
    Binds svc d q i p P Q := by
  refine Outline.also (Prog.Every.mono
    (fun {β f} hf ch w b w' hstep hi hg hcached => ?_) hp) h
  refine cached_moves hi hg (fun e he => ?_) hcached
  rw [hf hstep] at he
  exact he

theorem free_outline {p : Prog Point Srv Pick α} (hp : CacheFree i p)
    (hP : Lasts P) : Binds svc d q i p P fun _ => P :=
  free_binds hp (Outline.keep_of_filter hP.stable fun hi hw hF =>
    ⟨hF.2.1, hF.2.2, hP.moves hi hF.2.2 hw⟩)

/-- The same, in front of another. -/
theorem free_bind {p : Svc α} {k : α → Svc β} {R : β → Srv → Prop}
    (hp : CacheFree i p.run) (hP : Lasts P)
    (rest : ∀ a, Binds svc d q i (k a).run P (exceptPost R fun _ => True)) :
    Binds svc d q i (p >>= k).run P (exceptPost R fun _ => True) := by
  refine Outline.except_bind (R := fun _ => P) ((free_outline hp hP).post
    fun r w _ hw => ?_) rest
  cases r with
  | error e => trivial
  | ok a => exact hw

theorem issueAccessToken_binds {user : UserRow} (hP : Lasts P) :
    Binds svc d q i (issueAccessToken svc user jkt).run P
      (exceptPost (fun token w => Issued svc user jkt token ∧ P w)
        fun _ => True) := by
  refine free_bind (Prog.Every.lift (free_step fun hf => by simp_all)) hP
    fun now => ?_
  refine free_bind (Prog.Every.lift free_newUuid) hP fun jti => ?_
  split
  · rename_i token htoken
    exact Outline.pure fun w _ hw => ⟨⟨now, jti, htoken⟩, hw⟩
  · exact Outline.throw fun _ _ _ => trivial

theorem findUserById_binds {id : Uuid} (hP : Lasts P) :
    Binds svc d q i (findUserById id).run (fun w => P w ∧ Unwritten i w)
      (exceptPost (fun o w => (∀ user, o = some user → Stored d id user) ∧ P w)
        fun _ => True) := by
  refine free_binds free_select (Outline.step (Stable.exceptPost
    (fun o => (Stable.const _).and hP.stable) (.const True))
    fun {w ch r w'} hi hw hstep hF => ?_)
  obtain ⟨⟨-, hend⟩, hinv, hguar⟩ := hF
  refine ⟨hinv, hguar, ?_⟩
  cases r with
  | error e => trivial
  | ok o =>
      refine ⟨fun user ho => ?_, hP.moves hi hguar hw.1⟩
      rcases statement_cases hstep with ⟨-, -, e, he⟩ | ⟨-, -, -, e, he⟩ |
        ⟨-, hrun⟩
      · cases he
      · cases he
      · simp only [Option.some.injEq, Prod.mk.injEq, Except.ok.injEq] at hrun
        have hfound := hrun.1.trans ho
        have hid := List.find?_some hfound
        simp only [Bool.and_eq_true, beq_iff_eq] at hid
        -- the block sees the committed users
        have hdb : (w.openStatement i .plain).db = w.db := by
          unfold World.openStatement
          split <;> rfl
        have hview : (w.openStatement i .plain).view i .users =
            (w.db .users).rows := by
          unfold World.view
          rw [hdb, Table.view_of_own_nil hw.2]
        have hmem := hview ▸ List.mem_of_find?_eq_some hfound
        exact hid.1 ▸ stored_of_evolves hend hmem

/-! ## Calls -/

/-- The pair is good for the session of the token shown. -/
def Granted (svc : AuthService) (d : Srv) (tokenHash : String) (pair : TokenPair)
    (w : Srv) : Prop :=
  ∃ fam, Vouched svc d tokenHash fam pair.accessToken w

theorem lasts_granted {pair : TokenPair} : Lasts (Granted svc d tokenHash pair) :=
  .exists fun _ => lasts_vouched

/-- How the region of a refresh may end. -/
def Leaves (svc : AuthService) (d : Srv) (tokenHash : String) :
    TxExit Point Stop TokenPair → Srv → Prop
  | .leave r => exceptPost (Granted svc d tokenHash) (fun _ => True) r
  | .commit _ r => exceptPost (Granted svc d tokenHash) (fun _ => True) r

section Refresh

variable {refreshToken : String} {userAgent : Option String}

/-- An answer out of the cache is good for the session the entry is of. -/
theorem refreshRevoked_binds :
    Binds svc d q i (refreshRevoked svc tokenHash).run (fun _ => True)
      (exceptPost (Leaves svc d tokenHash) fun _ => True) := by
  refine free_bind (free_propagate free_select) .true fun o => ?_
  cases o with
  | none => exact Outline.throw fun _ _ _ => trivial
  | some existing =>
      refine Outline.except_bind (R := fun cached w => ∀ v, cached = some v →
        Vouched svc d tokenHash existing.fam v.accessToken w)
        (Outline.lift (Outline.step (fun cached => .forall fun v =>
          .forall fun _ => lasts_vouched.stable.also)
          fun {w ch cached w'} hi _ hstep _ => ?_)) fun cached => ?_
      · simp only [Option.some.injEq, Prod.mk.injEq] at hstep
        obtain ⟨rfl, rfl⟩ := hstep
        refine ⟨hi, .refl, fun v hv => ?_⟩
        obtain ⟨e, he, hkey, -, rfl⟩ := Cache.get_eq_some hv
        have hvouched := hi.2 e he
        rw [hkey] at hvouched
        exact hvouched
      · cases cached with
        | some cached => exact Outline.pure fun w _ hw => ⟨_, hw cached rfl⟩
        | none =>
            refine Outline.weaken (P := fun _ => True) (fun _ _ _ => trivial) ?_
            exact free_bind (free_propagate (Prog.Every.except_bind free_update
              fun _ => trivial)) .true fun _ => Outline.pure fun _ _ _ => trivial

theorem utcNow_unwritten : utcNow.Every fun f =>
    ∀ ⦃ch w b w'⦄, f i ch w = some (b, w') → Unwritten i w → Unwritten i w' :=
  Prog.Every.step fun ch w b w' hf h => by
    simp only [Option.some.injEq, Prod.mk.injEq] at hf
    rw [← hf.2]
    exact h

theorem swap_unwritten : (revokeRefreshTokenIfActive tokenHash).run.Every
    (Within i fun w w' => Unwritten i w → Unwritten i w') :=
  Prog.Every.except_bind (within_update respects_unwritten fun _ h => h)
    fun _ => trivial

/-- A rotation writes an entry for the token whose row it has locked. -/
theorem refreshActive_binds {row : RefreshTokenRow} :
    Binds svc d q i (refreshActive svc tokenHash jkt userAgent row).run
      (fun w => Origin tokenHash row w ∧ Unwritten i w)
      (exceptPost (Leaves svc d tokenHash) fun _ => True) := by
  refine Outline.except_bind (R := fun _ w =>
    Origin tokenHash row w ∧ Unwritten i w) (Outline.lift ((free_outline
      free_utcNow lasts_origin).beside stable_unwritten.also utcNow_unwritten))
    fun now => ?_
  split
  · exact Outline.throw fun _ _ _ => trivial
  split
  · exact Outline.throw fun _ _ _ => trivial
  rename_i hjkt
  refine Outline.except_bind (propagate_outline (findUserById_binds lasts_origin))
    fun o => Outline.of_prop fun huser => ?_
  cases o with
  | none => exact Outline.throw fun _ _ _ => trivial
  | some user =>
      refine free_bind free_newText lasts_origin fun secret => ?_
      refine free_bind (free_propagate free_createRefreshToken) lasts_origin
        fun _ => ?_
      refine Outline.except_bind (issueAccessToken_binds lasts_origin)
        fun access => Outline.of_prop fun hissued => ?_
      refine Outline.except_bind
        (R := fun _ => Vouched svc d tokenHash row.fam access)
        (Outline.lift (Outline.step (fun _ => lasts_vouched.stable.also)
          fun {w ch u w'} hi hw hstep hF => ?_))
        fun _ => Outline.pure fun w _ hw => ⟨row.fam, hw⟩
      obtain ⟨-, hinv, hguar⟩ := hF
      simp only [Option.some.injEq, Prod.mk.injEq] at hstep
      obtain ⟨-, rfl⟩ := hstep
      -- the row the block has locked says whose session it is
      have hvouched : Vouched svc d tokenHash row.fam access w := by
        obtain ⟨r, hr, hsame, hhash⟩ := hw
        refine ⟨r, hr, hsame.fam.symm, hhash, ?_⟩
        rw [← hsame.session.userId, ← hsame.session.dpopJkt, not_ne_iff.mp hjkt]
        exact issuedFor_of_stored (huser user rfl) hissued
      refine ⟨⟨hinv, fun e he => ?_⟩, hguar, hvouched⟩
      rcases List.mem_cons.mp he with rfl | he
      · exact hvouched
      · exact hi.2 e (List.mem_filter.mp he).1

theorem refresh_binds :
    Binds svc d q i (refresh svc refreshToken jkt userAgent).run
      (fun w => Hold i false [] w ∧ Unwritten i w)
      (exceptPost (Granted svc d (svc.hashToken refreshToken))
        fun _ => True) := by
  have hsame : ∀ {w w'}, Inv False w → Cached svc d w →
      Relation.ReflTransGen (Move False i) w w' →
        w'.mem.graceCache = w.mem.graceCache → Cached svc d w' :=
    fun hi hcached hguar heq =>
      cached_moves hi hguar (fun e he => heq ▸ he) hcached
  refine Outline.transaction (fun w => Hold i true [] w ∧ Unwritten i w)
    (Leaves svc d (svc.hashToken refreshToken)) (fun _ => True)
    (stable_hold.and stable_unwritten).also
    (Stable.exceptPost (fun pair => lasts_granted.stable.also) (.const True))
    ?_ ?_ ?_ ?_
  · intro w w' ch r hi hX hstep hF
    obtain ⟨-, hinv, hguar⟩ := hF
    rcases beginStep_cases hstep with ⟨rfl, _, e, rfl⟩ | ⟨rfl, rfl⟩
    · exact ⟨⟨hinv, hi.2⟩, hguar, trivial⟩
    · exact ⟨⟨hinv, hsame hi.1 hi.2 hguar rfl⟩, hguar, hold_beginTx hX.1, hX.2⟩
  · have hswap : Binds svc d q i
        (revokeRefreshTokenIfActive (svc.hashToken refreshToken)).run
        (Hold i true []) _ :=
      free_binds (Prog.Every.except_bind free_update fun _ => trivial)
        (Outline.restrict (fun _ hfalse => hfalse.elim)
          revokeRefreshTokenIfActive_shows)
    refine Outline.except_bind (R := fun o w => ∀ row, o = some row →
      Origin (svc.hashToken refreshToken) row w ∧ Unwritten i w)
      (propagate_outline ((hswap.beside stable_unwritten.also
        swap_unwritten).post fun r w _ hw => ?_)) fun o => ?_
    · cases r with
      | error e => trivial
      | ok o => exact fun row ho => ⟨hw.1.2 row ho, hw.2⟩
    · cases o with
      | none => exact refreshRevoked_binds.weaken fun _ _ _ => trivial
      | some row => exact refreshActive_binds.weaken fun _ _ hw => hw row rfl
  · intro w r ch hi hS hF
    obtain ⟨-, hinv, hguar⟩ := hF
    refine ⟨⟨hinv, hsame hi.1 hi.2 hguar rfl⟩, hguar, ?_⟩
    rcases hS with ⟨e, rfl, -⟩ | hS
    · trivial
    · cases r with
      | error e => trivial
      | ok pair => exact lasts_granted.moves hi.1 hguar hS
  · intro w ch pt r r' w' hi hS hstep hF
    obtain ⟨-, hinv, hguar⟩ := hF
    have hcache : w'.mem.graceCache = w.mem.graceCache := by
      rcases commitStep_cases hstep with ⟨-, -, rfl⟩ | ⟨-, -, -, rfl⟩ |
        ⟨-, -, rfl⟩ <;> rfl
    refine ⟨⟨hinv, hsame hi.1 hi.2 hguar hcache⟩, hguar, ?_⟩
    cases r' with
    | error e => trivial
    | ok u =>
        cases r with
        | error e => trivial
        | ok pair => exact lasts_granted.moves hi.1 hguar hS

end Refresh

/-- A pair made for a request is bound to the key of the request. -/
def Fresh (svc : AuthService) (jkt : String) (pair : TokenPair) : Prop :=
  ∃ user, Issued svc user jkt pair.accessToken

theorem register_binds {params : RegisterParams} :
    Binds svc d q i (register svc params).run (fun _ => True)
      (exceptPost (fun pair _ => Fresh svc params.jkt pair) fun _ => True) := by
  unfold register
  split
  · exact Outline.throw fun _ _ _ => trivial
  · refine free_bind free_hashPasswordAsync .true fun hash => ?_
    refine free_bind (free_transaction free_registerTx) .true fun r => ?_
    refine Outline.except_bind (issueAccessToken_binds .true) fun access => ?_
    exact Outline.pure fun w _ hw => ⟨_, hw.1⟩

theorem login_binds {kind value password ip : String} {ua : Option String} :
    Binds svc d q i (login svc kind value password jkt ip ua).run (fun _ => True)
      (exceptPost (fun o _ => ∀ pair, o = .success pair → Fresh svc jkt pair)
        fun _ => True) := by
  refine free_bind free_authenticateUser .true fun user => ?_
  split
  · exact Outline.pure fun w _ _ pair h => by cases h
  · refine free_bind (free_ignore free_updateLastLoginAt) .true fun _ => ?_
    refine free_bind (free_ignore free_insert) .true fun _ => ?_
    refine Outline.except_bind (R := fun pair _ => Fresh svc jkt pair) ?_
      fun tokens => Outline.pure fun w _ hw pair h => ?_
    · refine free_bind free_newText .true fun secret => ?_
      refine free_bind (Prog.Every.lift free_newUuid) .true fun fam => ?_
      refine free_bind free_refreshExpiry .true fun expiresAt => ?_
      refine free_bind (free_propagate free_createRefreshToken) .true
        fun _ => ?_
      refine Outline.except_bind (issueAccessToken_binds .true) fun access => ?_
      exact Outline.pure fun w _ hw => ⟨_, hw.1⟩
    · cases h
      exact hw

/-- The pair a reply carries. -/
def pairOf : Reply → Option TokenPair
  | .tokens pair => some pair
  | .outcome (.success pair) => some pair
  | .outcome .requires2fa => none
  | .done => none

/-- What the pair a call is answered with is good for. -/
def Bearer (svc : AuthService) (d : Srv) (pair : TokenPair) (w : Srv) :
    Call → Prop
  | .register params => Fresh svc params.jkt pair
  | .login _ _ _ jkt _ _ => Fresh svc jkt pair
  | .refresh refreshToken _ _ =>
      Granted svc d (svc.hashToken refreshToken) pair w
  | .logout _ => False

theorem call_binds :
    Binds svc d q i (q.body svc) (fun w => Hold i false [] w ∧ Unwritten i w)
      (exceptPost (fun reply w => ∀ pair, pairOf reply = some pair →
        Bearer svc d pair w q) fun _ => True) := by
  cases q with
  | register params =>
      refine Outline.except_map ((register_binds.weaken fun _ _ _ =>
        trivial).post fun r w _ hw => ?_)
      cases r with
      | error e => trivial
      | ok pair => exact fun pair' h => Option.some.inj h ▸ hw
  | login kind value password jkt ip ua =>
      refine Outline.except_map ((login_binds.weaken fun _ _ _ =>
        trivial).post fun r w _ hw => ?_)
      cases r with
      | error e => trivial
      | ok o =>
          cases o with
          | success pair => exact fun pair' h => Option.some.inj h ▸ hw pair rfl
          | requires2fa => exact fun pair' h => by cases h
  | refresh rt jkt ua =>
      refine Outline.except_map (refresh_binds.post fun r w _ hw => ?_)
      cases r with
      | error e => trivial
      | ok pair => exact fun pair' h => Option.some.inj h ▸ hw
  | logout rt =>
      have hlogout : CacheFree i (logout svc rt).run :=
        free_propagate (Prog.Every.except_bind free_update fun _ => trivial)
      refine Outline.except_map (((free_outline hlogout .true).weaken
        fun _ _ _ => trivial).post fun r w _ _ => ?_)
      cases r with
      | error e => trivial
      | ok u => exact fun pair h => by cases h

/-! ## Runs -/

variable {clock : DateTime} {c : AuthConfig}

theorem cached_env {e : Outside} (he : e.effect w = some w')
    (h : Cached svc d w) : Cached svc d w' := by
  have hsame : ∀ {tokenHash fam token}, Vouched svc d tokenHash fam token w →
      Vouched svc d tokenHash fam token w' :=
    lasts_vouched.env (elsewhere_of_effect he)
  cases e with
  | tick t =>
      cases he
      exact h
  | deleteUser id =>
      cases he
      exact fun e he => hsame (h e he)
  | evict key =>
      cases he
      exact fun e he => h e (List.mem_filter.mp he).1

/-- **The grace cache in every reachable state**, and what each thread that has
returned was answered. -/
theorem binding_of_reaches
    (h : (authSystem svc).Reaches .all (.start (initial clock)) c) :
    Good ((familyLogic False).also (Cached svc c.shared))
      (runsTo c.shared) (fun i => Resting i false)
      (fun q _ => exceptPost (fun reply w => ∀ pair, pairOf reply = some pair →
        Bearer svc c.shared pair w q) fun _ => True) c := by
  have hstart : FamilyGood False (.start (initial clock) : AuthConfig) :=
    .start inv_initial fun _ => resting_initial
  -- rows stay until the end of the run
  have htoward := h.toward fun hbefore hafter => (Registration.evolves_run
    (Registration.good_run Registration.good_start hbefore) hafter).1
  have hrun := sound_within (fun _ => stable_resting) (fun _ _ => body_good)
    cancel_good env_good (fun _ hfalse => hfalse.elim) (fun _ => trivial)
    (fun _ => trivial) hstart htoward
  refine sound (fun _ => stable_resting.also) (fun i q => ?_)
    (fun hi _ => ?_) (fun hi he hF => ?_) (Good.start ⟨inv_initial, ?_⟩
      fun _ => resting_initial) hrun
  · exact call_binds.weaken fun w _ hw => ⟨hold_resting hw, hw.own .users⟩
  · obtain ⟨hinv, hguar, hrest⟩ := cancel_good (q := .logout "") hi.1 trivial
    exact ⟨⟨hinv, cached_moves hi.1 hguar (fun _ he => he) hi.2⟩, hguar, hrest⟩
  · exact ⟨⟨hF.2.1, cached_env he hi.2⟩, hF.2.2⟩
  · exact fun e he => absurd he List.not_mem_nil

/-- A committed row, as a part of the session of its family. -/
theorem session_of_row {t : Tokens} {r : RefreshTokenRow} (h : FamInv t)
    (hr : r ∈ t.rows) (hfam : r.fam = fam) :
    ∃ s, session fam t = some s ∧ s.holder = holderOf r ∧
      r.tokenHash ∈ s.keys := by
  have hin : r ∈ famRows fam t := mem_famRows.mpr ⟨hr, hfam⟩
  obtain ⟨first, hfirst⟩ : ∃ v, (famRows fam t).head? = some v :=
    Option.isSome_iff_exists.mp (List.isSome_head?.mpr (List.ne_nil_of_mem hin))
  have hs : session fam t = some ⟨holderOf first,
      ((famRows fam t).filter fun v => v.revokedAt.isSome).map
        fun v => v.tokenHash,
      ((famRows fam t).find? fun v => v.revokedAt.isNone).map
        fun v => v.tokenHash⟩ := by
    simp [session, sessionOf, hfirst]
  refine ⟨_, hs, (holder_eq (same_session h hin hfirst)).symm, ?_⟩
  by_cases hrevoked : r.revokedAt = none
  · -- the one active row of the family is the current token
    have hfind : ((famRows fam t).find? fun v => v.revokedAt.isNone) =
        some r := by
      obtain ⟨v, hv⟩ := Option.isSome_iff_exists.mp (List.find?_isSome
        (p := fun v : RefreshTokenRow => v.revokedAt.isNone) |>.mpr
          ⟨r, hin, by simp [hrevoked]⟩)
      have hactive : v.revokedAt = none := by simpa using List.find?_some hv
      have hlast := active_last h (List.mem_of_find?_eq_some hv) hactive
      rw [active_last h hin hrevoked] at hlast
      rw [hv, Option.some.inj hlast]
    simp [Chain.keys, hfind]
  · have hspent : r ∈ (famRows fam t).filter fun v => v.revokedAt.isSome :=
      List.mem_filter.mpr ⟨hin, Option.isSome_iff_ne_none.mpr hrevoked⟩
    exact List.mem_append_left _
      (List.mem_map_of_mem (f := fun v : RefreshTokenRow => v.tokenHash) hspent)

/-- The session that vouches for a pair. -/
theorem session_of_granted {tokenHash : String} {pair : TokenPair}
    (h : FamInv (tokens w)) (hgranted : Granted svc d tokenHash pair w) :
    ∃ fam s, session fam (tokens w) = some s ∧ tokenHash ∈ s.keys ∧
      IssuedFor svc d s.holder.userId s.holder.dpopJkt pair.accessToken := by
  obtain ⟨fam, r, hr, hfam, hhash, hissued⟩ := hgranted
  obtain ⟨s, hs, hholder, hkeys⟩ := session_of_row h hr hfam
  refine ⟨fam, s, hs, hhash ▸ hkeys, ?_⟩
  rw [hholder]
  exact hissued

/-- What an answered pair is good for. -/
theorem bearer_of_answer
    (hrun : (authSystem svc).Reaches .all (.start (initial clock)) c)
    {reply : Reply} {pair : TokenPair}
    (hanswer : c.answer i = some (q, .ok reply))
    (hpair : pairOf reply = some pair) :
    FamInv (tokens c.shared) ∧ Bearer svc c.shared pair c.shared q := by
  have hgood := binding_of_reaches hrun
  exact ⟨FamilyProtocol.Inv.fams hgood.inv.1,
    hgood.result (Config.answer_eq.mp hanswer) pair hpair⟩

/-- **The key and the user a pair is bound to.**  A registration or a login is
answered with an access token for the key of its request.  A refresh, also
where it is answered out of the grace cache and whatever key it is called with,
is answered with an access token for the user and the key of the session that
the refresh token it shows is of: for the public id and the name that the users
table has for the id of that session's user. -/
theorem tokens_bound
    (hrun : (authSystem svc).Reaches .all (.start (initial clock)) c)
    {reply : Reply} {pair : TokenPair}
    (hanswer : c.answer i = some (q, .ok reply))
    (hpair : pairOf reply = some pair) :
    (presents q = none → ∃ jkt user, boundTo q = some jkt ∧
      Issued svc user jkt pair.accessToken) ∧
    ∀ refreshToken, presents q = some refreshToken →
      ∃ fam s, session fam (tokens c.shared) = some s ∧
        svc.hashToken refreshToken ∈ s.keys ∧
          ∃ user ∈ (c.shared.db .users).rows, user.id = s.holder.userId ∧
            Issued svc user s.holder.dpopJkt pair.accessToken := by
  obtain ⟨hfams, hbearer⟩ := bearer_of_answer hrun hanswer hpair
  cases q with
  | register params =>
      obtain ⟨user, hissued⟩ := hbearer
      exact ⟨fun _ => ⟨_, user, rfl, hissued⟩, fun _ h => by cases h⟩
  | login kind value password jkt ip ua =>
      obtain ⟨user, hissued⟩ := hbearer
      exact ⟨fun _ => ⟨_, user, rfl, hissued⟩, fun _ h => by cases h⟩
  | refresh rt jkt ua =>
      refine ⟨(fun h => by cases h), fun refreshToken h => ?_⟩
      cases h
      exact session_of_granted hfams hbearer
  | logout rt => exact hbearer.elim

/-- A rotated token, shown once more and under another key. -/
def replayed : AuthConfig :=
  ((authSystem sampleService).exec .all rotated
    ([.call 2 (.refresh (sampleSecret 0) "another-thumbprint" none)] ++
      steps 2 6)).get (by decide +kernel)

/-- The pair of the rotation, handed out again. -/
def replayedPair : TokenPair where
  accessToken := uuidText (sampleUuid 4)
  refreshToken := sampleSecret 1
  tokenType := tokenType
  expiresIn := sampleService.config.accessTokenTtl.secs

theorem tokens_bound_replayed :
    ∃ fam s, session fam (tokens replayed.shared) = some s ∧
      sampleService.hashToken (sampleSecret 0) ∈ s.keys ∧
        ∃ user ∈ (replayed.shared.db .users).rows,
          user.id = s.holder.userId ∧ Issued sampleService user s.holder.dpopJkt
            replayedPair.accessToken :=
  (@tokens_bound sampleService
    (.refresh (sampleSecret 0) "another-thumbprint" none) 2 0 replayed
    (System.exec_reaches (Check.implies_all .all) (Option.some_get _).symm
      |>.trans (System.exec_reaches (Check.implies_all .all)
        (Option.some_get _).symm))
    (.tokens replayedPair) replayedPair (by decide +kernel) rfl).2 _ rfl

end DpopAuth.Ports.TokenBinding
