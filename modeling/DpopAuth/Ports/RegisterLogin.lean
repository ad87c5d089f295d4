import DpopAuth.Ports.AuthSteps
import DpopAuth.Ports.RefreshFailure

/-!
# Registration and login, all or nothing

`register` writes in one transaction and signs the access token after its
`COMMIT`.  It drops the error of the audit record inside the transaction, and
PostgreSQL answers the `COMMIT` of the aborted transaction with success.
`login` writes the refresh token outside of a transaction and signs afterwards.

So both are all or nothing where the audit record of `register` does not abort
its transaction and the signing does not fail.

## Main results

* `register_atomic`, `login_atomic` — put together in `all_or_nothing`.
* `swallowed_error_loses_user` — a `register` that answers with tokens nobody
  has stored.
-/

namespace DpopAuth.Ports.RegisterLogin

open DpopAuth.Verified.Resumption
open DpopAuth.Verified.RelyGuarantee
open DpopAuth.Verified.RowVersions
open DpopAuth.Verified.Transactions
open DpopAuth.Verified.TransactionRules
open DpopAuth.Verified.AtomicRules
open DpopAuth.Verified.BlockRules
open DpopAuth.Verified.Traces
open DpopAuth.Ports.Errors
open DpopAuth.Ports.Schema
open DpopAuth.Ports.Service
open DpopAuth.Ports.Repo
open DpopAuth.Ports.Auth
open DpopAuth.Ports.AuthSteps
open DpopAuth.Ports.FamilyProtocol
open DpopAuth.Ports.FamilyOutlines
open DpopAuth.Ports.AtomicCalls
open DpopAuth.Ports.RefreshAlone
open DpopAuth.Ports.RefreshFailure

variable {svc : AuthService} {i : Nat} {w w' : Srv} {α β : Type}
  {F : Point → Pick → Srv → Srv → Prop}

/-! ## What is promised -/

/-- The user, the identifier and the refresh token of a registration are
committed. -/
def Enrolled (svc : AuthService) (params : RegisterParams) (secret : String)
    (w : Srv) : Prop :=
  ∃ id, (∃ u ∈ (w.db .users).rows, u.id = id) ∧
    (∃ d ∈ (w.db .identifiers).rows, d.userId = id ∧ d.kind = params.kind ∧
      d.value = svc.ext.toLowercase params.value) ∧
    ∃ r ∈ (tokens w).rows, r.userId = id ∧
      r.tokenHash = svc.hashToken secret

/-- `register` is all or nothing: with tokens, everything is committed; with an
error, nothing is. -/
def RegisterAtomic (svc : AuthService) (params : RegisterParams) (w : Srv) :
    Except Stop TokenPair → Srv → Prop
  | .ok pair, w' => Enrolled svc params pair.refreshToken w'
  | .error _, w' => ∀ t, (w'.db t).rows = (w.db t).rows

/-- `login` is all or nothing: with an error, no refresh token is committed. -/
def LoginAtomic (w : Srv) : Except Stop LoginOutcome → Srv → Prop
  | .ok _, _ => True
  | .error _, w' => (tokens w').rows = (tokens w).rows

/-- The `COMMIT` of a registration is not sent in an aborted transaction. -/
def Sent (i : Nat) (pt : Point) (_ : Pick) (w : Srv) : Prop :=
  match pt with
  | .registered _ => (w.session i).status ≠ .aborted
  | _ => True

/-- Where signing succeeds, so does `issue_access_token`. -/
theorem signing {P E : Srv → Prop} {jkt : String} (hsigns : Signs svc jkt)
    {user : UserRow} : Outline (Logic.solo i) F i
      (issueAccessToken svc user jkt).run P (exceptPost (fun _ _ => True) E) := by
  refine Outline.except_bind (R := fun _ _ => True) (Outline.lift
    (Outline.step (fun _ => .solo) fun _ _ _ _ => ⟨trivial, .inl rfl, trivial⟩))
    fun now => ?_
  refine Outline.except_bind (R := fun _ _ => True) (Outline.lift
    (Outline.step (fun _ => .solo) fun _ _ _ _ => ⟨trivial, .inl rfl, trivial⟩))
    fun jti => ?_
  split
  · exact Outline.pure fun _ _ _ => trivial
  · rename_i e he
    obtain ⟨token, htoken⟩ := hsigns now (uuidText jti) (uuidText user.publicId)
      user.name
    rw [htoken] at he
    cases he

/-! ## The registration that answers with tokens -/

/-- Session `i` sees the user. -/
def SeesUser (i : Nat) (id : Uuid) (w : Srv) : Prop :=
  ∃ u ∈ (w.db .users).view i, u.id = id

/-- Session `i` sees the identifier of the user. -/
def SeesIdentifier (svc : AuthService) (i : Nat) (params : RegisterParams)
    (id : Uuid) (w : Srv) : Prop :=
  ∃ d ∈ (w.db .identifiers).view i, d.userId = id ∧ d.kind = params.kind ∧
    d.value = svc.ext.toLowercase params.value

/-- What the transaction of `register` sees of its own writes. -/
structure Drafted (svc : AuthService) (i : Nat) (params : RegisterParams)
    (id : Uuid) (secret : String) (w : Srv) : Prop where
  user : SeesUser i id w
  identifier : SeesIdentifier svc i params id w
  token : ∃ r ∈ (tokens w).view i, r.userId = id ∧
    r.tokenHash = svc.hashToken secret

theorem Drafted.commit {params : RegisterParams} {id : Uuid} {secret : String}
    {pt : Point} (h : Drafted svc i params id secret w) :
    Enrolled svc params secret (w.commitTx i pt) := by
  obtain ⟨⟨u, hu, hid⟩, ⟨d, hd, hdid⟩, ⟨r, hr, hrid⟩⟩ := h
  exact ⟨id, ⟨u, view_commit hu, hid⟩, ⟨d, view_commit hd, hdid⟩,
    ⟨r, view_commit hr, hrid⟩⟩

/-- The audit record: written, or the transaction is aborted. -/
theorem audit_ignored {kind value ip : String} {success : Bool}
    {reason : Option String} (h : InBlock i w) :
    Triple i (recordLoginAttempt svc kind value ip success reason).ignore.run
      (fun v => v = w) (exceptPost (fun _ v =>
        (∃ x, v = w.setTable .loginAttempts x) ∨
          (v.session i).status = .aborted) fun _ => False) := by
  have hrecord : Triple i (recordLoginAttempt svc kind value ip success
      reason).run (fun v => v = w) (fun _ v =>
        (∃ x, v = w.setTable .loginAttempts x) ∨
          (v.session i).status = .aborted) := by
    refine Triple.step fun hv hstep => ?_
    subst hv
    rename_i v ch r v'
    have hfail : ∀ u : Srv, (u.session i).status = .explicit →
        ((u.failStatement i).session i).status = .aborted := by
      intro u hu
      simp [World.failStatement, hu]
    rcases statement_cases hstep with ⟨hst, -⟩ | ⟨-, rfl, -⟩ | ⟨-, hrun⟩
    · exact absurd hst h.not_aborted
    · exact .inr (hfail v h.1)
    · split at hrun
      · cases hrun
      · simp only [Option.some.injEq, Prod.mk.injEq] at hrun
        rw [← hrun.2]
        refine .inr (hfail _ ?_)
        simp [World.openStatement, World.setSession, h.1]
      · rename_i x hx
        simp only [Option.some.injEq, Prod.mk.injEq] at hrun
        rw [← hrun.2, h.complete_write]
        exact .inl ⟨x, rfl⟩
  exact Outline.bind (fun _ => Outline.ret fun _ _ hv => hv) hrecord

/-- How the region of `register` ends when it does not fail. -/
def Ready (svc : AuthService) (i : Nat) (params : RegisterParams) :
    TxExit Point Stop (UserRow × String) → Srv → Prop
  | .commit (.registered _) (.ok (user, secret)), v =>
      (v.session i).status = .aborted ∨
        InBlock i v ∧ Drafted svc i params user.id secret v
  | _, _ => False

theorem insert_from {t : Tbl} {pt : Point} {dup : Row t → Row t → Bool}
    {r : Row t} (h : InBlock i w) :
    From i w (Repo.sql (insert pt t dup fun _ => [r])).run fun _ v =>
      v = w.setTable t ((w.db t).insert i r) := by
  refine (insert_block h).post fun a v _ hv => ?_
  cases a with
  | error e => trivial
  | ok u =>
      obtain ⟨x, hx, rfl⟩ := hv
      obtain ⟨rfl, -, -⟩ := insertRows_one hx
      exact rfl

theorem from_refreshExpiry :
    From i w (refreshExpiry svc).run fun _ v => v = w := by
  refine Outline.except_bind (R := fun _ v => v = w)
    (Outline.lift (utcNow_exact.post fun _ _ _ h => h.2)) fun now => ?_
  split
  · exact Outline.pure fun _ _ hw => hw
  · exact Outline.throw fun _ _ _ => trivial

theorem create_user_sees {name hash : String} {at' : Option DateTime}
    (h : InBlock i w) : From i w (createUser name hash at').run fun user v =>
      InBlock i v ∧ SeesUser i user.id v := by
  refine From.bind (from_lift newUuid_exact) fun id u hu => ?_
  obtain ⟨l, rfl⟩ := hu
  refine From.bind (from_lift newUuid_exact) fun publicId u hu => ?_
  obtain ⟨l', rfl⟩ := hu
  have hin : InBlock i (withDrawn l' (withDrawn l w)) := h
  refine From.bind (insert_from hin) fun _ x hx => From.pure ?_
  subst hx
  refine ⟨hin.setTable, _, ?_, rfl⟩
  rw [db_setTable]
  exact view_insert_self _

theorem create_identifier_sees {params : RegisterParams} {id : Uuid}
    {primary : Bool} {at' : Option DateTime} (h : InBlock i w)
    (huser : SeesUser i id w) :
    From i w (createIdentifier svc id params.kind params.value primary at').run
      fun _ v => InBlock i v ∧ SeesUser i id v ∧
        SeesIdentifier svc i params id v := by
  refine From.bind (insert_from h) fun _ x hx => From.pure ?_
  subst hx
  let row : IdentifierRow :=
    { userId := id
      kind := params.kind
      value := svc.ext.toLowercase params.value
      isPrimary := primary
      verifiedAt := at'
      deletedAt := none }
  refine ⟨h.setTable, by simpa [SeesUser, World.setTable] using huser, row, ?_,
    rfl, rfl, rfl⟩
  rw [db_setTable]
  exact view_insert_self row

theorem update_login_sees {params : RegisterParams} {id : Uuid}
    (h : InBlock i w) (huser : SeesUser i id w)
    (hident : SeesIdentifier svc i params id w) :
    From i w (updateLastLoginAt id).run fun _ v => InBlock i v ∧
      SeesUser i id v ∧ SeesIdentifier svc i params id v := by
  refine From.bind (update_block h) fun rows y hy => From.pure ?_
  obtain ⟨-, rfl⟩ := hy
  refine ⟨h.setTable, ?_, by simpa [SeesIdentifier, World.setTable] using hident⟩
  obtain ⟨u, hu, hid⟩ := huser
  unfold SeesUser
  rw [db_setTable]
  rcases view_sweep hu with hkeep | hnew
  · exact ⟨u, hkeep, hid⟩
  · exact ⟨_, hnew, hid⟩

theorem create_token_sees {params : RegisterParams} {secret : String}
    {p : CreateRefreshTokenParams} (h : InBlock i w)
    (huser : SeesUser i p.userId w)
    (hident : SeesIdentifier svc i params p.userId w)
    (hhash : p.tokenHash = svc.hashToken secret) :
    From i w (createRefreshToken p).run fun _ v => InBlock i v ∧
      Drafted svc i params p.userId secret v := by
  refine (createRefreshToken_exact h).post fun a v _ hv => ?_
  cases a with
  | error e => trivial
  | ok row =>
      obtain ⟨x, hx, rfl⟩ := hv
      obtain ⟨rfl, -, -⟩ := insertRows_one hx
      refine ⟨h.setTable, by simpa [SeesUser, World.setTable] using huser,
        by simpa [SeesIdentifier, World.setTable] using hident, p.row, ?_, rfl,
        hhash⟩
      show _ ∈ ((World.setTable _ _ _).db Tbl.refreshTokens).view i
      rw [db_setTable]
      exact view_insert_self _

theorem registerTx_ready {params : RegisterParams} {hash : String}
    (h : InBlock i w) :
    From i w (registerTx svc params hash).run (Ready svc i params) := by
  refine From.bind (from_lift utcNow_exact) fun changedAt v hv => ?_
  obtain ⟨-, rfl⟩ := hv
  refine From.bind (from_propagate (create_user_sees h)) fun user u hu => ?_
  obtain ⟨hin, huser⟩ := hu
  refine From.bind (from_lift utcNow_exact) fun verifiedAt v' hv' => ?_
  obtain ⟨-, rfl⟩ := hv'
  refine From.bind (R := fun _ x => InBlock i x ∧ SeesUser i user.id x ∧
    SeesIdentifier svc i params user.id x) ?_ fun _ x hx => ?_
  · refine Outline.bind (fun r => ?_) (create_identifier_sees hin huser)
    cases r with
    | error e => exact fun _ _ _ => trivial
    | ok row => exact fun _ _ hx => hx
  obtain ⟨hin, huser, hident⟩ := hx
  refine From.bind (from_propagate (update_login_sees hin huser hident))
    fun _ y hy => ?_
  obtain ⟨hin, huser, hident⟩ := hy
  refine From.bind newText_exact fun secret z hz => ?_
  obtain rfl := hz
  refine From.bind (from_lift newUuid_exact) fun fam z' hz' => ?_
  obtain ⟨l, rfl⟩ := hz'
  refine From.bind from_refreshExpiry fun expiresAt z' hz' => ?_
  obtain rfl := hz'
  have hblock : InBlock i (withDrawn l z) := hin
  refine From.bind (from_propagate (create_token_sees hblock huser
    hident rfl)) fun _ t ht => ?_
  obtain ⟨hin, hdraft⟩ := ht
  refine From.bind (R := fun _ y => (∃ x, y = t.setTable .loginAttempts x) ∨
      (y.session i).status = .aborted)
    ((audit_ignored hin).post fun a y _ hy => ?_) fun _ y hy => From.pure ?_
  · cases a with
    | error e => trivial
    | ok a => exact hy
  · rcases hy with ⟨x, rfl⟩ | haborted
    · refine .inr ⟨hin.setTable, ?_, ?_, ?_⟩
      · simpa [SeesUser, World.setTable] using hdraft.user
      · simpa [SeesIdentifier, World.setTable] using hdraft.identifier
      · simpa [World.setTable, tokens] using hdraft.token
    · exact .inl haborted

/-! ## The registration that fails -/

/-- A property of every kind of step in a block that is not committed. -/
theorem permits_keeps {rows : ∀ t, List (Row t)} :
    Permits (Keeps i rows fun _ : Memory => True) where
  select := every_select
  insert _ := every_insert
  update _ := every_update
  look hf := fun hv hstep => by rw [hf hstep]; exact hv
  fresh := (kept_newUuid fun _ _ _ => trivial).1

theorem kept_registerTx {rows : ∀ t, List (Row t)} {params : RegisterParams}
    {hash : String} :
    Kept i rows (fun _ => True) (registerTx svc params hash).run :=
  permits_keeps.registerTx fun _ => kept_createRefreshToken

theorem hashPassword_exact {password : String} :
    Outline (Logic.solo i) F i (hashPasswordAsync svc password).run
      (fun v => v = w) (exceptPost (fun _ v => v = w) fun v => v = w) := by
  refine Outline.except_bind (R := fun _ v => v = w)
    (Outline.step (fun _ => .solo) fun {s ch a s'} _ hs hf _ => ?_) fun salt => ?_
  · subst hs
    refine ⟨trivial, .inl rfl, ?_⟩
    split at hf <;> simp_all [exceptPost] <;> simp [← hf.1]
  · split
    · exact Outline.pure fun _ _ hv => hv
    · exact Outline.throw fun _ _ hv => hv

/-- Signing keeps what is committed. -/
theorem signing_keeps {P : Srv → Prop} {E : Srv → Prop} {user : UserRow}
    {jkt : String} (hsigns : Signs svc jkt)
    (hP : ∀ l v, P v → P (withDrawn l v)) :
    Outline (Logic.solo i) F i (issueAccessToken svc user jkt).run P
      (exceptPost (fun _ => P) E) := by
  refine Outline.of_states fun s hs => ?_
  have hkeep : Outline (Logic.solo i) F i (issueAccessToken svc user jkt).run
      (fun v => v = s) (exceptPost (fun _ v => ∃ l, v = withDrawn l s)
        fun _ => True) := Outline.restrict (fun _ => trivial) issueAccessToken_exact
  refine Outline.weaken (fun _ _ h => ⟨h, h⟩) ((Outline.and hkeep
    (signing (E := E) hsigns)).post fun r v _ hv => ?_)
  cases r with
  | error e => exact hv.2
  | ok a =>
      obtain ⟨⟨l, rfl⟩, -⟩ := hv
      exact hP l s hs

/-- The transaction of `register`, whose `COMMIT` is not sent in vain. -/
theorem registerTx_atomic {params : RegisterParams} {hash : String} :
    Outline (Logic.solo i) (fun pt ch s _ => Sent i pt ch s) i
      (inTransaction (registerTx svc params hash)).run (fun v => v = w)
      (exceptPost (fun x => Enrolled svc params x.2)
        fun v => ∀ t, (v.db t).rows = (w.db t).rows) := by
  have hinside : Outline (Logic.solo i) (fun pt ch s _ => Sent i pt ch s) i
      (registerTx svc params hash).run (fun v => v = w.beginTx i)
      (exceptPost (fun out v => Ready svc i params out v ∧
          Discardable i (fun t => (w.db t).rows) (fun _ => True) v)
        (Discardable i (fun t => (w.db t).rows) fun _ => True)) := by
    have hready : From i (w.beginTx i) (registerTx svc params hash).run
        (Ready svc i params) := registerTx_ready inBlock_beginTx
    have hkept : Outline (Logic.solo i) (fun pt ch s _ => Sent i pt ch s) i
        (registerTx svc params hash).run
        (Discardable i (fun t => (w.db t).rows) fun _ => True)
        (exceptPost
          (fun _ => Discardable i (fun t => (w.db t).rows) fun _ => True)
          (Discardable i (fun t => (w.db t).rows) fun _ => True)) :=
      kept_fallible kept_registerTx
    have hboth := Outline.and (Outline.restrict (fun _ => trivial) hready) hkept
    have hstart : ∀ v : Srv, v = w.beginTx i → v = w.beginTx i ∧
        Discardable i (fun t => (w.db t).rows) (fun _ => True) v := by
      rintro v rfl
      exact ⟨rfl, Discardable.beginTx (fun _ => rfl) trivial⟩
    refine Outline.weaken (fun v _ => hstart v) (hboth.post fun r v _ hv => ?_)
    cases r with
    | error e => exact hv.2
    | ok out => exact ⟨hv.1, hv.2⟩
  refine Outline.transaction (fun v => v = w.beginTx i)
    (fun out v => Ready svc i params out v ∧
      Discardable i (fun t => (w.db t).rows) (fun _ => True) v)
    (Discardable i (fun t => (w.db t).rows) fun _ => True)
    .solo (fun _ => .solo) ?_ hinside ?_ ?_
  · intro v v' ch r _ hv hstep _
    subst hv
    rcases beginStep_cases hstep with ⟨rfl, -, e, rfl⟩ | ⟨rfl, rfl⟩
    · exact ⟨trivial, .inl rfl, fun _ => rfl⟩
    · exact ⟨trivial, .inl rfl, rfl⟩
  · intro v r ch _ hv _
    refine ⟨trivial, .inl rfl, ?_⟩
    rcases hv with ⟨e, rfl, hv⟩ | ⟨hready, -⟩
    · exact (discardable_rollback hv).1
    · exact hready.elim
  · intro v ch pt r r' v' _ hv hstep hsent
    obtain ⟨hready, hdiscard⟩ := hv
    refine ⟨trivial, .inl rfl, ?_⟩
    match pt, r with
    | .registered fam, .ok (user, secret) =>
        have hdraft : Drafted svc i params user.id secret v := by
          rcases hready with haborted | ⟨-, hdraft⟩
          · exact absurd haborted hsent
          · exact hdraft
        rcases commitStep_cases hstep with ⟨haborted, -, -⟩ |
          ⟨-, ⟨e, rfl⟩, -, rfl⟩ | ⟨-, rfl, rfl⟩
        · exact absurd haborted hsent
        · exact (discardable_rollback hdiscard).1
        · exact hdraft.commit
    | .registered _, .error _ => exact hready.elim
    | .plain, _ => exact hready.elim
    | .revokeRefreshTokenFamily _, _ => exact hready.elim
    | .rotated _, _ => exact hready.elim
    | .reuseDetected _, _ => exact hready.elim
    | .activateTotp _ _, _ => exact hready.elim
    | .confirmed _ _ _, _ => exact hready.elim

/-- A registration, where signing does not fail. -/
theorem register_atomic {params : RegisterParams}
    (hsigns : Signs svc params.jkt) :
    Outline (Logic.solo i) (fun pt ch s _ => Sent i pt ch s) i
      (register svc params).run (fun v => v = w)
      (exceptPost (fun pair => Enrolled svc params pair.refreshToken)
        fun v => ∀ t, (v.db t).rows = (w.db t).rows) := by
  have hsame : ∀ v : Srv, v = w → ∀ t, (v.db t).rows = (w.db t).rows := by
    rintro v rfl t
    rfl
  unfold register
  split
  · exact Outline.throw fun v _ => hsame v
  · refine Outline.except_bind (R := fun _ v => v = w)
      (hashPassword_exact.post fun r v _ hv => ?_) fun passwordHash => ?_
    · cases r with
      | error e => exact hsame v hv
      | ok a => exact hv
    refine Outline.except_bind registerTx_atomic fun x => ?_
    refine Outline.except_bind (R := fun _ => Enrolled svc params x.2)
      (signing_keeps hsigns fun l v hv => hv) fun access => ?_
    exact Outline.pure fun _ _ hv => hv

/-! ## The login that fails -/

/-- Session `i` is outside of a block, and the committed tokens are `rows`. -/
structure Spared (i : Nat) (rows : List RefreshTokenRow) (w : Srv) : Prop where
  holds : Holds .refreshTokens i false [] w
  rows_eq : (tokens w).rows = rows

/-- An action that leaves the tokens alone. -/
abbrev Spares (i : Nat) (rows : List RefreshTokenRow)
    (f : Action Srv Pick β) : Prop :=
  ∀ ⦃v ch b v'⦄, Spared i rows v → f i ch v = some (b, v') → Spared i rows v'

theorem spares_of_offTable {rows : List RefreshTokenRow} {f : Action Srv Pick β}
    (h : OffTable Tbl.refreshTokens f) : Spares i rows f := by
  intro v ch b v' hv hstep
  have haway := h hstep hv.holds
  refine ⟨haway.holds, ?_⟩
  rcases haway.table with htable | htable
  · exact (congrArg Table.rows htable).trans hv.rows_eq
  · exact ((congrArg Table.rows htable).trans rows_rollback).trans hv.rows_eq

theorem permits_spares {rows : List RefreshTokenRow} :
    Permits (Spares i rows) where
  select := every_mono (fun hf => spares_of_offTable hf) offTable_select
  insert ht := every_mono (fun hf => spares_of_offTable hf) (offTable_insert ht)
  update ht := every_mono (fun hf => spares_of_offTable hf) (offTable_update ht)
  look hf := fun v ch b v' hv hstep => by rw [hf hstep]; exact hv
  fresh := fun v ch b v' hv hstep => by
    unfold newUuidStep at hstep
    split at hstep
    · split at hstep
      · cases hstep
      · simp only [Option.some.injEq, Prod.mk.injEq] at hstep
        rw [← hstep.2]
        exact ⟨hv.holds, hv.rows_eq⟩
    · cases hstep

theorem spared_outline {rows : List RefreshTokenRow}
    {p : ExceptT ξ (Prog Point Srv Pick) α} (h : p.run.Every (Spares i rows)) :
    Outline (Logic.solo i) F i p.run (Spared i rows)
      (exceptPost (fun _ => Spared i rows) (Spared i rows)) := by
  have hkeep : Outline (Logic.solo i) F i p.run (Spared i rows)
      fun _ => Spared i rows :=
    Outline.every .solo (every_mono (fun hf _ _ _ _ _ hP hstep =>
      ⟨trivial, .inl rfl, hf hP hstep⟩) h)
  refine hkeep.post fun r v _ hv => ?_
  cases r with
  | error e => exact hv
  | ok a => exact hv

/-- The token of a session is inserted, or nothing is. -/
theorem createRefreshToken_spared {rows : List RefreshTokenRow}
    {p : CreateRefreshTokenParams} :
    Outline (Logic.solo i) F i (createRefreshToken p).propagate.run
      (Spared i rows) (exceptPost (fun _ _ => True) (Spared i rows)) := by
  have hinsert : Outline (Logic.solo i) F i (createRefreshToken p).run
      (Spared i rows) (exceptPost (fun _ _ => True) (Spared i rows)) := by
    refine Outline.except_bind (R := fun _ _ => True) (Outline.step
      (Stable.exceptPost (fun _ => .solo) .solo)
      fun {v ch r v'} _ hv hstep _ => ⟨trivial, .inl rfl, ?_⟩)
      fun _ => Outline.pure fun _ _ _ => trivial
    have hfail : ∀ u : Srv, Spared i rows u →
        Spared i rows (u.failStatement i) := by
      intro u hu
      have haway := away_failStatement hu.holds
      exact ⟨haway.holds, rows_rollback.trans hu.rows_eq⟩
    have hopen : Spared i rows (v.openStatement i Point.plain) := by
      have haway := away_openStatement (p := Point.plain) hv.holds
      refine ⟨haway.holds, ?_⟩
      rw [tokens, db_open]
      exact hv.rows_eq
    rcases statement_cases hstep with ⟨-, rfl, e, rfl⟩ | ⟨-, rfl, -, e, rfl⟩ |
      ⟨-, hrun⟩
    · exact hv
    · exact hfail v hv
    · split at hrun
      · cases hrun
      · simp only [Option.some.injEq, Prod.mk.injEq] at hrun
        rw [← hrun.1, ← hrun.2]
        exact hfail _ hopen
      · simp only [Option.some.injEq, Prod.mk.injEq] at hrun
        rw [← hrun.1]
        trivial
  refine Outline.bind (fun r => ?_) hinsert
  cases r with
  | error e => exact fun _ _ hv => hv
  | ok a => exact fun _ _ _ => trivial

/-- A login, where signing does not fail. -/
theorem login_atomic {rows : List RefreshTokenRow}
    {kind value password jkt ip : String} {ua : Option String}
    (hsigns : Signs svc jkt) :
    Outline (Logic.solo i) F i (login svc kind value password jkt ip ua).run
      (Spared i rows) (exceptPost (fun _ _ => True) (Spared i rows)) := by
  refine Outline.except_bind
    (spared_outline permits_spares.authenticateUser) fun user => ?_
  split
  · exact Outline.pure fun _ _ _ => trivial
  refine Outline.except_bind (spared_outline
    (every_ignore permits_spares.updateLastLoginAt)) fun _ => ?_
  refine Outline.except_bind (spared_outline
    (every_ignore permits_spares.recordLoginAttempt)) fun _ => ?_
  refine Outline.except_bind (R := fun _ _ => True) ?_
    fun tokens => Outline.pure fun _ _ _ => trivial
  refine Outline.except_bind (spared_outline permits_spares.newText)
    fun secret => ?_
  refine Outline.except_bind
    (spared_outline (Prog.Every.lift permits_spares.newUuid)) fun fam => ?_
  refine Outline.except_bind (spared_outline permits_spares.refreshExpiry)
    fun expiresAt => ?_
  refine Outline.except_bind createRefreshToken_spared fun _ => ?_
  refine Outline.except_bind (signing hsigns) fun access => ?_
  exact Outline.pure fun _ _ _ => trivial

/-! ## All or nothing -/

/-- **Registration and login are all or nothing**, from every state, for every
input and every choice of what fails, where the configured signer signs access
tokens for the key of the request and the `COMMIT` of a registration is not sent
in an aborted transaction. -/
theorem all_or_nothing (svc : AuthService) (i : Nat) (w : Srv)
    (hrest : Resting i false w) :
    (∀ params cs r w', Signs svc params.jkt →
      (register svc params).run.alone i cs w = some (r, w') →
      AllSteps (Sent i) i cs (register svc params).run w →
      RegisterAtomic svc params w r w') ∧
    (∀ kind value password jkt ip ua cs r w', Signs svc jkt →
      (login svc kind value password jkt ip ua).run.alone i cs w =
        some (r, w') → LoginAtomic w r w') := by
  refine ⟨fun params cs r w' hsigns hrun hall => ?_,
    fun kind value password jkt ip ua cs r w' hsigns hrun => ?_⟩
  · have hpost := Outline.alone_within (register_atomic hsigns) rfl hall hrun
    cases r with
    | error e => exact hpost
    | ok pair => exact hpost
  · have hstart : Spared i (tokens w).rows w := by
      refine ⟨?_, rfl⟩
      have hown := hrest.own .refreshTokens
      simp only [Resting] at hrest
      simp only [Holds]
      cases hst : (w.session i).status <;> simp_all
    have houtline : Triple i (login svc kind value password jkt ip ua).run
        (Spared i (tokens w).rows)
        (exceptPost (fun _ _ => True) (Spared i (tokens w).rows)) :=
      login_atomic hsigns
    have hpost := houtline.alone hstart hrun
    cases r with
    | error e => exact hpost.rows_eq
    | ok outcome => trivial

/-! ## A registration, and one whose audit record fails -/

instance (pt : Point) (ch : Pick) (w : Srv) : Decidable (Sent i pt ch w) := by
  unfold Sent
  split <;> infer_instance

/-- A registration in an empty database. -/
def enrolment : Except Stop TokenPair × Srv :=
  ((register sampleService sampleParams).run.alone 0 (choices (registers 0))
    (initial 0)).get (by decide +kernel)

theorem all_or_nothing_enrolment :
    RegisterAtomic sampleService sampleParams (initial 0) enrolment.1
      enrolment.2 := by
  have hall : ∀ x ∈ trace 0 (choices (registers 0))
      (register sampleService sampleParams).run (initial 0),
      Sent 0 x.1 x.2.1 x.2.2 := by decide +kernel
  have hrun : (register sampleService sampleParams).run.alone 0
      (choices (registers 0)) (initial 0) = some enrolment :=
    (Option.some_get _).symm
  exact (all_or_nothing sampleService 0 (initial 0) resting_initial).1
    sampleParams _ _ _ (fun _ jti _ _ => ⟨jti, rfl⟩) hrun hall

/-- The choices of a registration whose audit record cannot be written. -/
def auditFails : List Pick :=
  [.draw (.text "salt"), .ok, .ok, .draw (.uuid (sampleUuid 0)),
    .draw (.uuid (sampleUuid 1)), .ok, .ok, .ok, .ok, .ok, .ok,
    .draw (.text (sampleSecret 0)), .draw (.uuid (sampleUuid 2)), .ok, .ok,
    .fail "disk full", .ok, .ok, .draw (.uuid (sampleUuid 3))]

/-- That registration. -/
def unaudited : Except Stop TokenPair × Srv :=
  ((register sampleService sampleParams).run.alone 0 auditFails
    (initial 0)).get (by decide +kernel)

/-- **A swallowed error loses the user.**  The `INSERT` of the audit record
fails, its error is dropped, the `COMMIT` of the aborted transaction reports
success, and `register` answers with tokens that nobody has stored. -/
theorem swallowed_error_loses_user :
    (register sampleService sampleParams).run.alone 0 auditFails (initial 0) =
      some unaudited ∧
    (∃ pair, unaudited.1 = .ok pair) ∧
    (∀ t, (unaudited.2.db t).rows = []) ∧
    ¬ RegisterAtomic sampleService sampleParams (initial 0) unaudited.1
      unaudited.2 := by
  have hok : unaudited.1 = .ok
      { accessToken := uuidText (sampleUuid 3)
        refreshToken := sampleSecret 0
        tokenType := tokenType
        expiresIn := sampleService.config.accessTokenTtl.secs } := by
    decide +kernel
  have hrows : ∀ t, (unaudited.2.db t).rows = [] := by
    intro t
    cases t <;> decide +kernel
  refine ⟨(Option.some_get _).symm, ⟨_, hok⟩, hrows, fun h => ?_⟩
  rw [hok] at h
  obtain ⟨id, ⟨u, hu, -⟩, -⟩ := h
  rw [hrows] at hu
  cases hu

end DpopAuth.Ports.RegisterLogin
