import DpopAuth.Ports.Auth

/-!
# The steps of the service functions

What every step of a service function satisfies follows from the kinds of
steps it is made of.  `Permits` lists those kinds for the functions that leave
the token table alone; each function then has one lemma, whatever the property
is.

## Main results

* `Permits.authenticateUser`, `Permits.issueAccessToken` and the like — the
  steps of a function have every property its kinds of steps have.
-/

namespace DpopAuth.Ports.AuthSteps

open DpopAuth.Verified.Resumption
open DpopAuth.Verified.Transactions
open DpopAuth.Ports.Schema
open DpopAuth.Ports.Service
open DpopAuth.Ports.Repo
open DpopAuth.Ports.Auth

variable {svc : AuthService} {φ : ∀ {β : Type}, Action Srv Pick β → Prop}
  {α β : Type}

/-- The kinds of steps of a function that leaves the token table alone: a
query, a write to another table, a look at the clock or at a random string,
and a fresh identifier. -/
structure Permits (φ : ∀ {β : Type}, Action Srv Pick β → Prop) : Prop where
  select : ∀ {β : Type} {f : Int → (∀ t, List (Row t)) → β},
    (select (ω := Memory) (ν := Draw) Point.plain f).Every φ
  insert : ∀ {t : Tbl} {dup : Row t → Row t → Bool} {rs : Int → List (Row t)},
    t ≠ .refreshTokens →
      (insert (ω := Memory) (ν := Draw) Point.plain t dup rs).Every φ
  update : ∀ {t : Tbl} {p : Int → Row t → Bool} {f : Int → Row t → Row t},
    t ≠ .refreshTokens →
      (update (ω := Memory) (ν := Draw) Point.plain t p f).Every φ
  look : ∀ {β : Type} {f : Action Srv Pick β},
    (∀ {i ch v b v'}, f i ch v = some (b, v') → v' = v) → φ f
  fresh : φ newUuidStep

theorem every_propagate {q : Repo α} (h : q.run.Every φ) :
    q.propagate.run.Every φ :=
  Prog.Every.bind (fun r => by cases r <;> trivial) h

theorem every_ignore {q : Repo α} (h : q.run.Every φ) :
    q.ignore.run.Every φ := Prog.Every.bind (fun _ => trivial) h

theorem every_map {p : Svc α} {f : α → β} (h : p.run.Every φ) :
    (f <$> p).run.Every φ :=
  Prog.Every.bind (fun r => by cases r <;> trivial) h

namespace Permits

theorem utcNow (h : Permits φ) : utcNow.Every φ :=
  Prog.Every.step (h.look fun hf => by simp_all)

theorem currentTimestamp (h : Permits φ) : currentTimestamp.Every φ :=
  Prog.Every.step (h.look fun hf => by simp_all)

theorem newUuid (h : Permits φ) : newUuid.Every φ := Prog.Every.step h.fresh

theorem newText (h : Permits φ) : newText.run.Every φ := by
  refine Prog.Every.step (h.look fun hf => ?_)
  split at hf <;> simp_all

theorem refreshExpiry (h : Permits φ) : (refreshExpiry svc).run.Every φ := by
  refine Prog.Every.except_bind (Prog.Every.lift h.utcNow) fun now => ?_
  split <;> trivial

theorem issueAccessToken (h : Permits φ) {user : UserRow} {jkt : String} :
    (issueAccessToken svc user jkt).run.Every φ := by
  refine Prog.Every.except_bind (Prog.Every.lift h.currentTimestamp)
    fun now => ?_
  refine Prog.Every.except_bind (Prog.Every.lift h.newUuid) fun jti => ?_
  split <;> trivial

theorem hashPasswordAsync (h : Permits φ) {password : String} :
    (hashPasswordAsync svc password).run.Every φ := by
  refine Prog.Every.except_bind h.newText fun salt => ?_
  split <;> trivial

theorem verifyPasswordAsync (h : Permits φ) {password phc : String} :
    (verifyPasswordAsync svc password phc).run.Every φ := by
  refine Prog.Every.except_bind
    (Prog.Every.step (h.look fun hf => ?_)) fun _ => ?_
  · split at hf <;> simp_all
  · split <;> trivial

theorem createUser (h : Permits φ) {name hash : String}
    {changedAt : Option DateTime} :
    (createUser name hash changedAt).run.Every φ := by
  refine Prog.Every.except_bind (Prog.Every.lift h.newUuid) fun id => ?_
  refine Prog.Every.except_bind (Prog.Every.lift h.newUuid) fun publicId => ?_
  exact Prog.Every.except_bind (h.insert (by decide)) fun _ => trivial

theorem createIdentifier (h : Permits φ) {id : Uuid} {kind value : String}
    {primary : Bool} {verifiedAt : Option DateTime} :
    (createIdentifier svc id kind value primary verifiedAt).run.Every φ :=
  Prog.Every.except_bind (h.insert (by decide)) fun _ => trivial

theorem updateLastLoginAt (h : Permits φ) {id : Uuid} :
    (updateLastLoginAt id).run.Every φ :=
  Prog.Every.except_bind (h.update (by decide)) fun _ => trivial

theorem recordLoginAttempt (h : Permits φ) {kind value ip : String}
    {success : Bool} {reason : Option String} :
    (recordLoginAttempt svc kind value ip success reason).run.Every φ :=
  h.insert (by decide)

theorem authenticateUser (h : Permits φ) {kind value password ip : String} :
    (authenticateUser svc kind value password ip).run.Every φ := by
  refine Prog.Every.except_bind (every_propagate h.select) fun optUser => ?_
  refine Prog.Every.except_bind h.verifyPasswordAsync fun valid => ?_
  split
  · trivial
  · exact Prog.Every.except_bind (every_ignore h.recordLoginAttempt)
      fun _ => trivial
  · exact Prog.Every.except_bind (every_ignore h.recordLoginAttempt)
      fun _ => trivial

/-! The functions that write tokens as well. -/

variable (hcreate : ∀ params, (createRefreshToken params).run.Every φ)

include hcreate

theorem issueSession (h : Permits φ) {user : UserRow} {jkt : String}
    {ua : Option String} : (issueSession svc user jkt ua).run.Every φ := by
  refine Prog.Every.except_bind h.newText fun secret => ?_
  refine Prog.Every.except_bind (Prog.Every.lift h.newUuid) fun fam => ?_
  refine Prog.Every.except_bind h.refreshExpiry fun expiresAt => ?_
  refine Prog.Every.except_bind (every_propagate (hcreate _)) fun _ => ?_
  exact Prog.Every.except_bind h.issueAccessToken fun _ => trivial

theorem registerTx (h : Permits φ) {params : RegisterParams} {hash : String} :
    (registerTx svc params hash).run.Every φ := by
  refine Prog.Every.except_bind (Prog.Every.lift h.utcNow) fun changedAt => ?_
  refine Prog.Every.except_bind (every_propagate h.createUser) fun user => ?_
  refine Prog.Every.except_bind (Prog.Every.lift h.utcNow) fun verifiedAt => ?_
  refine Prog.Every.except_bind (Prog.Every.bind (fun r => ?_)
    h.createIdentifier) fun _ => ?_
  · cases r <;> trivial
  refine Prog.Every.except_bind (every_propagate h.updateLastLoginAt)
    fun _ => ?_
  refine Prog.Every.except_bind h.newText fun secret => ?_
  refine Prog.Every.except_bind (Prog.Every.lift h.newUuid) fun fam => ?_
  refine Prog.Every.except_bind h.refreshExpiry fun expiresAt => ?_
  refine Prog.Every.except_bind (every_propagate (hcreate _)) fun _ => ?_
  exact Prog.Every.except_bind (every_ignore h.recordLoginAttempt)
    fun _ => trivial

end Permits

end DpopAuth.Ports.AuthSteps
