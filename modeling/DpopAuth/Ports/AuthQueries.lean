import DpopAuth.Verified.StepRules
import DpopAuth.Ports.AuthSteps

/-!
# The queries of the authentication calls

`AuthSteps.Permits` treats all writes to other tables alike.  `Queries` lists
the statements themselves, each with the rows it writes and the index it
answers to, so a property of the statements is one of every step of every
call.  `Writes` leaves out the transaction blocks, and `Others` the statements
that write refresh tokens.

## Main results

* `Queries.register`, `Queries.login`, `Queries.refresh`, `Queries.logout`.
* `Queries.call` — every step of every call.
-/

namespace DpopAuth.Ports.AuthQueries

open DpopAuth.Verified.Resumption
open DpopAuth.Verified.Transactions
open DpopAuth.Ports.Schema
open DpopAuth.Ports.Service
open DpopAuth.Ports.Repo
open DpopAuth.Ports.Auth
open DpopAuth.Ports.AuthSteps

variable {svc : AuthService} {φ : ∀ {β : Type}, Action Srv Pick β → Prop}
  {α β : Type}

/-- The steps that ask for the time or for a random value have the property
`φ`. -/
structure Looks (φ : ∀ {β : Type}, Action Srv Pick β → Prop) : Prop where
  look : ∀ {β : Type} {f : Action Srv Pick β},
    (∀ {i ch w b w'}, f i ch w = some (b, w') → w' = w) → φ f
  fresh : φ newUuidStep

/-- So do the queries that do not write refresh tokens. -/
structure Others (svc : AuthService)
    (φ : ∀ {β : Type}, Action Srv Pick β → Prop) : Prop extends Looks φ where
  select : ∀ {β : Type} {f : Int → (∀ t, List (Row t)) → β},
    (select (ω := Memory) (ν := Draw) Point.plain f).Every φ
  insertUser : ∀ row : UserRow, (Repo.sql
    (insert .plain .users UserRow.dup fun _ => [row])).run.Every φ
  insertIdentifier : ∀ row : IdentifierRow, (Repo.sql
    (insert .plain .identifiers (IdentifierRow.dup svc.ext.toLowercase)
      fun _ => [row])).run.Every φ
  updateLastLoginAt : ∀ id, (updateLastLoginAt id).run.Every φ
  recordLoginAttempt : ∀ kind value ip success reason,
    (recordLoginAttempt svc kind value ip success reason).run.Every φ
  graceInsert : ∀ key value, (graceInsert key value).Every φ

/-- So do those that write refresh tokens. -/
structure Writes (svc : AuthService)
    (φ : ∀ {β : Type}, Action Srv Pick β → Prop) : Prop
    extends Others svc φ where
  insertToken : ∀ row : RefreshTokenRow, (Repo.sql
    (insert .plain .refreshTokens RefreshTokenRow.dup fun _ => [row])).run.Every φ
  revokeWhere : ∀ pt p, (revokeWhere pt p).run.Every φ

/-- All steps of the calls have the property `φ`. -/
structure Queries (svc : AuthService)
    (φ : ∀ {β : Type}, Action Srv Pick β → Prop) : Prop
    extends Writes svc φ where
  block : ∀ {α : Type} {region : Svc (TxExit Point Stop α)},
    region.run.Every φ → (inTransaction region).run.Every φ

/-- Two properties of the steps at once. -/
theorem every_and {φ ψ : ∀ {β : Type}, Action Srv Pick β → Prop}
    {p : Prog Point Srv Pick α} (h : p.Every φ) (h' : p.Every ψ) :
    p.Every fun f => φ f ∧ ψ f := by
  induction p with
  | ret a => trivial
  | act pt f next ih => exact ⟨⟨h.1, h'.1⟩, fun b => ih b (h.2 b) (h'.2 b)⟩

/-! ## Randomness and the clock -/

namespace Looks

variable (h : Looks φ)

include h

theorem utcNow : utcNow.Every φ :=
  Prog.Every.step (h.look fun hf => by simp_all)

theorem newUuid : newUuid.Every φ := Prog.Every.step h.fresh

theorem newText : newText.run.Every φ := by
  refine Prog.Every.step (h.look fun hf => ?_)
  split at hf <;> simp_all

theorem refreshExpiry : (refreshExpiry svc).run.Every φ := by
  refine Prog.Every.except_bind (Prog.Every.lift h.utcNow) fun now => ?_
  split <;> trivial

theorem issueAccessToken {user : UserRow} {jkt : String} :
    (issueAccessToken svc user jkt).run.Every φ := by
  have hclock : currentTimestamp.Every φ :=
    Prog.Every.step (h.look fun hf => by simp_all)
  refine Prog.Every.except_bind (Prog.Every.lift hclock) fun now => ?_
  refine Prog.Every.except_bind (Prog.Every.lift h.newUuid) fun jti => ?_
  split <;> trivial

theorem hashPasswordAsync {password : String} :
    (hashPasswordAsync svc password).run.Every φ := by
  refine Prog.Every.except_bind h.newText fun salt => ?_
  split <;> trivial

theorem verifyPasswordAsync {password phc : String} :
    (verifyPasswordAsync svc password phc).run.Every φ := by
  refine Prog.Every.except_bind
    (Prog.Every.step (h.look fun hf => ?_)) fun _ => ?_
  · split at hf <;> simp_all
  · split <;> trivial

end Looks

/-! ## Queries -/

namespace Others

variable (h : Others svc φ)

include h

theorem createUser {name hash : String} {changedAt : Option DateTime} :
    (createUser name hash changedAt).run.Every φ := by
  refine Prog.Every.except_bind (Prog.Every.lift h.newUuid) fun id => ?_
  refine Prog.Every.except_bind (Prog.Every.lift h.newUuid) fun publicId => ?_
  exact Prog.Every.except_bind (h.insertUser _) fun _ => trivial

theorem createIdentifier {id : Uuid} {kind value : String} {primary : Bool}
    {verifiedAt : Option DateTime} :
    (createIdentifier svc id kind value primary verifiedAt).run.Every φ :=
  Prog.Every.except_bind (h.insertIdentifier _) fun _ => trivial

theorem authenticateUser {kind value password ip : String} :
    (authenticateUser svc kind value password ip).run.Every φ := by
  refine Prog.Every.except_bind (every_propagate h.select) fun optUser => ?_
  refine Prog.Every.except_bind h.verifyPasswordAsync fun valid => ?_
  split
  · trivial
  · exact Prog.Every.except_bind (every_ignore (h.recordLoginAttempt _ _ _ _ _))
      fun _ => trivial
  · exact Prog.Every.except_bind (every_ignore (h.recordLoginAttempt _ _ _ _ _))
      fun _ => trivial

end Others

namespace Writes

variable (h : Writes svc φ)

include h

theorem createRefreshToken {params : CreateRefreshTokenParams} :
    (createRefreshToken params).run.Every φ :=
  Prog.Every.except_bind (h.insertToken _) fun _ => trivial

theorem issueSession {user : UserRow} {jkt : String} {ua : Option String} :
    (issueSession svc user jkt ua).run.Every φ := by
  refine Prog.Every.except_bind h.newText fun secret => ?_
  refine Prog.Every.except_bind (Prog.Every.lift h.newUuid) fun fam => ?_
  refine Prog.Every.except_bind h.refreshExpiry fun expiresAt => ?_
  refine Prog.Every.except_bind (every_propagate h.createRefreshToken)
    fun _ => ?_
  exact Prog.Every.except_bind h.issueAccessToken fun _ => trivial

theorem registerTx {params : RegisterParams} {hash : String} :
    (registerTx svc params hash).run.Every φ := by
  refine Prog.Every.except_bind (Prog.Every.lift h.utcNow) fun changedAt => ?_
  refine Prog.Every.except_bind (every_propagate h.createUser) fun user => ?_
  refine Prog.Every.except_bind (Prog.Every.lift h.utcNow) fun verifiedAt => ?_
  refine Prog.Every.except_bind (Prog.Every.bind (fun r => ?_)
    h.createIdentifier) fun _ => ?_
  · cases r <;> trivial
  refine Prog.Every.except_bind (every_propagate (h.updateLastLoginAt _))
    fun _ => ?_
  refine Prog.Every.except_bind h.newText fun secret => ?_
  refine Prog.Every.except_bind (Prog.Every.lift h.newUuid) fun fam => ?_
  refine Prog.Every.except_bind h.refreshExpiry fun expiresAt => ?_
  refine Prog.Every.except_bind (every_propagate h.createRefreshToken)
    fun _ => ?_
  exact Prog.Every.except_bind (every_ignore (h.recordLoginAttempt _ _ _ _ _))
    fun _ => trivial

theorem refreshRevoked {hash : String} :
    (refreshRevoked svc hash).run.Every φ := by
  refine Prog.Every.except_bind (every_propagate h.select) fun existing => ?_
  cases existing with
  | none => trivial
  | some existing =>
      refine Prog.Every.except_bind (Prog.Every.lift (Prog.Every.step
        (h.look fun hf => by simp_all))) fun cached => ?_
      cases cached with
      | some cached => trivial
      | none =>
          exact Prog.Every.except_bind (every_propagate
            (Prog.Every.except_bind (h.revokeWhere _ _) fun _ => trivial))
            fun _ => trivial

theorem refreshActive {hash jkt : String} {ua : Option String}
    {row : RefreshTokenRow} :
    (refreshActive svc hash jkt ua row).run.Every φ := by
  refine Prog.Every.except_bind (Prog.Every.lift h.utcNow) fun now => ?_
  split
  · trivial
  split
  · trivial
  refine Prog.Every.except_bind (every_propagate h.select) fun user => ?_
  cases user with
  | none => trivial
  | some user =>
      refine Prog.Every.except_bind h.newText fun secret => ?_
      refine Prog.Every.except_bind (every_propagate h.createRefreshToken)
        fun _ => ?_
      refine Prog.Every.except_bind h.issueAccessToken fun access => ?_
      exact Prog.Every.except_bind (Prog.Every.lift (h.graceInsert _ _))
        fun _ => trivial

theorem logout {rt : String} : (logout svc rt).run.Every φ :=
  every_propagate (Prog.Every.except_bind (h.revokeWhere _ _) fun _ => trivial)

end Writes

/-! ## Calls -/

namespace Queries

variable (h : Queries svc φ)

include h

theorem register {params : RegisterParams} :
    (register svc params).run.Every φ := by
  unfold Auth.register
  split
  · trivial
  · refine Prog.Every.except_bind h.hashPasswordAsync fun hash => ?_
    refine Prog.Every.except_bind (h.block h.registerTx) fun r => ?_
    exact Prog.Every.except_bind h.issueAccessToken fun _ => trivial

theorem login {kind value password jkt ip : String} {ua : Option String} :
    (login svc kind value password jkt ip ua).run.Every φ := by
  refine Prog.Every.except_bind h.authenticateUser fun user => ?_
  split
  · trivial
  · refine Prog.Every.except_bind (every_ignore (h.updateLastLoginAt _))
      fun _ => ?_
    refine Prog.Every.except_bind (every_ignore (h.recordLoginAttempt _ _ _ _ _))
      fun _ => ?_
    exact Prog.Every.except_bind h.issueSession fun _ => trivial

theorem refresh {rt jkt : String} {ua : Option String} :
    (refresh svc rt jkt ua).run.Every φ := by
  refine h.block (Prog.Every.except_bind (every_propagate
    (Prog.Every.except_bind (h.revokeWhere _ _) fun _ => trivial)) fun o => ?_)
  cases o with
  | none => exact h.refreshRevoked
  | some row => exact h.refreshActive

/-- **Every step of every call.** -/
theorem call {q : Call} : (q.body svc).Every φ := by
  cases q with
  | register params => exact every_map h.register
  | login kind value password jkt ip ua => exact every_map h.login
  | refresh rt jkt ua => exact every_map h.refresh
  | logout rt => exact every_map h.logout

end Queries

end DpopAuth.Ports.AuthQueries
