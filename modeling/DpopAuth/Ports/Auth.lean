import DpopAuth.Ports.Repo

/-!
# Registration, login, rotation, logout

`service/auth.rs`, statement by statement.  `Call.body` collects the four
calls; `authSystem` is any number of them in parallel, any of which may be
cancelled, while time passes, the application soft-deletes users, and the
grace cache evicts entries.
-/

namespace DpopAuth.Ports.Auth

open DpopAuth.Verified.Resumption
open DpopAuth.Verified.RowVersions
open DpopAuth.Verified.Transactions
open DpopAuth.Verified.TtlCache
open DpopAuth.Ports.Errors
open DpopAuth.Ports.Schema
open DpopAuth.Ports.Service
open DpopAuth.Ports.Repo

/-- `TOKEN_TYPE`. -/
def tokenType : String := "DPoP"

/-- `RegisterParams`. -/
structure RegisterParams where
  kind : String
  value : String
  password : String
  name : String
  jkt : String
  clientIp : String
  userAgent : Option String
  deriving DecidableEq, Repr

/-- `TokenPair`. -/
structure TokenPair where
  accessToken : String
  refreshToken : String
  tokenType : String
  expiresIn : Nat
  deriving DecidableEq, Repr

/-- `LoginOutcome`. -/
inductive LoginOutcome where
  | success (tokens : TokenPair)
  | requires2fa
  deriving DecidableEq, Repr

variable (svc : AuthService)

/-! ## The calls -/

/-- `issue_session`: a first refresh token of a new family. -/
def issueSession (user : UserRow) (jkt : String) (userAgent : Option String) :
    Svc TokenPair := do
  let refreshToken ← newRefreshSecret
  let tokenHash := svc.hashToken refreshToken
  let fam ← newUuid
  let expiresAt ← refreshExpiry svc
  let _ ← (createRefreshToken
    { userId := user.id
      tokenHash := tokenHash
      fam := fam
      dpopJkt := jkt
      userAgent := userAgent
      expiresAt := expiresAt }).propagate
  let accessToken ← issueAccessToken svc user jkt
  return { accessToken := accessToken
           refreshToken := refreshToken
           tokenType := tokenType
           expiresIn := svc.config.accessTokenTtl.secs }

/-- `authenticate_user`: one password verification in every case. -/
def authenticateUser (kind value password clientIp : String) :
    Svc UserRow := do
  let optUser ← (findUserByIdentifier svc kind value).propagate
  let hash := (optUser.map UserRow.passwordHash).getD svc.dummyHash
  let valid ← verifyPasswordAsync svc password hash
  match optUser, valid with
  | some user, true => return user
  | some _, false =>
      (recordLoginAttempt svc kind value clientIp false
        (some "wrong_password")).ignore
      throw (.error .unauthorized)
  | none, _ =>
      (recordLoginAttempt svc kind value clientIp false
        (some "user_not_found")).ignore
      throw (.error .unauthorized)

/-- The error of `register` when the identifier cannot be inserted. -/
def identifierError (kind : String) : SqlxError → Stop
  | .uniqueViolation => .error (.conflict (kind ++ " already registered"))
  | e => Stop.sqlx e

/-- The transaction of `register`: the user, the identifier, the first refresh
token and the audit record. -/
def registerTx (params : RegisterParams) (passwordHash : String) :
    Svc (TxExit Point Stop (UserRow × String)) := do
  let changedAt ← utcNow
  let user ← (createUser params.name passwordHash (some changedAt)).propagate
  let verifiedAt ← utcNow
  let _ ← ExceptT.mk ((createIdentifier svc user.id params.kind params.value
    true (some verifiedAt)).run.bind fun
      | .ok row => .ret (.ok row)
      | .error e => .ret (.error (identifierError params.kind e)))
  (updateLastLoginAt user.id).propagate
  let refreshToken ← newRefreshSecret
  let tokenHash := svc.hashToken refreshToken
  let fam ← newUuid
  let expiresAt ← refreshExpiry svc
  let _ ← (createRefreshToken
    { userId := user.id
      tokenHash := tokenHash
      fam := fam
      dpopJkt := params.jkt
      userAgent := params.userAgent
      expiresAt := expiresAt }).propagate
  (recordLoginAttempt svc params.kind params.value params.clientIp true
    none).ignore
  return .commit (.registered fam) (.ok (user, refreshToken))

/-- `register`. -/
def register (params : RegisterParams) : Svc TokenPair :=
  if !svc.config.allowRegistration then
    throw (.error .registrationDisabled)
  else do
    let passwordHash ← hashPasswordAsync svc params.password
    let (user, refreshToken) ← inTransaction (registerTx svc params passwordHash)
    let accessToken ← issueAccessToken svc user params.jkt
    return { accessToken := accessToken
             refreshToken := refreshToken
             tokenType := tokenType
             expiresIn := svc.config.accessTokenTtl.secs }

/-- `login`, on one connection and without a transaction block. -/
def login (kind value password jkt clientIp : String)
    (userAgent : Option String) : Svc LoginOutcome := do
  let user ← authenticateUser svc kind value password clientIp
  if user.totpEnabled then
    return .requires2fa
  else do
    (updateLastLoginAt user.id).ignore
    (recordLoginAttempt svc kind value clientIp true none).ignore
    let tokens ← issueSession svc user jkt userAgent
    return .success tokens

/-- The part of `refresh` that follows a lost compare-and-swap: a retry inside
the grace window, a reuse, or an unknown token. -/
def refreshRevoked (tokenHash : String) :
    Svc (TxExit Point Stop TokenPair) := do
  match ← (findRefreshTokenByHash tokenHash).propagate with
  | some existing =>
      let cacheKey := (existing.fam, tokenHash)
      match ← graceGet svc cacheKey with
      | some cached =>
          return .leave (.ok
            { accessToken := cached.accessToken
              refreshToken := cached.refreshToken
              tokenType := tokenType
              expiresIn := cached.expiresIn })
      | none =>
          (revokeRefreshTokenFamily existing.fam).propagate
          return .commit (.reuseDetected existing.fam)
            (.error (.error .unauthorized))
  | none => throw (.error .unauthorized)

/-- The replacement of a token: the new row, the access token, the grace entry,
and the commit. -/
def refreshReplace (tokenHash jkt : String) (userAgent : Option String)
    (row : RefreshTokenRow) (user : UserRow) :
    Svc (TxExit Point Stop TokenPair) := do
  let newRefreshToken ← newRefreshSecret
  let newTokenHash := svc.hashToken newRefreshToken
  let _ ← (createRefreshToken
    { userId := row.userId
      tokenHash := newTokenHash
      fam := row.fam
      dpopJkt := jkt
      userAgent := userAgent
      expiresAt := row.expiresAt }).propagate
  let accessToken ← issueAccessToken svc user jkt
  let expiresIn := svc.config.accessTokenTtl.secs
  graceInsert (row.fam, tokenHash)
    { accessToken := accessToken
      refreshToken := newRefreshToken
      expiresIn := expiresIn }
  return .commit (.rotated row.fam) (.ok
    { accessToken := accessToken
      refreshToken := newRefreshToken
      tokenType := tokenType
      expiresIn := expiresIn })

/-- The part of `refresh` that follows a won compare-and-swap: the checks,
then the replacement. -/
def refreshActive (tokenHash jkt : String) (userAgent : Option String)
    (row : RefreshTokenRow) : Svc (TxExit Point Stop TokenPair) := do
  let now ← utcNow
  if row.expiresAt ≤ now then
    throw (.error .unauthorized)
  else if row.dpopJkt ≠ jkt then
    throw (.error .unauthorized)
  else
    match ← (findUserById row.userId).propagate with
    | none => throw (.error .unauthorized)
    | some user => refreshReplace svc tokenHash jkt userAgent row user

/-- `refresh`. -/
def refresh (refreshToken jkt : String) (userAgent : Option String) :
    Svc TokenPair := do
  let tokenHash := svc.hashToken refreshToken
  inTransaction do
    match ← (revokeRefreshTokenIfActive tokenHash).propagate with
    | none => refreshRevoked svc tokenHash
    | some row => refreshActive svc tokenHash jkt userAgent row

/-- `logout`. -/
def logout (refreshToken : String) : Svc Unit := do
  let tokenHash := svc.hashToken refreshToken
  (revokeRefreshTokenByHash tokenHash).propagate

/-! ## The system -/

/-- A call of the service. -/
inductive Call where
  | register (params : RegisterParams)
  | login (kind value password jkt clientIp : String)
      (userAgent : Option String)
  | refresh (refreshToken jkt : String) (userAgent : Option String)
  | logout (refreshToken : String)
  deriving DecidableEq, Repr

/-- What a call answers. -/
inductive Reply where
  | tokens (pair : TokenPair)
  | outcome (o : LoginOutcome)
  | done
  deriving DecidableEq, Repr

/-- The program of a call. -/
def Call.body : Call → Prog Point Srv Pick (Except Stop Reply)
  | .register p => (Reply.tokens <$> Auth.register svc p).run
  | .login k v p j ip ua => (Reply.outcome <$> Auth.login svc k v p j ip ua).run
  | .refresh t j ua => (Reply.tokens <$> Auth.refresh svc t j ua).run
  | .logout t => ((fun _ => Reply.done) <$> Auth.logout svc t).run

/-- What happens without a call: time passes, the application soft-deletes a
user, the grace cache evicts an entry. -/
inductive Outside where
  | tick (d : Nat)
  | deleteUser (id : Uuid)
  | evict (key : Uuid × String)
  deriving DecidableEq, Repr

/-- Soft-delete the unlocked rows of a user. -/
def softDelete (id : Uuid) (now : DateTime) (t : Table UserRow) :
    Table UserRow :=
  t.map fun c => match c with
    | ⟨some u, none⟩ =>
        if u.id == id then ⟨some { u with deletedAt := some now }, none⟩ else c
    | _ => c

def Outside.effect : Outside → Srv → Option Srv
  | .tick d, w => some { w with clock := w.clock + d }
  | .deleteUser id, w =>
      some (w.setTable .users (softDelete id w.clock (w.db .users)))
  | .evict key, w =>
      some { w with mem := { w.mem with
        graceCache := w.mem.graceCache.evict key } }

/-- Any number of calls, interleaved step by step.  A call whose future is
dropped drops its transaction handle. -/
def authSystem : System Point Srv Pick Outside Call (Except Stop Reply) where
  body := Call.body svc
  cancel i w := w.rollbackTx i
  env := Outside.effect

abbrev AuthConfig := Config Point Srv Pick Call (Except Stop Reply)

/-- A freshly migrated database and a process that has just started. -/
def initial (clock : DateTime) : Srv where
  db _ := []
  session _ := ⟨.idle, 0, none⟩
  lastCommit _ := none
  clock := clock
  mem := ⟨[], [], []⟩

/-! ## Schedules -/

abbrev AuthEvent := Event Pick Outside Call

/-- Thread `i` takes its next `n` steps, all of which go through. -/
def steps (i n : Nat) : List AuthEvent := List.replicate n (.run i .ok)

/-- Thread `i` draws an identifier. -/
def drawUuid (i n : Nat) : AuthEvent := .run i (.draw (.uuid (sampleUuid n)))

/-- Thread `i` draws a secret. -/
def drawSecret (i n : Nat) : AuthEvent := .run i (.draw (.text (sampleSecret n)))

def sampleParams : RegisterParams where
  kind := "email"
  value := "user@example.com"
  password := "password"
  name := "User"
  jkt := "thumbprint"
  clientIp := "192.0.2.1"
  userAgent := none

/-- Thread `i` registers a user and is given secret `0`. -/
def registers (i : Nat) : List AuthEvent :=
  [.call i (.register sampleParams), .run i (.draw (.text "salt"))] ++
  steps i 2 ++ [drawUuid i 0, drawUuid i 1] ++ steps i 6 ++
  [drawSecret i 0, drawUuid i 2] ++ steps i 4 ++ steps i 1 ++ [drawUuid i 3]

/-- Thread `i` rotates secret `n` and is about to commit. -/
def rotates (i n : Nat) : List AuthEvent :=
  [.call i (.refresh (sampleSecret n) "thumbprint" none)] ++ steps i 6 ++
  [drawSecret i (n + 1)] ++ steps i 2 ++ [drawUuid i (n + 4)] ++ steps i 1

/-- The choices a schedule makes. -/
def choices (es : List AuthEvent) : List Pick :=
  es.filterMap fun
    | .run _ ch => some ch
    | _ => none

end DpopAuth.Ports.Auth
