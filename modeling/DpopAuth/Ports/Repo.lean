import DpopAuth.Ports.Service

/-!
# Repository queries

`store/repo`: one definition for each query of users, identifiers, refresh
tokens and login attempts.  The four queries that revoke refresh tokens are
one `UPDATE` with different conditions, `revokeWhere`.
-/

namespace DpopAuth.Ports.Repo

open DpopAuth.Verified.Resumption
open DpopAuth.Verified.Transactions
open DpopAuth.Ports.Schema
open DpopAuth.Ports.Service

/-! ## `dpop_refresh_tokens` -/

/-- `CreateRefreshTokenParams`. -/
structure CreateRefreshTokenParams where
  userId : Uuid
  tokenHash : String
  fam : Uuid
  dpopJkt : String
  userAgent : Option String
  expiresAt : DateTime
  deriving DecidableEq, Repr

/-- The row the `INSERT` writes: not revoked. -/
def CreateRefreshTokenParams.row (p : CreateRefreshTokenParams) :
    RefreshTokenRow :=
  { userId := p.userId
    tokenHash := p.tokenHash
    fam := p.fam
    dpopJkt := p.dpopJkt
    userAgent := p.userAgent
    expiresAt := p.expiresAt
    revokedAt := none }

def createRefreshToken (params : CreateRefreshTokenParams) :
    Repo RefreshTokenRow := do
  Repo.sql <| insert .plain .refreshTokens RefreshTokenRow.dup
    fun _ => [params.row]
  return params.row

def findRefreshTokenByHash (tokenHash : String) :
    Repo (Option RefreshTokenRow) :=
  Repo.sql <| select .plain fun _ db =>
    (db .refreshTokens).find? fun r => r.tokenHash == tokenHash

/-- `UPDATE … SET revoked_at = now() WHERE p AND revoked_at IS NULL
RETURNING *`. -/
def revokeWhere (pt : Point) (p : RefreshTokenRow → Bool) :
    Repo (List RefreshTokenRow) :=
  Repo.sql <| update pt Tbl.refreshTokens
    (fun _ (r : RefreshTokenRow) => p r && r.revokedAt.isNone)
    RefreshTokenRow.revoke

def revokeRefreshTokenFamily (fam : Uuid) : Repo Unit := do
  let _ ← revokeWhere (.revokeRefreshTokenFamily fam) fun r => r.fam == fam

def revokeRefreshTokenIfActive (tokenHash : String) :
    Repo (Option RefreshTokenRow) := do
  let rows ← revokeWhere .plain fun r => r.tokenHash == tokenHash
  return rows.head?

def revokeRefreshTokenByHash (tokenHash : String) : Repo Unit := do
  let _ ← revokeWhere .plain fun r => r.tokenHash == tokenHash

/-! ## `dpop_users` and `dpop_identifiers` -/

/-- The defaults of the columns are those of the migration. -/
def createUser (name passwordHash : String)
    (passwordChangedAt : Option DateTime) : Repo UserRow := do
  let id ← newUuid
  let publicId ← newUuid
  let row : UserRow :=
    { id := id
      publicId := publicId
      passwordHash := passwordHash
      name := name
      passwordChangedAt := passwordChangedAt
      totpSecret := none
      totpEnabled := false
      totpEnabledAt := none
      totpPendingSecret := none
      totpPendingAt := none
      lastLoginAt := none
      deletedAt := none }
  Repo.sql <| insert .plain .users UserRow.dup fun _ => [row]
  return row

def findUserById (id : Uuid) : Repo (Option UserRow) :=
  Repo.sql <| select .plain fun _ db =>
    (db .users).find? fun u => u.id == id && u.deletedAt.isNone

def updateLastLoginAt (userId : Uuid) : Repo Unit := do
  let _ ← Repo.sql <| update .plain Tbl.users
    (fun _ (u : UserRow) => u.id == userId)
    fun now (u : UserRow) => { u with lastLoginAt := some now }

/-- `value` is stored in lower case. -/
def createIdentifier (svc : AuthService) (userId : Uuid) (kind value : String)
    (isPrimary : Bool) (verifiedAt : Option DateTime) :
    Repo IdentifierRow := do
  let row : IdentifierRow :=
    { userId := userId
      kind := kind
      value := svc.ext.toLowercase value
      isPrimary := isPrimary
      verifiedAt := verifiedAt
      deletedAt := none }
  Repo.sql <| insert .plain .identifiers
    (IdentifierRow.dup svc.ext.toLowercase) fun _ => [row]
  return row

/-- The join of users and identifiers, both not deleted. -/
def findUserByIdentifier (svc : AuthService) (kind value : String) :
    Repo (Option UserRow) :=
  Repo.sql <| select .plain fun _ db =>
    (db .identifiers).findSome? fun i =>
      if i.kind == kind &&
          svc.ext.toLowercase i.value == svc.ext.toLowercase value &&
          i.deletedAt.isNone then
        (db .users).find? fun u => u.id == i.userId && u.deletedAt.isNone
      else none

/-! ## `dpop_login_attempts` -/

def recordLoginAttempt (svc : AuthService) (kind value ipAddress : String)
    (success : Bool) (failureReason : Option String) : Repo Unit :=
  Repo.sql <| insert .plain .loginAttempts LoginAttemptRow.dup fun _ =>
    [{ identifierKind := kind
       identifierValue := svc.ext.toLowercase value
       ipAddress := ipAddress
       success := success
       failureReason := failureReason }]

end DpopAuth.Ports.Repo
