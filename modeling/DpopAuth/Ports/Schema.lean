import DpopAuth.Verified.Transactions

/-!
# The `dpop_*` tables

The rows of the PostgreSQL schema.  A `Uuid` is the number its 128 bits spell
and a `DateTime` counts microseconds, the resolution of `TIMESTAMPTZ`.

The surrogate keys and creation stamps that no query of the service reads
(`id` and `created_at` of tokens, identifiers, codes and login attempts,
`updated_at`) are left out.  A foreign key never fails: no query deletes a
user's row, and a row that refers to a user is inserted only by a transaction
that read or inserted that user.
-/

namespace DpopAuth.Ports.Schema

open DpopAuth.Verified.RowVersions
open DpopAuth.Verified.Transactions

abbrev Uuid := Nat

abbrev DateTime := Int

/-- `dpop_users`. -/
structure UserRow where
  id : Uuid
  publicId : Uuid
  passwordHash : String
  name : String
  passwordChangedAt : Option DateTime
  totpSecret : Option String
  totpEnabled : Bool
  totpEnabledAt : Option DateTime
  totpPendingSecret : Option String
  totpPendingAt : Option DateTime
  lastLoginAt : Option DateTime
  deletedAt : Option DateTime
  deriving DecidableEq, Repr

/-- `dpop_identifiers`. -/
structure IdentifierRow where
  userId : Uuid
  kind : String
  value : String
  isPrimary : Bool
  verifiedAt : Option DateTime
  deletedAt : Option DateTime
  deriving DecidableEq, Repr

/-- `dpop_refresh_tokens`. -/
structure RefreshTokenRow where
  userId : Uuid
  tokenHash : String
  fam : Uuid
  dpopJkt : String
  userAgent : Option String
  expiresAt : DateTime
  revokedAt : Option DateTime
  deriving DecidableEq, Repr

/-- `SET revoked_at = now()`. -/
def RefreshTokenRow.revoke (now : DateTime) (r : RefreshTokenRow) :
    RefreshTokenRow := { r with revokedAt := some now }

/-- `dpop_login_attempts`. -/
structure LoginAttemptRow where
  identifierKind : String
  identifierValue : String
  ipAddress : String
  success : Bool
  failureReason : Option String
  deriving DecidableEq, Repr

/-- `dpop_recovery_codes`. -/
structure RecoveryCodeRow where
  userId : Uuid
  codeHash : String
  usedAt : Option DateTime
  deriving DecidableEq, Repr

/-- The tables the service writes. -/
inductive Tbl where
  | users
  | identifiers
  | refreshTokens
  | loginAttempts
  | recoveryCodes
  deriving DecidableEq, Repr

/-- The rows of a table. -/
abbrev Row : Tbl → Type
  | .users => UserRow
  | .identifiers => IdentifierRow
  | .refreshTokens => RefreshTokenRow
  | .loginAttempts => LoginAttemptRow
  | .recoveryCodes => RecoveryCodeRow

/-- A database. -/
abbrev Db := ∀ t, Table (Row t)

/-! ## Unique keys -/

/-- `token_hash TEXT NOT NULL UNIQUE`. -/
def RefreshTokenRow.dup (r v : RefreshTokenRow) : Bool :=
  r.tokenHash == v.tokenHash

/-- `id` and `public_id` of a user. -/
def UserRow.dup (r v : UserRow) : Bool :=
  r.id == v.id || r.publicId == v.publicId

/-- `uq_dpop_identifiers_kind_value` and `uq_dpop_identifiers_user_primary`. -/
def IdentifierRow.dup (lower : String → String) (r v : IdentifierRow) : Bool :=
  r.deletedAt.isNone && v.deletedAt.isNone &&
    (r.kind == v.kind && lower r.value == lower v.value ||
      r.isPrimary && v.isPrimary && r.userId == v.userId && r.kind == v.kind)

/-- `uq_dpop_rc_user_active_code`. -/
def RecoveryCodeRow.dup (r v : RecoveryCodeRow) : Bool :=
  r.usedAt.isNone && v.usedAt.isNone && r.userId == v.userId &&
    r.codeHash == v.codeHash

/-- The audit log has no unique key. -/
def LoginAttemptRow.dup (_ _ : LoginAttemptRow) : Bool := false

end DpopAuth.Ports.Schema
