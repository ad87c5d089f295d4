import DpopAuth.Verified.Transactions
import DpopAuth.Verified.TtlCache
import DpopAuth.Ports.Schema
import DpopAuth.Ports.Config

/-!
# The authentication service

What every call of `AuthService` shares: the code it calls that is not in the
repository (`Externals`), the memory of the process, and the monads service
and repository functions are written in.

A repository function (`Repo`) fails with a database error, a service function
(`Svc`) with a service error or by panicking.  `propagate` is the `?` operator
on a database result, `ignore` is `.ok()`.

Random values come from the surroundings, as a `Choice` of the step that asks
for them.  `newUuid` never answers with a value it has given out before; the
ledger `Memory.drawn` is kept for that purpose only.  A refresh secret may be
any string.
-/

namespace DpopAuth.Ports.Service

open DpopAuth.Verified.Resumption
open DpopAuth.Verified.Transactions
open DpopAuth.Verified.TtlCache
open DpopAuth.Ports.Errors
open DpopAuth.Ports.Schema
open DpopAuth.Ports.Token
open DpopAuth.Ports.Config

/-! ## The service -/

/-- What the service calls and the repository does not contain: SHA-256 in
hexadecimal, Unicode lower case, Argon2id (with its salt made an argument),
the JWT encoder, and the TOTP library. -/
structure Externals where
  sha256Hex : String → String
  toLowercase : String → String
  argon2Hash : (salt password : String) → Except String String
  argon2Verify : (password phc : String) → Except String Bool
  encode : Encode
  totpBuilds : (secretBase32 : String) → Bool
  totpAccepts : (secretBase32 code : String) → (unixSeconds : Nat) → Bool
  otpauthUrl : (secretBase32 issuer accountName : String) → Except String String

/-- `AuthService`, without the pool and the caches, which are state. -/
structure AuthService where
  config : DpopConfig
  dummyHash : String
  ext : Externals

/-- `hash_token`. -/
def AuthService.hashToken (svc : AuthService) (secret : String) : String :=
  svc.ext.sha256Hex secret

/-! ## State -/

/-- `ReplacementTokens`: the pair cached during the grace window. -/
structure ReplacementTokens where
  accessToken : String
  refreshToken : String
  expiresIn : Nat
  deriving DecidableEq, Repr

/-- The memory of the process.  `drawn` records which thread was given which
fresh identifier. -/
structure Memory where
  graceCache : Cache (Uuid × String) ReplacementTokens
  totpReplayCache : Cache (Uuid × String) Unit
  drawn : List (Nat × Uuid)

/-- The places in a call a theorem speaks about, with the local variables it
needs.  Every other step stands at `plain`. -/
inductive Point where
  | plain
  | revokeRefreshTokenFamily (fam : Uuid)
  | registered (fam : Uuid)
  | rotated (fam : Uuid)
  | reuseDetected (fam : Uuid)
  | activateTotp (userId : Uuid) (secret : String)
  | confirmed (userId : Uuid) (secret : String) (codes : List String)
  deriving DecidableEq, Repr

instance : Inhabited Point := ⟨.plain⟩

/-- A value drawn at random. -/
inductive Draw where
  | uuid (v : Uuid)
  | text (s : String)
  deriving DecidableEq, Repr

/-- The whole state: database, sessions, clock, memory. -/
abbrev Srv := World Point Row Memory

/-- What decides a step. -/
abbrev Pick := Choice Draw

/-- How a service call ends without an answer. -/
inductive Stop where
  | error (e : ServiceError)
  | panic
  deriving DecidableEq, Repr

/-- `From<sqlx::Error>`. -/
def SqlxError.text : SqlxError → String
  | .uniqueViolation => "duplicate key value violates unique constraint"
  | .other msg => msg

def Stop.sqlx (e : SqlxError) : Stop := .error (.internal (SqlxError.text e))

/-! ## Monads -/

/-- A repository function. -/
abbrev Repo (α : Type) := ExceptT SqlxError (Prog Point Srv Pick) α

/-- A service function. -/
abbrev Svc (α : Type) := ExceptT Stop (Prog Point Srv Pick) α

/-- A single statement as a repository function. -/
def Repo.sql {α : Type} (q : Sql Point Row Memory Draw α) : Repo α := .mk q

/-- The `?` operator on a database result. -/
def Repo.propagate {α : Type} (q : Repo α) : Svc α :=
  .mk (q.run.bind fun
    | .ok a => .ret (.ok a)
    | .error e => .ret (.error (Stop.sqlx e)))

/-- `.ok()`: a failure is dropped. -/
def Repo.ignore {α : Type} (q : Repo α) : Svc Unit :=
  .mk (q.run.bind fun _ => .ret (.ok ()))

/-- `pool.begin()` … `tx.commit()`, with a rollback wherever the transaction
value is dropped. -/
def inTransaction {α : Type} (region : Svc (TxExit Point Stop α)) : Svc α :=
  .mk (transaction Stop.sqlx region.run)

/-! ## Steps outside the database -/

/-- `Utc::now()`. -/
def utcNow : Prog Point Srv Pick DateTime :=
  .step .plain fun _ _ w => some (w.clock, w)

/-- `get_current_timestamp()`: whole seconds since the epoch. -/
def currentTimestamp : Prog Point Srv Pick Nat :=
  .step .plain fun _ _ w => some ((w.clock / 1000000).toNat, w)

/-- A fresh identifier. -/
def newUuidStep : Action Srv Pick Uuid := fun i ch w =>
  match ch with
  | .draw (.uuid v) =>
      if w.mem.drawn.any fun d => d.2 == v then none
      else some (v, { w with mem := { w.mem with drawn := (i, v) :: w.mem.drawn } })
  | _ => none

/-- `Uuid::new_v4()`, and the `uuidv7()` of a key column. -/
def newUuid : Prog Point Srv Pick Uuid := .step .plain newUuidStep

/-- A random string, unless the entropy source fails. -/
def newText : Svc String := .mk <| .step .plain fun _ ch w =>
  match ch with
  | .draw (.text s) => some (.ok s, w)
  | .fail msg => some (.error (.error (.ofDpop (.internal msg))), w)
  | _ => none

/-- `new_refresh_secret`: 32 random bytes in Base64URL. -/
def newRefreshSecret : Svc String := newText

/-- `grace_cache.get(key)`. -/
def graceGet (svc : AuthService) (key : Uuid × String) :
    Prog Point Srv Pick (Option ReplacementTokens) :=
  .step .plain fun _ _ w =>
    some (w.mem.graceCache.get svc.config.gracePeriod.asMicros w.clock key, w)

/-- `grace_cache.insert(key, value)`. -/
def graceInsert (key : Uuid × String) (value : ReplacementTokens) :
    Prog Point Srv Pick Unit :=
  .step .plain fun _ _ w => some ((), { w with
    mem := { w.mem with
      graceCache := w.mem.graceCache.insert w.clock key value } })

/-! ## Passwords -/

/-- `hash_password_async`: a random salt, then Argon2id off the runtime. -/
def hashPasswordAsync (svc : AuthService) (password : String) : Svc String := do
  let salt ← newText
  match svc.ext.argon2Hash salt password with
  | .ok phc => return phc
  | .error e => throw (.error (.internal e))

/-- `verify_password_async`: the blocking task may fail to finish. -/
def verifyPasswordAsync (svc : AuthService) (password phc : String) :
    Svc Bool := do
  ExceptT.mk <| Prog.step .plain fun _ ch (w : Srv) =>
    match ch with
    | .fail msg => some (.error (.error (.internal msg)), w)
    | _ => some (.ok (), w)
  match svc.ext.argon2Verify password phc with
  | .ok valid => return valid
  | .error e => throw (.error (.internal e))

/-! ## Time -/

/-- `as i64` of a `u64`. -/
def castI64 (n : Nat) : Int := (n : Int).bmod (2 ^ 64)

/-- The largest number of seconds `chrono::Duration` holds. -/
def chronoMaxSeconds : Int := 9223372036854775

/-- `DateTime::<Utc>::MIN_UTC` and `MAX_UTC`, in microseconds. -/
def chronoMinUtc : DateTime := -8334601228800 * 1000000

def chronoMaxUtc : DateTime := 8210266876799 * 1000000 + 999999

/-- `now + chrono::Duration::seconds(n)`; `none` where `chrono` panics. -/
def addSeconds (now : DateTime) (n : Int) : Option DateTime :=
  if n < -chronoMaxSeconds ∨ chronoMaxSeconds < n then none
  else if now + n * 1000000 < chronoMinUtc ∨ chronoMaxUtc < now + n * 1000000
  then none
  else some (now + n * 1000000)

/-- `refresh_expiry`. -/
def refreshExpiry (svc : AuthService) : Svc DateTime := do
  let ttl := castI64 svc.config.refreshTokenTtl.secs
  let now ← utcNow
  match addSeconds now ttl with
  | some expiry => return expiry
  | none => throw .panic

/-! ## Access tokens -/

/-- The hexadecimal digits of a number, padded with zeros to `width`. -/
def hexDigits (width n : Nat) : String :=
  let digits := Nat.toDigits 16 n
  String.ofList (List.replicate (width - digits.length) '0' ++ digits)

/-- `Uuid::to_string`: 8-4-4-4-12. -/
def uuidText (v : Uuid) : String :=
  String.intercalate "-"
    [hexDigits 8 (v / 2 ^ 96), hexDigits 4 (v / 2 ^ 80 % 2 ^ 16),
      hexDigits 4 (v / 2 ^ 64 % 2 ^ 16), hexDigits 4 (v / 2 ^ 48 % 2 ^ 16),
      hexDigits 12 (v % 2 ^ 48)]

/-- `AuthService::issue_access_token`. -/
def issueAccessToken (svc : AuthService) (user : UserRow) (jkt : String) :
    Svc String := do
  let extra := [("name", Json.str user.name)]
  let now ← currentTimestamp
  let jti ← newUuid
  match Token.issueAccessToken svc.ext.encode now (uuidText jti)
      svc.config.signer svc.config.issuer svc.config.audience
      svc.config.accessTokenTtl.secs (uuidText user.publicId) jkt extra with
  | .ok token => return token
  | .error e => throw (.error (.internal e.text))

/-- Signing an access token for the key `jkt` succeeds. -/
def Signs (svc : AuthService) (jkt : String) : Prop :=
  ∀ now jti subject name, ∃ token,
    Token.issueAccessToken svc.ext.encode now jti svc.config.signer
      svc.config.issuer svc.config.audience svc.config.accessTokenTtl.secs
      subject jkt [("name", .str name)] = .ok token

/-! ## A service to run -/

/-- A version 4 identifier whose random bits spell `n`. -/
def sampleUuid (n : Nat) : Uuid := 0x40008000000000000000 + n

/-- 32 equal bytes in Base64URL. -/
def sampleSecret : Nat → String
  | 0 => "AAAAAAAAAAAAAAAAAAAAAAAAAAAAAAAAAAAAAAAAAAA"
  | 1 => "AQEBAQEBAQEBAQEBAQEBAQEBAQEBAQEBAQEBAQEBAQE"
  | _ => "AgICAgICAgICAgICAgICAgICAgICAgICAgICAgICAgI"

/-- The default configuration. -/
def sampleConfig : DpopConfig :=
  (DpopConfigBuilder.build
    { publicUrl := some "https://auth.example.com"
      signer := some (.symmetric ⟨.hmac, "secret"⟩ ⟨.hmac, "secret"⟩)
      }).toOption.get rfl

/-- SHA-256 of the sample secrets, and stand-ins for the rest. -/
def sampleExternals : Externals where
  sha256Hex s :=
    if s = sampleSecret 0 then
      "0f007385b6f9d4b7eeb2748605afe1a984a0a3bfa3f014d09e2a784ce9e5cd1a"
    else if s = sampleSecret 1 then
      "56d5fa7333f6d747db42c239407e5da4c32f4c79f35d092b134fd35a402d9c5c"
    else if s = sampleSecret 2 then
      "6c1d63bbdab437c54368cbbd8886a886a79ad977297e265eebf1f5f5f01533b9"
    else s
  toLowercase := id
  argon2Hash salt password := .ok (salt ++ "$" ++ password)
  argon2Verify _ _ := .ok true
  encode _ claims _ := .ok claims.jti
  totpBuilds _ := true
  totpAccepts _ _ _ := true
  otpauthUrl secret _ _ := .ok secret

def sampleService : AuthService where
  config := sampleConfig
  dummyHash := "$argon2id$"
  ext := sampleExternals

end DpopAuth.Ports.Service
