import DpopAuth.Verified.Transactions
import DpopAuth.Verified.TtlCache
import DpopAuth.Ports.Schema
import DpopAuth.Ports.Errors

/-!
# Two-factor authentication

`crypto/totp.rs`, `cache/totp.rs`, `store/repo/totp.rs` and `service/totp.rs`,
statement by statement, over the two tables they write.

Three things are recorded for observation only; no branch depends on them.
A user's row counts the enrolments that have begun, and a recovery code's row
names the enrolment it was issued for and the step-up that used it
(`TotpUser.enrolments`, `IssuedCode.enrolment`, `IssuedCode.usedBy`).  The
memory numbers the step-ups and lists what they decided (`TotpMemory.stepUps`,
`TotpMemory.log`).  `TotpMemory.issued` keeps random recovery codes apart, with
their hashes, and remembers the thread that drew them.
-/

namespace DpopAuth.Ports.TwoFactor

open DpopAuth.Verified.Resumption
open DpopAuth.Verified.RowVersions
open DpopAuth.Verified.Transactions
open DpopAuth.Verified.TtlCache
open DpopAuth.Ports.Errors
open DpopAuth.Ports.Schema

/-! ## TOTP and recovery codes -/

/-- Unicode `White_Space`, which `str::trim` strips. -/
def isWhitespace (c : Char) : Bool :=
  let n := c.toNat
  (9 ≤ n && n ≤ 13) || n == 0x20 || n == 0x85 || n == 0xA0 || n == 0x1680 ||
    (0x2000 ≤ n && n ≤ 0x200A) || n == 0x2028 || n == 0x2029 || n == 0x202F ||
    n == 0x205F || n == 0x3000

/-- `str::trim`. -/
def trim (s : String) : String :=
  String.ofList
    ((s.toList.dropWhile isWhitespace).reverse.dropWhile isWhitespace).reverse

/-- A TOTP validator: the Base32 spelling of its decoded secret, and the
metadata of its URL. -/
structure Totp where
  secret : String
  issuer : Option String
  accountName : String
  deriving DecidableEq, Repr

/-- SHA-256 in hexadecimal, Unicode lower case, and `totp-rs`: decoding a
Base32 secret (and spelling it out again), the checks of the builder, the URL,
and `check_current`. -/
structure TotpExternals where
  sha256Hex : String → String
  toLowercase : String → String
  tryFromBase32 : String → Except String String
  build : Totp → Except String Unit
  toUrl : Totp → Except String String
  checkCurrent : (secret code : String) → (unixSeconds : Nat) → Bool

/-- `TotpSetup`. -/
structure TotpSetup where
  secretBase32 : String
  otpauthUrl : String
  deriving DecidableEq, Repr

variable (ext : TotpExternals)

/-- `build_totp`: 6 digits, one step of skew, steps of 30 s. -/
def buildTotp (secretBase32 : String) (issuer accountName : Option String) :
    Except DpopError Totp :=
  match ext.tryFromBase32 secretBase32 with
  | .error e => .error (.internal ("invalid TOTP secret: " ++ e))
  | .ok secret =>
      let totp : Totp := ⟨secret, issuer, accountName.getD ""⟩
      match ext.build totp with
      | .error e => .error (.internal ("failed to build TOTP: " ++ e))
      | .ok () => .ok totp

/-- `setup_from_secret`. -/
def setupFromSecret (secretBase32 issuer accountName : String) :
    Except DpopError TotpSetup :=
  match buildTotp ext secretBase32 (some issuer) (some accountName) with
  | .error e => .error e
  | .ok totp =>
      match ext.toUrl totp with
      | .error e => .error (.internal ("failed to build otpauth URL: " ++ e))
      | .ok url => .ok ⟨totp.secret, url⟩

/-- `verify_code`, at a given second. -/
def verifyCode (secretBase32 code : String) (unixSeconds : Nat) : Bool :=
  match buildTotp ext secretBase32 none none with
  | .ok totp => ext.checkCurrent totp.secret (trim code) unixSeconds
  | .error _ => false

/-- `hex::encode` of one byte. -/
def hexByte (b : Nat) : List Char := [Nat.digitChar (b / 16), Nat.digitChar (b % 16)]

/-- Ten bytes as `XXXXX-XXXXX-XXXXX-XXXXX`. -/
def formatRecoveryCode (chunk : List Nat) : String :=
  let hex := chunk.flatMap hexByte
  String.ofList (hex.take 5 ++ '-' :: (hex.drop 5).take 5 ++
    '-' :: (hex.drop 10).take 5 ++ '-' :: (hex.drop 15).take 5)

/-- The codes `generate_recovery_codes(count)` makes of its random bytes. -/
def recoveryCodes (count : Nat) (bytes : List Nat) : List String :=
  (List.range count).map fun k => formatRecoveryCode ((bytes.drop (10 * k)).take 10)

/-- `hash_recovery_code`. -/
def hashRecoveryCode (code : String) : String :=
  ext.sha256Hex (ext.toLowercase (trim code))

def isHexDigit (c : Char) : Bool :=
  ('0' ≤ c && c ≤ '9') || ('a' ≤ c && c ≤ 'f') || ('A' ≤ c && c ≤ 'F')

/-- `is_recovery_code`. -/
def isRecoveryCode (code : String) : Bool :=
  let code := trim code
  code.utf8ByteSize == 23 &&
    let groups := code.toList.splitOn '-'
    groups.length == 4 &&
      groups.all fun g =>
        (String.ofList g).utf8ByteSize == 5 && g.all isHexDigit

/-! ## State -/

/-- A row of `dpop_users`; `enrolments` is auxiliary. -/
structure TotpUser extends UserRow where
  enrolments : Nat
  deriving DecidableEq, Repr

/-- A row of `dpop_recovery_codes`; `enrolment` and `usedBy` are auxiliary. -/
structure IssuedCode extends RecoveryCodeRow where
  enrolment : Nat
  usedBy : Option Nat
  deriving DecidableEq, Repr

inductive TotpTbl where
  | users
  | recoveryCodes
  deriving DecidableEq, Repr

abbrev TotpRow : TotpTbl → Type
  | .users => TotpUser
  | .recoveryCodes => IssuedCode

/-- What a step-up was accepted for. -/
inductive Proof where
  | totp (secret code : String)
  | recovery (hash : String)
  deriving DecidableEq, Repr

/-- An accepted step-up: its number, the user, the code, and the enrolment the
code belongs to. -/
structure Acceptance where
  number : Nat
  userId : Uuid
  proof : Proof
  enrolment : Nat
  deriving DecidableEq, Repr

/-- What a step-up has decided, and when. -/
inductive Note where
  | accepted (a : Acceptance) (time : DateTime)
  | replayed (userId : Uuid) (code : String) (time : DateTime)
  | missingSecret (userId : Uuid)
  deriving DecidableEq, Repr

/-- The memory: the replay cache, the thread of each step-up, the hashes of the
recovery codes generated so far with the thread that generated them, and the
decisions, newest first. -/
structure TotpMemory where
  replayCache : Cache (Uuid × String) Unit
  stepUps : List Nat
  issued : List (Nat × String)
  log : List Note

/-- The places a theorem speaks about. -/
inductive Place where
  | plain
  | setPendingTotpSecret (userId : Uuid) (secret : String)
  | activateTotp (userId : Uuid) (secret : String)
  | disableTotp (userId : Uuid) (a : Acceptance)
  | confirmed (userId : Uuid) (secret : String) (codes : List String)
  | disabled (userId : Uuid) (a : Acceptance)
  deriving DecidableEq, Repr

instance : Inhabited Place := ⟨.plain⟩

/-- A random TOTP secret, or random bytes. -/
inductive Entropy where
  | secret (base32 : String)
  | bytes (bs : List Nat)
  deriving DecidableEq, Repr

abbrev TotpSrv := World Place TotpRow TotpMemory

abbrev Chance := Choice Entropy

abbrev TotpProg := Prog Place TotpSrv Chance

abbrev Query (α : Type) := ExceptT SqlxError TotpProg α

abbrev Service (α : Type) := ExceptT ServiceError TotpProg α

def sql {α : Type} (q : Sql Place TotpRow TotpMemory Entropy α) : Query α := .mk q

/-- `From<sqlx::Error>`. -/
def ServiceError.ofSqlx : SqlxError → ServiceError
  | .uniqueViolation =>
      .internal "duplicate key value violates unique constraint"
  | .other msg => .internal msg

/-- The `?` operator on a database result. -/
def Query.propagate {α : Type} (q : Query α) : Service α :=
  .mk (q.run.bind fun
    | .ok a => .ret (.ok a)
    | .error e => .ret (.error (ServiceError.ofSqlx e)))

/-- `pool.begin()` … `tx.commit()`. -/
def inTransaction {α : Type} (region : Service (TxExit Place ServiceError α)) :
    Service α := .mk (transaction ServiceError.ofSqlx region.run)

/-- Whole seconds since the epoch. -/
def unixSeconds (w : TotpSrv) : Nat := (w.clock / 1000000).toNat

/-! ## Queries -/

def findUserById (id : Uuid) : Query (Option TotpUser) :=
  sql <| select .plain fun _ db =>
    (db .users).find? fun u => u.id == id && u.deletedAt.isNone

def setPendingTotpSecret (userId : Uuid) (secret : String) : Query Unit := do
  let _ ← sql <| update (.setPendingTotpSecret userId secret) TotpTbl.users
    (fun _ (u : TotpUser) =>
      u.id == userId && !u.totpEnabled && u.deletedAt.isNone)
    fun now (u : TotpUser) =>
      { u with totpPendingSecret := some secret, totpPendingAt := some now }

/-- `INTERVAL '10 minutes'`. -/
def draftTtl : Int := 600 * 1000000

def getPendingTotpSecret (userId : Uuid) : Query (Option String) :=
  sql <| select .plain fun now db =>
    ((db .users).find? fun u =>
      u.id == userId && !u.totpEnabled &&
        u.totpPendingAt.any (fun t => now - draftTtl < t) &&
        u.deletedAt.isNone).bind fun u => u.totpPendingSecret

/-- `secret`, for the place only: the query names the user alone.  The caller
drops the rows; the auxiliary number of the enrolment is read off them. -/
def activateTotp (userId : Uuid) (secret : String) : Query Nat := do
  let rows ← sql <| update (.activateTotp userId secret) TotpTbl.users
    (fun _ (u : TotpUser) =>
      u.id == userId && u.totpPendingSecret.isSome && u.deletedAt.isNone)
    fun now (u : TotpUser) =>
      { u with
        totpSecret := u.totpPendingSecret
        totpEnabled := true
        totpEnabledAt := some now
        totpPendingSecret := none
        totpPendingAt := none
        enrolments := u.enrolments + 1 }
  return (rows.head?.map TotpUser.enrolments).getD 0

/-- `a`, for the place only. -/
def disableTotp (userId : Uuid) (a : Acceptance) : Query Unit := do
  let _ ← sql <| update (.disableTotp userId a) TotpTbl.users
    (fun _ (u : TotpUser) =>
      u.id == userId && u.totpEnabled && u.deletedAt.isNone)
    fun _ (u : TotpUser) =>
      { u with
        totpSecret := none
        totpEnabled := false
        totpEnabledAt := none
        totpPendingSecret := none
        totpPendingAt := none }

/-- `uq_dpop_rc_user_active_code`. -/
def IssuedCode.dup (r v : IssuedCode) : Bool :=
  r.toRecoveryCodeRow.dup v.toRecoveryCodeRow

/-- The rows `create_recovery_codes` inserts. -/
def newCodes (userId : Uuid) (hashes : List String) (enrolment : Nat) :
    List IssuedCode :=
  hashes.map fun h =>
    { userId := userId
      codeHash := h
      usedAt := none
      enrolment := enrolment
      usedBy := none }

def createRecoveryCodes (userId : Uuid) (hashes : List String)
    (enrolment : Nat) : Query Unit :=
  if hashes.isEmpty then pure ()
  else sql <| insert .plain .recoveryCodes IssuedCode.dup
    fun _ => newCodes userId hashes enrolment

/-- The compare-and-swap that burns a code. -/
def consumeRecoveryCode (number : Nat) (userId : Uuid) (codeHash : String) :
    Query (Option IssuedCode) := do
  let rows ← sql <| update .plain TotpTbl.recoveryCodes
    (fun _ (r : IssuedCode) =>
      r.userId == userId && r.codeHash == codeHash && r.usedAt.isNone)
    fun now (r : IssuedCode) =>
      { r with usedAt := some now, usedBy := some number }
  return rows.head?

def invalidateRecoveryCodesForUser (userId : Uuid) : Query Unit := do
  let _ ← sql <| update .plain TotpTbl.recoveryCodes
    (fun _ (r : IssuedCode) => r.userId == userId && r.usedAt.isNone)
    fun now (r : IssuedCode) => { r with usedAt := some now }

def cleanupExpiredDrafts : Query Unit := do
  let _ ← sql <| update .plain TotpTbl.users
    (fun now (u : TotpUser) => u.totpPendingAt.any fun t => t < now - draftTtl)
    fun _ (u : TotpUser) =>
      { u with totpPendingSecret := none, totpPendingAt := none }

/-! ## Randomness and the clock -/

/-- `generate_setup`: a random secret, then `setup_from_secret`. -/
def generateSetup (issuer accountName : String) :
    Service (Except DpopError TotpSetup) :=
  .mk <| .step .plain fun _ ch w =>
    match ch with
    | .draw (.secret s) =>
        some (.ok (setupFromSecret ext s issuer accountName), w)
    | _ => none

/-- The step of `generate_recovery_codes(10)`, unless the entropy source fails:
random codes, none of which has the hash of another one or of an earlier
one. -/
def issueStep : Action TotpSrv Chance (Except ServiceError (List String)) :=
  fun i ch w =>
    match ch with
    | .draw (.bytes bs) =>
        let codes := recoveryCodes 10 bs
        let hashes := codes.map (hashRecoveryCode ext)
        if bs.length = 100 ∧ (∀ b ∈ bs, b < 256) ∧ hashes.Nodup ∧
            ∀ h ∈ hashes, h ∉ w.mem.issued.map Prod.snd then
          some (.ok codes, { w with mem := { w.mem with
            issued := hashes.map (Prod.mk i) ++ w.mem.issued } })
        else none
    | .fail msg =>
        some (.error (.internal (DpopError.internal msg).text), w)
    | _ => none

def generateRecoveryCodes : Service (List String) :=
  .mk (.step .plain (issueStep ext))

/-- `verify_code` against the current time. -/
def verifyCodeNow (secret code : String) : TotpProg Bool :=
  .step .plain fun _ _ w => some (verifyCode ext secret code (unixSeconds w), w)

/-- The next number of a step-up. -/
def numberStep : Action TotpSrv Chance Nat := fun i _ w =>
  some (w.mem.stepUps.length, { w with
    mem := { w.mem with stepUps := w.mem.stepUps ++ [i] } })

def stepUpNumber : TotpProg Nat := .step .plain numberStep

/-- Write down a decision and the time. -/
def noteStep (n : DateTime → Note) : Action TotpSrv Chance Unit := fun _ _ w =>
  some ((), { w with mem := { w.mem with log := n w.clock :: w.mem.log } })

def note (n : DateTime → Note) : TotpProg Unit := .step .plain (noteStep n)

/-- `TotpCheck`. -/
inductive TotpCheck where
  | valid
  | invalid
  | replayed
  deriving DecidableEq, Repr

/-- `TOTP_REPLAY_TTL`, 90 s. -/
def totpReplayTtl : Int := 90 * 1000000

/-- What `verify_totp_once` answers, and the memory then. -/
def checkTotp (number : Nat) (user : TotpUser) (secret code : String)
    (w : TotpSrv) : TotpCheck × TotpMemory :=
  if !verifyCode ext secret code (unixSeconds w) then (.invalid, w.mem)
  else
    let entry := w.mem.replayCache.orInsert totpReplayTtl w.clock
      (user.id, trim code) ()
    if entry.1 then
      (.valid, { w.mem with
        replayCache := entry.2
        log := .accepted ⟨number, user.id, .totp secret (trim code),
          user.enrolments⟩ w.clock :: w.mem.log })
    else
      (.replayed, { w.mem with
        replayCache := entry.2
        log := .replayed user.id (trim code) w.clock :: w.mem.log })

/-- The step of `verify_totp_once`: the clock is read and the cache entry made
at one moment. -/
def checkStep (number : Nat) (user : TotpUser) (secret code : String) :
    Action TotpSrv Chance TotpCheck := fun _ _ w =>
  some ((checkTotp ext number user secret code w).1,
    { w with mem := (checkTotp ext number user secret code w).2 })

/-- `verify_totp_once`. -/
def verifyTotpOnce (number : Nat) (user : TotpUser) (secret code : String) :
    TotpProg TotpCheck := .step .plain (checkStep ext number user secret code)

/-! ## The service functions -/

/-- `setup_2fa`. -/
def setup2fa (userId : Uuid) (issuer accountName : String) :
    Service TotpSetup := do
  match ← (findUserById userId).propagate with
  | none => throw .unauthorized
  | some user =>
      if user.totpEnabled then
        throw (.conflict "2FA already enabled")
      else
        match ← (getPendingTotpSecret userId).propagate with
        | some existing =>
            match setupFromSecret ext existing issuer accountName with
            | .ok setup => return setup
            | .error e => throw (.internal e.text)
        | none =>
            match ← generateSetup ext issuer accountName with
            | .error e => throw (.internal e.text)
            | .ok setup =>
                (setPendingTotpSecret userId setup.secretBase32).propagate
                return setup

/-- The transaction of `confirm_2fa`. -/
def confirmTx (userId : Uuid) (secret : String) (codes : List String) :
    Service (TxExit Place ServiceError (List String)) := do
  let enrolment ← (activateTotp userId secret).propagate
  (invalidateRecoveryCodesForUser userId).propagate
  (createRecoveryCodes userId (codes.map (hashRecoveryCode ext))
    enrolment).propagate
  return .commit (.confirmed userId secret codes) (.ok codes)

/-- `confirm_2fa`. -/
def confirm2fa (userId : Uuid) (code : String) : Service (List String) := do
  match ← (findUserById userId).propagate with
  | none => throw .unauthorized
  | some user =>
      if user.totpEnabled then
        throw (.conflict "2FA already enabled")
      else
        match ← (getPendingTotpSecret userId).propagate with
        | none => throw (.conflict "setup expired, run setup_2fa again")
        | some secret =>
            let valid ← verifyCodeNow ext secret code
            if !valid then
              throw .unauthorized
            else do
              let codes ← generateRecoveryCodes ext
              inTransaction (confirmTx ext user.id secret codes)

/-- `SecondFactorKind`. -/
inductive SecondFactorKind where
  | totp
  | recoveryCode
  deriving DecidableEq, Repr

def Proof.kind : Proof → SecondFactorKind
  | .totp _ _ => .totp
  | .recovery _ => .recoveryCode

/-- The recovery code branch of `verify_2fa_code`. -/
def stepUpRecovery (number : Nat) (user : TotpUser) (code : String) :
    Service Acceptance := do
  let hash := hashRecoveryCode ext code
  match ← (consumeRecoveryCode number user.id hash).propagate with
  | some row =>
      let a : Acceptance := ⟨number, user.id, .recovery hash, row.enrolment⟩
      note (.accepted a)
      return a
  | none => throw .unauthorized

/-- The TOTP branch of `verify_2fa_code`. -/
def stepUpTotp (number : Nat) (user : TotpUser) (code : String) :
    Service Acceptance := do
  match user.totpSecret with
  | none =>
      note fun _ => .missingSecret user.id
      throw .unauthorized
  | some secret =>
      match ← verifyTotpOnce ext number user secret code with
      | .valid =>
          return ⟨number, user.id, .totp secret (trim code), user.enrolments⟩
      | .invalid => throw .unauthorized
      | .replayed => throw .unauthorized

/-- `verify_2fa_code`, with the accepted step-up for an answer. -/
def stepUp (userId : Uuid) (code : String) : Service Acceptance := do
  match ← (findUserById userId).propagate with
  | none => throw .unauthorized
  | some user =>
      if !user.totpEnabled then
        throw (.conflict "2FA is not enabled")
      else do
        let number ← stepUpNumber
        if isRecoveryCode code then
          stepUpRecovery ext number user code
        else
          stepUpTotp ext number user code

/-- `verify_2fa_code`. -/
def verify2faCode (userId : Uuid) (code : String) : Service SecondFactorKind :=
  (fun a => a.proof.kind) <$> stepUp ext userId code

/-- The transaction of `disable_2fa`. -/
def disableTx (userId : Uuid) (a : Acceptance) :
    Service (TxExit Place ServiceError Unit) := do
  (disableTotp userId a).propagate
  (invalidateRecoveryCodesForUser userId).propagate
  return .commit (.disabled userId a) (.ok ())

/-- `disable_2fa`. -/
def disable2fa (userId : Uuid) (code : String) : Service Unit := do
  match ← (findUserById userId).propagate with
  | none => throw .unauthorized
  | some user =>
      if !user.totpEnabled then
        throw (.conflict "2FA is not enabled")
      else do
        let a ← stepUp ext userId code
        inTransaction (disableTx user.id a)

/-! ## The system -/

/-- A call of the service, or a run of the cleanup worker. -/
inductive TotpCall where
  | setup2fa (userId : Uuid) (issuer accountName : String)
  | confirm2fa (userId : Uuid) (code : String)
  | verify2faCode (userId : Uuid) (code : String)
  | disable2fa (userId : Uuid) (code : String)
  | cleanupExpiredDrafts
  deriving DecidableEq, Repr

/-- What a call answers. -/
inductive TotpReply where
  | setup (s : TotpSetup)
  | codes (cs : List String)
  | kind (k : SecondFactorKind)
  | done
  deriving DecidableEq, Repr

abbrev TotpResult := Except ServiceError TotpReply

def TotpCall.body : TotpCall → TotpProg TotpResult
  | .setup2fa u issuer accountName =>
      (TotpReply.setup <$> TwoFactor.setup2fa ext u issuer accountName).run
  | .confirm2fa u code => (TotpReply.codes <$> TwoFactor.confirm2fa ext u code).run
  | .verify2faCode u code =>
      (TotpReply.kind <$> TwoFactor.verify2faCode ext u code).run
  | .disable2fa u code =>
      ((fun _ => TotpReply.done) <$> TwoFactor.disable2fa ext u code).run
  | .cleanupExpiredDrafts =>
      ((fun _ => TotpReply.done) <$> TwoFactor.cleanupExpiredDrafts.propagate).run

/-- Time passes by so many microseconds. -/
def tick (d : Nat) (w : TotpSrv) : Option TotpSrv :=
  some { w with clock := w.clock + d }

/-- Any number of calls, interleaved step by step. -/
def totpSystem : System Place TotpSrv Chance Nat TotpCall TotpResult where
  body := TotpCall.body ext
  cancel i w := w.rollbackTx i
  env := tick

abbrev TotpConfig := Config Place TotpSrv Chance TotpCall TotpResult

/-- A user as `create_user` leaves it. -/
structure Registered (u : UserRow) : Prop where
  totpSecret : u.totpSecret = none
  totpEnabled : u.totpEnabled = false
  totpEnabledAt : u.totpEnabledAt = none
  totpPendingSecret : u.totpPendingSecret = none
  totpPendingAt : u.totpPendingAt = none

/-- A database with the given users and no recovery codes, and a process that
has just started. -/
def startState (users : List UserRow) (clock : DateTime) : TotpSrv where
  db
    | .users => users.map fun u => ⟨some { u with enrolments := 0 }, none⟩
    | .recoveryCodes => []
  session _ := ⟨.idle, 0, none⟩
  lastCommit _ := none
  clock := clock
  mem := ⟨[], [], [], []⟩

/-! ## A service to run -/

/-- The test secret of RFC 4226 in Base32. -/
def sampleSecret : String := "GEZDGNBVGY3TQOJQGEZDGNBVGY3TQOJQ"

/-- Its codes for the first time steps. -/
def sampleCodes : List String :=
  ["755224", "287082", "359152", "969429", "338314", "254676", "287922",
    "162583", "399871", "520489"]

/-- Another secret of 160 bits. -/
def otherSecret : String := "KRSXG5CTMVRXEZLUKRSXG5CTMVRXEZLU"

/-- The recovery codes made of the bytes 0 to 99, with their SHA-256. -/
def sampleHashes : List (String × String) := [
  ("00010-20304-05060-70809",
    "d4b0b5a81a505472a5dc23018fd33211b8e983c8437793f2129b3ffb124e6b03"),
  ("0a0b0-c0d0e-0f101-11213",
    "38a83f30361a04c035126fdbc05ab16ae07b4972d679b0dfa3b2b97811cbe235"),
  ("14151-61718-191a1-b1c1d",
    "48ac8993920c7d3043260f5f197c16d219ec4defedf77fedb5555ea01d60570a"),
  ("1e1f2-02122-23242-52627",
    "220f292ffebdebeb33e137292827dfc3c2a4551df3c4e8e62866c189da1b8fec"),
  ("28292-a2b2c-2d2e2-f3031",
    "993cc0292cc7d9013eab792737ae0547fe02b7ca54e9f0815fae346eb8e378db"),
  ("32333-43536-37383-93a3b",
    "34ad1a0c952920fbb71bd0dfeb03d64fa3ed2a35bc2a4e85f6471c6eb4d1494b"),
  ("3c3d3-e3f40-41424-34445",
    "7f651646c26b48f6250d52838e555f413fef41e63a1cd573ab42c23252a0da5b"),
  ("46474-8494a-4b4c4-d4e4f",
    "aea71145f939612d5a0c64a506a803c1b52707edf68cca6890522d3bcdf33586"),
  ("50515-25354-55565-75859",
    "fed60476ca2c265d3750d2141488128055fbfaafe2f74ace89dfbabaa6a33eb3"),
  ("5a5b5-c5d5e-5f606-16263",
    "1a40bdd46a31d25aa2c0af6a2459e7d9bc94aa09acd0f122336e207390bcadeb")]

/-- SHA-256 of the sample codes, the codes of the sample secret, and stand-ins
for the rest. -/
def sampleExternals : TotpExternals where
  sha256Hex s := (sampleHashes.lookup s).getD s
  toLowercase s := String.ofList (s.toList.map Char.toLower)
  tryFromBase32 s := .ok s
  build _ := .ok ()
  toUrl totp := .ok ("otpauth://totp/?secret=" ++ totp.secret)
  checkCurrent secret code now := secret == sampleSecret &&
    [now / 30 - 1, now / 30, now / 30 + 1].any fun step =>
      sampleCodes[step]? == some code

/-- A registered user. -/
def sampleUser (n : Nat) : UserRow :=
  { id := n
    publicId := n
    passwordHash := "$argon2id$"
    name := "User"
    passwordChangedAt := none
    totpSecret := none
    totpEnabled := false
    totpEnabledAt := none
    totpPendingSecret := none
    totpPendingAt := none
    lastLoginAt := none
    deletedAt := none }

abbrev TotpEvent := Event Chance Nat TotpCall

/-- Thread `i` takes its next `n` steps, all of which go through. -/
def steps (i n : Nat) : List TotpEvent := List.replicate n (.run i .ok)

/-- Thread `i` draws a TOTP secret. -/
def drawSecret (i : Nat) (s : String) : TotpEvent := .run i (.draw (.secret s))

/-- Thread `i` draws the bytes 0 to 99. -/
def drawBytes (i : Nat) : TotpEvent :=
  .run i (.draw (.bytes (List.range 100)))

/-- Thread `i` sets user `u` up with the sample secret. -/
def setsUp (i u : Nat) : List TotpEvent :=
  [.call i (.setup2fa u "Example" "user")] ++ steps i 2 ++
    [drawSecret i sampleSecret] ++ steps i 3

/-- Thread `i` confirms the enrolment of user `u`. -/
def confirms (i u : Nat) (code : String) : List TotpEvent :=
  [.call i (.confirm2fa u code)] ++ steps i 3 ++ [drawBytes i] ++ steps i 8

/-- Thread `i` checks a TOTP code of user `u`. -/
def verifies (i u : Nat) (code : String) : List TotpEvent :=
  [.call i (.verify2faCode u code)] ++ steps i 3

/-- User 0 sets 2FA up and confirms it with the code of the first time step. -/
def enrolled : TotpConfig :=
  ((totpSystem sampleExternals).exec .all
    (Config.start (startState [sampleUser 0] 0))
    (setsUp 0 0 ++ confirms 1 0 "755224")).get (by decide +kernel)

theorem enrolled_reaches :
    (totpSystem sampleExternals).Reaches .all
      (Config.start (startState [sampleUser 0] 0)) enrolled :=
  System.exec_reaches (Check.implies_all .all) (Option.some_get _).symm

end DpopAuth.Ports.TwoFactor
