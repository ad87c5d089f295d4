import DpopAuth.Verified.Resumption
import DpopAuth.Verified.TtlCache
import DpopAuth.Ports.AccessToken
import DpopAuth.Ports.IdentifierHash
import DpopAuth.Ports.Lifetimes
import DpopAuth.Ports.Htu

/-!
# The DPoP layer

`dpop.rs`, `state.rs`, the two caches of `cache/` and `axum/middleware.rs`: a
request is authenticated by its access token and by a proof of possession of
the key the token is bound to.

What is shared between requests is the clock and the two caches.  A call is a
program with one step for each reading of the clock and each access to a
cache; everything between two steps is a pure function.  Any amount of time
may pass before a step.

`DpopSrv.log` is auxiliary: no function reads it, and it tells what the calls
have done to the caches, newest first.

## Main definitions

* `checkProof`, `checkRequest`, `checkAth` — the checks that access no cache.
* `validateDpopProof`, `authenticate`, `call` — the programs.
* `dpopSystem` — any number of calls, interleaved.
-/

namespace DpopAuth.Ports.Dpop

open DpopAuth.Verified.Resumption
open DpopAuth.Verified.TtlCache
open DpopAuth.Ports.Errors
open DpopAuth.Ports.Token
open DpopAuth.Ports.Config
open DpopAuth.Ports.AccessToken
open DpopAuth.Ports.Htu

/-! ## Proofs -/

/-- `KeyOperations`. -/
inductive KeyOperations where
  | sign | verify | encrypt | decrypt | wrapKey | unwrapKey | deriveKey
  | deriveBits
  | other (name : String)
  deriving DecidableEq, Repr

/-- `AlgorithmParameters`: the members of a key that the library reads. -/
inductive AlgorithmParameters where
  | ellipticCurve (curve x y : String)
  | rsa (n e : String)
  | octetKey (value : String)
  | octetKeyPair (curve x : String)
  deriving DecidableEq, Repr

/-- `Jwk`. -/
structure Jwk where
  keyOperations : Option (List KeyOperations)
  algorithm : AlgorithmParameters
  deriving DecidableEq, Repr

/-- `Header`, as far as it is read here. -/
structure Header where
  typ : Option String
  alg : Algorithm
  jwk : Option Jwk
  deriving DecidableEq, Repr

/-- `DpopClaims`. -/
structure DpopClaims where
  htm : String
  htu : String
  iat : Nat
  jti : String
  nonce : Option String
  ath : Option String
  deriving DecidableEq, Repr

/-- `ValidatedProof`. -/
structure ValidatedProof where
  jwk : Jwk
  claims : DpopClaims
  jwkThumbprint : String
  deriving DecidableEq, Repr

/-- What the layer calls and the repository does not contain: Base64,
`serde_json`, SHA-256, `jsonwebtoken` and the URL parser.  `fromSlice` answers
with the members of an object as they were sent, duplicates included.  A
digest is written in hexadecimal; `base64Digest` is the Base64 text of its
bytes. -/
structure ProofExternals where
  base64Decode : String → Option (List UInt8)
  base64Digest : (digestHex : String) → String
  sha256Hex : String → String
  fromSlice : List UInt8 → Option Json
  decodeHeader : String → Except String Header
  thumbprint : Jwk → Except String String
  keyFromJwk : Jwk → Except String Key
  decode : Algorithm → Key → String → Except JwtError DpopClaims
  parseUrl : Parse
  jwt : Jwt

variable (ext : ProofExternals)

/-! ## The checks of the proof alone -/

def maxProofLen : Nat := 8192

/-- `{:?}` of an algorithm. -/
def algorithmText : Algorithm → String
  | .HS256 => "HS256"
  | .HS384 => "HS384"
  | .HS512 => "HS512"
  | .ES256 => "ES256"
  | .ES384 => "ES384"
  | .RS256 => "RS256"
  | .RS384 => "RS384"
  | .RS512 => "RS512"
  | .PS256 => "PS256"
  | .PS384 => "PS384"
  | .PS512 => "PS512"
  | .EdDSA => "EdDSA"

/-- `Value::get`: of duplicate members a `Value` keeps the last. -/
def valueGet (key : String) : Json → Option Json
  | .obj members => (members.reverse.find? fun e => e.1 == key).map Prod.snd
  | _ => none

/-- `Map::contains_key`. -/
def containsKey (key : String) (members : Members) : Bool :=
  members.any fun e => e.1 == key

/-- The text before the first dot. -/
def firstSegment (proof : String) : String :=
  String.ofList (proof.toList.takeWhile (· != '.'))

theorem firstSegment_append {segment rest : String}
    (h : segment.toList.all (· != '.') = true) :
    firstSegment (segment ++ "." ++ rest) = segment := by
  have hdot : (segment ++ "." ++ rest).toList =
      segment.toList ++ '.' :: rest.toList := by
    rw [String.toList_append, String.toList_append, List.append_assoc]
    rfl
  unfold firstSegment
  rw [hdot, List.takeWhile_append_of_pos fun c hc =>
    List.all_eq_true.mp h c hc]
  simp

/-- `reject_private_header_jwk`. -/
def rejectPrivateHeaderJwk (proof : String) : Except DpopError Unit :=
  match ext.base64Decode (firstSegment proof) with
  | none => .error (.invalidSignature "invalid header encoding")
  | some bytes =>
      match ext.fromSlice bytes with
      | none => .error (.invalidSignature "invalid header json")
      | some header =>
          match valueGet "jwk" header with
          | some (.obj jwk) =>
              if containsKey "d" jwk || containsKey "k" jwk then
                .error (.invalidSignature
                  "jwk must not contain private key material")
              else .ok ()
          | _ => .ok ()

theorem rejectPrivateHeaderJwk_ok {proof : String}
    {bytes : List UInt8} {header : Json} {jwk : Members}
    (hbytes : ext.base64Decode (firstSegment proof) = some bytes)
    (hheader : ext.fromSlice bytes = some header)
    (hjwk : valueGet "jwk" header = some (.obj jwk))
    (hd : containsKey "d" jwk = false) (hk : containsKey "k" jwk = false) :
    rejectPrivateHeaderJwk ext proof = .ok () := by
  simp [rejectPrivateHeaderJwk, hbytes, hheader, hjwk, hd, hk]

/-- `ensure_public_jwk`. -/
def ensurePublicJwk (jwk : Jwk) : Except DpopError Unit :=
  match jwk.algorithm with
  | .octetKey _ =>
      .error (.invalidSignature "jwk must not be a symmetric key")
  | _ =>
      match jwk.keyOperations with
      | some ops =>
          if ops.any fun op =>
              op == .sign || op == .decrypt || op == .unwrapKey then
            .error (.invalidSignature "jwk must not declare private key_ops")
          else .ok ()
      | none => .ok ()

/-- The first part of `validate_dpop_proof`: everything up to the signature. -/
def checkProof (allowedAlgs : List Algorithm) (proof : String) :
    Except DpopError ValidatedProof :=
  if maxProofLen < proof.utf8ByteSize then
    .error (.invalidSignature "proof too large (max 8KB)")
  else
    match rejectPrivateHeaderJwk ext proof with
    | .error e => .error e
    | .ok () =>
    match ext.decodeHeader proof with
    | .error e => .error (.invalidSignature e)
    | .ok header =>
    if header.typ ≠ some "dpop+jwt" then
      .error (.invalidTyp (header.typ.getD ""))
    else if !allowedAlgs.contains header.alg then
      .error (.invalidAlgorithm (algorithmText header.alg ++ " not allowed"))
    else
      match header.jwk with
      | none => .error (.invalidSignature "jwk missing in header")
      | some jwk =>
      match ensurePublicJwk jwk with
      | .error e => .error e
      | .ok () =>
      match ext.thumbprint jwk with
      | .error _ =>
          .error (.invalidSignature "failed to compute JWK thumbprint")
      | .ok jwkThumbprint =>
      match ext.keyFromJwk jwk with
      | .error e => .error (.invalidSignature e)
      | .ok key =>
      match ext.decode header.alg key proof with
      | .ok claims => .ok ⟨jwk, claims, jwkThumbprint⟩
      | .error .expiredSignature => .error .expired
      | .error .immatureSignature => .error .expired
      | .error e => .error (.invalidSignature e.text)

/-- What a proof has that passes, with the header and the key in it. -/
structure Signed (allowedAlgs : List Algorithm) (proof : String)
    (v : ValidatedProof) (header : Header) (key : Key) : Prop where
  size : proof.utf8ByteSize ≤ maxProofLen
  noPrivate : rejectPrivateHeaderJwk ext proof = .ok ()
  decoded : ext.decodeHeader proof = .ok header
  typ : header.typ = some "dpop+jwt"
  alg : header.alg ∈ allowedAlgs
  jwk : header.jwk = some v.jwk
  isPublic : ensurePublicJwk v.jwk = .ok ()
  thumbprint : ext.thumbprint v.jwk = .ok v.jwkThumbprint
  hasKey : ext.keyFromJwk v.jwk = .ok key
  verified : ext.decode header.alg key proof = .ok v.claims

theorem checkProof_eq_ok {allowedAlgs : List Algorithm} {proof : String}
    {v : ValidatedProof} :
    checkProof ext allowedAlgs proof = .ok v ↔
      ∃ header key, Signed ext allowedAlgs proof v header key := by
  constructor
  · intro h
    unfold checkProof at h
    split at h
    · cases h
    rename_i hsize
    split at h
    · cases h
    rename_i hprivate
    split at h
    · cases h
    rename_i header hheader
    split at h
    · cases h
    rename_i htyp
    split at h
    · cases h
    rename_i halg
    split at h
    · cases h
    rename_i jwk hjwk
    split at h
    · cases h
    rename_i hpublic
    split at h
    · cases h
    rename_i thumbprint hthumb
    split at h
    · cases h
    rename_i key hkey
    split at h
    · rename_i claims hdecode
      cases h
      exact ⟨header, key, Nat.not_lt.mp hsize, hprivate, hheader,
        Classical.not_not.mp htyp, by simpa using halg, hjwk, hpublic, hthumb,
        hkey, hdecode⟩
    · cases h
    · cases h
    · cases h
  · rintro ⟨header, key, h⟩
    unfold checkProof
    rw [if_neg (Nat.not_lt.mpr h.size), h.noPrivate, h.decoded]
    simp [h.typ, h.alg, h.jwk, h.isPublic, h.thumbprint, h.hasKey, h.verified]

/-! ## The checks against the request -/

/-- `ValidationContext`, without the caches. -/
structure ValidationContext where
  proof : String
  expectedHtm : String
  expectedHtu : String
  accessToken : Option String
  nonceRequired : Bool
  clockSkew : Duration
  allowedAlgs : List Algorithm
  deriving DecidableEq

/-- The freshness window, in whole seconds. -/
def inWindow (iat window now : Nat) : Bool :=
  saturatingSub iat window ≤ now && now ≤ saturatingAdd iat window

/-- The second part: freshness, method and target. -/
def checkRequest (ctx : ValidationContext) (claims : DpopClaims) (now : Nat) :
    Except DpopError Unit :=
  if !inWindow claims.iat ctx.clockSkew.secs now then .error .expired
  else if claims.htm ≠ ctx.expectedHtm then
    .error (.htmMismatch ctx.expectedHtm claims.htm)
  else
    match normalizeHtu ext.parseUrl claims.htu with
    | .error e => .error e
    | .ok htu =>
        match normalizeHtu ext.parseUrl ctx.expectedHtu with
        | .error e => .error e
        | .ok expected =>
            if htu ≠ expected then .error .htuMismatch else .ok ()

/-- `compute_ath`. -/
def computeAth (accessToken : String) : String :=
  ext.base64Digest (ext.sha256Hex accessToken)

/-- The access-token hash. -/
def checkAth (accessToken ath : Option String) : Except DpopError Unit :=
  match accessToken with
  | none => .ok ()
  | some token =>
      match ath with
      | none =>
          .error (.invalidSignature "missing ath claim in resource proof")
      | some provided =>
          if provided ≠ computeAth ext token then
            .error (.invalidSignature "ath mismatch")
          else .ok ()

/-- Which challenge is sent. -/
def nonceRequiredError (accessToken : Option String) (nonce : String) :
    DpopError :=
  if accessToken.isSome then .resourceNonceRequired nonce
  else .tokenNonceRequired nonce

/-! ## State -/

/-- `DpopState`: the configuration, and the time to live of the `jti` cache. -/
structure DpopState where
  config : DpopConfig
  jtiTtl : Duration

theorem hundred_lt : 125 < 2 ^ 64 := by decide

/-- A thousand years, the longest time to live the cache accepts. -/
def maxTimeToLive : Nat := 1000 * 365 * 24 * 3600 * 1000000000

/-- `DpopState::new`; `none` where it panics. -/
def DpopState.new (config : DpopConfig) : Option DpopState := do
  let jtiTtl ← Lifetimes.jtiTtl config
  if jtiTtl.asNanos ≤ maxTimeToLive then some ⟨config, jtiTtl⟩ else none

/-- The time to live of an entry of the `jti` cache, in nanoseconds. -/
def DpopState.jtiNanos (st : DpopState) : Int := st.jtiTtl.asNanos

/-- **What `DpopState::new` makes of a configuration**: entries of the `jti`
cache live for twice the skew and five seconds. -/
theorem DpopState.of_new {config : DpopConfig} {st : DpopState}
    (h : DpopState.new config = some st) : st.config = config ∧
      st.jtiTtl.asNanos = 2 * config.clockSkew.asNanos + 5000000000 := by
  obtain ⟨jtiTtl, httl, hst⟩ := Option.bind_eq_some_iff.mp h
  obtain ⟨-, hst⟩ := Option.ite_none_right_eq_some.mp hst
  cases hst
  exact ⟨rfl, Lifetimes.asNanos_jtiTtl httl⟩

/-- `NONCE_TTL`, in nanoseconds. -/
def nonceTtl : Int := 300 * 1000000000

/-- `CACHE_CAPACITY`. -/
def cacheCapacity : Nat := 100000

/-- What happened: the check of an access token, the nonce check of a call, a
nonce it issued (it returns the challenge with the same step), a `jti` it
entered.  `cancelled` ends a call that was dropped or has been answered. -/
inductive LogEvent where
  | tokenChecked (thread : Nat) (time : Nat)
  | gate (thread : Nat) (required : Bool) (nonce : Option String)
      (passed : Bool) (time : Nat)
  | challenged (thread : Nat) (nonce : String) (time : Nat)
  | admitted (thread : Nat) (jti : String) (time : Nat)
  | cancelled (thread : Nat)
  | evictedJti (jti : String)
  | evictedNonce (nonce : String)
  deriving DecidableEq, Repr

/-- The thread an event belongs to. -/
def LogEvent.thread? : LogEvent → Option Nat
  | .tokenChecked i _ => some i
  | .gate i _ _ _ _ => some i
  | .challenged i _ _ => some i
  | .admitted i _ _ => some i
  | .cancelled i => some i
  | .evictedJti _ => none
  | .evictedNonce _ => none

/-- The nonce an event issued. -/
def LogEvent.issued? : LogEvent → Option String
  | .challenged _ n _ => some n
  | _ => none

/-- The clock in nanoseconds, the two caches and the log. -/
structure DpopSrv where
  clock : Nat
  jtiCache : Cache String Bool
  nonceCache : Cache String Bool
  log : List LogEvent
  deriving Repr

/-- What the surroundings decide about a step: how long it takes to come, and
the random identifier, if it asks for one. -/
structure Chance where
  elapsed : Nat
  uuid : String
  deriving DecidableEq, Repr

/-- The next step about to be taken, inside `validate_dpop_proof` or before. -/
inductive Place where
  | verifyToken
  | readNow
  | nonceCheck
  | nonceInsert
  | jtiEntry (readAt : Nat) (jti thumbprint : String)
  deriving DecidableEq, Repr

/-- A place, with the key the access token is bound to where there is one. -/
structure Point where
  boundTo : Option String
  place : Place
  deriving DecidableEq, Repr

/-! ## Steps -/

/-- The state when the step comes. -/
def DpopSrv.later (s : DpopSrv) (ch : Chance) : DpopSrv :=
  { s with clock := s.clock + ch.elapsed }

/-- A reading of the clock. -/
def readClock : Action DpopSrv Chance Nat := fun _ ch s =>
  some (s.clock + ch.elapsed, s.later ch)

/-- The reading of the clock an access token is checked against. -/
def readTokenClock : Action DpopSrv Chance Nat := fun i ch s =>
  let now := s.clock + ch.elapsed
  some (now, { s.later ch with log := .tokenChecked i now :: s.log })

/-- The nonce check at a moment. -/
def nonceGate (cache : Cache String Bool) (now : Int) (required : Bool)
    (nonce : Option String) : Bool :=
  if required || nonce.isSome then
    match nonce with
    | none => false
    | some n => (cache.get nonceTtl now n).isSome
  else true

/-- `nonce_cache.contains_key`, where a nonce has to be checked. -/
def checkNonce (required : Bool) (nonce : Option String) :
    Action DpopSrv Chance Bool := fun i ch s =>
  let now := s.clock + ch.elapsed
  let passed := nonceGate s.nonceCache now required nonce
  some (passed, { s.later ch with
    log := .gate i required nonce passed now :: s.log })

/-- `Uuid::new_v4` and `nonce_cache.insert`; no identifier comes twice. -/
def insertNonce : Action DpopSrv Chance String := fun i ch s =>
  let now := s.clock + ch.elapsed
  if s.log.any fun e => e.issued? == some ch.uuid then none
  else some (ch.uuid, { s.later ch with
    nonceCache := s.nonceCache.insert now ch.uuid true
    log := .challenged i ch.uuid now :: s.log })

/-- `jti_cache.entry(jti).or_insert(true)`: whether the entry is fresh. -/
def enterJti (ttl : Int) (jti : String) : Action DpopSrv Chance Bool :=
  fun i ch s =>
    let now := s.clock + ch.elapsed
    match s.jtiCache.orInsert ttl now jti true with
    | (true, cache) => some (true, { s.later ch with
        jtiCache := cache
        log := .admitted i jti now :: s.log })
    | (false, _) => some (false, s.later ch)

/-! ## Programs -/

/-- Whole seconds since the epoch. -/
def seconds (clock : Nat) : Nat := clock / 1000000000

/-- The rest of `validate_dpop_proof`, for a proof that is signed: the clock is
read, the nonce is checked, the `jti` is entered. -/
def admitProof (st : DpopState) (ctx : ValidationContext)
    (validated : ValidatedProof) :
    Prog Place DpopSrv Chance (Except DpopError ValidatedProof) :=
  .act .readNow readClock fun readAt =>
    match checkRequest ext ctx validated.claims (seconds readAt) with
    | .error e => .ret (.error e)
    | .ok () =>
        .act .nonceCheck
          (checkNonce ctx.nonceRequired validated.claims.nonce) fun passed =>
        if passed then
          match checkAth ext ctx.accessToken validated.claims.ath with
          | .error e => .ret (.error e)
          | .ok () =>
              .act (.jtiEntry readAt validated.claims.jti
                  validated.jwkThumbprint)
                (enterJti st.jtiNanos validated.claims.jti) fun fresh =>
              if fresh then .ret (.ok validated)
              else .ret (.error .jtiReplay)
        else .act .nonceInsert insertNonce fun nonce =>
          .ret (.error (nonceRequiredError ctx.accessToken nonce))

/-- `validate_dpop_proof`. -/
def validateDpopProof (st : DpopState) (ctx : ValidationContext) :
    Prog Place DpopSrv Chance (Except DpopError ValidatedProof) :=
  match checkProof ext ctx.allowedAlgs ctx.proof with
  | .error e => .ret (.error e)
  | .ok validated => admitProof ext st ctx validated

/-! ## The middleware -/

/-- A request: its headers in order, with names in lower case, its method and
the path of its URI. -/
structure Request where
  headers : List (String × List UInt8)
  method : String
  path : String
  deriving DecidableEq, Repr

/-- `ValidatedSession`. -/
structure ValidatedSession where
  sub : String
  jti : String
  jkt : String
  extra : Members
  deriving Repr

/-- `HeaderValue::to_str`: visible ASCII and tabs only. -/
def toStr (value : List UInt8) : Option String :=
  if value.all fun b => (32 ≤ b && b < 127) || b == 9 then
    some (String.ofList (value.map fun b => Char.ofNat b.toNat))
  else none

/-- `headers().get_all(name)`. -/
def Request.getAll (req : Request) (name : String) : List (List UInt8) :=
  (req.headers.filter fun e => e.1 == name).map Prod.snd

/-- `exactly_one_dpop_header`. -/
def exactlyOneDpopHeader (req : Request) : Except DpopError String :=
  match req.getAll "dpop" with
  | [] => .error .missingHeader
  | [first] =>
      match toStr first with
      | some proof => .ok proof
      | none => .error (.invalidSignature "invalid DPoP header encoding")
  | _ => .error (.invalidSignature "multiple DPoP headers present")

/-- `strip_prefix("DPoP ")`. -/
def stripScheme (value : String) : Option String :=
  match value.toList with
  | 'D' :: 'P' :: 'o' :: 'P' :: ' ' :: token => some (String.ofList token)
  | _ => none

/-- What `extract` takes from a request. -/
structure Extracted where
  token : String
  proof : String
  method : String
  path : String
  deriving DecidableEq, Repr

/-- `extract`. -/
def extract (req : Request) : Except DpopError Extracted :=
  match (((req.getAll "authorization").head?).bind toStr).bind stripScheme with
  | none => .error .missingHeader
  | some token =>
      match exactlyOneDpopHeader req with
      | .error e => .error e
      | .ok proof => .ok ⟨token, proof, req.method, req.path⟩

/-- `trim_end_matches('/')`. -/
def trimEndSlashes (s : String) : String :=
  String.ofList (s.toList.reverse.dropWhile (· == '/')).reverse

/-- `build_htu`. -/
def buildHtu (publicUrl path : String) : String := trimEndSlashes publicUrl ++ path

/-- What `authenticate` asks of the proof. -/
def requestContext (config : DpopConfig) (x : Extracted) : ValidationContext :=
  { proof := x.proof
    expectedHtm := x.method
    expectedHtu := buildHtu config.publicUrl x.path
    accessToken := some x.token
    nonceRequired := config.nonceRequired
    clockSkew := config.clockSkew
    allowedAlgs := config.allowedAlgs }

/-- `verify_access_token`, with the settings of the layer. -/
def verifyToken (st : DpopState) (token : String) (now : Nat) :
    Except DpopError AccessTokenClaims :=
  verifyAccessToken ext.jwt st.config.signer.algorithm
    st.config.signer.decodingKey token st.config.issuer st.config.audience
    st.config.clockSkew.secs now

/-- The end of `authenticate`: the key of the proof is the one the token is
bound to. -/
def bindSession (claims : AccessTokenClaims) :
    Except DpopError ValidatedProof → Except DpopError ValidatedSession
  | .error e => .error e
  | .ok validated =>
      if claims.cnf.jkt ≠ validated.jwkThumbprint then
        .error (.invalidSignature "jkt mismatch")
      else .ok ⟨claims.sub, claims.jti, claims.cnf.jkt, claims.extra⟩

theorem bindSession_error {claims : AccessTokenClaims} {v : ValidatedProof}
    (h : claims.cnf.jkt ≠ v.jwkThumbprint) :
    bindSession claims (.ok v) =
      .error (.invalidSignature "jkt mismatch") := if_pos h

theorem bindSession_ok {claims : AccessTokenClaims} {v : ValidatedProof}
    (h : claims.cnf.jkt = v.jwkThumbprint) :
    bindSession claims (.ok v) =
      .ok ⟨claims.sub, claims.jti, claims.cnf.jkt, claims.extra⟩ :=
  if_neg (not_not_intro h)

/-- `authenticate`. -/
def authenticate (st : DpopState) (x : Extracted) :
    Prog Point DpopSrv Chance (Except DpopError ValidatedSession) :=
  .act ⟨none, .verifyToken⟩ readTokenClock fun readAt =>
    match verifyToken ext st x.token (seconds readAt) with
    | .error e => .ret (.error e)
    | .ok claims =>
        ((validateDpopProof ext st (requestContext st.config x)).mapPoint
          (Point.mk (some claims.cnf.jkt))).bind fun r =>
        .ret (bindSession claims r)

/-- `DpopService::call`: the session a request is forwarded with, or the error
it is answered with. -/
def call (st : DpopState) (req : Request) :
    Prog Point DpopSrv Chance (Except DpopError ValidatedSession) :=
  match extract req with
  | .error e => .ret (.error e)
  | .ok x => authenticate ext st x

/-! ## The system -/

/-- A call of `validate_dpop_proof` itself, or a request to the layer. -/
inductive DpopCall where
  | validate (ctx : ValidationContext)
  | serve (req : Request)

/-- What a call returned. -/
inductive Answer where
  | proof (r : Except DpopError ValidatedProof)
  | session (r : Except DpopError ValidatedSession)

/-- A cache that is full drops entries. -/
inductive DpopEnv where
  | evictJti (jti : String)
  | evictNonce (nonce : String)

/-- Any number of calls. -/
def dpopSystem (st : DpopState) :
    System Point DpopSrv Chance DpopEnv DpopCall Answer where
  body
    | .validate ctx =>
        ((validateDpopProof ext st ctx).mapPoint (Point.mk none)).bind
          fun r => .ret (.proof r)
    | .serve req => (call ext st req).bind fun r => .ret (.session r)
  cancel i s := { s with log := .cancelled i :: s.log }
  env
    | .evictJti jti, s =>
        if cacheCapacity < s.jtiCache.liveCount st.jtiNanos s.clock then
          some { s with
            jtiCache := s.jtiCache.evict jti
            log := .evictedJti jti :: s.log }
        else none
    | .evictNonce nonce, s =>
        if cacheCapacity < s.nonceCache.liveCount nonceTtl s.clock then
          some { s with
            nonceCache := s.nonceCache.evict nonce
            log := .evictedNonce nonce :: s.log }
        else none

/-- What a call of `validate_dpop_proof` accepted. -/
def accepted : DpopCall × Answer → Option (ValidationContext × ValidatedProof)
  | (.validate ctx, .proof (.ok v)) => some (ctx, v)
  | _ => none

/-- Whose session a request was forwarded with. -/
def forwarded : DpopCall × Answer → Option String
  | (.serve _, .session (.ok session)) => some session.sub
  | _ => none

theorem answer_of_forwarded {c : Config Point DpopSrv Chance DpopCall Answer}
    {i : Nat} {req : Request} {sub : String}
    (hquery : (c.thread i).map Prod.fst = some (.serve req))
    (h : (c.answer i).bind forwarded = some sub) :
    ∃ session, c.answer i = some (.serve req, .session (.ok session)) ∧
      session.sub = sub := by
  obtain ⟨⟨q, r⟩, hanswer, hq⟩ := Option.bind_eq_some_iff.mp h
  rw [Config.answer_eq.mp hanswer] at hquery
  obtain rfl := Option.some.inj hquery
  rw [hanswer]
  unfold forwarded at hq
  split at hq
  · rename_i req' session heq
    cases hq
    obtain ⟨-, rfl⟩ := Prod.mk.inj heq
    exact ⟨session, rfl, rfl⟩
  · cases hq

theorem answer_of_accepted {a : Option (DpopCall × Answer)}
    {ctx : ValidationContext} {v : ValidatedProof}
    (h : a.bind accepted = some (ctx, v)) :
    a = some (.validate ctx, .proof (.ok v)) := by
  obtain ⟨⟨q, r⟩, rfl, hq⟩ := Option.bind_eq_some_iff.mp h
  unfold accepted at hq
  split at hq
  · cases hq
    rename_i heq
    rw [heq]
  · cases hq

/-- What is left of `validate_dpop_proof` once the proof has been checked. -/
def validateBody (st : DpopState) (ctx : ValidationContext)
    (v : ValidatedProof) : Prog Point DpopSrv Chance Answer :=
  ((admitProof ext st ctx v).mapPoint (Point.mk none)).bind
    fun r => .ret (.proof r)

theorem validate_body {st : DpopState} {ctx : ValidationContext}
    {v : ValidatedProof}
    (h : checkProof ext ctx.allowedAlgs ctx.proof = .ok v) :
    (dpopSystem ext st).body (.validate ctx) = validateBody ext st ctx v := by
  show ((validateDpopProof ext st ctx).mapPoint _).bind _ = _
  unfold validateDpopProof
  rw [h]
  rfl

/-- A request with a proof that passes. -/
def admitRequest (st : DpopState) (x : Extracted) (v : ValidatedProof) :
    Prog Point DpopSrv Chance (Except DpopError ValidatedSession) :=
  .act ⟨none, .verifyToken⟩ readTokenClock fun readAt =>
    match verifyToken ext st x.token (seconds readAt) with
    | .error e => .ret (.error e)
    | .ok claims =>
        ((admitProof ext st (requestContext st.config x) v).mapPoint
          (Point.mk (some claims.cnf.jkt))).bind fun r =>
        .ret (bindSession claims r)

theorem call_eq {st : DpopState} {req : Request} {x : Extracted}
    {v : ValidatedProof} (hextract : extract req = .ok x)
    (hproof : checkProof ext st.config.allowedAlgs x.proof = .ok v) :
    call ext st req = admitRequest ext st x v := by
  have hvalidate : validateDpopProof ext st (requestContext st.config x) =
      admitProof ext st (requestContext st.config x) v := by
    unfold validateDpopProof
    show (match checkProof ext st.config.allowedAlgs x.proof with
      | .error e => _
      | .ok validated => _) = _
    rw [hproof]
  have hcall : call ext st req = authenticate ext st x := by
    unfold call
    rw [hextract]
  rw [hcall]
  unfold authenticate admitRequest
  rw [hvalidate]

theorem serve_body {st : DpopState} {req : Request} {x : Extracted}
    {v : ValidatedProof} (hextract : extract req = .ok x)
    (hproof : checkProof ext st.config.allowedAlgs x.proof = .ok v) :
    (dpopSystem ext st).body (.serve req) =
      (admitRequest ext st x v).bind fun r => .ret (.session r) := by
  show (call ext st req).bind _ = _
  rw [call_eq ext hextract hproof]

/-- A service that has just started. -/
def started (clock : Nat) : DpopSrv := ⟨clock, [], [], []⟩

/-! ## Sample data -/

/-- A proof, with what the libraries make of it. -/
structure SampleProof where
  segment : String
  text : String
  headerText : String
  headerJson : Json
  header : Header
  thumbprint : String
  claims : DpopClaims

/-- Bytes of a text in ASCII. -/
def asciiBytes (s : String) : List UInt8 :=
  s.toList.map fun c => UInt8.ofNat c.toNat

/-- The key in a JWK. -/
def sampleKey (jwk : Jwk) : Key :=
  match jwk.algorithm with
  | .ellipticCurve _ x y => ⟨.ec, x ++ "." ++ y⟩
  | .rsa n e => ⟨.rsa, n ++ "." ++ e⟩
  | .octetKey value => ⟨.hmac, value⟩
  | .octetKeyPair _ x => ⟨.ed, x⟩

/-- The libraries, on a list of proofs and a list of access tokens with their
digests, the Base64 text of these, and their claims. -/
def sampleLibraries (proofs : List SampleProof)
    (tokens : List (String × String × String × Members))
    (urls : List (String × Url)) : ProofExternals where
  base64Decode segment :=
    (proofs.find? fun p => p.segment == segment).map fun p => asciiBytes p.headerText
  base64Digest :=
    IdentifierHash.tableDigest (tokens.map fun t => (t.2.1, t.2.2.1))
  sha256Hex := IdentifierHash.tableDigest (tokens.map fun t => (t.1, t.2.1))
  fromSlice bytes :=
    (proofs.find? fun p => asciiBytes p.headerText == bytes).map
      SampleProof.headerJson
  decodeHeader proof :=
    match proofs.find? fun p => p.text == proof with
    | some p => .ok p.header
    | none => .error "InvalidToken"
  thumbprint jwk :=
    match proofs.find? fun p => p.header.jwk == some jwk with
    | some p => .ok p.thumbprint
    | none => .error "Unsupported"
  keyFromJwk jwk := .ok (sampleKey jwk)
  decode alg key proof :=
    match proofs.find? fun p => p.text == proof with
    | some p =>
        if alg.family = key.family ∧ p.header.alg = alg ∧
            (p.header.jwk.map sampleKey) = some key then
          .ok p.claims
        else .error (.other "InvalidSignature")
    | none => .error (.other "InvalidToken")
  parseUrl raw := urls.lookup raw
  jwt :=
    { encode := fun _ _ _ => .error "no signing here"
      decode := fun read alg key v now token =>
        match tokens.lookup token with
        | none => .error (.other "InvalidToken")
        | some t =>
            if alg.family = key.family then
              match read t.2.2 with
              | .error e => .error (.json e)
              | .ok a =>
                  match v.check now t.2.2 with
                  | .error e => .error e
                  | .ok () => .ok a
            else .error (.other "InvalidAlgorithm")
      pair := fun _ _ _ => False }

/-- The header of the sample proofs, as it is sent. -/
def sampleSegment : String :=
  "eyJ0eXAiOiJkcG9wK2p3dCIsImFsZyI6IkVTMjU2IiwiandrIjp7Imt0eSI6" ++
  "IkVDIiwiY3J2IjoiUC0yNTYiLCJ4IjoiYkFlWm9rZWVLUW9BYjUwMTdVRUcx" ++
  "bS1tU2VwdENPYTRYaVZkcDdJZ3lmWSIsInkiOiJxWlRGaGhmMkF5ZUlCZTFZ" ++
  "T2FfYnpRU1BoYXphQlh1TGsxeldyaUo0djJRIn19"

/-- What it decodes to. -/
def sampleHeaderText : String :=
  "\x7b\"typ\":\"dpop+jwt\",\"alg\":\"ES256\",\"jwk\":\x7b\"kty\":\"EC\",\"crv\":\"P-2" ++
  "56\",\"x\":\"bAeZokeeKQoAb5017UEG1m-mSeptCOa4XiVdp7IgyfY\",\"y\":\"q" ++
  "ZTFhhf2AyeIBe1YOa_bzQSPhazaBXuLk1zWriJ4v2Q\"\x7d\x7d"

/-- The coordinates of the key in it. -/
def sampleX : String := "bAeZokeeKQoAb5017UEG1m-mSeptCOa4XiVdp7IgyfY"

def sampleY : String := "qZTFhhf2AyeIBe1YOa_bzQSPhazaBXuLk1zWriJ4v2Q"

/-- A proof with this header. -/
def sampleProof (payload signature : String) (claims : DpopClaims) :
    SampleProof where
  segment := sampleSegment
  text := sampleSegment ++ "." ++ (payload ++ "." ++ signature)
  headerText := sampleHeaderText
  headerJson := .obj [("typ", .str "dpop+jwt"), ("alg", .str "ES256"),
    ("jwk", .obj [("kty", .str "EC"), ("crv", .str "P-256"),
      ("x", .str sampleX), ("y", .str sampleY)])]
  header :=
    { typ := some "dpop+jwt"
      alg := .ES256
      jwk := some ⟨none, .ellipticCurve "P-256" sampleX sampleY⟩ }
  thumbprint := "6ymZdlIMtZD5jBv_o-Elq-7NsVr1P7DcxFKq4WRDzXc"
  claims := claims

/-- The claims of a proof for `GET /tickets`. -/
def sampleClaims (jti : String) (nonce ath : Option String) : DpopClaims :=
  { htm := "GET"
    htu := "https://api.example.com/tickets"
    iat := 1767225600
    jti := jti
    nonce := nonce
    ath := ath }

/-- A nonce the service will issue. -/
def sampleNonce : String := "0b7e4a0e-6a0d-4a52-9d5f-2f1f0e8f7c11"

/-- A proof without a nonce. -/
def plainProof : SampleProof :=
  sampleProof
    ("eyJodG0iOiJHRVQiLCJodHUiOiJodHRwczovL2FwaS5leGFtcGxlLmNvbS90" ++
      "aWNrZXRzIiwiaWF0IjoxNzY3MjI1NjAwLCJqdGkiOiJwcm9vZi0xIn0")
    ("ODgQVpV_wrFB9HwpBwNaOzxyUwO55kqWkRNRARdGnWaXzjsdW7HVS2_RKxCy" ++
      "y5nac0Dp5Z5ZPBf7A-lQQlPf9A")
    (sampleClaims "proof-1" none none)

/-- The same request, with the nonce. -/
def noncedProof : SampleProof :=
  sampleProof
    ("eyJodG0iOiJHRVQiLCJodHUiOiJodHRwczovL2FwaS5leGFtcGxlLmNvbS90" ++
      "aWNrZXRzIiwiaWF0IjoxNzY3MjI1NjAwLCJqdGkiOiJwcm9vZi0yIiwibm9u" ++
      "Y2UiOiIwYjdlNGEwZS02YTBkLTRhNTItOWQ1Zi0yZjFmMGU4ZjdjMTEifQ")
    ("OjEhnTrCahZfMoiG8l7TgiQ5wph3d953v1YIg28SyS8u9yWaHlVECgBHtMPS" ++
      "fm0hIfYDgZE3DSY2T687cDcxow")
    (sampleClaims "proof-2" (some sampleNonce) none)

/-- A proof for the access token of this key. -/
def boundProof : SampleProof :=
  sampleProof
    ("eyJodG0iOiJHRVQiLCJodHUiOiJodHRwczovL2FwaS5leGFtcGxlLmNvbS90" ++
      "aWNrZXRzIiwiaWF0IjoxNzY3MjI1NjAwLCJqdGkiOiJwcm9vZi0zIiwiYXRo" ++
      "IjoiYmNTYlJFQ3U5Vjlxd1VYLTdDZzVRenItU2RNamU4WkxLOUExbWJLYlpN" ++
      "dyJ9")
    ("AVyBVMvaubE35F8X6aMQttkGT_4YJQFgTuu03XJUWqoEXPbPCyBha2Y202YR" ++
      "nvR5SS3pcLr1bwv44ODnNkL_HA")
    (sampleClaims "proof-3" none (some "bcSbRECu9V9qwUX-7Cg5Qzr-SdMje8ZLK9A1mbKbZMw"))

/-- A proof for an access token of another key. -/
def strayProof : SampleProof :=
  sampleProof
    ("eyJodG0iOiJHRVQiLCJodHUiOiJodHRwczovL2FwaS5leGFtcGxlLmNvbS90" ++
      "aWNrZXRzIiwiaWF0IjoxNzY3MjI1NjAwLCJqdGkiOiJwcm9vZi00IiwiYXRo" ++
      "IjoiakRYQTFNS01LbjB4RE03TGN6Z0FZcUpsbmJnNUFfQ2k4ZDdWQTN2YVpS" ++
      "ZyJ9")
    ("AJYpSY5ccbSbtQQ1HIIS0TYnPfWoGNFjik4msJupqtBMV3piw82-PzcFl9At" ++
      "C4DkxtsYgODe1looKZqpB3DoMg")
    (sampleClaims "proof-4" none (some "jDXA1MKMKn0xDM7LczgAYqJlnbg5A_Ci8d7VA3vaZRg"))

/-- The claims of the access token of a key. -/
def tokenMembers (jkt : String) : Members :=
  [("sub", .str "user-1"), ("iss", .str "https://api.example.com"),
    ("aud", .str "https://api.example.com"), ("exp", .num 1767226500),
    ("iat", .num 1767225600), ("jti", .str "token-1"),
    ("cnf", .obj [("jkt", .str jkt)])]

/-- The access token of the key of the sample proofs. -/
def boundToken : String :=
  "eyJ0eXAiOiJKV1QiLCJhbGciOiJIUzI1NiJ9.eyJzdWIiOiJ1c2VyLTEiLCJ" ++
  "pc3MiOiJodHRwczovL2FwaS5leGFtcGxlLmNvbSIsImF1ZCI6Imh0dHBzOi8" ++
  "vYXBpLmV4YW1wbGUuY29tIiwiZXhwIjoxNzY3MjI2NTAwLCJpYXQiOjE3Njc" ++
  "yMjU2MDAsImp0aSI6InRva2VuLTEiLCJjbmYiOnsiamt0IjoiNnltWmRsSU1" ++
  "0WkQ1akJ2X28tRWxxLTdOc1ZyMVA3RGN4RktxNFdSRHpYYyJ9fQ.uMoDdYGk" ++
  "bu8xYTeamkhCw0mI3Vz_m49xnClssjV7JTk"

/-- The access token of another key. -/
def strayToken : String :=
  "eyJ0eXAiOiJKV1QiLCJhbGciOiJIUzI1NiJ9.eyJzdWIiOiJ1c2VyLTEiLCJ" ++
  "pc3MiOiJodHRwczovL2FwaS5leGFtcGxlLmNvbSIsImF1ZCI6Imh0dHBzOi8" ++
  "vYXBpLmV4YW1wbGUuY29tIiwiZXhwIjoxNzY3MjI2NTAwLCJpYXQiOjE3Njc" ++
  "yMjU2MDAsImp0aSI6InRva2VuLTEiLCJjbmYiOnsiamt0IjoiNFhSZ2pSNzV" ++
  "qNGlWLUZ6OFNINFhPMGpaaklsU1BXYkZvczE2Y05XcldBUSJ9fQ.K5ydQReN" ++
  "EzF1dsUs664YpBXQ3j1_NznY1wDx5RKJ2AQ"

def sampleTokens : List (String × String × String × Members) :=
  [(boundToken,
      "6dc49b4440aef55f6ac145feec2839433afe49d3237bc64b2bd03599b29b64cc",
      "bcSbRECu9V9qwUX-7Cg5Qzr-SdMje8ZLK9A1mbKbZMw",
      tokenMembers "6ymZdlIMtZD5jBv_o-Elq-7NsVr1P7DcxFKq4WRDzXc"),
    (strayToken,
      "8c35c0d4c28c2a7d310ccecb73380062a2659db83903f0a2f1ded5037bda6518",
      "jDXA1MKMKn0xDM7LczgAYqJlnbg5A_Ci8d7VA3vaZRg",
      tokenMembers "4XRgjR75j4iV-Fz8SH4XO0jZjIlSPWbFos16cNWrWAQ")]

/-- The resource of the sample requests. -/
def ticketsUrl : Url :=
  { scheme := "https"
    username := ""
    password := none
    host := some "api.example.com"
    port := none
    path := "/tickets"
    query := none
    fragment := none }

def proofLibraries : ProofExternals :=
  sampleLibraries [plainProof, noncedProof, boundProof, strayProof]
    sampleTokens [("https://api.example.com/tickets", ticketsUrl)]

/-- A layer in front of `api.example.com`, with a skew of a minute. -/
def proofConfig (nonceRequired : Bool) : DpopConfig :=
  { publicUrl := "https://api.example.com/"
    issuer := "https://api.example.com"
    audience := "https://api.example.com"
    clockSkew := Lifetimes.minute
    nonceRequired := nonceRequired
    allowedAlgs := [.ES256, .PS256]
    signer := .symmetric ⟨.hmac, "test-secret-key-must-be-at-least-32-bytes"⟩
      ⟨.hmac, "test-secret-key-must-be-at-least-32-bytes"⟩
    accessTokenTtl := Lifetimes.minute
    refreshTokenTtl := Lifetimes.day
    gracePeriod := Lifetimes.fiveSeconds
    allowRegistration := true }

def proofState (nonceRequired : Bool) : DpopState :=
  ⟨proofConfig nonceRequired, ⟨125, 0, hundred_lt, Nat.zero_lt_succ _⟩⟩

theorem proofState_new (nonceRequired : Bool) :
    DpopState.new (proofConfig nonceRequired) =
      some (proofState nonceRequired) := by
  have hskew : Lifetimes.jtiTtl (proofConfig nonceRequired) =
      some (proofState nonceRequired).jtiTtl := by
    cases nonceRequired <;> decide
  have hle : (proofState nonceRequired).jtiTtl.asNanos ≤ maxTimeToLive := by
    cases nonceRequired <;> decide
  unfold DpopState.new
  rw [hskew, Option.bind_eq_bind, Option.bind_some, if_pos hle]
  rfl

/-- The nanosecond at which the sample proofs are made. -/
def sampleClock : Nat := 1767225600000000000

/-- `validate_dpop_proof` for `GET /tickets`, without an access token. -/
def ticketsContext (proof : SampleProof) (nonceRequired : Bool) :
    ValidationContext :=
  { proof := proof.text
    expectedHtm := "GET"
    expectedHtu := "https://api.example.com/tickets"
    accessToken := none
    nonceRequired := nonceRequired
    clockSkew := Lifetimes.minute
    allowedAlgs := [.ES256, .PS256] }

/-- `GET /tickets` with an access token. -/
def ticketsRequest (token : String) (proof : SampleProof) : Request :=
  { headers := [("host", asciiBytes "api.example.com"),
      ("authorization", asciiBytes ("DPoP " ++ token)),
      ("dpop", asciiBytes proof.text)]
    method := "GET"
    path := "/tickets" }

theorem all_append {a b : String} {p : Char → Bool} (ha : a.toList.all p = true)
    (hb : b.toList.all p = true) : (a ++ b).toList.all p = true := by
  rw [String.toList_append, List.all_append, ha, hb]
  rfl

theorem sampleSegment_plain : sampleSegment.toList.all (· != '.') = true := by
  unfold sampleSegment
  refine all_append (all_append (all_append ?_ ?_) ?_) ?_ <;> simp

/-- What is made of a sample proof. -/
def SampleProof.validated (p : SampleProof) : ValidatedProof where
  jwk := ⟨none, .ellipticCurve "P-256" sampleX sampleY⟩
  claims := p.claims
  jwkThumbprint := p.thumbprint

section

variable {proofs : List SampleProof}
  {tokens : List (String × String × String × Members)}
  {urls : List (String × Url)} {payload signature : String}
  {claims : DpopClaims}

theorem sample_segment :
    firstSegment (sampleProof payload signature claims).text =
      sampleSegment := by
  unfold sampleProof
  exact firstSegment_append sampleSegment_plain

variable {payload₀ signature₀ : String} {claims₀ : DpopClaims}

theorem sample_bytes :
    (sampleLibraries (sampleProof payload₀ signature₀ claims₀ :: proofs) tokens
      urls).base64Decode sampleSegment = some (asciiBytes sampleHeaderText) := by
  simp [sampleLibraries, sampleProof]

theorem sample_json :
    (sampleLibraries (sampleProof payload₀ signature₀ claims₀ :: proofs) tokens
      urls).fromSlice (asciiBytes sampleHeaderText) =
      some (sampleProof payload₀ signature₀ claims₀).headerJson := by
  simp [sampleLibraries, sampleProof]

theorem sample_jwk :
    valueGet "jwk" (sampleProof payload signature claims).headerJson =
      some (.obj [("kty", .str "EC"), ("crv", .str "P-256"),
        ("x", .str sampleX), ("y", .str sampleY)]) := by
  simp [sampleProof, valueGet]

theorem sample_private :
    rejectPrivateHeaderJwk
      (sampleLibraries (sampleProof payload₀ signature₀ claims₀ :: proofs)
        tokens urls) (sampleProof payload signature claims).text = .ok () := by
  refine rejectPrivateHeaderJwk_ok _ ?_ sample_json sample_jwk ?_ ?_
  · rw [sample_segment]
    exact sample_bytes
  · simp [containsKey]
  · simp [containsKey]

theorem checkProof_sample {allowedAlgs : List Algorithm}
    (halg : .ES256 ∈ allowedAlgs)
    (hsize : (sampleProof payload signature claims).text.utf8ByteSize ≤
      maxProofLen)
    (hfind : (sampleProof payload₀ signature₀ claims₀ :: proofs).find?
        (fun p => p.text == (sampleProof payload signature claims).text) =
      some (sampleProof payload signature claims)) :
    checkProof (sampleLibraries
        (sampleProof payload₀ signature₀ claims₀ :: proofs) tokens urls)
      allowedAlgs (sampleProof payload signature claims).text =
      .ok (sampleProof payload signature claims).validated := by
  refine (checkProof_eq_ok _).mpr
    ⟨(sampleProof payload signature claims).header,
      sampleKey ⟨none, .ellipticCurve "P-256" sampleX sampleY⟩, hsize,
      sample_private, ?_, rfl, halg, rfl, rfl, ?_, rfl, ?_⟩
  · simp only [sampleLibraries, hfind]
  · simp [sampleLibraries, sampleProof, SampleProof.validated]
  · simp only [sampleLibraries, hfind]
    have hfamily : Algorithm.ES256.family = (sampleKey
        ⟨none, .ellipticCurve "P-256" sampleX sampleY⟩).family := rfl
    simp [sampleProof, SampleProof.validated, hfamily]

end

theorem plainProof_checked :
    checkProof proofLibraries [.ES256, .PS256] plainProof.text =
      .ok plainProof.validated :=
  checkProof_sample (by decide) (by decide +kernel)
    (List.find?_cons_of_pos (beq_self_eq_true _))

/-- A printable character. -/
def isPrintable (c : Char) : Bool := 32 ≤ c.toNat && c.toNat < 127

theorem sampleProof_printable {payload signature : String}
    {claims : DpopClaims} (hpayload : payload.toList.all isPrintable = true)
    (hsignature : signature.toList.all isPrintable = true) :
    (sampleProof payload signature claims).text.toList.all isPrintable =
      true := by
  have hsegment : sampleSegment.toList.all isPrintable = true := by
    unfold sampleSegment
    refine all_append (all_append (all_append ?_ ?_) ?_) ?_ <;>
      simp [isPrintable]
  have hdot : (".".toList).all isPrintable = true := by decide
  unfold sampleProof
  exact all_append (all_append hsegment hdot)
    (all_append (all_append hpayload hdot) hsignature)

theorem toStr_asciiBytes {s : String} (h : s.toList.all isPrintable = true) :
    toStr (asciiBytes s) = some s := by
  have hbyte : ∀ c ∈ s.toList, (UInt8.ofNat c.toNat).toNat = c.toNat ∧
      32 ≤ c.toNat ∧ c.toNat < 127 := by
    intro c hc
    have hc' := List.all_eq_true.mp h c hc
    simp only [isPrintable, Bool.and_eq_true, decide_eq_true_eq] at hc'
    refine ⟨?_, hc'⟩
    rw [UInt8.toNat_ofNat']
    omega
  have hall : ((asciiBytes s).all fun b => (32 ≤ b && b < 127) || b == 9) =
      true := by
    refine List.all_eq_true.mpr fun b hb => ?_
    obtain ⟨c, hc, rfl⟩ := List.mem_map.mp hb
    obtain ⟨heq, hlow, hhigh⟩ := hbyte c hc
    have hlow' : 32 ≤ UInt8.ofNat c.toNat := by
      rw [UInt8.le_iff_toNat_le, heq]
      exact hlow
    have hhigh' : UInt8.ofNat c.toNat < 127 := by
      rw [UInt8.lt_iff_toNat_lt, heq]
      exact hhigh
    simp [hlow', hhigh']
  have hmap : (asciiBytes s).map (fun b => Char.ofNat b.toNat) = s.toList := by
    unfold asciiBytes
    rw [List.map_map]
    refine (List.map_congr_left fun c hc => ?_).trans (List.map_id _)
    show Char.ofNat (UInt8.ofNat c.toNat).toNat = c
    rw [(hbyte c hc).1, Char.ofNat_toNat]
  unfold toStr
  rw [if_pos hall, hmap, String.ofList_toList]

theorem stripScheme_append (token : String) :
    stripScheme ("DPoP " ++ token) = some token := by
  unfold stripScheme
  rw [String.toList_append]
  show some (String.ofList token.toList) = _
  rw [String.ofList_toList]

theorem extract_ticketsRequest {token : String} {proof : SampleProof}
    (htoken : token.toList.all isPrintable = true)
    (hproof : proof.text.toList.all isPrintable = true) :
    extract (ticketsRequest token proof) =
      .ok ⟨token, proof.text, "GET", "/tickets"⟩ := by
  have hscheme : ("DPoP " ++ token).toList.all isPrintable = true := by
    rw [String.toList_append, List.all_append, htoken]
    rfl
  simp [extract, exactlyOneDpopHeader, Request.getAll, ticketsRequest,
    toStr_asciiBytes hscheme, toStr_asciiBytes hproof, stripScheme_append]

/-- The next step of thread `i`, half a second later. -/
def stepOf (i : Nat) : Event Chance DpopEnv DpopCall :=
  .run i ⟨500000000, sampleNonce⟩

end DpopAuth.Ports.Dpop
