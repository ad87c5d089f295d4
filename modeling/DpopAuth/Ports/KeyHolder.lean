import DpopAuth.Ports.SenderConstraint
import DpopAuth.Ports.TokenBinding

/-!
# The holder of the key

The authentication service and the DPoP layer of one application, with one
configuration.  The service decides which key an access token is bound to; the
layer lets a request pass only with a proof by the key its access token names.
In between lies the JWT.

Put together: an access token that the service has handed out serves nobody
but the holder of the key its session was begun with.  That includes a pair
from the grace cache that a call with another key has been given.

## Main results

* `claims_of_issued` — what the layer reads in a token of the service.
* `served_to_holder` — every request the layer forwards with such a token.
-/

namespace DpopAuth.Ports.KeyHolder

open DpopAuth.Verified.Resumption
open DpopAuth.Verified.KeyChains
open DpopAuth.Ports.Errors
open DpopAuth.Ports.Schema
open DpopAuth.Ports.Token
open DpopAuth.Ports.AccessToken
open DpopAuth.Ports.Config
open DpopAuth.Ports.Service
open DpopAuth.Ports.Auth
open DpopAuth.Ports.FamilyProtocol
open DpopAuth.Ports.Sessions
open DpopAuth.Ports.Dpop
open DpopAuth.Ports.DpopSteps
open DpopAuth.Ports.SenderConstraint
open DpopAuth.Ports.TokenBinding

/-! ## What the layer reads in a token of the service -/

/-- An `iat` that does not fit is not read back. -/
theorem iat_le_of_deserialize {c claims : AccessTokenClaims}
    (hexp : c.exp ≤ u64Max) (h : deserialize (serialize c) = .ok claims) :
    c.iat ≤ u64Max := by
  by_contra hlarge
  have hparse : ∃ msg, parseU64 (.num c.iat) = .error msg := by
    have hbounds : ¬ ((0 : Int) ≤ (c.iat : Int) ∧
        (c.iat : Int) ≤ (u64Max : Int)) := by omega
    simp only [parseU64, if_neg hbounds]
    exact ⟨_, rfl⟩
  obtain ⟨msg, hmsg⟩ := hparse
  have hread : ∀ f : Fields, f.iat = none →
      f.read ("iat", .num c.iat) = .error msg := by
    intro f hf
    have hslot : readOnce "iat" none parseU64 (.num c.iat) = .error msg := by
      simp [readOnce, hmsg]
    simp [Fields.read, hf, hslot, bind, Except.bind]
  unfold deserialize serialize at h
  simp only [List.cons_append, List.nil_append] at h
  rw [foldlM_read (read_sub rfl c.sub), foldlM_read (read_iss rfl c.iss),
    foldlM_read (read_aud rfl c.aud), foldlM_read (read_exp rfl hexp),
    List.foldlM_cons, hread _ rfl] at h
  cases h

/-- The service and the layer are those of one application. -/
structure Together (svc : AuthService) (ext : ProofExternals) (st : DpopState) :
    Prop where
  config : st.config = svc.config
  encode : svc.ext.encode = ext.jwt.encodeClaims
  lawful : ext.jwt.Lawful
  pair : ext.jwt.pair svc.config.signer.algorithm svc.config.signer.encodingKey
    svc.config.signer.decodingKey

variable {svc : AuthService} {ext : ProofExternals} {st : DpopState} {q : Call}
  {i j : Nat} {userId : Uuid} {jkt token : String}

/-- **A token of the service, as the layer reads it**: for this user, and
bound to this key. -/
theorem claims_of_issued (htogether : Together svc ext st) {user : UserRow}
    (hissued : Issued svc user jkt token) {now : Nat}
    (hnow : st.config.clockSkew.secs ≤ now) {claims : AccessTokenClaims}
    (hverified : verifyToken ext st token now = .ok claims) :
    claims.cnf.jkt = jkt ∧ claims.sub = uuidText user.publicId := by
  obtain ⟨issuedAt, jti, hissue⟩ := hissued
  rw [htogether.encode] at hissue
  have hencode := issueAccessToken_iff.mp hissue
  have hdecode := verifyToken_eq_ok hverified
  rw [htogether.config] at hdecode hnow
  rw [htogether.lawful.round_trip deserialize htogether.pair hencode hnow rfl
    rfl] at hdecode
  split at hdecode
  · cases hdecode
  rename_i read hread
  split at hdecode
  · cases hdecode
  obtain rfl := Except.ok.inj hdecode
  -- the claims as they were signed
  have hexp : (issuedClaims issuedAt (uuidText jti) svc.config.issuer
      svc.config.audience svc.config.accessTokenTtl.secs (uuidText user.publicId)
      jkt [("name", .str user.name)]).exp ≤ u64Max := Nat.min_le_right _ _
  have hmap : IsMap [("name", Json.str user.name)] := List.pairwise_singleton _ _
  have hfree : Unreserved [("name", Json.str user.name)] := by
    intro e he
    rw [List.mem_singleton.mp he]
    show "name" ∉ reserved
    decide
  rw [deserialize_serialize _ hexp (iat_le_of_deserialize hexp hread) hmap hfree]
    at hread
  obtain rfl := Except.ok.inj hread
  exact ⟨rfl, rfl⟩

/-! ## Forwarded requests -/

/-- The request carries a proof for this access token, which verifies under the
key that has the thumbprint. -/
def ShownWith (ext : ProofExternals) (st : DpopState) (req : Request)
    (token jkt : String) : Prop :=
  ∃ x v header key, extract req = .ok x ∧ x.token = token ∧
    Signed ext st.config.allowedAlgs x.proof v header key ∧
    v.jwkThumbprint = jkt ∧ v.claims.ath = some (computeAth ext token) ∧
    v.claims.htm = req.method

/-- What a forwarded request has shown. -/
theorem shown_of_serveStory {req : Request} {session : ValidatedSession}
    {A : Option String → Allowance} {log : List LogEvent} {x : Extracted}
    (h : ServeStory ext st i req A (.ok session) log)
    (hx : extract req = .ok x) :
    ShownWith ext st req x.token session.jkt ∧
      ∃ readAt claims, .tokenChecked i readAt ∈ log ∧
        verifyToken ext st x.token (seconds readAt) = .ok claims ∧
        claims.cnf.jkt = session.jkt ∧ claims.sub = session.sub := by
  generalize hr : (Except.ok session :
    Except DpopError ValidatedSession) = r at h
  cases h with
  | unreadable => cases hr
  | untrusted => cases hr
  | checked hextract htoken story =>
      obtain rfl := Except.ok.inj (hx.symm.trans hextract)
      cases story with
      | refused => cases hr
      | mismatched => cases hr
      | challenged => cases hr
      | unhashed => cases hr
      | replayed => cases hr
      | accepted hproof hreq hath hle hA =>
          rename_i readAt claims v readAt' t t'
          have hjkt : claims.cnf.jkt = v.jwkThumbprint := by
            by_contra hne
            rw [bindSession_error hne] at hr
            cases hr
          rw [bindSession_ok hjkt] at hr
          obtain rfl := Except.ok.inj hr
          obtain ⟨header, key, hsigned⟩ := (checkProof_eq_ok ext).mp hproof
          have hmethod : x.method = req.method := (extract_eq_ok hx).2.2.1
          exact ⟨⟨x, v, header, key, hx, rfl, hsigned, hjkt.symm,
            checkAth_eq_ok hath, (checkRequest_eq_ok hreq).1.trans hmethod⟩,
            readAt, claims, List.mem_append_right _ (List.mem_singleton_self _),
            htoken, rfl, rfl⟩

/-! ## End to end -/

variable {clock : DateTime} {c : AuthConfig}

/-- **An access token serves the holder of the key.**  Take any run of the
authentication service, in which a call has been answered with a pair of
tokens, and any run of the DPoP layer, in which a request with the access token
of that pair has been forwarded.  Then the request carried a proof for that
access token by the key that the registration or login asked for; or, where the
pair came from a refresh, rotated or out of the grace cache, by the key of the
session whose refresh token was shown, and the request is forwarded as that
session's user: as the public id that the users table has for it. -/
theorem served_to_holder (htogether : Together svc ext st)
    (hrun : (authSystem svc).Reaches .all (.start (initial clock)) c)
    {reply : Reply} {pair : TokenPair}
    (hanswer : c.answer i = some (q, .ok reply))
    (hpair : pairOf reply = some pair) {req : Request}
    {served : ValidatedSession} {s : DpopSrv} {x : Extracted}
    (hserved : Forwarded ext st req served j s) (hextract : extract req = .ok x)
    (htoken : x.token = pair.accessToken)
    (hclock : ∀ t, .tokenChecked j t ∈ s.log →
      st.config.clockSkew.secs ≤ seconds t) :
    ShownWith ext st req pair.accessToken served.jkt ∧
    (presents q = none → boundTo q = some served.jkt) ∧
    ∀ refreshToken, presents q = some refreshToken →
      ∃ fam session, Sessions.session fam (tokens c.shared) = some session ∧
        svc.hashToken refreshToken ∈ session.keys ∧
        session.holder.dpopJkt = served.jkt ∧
        ∃ user ∈ (c.shared.db .users).rows, user.id = session.holder.userId ∧
          served.sub = uuidText user.publicId := by
  obtain ⟨s₀, d, hlog, hlayer, rfl, hforwarded⟩ := hserved
  obtain ⟨hshown, readAt, claims, hread, hverified, hjkt, hsub⟩ :=
    shown_of_serveStory (reaches_told hlog hlayer j _ _ hforwarded) hextract
  have hnow := hclock readAt (mem_of_own hread)
  rw [htoken] at hshown hverified
  obtain ⟨hfams, hbearer⟩ := bearer_of_answer hrun hanswer hpair
  have hfresh : ∀ {jkt}, Fresh svc jkt pair → some jkt = some served.jkt := by
    rintro jkt ⟨user, hissued⟩
    rw [← (claims_of_issued htogether hissued hnow hverified).1, hjkt]
  refine ⟨hshown, ?_⟩
  cases q with
  | register params =>
      exact ⟨fun _ => hfresh hbearer, fun _ h => by cases h⟩
  | login kind value password jkt ip ua =>
      exact ⟨fun _ => hfresh hbearer, fun _ h => by cases h⟩
  | refresh rt jkt ua =>
      refine ⟨(fun h => by cases h), fun refreshToken h => ?_⟩
      cases h
      obtain ⟨fam, session, hs, hkeys, user, huser, hid, hissued⟩ :=
        session_of_granted hfams hbearer
      obtain ⟨hbound, hnamed⟩ :=
        claims_of_issued htogether hissued hnow hverified
      exact ⟨fam, session, hs, hkeys, hbound.symm.trans hjkt, user, huser, hid,
        hsub.symm.trans hnamed⟩
  | logout rt => exact hbearer.elim

/-! ## A replayed rotation, and a request with its token -/

/-- The thumbprint of the key of the sample proofs. -/
def holderJkt : String := "6ymZdlIMtZD5jBv_o-Elq-7NsVr1P7DcxFKq4WRDzXc"

/-- The claims of an access token for that key. -/
def holderClaims (n : Nat) : AccessTokenClaims :=
  issuedClaims 1767225600 (uuidText (sampleUuid n)) "https://api.example.com"
    "https://api.example.com" 60 (uuidText (sampleUuid 1)) holderJkt
    [("name", .str "User")]

/-- The access token of the registration. -/
def firstToken : String :=
  "eyJ0eXAiOiJKV1QiLCJhbGciOiJIUzI1NiJ9.eyJzdWIiOiIwMDAwMDAwMC0" ++
  "wMDAwLTQwMDAtODAwMC0wMDAwMDAwMDAwMDEiLCJpc3MiOiJodHRwczovL2F" ++
  "waS5leGFtcGxlLmNvbSIsImF1ZCI6Imh0dHBzOi8vYXBpLmV4YW1wbGUuY29" ++
  "tIiwiZXhwIjoxNzY3MjI1NjYwLCJpYXQiOjE3NjcyMjU2MDAsImp0aSI6IjA" ++
  "wMDAwMDAwLTAwMDAtNDAwMC04MDAwLTAwMDAwMDAwMDAwMyIsImNuZiI6eyJ" ++
  "qa3QiOiI2eW1aZGxJTXRaRDVqQnZfby1FbHEtN05zVnIxUDdEY3hGS3E0V1J" ++
  "EelhjIn0sIm5hbWUiOiJVc2VyIn0.Xbe-4HXGOIHlXdsMj7Dlc1ZTyNCQpFa" ++
  "CI0ZFz9Xq0DE"

/-- The access token of the rotation. -/
def secondToken : String :=
  "eyJ0eXAiOiJKV1QiLCJhbGciOiJIUzI1NiJ9.eyJzdWIiOiIwMDAwMDAwMC0" ++
  "wMDAwLTQwMDAtODAwMC0wMDAwMDAwMDAwMDEiLCJpc3MiOiJodHRwczovL2F" ++
  "waS5leGFtcGxlLmNvbSIsImF1ZCI6Imh0dHBzOi8vYXBpLmV4YW1wbGUuY29" ++
  "tIiwiZXhwIjoxNzY3MjI1NjYwLCJpYXQiOjE3NjcyMjU2MDAsImp0aSI6IjA" ++
  "wMDAwMDAwLTAwMDAtNDAwMC04MDAwLTAwMDAwMDAwMDAwNCIsImNuZiI6eyJ" ++
  "qa3QiOiI2eW1aZGxJTXRaRDVqQnZfby1FbHEtN05zVnIxUDdEY3hGS3E0V1J" ++
  "EelhjIn0sIm5hbWUiOiJVc2VyIn0.o3JQbu3qI7tGFv1h3Tc-8WW1xl00tgQ" ++
  "V9nYgmDbXjMs"

def holderTokens : List (String × String × String × Members) :=
  [(firstToken,
      "8561a5b0a4a3bafcbd5896832430466727fa6344065325a49f8a119f0d3094ee",
      "hWGlsKSjuvy9WJaDJDBGZyf6Y0QGUyWkn4oRnw0wlO4",
      serialize (holderClaims 3)),
    (secondToken,
      "e8fbbac00ca9f9a68c3071297b2a460b128bbd3a0eff008ef310326f7c377b62",
      "6Pu6wAyp-aaMMHEpeypGCxKLvToO_wCO8xAyb3w3e2I",
      serialize (holderClaims 4))]

def holderKey : Key := ⟨.hmac, "test-secret-key-must-be-at-least-32-bytes"⟩

/-- The library on these tokens. -/
def holderJwt : Jwt where
  encode alg m ek :=
    if alg = .HS256 ∧ ek = holderKey then
      match holderTokens.find? fun t => sameMembers m t.2.2.2 with
      | some t => .ok t.1
      | none => .error "InvalidKeyFormat"
    else .error "InvalidKeyFormat"
  decode read alg dk v now token :=
    if alg = .HS256 ∧ dk = holderKey then
      match holderTokens.find? fun t => t.1 == token with
      | none => .error (.other "InvalidToken")
      | some t =>
          match read t.2.2.2 with
          | .error e => .error (.json e)
          | .ok a =>
              match v.check now t.2.2.2 with
              | .error e => .error e
              | .ok () => .ok a
    else .error (.other "InvalidSignature")
  pair alg ek dk := alg = .HS256 ∧ ek = holderKey ∧ dk = holderKey

theorem holderTokens_find {t : String × String × String × Members}
    (h : t ∈ holderTokens) :
    (holderTokens.find? fun u => u.1 == t.1) = some t := by
  have hne : (firstToken == secondToken) = false := by decide +kernel
  simp only [holderTokens, List.mem_cons, List.not_mem_nil, or_false] at h
  rcases h with rfl | rfl
  · exact List.find?_cons_of_pos (beq_self_eq_true _)
  · refine (List.find?_cons_of_neg ?_).trans
      (List.find?_cons_of_pos (beq_self_eq_true _))
    show ¬ (firstToken == secondToken) = true
    rw [hne]
    exact Bool.false_ne_true

theorem holderJwt_lawful : holderJwt.Lawful := by
  constructor
  intro α read alg m ek dk token v now hpair hencode _ _ _
  obtain ⟨rfl, rfl, rfl⟩ := hpair
  simp only [holderJwt, true_and, if_true] at hencode ⊢
  split at hencode
  · rename_i t ht
    cases hencode
    have hm : m = t.2.2.2 :=
      eq_of_sameMembers _ _ (List.find?_some (p := fun u : String × String ×
        String × Members => sameMembers m u.2.2.2) ht)
    subst hm
    have hfind := holderTokens_find (List.mem_of_find?_eq_some ht)
    cases hread : read t.2.2.2 with
    | error e => simp [hfind, hread]
    | ok a => cases hcheck : v.check now t.2.2.2 <;> simp [hfind, hread, hcheck]
  · cases hencode

/-- A proof for the access token of the rotation. -/
def holderProof : SampleProof :=
  sampleProof
    ("eyJodG0iOiJHRVQiLCJodHUiOiJodHRwczovL2FwaS5leGFtcGxlLmNvbS90" ++
      "aWNrZXRzIiwiaWF0IjoxNzY3MjI1NjAwLCJqdGkiOiJwcm9vZi02IiwiYXRo" ++
      "IjoiNlB1NndBeXAtYWFNTUhFcGV5cEdDeEtMdlRvT193Q084eEF5YjN3M2Uy" ++
      "SSJ9")
    ("cYewzIOQp_fjZd8ERhgOmXPjF58mtkLV-IHM-f5ZNmqzaCbz1BG9zGPJL0v7" ++
      "fGaBUBvYWrQxqWsNZJdtwPQWcw")
    (Dpop.sampleClaims "proof-6" none
      (some "6Pu6wAyp-aaMMHEpeypGCxKLvToO_wCO8xAyb3w3e2I"))

def holderLibraries : ProofExternals :=
  { sampleLibraries [holderProof] holderTokens
      [("https://api.example.com/tickets", ticketsUrl)] with jwt := holderJwt }

def holderService : AuthService where
  config := proofConfig false
  dummyHash := "$argon2id$"
  ext := { Service.sampleExternals with encode := holderJwt.encodeClaims }

theorem holder_together :
    Together holderService holderLibraries (proofState false) :=
  ⟨rfl, rfl, holderJwt_lawful, rfl, rfl, rfl⟩

/-- A registration, a rotation, and a call with the rotated token and another
key, which is answered out of the grace cache. -/
def holderRun : AuthConfig :=
  ((authSystem holderService).exec .all (.start (initial 1767225600000000))
    ([.call 0 (.register { sampleParams with jkt := holderJkt })] ++
      (registers 0).tail ++
      [.call 1 (.refresh (sampleSecret 0) holderJkt none)] ++
      (rotates 1 0).tail ++ steps 1 1 ++
      [.call 2 (.refresh (sampleSecret 0) "another-thumbprint" none)] ++
      steps 2 6)).get (by decide +kernel)

def holderPair : TokenPair where
  accessToken := secondToken
  refreshToken := sampleSecret 1
  tokenType := tokenType
  expiresIn := 60

/-- The checks of a proof do not look at access tokens. -/
theorem checkProof_jwt (ext : ProofExternals) (jwt : Jwt)
    (allowedAlgs : List Algorithm) (proof : String) :
    checkProof { ext with jwt := jwt } allowedAlgs proof =
      checkProof ext allowedAlgs proof := rfl

theorem holderProof_checked :
    checkProof holderLibraries [.ES256, .PS256] holderProof.text =
      .ok holderProof.validated :=
  (checkProof_jwt (sampleLibraries [holderProof] holderTokens
    [("https://api.example.com/tickets", ticketsUrl)]) holderJwt _ _).trans
    (checkProof_sample (by decide) (by decide +kernel)
      (List.find?_cons_of_pos (beq_self_eq_true _)))

theorem secondToken_printable : secondToken.toList.all isPrintable = true := by
  unfold secondToken
  refine all_append (all_append (all_append (all_append (all_append
    (all_append (all_append ?_ ?_) ?_) ?_) ?_) ?_) ?_) ?_ <;> decide +kernel

theorem holderProof_printable :
    holderProof.text.toList.all isPrintable = true := by
  refine sampleProof_printable ?_ ?_
  · refine all_append (all_append (all_append ?_ ?_) ?_) ?_ <;> decide +kernel
  · refine all_append ?_ ?_ <;> decide +kernel

theorem holderRequest_extract :
    extract (ticketsRequest secondToken holderProof) =
      .ok ⟨secondToken, holderProof.text, "GET", "/tickets"⟩ :=
  extract_ticketsRequest secondToken_printable holderProof_printable

/-- `GET /tickets` with that token. -/
def holderArrival : Config Dpop.Point DpopSrv Chance DpopCall Answer :=
  (Config.start (started sampleClock)).set 0
    (.serve (ticketsRequest secondToken holderProof))
    ((admitRequest holderLibraries (proofState false)
      ⟨secondToken, holderProof.text, "GET", "/tickets"⟩
      holderProof.validated).bind fun r => .ret (.session r))

def holderServed : Config Dpop.Point DpopSrv Chance DpopCall Answer :=
  ((dpopSystem holderLibraries (proofState false)).exec .all holderArrival
    ((List.replicate 4 (0, ⟨500000000, sampleNonce⟩)).map
      fun r => .run r.1 r.2)).get (by decide +kernel)

theorem holderServed_exec :
    (dpopSystem holderLibraries (proofState false)).exec .all holderArrival
      ((List.replicate 4 (0, ⟨500000000, sampleNonce⟩)).map
        fun r => .run r.1 r.2) = some holderServed := by
  unfold holderServed
  rw [Option.some_get]

theorem holderServed_forwarded : ∃ served,
    Forwarded holderLibraries (proofState false)
      (ticketsRequest secondToken holderProof) served 0 holderServed.shared := by
  have hbody : (dpopSystem holderLibraries (proofState false)).body
      (.serve (ticketsRequest secondToken holderProof)) = _ :=
    serve_body _ holderRequest_extract holderProof_checked
  have hcall : (dpopSystem holderLibraries (proofState false)).Reaches .all
      (Config.start (started sampleClock)) holderArrival :=
    System.Reaches.called .refl rfl hbody
  have hquery : (holderServed.thread 0).map Prod.fst =
      some (.serve (ticketsRequest secondToken holderProof)) := by
    rw [System.exec_runs_query holderServed_exec]
    unfold holderArrival
    rw [Config.set_thread_self]
    rfl
  have hgot : ∃ served, holderServed.answer 0 =
      some (.serve (ticketsRequest secondToken holderProof),
        .session (.ok served)) ∧ served.sub = uuidText (sampleUuid 1) :=
    answer_of_forwarded hquery (by decide +kernel)
  obtain ⟨served, hanswer, -⟩ := hgot
  exact ⟨served, started sampleClock, holderServed, rfl, hcall.trans
    (System.exec_reaches (Check.implies_all .all) holderServed_exec), rfl,
    hanswer⟩

theorem holderServed_clock : ∀ t, .tokenChecked 0 t ∈ holderServed.shared.log →
    (proofState false).config.clockSkew.secs ≤ seconds t := by
  have hlog : holderServed.shared.log =
      [.admitted 0 "proof-6" 1767225602000000000,
        .gate 0 false none true 1767225601500000000,
        .tokenChecked 0 1767225600500000000] := by decide +kernel
  intro t ht
  simp only [hlog, List.mem_cons, List.not_mem_nil, reduceCtorEq, false_or,
    or_false, LogEvent.tokenChecked.injEq, true_and] at ht
  subst ht
  decide

/-- The request is forwarded as the user of the session. -/
theorem served_to_holder_replayed : ∃ (served : ValidatedSession) (fam : Uuid)
    (session : Session), ShownWith holderLibraries (proofState false)
      (ticketsRequest secondToken holderProof) secondToken served.jkt ∧
    Sessions.session fam (tokens holderRun.shared) = some session ∧
    session.holder.dpopJkt = served.jkt ∧
    ∃ user ∈ (holderRun.shared.db .users).rows,
      user.id = session.holder.userId ∧
        served.sub = uuidText user.publicId := by
  obtain ⟨served, hserved⟩ := holderServed_forwarded
  obtain ⟨hshown, -, hsession⟩ := @served_to_holder holderService
    holderLibraries (proofState false)
    (.refresh (sampleSecret 0) "another-thumbprint" none) 2 0 1767225600000000
    holderRun holder_together
    (System.exec_reaches (Check.implies_all .all) (Option.some_get _).symm)
    (.tokens holderPair) holderPair (by decide +kernel) rfl
    (ticketsRequest secondToken holderProof) served holderServed.shared _
    hserved holderRequest_extract rfl holderServed_clock
  obtain ⟨fam, session, hs, -, hkey, huser⟩ := hsession _ rfl
  exact ⟨served, fam, session, hshown, hs, hkey, huser⟩

end DpopAuth.Ports.KeyHolder
