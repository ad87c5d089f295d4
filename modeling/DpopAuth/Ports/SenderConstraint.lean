import DpopAuth.Ports.DpopSteps

/-!
# The sender constraint

What a request must have carried that the layer forwards to the inner service:
one proof, an access token that verifies, the signature of the key the token
is bound to, and claims of the proof that name this request.

## Main results

* `bound_of_serveStory` — the fifteen checks, from the four functions they are
  in.
* `sender_constrained` — every forwarded request is bound; no proof serves for
  two requests that differ.
-/

namespace DpopAuth.Ports.SenderConstraint

open DpopAuth.Verified.Resumption
open DpopAuth.Ports.Errors
open DpopAuth.Ports.Config
open DpopAuth.Ports.Token
open DpopAuth.Ports.AccessToken
open DpopAuth.Ports.Htu
open DpopAuth.Ports.Dpop
open DpopAuth.Ports.DpopSteps

variable {ext : ProofExternals} {st : DpopState} {i : Nat}

/-! ## The libraries -/

/-- The family of a key in a JWK. -/
def AlgorithmParameters.family : AlgorithmParameters → AlgorithmFamily
  | .ellipticCurve .. => .ec
  | .rsa .. => .rsa
  | .octetKey .. => .hmac
  | .octetKeyPair .. => .ed

/-- **What `jsonwebtoken` promises.**  It decodes a proof or a token only if
the text carries the claims under a signature that verifies with the key and
the algorithm, and the key is of the algorithm's family; a token only if its
members read well and pass the validation.  A key has the family of its JWK. -/
structure Genuine (ext : ProofExternals)
    (proofSigned : Algorithm → Key → String → DpopClaims → Prop)
    (tokenSigned : Algorithm → Key → String → Members → Prop) : Prop where
  proof : ∀ {alg key text claims}, ext.decode alg key text = .ok claims →
    proofSigned alg key text claims ∧ key.family = alg.family
  token : ∀ {alg key v now text claims},
    ext.jwt.decode deserialize alg key v now text = .ok claims →
    ∃ m, tokenSigned alg key text m ∧ key.family = alg.family ∧
      deserialize m = .ok claims ∧ v.check now m = .ok ()
  key : ∀ {jwk key}, ext.keyFromJwk jwk = .ok key →
    key.family = AlgorithmParameters.family jwk.algorithm

/-! ## A bound request -/

/-- **The request is bound** to its session: `token` and `proof` are what it
carries, `m` are the members of the token, `v` is the proof as it was checked,
and `now` is the time of the check. -/
structure Bound (ext : ProofExternals) (st : DpopState)
    (proofSigned : Algorithm → Key → String → DpopClaims → Prop)
    (tokenSigned : Algorithm → Key → String → Members → Prop)
    (req : Request) (session : ValidatedSession) (now : Nat)
    (token proof : String) (m : Members) (claims : AccessTokenClaims)
    (v : ValidatedProof) (header : Header) (key : Key) : Prop where
  oneProof : ∃ bytes, req.getAll "dpop" = [bytes] ∧ toStr bytes = some proof
  oneToken : ∃ bytes rest, req.getAll "authorization" = bytes :: rest ∧
    toStr bytes = some ("DPoP " ++ token)
  tokenVerified : tokenSigned st.config.signer.algorithm
    st.config.signer.decodingKey token m
  tokenRead : deserialize m = .ok claims
  issuer : claim "iss" m = some (.str st.config.issuer)
  audience : claim "aud" m = some (.str st.config.audience)
  unexpired : ∃ exp, (claim "exp" m).map parseU64 = some (.ok exp) ∧
    now ≤ exp + st.config.clockSkew.secs
  decoded : ext.decodeHeader proof = .ok header
  ownKey : header.jwk = some v.jwk ∧ ext.keyFromJwk v.jwk = .ok key
  proofRead : ext.decode header.alg key proof = .ok v.claims
  proofVerified : proofSigned header.alg key proof v.claims
  asymmetric : key.family ≠ .hmac
  thumbprint : ext.thumbprint v.jwk = .ok claims.cnf.jkt
  session : session =
    ⟨claims.sub, claims.jti, claims.cnf.jkt, claims.extra⟩
  htm : v.claims.htm = req.method
  htu : ∃ target, normalizeHtu ext.parseUrl v.claims.htu = .ok target ∧
    normalizeHtu ext.parseUrl (buildHtu st.config.publicUrl req.path) =
      .ok target
  ath : v.claims.ath = some (computeAth ext token)

/-! ## The checks, function by function -/

theorem stripScheme_eq_some {value token : String}
    (h : stripScheme value = some token) : value = "DPoP " ++ token := by
  unfold stripScheme at h
  split at h
  · rename_i rest hchars
    obtain rfl := Option.some.inj h
    have htext : value.toList = ("DPoP " ++ String.ofList rest).toList := by
      rw [hchars, String.toList_append]
      show _ = 'D' :: 'P' :: 'o' :: 'P' :: ' ' :: (String.ofList rest).toList
      rw [String.toList_ofList]
    exact String.toList_inj.mp htext
  · cases h

/-- What `extract` found in the headers. -/
theorem extract_eq_ok {req : Request} {x : Extracted} (h : extract req = .ok x) :
    (∃ bytes, req.getAll "dpop" = [bytes] ∧ toStr bytes = some x.proof) ∧
    (∃ bytes rest, req.getAll "authorization" = bytes :: rest ∧
      toStr bytes = some ("DPoP " ++ x.token)) ∧
    x.method = req.method ∧ x.path = req.path := by
  unfold extract at h
  split at h
  · cases h
  rename_i token htoken
  split at h
  · cases h
  rename_i proof hone
  cases h
  refine ⟨?_, ?_, rfl, rfl⟩
  · unfold exactlyOneDpopHeader at hone
    split at hone
    · cases hone
    · rename_i first hfirst
      split at hone
      · rename_i text htext
        cases hone
        exact ⟨first, hfirst, htext⟩
      · cases hone
    · cases hone
  · obtain ⟨value, hvalue, hstrip⟩ := Option.bind_eq_some_iff.mp htoken
    obtain ⟨bytes, hbytes, hstr⟩ := Option.bind_eq_some_iff.mp hvalue
    obtain ⟨rest, hall⟩ := List.head?_eq_some_iff.mp hbytes
    exact ⟨bytes, rest, hall, stripScheme_eq_some hstrip ▸ hstr⟩

/-- The validation of a token: issuer, audience and expiry. -/
theorem check_eq_ok {issuer audience : String} {leeway now : Nat} {m : Members}
    (h : Validation.check ⟨true, leeway, [issuer], [audience]⟩ now m = .ok ()) :
    claim "iss" m = some (.str issuer) ∧
    claim "aud" m = some (.str audience) ∧
    ∃ exp, (claim "exp" m).map parseU64 = some (.ok exp) ∧
      now ≤ exp + leeway := by
  have honeOf : ∀ {expected : String} {found : Option Json},
      oneOf [expected] found = true → found = some (.str expected) := by
    intro expected found hfound
    unfold oneOf at hfound
    split at hfound
    · rename_i text
      simp only [List.contains_cons, List.contains_nil, Bool.or_false,
        beq_iff_eq] at hfound
      rw [hfound]
    · cases hfound
  unfold Validation.check at h
  split at h
  · cases h
  rename_i value hvalue
  split at h
  · cases h
  rename_i exp hexp
  split at h
  · cases h
  rename_i hlate
  split at h
  · cases h
  rename_i hiss
  split at h
  · cases h
  rename_i haud
  simp only [Bool.not_eq_true, Bool.not_eq_false'] at hiss haud
  refine ⟨honeOf hiss, honeOf haud, exp, ?_, ?_⟩
  · rw [hvalue]
    exact congrArg some hexp
  · simp only [Bool.true_and, decide_eq_true_eq] at hlate
    omega

theorem verifyToken_eq_ok {token : String} {now : Nat}
    {claims : AccessTokenClaims}
    (h : verifyToken ext st token now = .ok claims) :
    ext.jwt.decode deserialize st.config.signer.algorithm
      st.config.signer.decodingKey
      ⟨true, st.config.clockSkew.secs, [st.config.issuer],
        [st.config.audience]⟩ now token = .ok claims := by
  unfold verifyToken verifyAccessToken at h
  dsimp only at h
  split at h
  · rename_i hdecode
    cases h
    exact hdecode
  · cases h
  · cases h
  · cases h

theorem checkRequest_eq_ok {ctx : ValidationContext} {claims : DpopClaims}
    {now : Nat} (h : checkRequest ext ctx claims now = .ok ()) :
    claims.htm = ctx.expectedHtm ∧
    ∃ target, normalizeHtu ext.parseUrl claims.htu = .ok target ∧
      normalizeHtu ext.parseUrl ctx.expectedHtu = .ok target := by
  unfold checkRequest at h
  split at h
  · cases h
  split at h
  · cases h
  rename_i hhtm
  split at h
  · cases h
  rename_i htu hhtu
  split at h
  · cases h
  rename_i expected hexpected
  split at h
  · cases h
  rename_i hsame
  have htarget : htu = expected := Classical.not_not.mp hsame
  exact ⟨Classical.not_not.mp hhtm, htu, hhtu, htarget ▸ hexpected⟩

theorem checkAth_eq_ok {token : String} {ath : Option String}
    (h : checkAth ext (some token) ath = .ok ()) :
    ath = some (computeAth ext token) := by
  unfold checkAth at h
  cases ath with
  | none => cases h
  | some provided =>
      by_cases hsame : provided = computeAth ext token
      · rw [hsame]
      · simp [hsame] at h

/-- A symmetric key does not pass. -/
theorem ensurePublicJwk_asymmetric {jwk : Jwk}
    (h : ensurePublicJwk jwk = .ok ()) :
    AlgorithmParameters.family jwk.algorithm ≠ .hmac := by
  obtain ⟨ops, algorithm⟩ := jwk
  cases algorithm with
  | octetKey value => cases h
  | _ => exact fun heq => by cases heq

/-! ## A whole call -/

section Calls

variable {proofSigned : Algorithm → Key → String → DpopClaims → Prop}
  {tokenSigned : Algorithm → Key → String → Members → Prop}

/-- **A forwarded request is bound**, and its token was checked at the moment
the log tells. -/
theorem bound_of_serveStory (hlib : Genuine ext proofSigned tokenSigned)
    {req : Request} {session : ValidatedSession}
    {A : Option String → Allowance} {log : List LogEvent}
    (h : ServeStory ext st i req A (.ok session) log) :
    ∃ readAt x m claims v header key, extract req = .ok x ∧
      LogEvent.tokenChecked i readAt ∈ log ∧
      Bound ext st proofSigned tokenSigned req session (seconds readAt) x.token
        x.proof m claims v header key := by
  generalize hr : (Except.ok session :
    Except DpopError ValidatedSession) = r at h
  cases h with
  | unreadable => cases hr
  | untrusted => cases hr
  | checked hextract htoken story =>
      rename_i x readAt claims r' log'
      cases story with
      | refused => cases hr
      | mismatched => cases hr
      | challenged => cases hr
      | unhashed => cases hr
      | replayed => cases hr
      | accepted hproof hreq hath hle hA =>
          rename_i v readAt' t t'
          have hjkt : claims.cnf.jkt = v.jwkThumbprint := by
            apply Classical.not_not.mp
            intro hne
            rw [bindSession_error hne] at hr
            cases hr
          have hsession : session =
              ⟨claims.sub, claims.jti, claims.cnf.jkt, claims.extra⟩ := by
            rw [bindSession_ok hjkt] at hr
            exact Except.ok.inj hr
          obtain ⟨hheader, hauthorization, hmethod, hpath⟩ :=
            extract_eq_ok hextract
          obtain ⟨m, hsigned, -, hread, hcheck⟩ :=
            hlib.token (verifyToken_eq_ok htoken)
          obtain ⟨hissuer, haudience, hexp⟩ := check_eq_ok hcheck
          obtain ⟨header, key, hs⟩ := (checkProof_eq_ok ext).mp hproof
          obtain ⟨hverified, hfamily⟩ := hlib.proof hs.verified
          obtain ⟨hhtm, target, hhtu, hexpected⟩ := checkRequest_eq_ok hreq
          have hasymmetric : key.family ≠ .hmac := by
            rw [hlib.key hs.hasKey]
            exact ensurePublicJwk_asymmetric hs.isPublic
          refine ⟨readAt, x, m, claims, v, header, key, hextract,
            List.mem_append_right _ List.mem_cons_self, ?_⟩
          exact
            { oneProof := hheader
              oneToken := hauthorization
              tokenVerified := hsigned
              tokenRead := hread
              issuer := hissuer
              audience := haudience
              unexpired := hexp
              decoded := hs.decoded
              ownKey := ⟨hs.jwk, hs.hasKey⟩
              proofRead := hs.verified
              proofVerified := hverified
              asymmetric := hasymmetric
              thumbprint := hjkt ▸ hs.thumbprint
              session := hsession
              htm := hhtm.trans hmethod
              htu := ⟨target, hhtu, hpath ▸ hexpected⟩
              ath := checkAth_eq_ok hath }

/-- **The proof names the request.**  Two bound requests with one proof have
the same method, the same target and the same access token. -/
theorem Bound.same (hsha : Function.Injective ext.sha256Hex)
    (hbase : Function.Injective ext.base64Digest)
    {req req' : Request} {session session' : ValidatedSession} {now now' : Nat}
    {token token' proof : String} {m m' : Members}
    {claims claims' : AccessTokenClaims} {v v' : ValidatedProof}
    {header header' : Header} {key key' : Key}
    (h : Bound ext st proofSigned tokenSigned req session now token proof m
      claims v header key)
    (h' : Bound ext st proofSigned tokenSigned req' session' now' token' proof
      m' claims' v' header' key') :
    req.method = req'.method ∧
    normalizeHtu ext.parseUrl (buildHtu st.config.publicUrl req.path) =
      normalizeHtu ext.parseUrl (buildHtu st.config.publicUrl req'.path) ∧
    token = token' := by
  have hheader : header = header' :=
    Except.ok.inj (h.decoded.symm.trans h'.decoded)
  subst hheader
  have hjwk : v.jwk = v'.jwk :=
    Option.some.inj (h.ownKey.1.symm.trans h'.ownKey.1)
  have hkey : key = key' := by
    have hread := h.ownKey.2
    rw [hjwk, h'.ownKey.2] at hread
    exact (Except.ok.inj hread).symm
  subst hkey
  have hclaims : v.claims = v'.claims :=
    Except.ok.inj (h.proofRead.symm.trans h'.proofRead)
  refine ⟨?_, ?_, ?_⟩
  · rw [← h.htm, hclaims, h'.htm]
  · obtain ⟨target, hhtu, hexpected⟩ := h.htu
    obtain ⟨target', hhtu', hexpected'⟩ := h'.htu
    rw [hexpected, hexpected', ← hhtu, hclaims, hhtu']
  · have hath : computeAth ext token = computeAth ext token' := by
      apply Option.some.inj
      rw [← h.ath, hclaims, h'.ath]
    exact hsha (hbase hath)

end Calls

/-! ## Runs -/

/-- A request was forwarded in some run of the layer. -/
def Forwarded (ext : ProofExternals) (st : DpopState) (req : Request)
    (session : ValidatedSession) (i : Nat) (s : DpopSrv) : Prop :=
  ∃ s₀ c, s₀.log = [] ∧
    (dpopSystem ext st).Reaches .all (Config.start s₀) c ∧ c.shared = s ∧
    c.answer i = some (.serve req, .session (.ok session))

/-- **Sender constraint.**  Whatever the state of the layer, the clock and the
caches, and whatever other calls do meanwhile: a request that is forwarded is
bound to its session, by a check of its access token that the log dates; and
two requests that are forwarded with one proof have the same method, the same
target and the same access token. -/
theorem sender_constrained (ext : ProofExternals) (st : DpopState)
    {proofSigned : Algorithm → Key → String → DpopClaims → Prop}
    {tokenSigned : Algorithm → Key → String → Members → Prop}
    (hlib : Genuine ext proofSigned tokenSigned)
    (hsha : Function.Injective ext.sha256Hex)
    (hbase : Function.Injective ext.base64Digest) :
    (∀ req session i s, Forwarded ext st req session i s →
      ∃ readAt token proof m claims v header key,
        LogEvent.tokenChecked i readAt ∈ own i s.log ∧
        Bound ext st proofSigned tokenSigned req session (seconds readAt) token
          proof m claims v header key) ∧
    ∀ req req' session session' i i' s s' x x',
      Forwarded ext st req session i s →
      Forwarded ext st req' session' i' s' →
      extract req = .ok x → extract req' = .ok x' → x.proof = x'.proof →
      req.method = req'.method ∧
      normalizeHtu ext.parseUrl (buildHtu st.config.publicUrl req.path) =
        normalizeHtu ext.parseUrl (buildHtu st.config.publicUrl req'.path) ∧
      x.token = x'.token := by
  have hbound : ∀ {req session i s}, Forwarded ext st req session i s →
      ∃ readAt x m claims v header key, extract req = .ok x ∧
        LogEvent.tokenChecked i readAt ∈ own i s.log ∧
        Bound ext st proofSigned tokenSigned req session (seconds readAt)
          x.token x.proof m claims v header key := by
    rintro req session i s ⟨s₀, c, hlog, hrun, rfl, hanswer⟩
    exact bound_of_serveStory hlib (reaches_told hlog hrun i _ _ hanswer)
  constructor
  · intro req session i s hforwarded
    obtain ⟨readAt, x, m, claims, v, header, key, -, hmem, hb⟩ :=
      hbound hforwarded
    exact ⟨readAt, x.token, x.proof, m, claims, v, header, key, hmem, hb⟩
  · intro req req' session session' i i' s s' x x' hf hf' hx hx' hproof
    obtain ⟨readAt, y, m, claims, v, header, key, hy, -, hb⟩ := hbound hf
    obtain ⟨readAt', y', m', claims', v', header', key', hy', -, hb'⟩ :=
      hbound hf'
    obtain rfl := Except.ok.inj (hx.symm.trans hy)
    obtain rfl := Except.ok.inj (hx'.symm.trans hy')
    rw [← hproof] at hb'
    exact hb.same hsha hbase hb'

/-! ## A forwarded request -/

/-- The sample proofs that are signed, and by what. -/
def sampleSigned (alg : Algorithm) (key : Key) (text : String)
    (claims : DpopClaims) : Prop :=
  ∃ p ∈ [plainProof, noncedProof, boundProof, strayProof], p.text = text ∧
    p.header.alg = alg ∧ p.header.jwk.map Dpop.sampleKey = some key ∧
    p.claims = claims

/-- The sample tokens and their members. -/
def sampleTokenSigned (_ : Algorithm) (_ : Key) (text : String) (m : Members) :
    Prop := ∃ hex base, sampleTokens.lookup text = some (hex, base, m)

theorem proofLibraries_genuine :
    Genuine proofLibraries sampleSigned sampleTokenSigned where
  proof {alg key text claims} h := by
    simp only [proofLibraries, sampleLibraries] at h
    split at h
    · rename_i p hp
      split at h
      · rename_i hsame
        cases h
        have htext : p.text = text := by simpa using List.find?_some hp
        exact ⟨⟨p, List.mem_of_find?_eq_some hp, htext, hsame.2.1, hsame.2.2,
          rfl⟩, hsame.1.symm⟩
      · cases h
    · cases h
  token {alg key v now text claims} h := by
    simp only [proofLibraries, sampleLibraries] at h
    split at h
    · cases h
    rename_i t ht
    split at h
    · rename_i hfamily
      split at h
      · cases h
      rename_i a ha
      split at h
      · cases h
      rename_i hcheck
      cases h
      exact ⟨t.2.2, ⟨t.1, t.2.1, ht⟩, hfamily.symm, ha, hcheck⟩
    · cases h
  key {jwk key} h := by
    simp only [proofLibraries, sampleLibraries] at h
    cases h
    obtain ⟨ops, algorithm⟩ := jwk
    cases algorithm <;> rfl

theorem sampleTokens_injective :
    Function.Injective proofLibraries.sha256Hex :=
  IdentifierHash.tableDigest_injective (by decide +kernel) (by decide +kernel)

theorem sampleDigests_injective :
    Function.Injective proofLibraries.base64Digest :=
  IdentifierHash.tableDigest_injective (by decide +kernel) (by decide +kernel)

theorem boundProof_checked :
    checkProof proofLibraries [.ES256, .PS256] boundProof.text =
      .ok boundProof.validated :=
  checkProof_sample (by decide) (by decide +kernel)
    ((List.find?_cons_of_neg (by decide +kernel)).trans
      ((List.find?_cons_of_neg (by decide +kernel)).trans
        (List.find?_cons_of_pos (beq_self_eq_true _))))

theorem boundToken_printable : boundToken.toList.all isPrintable = true := by
  unfold boundToken
  refine all_append (all_append (all_append (all_append (all_append ?_ ?_) ?_)
    ?_) ?_) ?_ <;> simp [isPrintable]

theorem boundProof_printable :
    boundProof.text.toList.all isPrintable = true := by
  refine sampleProof_printable ?_ ?_
  · refine all_append (all_append (all_append ?_ ?_) ?_) ?_ <;> simp [isPrintable]
  · refine all_append ?_ ?_ <;> simp [isPrintable]

theorem boundRequest_extract :
    extract (ticketsRequest boundToken boundProof) =
      .ok ⟨boundToken, boundProof.text, "GET", "/tickets"⟩ :=
  extract_ticketsRequest boundToken_printable boundProof_printable

/-- What the request becomes. -/
def boundBody : Prog Point DpopSrv Chance Answer :=
  (admitRequest proofLibraries (proofState false)
    ⟨boundToken, boundProof.text, "GET", "/tickets"⟩
    boundProof.validated).bind fun r => .ret (.session r)

/-- `GET /tickets` has arrived. -/
def boundArrival : Config Point DpopSrv Chance DpopCall Answer :=
  (Config.start (started sampleClock)).set 0
    (.serve (ticketsRequest boundToken boundProof)) boundBody

/-- It is answered. -/
def boundRun : Config Point DpopSrv Chance DpopCall Answer :=
  ((dpopSystem proofLibraries (proofState false)).exec .all boundArrival
    ((List.replicate 4 (0, ⟨500000000, sampleNonce⟩)).map
      fun r => .run r.1 r.2)).get (by decide +kernel)

theorem boundRun_exec :
    (dpopSystem proofLibraries (proofState false)).exec .all boundArrival
      ((List.replicate 4 (0, ⟨500000000, sampleNonce⟩)).map
        fun r => .run r.1 r.2) = some boundRun := by
  unfold boundRun
  rw [Option.some_get]

theorem boundRun_reaches :
    (dpopSystem proofLibraries (proofState false)).Reaches .all
      (Config.start (started sampleClock)) boundRun := by
  have hbody : (dpopSystem proofLibraries (proofState false)).body
      (.serve (ticketsRequest boundToken boundProof)) = boundBody :=
    serve_body _ boundRequest_extract boundProof_checked
  have hcall : (dpopSystem proofLibraries (proofState false)).Reaches .all
      (Config.start (started sampleClock)) boundArrival :=
    System.Reaches.called .refl rfl hbody
  exact hcall.trans
    (System.exec_reaches (Check.implies_all .all) boundRun_exec)

/-- The request was forwarded, with a session of `user-1`. -/
theorem boundRun_forwarded : ∃ session,
    Forwarded proofLibraries (proofState false)
      (ticketsRequest boundToken boundProof) session 0 boundRun.shared ∧
    session.sub = "user-1" := by
  have hquery : (boundRun.thread 0).map Prod.fst =
      some (.serve (ticketsRequest boundToken boundProof)) := by
    rw [System.exec_runs_query boundRun_exec]
    unfold boundArrival
    rw [Config.set_thread_self]
    rfl
  have hgot : ∃ session, boundRun.answer 0 =
      some (.serve (ticketsRequest boundToken boundProof),
        .session (.ok session)) ∧ session.sub = "user-1" :=
    answer_of_forwarded hquery (by decide +kernel)
  obtain ⟨session, hanswer, hsub⟩ := hgot
  exact ⟨session, ⟨started sampleClock, boundRun, rfl, boundRun_reaches, rfl,
    hanswer⟩, hsub⟩

theorem sender_constrained_tickets : ∃ session readAt token proof m claims v
    header key,
    LogEvent.tokenChecked 0 readAt ∈ own 0 boundRun.shared.log ∧
    Bound proofLibraries (proofState false) sampleSigned sampleTokenSigned
      (ticketsRequest boundToken boundProof) session (seconds readAt) token
      proof m claims v header key := by
  obtain ⟨session, hforwarded, -⟩ := boundRun_forwarded
  exact ⟨session, (sender_constrained proofLibraries (proofState false)
    proofLibraries_genuine sampleTokens_injective sampleDigests_injective).1 _ _
    _ _ hforwarded⟩

end DpopAuth.Ports.SenderConstraint
