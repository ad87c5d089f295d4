import DpopAuth.Ports.DpopSteps

/-!
# Private key material in a proof

The header of a proof is read three times: as JSON by
`reject_private_header_jwk`, which takes the text before the first dot, and by
`decode_header` and `decode`, which take the text before the last two.  For a
proof that is accepted the three have read the same segment.

`reject_private_header_jwk` looks for the members `d` and `k`.  These are all
there is to a private key of three of the four key types; an RSA key has
others.

## Main results

* `sameSegment` — one segment, read three times.
* `accepted_carries_no_private_iff` — what an accepted proof can carry.
-/

namespace DpopAuth.Ports.PublicKeys

open DpopAuth.Verified.Resumption
open DpopAuth.Ports.Errors
open DpopAuth.Ports.Config
open DpopAuth.Ports.Token
open DpopAuth.Ports.AccessToken
open DpopAuth.Ports.Htu
open DpopAuth.Ports.Dpop
open DpopAuth.Ports.DpopSteps

variable {ext : ProofExternals} {st : DpopState} {proof : String}

/-! ## Key types -/

/-- The private parameters of RFC 7518, by key type. -/
def privateParameters (kty : String) : List String :=
  if kty = "EC" ∨ kty = "OKP" then ["d"]
  else if kty = "RSA" then ["d", "p", "q", "dp", "dq", "qi", "oth"]
  else if kty = "oct" then ["k"]
  else []

/-- The key type of a JWK that was read. -/
def keyType : AlgorithmParameters → String
  | .ellipticCurve .. => "EC"
  | .rsa .. => "RSA"
  | .octetKey .. => "oct"
  | .octetKeyPair .. => "OKP"

/-- **The object carries no private parameter** of its key type. -/
def NoPrivate (sent : Members) : Prop :=
  ∀ kty name, claim "kty" sent = some (.str kty) →
    name ∈ privateParameters kty → containsKey name sent = false

/-! ## Segments -/

/-- The text before the last two dots, and what stands between and after
them: how `decode_header` and `decode` take a text apart. -/
def Split (proof segment payload signature : String) : Prop :=
  proof = segment ++ "." ++ (payload ++ "." ++ signature) ∧
    '.' ∉ payload.toList ∧ '.' ∉ signature.toList

/-- **An object under `jwk`** in the text before the first dot, as it was
sent. -/
def SentJwk (ext : ProofExternals) (proof : String) (sent : Members) : Prop :=
  ∃ bytes members, ext.base64Decode (firstSegment proof) = some bytes ∧
    ext.fromSlice bytes = some (.obj members) ∧
    ("jwk", .obj sent) ∈ members

/-- **What `jsonwebtoken`'s header parser promises.**  Its Base64 has no dot in
its alphabet, and where both decoders accept a text they agree.  A header with
a key comes from the first of the three parts; there is one member `jwk`, an
object whose `kty` is that of the key.  Other members of either are
ignored. -/
structure HeaderReader (ext : ProofExternals)
    (libBase64 : String → Option (List UInt8)) : Prop where
  alphabet : ∀ {segment bytes}, libBase64 segment = some bytes →
    '.' ∉ segment.toList
  agree : ∀ {segment bytes bytes'}, libBase64 segment = some bytes →
    ext.base64Decode segment = some bytes' → bytes' = bytes
  header : ∀ {proof header jwk}, ext.decodeHeader proof = .ok header →
    header.jwk = some jwk →
    ∃ segment payload signature bytes members sent,
      Split proof segment payload signature ∧
      libBase64 segment = some bytes ∧
      ext.fromSlice bytes = some (.obj members) ∧
      members.filter (fun e => e.1 == "jwk") = [("jwk", .obj sent)] ∧
      claim "kty" sent = some (.str (keyType jwk.algorithm))

theorem firstSegment_of_split {segment payload signature : String}
    (h : Split proof segment payload signature)
    (hdot : '.' ∉ segment.toList) : firstSegment proof = segment := by
  rw [h.1]
  refine firstSegment_append (List.all_eq_true.mpr fun c hc => ?_)
  have hne : c ≠ '.' := fun heq => hdot (heq ▸ hc)
  simpa using hne

theorem count_split {segment payload signature : String}
    (h : Split proof segment payload signature) :
    proof.toList.count '.' = segment.toList.count '.' + 2 := by
  have hpayload := List.count_eq_zero.mpr h.2.1
  have hsignature := List.count_eq_zero.mpr h.2.2
  have hdot : (".".toList).count '.' = 1 := rfl
  rw [h.1]
  simp only [String.toList_append, List.count_append, hpayload, hsignature,
    hdot]

/-- **One segment.**  A text whose first of three parts has no dot has no other
dots, and no other parts. -/
theorem sameSegment {segment payload signature : String}
    {segment' payload' signature' : String}
    (h : Split proof segment payload signature)
    (hdot : '.' ∉ segment.toList)
    (h' : Split proof segment' payload' signature') :
    segment' = firstSegment proof := by
  have hcount : segment'.toList.count '.' = 0 := by
    have hsame := (count_split h').symm.trans (count_split h)
    rw [List.count_eq_zero.mpr hdot] at hsame
    omega
  exact (firstSegment_of_split h' (List.count_eq_zero.mp hcount)).symm

/-! ## What was looked at -/

theorem valueGet_of_filter {members sent : Members}
    (h : members.filter (fun e => e.1 == "jwk") = [("jwk", .obj sent)]) :
    valueGet "jwk" (.obj members) = some (.obj sent) := by
  have hfind : members.reverse.find? (fun e => e.1 == "jwk") =
      some ("jwk", .obj sent) := by
    rw [← List.head?_filter, List.filter_reverse, h]
    rfl
  show (members.reverse.find? fun e => e.1 == "jwk").map Prod.snd = _
  rw [hfind]
  rfl

/-- What `reject_private_header_jwk` has seen when it lets a proof pass. -/
theorem rejectPrivateHeaderJwk_eq_ok
    (h : rejectPrivateHeaderJwk ext proof = .ok ()) :
    ∃ bytes header, ext.base64Decode (firstSegment proof) = some bytes ∧
      ext.fromSlice bytes = some header ∧
      ∀ sent, valueGet "jwk" header = some (.obj sent) →
        containsKey "d" sent = false ∧ containsKey "k" sent = false := by
  unfold rejectPrivateHeaderJwk at h
  split at h
  · cases h
  rename_i bytes hbytes
  split at h
  · cases h
  rename_i header hheader
  refine ⟨bytes, header, hbytes, hheader, fun sent hsent => ?_⟩
  rw [hsent] at h
  dsimp only at h
  split at h
  · cases h
  · rename_i hclean
    simpa using hclean

/-- An RSA key was sent with a private parameter other than `d`. -/
def SentRsaPrimes (ext : ProofExternals) (proof : String) : Prop :=
  ∃ sent, SentJwk ext proof sent ∧ claim "kty" sent = some (.str "RSA") ∧
    ∃ name ∈ ["p", "q", "dp", "dq", "qi", "oth"], containsKey name sent = true

/-- The private parameters of a key that is not RSA, and `d`. -/
theorem mem_privateParameters {kty name : String}
    (h : name ∈ privateParameters kty) :
    name = "d" ∨ name = "k" ∨
      (kty = "RSA" ∧ name ∈ ["p", "q", "dp", "dq", "qi", "oth"]) := by
  unfold privateParameters at h
  split at h
  · exact .inl (List.mem_singleton.mp h)
  split at h
  · rename_i hrsa
    rcases List.mem_cons.mp h with rfl | h
    · exact .inl rfl
    · exact .inr (.inr ⟨hrsa, h⟩)
  split at h
  · exact .inr (.inl (List.mem_singleton.mp h))
  · cases h

/-- **A proof that passes**: what the three readings have in common, and what
it can carry. -/
theorem checked_carries {libBase64 : String → Option (List UInt8)}
    (hreader : HeaderReader ext libBase64) {algs : List Algorithm}
    {v : ValidatedProof} (h : checkProof ext algs proof = .ok v) :
    (∃ payload signature,
      Split proof (firstSegment proof) payload signature) ∧
    (∀ segment payload signature, Split proof segment payload signature →
      segment = firstSegment proof) ∧
    (∃ sent, SentJwk ext proof sent ∧
      claim "kty" sent = some (.str (keyType v.jwk.algorithm))) ∧
    ((∀ sent, SentJwk ext proof sent → NoPrivate sent) ↔
      ¬ SentRsaPrimes ext proof) := by
  obtain ⟨header, key, hs⟩ := (checkProof_eq_ok ext).mp h
  obtain ⟨segment, payload, signature, bytes, members, sent, hsplit, hlib,
    hslice, hfilter, hkty⟩ := hreader.header hs.decoded hs.jwk
  have hdot := hreader.alphabet hlib
  have hfirst := firstSegment_of_split hsplit hdot
  obtain ⟨bytes', header', hbytes', hheader', hclean⟩ :=
    rejectPrivateHeaderJwk_eq_ok hs.noPrivate
  have hbytes : bytes' = bytes := by
    rw [hfirst] at hbytes'
    exact hreader.agree hlib hbytes'
  subst hbytes
  have hobject : header' = .obj members :=
    Option.some.inj (hheader'.symm.trans hslice)
  subst hobject
  obtain ⟨hd, hk⟩ := hclean sent (valueGet_of_filter hfilter)
  have hsent : SentJwk ext proof sent := by
    refine ⟨bytes', members, hbytes', hheader', ?_⟩
    have hmem : ("jwk", .obj sent) ∈
        members.filter (fun e => e.1 == "jwk") := by
      rw [hfilter]
      exact List.mem_cons_self
    exact (List.mem_filter.mp hmem).1
  -- no other object was sent
  have honly : ∀ other, SentJwk ext proof other → other = sent := by
    rintro other ⟨bytes, members', hb, hm, hmem⟩
    obtain rfl := Option.some.inj (hb.symm.trans hbytes')
    have hsame := Option.some.inj (hm.symm.trans hheader')
    cases hsame
    have hmem' : ("jwk", .obj other) ∈
        members.filter (fun e => e.1 == "jwk") :=
      List.mem_filter.mpr ⟨hmem, rfl⟩
    rw [hfilter] at hmem'
    cases List.mem_singleton.mp hmem'
    rfl
  refine ⟨⟨payload, signature, hfirst.symm ▸ hsplit⟩,
    fun _ _ _ h' => sameSegment hsplit hdot h', ⟨sent, hsent, hkty⟩, ?_⟩
  constructor
  · rintro hnone ⟨other, hother, hrsa, name, hname, hcontains⟩
    have hclear := hnone other hother "RSA" name hrsa
      (List.mem_cons_of_mem _ hname)
    rw [hclear] at hcontains
    cases hcontains
  · intro hprimes other hother kty name hother' hname
    obtain rfl := honly other hother
    rcases mem_privateParameters hname with rfl | rfl | ⟨rfl, hprime⟩
    · exact hd
    · exact hk
    · apply Bool.eq_false_iff.mpr
      intro hcontains
      exact hprimes ⟨other, hother, hother', name, hprime, hcontains⟩

/-! ## Runs -/

/-- **What an accepted proof can carry.**  For every call of
`validate_dpop_proof` that returned `Ok`, in any run: the segment that was
inspected is the one that was verified, the key it was verified with was sent
in it, and no private parameter was, unless it is an RSA key with a private
parameter other than `d`. -/
theorem accepted_carries_no_private_iff (ext : ProofExternals) (st : DpopState)
    {libBase64 : String → Option (List UInt8)}
    (hreader : HeaderReader ext libBase64) {s₀ : DpopSrv}
    {c : Config Point DpopSrv Chance DpopCall Answer} (hlog : s₀.log = [])
    (hrun : (dpopSystem ext st).Reaches .all (Config.start s₀) c) :
    ∀ i ctx v, c.answer i = some (.validate ctx, .proof (.ok v)) →
      (∃ payload signature,
        Split ctx.proof (firstSegment ctx.proof) payload signature) ∧
      (∀ segment payload signature,
        Split ctx.proof segment payload signature →
        segment = firstSegment ctx.proof) ∧
      (∃ sent, SentJwk ext ctx.proof sent ∧
        claim "kty" sent = some (.str (keyType v.jwk.algorithm))) ∧
      ((∀ sent, SentJwk ext ctx.proof sent → NoPrivate sent) ↔
        ¬ SentRsaPrimes ext ctx.proof) := by
  intro i ctx v hanswer
  have hstory : Story ext i ctx _ (.ok v) (own i c.shared.log) :=
    reaches_told hlog hrun i _ _ hanswer
  generalize hown : own i c.shared.log = log at hstory
  cases hstory with
  | accepted hproof => exact checked_carries hreader hproof

/-! ## An RSA key with a prime -/

/-- The modulus of the key. -/
def rsaModulus : String :=
  "p-dyAL9OFxdLHI2SJLLDlKp49zq3aQMDWbp6-9tuLjV-ttLdi4Dqu-esn1SB" ++
  "WPabuym5R6LOnGyWZNwFgM_amyCS9qWcqfP3KXPIdyEL0KAcUtBWB_-eqBuN" ++
  "oa28i6eFoKk4zdGxg3vQWCBE5HubsDzMWM8WcI3pdgRd91ijJK_5ewK4ZTKz" ++
  "ET18YD7OutZh2_BWOjoEYhb-CFYznIUAmkfVd0eCfsfdLeENCYyVBzrVTI2N" ++
  "3G34SWdWqmoAKyTyxYwHFjK2Mn_rDRZHw5GpElMv8l9Ll5uTnm26EaTpEMPQ" ++
  "7wggOmSaWz1ZMnKetqs-sqfpxnZSDOCpRCu1OKnaWQ"

/-- A prime factor of the modulus. -/
def rsaPrime : String :=
  "5-9IKtB8Cd7GFIj5CtLgWtiMrbkiBdMObBza5Fq5X0b2vNY6dk8TtiNoacAo" ++
  "2xGi4Y2_7iesF6ESG2kmzTibkINDimpIme2UtqTvebIMlnD1scCAgZVo-XQP" ++
  "2ys5teZs0IsbddNTe-6peePECr-uNDYjEKwaooa9cvBjaf4ajh8"

/-- The header of the proof, as it is sent. -/
def rsaSegment : String :=
  "eyJ0eXAiOiJkcG9wK2p3dCIsImFsZyI6IlBTMjU2IiwiandrIjp7Imt0eSI6" ++
  "IlJTQSIsIm4iOiJwLWR5QUw5T0Z4ZExISTJTSkxMRGxLcDQ5enEzYVFNRFdi" ++
  "cDYtOXR1TGpWLXR0TGRpNERxdS1lc24xU0JXUGFidXltNVI2TE9uR3lXWk53" ++
  "RmdNX2FteUNTOXFXY3FmUDNLWFBJZHlFTDBLQWNVdEJXQl8tZXFCdU5vYTI4" ++
  "aTZlRm9LazR6ZEd4ZzN2UVdDQkU1SHVic0R6TVdNOFdjSTNwZGdSZDkxaWpK" ++
  "S181ZXdLNFpUS3pFVDE4WUQ3T3V0WmgyX0JXT2pvRVloYi1DRll6bklVQW1r" ++
  "ZlZkMGVDZnNmZExlRU5DWXlWQnpyVlRJMk4zRzM0U1dkV3Ftb0FLeVR5eFl3" ++
  "SEZqSzJNbl9yRFJaSHc1R3BFbE12OGw5TGw1dVRubTI2RWFUcEVNUFE3d2dn" ++
  "T21TYVd6MVpNbktldHFzLXNxZnB4blpTRE9DcFJDdTFPS25hV1EiLCJlIjoi" ++
  "QVFBQiIsInAiOiI1LTlJS3RCOENkN0dGSWo1Q3RMZ1d0aU1yYmtpQmRNT2JC" ++
  "emE1RnE1WDBiMnZOWTZkazhUdGlOb2FjQW8yeEdpNFkyXzdpZXNGNkVTRzJr" ++
  "bXpUaWJrSU5EaW1wSW1lMlV0cVR2ZWJJTWxuRDFzY0NBZ1pWby1YUVAyeXM1" ++
  "dGVaczBJc2JkZE5UZS02cGVlUEVDci11TkRZakVLd2Fvb2E5Y3ZCamFmNGFq" ++
  "aDgifX0"

/-- The claims of the proof, as they are sent. -/
def rsaPayload : String :=
  "eyJodG0iOiJHRVQiLCJodHUiOiJodHRwczovL2FwaS5leGFtcGxlLmNvbS90" ++
  "aWNrZXRzIiwiaWF0IjoxNzY3MjI1NjAwLCJqdGkiOiJwcm9vZi01In0"

/-- The signature of the proof. -/
def rsaSignature : String :=
  "VkbOiQdEIDoyjd8BD7a2EBra__0DtLmc-bMQRvYxOgoqMUYozdO43-pAV2eu" ++
  "vS-5EWkfc6RFc8cs6V2QuVu6bRBfm0AsroiLrvgcQsA50asDBG8u2DXinONg" ++
  "IufJDYbHrqOk0HqrLLl8UBtl8pCY-YjoVBvXJTUTLt708ahyAAfaw83qpuf7" ++
  "acsk3xcGN1mTTGjUDECg70pMp1zkIQorKreYfmTwaUhzNhXZxLrfQJqUY2Du" ++
  "oO4aeL1u08RSR6v2dNigJozYilm5iY87EKixpYyMmcaqUzvvwvlvRSBkJ4s1" ++
  "-x7XE9VYuKp_wMPb93JZ0VQ71zucyTr5FvkFOt5vgA"

/-- The object under `jwk`. -/
def rsaSent : Members :=
  [("kty", .str "RSA"), ("n", .str rsaModulus), ("e", .str "AQAB"),
    ("p", .str rsaPrime)]

/-- The header as JSON. -/
def rsaMembers : Members :=
  [("typ", .str "dpop+jwt"), ("alg", .str "PS256"), ("jwk", .obj rsaSent)]

/-- A proof whose header carries a prime factor of its RSA modulus. -/
def rsaProof : SampleProof where
  segment := rsaSegment
  text := rsaSegment ++ "." ++ (rsaPayload ++ "." ++ rsaSignature)
  headerText :=
    "\x7b\"typ\":\"dpop+jwt\",\"alg\":\"PS256\",\"jwk\":\x7b\"kty\":\"RSA\",\"n\":\"" ++
      rsaModulus ++ "\",\"e\":\"AQAB\",\"p\":\"" ++ rsaPrime ++ "\"\x7d\x7d"
  headerJson := .obj rsaMembers
  header :=
    { typ := some "dpop+jwt"
      alg := .PS256
      jwk := some ⟨none, .rsa rsaModulus "AQAB"⟩ }
  thumbprint := "wv51bBcwfxy2mkHY55B3uA-71mhaKAn0kLFqne4dF6M"
  claims := sampleClaims "proof-5" none none

def rsaLibraries : ProofExternals :=
  sampleLibraries [rsaProof] sampleTokens
    [("https://api.example.com/tickets", ticketsUrl)]

theorem rsaSegment_plain : rsaSegment.toList.all (· != '.') = true := by
  unfold rsaSegment
  simp only [String.toList_append, List.all_append, Bool.and_eq_true]
  and_intros <;> decide +kernel

theorem rsaPayload_plain : rsaPayload.toList.all (· != '.') = true := by
  unfold rsaPayload
  simp only [String.toList_append, List.all_append, Bool.and_eq_true]
  and_intros <;> decide +kernel

theorem rsaSignature_plain : rsaSignature.toList.all (· != '.') = true := by
  unfold rsaSignature
  simp only [String.toList_append, List.all_append, Bool.and_eq_true]
  and_intros <;> decide +kernel

theorem not_mem_of_plain {s : String} (h : s.toList.all (· != '.') = true) :
    '.' ∉ s.toList := by
  intro hmem
  have hne := List.all_eq_true.mp h _ hmem
  simp at hne

theorem rsaProof_split : Split rsaProof.text rsaSegment rsaPayload rsaSignature :=
  ⟨rfl, not_mem_of_plain rsaPayload_plain,
    not_mem_of_plain rsaSignature_plain⟩

/-- The library's Base64, on the header of the proof. -/
def rsaBase64 (segment : String) : Option (List UInt8) :=
  if segment = rsaSegment then some (asciiBytes rsaProof.headerText) else none

theorem rsaLibraries_bytes :
    rsaLibraries.base64Decode rsaSegment =
      some (asciiBytes rsaProof.headerText) := by
  simp [rsaLibraries, sampleLibraries, rsaProof]

theorem rsaLibraries_json :
    rsaLibraries.fromSlice (asciiBytes rsaProof.headerText) =
      some (.obj rsaMembers) := by
  simp [rsaLibraries, sampleLibraries, rsaProof]

theorem rsaMembers_jwk : rsaMembers.filter (fun e => e.1 == "jwk") =
    [("jwk", .obj rsaSent)] := by
  simp [rsaMembers]

theorem rsaSent_kty : claim "kty" rsaSent = some (.str "RSA") := by
  simp [claim, rsaSent]

theorem rsaLibraries_decodeHeader {proof : String} {header : Header}
    (h : rsaLibraries.decodeHeader proof = .ok header) :
    proof = rsaProof.text ∧ header = rsaProof.header := by
  simp only [rsaLibraries, sampleLibraries] at h
  split at h
  · rename_i p hp
    obtain rfl := Except.ok.inj h
    have hmem := List.mem_singleton.mp (List.mem_of_find?_eq_some hp)
    subst hmem
    have htext : rsaProof.text = proof := by simpa using List.find?_some hp
    exact ⟨htext.symm, rfl⟩
  · cases h

theorem rsaLibraries_reader : HeaderReader rsaLibraries rsaBase64 where
  alphabet {segment bytes} h := by
    unfold rsaBase64 at h
    split at h
    · rename_i hsegment
      rw [hsegment]
      exact not_mem_of_plain rsaSegment_plain
    · cases h
  agree {segment bytes bytes'} h h' := by
    unfold rsaBase64 at h
    split at h
    · rename_i hsegment
      rw [hsegment, rsaLibraries_bytes] at h'
      exact Option.some.inj (h'.symm.trans h)
    · cases h
  header {proof header jwk} h hjwk := by
    obtain ⟨rfl, rfl⟩ := rsaLibraries_decodeHeader h
    have hkey : jwk = ⟨none, .rsa rsaModulus "AQAB"⟩ :=
      (Option.some.inj hjwk).symm
    refine ⟨rsaSegment, rsaPayload, rsaSignature,
      asciiBytes rsaProof.headerText, rsaMembers, rsaSent, rsaProof_split,
      if_pos rfl, rsaLibraries_json, rsaMembers_jwk, ?_⟩
    rw [hkey]
    exact rsaSent_kty

/-- What is made of the proof. -/
def rsaValidated : ValidatedProof where
  jwk := ⟨none, .rsa rsaModulus "AQAB"⟩
  claims := rsaProof.claims
  jwkThumbprint := rsaProof.thumbprint

theorem rsaProof_checked :
    checkProof rsaLibraries [.ES256, .PS256] rsaProof.text =
      .ok rsaValidated := by
  have hsegment : firstSegment rsaProof.text = rsaSegment :=
    firstSegment_append rsaSegment_plain
  have hprivate : rejectPrivateHeaderJwk rsaLibraries rsaProof.text = .ok () := by
    refine rejectPrivateHeaderJwk_ok _ ?_ rsaLibraries_json
      (valueGet_of_filter rsaMembers_jwk) ?_ ?_
    · rw [hsegment]
      exact rsaLibraries_bytes
    · simp [containsKey, rsaSent]
    · simp [containsKey, rsaSent]
  have hfind : [rsaProof].find? (fun p => p.text == rsaProof.text) =
      some rsaProof := List.find?_cons_of_pos (beq_self_eq_true _)
  have hfamily : Algorithm.PS256.family = (Dpop.sampleKey
      ⟨none, .rsa rsaModulus "AQAB"⟩).family := rfl
  refine (checkProof_eq_ok _).mpr
    ⟨rsaProof.header, Dpop.sampleKey ⟨none, .rsa rsaModulus "AQAB"⟩,
      by decide +kernel, hprivate, ?_, rfl, by decide, rfl, rfl, ?_, rfl, ?_⟩
  · simp only [rsaLibraries, sampleLibraries, hfind]
  · simp [rsaLibraries, sampleLibraries, rsaProof, rsaValidated]
  · simp only [rsaLibraries, sampleLibraries, hfind]
    simp [rsaProof, rsaValidated, hfamily]

/-- The proof has arrived. -/
def rsaArrival : Config Point DpopSrv Chance DpopCall Answer :=
  (Config.start (started sampleClock)).set 0
    (.validate (ticketsContext rsaProof false))
    (validateBody rsaLibraries (proofState false)
      (ticketsContext rsaProof false) rsaValidated)

/-- It is answered. -/
def rsaRun : Config Point DpopSrv Chance DpopCall Answer :=
  ((dpopSystem rsaLibraries (proofState false)).exec .all rsaArrival
    [stepOf 0, stepOf 0, stepOf 0]).get (by decide +kernel)

theorem rsaRun_reaches :
    (dpopSystem rsaLibraries (proofState false)).Reaches .all
      (Config.start (started sampleClock)) rsaRun := by
  have hbody : (dpopSystem rsaLibraries (proofState false)).body
      (.validate (ticketsContext rsaProof false)) =
      validateBody rsaLibraries (proofState false)
        (ticketsContext rsaProof false) rsaValidated :=
    validate_body _ rsaProof_checked
  have hcall : (dpopSystem rsaLibraries (proofState false)).Reaches .all
      (Config.start (started sampleClock)) rsaArrival :=
    System.Reaches.called .refl rfl hbody
  exact hcall.trans
    (System.exec_reaches (Check.implies_all .all) (Option.some_get _).symm)

theorem rsaRun_answer : rsaRun.answer 0 =
    some (.validate (ticketsContext rsaProof false),
      .proof (.ok rsaValidated)) :=
  answer_of_accepted (by decide +kernel)

theorem rsaProof_sent : SentJwk rsaLibraries rsaProof.text rsaSent := by
  have hsegment : firstSegment rsaProof.text = rsaSegment :=
    firstSegment_of_split rsaProof_split (not_mem_of_plain rsaSegment_plain)
  refine ⟨asciiBytes rsaProof.headerText, rsaMembers, ?_, rsaLibraries_json, ?_⟩
  · rw [hsegment]
    exact rsaLibraries_bytes
  · simp [rsaMembers]

/-- **A proof is accepted with a prime of its key in the header.** -/
theorem rsaProof_accepted :
    HeaderReader rsaLibraries rsaBase64 ∧
    (dpopSystem rsaLibraries (proofState false)).Reaches .all
      (Config.start (started sampleClock)) rsaRun ∧
    rsaRun.answer 0 = some (.validate (ticketsContext rsaProof false),
      .proof (.ok rsaValidated)) ∧
    ¬ ∀ sent, SentJwk rsaLibraries (ticketsContext rsaProof false).proof sent →
      NoPrivate sent := by
  refine ⟨rsaLibraries_reader, rsaRun_reaches, rsaRun_answer, fun hnone => ?_⟩
  have hclear := hnone rsaSent rsaProof_sent "RSA" "p" rsaSent_kty (by decide)
  have hprime : containsKey "p" rsaSent = true := by simp [containsKey, rsaSent]
  rw [hclear] at hprime
  cases hprime

/-- What the theorem says of this proof. -/
theorem accepted_carries_no_private_iff_rsa :
    (∀ sent, SentJwk rsaLibraries (ticketsContext rsaProof false).proof sent →
      NoPrivate sent) ↔
      ¬ SentRsaPrimes rsaLibraries (ticketsContext rsaProof false).proof :=
  (accepted_carries_no_private_iff rsaLibraries (proofState false)
    rsaLibraries_reader rfl rsaRun_reaches 0 _ _ rsaRun_answer).2.2.2

end DpopAuth.Ports.PublicKeys
