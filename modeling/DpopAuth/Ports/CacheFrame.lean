import Mathlib.Data.Set.Insert
import DpopAuth.Ports.DpopSteps

/-!
# What a call leaves in the caches

A call is taken from its first step to its last, from any state and at any
pace.  `Admission` lists how the signed part of `validate_dpop_proof` can end
and what it has done to the two caches by then.  A call of
`validate_dpop_proof` that fails has entered no `jti`.  A request has when it
is refused for the key of its access token: that check comes last, after the
`jti` has been entered.

## Main results

* `validate_frame` — `validate_dpop_proof` keeps its word.
* `call_frame_iff` — the layer does unless the request is a `Stray` one.
-/

namespace DpopAuth.Ports.CacheFrame

open DpopAuth.Verified.Resumption
open DpopAuth.Verified.TtlCache
open DpopAuth.Ports.Errors
open DpopAuth.Ports.Config
open DpopAuth.Ports.Token
open DpopAuth.Ports.AccessToken
open DpopAuth.Ports.Htu
open DpopAuth.Ports.Dpop
open DpopAuth.Ports.DpopSteps

variable {ext : ProofExternals} {st : DpopState} {ctx : ValidationContext}
  {i : Nat} {s s' : DpopSrv}

/-! ## Errors -/

/-- The nonce an error carries. -/
def challenge? : DpopError → Option String
  | .tokenNonceRequired n => some n
  | .resourceNonceRequired n => some n
  | _ => none

@[simp] theorem challenge_nonceRequiredError {accessToken : Option String}
    {n : String} : challenge? (nonceRequiredError accessToken n) = some n := by
  unfold nonceRequiredError
  split <;> rfl

theorem challenge_rejectPrivate {proof : String} {e : DpopError}
    (h : rejectPrivateHeaderJwk ext proof = .error e) : challenge? e = none := by
  unfold rejectPrivateHeaderJwk at h
  split at h
  · cases h
    rfl
  · split at h
    · cases h
      rfl
    · split at h
      · split at h
        · cases h
          rfl
        · cases h
      · cases h

theorem challenge_ensurePublic {jwk : Jwk} {e : DpopError}
    (h : ensurePublicJwk jwk = .error e) : challenge? e = none := by
  unfold ensurePublicJwk at h
  split at h
  · cases h
    rfl
  · split at h
    · split at h
      · cases h
        rfl
      · cases h
    · cases h

theorem challenge_checkProof {algs : List Algorithm} {proof : String}
    {e : DpopError} (h : checkProof ext algs proof = .error e) :
    challenge? e = none := by
  unfold checkProof at h
  split at h
  · cases h
    rfl
  split at h
  · rename_i hprivate
    cases h
    exact challenge_rejectPrivate hprivate
  split at h
  · cases h
    rfl
  split at h
  · cases h
    rfl
  split at h
  · cases h
    rfl
  split at h
  · cases h
    rfl
  split at h
  · rename_i hpublic
    cases h
    exact challenge_ensurePublic hpublic
  split at h
  · cases h
    rfl
  split at h
  · cases h
    rfl
  split at h
  · cases h
  · cases h
    rfl
  · cases h
    rfl
  · cases h
    rfl

theorem challenge_normalizeHtu {parse : Parse} {raw : String} {e : DpopError}
    (h : normalizeHtu parse raw = .error e) : challenge? e = none := by
  unfold normalizeHtu at h
  split at h
  · cases h
    rfl
  · cases h

theorem challenge_checkRequest {claims : DpopClaims} {now : Nat}
    {e : DpopError} (h : checkRequest ext ctx claims now = .error e) :
    challenge? e = none := by
  unfold checkRequest at h
  split at h
  · cases h
    rfl
  split at h
  · cases h
    rfl
  split at h
  · rename_i hparse
    cases h
    exact challenge_normalizeHtu hparse
  split at h
  · rename_i hparse
    cases h
    exact challenge_normalizeHtu hparse
  split at h
  · cases h
    rfl
  · cases h

theorem challenge_checkAth {accessToken ath : Option String} {e : DpopError}
    (h : checkAth ext accessToken ath = .error e) : challenge? e = none := by
  unfold checkAth at h
  split at h
  · cases h
  split at h
  · cases h
    rfl
  split at h
  · cases h
    rfl
  · cases h

theorem challenge_verifyToken {token : String} {now : Nat} {e : DpopError}
    (h : verifyToken ext st token now = .error e) : challenge? e = none := by
  unfold verifyToken verifyAccessToken at h
  dsimp only at h
  split at h
  · cases h
  · cases h
    rfl
  · cases h
    rfl
  · cases h
    rfl

theorem challenge_extract {req : Request} {e : DpopError}
    (h : extract req = .error e) : challenge? e = none := by
  unfold extract at h
  split at h
  · cases h
    rfl
  split at h
  · rename_i hone
    cases h
    unfold exactlyOneDpopHeader at hone
    split at hone
    · cases hone
      rfl
    · split at hone
      · cases hone
      · cases hone
        rfl
    · cases hone
      rfl
  · cases h

/-! ## How it ends -/

/-- **The proof passes every check** of `admitProof`, and its `jti` is new.  The
choices say when the clock is read, when the nonce is checked and when the
`jti` is looked up. -/
def Passes (ext : ProofExternals) (st : DpopState) (ctx : ValidationContext)
    (v : ValidatedProof) (s : DpopSrv) (cs : List Chance) : Prop :=
  ∃ c₁ c₂ c₃, cs = [c₁, c₂, c₃] ∧
    checkRequest ext ctx v.claims (seconds (s.clock + c₁.elapsed)) = .ok () ∧
    nonceGate s.nonceCache (s.clock + c₁.elapsed + c₂.elapsed : Nat)
      ctx.nonceRequired v.claims.nonce = true ∧
    checkAth ext ctx.accessToken v.claims.ath = .ok () ∧
    s.jtiCache.get st.jtiNanos
      (s.clock + c₁.elapsed + c₂.elapsed + c₃.elapsed : Nat) v.claims.jti = none

/-- **How `admitProof` ends**, taken from its first step to its last with these
choices from the state `s`. -/
inductive Admission (ext : ProofExternals) (st : DpopState)
    (ctx : ValidationContext) (v : ValidatedProof) (s : DpopSrv)
    (cs : List Chance) : Except DpopError ValidatedProof → DpopSrv → Prop
  | refused {e : DpopError} {s' : DpopSrv}
      (hnot : ¬ Passes ext st ctx v s cs) (herror : challenge? e = none)
      (hjti : s'.jtiCache = s.jtiCache)
      (hnonce : s'.nonceCache = s.nonceCache) :
      Admission ext st ctx v s cs (.error e) s'
  | challenged {n : String} {s' : DpopSrv}
      (hnot : ¬ Passes ext st ctx v s cs) (hjti : s'.jtiCache = s.jtiCache)
      (hnonce : s'.nonceCache = s.nonceCache.insert s'.clock n true) :
      Admission ext st ctx v s cs
        (.error (nonceRequiredError ctx.accessToken n)) s'
  | admitted {s' : DpopSrv} (hpasses : Passes ext st ctx v s cs)
      (hnew : s.jtiCache.get st.jtiNanos s'.clock v.claims.jti = none)
      (hjti : s'.jtiCache = s.jtiCache.insert s'.clock v.claims.jti true)
      (hnonce : s'.nonceCache = s.nonceCache) :
      Admission ext st ctx v s cs (.ok v) s'

theorem admission {v : ValidatedProof} {cs : List Chance}
    {r : Except DpopError ValidatedProof}
    (h : Prog.alone i cs (admitProof ext st ctx v) s = some (r, s')) :
    Admission ext st ctx v s cs r s' := by
  obtain ⟨c₁, cs, readAt, s₁, rfl, hread, h⟩ := Prog.alone_act h
  obtain ⟨rfl, rfl⟩ := Prod.mk.inj (Option.some.inj hread)
  cases hreq : checkRequest ext ctx v.claims (seconds (s.clock + c₁.elapsed)) with
  | error e =>
      rw [hreq] at h
      obtain ⟨rfl, rfl, rfl⟩ := Prog.alone_ret h
      refine .refused ?_ (challenge_checkRequest hreq) rfl rfl
      rintro ⟨d₁, d₂, d₃, hcs, -⟩
      cases hcs
  | ok _ =>
  rw [hreq] at h
  obtain ⟨c₂, cs, passed, s₂, rfl, hcheck, h⟩ := Prog.alone_act h
  obtain ⟨hpassed, rfl⟩ := Prod.mk.inj (Option.some.inj hcheck)
  have hgate : nonceGate s.nonceCache
      (s.clock + c₁.elapsed + c₂.elapsed : Nat) ctx.nonceRequired
      v.claims.nonce = passed := hpassed
  clear hcheck hpassed
  cases passed with
  | true =>
      rw [if_pos rfl] at h
      cases hath : checkAth ext ctx.accessToken v.claims.ath with
      | error e =>
          rw [hath] at h
          obtain ⟨rfl, rfl, rfl⟩ := Prog.alone_ret h
          refine .refused ?_ (challenge_checkAth hath) rfl rfl
          rintro ⟨d₁, d₂, d₃, hcs, -⟩
          cases hcs
      | ok _ =>
      rw [hath] at h
      obtain ⟨c₃, cs, fresh, s₃, rfl, henter, h⟩ := Prog.alone_act h
      rcases enterJti_cases henter with ⟨rfl, rfl, hseen⟩ | ⟨rfl, hnew, rfl⟩
      · obtain ⟨rfl, rfl, rfl⟩ := Prog.alone_ret h
        refine .refused ?_ rfl rfl rfl
        rintro ⟨d₁, d₂, d₃, hcs, -, -, -, hnew⟩
        cases hcs
        have hlive : (s.jtiCache.get st.jtiNanos
            (s.clock + c₁.elapsed + c₂.elapsed + c₃.elapsed : Nat)
            v.claims.jti).isSome := hseen
        rw [hnew] at hlive
        cases hlive
      · obtain ⟨rfl, rfl, rfl⟩ := Prog.alone_ret h
        exact .admitted ⟨c₁, c₂, c₃, rfl, hreq, hgate, hath, hnew⟩ hnew rfl rfl
  | false =>
      rw [if_neg Bool.false_ne_true] at h
      obtain ⟨c₃, cs, n, s₃, rfl, hinsert, h⟩ := Prog.alone_act h
      obtain ⟨rfl, rfl, rfl⟩ := Prog.alone_ret h
      unfold insertNonce at hinsert
      dsimp only at hinsert
      split at hinsert
      · cases hinsert
      · obtain ⟨rfl, rfl⟩ := Prod.mk.inj (Option.some.inj hinsert)
        refine .challenged ?_ rfl rfl
        rintro ⟨d₁, d₂, d₃, hcs, -, hpass, -⟩
        cases hcs
        exact absurd (hgate.symm.trans hpass) Bool.false_ne_true

/-! ## The frame -/

/-- The keys a cache holds at a moment, expired ones left out. -/
def liveKeys (ttl now : Int) (c : Cache String Bool) : Set String :=
  {k | (c.get ttl now k).isSome}

theorem liveKeys_insert {ttl now : Int} (httl : 0 < ttl) {k : String}
    {c : Cache String Bool} :
    liveKeys ttl now (c.insert now k true) = insert k (liveKeys ttl now c) := by
  ext l
  rw [Set.mem_insert_iff]
  show ((c.insert now k true).get ttl now l).isSome ↔
    l = k ∨ (c.get ttl now l).isSome
  by_cases hl : l = k
  · subst hl
    rw [Cache.get_insert_isSome]
    have hlive : now < now + ttl := by omega
    simp [hlive]
  · rw [Cache.get_insert_ne hl]
    simp [hl]

/-- **The `jti` cache after a call**, compared with the cache before it at the
moment the call ends: `jti` is the one of the proof. -/
def JtiFrame {α : Type} (st : DpopState) (jti : Option String) (s : DpopSrv)
    (r : Except DpopError α) (s' : DpopSrv) : Prop :=
  match r with
  | .error _ =>
      liveKeys st.jtiNanos s'.clock s'.jtiCache =
        liveKeys st.jtiNanos s'.clock s.jtiCache
  | .ok _ => ∃ k, jti = some k ∧
      k ∉ liveKeys st.jtiNanos s'.clock s.jtiCache ∧
      liveKeys st.jtiNanos s'.clock s'.jtiCache =
        insert k (liveKeys st.jtiNanos s'.clock s.jtiCache)

/-- The nonce a call returned with its error. -/
def returnedNonce {α : Type} : Except DpopError α → Option String
  | .error e => challenge? e
  | .ok _ => none

/-- **The nonce cache after a call**, compared in the same way. -/
def NonceFrame {α : Type} (s : DpopSrv) (r : Except DpopError α)
    (s' : DpopSrv) : Prop :=
  match returnedNonce r with
  | none => s'.nonceCache = s.nonceCache
  | some n =>
      liveKeys nonceTtl s'.clock s'.nonceCache =
        insert n (liveKeys nonceTtl s'.clock s.nonceCache)

/-- The `jti` of a proof that passes. -/
def jtiOf (ext : ProofExternals) (algs : List Algorithm) (proof : String) :
    Option String :=
  match checkProof ext algs proof with
  | .ok v => some v.claims.jti
  | .error _ => none

theorem nonceTtl_pos : 0 < nonceTtl := by
  unfold nonceTtl
  omega

theorem jtiNanos_pos {config : DpopConfig} (h : DpopState.new config = some st) :
    0 < st.jtiNanos := by
  have hnanos : 0 < st.jtiTtl.asNanos := by
    rw [(DpopState.of_new h).2]
    exact Nat.succ_pos _
  exact Int.natCast_pos.mpr hnanos

section Frames

variable (httl : 0 < st.jtiNanos)

include httl

theorem Admission.jtiFrame {v : ValidatedProof} {cs : List Chance}
    {r : Except DpopError ValidatedProof} (h : Admission ext st ctx v s cs r s') :
    JtiFrame st (some v.claims.jti) s r s' := by
  cases h with
  | refused hnot herror hjti hnonce =>
      show liveKeys _ _ _ = liveKeys _ _ _
      rw [hjti]
  | challenged hnot hjti hnonce =>
      show liveKeys _ _ _ = liveKeys _ _ _
      rw [hjti]
  | admitted hpasses hnew hjti hnonce =>
      refine ⟨v.claims.jti, rfl, ?_, ?_⟩
      · show ¬ (s.jtiCache.get st.jtiNanos s'.clock v.claims.jti).isSome
        rw [hnew]
        exact Bool.false_ne_true
      · rw [hjti]
        exact liveKeys_insert httl

omit httl

theorem Admission.nonceFrame {v : ValidatedProof} {cs : List Chance}
    {r : Except DpopError ValidatedProof} (h : Admission ext st ctx v s cs r s') :
    NonceFrame s r s' := by
  unfold NonceFrame
  cases h with
  | refused hnot herror hjti hnonce =>
      show (match challenge? _ with | none => _ | some n => _)
      rw [herror]
      exact hnonce
  | challenged hnot hjti hnonce =>
      show (match challenge? _ with | none => _ | some n => _)
      rw [challenge_nonceRequiredError, hnonce]
      exact liveKeys_insert nonceTtl_pos
  | admitted hpasses hnew hjti hnonce => exact hnonce

end Frames

/-! ## Whole calls -/

/-- **A stray request**: its token and its proof pass every check, but the
proof is signed with another key than the one the token is bound to. -/
def Stray (ext : ProofExternals) (st : DpopState) (req : Request) (s : DpopSrv)
    (cs : List Chance) : Prop :=
  ∃ x v claims c₀ cs₁, cs = c₀ :: cs₁ ∧ extract req = .ok x ∧
    verifyToken ext st x.token (seconds (s.clock + c₀.elapsed)) = .ok claims ∧
    checkProof ext st.config.allowedAlgs x.proof = .ok v ∧
    Passes ext st (requestContext st.config x) v (s.later c₀) cs₁ ∧
    claims.cnf.jkt ≠ v.jwkThumbprint

/-- The `jti` of the proof of a request. -/
def requestJti (ext : ProofExternals) (st : DpopState) (req : Request) :
    Option String :=
  match extract req with
  | .ok x => jtiOf ext st.config.allowedAlgs x.proof
  | .error _ => none

/-- A failure before the first access to a cache. -/
theorem frame_early {α : Type} {jti : Option String} {e : DpopError}
    (herror : challenge? e = none) (hjti : s'.jtiCache = s.jtiCache)
    (hnonce : s'.nonceCache = s.nonceCache) :
    JtiFrame st jti s (.error e : Except DpopError α) s' ∧
      NonceFrame s (.error e : Except DpopError α) s' := by
  constructor
  · show liveKeys _ _ _ = liveKeys _ _ _
    rw [hjti]
  · unfold NonceFrame
    show (match challenge? e with | none => _ | some n => _)
    rw [herror]
    exact hnonce

/-- **`validate_dpop_proof` enters no `jti` but the one it accepts**, and no
nonce but the one it returns. -/
theorem validate_frame (httl : 0 < st.jtiNanos) {cs : List Chance}
    {r : Except DpopError ValidatedProof}
    (hrun : Prog.alone i cs (validateDpopProof ext st ctx) s = some (r, s')) :
    JtiFrame st (jtiOf ext ctx.allowedAlgs ctx.proof) s r s' ∧
      NonceFrame s r s' := by
  unfold validateDpopProof at hrun
  unfold jtiOf
  cases hproof : checkProof ext ctx.allowedAlgs ctx.proof with
  | error e =>
      rw [hproof] at hrun
      obtain ⟨-, rfl, rfl⟩ := Prog.alone_ret hrun
      exact frame_early (challenge_checkProof hproof) rfl rfl
  | ok v =>
      rw [hproof] at hrun
      have hadmission := admission hrun
      exact ⟨hadmission.jtiFrame httl, hadmission.nonceFrame⟩

/-- The end of a request whose proof is signed. -/
theorem Admission.bound (httl : 0 < st.jtiNanos) {v : ValidatedProof}
    {claims : AccessTokenClaims} {cs : List Chance}
    {r : Except DpopError ValidatedProof} (h : Admission ext st ctx v s cs r s') :
    (JtiFrame st (some v.claims.jti) s (bindSession claims r) s' ∧
      NonceFrame s (bindSession claims r) s') ↔
      ¬ (Passes ext st ctx v s cs ∧ claims.cnf.jkt ≠ v.jwkThumbprint) := by
  have hjti := h.jtiFrame httl
  have hnonce := h.nonceFrame
  cases h with
  | refused hnot => exact iff_of_true ⟨hjti, hnonce⟩ fun hstray => hnot hstray.1
  | challenged hnot =>
      exact iff_of_true ⟨hjti, hnonce⟩ fun hstray => hnot hstray.1
  | admitted hpasses hnew hins hsame =>
      by_cases hjkt : claims.cnf.jkt = v.jwkThumbprint
      · rw [bindSession_ok hjkt]
        exact iff_of_true ⟨hjti, hsame⟩ fun hstray => hstray.2 hjkt
      · rw [bindSession_error hjkt]
        refine iff_of_false (fun hframe => ?_) fun hno => hno ⟨hpasses, hjkt⟩
        -- the key the call has entered was not live before
        have hkeys : liveKeys st.jtiNanos s'.clock s'.jtiCache =
            liveKeys st.jtiNanos s'.clock s.jtiCache := hframe.1
        obtain ⟨k, hk, hfresh, hinsert⟩ := hjti
        have hmem : k ∈ liveKeys st.jtiNanos s'.clock s'.jtiCache := by
          rw [hinsert]
          exact Set.mem_insert _ _
        rw [hkeys] at hmem
        exact hfresh hmem

/-- **The layer** does the same, unless the request is stray. -/
theorem call_frame (httl : 0 < st.jtiNanos) {req : Request} {cs : List Chance}
    {r : Except DpopError ValidatedSession}
    (hrun : Prog.alone i cs (call ext st req) s = some (r, s')) :
    (JtiFrame st (requestJti ext st req) s r s' ∧ NonceFrame s r s') ↔
      ¬ Stray ext st req s cs := by
  unfold requestJti
  cases hextract : extract req with
  | error e =>
      unfold call at hrun
      rw [hextract] at hrun
      obtain ⟨-, rfl, rfl⟩ := Prog.alone_ret hrun
      refine iff_of_true (frame_early (challenge_extract hextract) rfl rfl) ?_
      rintro ⟨x, v, claims, c₀, cs₁, -, hx, -⟩
      rw [hextract] at hx
      cases hx
  | ok x =>
  unfold call at hrun
  rw [hextract] at hrun
  obtain ⟨c₀, cs, readAt, s₁, rfl, hread, hrun⟩ := Prog.alone_act hrun
  obtain ⟨rfl, rfl⟩ := Prod.mk.inj (Option.some.inj hread)
  cases htoken : verifyToken ext st x.token (seconds (s.clock + c₀.elapsed)) with
  | error e =>
      rw [htoken] at hrun
      obtain ⟨-, rfl, rfl⟩ := Prog.alone_ret hrun
      refine iff_of_true (frame_early (challenge_verifyToken htoken) rfl rfl) ?_
      rintro ⟨x', v, claims, d₀, cs₁, hcs, hx, htoken', -⟩
      cases hcs
      rw [hextract] at hx
      cases hx
      rw [htoken] at htoken'
      cases htoken'
  | ok claims =>
  rw [htoken] at hrun
  obtain ⟨cs₁, cs₂, r', s₂, rfl, hvalidate, hret⟩ := Prog.alone_bind hrun
  obtain ⟨rfl, rfl, rfl⟩ := Prog.alone_ret hret
  rw [List.append_nil] at *
  rw [Prog.alone_mapPoint] at hvalidate
  show (JtiFrame st (jtiOf ext st.config.allowedAlgs x.proof) s _ s' ∧ _) ↔ _
  unfold jtiOf
  unfold validateDpopProof at hvalidate
  cases hproof : checkProof ext st.config.allowedAlgs x.proof with
  | error e =>
      have hproof' : checkProof ext (requestContext st.config x).allowedAlgs
          (requestContext st.config x).proof = .error e := hproof
      rw [hproof'] at hvalidate
      obtain ⟨-, rfl, rfl⟩ := Prog.alone_ret hvalidate
      refine iff_of_true (frame_early (challenge_checkProof hproof) rfl rfl) ?_
      rintro ⟨x', v, claims', d₀, cs₁, -, hx, -, hproof', -⟩
      rw [hextract] at hx
      cases hx
      rw [hproof] at hproof'
      cases hproof'
  | ok v =>
      have hproof' : checkProof ext (requestContext st.config x).allowedAlgs
          (requestContext st.config x).proof = .ok v := hproof
      rw [hproof'] at hvalidate
      have hbound : (JtiFrame st (some v.claims.jti) s (bindSession claims r')
          s' ∧ NonceFrame s (bindSession claims r') s') ↔ _ :=
        (admission hvalidate).bound httl
      refine hbound.trans (not_congr ?_)
      constructor
      · intro hstray
        exact ⟨x, v, claims, c₀, cs₁, rfl, hextract, htoken, hproof, hstray⟩
      · rintro ⟨x', v', claims', d₀, cs₂, hcs, hx, htoken', hproof', hstray⟩
        cases hcs
        rw [hextract] at hx
        cases hx
        rw [htoken] at htoken'
        cases htoken'
        rw [hproof] at hproof'
        cases hproof'
        exact hstray

/-- **Rejected requests do not consume a `jti`**, and the nonce cache changes
only by a nonce that is returned: always for `validate_dpop_proof`, and for a
request to the layer exactly when it is not a stray one. -/
theorem rejected_consumes_nothing_iff (ext : ProofExternals)
    {config : DpopConfig} {st : DpopState}
    (hnew : DpopState.new config = some st) :
    (∀ ctx i cs s r s',
      Prog.alone i cs (validateDpopProof ext st ctx) s = some (r, s') →
      JtiFrame st (jtiOf ext ctx.allowedAlgs ctx.proof) s r s' ∧
        NonceFrame s r s') ∧
    ∀ req i cs s r s',
      Prog.alone i cs (call ext st req) s = some (r, s') →
      ((JtiFrame st (requestJti ext st req) s r s' ∧ NonceFrame s r s') ↔
        ¬ Stray ext st req s cs) :=
  ⟨fun _ _ _ _ _ _ hrun => validate_frame (jtiNanos_pos hnew) hrun,
    fun _ _ _ _ _ _ hrun => call_frame (jtiNanos_pos hnew) hrun⟩

/-! ## A stray request -/

theorem strayProof_checked :
    checkProof proofLibraries [.ES256, .PS256] strayProof.text =
      .ok strayProof.validated :=
  checkProof_sample (by decide) (by decide +kernel)
    (((List.find?_cons_of_neg (by decide +kernel)).trans
      (List.find?_cons_of_neg (by decide +kernel))).trans
      ((List.find?_cons_of_neg (by decide +kernel)).trans
        (List.find?_cons_of_pos (beq_self_eq_true _))))

theorem strayToken_printable : strayToken.toList.all isPrintable = true := by
  unfold strayToken
  refine all_append (all_append (all_append (all_append (all_append ?_ ?_) ?_)
    ?_) ?_) ?_ <;> simp [isPrintable]

theorem strayProof_printable :
    strayProof.text.toList.all isPrintable = true := by
  refine sampleProof_printable ?_ ?_
  · refine all_append (all_append (all_append ?_ ?_) ?_) ?_ <;> simp [isPrintable]
  · refine all_append ?_ ?_ <;> simp [isPrintable]

/-- What the request becomes. -/
theorem strayRequest_call :
    call proofLibraries (proofState false)
        (ticketsRequest strayToken strayProof) =
      admitRequest proofLibraries (proofState false)
        ⟨strayToken, strayProof.text, "GET", "/tickets"⟩
        strayProof.validated :=
  call_eq _ (extract_ticketsRequest strayToken_printable strayProof_printable)
    strayProof_checked

/-- The four steps of the request. -/
def strayChoices : List Chance := List.replicate 4 ⟨500000000, sampleNonce⟩

/-- The result of the request, and the state it leaves. -/
def strayEnd : Except DpopError ValidatedSession × DpopSrv :=
  (Prog.alone 0 strayChoices
    (admitRequest proofLibraries (proofState false)
      ⟨strayToken, strayProof.text, "GET", "/tickets"⟩ strayProof.validated)
    (started sampleClock)).get (by decide +kernel)

/-- The error of a result. -/
def error? {α : Type} : Except DpopError α → Option DpopError
  | .error e => some e
  | .ok _ => none

theorem eq_error {α : Type} {r : Except DpopError α} {e : DpopError}
    (h : error? r = some e) : r = .error e := by
  cases r with
  | error e' => exact congrArg _ (Option.some.inj h)
  | ok a => cases h

theorem strayRequest_run :
    Prog.alone 0 strayChoices (call proofLibraries (proofState false)
      (ticketsRequest strayToken strayProof)) (started sampleClock) =
      some (.error (.invalidSignature "jkt mismatch"), strayEnd.2) := by
  have hresult : strayEnd.1 = .error (.invalidSignature "jkt mismatch") :=
    eq_error (by decide +kernel)
  have hend : Prog.alone 0 strayChoices
      (admitRequest proofLibraries (proofState false)
        ⟨strayToken, strayProof.text, "GET", "/tickets"⟩
        strayProof.validated) (started sampleClock) = some strayEnd := by
    unfold strayEnd
    rw [Option.some_get]
  rw [strayRequest_call, hend, ← hresult]

/-- **A request is refused, and its `jti` is taken.**  The token is bound to
another key than the one that signed the proof. -/
theorem strayRequest_consumes :
    DpopState.new (proofConfig false) = some (proofState false) ∧
    Prog.alone 0 strayChoices (call proofLibraries (proofState false)
      (ticketsRequest strayToken strayProof)) (started sampleClock) =
      some (.error (.invalidSignature "jkt mismatch"), strayEnd.2) ∧
    ¬ JtiFrame (proofState false)
      (requestJti proofLibraries (proofState false)
        (ticketsRequest strayToken strayProof)) (started sampleClock)
      (.error (.invalidSignature "jkt mismatch") :
        Except DpopError ValidatedSession) strayEnd.2 := by
  refine ⟨proofState_new false, strayRequest_run, fun hframe => ?_⟩
  have hkeys : liveKeys (proofState false).jtiNanos strayEnd.2.clock
      strayEnd.2.jtiCache = liveKeys (proofState false).jtiNanos
        strayEnd.2.clock [] := hframe
  have hmem : "proof-4" ∈ liveKeys (proofState false).jtiNanos
      strayEnd.2.clock strayEnd.2.jtiCache := by
    show (strayEnd.2.jtiCache.get _ _ _).isSome = true
    decide +kernel
  rw [hkeys] at hmem
  cases hmem

theorem rejected_consumes_nothing_iff_stray :
    (JtiFrame (proofState false)
        (requestJti proofLibraries (proofState false)
          (ticketsRequest strayToken strayProof)) (started sampleClock)
        (.error (.invalidSignature "jkt mismatch") :
          Except DpopError ValidatedSession) strayEnd.2 ∧
      NonceFrame (started sampleClock)
        (.error (.invalidSignature "jkt mismatch") :
          Except DpopError ValidatedSession) strayEnd.2) ↔
      ¬ Stray proofLibraries (proofState false)
        (ticketsRequest strayToken strayProof) (started sampleClock)
        strayChoices :=
  (rejected_consumes_nothing_iff proofLibraries (proofState_new false)).2 _ _ _
    _ _ _ strayRequest_run

end DpopAuth.Ports.CacheFrame
