import Mathlib.Data.Fintype.EquivFin
import DpopAuth.Verified.Progress
import DpopAuth.Ports.NonceGate
import DpopAuth.Ports.SenderConstraint

/-!
# Requests in order

What the layer refuses is one half of it; the other is that it refuses nobody
else.  A request is in order while its access token, its proof and its nonce
are good.  If its `jti` is not in the cache, and nobody else enters it, the
request is forwarded, whatever the other calls do between its steps.  And it is
answered: no call waits for another.

## Main results

* `body_ends` — a call takes four steps at most, and can always take the next.
* `served_in_order` — a request in order is forwarded.
-/

namespace DpopAuth.Ports.ServedInOrder

open DpopAuth.Verified.Resumption
open DpopAuth.Verified.RelyGuarantee
open DpopAuth.Verified.TtlCache
open DpopAuth.Verified.Progress
open DpopAuth.Ports.Errors
open DpopAuth.Ports.Token
open DpopAuth.Ports.AccessToken
open DpopAuth.Ports.Dpop
open DpopAuth.Ports.DpopSteps
open DpopAuth.Ports.NonceGate
open DpopAuth.Ports.SenderConstraint

variable {ext : ProofExternals} {st : DpopState} {i j : Nat}
  {s s' : DpopSrv} {jti : String}

/-! ## Every call is answered -/

/-- An identifier that has not been issued. -/
theorem exists_unissued (log : List LogEvent) :
    ∃ n, ∀ e ∈ log, e.issued? ≠ some n := by
  have hinfinite : Infinite String :=
    Infinite.of_injective String.ofList fun _ _ h => String.ofList_injective h
  obtain ⟨n, hn⟩ := Infinite.exists_notMem_finset
    (log.filterMap LogEvent.issued?).toFinset
  refine ⟨n, fun e he hissued => hn ?_⟩
  exact List.mem_toFinset.mpr (List.mem_filterMap.mpr ⟨e, he, hissued⟩)

theorem canAlways_readClock : CanAlways readClock :=
  fun _ _ => ⟨⟨0, ""⟩, _, _, rfl⟩

theorem canAlways_readTokenClock : CanAlways readTokenClock :=
  fun _ _ => ⟨⟨0, ""⟩, _, _, rfl⟩

theorem canAlways_checkNonce {required : Bool} {nonce : Option String} :
    CanAlways (checkNonce required nonce) :=
  fun _ _ => ⟨⟨0, ""⟩, _, _, rfl⟩

theorem canAlways_insertNonce : CanAlways insertNonce := by
  intro i s
  obtain ⟨n, hn⟩ := exists_unissued s.log
  have hfresh : ¬ (s.log.any fun e => e.issued? == some n) = true := by
    intro hany
    obtain ⟨e, he, hissued⟩ := List.any_eq_true.mp hany
    exact hn e he (beq_iff_eq.mp hissued)
  exact ⟨⟨0, n⟩, _, _, if_neg hfresh⟩

theorem canAlways_enterJti {ttl : Int} : CanAlways (enterJti ttl jti) := by
  intro i s
  have hsome : (enterJti ttl jti i ⟨0, ""⟩ s).isSome := by
    unfold enterJti
    dsimp only
    split <;> rfl
  obtain ⟨r, hr⟩ := Option.isSome_iff_exists.mp hsome
  exact ⟨⟨0, ""⟩, r.1, r.2, hr⟩

theorem admitProof_ends {ctx : ValidationContext} {v : ValidatedProof} :
    EndsIn 3 (admitProof ext st ctx v) := by
  refine .act canAlways_readClock fun readAt => ?_
  split
  · exact .ret
  refine .act canAlways_checkNonce fun passed => ?_
  split
  · split
    · exact .ret
    · refine .act canAlways_enterJti fun fresh => ?_
      split <;> exact .ret
  · exact .act canAlways_insertNonce fun nonce => .ret

theorem validateDpopProof_ends {ctx : ValidationContext} :
    EndsIn 3 (validateDpopProof ext st ctx) := by
  unfold validateDpopProof
  split
  · exact .ret
  · exact admitProof_ends

/-- **A call takes four steps at most**, and can always take the next. -/
theorem body_ends (q : DpopCall) : EndsIn 4 ((dpopSystem ext st).body q) := by
  cases q with
  | validate ctx =>
      exact EndsIn.bind (m := 1) validateDpopProof_ends.mapPoint fun _ => .ret
  | serve req =>
      refine EndsIn.bind (n := 4) (m := 0) ?_ fun _ => .ret
      show EndsIn 4 (call ext st req)
      unfold call
      split
      · exact .ret
      refine .act canAlways_readTokenClock fun readAt => ?_
      split
      · exact .ret
      · exact EndsIn.bind (m := 0) validateDpopProof_ends.mapPoint fun _ => .ret

/-! ## Requests in order -/

/-- **The request is in order** from `first` to `last`: its access token is
trusted, and its proof is signed, made for this request and this access token,
recent, and by the key that the access token is bound to. -/
structure InOrder (ext : ProofExternals) (st : DpopState) (req : Request)
    (first last : Nat) (x : Extracted) (claims : AccessTokenClaims)
    (v : ValidatedProof) : Prop where
  extracted : extract req = .ok x
  trusted : ∀ t, first ≤ t → t ≤ last →
    verifyToken ext st x.token (seconds t) = .ok claims
  signed : checkProof ext st.config.allowedAlgs x.proof = .ok v
  fits : ∀ t, first ≤ t → t ≤ last →
    checkRequest ext (requestContext st.config x) v.claims (seconds t) = .ok ()
  hashed : checkAth ext (some x.token) v.claims.ath = .ok ()
  bound : claims.cnf.jkt = v.jwkThumbprint

/-- The session it is forwarded with. -/
def sessionOf (claims : AccessTokenClaims) : ValidatedSession :=
  ⟨claims.sub, claims.jti, claims.cnf.jkt, claims.extra⟩

/-- No entry of the `jti` is live, now or later. -/
def Unentered (st : DpopState) (jti : String) (s : DpopSrv) : Prop :=
  ∀ t : Int, s.clock ≤ t → s.jtiCache.get st.jtiNanos t jti = none

/-- What has expired stays so. -/
theorem unentered_of_get
    (h : s.jtiCache.get st.jtiNanos s.clock jti = none) :
    Unentered st jti s := by
  intro t ht
  cases hget : s.jtiCache.get st.jtiNanos t jti with
  | none => rfl
  | some b =>
      obtain ⟨e, he, hkey, hlive, -⟩ := Cache.get_eq_some hget
      have hnow : (s.clock : Int) < e.insertedAt + st.jtiNanos := by omega
      have hfind := List.find?_eq_none.mp (Option.map_eq_none_iff.mp h) e he
      simp [hkey, Entry.live, hnow] at hfind

/-- The cache as it was, later. -/
theorem Unentered.later (h : Unentered st jti s) (hclock : s.clock ≤ s'.clock)
    (hcache : s'.jtiCache = s.jtiCache) : Unentered st jti s' := by
  intro t ht
  rw [hcache]
  exact h t (by omega)

/-- A step that does not enter the `jti`. -/
theorem Unentered.effect (h : Unentered st jti s) (he : Effect st j s s')
    (hother : ∀ t, s'.log ≠ .admitted j jti t :: s.log) :
    Unentered st jti s' := by
  cases he with
  | enter d jti' hnew =>
      have hne : jti ≠ jti' := by
        rintro rfl
        exact hother _ rfl
      intro t ht
      show (s.jtiCache.insert _ jti' true).get _ _ _ = _
      rw [Cache.get_insert_ne hne]
      refine h t (Int.le_trans ?_ ht)
      exact Int.ofNat_le.mpr (Nat.le_add_right _ _)
  | cancel => exact h.later (Nat.le_refl _) rfl
  | _ => exact h.later (Nat.le_add_right _ _) rfl

theorem Unentered.evicts (h : Unentered st jti s) (he : Evicts s s') :
    Unentered st jti s' := by
  cases he with
  | nonce nonce => exact h.later (Nat.le_refl _) rfl
  | jti jti' =>
      intro t ht
      show ((s.jtiCache.evict jti').find _ _ _).map _ = none
      by_cases hjti : jti = jti'
      · subst hjti
        rw [Cache.find_evict_self]
        rfl
      · rw [Cache.find_evict_ne hjti]
        exact h t ht

theorem log_of_effect (h : Effect st i s s') : ∀ e ∈ s.log, e ∈ s'.log := by
  intro e he
  cases h with
  | quiet d => exact he
  | _ => exact List.mem_cons_of_mem _ he

theorem log_of_evicts (h : Evicts s s') : ∀ e ∈ s.log, e ∈ s'.log := by
  intro e he
  cases h <;> exact List.mem_cons_of_mem _ he

/-- Who may pass later may pass before, and after more has happened. -/
theorem entitled_sooner {log log' : List LogEvent} {required : Bool}
    {nonce : Option String} {t t' : Nat} (h : Entitled log required nonce t')
    (hle : t ≤ t') (hlog : ∀ e ∈ log, e ∈ log') :
    Entitled log' required nonce t := by
  refine h.imp id ?_
  rintro ⟨n, hn, k, at', hmem, hlt⟩
  exact ⟨n, hn, k, at', hlog _ hmem, by omega⟩

/-! ## Between its steps -/

/-- Runs up to `last` in which the request of thread `i` is not dropped, no
other thread enters the `jti`, and no nonce is dropped before it expires. -/
def undisturbed (i : Nat) (jti : String) (last : Nat) :
    Filter Point DpopSrv Chance DpopEnv DpopCall where
  run j _ _ _ s s' := s'.clock ≤ last ∧
    (j ≠ i → ∀ t, s'.log ≠ .admitted j jti t :: s.log)
  cancel j _ := j ≠ i
  env := nonceKept.env

/-- What is known between two steps, when the request comes at `s₀`. -/
def orderLogic (st : DpopState) (s₀ : DpopSrv) (i : Nat) (jti : String) :
    Logic DpopSrv where
  inv s := NonceHistory s ∧ s₀.clock ≤ s.clock ∧ ∀ e ∈ s₀.log, e ∈ s.log
  guar j s s' := Effect st j s s' ∧
    (j ≠ i → ∀ t, s'.log ≠ .admitted j jti t :: s.log)
  env := Evicts

variable {s₀ : DpopSrv} {last : Nat}

theorem stable_unentered :
    Stable (orderLogic st s₀ i jti) i (Unentered st jti) where
  thread hne _ _ hguar h := h.effect hguar.1 (hguar.2 hne)
  env _ _ henv h := h.evicts henv

/-- The steps of such a run. -/
abbrev Amid (st : DpopState) (i : Nat) (jti : String) (last : Nat) :
    Filter Point DpopSrv Chance DpopEnv DpopCall :=
  within (undisturbed i jti last) (dpopLogic st NonceHistory)

theorem amid_step {q : DpopCall} {pt : Point} {ch : Chance}
    (h : (orderLogic st s₀ i jti).inv s)
    (hF : (Amid st i jti last).run j q pt ch s s') :
    (orderLogic st s₀ i jti).inv s' ∧ (orderLogic st s₀ i jti).guar j s s' := by
  obtain ⟨⟨-, hother⟩, hhistory, heffect⟩ := hF
  exact ⟨⟨hhistory, Nat.le_trans h.2.1 heffect.clock_le,
    fun e he => log_of_effect heffect e (h.2.2 e he)⟩, heffect, hother⟩

/-- A step that leaves the entries alone: it comes in time. -/
theorem amid_quiet {q : DpopCall} {pt : Point} {ch : Chance}
    (hs : (orderLogic st s₀ i jti).inv s) (hfree : Unentered st jti s)
    (hF : (Amid st i jti last).run j q pt ch s s')
    (hcache : s'.jtiCache = s.jtiCache) :
    (orderLogic st s₀ i jti).inv s' ∧ (orderLogic st s₀ i jti).guar j s s' ∧
      (s₀.clock ≤ s'.clock ∧ s'.clock ≤ last) ∧ Unentered st jti s' := by
  obtain ⟨hinv, hguar⟩ := amid_step hs hF
  exact ⟨hinv, hguar, ⟨hinv.2.1, hF.1.1⟩,
    hfree.later hguar.1.clock_le hcache⟩

variable {req : Request} {x : Extracted} {claims : AccessTokenClaims}
  {v : ValidatedProof}

/-- **A request in order, step by step.** -/
theorem request_outline
    (horder : InOrder ext st req s₀.clock last x claims v)
    (hnonce : Entitled s₀.log st.config.nonceRequired v.claims.nonce last) :
    Outline (orderLogic st s₀ i v.claims.jti)
      ((Amid st i v.claims.jti last).run i (.serve req)) i
      ((dpopSystem ext st).body (.serve req)) (Unentered st v.claims.jti)
      fun a _ => a = .session (.ok (sessionOf claims)) := by
  rw [serve_body ext horder.extracted horder.signed]
  refine Outline.bind (R := fun r _ => r = .ok (sessionOf claims))
    (fun r => Outline.ret fun s _ hr => congrArg Answer.session hr) ?_
  refine Outline.act
    (fun readAt s => (s₀.clock ≤ readAt ∧ readAt ≤ last) ∧
      Unentered st v.claims.jti s)
    (fun _ => (Stable.const _).and stable_unentered) ?_ fun readAt =>
      Outline.of_prop fun hread => ?_
  · intro s ch readAt s' hs hfree hf hF
    obtain ⟨rfl, rfl⟩ := Prod.mk.inj (Option.some.inj hf)
    exact amid_quiet hs hfree hF rfl
  rw [horder.trusted readAt hread.1 hread.2]
  refine Outline.bind (R := fun r _ => r = .ok v) (fun r => ?_)
    (Outline.mapPoint ?_)
  · refine Outline.ret fun s _ hr => ?_
    rw [hr]
    exact bindSession_ok horder.bound
  -- the proof: the clock, the nonce, the entry
  refine Outline.act
    (fun readAt s => (s₀.clock ≤ readAt ∧ readAt ≤ last) ∧
      Unentered st v.claims.jti s)
    (fun _ => (Stable.const _).and stable_unentered) ?_ fun readAt =>
      Outline.of_prop fun hread => ?_
  · intro s ch readAt s' hs hfree hf hF
    obtain ⟨rfl, rfl⟩ := Prod.mk.inj (Option.some.inj hf)
    exact amid_quiet hs hfree hF rfl
  rw [horder.fits readAt hread.1 hread.2]
  refine Outline.act
    (fun passed s => passed = true ∧ Unentered st v.claims.jti s)
    (fun _ => (Stable.const _).and stable_unentered) ?_ fun passed =>
      Outline.of_prop fun hpassed => ?_
  · intro s ch passed s' hs hfree hf hF
    obtain ⟨rfl, rfl⟩ := Prod.mk.inj (Option.some.inj hf)
    obtain ⟨hinv, hguar, hwindow, hlater⟩ := amid_quiet hs hfree hF rfl
    have hentitled := entitled_sooner hnonce hwindow.2 hs.2.2
    exact ⟨hinv, hguar, (nonceGate_iff hs.1.cached).mpr hentitled, hlater⟩
  rw [if_pos hpassed, show checkAth ext (requestContext st.config x).accessToken
    v.claims.ath = .ok () from horder.hashed]
  refine Outline.act (fun fresh _ => fresh = true) (fun _ => .const _) ?_
    fun fresh => ?_
  · intro s ch fresh s' hs hfree hf hF
    obtain ⟨hinv, hguar⟩ := amid_step hs hF
    refine ⟨hinv, hguar, ?_⟩
    rcases enterJti_cases hf with ⟨-, -, hlive⟩ | ⟨hfresh, -, -⟩
    · rw [hfree _ (Int.ofNat_le.mpr (Nat.le_add_right _ _))] at hlive
      cases hlive
    · exact hfresh
  · cases fresh with
    | true =>
        rw [if_pos rfl]
        exact Outline.ret fun _ _ _ => rfl
    | false =>
        rw [if_neg Bool.false_ne_true]
        exact Outline.ret fun _ _ h => absurd h Bool.false_ne_true

/-! ## Runs -/

variable {clock : Nat} {c₀ c : Config Point DpopSrv Chance DpopCall Answer}

/-- **Every call is answered**, in any run: at every moment it has at most four
steps left, and can take the next whatever the state. -/
theorem ends_of_reaches {F : Filter Point DpopSrv Chance DpopEnv DpopCall}
    (hrun : (dpopSystem ext st).Reaches F (Config.start (started clock)) c)
    {k : Nat} {q : DpopCall} {p : Prog Point DpopSrv Chance Answer}
    (hserves : c.thread k = some (q, p)) : EndsIn 4 p :=
  endsIn_of_reaches body_ends (System.Reaches.mono (G := .all)
    (fun _ => trivial) (fun _ => trivial) (fun _ => trivial) hrun) k q p hserves

/-- **A request in order is served.**  It arrives in any state that a run of
the layer reaches, and while it is served any other calls take steps between
its own.  Until `last` it is in order, and entitled to pass the nonce gate; no
entry of its `jti` is live when it arrives, and no other call makes one.  Then
it can only be answered by being forwarded, with the session of its access
token.  And it is answered: at every moment each call has at most four steps
left, and can take the next whatever the state. -/
theorem served_in_order (ext : ProofExternals) (st : DpopState) (clock : Nat)
    (hbefore : (dpopSystem ext st).Reaches nonceKept
      (Config.start (started clock)) c₀) (hfree : c₀.thread i = none)
    (horder : InOrder ext st req c₀.shared.clock last x claims v)
    (hnonce : Entitled c₀.shared.log st.config.nonceRequired v.claims.nonce last)
    (hjti : c₀.shared.jtiCache.get st.jtiNanos c₀.shared.clock v.claims.jti =
      none)
    (hrun : (dpopSystem ext st).Reaches (undisturbed i v.claims.jti last) c₀ c) :
    (∀ a, c.answer i = some (.serve req, a) →
      a = .session (.ok (sessionOf claims))) ∧
    ∀ k q p, c.thread k = some (q, p) → EndsIn 4 p := by
  obtain ⟨hhistory, hamid⟩ :=
    history_of_reaches (F := undisturbed i v.claims.jti last) (fun h => h)
      hbefore hrun
  constructor
  · have hgood : Good (orderLogic st c₀.shared i v.claims.jti)
        (Amid st i v.claims.jti last)
        (fun k s => k = i → Unentered st v.claims.jti s)
        (fun q k a _ => k = i → q = .serve req →
          a = .session (.ok (sessionOf claims))) c := by
      refine sound (M := dpopSystem ext st) ?_ ?_ ?_ ?_
        (Good.fresh (L := orderLogic st c₀.shared i v.claims.jti)
          (Q := fun q _ a _ => q = .serve req →
            a = .session (.ok (sessionOf claims)))
          ⟨hhistory, Nat.le_refl _, fun _ h => h⟩
          (fun _ _ _ => unentered_of_get hjti) hfree amid_step) hamid
      · intro k
        constructor
        · intro k' s s' hne hs hs' hguar h hk
          subst hk
          exact (h rfl).effect hguar.1 (hguar.2 hne)
        · intro s s' hs hs' he h hk
          exact (h hk).evicts he
      · intro k q
        by_cases hserves : k = i ∧ q = .serve req
        · obtain ⟨rfl, rfl⟩ := hserves
          exact ((request_outline horder hnonce).weaken
            fun _ _ h => h rfl).post fun _ _ _ ha _ _ => ha
        · exact (Outline.of_filter amid_step).post
            fun _ _ _ _ hk hq => absurd ⟨hk, hq⟩ hserves
      · intro k q s hs hother
        have heffect : Effect st k s ((dpopSystem ext st).cancel k s) := .cancel
        refine ⟨⟨hs.1.effect heffect, hs.2.1, fun e he =>
          log_of_effect heffect e (hs.2.2 e he)⟩, ⟨heffect, fun _ t heq => ?_⟩,
          fun hk => absurd hk hother⟩
        cases heq
      · intro e s s' hs _ hF
        obtain ⟨-, hhistory', hevicts⟩ := hF
        exact ⟨⟨hhistory', hevicts.clock_eq.symm ▸ hs.2.1, fun e he =>
          log_of_evicts hevicts e (hs.2.2 e he)⟩, hevicts⟩
    intro a hanswer
    exact hgood.result (Config.answer_eq.mp hanswer) rfl rfl
  · intro k q p hserves
    have hreached : (dpopSystem ext st).Reaches .all
        (Config.start (started clock)) c₀ :=
      System.Reaches.mono (fun _ => trivial) (fun _ => trivial)
        (fun _ => trivial) hbefore
    have hon : (dpopSystem ext st).Reaches .all c₀ c :=
      System.Reaches.mono (fun _ => trivial) (fun _ => trivial)
        (fun _ => trivial) hrun
    exact ends_of_reaches (Relation.ReflTransGen.trans hreached hon) hserves

/-! ## A request in order -/

/-- The claims of the access token of the sample request. -/
def boundClaims : AccessTokenClaims where
  sub := "user-1"
  iss := "https://api.example.com"
  aud := "https://api.example.com"
  exp := 1767226500
  iat := 1767225600
  jti := "token-1"
  cnf := ⟨"6ymZdlIMtZD5jBv_o-Elq-7NsVr1P7DcxFKq4WRDzXc"⟩
  extra := []

theorem boundToken_trusted {now : Nat} (hnow : now ≤ 1767226500) :
    verifyToken proofLibraries (proofState false) boundToken now =
      .ok boundClaims := by
  have hread : deserialize (serialize boundClaims) = .ok boundClaims :=
    deserialize_serialize _ (by decide) (by decide) .nil (by decide)
  have hcheck : Validation.check ⟨true, (proofState false).config.clockSkew.secs,
      [(proofState false).config.issuer], [(proofState false).config.audience]⟩
      now (serialize boundClaims) = .ok () := by
    have hlate : ¬ boundClaims.exp <
        now - (proofState false).config.clockSkew.secs := by
      have hexp : boundClaims.exp = 1767226500 := rfl
      omega
    exact (check_serialize boundClaims (by decide)).trans (if_neg hlate)
  have hlookup : sampleTokens.lookup boundToken = some (_, _,
      serialize boundClaims) := List.lookup_cons_self
  have hdecode : proofLibraries.jwt.decode deserialize
      (proofState false).config.signer.algorithm
      (proofState false).config.signer.decodingKey
      ⟨true, (proofState false).config.clockSkew.secs,
        [(proofState false).config.issuer],
        [(proofState false).config.audience]⟩ now boundToken =
      .ok boundClaims := by
    simp only [proofLibraries, sampleLibraries, hlookup, hread]
    have hfamily : (proofState false).config.signer.algorithm.family =
        (proofState false).config.signer.decodingKey.family := rfl
    rw [if_pos hfamily, hcheck]
  unfold verifyToken verifyAccessToken
  dsimp only
  rw [hdecode]

/-- Two seconds, from the arrival of the request. -/
def orderLast : Nat := sampleClock + 2000000000

theorem seconds_orderLast {t : Nat} (h : sampleClock ≤ t) (h' : t ≤ orderLast) :
    1767225600 ≤ seconds t ∧ seconds t ≤ 1767225602 := by
  unfold sampleClock at h
  unfold orderLast sampleClock at h'
  unfold seconds
  omega

theorem boundRequest_inOrder : InOrder proofLibraries (proofState false)
    (ticketsRequest boundToken boundProof) sampleClock orderLast
    ⟨boundToken, boundProof.text, "GET", "/tickets"⟩ boundClaims
    boundProof.validated where
  extracted := boundRequest_extract
  trusted t h h' := by
    have hseconds := seconds_orderLast h h'
    exact boundToken_trusted (by omega)
  signed := boundProof_checked
  fits t h h' := by
    obtain ⟨hfirst, hlast⟩ := seconds_orderLast h h'
    have hcases : seconds t = 1767225600 ∨ seconds t = 1767225601 ∨
        seconds t = 1767225602 := by omega
    rcases hcases with h | h | h <;> rw [h] <;> decide +kernel
  hashed := by decide +kernel
  bound := by decide +kernel

/-- The steps of thread `0`, up to `orderLast`. -/
def orderCheck : Check Point DpopSrv Chance DpopEnv DpopCall where
  run i _ _ _ _ s' := i == 0 && decide (s'.clock ≤ orderLast)
  cancel _ _ := false
  env _ _ _ := false

theorem orderCheck_implies : orderCheck.Implies
    (undisturbed 0 boundProof.validated.claims.jti orderLast) where
  run h := by
    simp only [orderCheck, Bool.and_eq_true, beq_iff_eq, decide_eq_true_eq] at h
    exact ⟨h.2, fun hne => absurd h.1 hne⟩
  cancel h := absurd h Bool.false_ne_true
  env h := absurd h Bool.false_ne_true

def orderRun : Config Point DpopSrv Chance DpopCall Answer :=
  ((dpopSystem proofLibraries (proofState false)).exec orderCheck boundArrival
    ((List.replicate 4 (0, ⟨500000000, sampleNonce⟩)).map
      fun r => .run r.1 r.2)).get (by decide +kernel)

theorem orderRun_exec :
    (dpopSystem proofLibraries (proofState false)).exec orderCheck boundArrival
      ((List.replicate 4 (0, ⟨500000000, sampleNonce⟩)).map
        fun r => .run r.1 r.2) = some orderRun := by
  unfold orderRun
  rw [Option.some_get]

theorem orderRun_reaches :
    (dpopSystem proofLibraries (proofState false)).Reaches
      (undisturbed 0 boundProof.validated.claims.jti orderLast)
      (Config.start (started sampleClock)) orderRun := by
  have hbody : (dpopSystem proofLibraries (proofState false)).body
      (.serve (ticketsRequest boundToken boundProof)) = boundBody :=
    serve_body _ boundRequest_extract boundProof_checked
  have hcall : (dpopSystem proofLibraries (proofState false)).Reaches
      (undisturbed 0 boundProof.validated.claims.jti orderLast)
      (Config.start (started sampleClock)) boundArrival :=
    System.Reaches.called .refl rfl hbody
  exact hcall.trans (System.exec_reaches orderCheck_implies orderRun_exec)

theorem orderRun_answer : ∃ session, orderRun.answer 0 =
    some (.serve (ticketsRequest boundToken boundProof),
      .session (.ok session)) := by
  have hquery : (orderRun.thread 0).map Prod.fst =
      some (.serve (ticketsRequest boundToken boundProof)) := by
    rw [System.exec_runs_query orderRun_exec]
    unfold boundArrival
    rw [Config.set_thread_self]
    rfl
  have hgot : ∃ session, orderRun.answer 0 =
      some (.serve (ticketsRequest boundToken boundProof),
        .session (.ok session)) ∧ session.sub = "user-1" :=
    answer_of_forwarded hquery (by decide +kernel)
  obtain ⟨session, hanswer, -⟩ := hgot
  exact ⟨session, hanswer⟩

theorem served_in_order_tickets : orderRun.answer 0 =
    some (.serve (ticketsRequest boundToken boundProof),
      .session (.ok (sessionOf boundClaims))) := by
  obtain ⟨session, hanswer⟩ := orderRun_answer
  rw [hanswer, (served_in_order proofLibraries (proofState false) sampleClock
    .refl rfl boundRequest_inOrder (.inl ⟨rfl, rfl⟩) rfl orderRun_reaches).1 _
    hanswer]

end DpopAuth.Ports.ServedInOrder
