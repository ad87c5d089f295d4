import DpopAuth.Verified.RelyGuarantee
import DpopAuth.Ports.Dpop

/-!
# What calls of the DPoP layer do

`Effect` says once what a step of a call can do to the clock, the caches and
the log.  `Story` and `ServeStory` tell a whole call: its result, and the
events it has left in the log by then.

## Main results

* `validate_outline`, `call_outline` — every call, step by step.
* `reaches_story` — every call that has been answered, in any run.
-/

namespace DpopAuth.Ports.DpopSteps

open DpopAuth.Verified.Resumption
open DpopAuth.Verified.RelyGuarantee
open DpopAuth.Verified.TtlCache
open DpopAuth.Ports.Errors
open DpopAuth.Ports.Token
open DpopAuth.Ports.AccessToken
open DpopAuth.Ports.Dpop

variable {ext : ProofExternals} {st : DpopState} {i j : Nat}
  {s s' : DpopSrv} {ctx : ValidationContext}

/-! ## The events of one call -/

def isCancelled : LogEvent → Bool
  | .cancelled _ => true
  | _ => false

/-- The events of the call thread `i` serves, newest first. -/
def own (i : Nat) : List LogEvent → List LogEvent
  | [] => []
  | e :: log =>
      if e.thread? = some i then
        if isCancelled e then [] else e :: own i log
      else own i log

theorem own_other {e : LogEvent} {log : List LogEvent}
    (h : e.thread? ≠ some i) : own i (e :: log) = own i log := by
  rw [own, if_neg h]

theorem own_token {t : Nat} {log : List LogEvent} :
    own i (.tokenChecked i t :: log) = .tokenChecked i t :: own i log := by
  simp [own, LogEvent.thread?, isCancelled]

theorem own_gate {required passed : Bool} {nonce : Option String} {t : Nat}
    {log : List LogEvent} :
    own i (.gate i required nonce passed t :: log) =
      .gate i required nonce passed t :: own i log := by
  simp [own, LogEvent.thread?, isCancelled]

theorem own_challenged {n : String} {t : Nat} {log : List LogEvent} :
    own i (.challenged i n t :: log) = .challenged i n t :: own i log := by
  simp [own, LogEvent.thread?, isCancelled]

theorem own_admitted {jti : String} {t : Nat} {log : List LogEvent} :
    own i (.admitted i jti t :: log) = .admitted i jti t :: own i log := by
  simp [own, LogEvent.thread?, isCancelled]

theorem own_cancelled {log : List LogEvent} :
    own i (.cancelled i :: log) = [] := by
  simp [own, LogEvent.thread?, isCancelled]

theorem mem_of_own {e : LogEvent} :
    ∀ {log : List LogEvent}, e ∈ own i log → e ∈ log := by
  intro log
  induction log with
  | nil => exact id
  | cons a log ih =>
      intro h
      rw [own] at h
      split at h
      · split at h
        · cases h
        · rcases List.mem_cons.mp h with rfl | h
          · exact List.mem_cons_self
          · exact List.mem_cons_of_mem _ (ih h)
      · exact List.mem_cons_of_mem _ (ih h)

/-! ## Effects -/

/-- **What a step of thread `i` can do.** -/
inductive Effect (st : DpopState) (i : Nat) (s : DpopSrv) : DpopSrv → Prop
  | quiet (d : Nat) : Effect st i s { s with clock := s.clock + d }
  | token (d : Nat) :
      Effect st i s { s with
        clock := s.clock + d
        log := .tokenChecked i (s.clock + d) :: s.log }
  | gate (d : Nat) (required : Bool) (nonce : Option String) :
      Effect st i s { s with
        clock := s.clock + d
        log := .gate i required nonce
          (nonceGate s.nonceCache (s.clock + d : Nat) required nonce)
          (s.clock + d) :: s.log }
  | challenge (d : Nat) (n : String)
      (hfresh : ∀ e ∈ s.log, e.issued? ≠ some n) :
      Effect st i s { s with
        clock := s.clock + d
        nonceCache := s.nonceCache.insert (s.clock + d : Nat) n true
        log := .challenged i n (s.clock + d) :: s.log }
  | enter (d : Nat) (jti : String)
      (hnew : s.jtiCache.get st.jtiNanos (s.clock + d : Nat) jti = none) :
      Effect st i s { s with
        clock := s.clock + d
        jtiCache := s.jtiCache.insert (s.clock + d : Nat) jti true
        log := .admitted i jti (s.clock + d) :: s.log }
  | cancel : Effect st i s { s with log := .cancelled i :: s.log }

/-- What a step of the environment can do. -/
inductive Evicts (s : DpopSrv) : DpopSrv → Prop
  | jti (jti : String) : Evicts s { s with
      jtiCache := s.jtiCache.evict jti
      log := .evictedJti jti :: s.log }
  | nonce (nonce : String) : Evicts s { s with
      nonceCache := s.nonceCache.evict nonce
      log := .evictedNonce nonce :: s.log }

theorem Effect.clock_le (h : Effect st i s s') : s.clock ≤ s'.clock := by
  cases h with
  | cancel => exact Nat.le_refl _
  | _ => exact Nat.le_add_right _ _

theorem Evicts.clock_eq (h : Evicts s s') : s'.clock = s.clock := by
  cases h <;> rfl

theorem Effect.own_eq (h : Effect st j s s') (hne : j ≠ i) :
    own i s'.log = own i s.log := by
  have hthread : some j ≠ some i := fun heq => hne (Option.some.inj heq)
  cases h with
  | quiet d => rfl
  | token d => exact own_other hthread
  | gate d required nonce => exact own_other hthread
  | challenge d n hfresh => exact own_other hthread
  | enter d jti hnew => exact own_other hthread
  | cancel => exact own_other hthread

theorem Evicts.own_eq (h : Evicts s s') : own i s'.log = own i s.log := by
  cases h with
  | jti jti => exact own_other (by simp [LogEvent.thread?])
  | nonce nonce => exact own_other (by simp [LogEvent.thread?])

/-- Steps with these effects, between states that satisfy `I`. -/
def dpopLogic (st : DpopState) (I : DpopSrv → Prop) : Logic DpopSrv where
  inv := I
  guar := Effect st
  env := Evicts

variable {I : DpopSrv → Prop}

theorem stable_own {l : List LogEvent} :
    Stable (dpopLogic st I) i fun s => own i s.log = l where
  thread hne _ _ hguar h := (hguar.own_eq hne).trans h
  env _ _ henv h := henv.own_eq.trans h

theorem stable_clock {t : Nat} :
    Stable (dpopLogic st I) i fun s => t ≤ s.clock where
  thread _ _ _ hguar h := Nat.le_trans h hguar.clock_le
  env _ _ henv h := henv.clock_eq.symm ▸ h

/-! ## The actions -/

theorem readClock_effect {ch : Chance} {t : Nat}
    (h : readClock i ch s = some (t, s')) :
    Effect st i s s' ∧ own i s'.log = own i s.log ∧ t ≤ s'.clock := by
  obtain ⟨rfl, rfl⟩ := Prod.mk.inj (Option.some.inj h)
  exact ⟨.quiet ch.elapsed, rfl, Nat.le_refl _⟩

theorem readTokenClock_effect {ch : Chance} {t : Nat}
    (h : readTokenClock i ch s = some (t, s')) :
    Effect st i s s' ∧ own i s'.log = .tokenChecked i t :: own i s.log := by
  obtain ⟨rfl, rfl⟩ := Prod.mk.inj (Option.some.inj h)
  exact ⟨.token ch.elapsed, own_token⟩

theorem checkNonce_effect {required passed : Bool} {nonce : Option String}
    {ch : Chance} (h : checkNonce required nonce i ch s = some (passed, s')) :
    Effect st i s s' ∧ s.clock ≤ s'.clock ∧ ∃ t, own i s'.log =
      .gate i required nonce passed t :: own i s.log := by
  obtain ⟨rfl, rfl⟩ := Prod.mk.inj (Option.some.inj h)
  exact ⟨.gate ch.elapsed required nonce, Nat.le_add_right _ _, _, own_gate⟩

theorem insertNonce_effect {ch : Chance} {n : String}
    (h : insertNonce i ch s = some (n, s')) :
    Effect st i s s' ∧ ∃ t, own i s'.log =
      .challenged i n t :: own i s.log := by
  unfold insertNonce at h
  dsimp only at h
  split at h
  · cases h
  · rename_i hany
    obtain ⟨rfl, rfl⟩ := Prod.mk.inj (Option.some.inj h)
    refine ⟨.challenge ch.elapsed ch.uuid fun e he hissued => hany ?_, _,
      own_challenged⟩
    exact List.any_eq_true.mpr ⟨e, he, by rw [hissued]; exact beq_self_eq_true _⟩

/-- The answer of `or_insert`. -/
theorem enterJti_cases {ch : Chance} {jti : String} {fresh : Bool}
    (h : enterJti st.jtiNanos jti i ch s = some (fresh, s')) :
    (fresh = false ∧ s' = s.later ch ∧
      (s.jtiCache.get st.jtiNanos (s.clock + ch.elapsed : Nat) jti).isSome) ∨
    (fresh = true ∧
      s.jtiCache.get st.jtiNanos (s.clock + ch.elapsed : Nat) jti = none ∧
      s' = { s with
        clock := s.clock + ch.elapsed
        jtiCache := s.jtiCache.insert (s.clock + ch.elapsed : Nat) jti true
        log := .admitted i jti (s.clock + ch.elapsed) :: s.log }) := by
  unfold enterJti Cache.orInsert at h
  dsimp only at h
  cases hget : s.jtiCache.get st.jtiNanos (s.clock + ch.elapsed : Nat) jti with
  | none =>
      rw [hget] at h
      obtain ⟨rfl, rfl⟩ := Prod.mk.inj (Option.some.inj h)
      exact .inr ⟨rfl, rfl, rfl⟩
  | some v =>
      rw [hget] at h
      obtain ⟨rfl, rfl⟩ := Prod.mk.inj (Option.some.inj h)
      exact .inl ⟨rfl, rfl, rfl⟩

/-! ## Stories -/

/-- What the surroundings allow at an entry of a `jti`: when the clock was
read, the `jti`, the thumbprint of the key, and the time of the entry. -/
abbrev Allowance := Nat → String → String → Nat → Prop

/-- **A call of `validate_dpop_proof` by thread `i`**: its result and its
events.  `A` is what is known of an entry that was made. -/
inductive Story (ext : ProofExternals) (i : Nat) (ctx : ValidationContext)
    (A : Allowance) : Except DpopError ValidatedProof → List LogEvent → Prop
  | refused {e : DpopError}
      (hproof : checkProof ext ctx.allowedAlgs ctx.proof = .error e) :
      Story ext i ctx A (.error e) []
  | mismatched {v : ValidatedProof} {readAt : Nat} {e : DpopError}
      (hproof : checkProof ext ctx.allowedAlgs ctx.proof = .ok v)
      (hreq : checkRequest ext ctx v.claims (seconds readAt) = .error e) :
      Story ext i ctx A (.error e) []
  | challenged {v : ValidatedProof} {readAt t t' : Nat} {n : String}
      (hproof : checkProof ext ctx.allowedAlgs ctx.proof = .ok v)
      (hreq : checkRequest ext ctx v.claims (seconds readAt) = .ok ()) :
      Story ext i ctx A (.error (nonceRequiredError ctx.accessToken n))
        [.challenged i n t',
          .gate i ctx.nonceRequired v.claims.nonce false t]
  | unhashed {v : ValidatedProof} {readAt t : Nat} {e : DpopError}
      (hproof : checkProof ext ctx.allowedAlgs ctx.proof = .ok v)
      (hreq : checkRequest ext ctx v.claims (seconds readAt) = .ok ())
      (hath : checkAth ext ctx.accessToken v.claims.ath = .error e) :
      Story ext i ctx A (.error e)
        [.gate i ctx.nonceRequired v.claims.nonce true t]
  | replayed {v : ValidatedProof} {readAt t : Nat}
      (hproof : checkProof ext ctx.allowedAlgs ctx.proof = .ok v)
      (hreq : checkRequest ext ctx v.claims (seconds readAt) = .ok ())
      (hath : checkAth ext ctx.accessToken v.claims.ath = .ok ()) :
      Story ext i ctx A (.error .jtiReplay)
        [.gate i ctx.nonceRequired v.claims.nonce true t]
  | accepted {v : ValidatedProof} {readAt t t' : Nat}
      (hproof : checkProof ext ctx.allowedAlgs ctx.proof = .ok v)
      (hreq : checkRequest ext ctx v.claims (seconds readAt) = .ok ())
      (hath : checkAth ext ctx.accessToken v.claims.ath = .ok ())
      (hle : readAt ≤ t') (hA : A readAt v.claims.jti v.jwkThumbprint t') :
      Story ext i ctx A (.ok v)
        [.admitted i v.claims.jti t',
          .gate i ctx.nonceRequired v.claims.nonce true t]

/-- **A request to the layer**, served by thread `i`. -/
inductive ServeStory (ext : ProofExternals) (st : DpopState) (i : Nat)
    (req : Request) (A : Option String → Allowance) :
    Except DpopError ValidatedSession → List LogEvent → Prop
  | unreadable {e : DpopError} (hextract : extract req = .error e) :
      ServeStory ext st i req A (.error e) []
  | untrusted {x : Extracted} {readAt : Nat} {e : DpopError}
      (hextract : extract req = .ok x)
      (htoken : verifyToken ext st x.token (seconds readAt) = .error e) :
      ServeStory ext st i req A (.error e) [.tokenChecked i readAt]
  | checked {x : Extracted} {readAt : Nat} {claims : AccessTokenClaims}
      {r : Except DpopError ValidatedProof} {log : List LogEvent}
      (hextract : extract req = .ok x)
      (htoken : verifyToken ext st x.token (seconds readAt) = .ok claims)
      (story : Story ext i (requestContext st.config x)
        (A (some claims.cnf.jkt)) r log) :
      ServeStory ext st i req A (bindSession claims r)
        (log ++ [.tokenChecked i readAt])

/-- A call that has been answered. -/
def Told (ext : ProofExternals) (st : DpopState) (A : Option String → Allowance) :
    DpopCall → Nat → Answer → DpopSrv → Prop
  | .validate ctx, i, .proof r, s => Story ext i ctx (A none) r (own i s.log)
  | .serve req, i, .session r, s => ServeStory ext st i req A r (own i s.log)
  | _, _, _, _ => False

/-! ## Outlines -/

section Outlines

variable (hI : ∀ {i s s'}, I s → Effect st i s s' → I s')

include hI

/-- **`validate_dpop_proof`, step by step.** -/
theorem validate_outline {F : Place → Chance → DpopSrv → DpopSrv → Prop}
    {A : Allowance}
    (hA : ∀ {readAt jti thumbprint ch s s'},
      F (.jtiEntry readAt jti thumbprint) ch s s' →
      s.jtiCache.get st.jtiNanos (s.clock + ch.elapsed : Nat) jti = none →
      A readAt jti thumbprint (s.clock + ch.elapsed))
    {before : List LogEvent} :
    Outline (dpopLogic st I) F i (validateDpopProof ext st ctx)
      (fun s => own i s.log = before)
      (fun r s => ∃ log, own i s.log = log ++ before ∧
        Story ext i ctx A r log) := by
  unfold validateDpopProof
  cases hproof : checkProof ext ctx.allowedAlgs ctx.proof with
  | error e =>
      exact Outline.ret fun s _ hown => ⟨[], hown, .refused hproof⟩
  | ok v =>
      show Outline _ _ _ (admitProof ext st ctx v) _ _
      refine Outline.act
        (fun readAt s => own i s.log = before ∧ readAt ≤ s.clock)
        (fun readAt => stable_own.and stable_clock) ?_ fun readAt => ?_
      · intro s ch readAt s' hs hown hf _
        obtain ⟨heffect, hsame, hle⟩ := readClock_effect hf
        exact ⟨hI hs heffect, heffect, hsame.trans hown, hle⟩
      cases hreq : checkRequest ext ctx v.claims (seconds readAt) with
      | error e =>
          exact Outline.ret fun s _ hown =>
            ⟨[], hown.1, .mismatched hproof hreq⟩
      | ok _ =>
          refine Outline.act (fun passed s => (∃ t, own i s.log =
              .gate i ctx.nonceRequired v.claims.nonce passed t :: before) ∧
              readAt ≤ s.clock)
            (fun passed => (Stable.exists fun t => stable_own).and stable_clock)
            ?_ fun passed => ?_
          · intro s ch passed s' hs hown hf _
            obtain ⟨heffect, hle, t, hsame⟩ := checkNonce_effect hf
            refine ⟨hI hs heffect, heffect, ⟨t, ?_⟩,
              Nat.le_trans hown.2 hle⟩
            rw [hsame, hown.1]
          cases passed with
          | true =>
              rw [if_pos rfl]
              cases hath : checkAth ext ctx.accessToken v.claims.ath with
              | error e =>
                  refine Outline.ret fun s _ hown => ?_
                  obtain ⟨⟨t, hown⟩, -⟩ := hown
                  exact ⟨[.gate i ctx.nonceRequired v.claims.nonce true t],
                    hown, .unhashed hproof hreq hath⟩
              | ok _ =>
                  refine Outline.act (fun fresh s => ∃ t,
                      if fresh then ∃ t', readAt ≤ t' ∧
                        A readAt v.claims.jti v.jwkThumbprint t' ∧
                        own i s.log = .admitted i v.claims.jti t' ::
                          .gate i ctx.nonceRequired v.claims.nonce true t ::
                          before
                      else own i s.log =
                        .gate i ctx.nonceRequired v.claims.nonce true t ::
                          before)
                    (fun fresh => Stable.exists fun t => ?_) ?_ fun fresh => ?_
                  · cases fresh with
                    | true => exact Stable.exists fun t' =>
                        (Stable.const _).and ((Stable.const _).and stable_own)
                    | false => exact stable_own
                  · intro s ch fresh s' hs hown hf hF
                    obtain ⟨⟨t, hown⟩, hle⟩ := hown
                    rcases enterJti_cases hf with
                      ⟨rfl, rfl, -⟩ | ⟨rfl, hnone, rfl⟩
                    · have heffect : Effect st i s (s.later ch) :=
                        .quiet ch.elapsed
                      exact ⟨hI hs heffect, heffect, t, hown⟩
                    · have heffect := Effect.enter (i := i) ch.elapsed
                        v.claims.jti hnone
                      refine ⟨hI hs heffect, heffect, t,
                        s.clock + ch.elapsed, Nat.le_add_right_of_le hle,
                        hA hF hnone, ?_⟩
                      rw [own_admitted, hown]
                  · cases fresh with
                    | true =>
                        rw [if_pos rfl]
                        refine Outline.ret fun s _ hown => ?_
                        obtain ⟨t, t', hle, hallowed, hown⟩ := hown
                        exact ⟨[.admitted i v.claims.jti t',
                          .gate i ctx.nonceRequired v.claims.nonce true t],
                          hown, .accepted hproof hreq hath hle hallowed⟩
                    | false =>
                        refine Outline.ret fun s _ hown => ?_
                        obtain ⟨t, hown⟩ := hown
                        rw [if_neg Bool.false_ne_true] at hown
                        exact ⟨[.gate i ctx.nonceRequired v.claims.nonce
                          true t], hown, .replayed hproof hreq hath⟩
          | false =>
              refine Outline.act (fun n s => ∃ t t', own i s.log =
                  .challenged i n t' :: .gate i ctx.nonceRequired
                    v.claims.nonce false t :: before)
                (fun n => Stable.exists fun t => Stable.exists fun t' =>
                  stable_own) ?_ fun n => ?_
              · intro s ch n s' hs hown hf _
                obtain ⟨⟨t, hown⟩, -⟩ := hown
                obtain ⟨heffect, t', hsame⟩ := insertNonce_effect hf
                refine ⟨hI hs heffect, heffect, t, t', ?_⟩
                rw [hsame, hown]
              · refine Outline.ret fun s _ hown => ?_
                obtain ⟨t, t', hown⟩ := hown
                exact ⟨[.challenged i n t', .gate i ctx.nonceRequired
                  v.claims.nonce false t], hown, .challenged hproof hreq⟩

/-- What a restriction of the steps says of the entries. -/
def Allows (st : DpopState) (F : Point → Chance → DpopSrv → DpopSrv → Prop)
    (A : Option String → Allowance) : Prop :=
  ∀ {boundTo readAt jti thumbprint ch s s'},
    F ⟨boundTo, .jtiEntry readAt jti thumbprint⟩ ch s s' →
    s.jtiCache.get st.jtiNanos (s.clock + ch.elapsed : Nat) jti = none →
    A boundTo readAt jti thumbprint (s.clock + ch.elapsed)

/-- **Every call, step by step.** -/
theorem call_outline {F : Point → Chance → DpopSrv → DpopSrv → Prop}
    {A : Option String → Allowance} (hA : Allows st F A) (q : DpopCall) :
    Outline (dpopLogic st I) F i ((dpopSystem ext st).body q)
      (fun s => own i s.log = []) (Told ext st A q i) := by
  cases q with
  | validate ctx =>
      refine Outline.bind (R := fun r s => ∃ log, own i s.log = log ++ [] ∧
        Story ext i ctx (A none) r log) (fun r => ?_)
        (Outline.mapPoint (validate_outline hI fun hF hnone => hA hF hnone))
      refine Outline.ret fun s _ h => ?_
      obtain ⟨log, hown, hstory⟩ := h
      rw [List.append_nil] at hown
      rw [← hown] at hstory
      exact hstory
  | serve req =>
      refine Outline.bind (R := fun r s =>
        ServeStory ext st i req A r (own i s.log)) (fun r => ?_) ?_
      · exact fun s _ h => h
      show Outline _ _ _ (call ext st req) _ _
      unfold call
      cases hextract : extract req with
      | error e =>
          refine Outline.ret fun s _ hown => ?_
          rw [hown]
          exact .unreadable hextract
      | ok x =>
          refine Outline.act
            (fun readAt s => own i s.log = [.tokenChecked i readAt])
            (fun _ => stable_own) ?_ fun readAt => ?_
          · intro s ch readAt s' hs hown hf _
            obtain ⟨heffect, hsame⟩ := readTokenClock_effect hf
            refine ⟨hI hs heffect, heffect, ?_⟩
            rw [hsame, hown]
          cases htoken : verifyToken ext st x.token (seconds readAt) with
          | error e =>
              refine Outline.ret fun s _ hown => ?_
              rw [hown]
              exact .untrusted hextract htoken
          | ok claims =>
              refine Outline.bind (R := fun r s => ∃ log,
                own i s.log = log ++ [.tokenChecked i readAt] ∧
                Story ext i (requestContext st.config x)
                  (A (some claims.cnf.jkt)) r log) (fun r => ?_)
                (Outline.mapPoint
                  (validate_outline hI fun hF hnone => hA hF hnone))
              refine Outline.ret fun s _ h => ?_
              obtain ⟨log, hown, hstory⟩ := h
              rw [hown]
              exact .checked hextract htoken hstory

end Outlines

/-! ## Runs -/

/-- **Every call that has been answered**, in any run that keeps `I`, and `I`
itself. -/
theorem reaches_story {F : Filter Point DpopSrv Chance DpopEnv DpopCall}
    {A : Option String → Allowance} {c : Config Point DpopSrv Chance DpopCall Answer}
    (hI : ∀ {i s s'}, I s → Effect st i s s' → I s')
    (hEnv : ∀ {e s s'}, I s → (dpopSystem ext st).env e s = some s' →
      F.env e s s' → Evicts s s' → I s')
    (hA : ∀ i q, Allows st (F.run i q) A) (hs : I s) (hlog : s.log = [])
    (hrun : (dpopSystem ext st).Reaches F (Config.start s) c) :
    I c.shared ∧ ∀ i q a, c.answer i = some (q, a) →
      Told ext st A q i a c.shared := by
  have hEvicts : ∀ {e s s'}, (dpopSystem ext st).env e s = some s' →
      Evicts s s' := by
    intro e s s' h
    cases e with
    | evictJti jti =>
        simp only [dpopSystem] at h
        split at h
        · cases h
          exact .jti jti
        · cases h
    | evictNonce nonce =>
        simp only [dpopSystem] at h
        split at h
        · cases h
          exact .nonce nonce
        · cases h
  have hgood : Good (dpopLogic st I) F (fun i s => own i s.log = [])
      (Told ext st A) c := by
    refine sound (fun i => stable_own)
      (fun i q => call_outline hI (hA i q) q) ?_ ?_
      (Good.start hs fun i => by rw [hlog]; rfl) hrun
    · intro i q s hs _
      have heffect : Effect st i s ((dpopSystem ext st).cancel i s) := .cancel
      exact ⟨hI hs heffect, heffect, own_cancelled⟩
    · intro e s s' hs hstep hF
      exact ⟨hEnv hs hstep hF (hEvicts hstep), hEvicts hstep⟩
  refine ⟨hgood.inv, fun i q a hanswer => ?_⟩
  exact hgood.result (Config.answer_eq.mp hanswer)

/-- Nothing is known of the entries. -/
def anyEntry : Option String → Allowance := fun _ _ _ _ _ => True

theorem allows_anyEntry {F : Point → Chance → DpopSrv → DpopSrv → Prop} :
    Allows st F anyEntry := by
  intro boundTo readAt jti thumbprint ch s s' _ _
  trivial

/-- **Every call that has been answered**, in a run of any kind. -/
theorem reaches_told {F : Filter Point DpopSrv Chance DpopEnv DpopCall}
    {c : Config Point DpopSrv Chance DpopCall Answer} (hlog : s.log = [])
    (hrun : (dpopSystem ext st).Reaches F (Config.start s) c) :
    ∀ i q a, c.answer i = some (q, a) → Told ext st anyEntry q i a c.shared :=
  (reaches_story (I := fun _ => True) (fun _ _ => trivial)
    (fun _ _ _ _ => trivial) (fun _ _ => allows_anyEntry) trivial hlog hrun).2

end DpopAuth.Ports.DpopSteps
