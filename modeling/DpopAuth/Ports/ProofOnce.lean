import DpopAuth.Ports.DpopSteps

/-!
# A proof is accepted once

A proof is accepted while its `iat` lies within the skew of the clock, in
whole seconds; its `jti` is remembered for twice the skew and five seconds,
counted from the moment it was entered.  The second span covers the first,
whole seconds and the time between the reading of the clock and the entry
included, if that time is at most four seconds.

## Main results

* `Entries.effect` — the cache answers for every entry that is young enough,
  and no two entries of a `jti` are closer than the time to live.
* `proof_accepted_once` — no proof is accepted twice.
-/

namespace DpopAuth.Ports.ProofOnce

open DpopAuth.Verified.Resumption
open DpopAuth.Verified.TtlCache
open DpopAuth.Ports.Errors
open DpopAuth.Ports.Config
open DpopAuth.Ports.Token
open DpopAuth.Ports.AccessToken
open DpopAuth.Ports.Dpop
open DpopAuth.Ports.DpopSteps

variable {ext : ProofExternals} {st : DpopState} {i j : Nat} {s s' : DpopSrv}

/-! ## The invariant -/

/-- **The `jti` cache and the log.** -/
structure Entries (st : DpopState) (s : DpopSrv) : Prop where
  /-- From now on the cache answers for an entry until it expires. -/
  cached : ∀ {i jti} {t : Nat}, LogEvent.admitted i jti t ∈ s.log → ∀ now : Int,
    s.clock ≤ now → now < t + st.jtiNanos →
    (s.jtiCache.get st.jtiNanos now jti).isSome
  /-- Two entries of a `jti` are a time to live apart. -/
  spaced : ∀ {newer older i j jti} {t t' : Nat},
    s.log = newer ++ .admitted i jti t :: older →
    LogEvent.admitted j jti t' ∈ older → (t' : Int) + st.jtiNanos ≤ t

/-- Another event: nothing is entered. -/
theorem Entries.other {e : LogEvent} (h : Entries st s)
    (hclock : s.clock ≤ s'.clock) (hcache : s'.jtiCache = s.jtiCache)
    (hlog : s'.log = e :: s.log) (he : ∀ i jti t, e ≠ .admitted i jti t) :
    Entries st s' := by
  constructor
  · intro i jti t hmem now hnow hlive
    rw [hlog] at hmem
    rcases List.mem_cons.mp hmem with rfl | hmem
    · exact absurd rfl (he i jti t)
    · rw [hcache]
      exact h.cached hmem now
        (Int.le_trans (Int.ofNat_le.mpr hclock) hnow) hlive
  · intro newer older i j jti t t' heq hmem
    rw [hlog] at heq
    cases newer with
    | nil => exact absurd (List.cons.inj heq).1 (he i jti t)
    | cons a newer => exact h.spaced (List.cons.inj heq).2 hmem

theorem Entries.effect (h : Entries st s) (he : Effect st i s s') :
    Entries st s' := by
  cases he with
  | quiet d =>
      refine ⟨fun hmem now hnow hlive => ?_, h.spaced⟩
      have hle : (s.clock : Int) ≤ (s.clock + d : Nat) :=
        Int.ofNat_le.mpr (Nat.le_add_right _ _)
      exact h.cached hmem now (Int.le_trans hle hnow) hlive
  | token d =>
      exact h.other (Nat.le_add_right _ _) rfl rfl
        fun _ _ _ heq => by cases heq
  | gate d required nonce =>
      exact h.other (Nat.le_add_right _ _) rfl rfl
        fun _ _ _ heq => by cases heq
  | challenge d n hfresh =>
      exact h.other (Nat.le_add_right _ _) rfl rfl
        fun _ _ _ heq => by cases heq
  | cancel =>
      exact h.other (Nat.le_refl _) rfl rfl fun _ _ _ heq => by cases heq
  | enter d jti hnew =>
      have hle : (s.clock : Int) ≤ (s.clock + d : Nat) :=
        Int.ofNat_le.mpr (Nat.le_add_right _ _)
      -- an earlier entry of this `jti` has expired
      have hexpired : ∀ {j t'}, LogEvent.admitted j jti t' ∈ s.log →
          (t' : Int) + st.jtiNanos ≤ (s.clock + d : Nat) := by
        intro j t' hmem
        apply Int.not_lt.mp
        intro hlive
        have hsome := h.cached hmem _ hle hlive
        rw [hnew] at hsome
        cases hsome
      constructor
      · intro j jti' t hmem now hnow hlive
        show ((s.jtiCache.insert _ jti true).get st.jtiNanos now jti').isSome
        rcases List.mem_cons.mp hmem with heq | hold
        · cases heq
          exact (Cache.get_insert_isSome _ _ _ _ _ _).mpr hlive
        · by_cases hsame : jti' = jti
          · subst hsame
            have hpast := Int.lt_of_lt_of_le hlive (hexpired hold)
            exact absurd hnow (Int.not_le.mpr hpast)
          · rw [Cache.get_insert_ne hsame]
            exact h.cached hold now (Int.le_trans hle hnow) hlive
      · intro newer older i' j jti' t t' heq hmem
        cases newer with
        | nil =>
            obtain ⟨hevent, rfl⟩ := List.cons.inj heq
            cases hevent
            exact hexpired hmem
        | cons a newer => exact h.spaced (List.cons.inj heq).2 hmem

theorem entries_start {clock : Nat} : Entries st (started clock) where
  cached hmem := by cases hmem
  spaced {newer} _ _ _ _ _ _ heq := by
    cases newer <;> cases heq

/-! ## The windows -/

/-- A nanosecond count of four seconds. -/
def entryDelay : Nat := 4000000000

theorem inWindow_bounds {iat window now : Nat}
    (h : inWindow iat window now = true) :
    iat ≤ now + window ∧ now ≤ iat + window := by
  unfold inWindow at h
  obtain ⟨hlow, hhigh⟩ := Bool.and_eq_true_iff.mp h
  have hlow' := of_decide_eq_true hlow
  have hhigh' := of_decide_eq_true hhigh
  unfold saturatingSub at hlow'
  unfold saturatingAdd at hhigh'
  constructor <;> omega

/-- The reading of the clock that was accepted lies in the window. -/
theorem inWindow_of_checkRequest {ctx : ValidationContext} {claims : DpopClaims}
    {now : Nat} (h : checkRequest ext ctx claims now = .ok ()) :
    inWindow claims.iat ctx.clockSkew.secs now = true := by
  unfold checkRequest at h
  split at h
  · cases h
  · rename_i hwindow
    simpa using hwindow

/-- **The windows cover each other.**  Two entries of one proof are less than
the time to live apart. -/
theorem entries_close {iat window r r' t t' ttl : Nat}
    (h : inWindow iat window (seconds r) = true)
    (h' : inWindow iat window (seconds r') = true) (hle : r' ≤ t')
    (hdelay : t ≤ r + entryDelay)
    (httl : 2 * (window * 1000000000) + 5000000000 ≤ ttl) : t < t' + ttl := by
  obtain ⟨-, hhigh⟩ := inWindow_bounds h
  obtain ⟨hlow, -⟩ := inWindow_bounds h'
  unfold seconds at hhigh hlow
  unfold entryDelay at hdelay
  omega

/-! ## Runs -/

/-- At most four seconds pass between a call's reading of the clock and its
entry, and the cache never holds more live entries than its capacity. -/
def prompt (st : DpopState) :
    Filter Point DpopSrv Chance DpopEnv DpopCall where
  run _ _ pt ch s _ :=
    match pt.place with
    | .jtiEntry readAt _ _ => s.clock + ch.elapsed ≤ readAt + entryDelay
    | _ => True
  cancel _ _ := True
  env _ s _ := s.jtiCache.liveCount st.jtiNanos s.clock ≤ cacheCapacity

/-- **A call has accepted the proof**: a call of `validate_dpop_proof` with the
skew of the configuration, or a request to the layer. -/
inductive AcceptedBy (st : DpopState)
    (c : Config Point DpopSrv Chance DpopCall Answer) (i : Nat)
    (proof : String) : Prop
  | validate {ctx : ValidationContext} {v : ValidatedProof}
      (hproof : ctx.proof = proof) (hskew : ctx.clockSkew = st.config.clockSkew)
      (hanswer : c.answer i = some (.validate ctx, .proof (.ok v)))
  | serve {req : Request} {x : Extracted} {session : ValidatedSession}
      (hextract : extract req = .ok x) (hproof : x.proof = proof)
      (hanswer : c.answer i = some (.serve req, .session (.ok session)))

/-- The entry an accepting call has made. -/
structure Entered (ext : ProofExternals) (st : DpopState) (i : Nat)
    (proof : String) (s : DpopSrv) (v : ValidatedProof) (readAt t : Nat) :
    Prop where
  proof : ∃ algs, checkProof ext algs proof = .ok v
  window : inWindow v.claims.iat st.config.clockSkew.secs (seconds readAt) = true
  after : readAt ≤ t
  soon : t ≤ readAt + entryDelay
  event : LogEvent.admitted i v.claims.jti t ∈ s.log

/-- The claims of a proof do not depend on the algorithms allowed. -/
theorem checkProof_unique {algs algs' : List Algorithm} {proof : String}
    {v v' : ValidatedProof} (h : checkProof ext algs proof = .ok v)
    (h' : checkProof ext algs' proof = .ok v') : v = v' := by
  obtain ⟨header, key, hs⟩ := (checkProof_eq_ok ext).mp h
  obtain ⟨header', key', hs'⟩ := (checkProof_eq_ok ext).mp h'
  have hheader := hs.decoded.symm.trans hs'.decoded
  cases hheader
  have hjwk := hs.jwk.symm.trans hs'.jwk
  obtain ⟨jwk, claims, thumbprint⟩ := v
  obtain ⟨jwk', claims', thumbprint'⟩ := v'
  cases hjwk
  have hthumb := hs.thumbprint.symm.trans hs'.thumbprint
  cases hthumb
  have hkey := hs.hasKey.symm.trans hs'.hasKey
  cases hkey
  have hclaims := hs.verified.symm.trans hs'.verified
  cases hclaims
  rfl

/-- What is known of an entry. -/
def soonAfter : Option String → Allowance := fun _ readAt _ _ t =>
  t ≤ readAt + entryDelay

theorem entered_of_story {ctx : ValidationContext} {v : ValidatedProof}
    {log : List LogEvent} (hskew : ctx.clockSkew = st.config.clockSkew)
    (h : Story ext i ctx (soonAfter none) (.ok v) log)
    (hlog : ∀ {e}, e ∈ log → e ∈ own i s.log) :
    ∃ readAt t, Entered ext st i ctx.proof s v readAt t := by
  cases h with
  | accepted hproof hreq hath hle hA =>
      have hwindow := inWindow_of_checkRequest hreq
      rw [hskew] at hwindow
      exact ⟨_, _, ⟨_, hproof⟩, hwindow, hle, hA,
        mem_of_own (hlog List.mem_cons_self)⟩

theorem entered_of_accepted {c : Config Point DpopSrv Chance DpopCall Answer}
    {proof : String}
    (htold : ∀ i q a, c.answer i = some (q, a) →
      Told ext st soonAfter q i a c.shared)
    (h : AcceptedBy st c i proof) :
    ∃ v readAt t, Entered ext st i proof c.shared v readAt t := by
  cases h with
  | validate hproof hskew hanswer =>
      rename_i ctx v
      obtain ⟨readAt, t, hentered⟩ :=
        entered_of_story hskew (htold i _ _ hanswer) id
      exact ⟨v, readAt, t, hproof ▸ hentered⟩
  | serve hextract hproof hanswer =>
      rename_i req x session
      have hstory : ServeStory ext st i req soonAfter (.ok session)
          (own i c.shared.log) := htold i _ _ hanswer
      generalize hr : (Except.ok session :
        Except DpopError ValidatedSession) = r at hstory
      generalize hown : own i c.shared.log = log at hstory
      cases hstory with
      | unreadable => cases hr
      | untrusted => cases hr
      | checked hextract' htoken story =>
          rename_i x' readAt' claims r' log'
          rw [hextract] at hextract'
          cases hextract'
          cases r' with
          | error e => cases hr
          | ok v =>
              have hmem : ∀ {e}, e ∈ log' → e ∈ own i c.shared.log := by
                intro e he
                rw [hown]
                exact List.mem_append_left _ he
              have hentered : ∃ readAt t, Entered ext st i
                  (requestContext st.config x).proof c.shared v readAt t :=
                entered_of_story rfl story hmem
              obtain ⟨readAt, t, hentered⟩ := hentered
              exact ⟨v, readAt, t, hproof ▸ hentered⟩

theorem mem_split {α : Type} {a b : α} :
    ∀ {l : List α}, a ∈ l → b ∈ l → a ≠ b →
      (∃ l₁ l₂, l = l₁ ++ a :: l₂ ∧ b ∈ l₂) ∨
        ∃ l₁ l₂, l = l₁ ++ b :: l₂ ∧ a ∈ l₂ := by
  intro l ha hb hne
  obtain ⟨l₁, l₂, rfl⟩ := List.append_of_mem ha
  rcases List.mem_append.mp hb with hb | hb
  · obtain ⟨l₃, l₄, rfl⟩ := List.append_of_mem hb
    refine .inr ⟨l₃, l₄ ++ a :: l₂, by simp, ?_⟩
    exact List.mem_append_right _ List.mem_cons_self
  · rcases List.mem_cons.mp hb with rfl | hb
    · exact absurd rfl hne
    · exact .inl ⟨l₁, l₂, rfl, hb⟩

/-- Two entries of one proof are not a time to live apart. -/
theorem Entered.close {proof : String} {v v' : ValidatedProof}
    {readAt t readAt' t' : Nat}
    (httl : st.jtiTtl.asNanos = 2 * st.config.clockSkew.asNanos + 5000000000)
    (h : Entered ext st i proof s v readAt t)
    (h' : Entered ext st j proof s v' readAt' t') :
    v = v' ∧ (t : Int) < t' + st.jtiNanos := by
  obtain ⟨algs, hproof⟩ := h.proof
  obtain ⟨algs', hproof'⟩ := h'.proof
  obtain rfl := checkProof_unique hproof hproof'
  refine ⟨rfl, ?_⟩
  have hspan : 2 * (st.config.clockSkew.secs * 1000000000) + 5000000000 ≤
      st.jtiTtl.asNanos := by
    rw [httl]
    unfold Duration.asNanos
    omega
  exact Int.ofNat_lt.mpr
    (entries_close h.window h'.window h'.after h.soon hspan)

/-- **A DPoP proof is accepted at most once**, whatever the skew, the `iat`, the
order of the calls and the time between them. -/
theorem proof_accepted_once (ext : ProofExternals) {config : DpopConfig}
    {st : DpopState} (clock : Nat)
    {c : Config Point DpopSrv Chance DpopCall Answer}
    (hnew : DpopState.new config = some st)
    (hrun : (dpopSystem ext st).Reaches (prompt st)
      (Config.start (started clock)) c) :
    ∀ proof i j, AcceptedBy st c i proof → AcceptedBy st c j proof → i = j := by
  have hallows : ∀ i q, Allows st ((prompt st).run i q) soonAfter := by
    intro i q boundTo readAt jti thumbprint ch s s' hprompt _
    exact hprompt
  have hEnv : ∀ {e s s'}, Entries st s →
      (dpopSystem ext st).env e s = some s' → (prompt st).env e s s' →
      Evicts s s' → Entries st s' := by
    intro e s s' hs hstep hfew _
    cases e with
    | evictJti jti =>
        simp only [dpopSystem] at hstep
        split at hstep
        · rename_i hfull
          exact absurd hfull (Nat.not_lt.mpr hfew)
        · cases hstep
    | evictNonce nonce =>
        simp only [dpopSystem] at hstep
        split at hstep
        · cases hstep
          exact hs.other (Nat.le_refl _) rfl rfl
            fun _ _ _ heq => by cases heq
        · cases hstep
  obtain ⟨hentries, htold⟩ := reaches_story
    (fun hs he => Entries.effect hs he) hEnv hallows entries_start rfl hrun
  obtain ⟨hconfig, hnanos⟩ := DpopState.of_new hnew
  rw [← hconfig] at hnanos
  intro proof i j hi hj
  obtain ⟨v, readAt, t, h⟩ := entered_of_accepted htold hi
  obtain ⟨v', readAt', t', h'⟩ := entered_of_accepted htold hj
  obtain ⟨rfl, hclose⟩ := h.close hnanos h'
  obtain ⟨-, hclose'⟩ := h'.close hnanos h
  by_cases hne : i = j
  · exact hne
  · have hevents : LogEvent.admitted i v.claims.jti t ≠
        .admitted j v.claims.jti t' := fun heq => hne (LogEvent.admitted.inj heq).1
    rcases mem_split h.event h'.event hevents with
      ⟨newer, older, hlog, hmem⟩ | ⟨newer, older, hlog, hmem⟩
    · exact absurd hclose (Int.not_lt.mpr (hentries.spaced hlog hmem))
    · exact absurd hclose' (Int.not_lt.mpr (hentries.spaced hlog hmem))

/-! ## A replay -/

/-- The same proof is sent twice. -/
def replayedCalls : Config Point DpopSrv Chance DpopCall Answer :=
  ((Config.start (started sampleClock)).set 0
    (.validate (ticketsContext plainProof false))
    (validateBody proofLibraries (proofState false)
      (ticketsContext plainProof false) plainProof.validated)).set 1
    (.validate (ticketsContext plainProof false))
    (validateBody proofLibraries (proofState false)
      (ticketsContext plainProof false) plainProof.validated)

/-- No entry comes late, and nothing is evicted. -/
def checkPrompt : Check Point DpopSrv Chance DpopEnv DpopCall where
  run _ _ pt ch s _ :=
    match pt.place with
    | .jtiEntry readAt _ _ => decide (s.clock + ch.elapsed ≤ readAt + entryDelay)
    | _ => true
  cancel _ _ := true
  env _ _ _ := false

theorem checkPrompt_implies : checkPrompt.Implies (prompt st) where
  run {i q pt ch s s'} h := by
    obtain ⟨boundTo, place⟩ := pt
    cases place with
    | jtiEntry readAt jti thumbprint =>
        have hle : s.clock + ch.elapsed ≤ readAt + entryDelay :=
          of_decide_eq_true h
        exact hle
    | _ => trivial
  cancel _ := trivial
  env h := absurd h Bool.false_ne_true

/-- The steps of the two calls, in turn. -/
def replay : Config Point DpopSrv Chance DpopCall Answer :=
  ((dpopSystem proofLibraries (proofState false)).exec checkPrompt replayedCalls
    [stepOf 0, stepOf 1, stepOf 0, stepOf 1, stepOf 0, stepOf 1]).get
    (by decide +kernel)

theorem replay_reaches :
    (dpopSystem proofLibraries (proofState false)).Reaches
      (prompt (proofState false)) (Config.start (started sampleClock))
      replay := by
  have hbody : (dpopSystem proofLibraries (proofState false)).body
      (.validate (ticketsContext plainProof false)) =
      validateBody proofLibraries (proofState false)
        (ticketsContext plainProof false) plainProof.validated :=
    validate_body _ plainProof_checked
  have hcalls : (dpopSystem proofLibraries (proofState false)).Reaches
      (prompt (proofState false)) (Config.start (started sampleClock))
      replayedCalls :=
    System.Reaches.called (System.Reaches.called .refl rfl hbody) rfl hbody
  exact hcalls.trans
    (System.exec_reaches checkPrompt_implies (Option.some_get _).symm)

/-- The first of the two is accepted, so the second is not. -/
theorem proof_accepted_once_replay :
    AcceptedBy (proofState false) replay 0 plainProof.text ∧
      ¬ AcceptedBy (proofState false) replay 1 plainProof.text := by
  have hanswer : replay.answer 0 =
      some (.validate (ticketsContext plainProof false),
        .proof (.ok plainProof.validated)) :=
    answer_of_accepted (by decide +kernel)
  have hfirst : AcceptedBy (proofState false) replay 0 plainProof.text :=
    .validate rfl rfl hanswer
  refine ⟨hfirst, fun hsecond => ?_⟩
  have hsame := proof_accepted_once proofLibraries sampleClock
    (proofState_new false) replay_reaches _ 0 1 hfirst hsecond
  cases hsame

end DpopAuth.Ports.ProofOnce
