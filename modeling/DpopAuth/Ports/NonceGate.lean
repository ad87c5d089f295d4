import Mathlib.Data.List.Nodup
import DpopAuth.Ports.DpopSteps

/-!
# The nonce gate

Nonces are issued on an error path of `validate_dpop_proof`, may be used any
number of times, and expire 300 s after they were issued.  While the cache
loses nothing but what has expired, it answers for exactly the nonces that have
been issued and are that young: `NonceHistory` says so at every moment, past
and future, and the verdict of every check in the log follows from it.

## Main results

* `nonce_gate_exact` — who passes the gate, and what becomes of the others.
-/

namespace DpopAuth.Ports.NonceGate

open DpopAuth.Verified.Resumption
open DpopAuth.Verified.RelyGuarantee
open DpopAuth.Verified.TtlCache
open DpopAuth.Ports.Errors
open DpopAuth.Ports.Token
open DpopAuth.Ports.AccessToken
open DpopAuth.Ports.Dpop
open DpopAuth.Ports.DpopSteps

variable {ext : ProofExternals} {st : DpopState} {i : Nat} {s s' : DpopSrv}

/-! ## Who may pass -/

/-- The nonce `n` was issued less than 300 s before `t`. -/
def IssuedWithin (log : List LogEvent) (n : String) (t : Int) : Prop :=
  ∃ j t', LogEvent.challenged j n t' ∈ log ∧ t < t' + nonceTtl

/-- **Who may pass the gate** at `t`, after what is in the log. -/
def Entitled (log : List LogEvent) (required : Bool) (nonce : Option String)
    (t : Nat) : Prop :=
  (required = false ∧ nonce = none) ∨
    ∃ n, nonce = some n ∧ IssuedWithin log n t

/-! ## The invariant -/

/-- **The cache and the log agree.** -/
structure NonceHistory (s : DpopSrv) : Prop where
  /-- The cache answers for the nonces issued, at any moment. -/
  cached : ∀ n t, (s.nonceCache.get nonceTtl t n).isSome ↔
    IssuedWithin s.log n t
  /-- Every check has let pass whoever was entitled then. -/
  checked : ∀ {newer older j required nonce passed t},
    s.log = newer ++ .gate j required nonce passed t :: older →
    (passed = true ↔ Entitled older required nonce t)
  /-- No nonce was issued twice. -/
  fresh : (s.log.filterMap LogEvent.issued?).Nodup

theorem nonceGate_iff {now : Nat} {required : Bool} {nonce : Option String}
    {log : List LogEvent} {cache : Cache String Bool}
    (h : ∀ n t, (cache.get nonceTtl t n).isSome ↔ IssuedWithin log n t) :
    nonceGate cache now required nonce = true ↔
      Entitled log required nonce now := by
  unfold nonceGate Entitled
  cases nonce with
  | none => cases required <;> simp
  | some n => simp [h]

/-- An event that issues nothing changes nothing that was issued. -/
theorem issuedWithin_cons {e : LogEvent} {log : List LogEvent} {n : String}
    {t : Int} (he : e.issued? = none) :
    IssuedWithin (e :: log) n t ↔ IssuedWithin log n t := by
  constructor
  · rintro ⟨j, t', hmem, hlt⟩
    rcases List.mem_cons.mp hmem with rfl | hmem
    · cases he
    · exact ⟨j, t', hmem, hlt⟩
  · rintro ⟨j, t', hmem, hlt⟩
    exact ⟨j, t', List.mem_cons_of_mem _ hmem, hlt⟩

theorem issuedWithin_challenged {i : Nat} {log : List LogEvent} {m n : String}
    {at' : Nat} {t : Int} (hfresh : ∀ e ∈ log, e.issued? ≠ some m) :
    IssuedWithin (.challenged i m at' :: log) n t ↔
      if n = m then t < at' + nonceTtl else IssuedWithin log n t := by
  constructor
  · rintro ⟨j, t', hmem, hlt⟩
    rcases List.mem_cons.mp hmem with heq | hmem
    · cases heq
      rw [if_pos rfl]
      exact hlt
    · have hne : n ≠ m := fun heq => hfresh _ hmem (congrArg some heq)
      rw [if_neg hne]
      exact ⟨j, t', hmem, hlt⟩
  · intro h
    by_cases hnm : n = m
    · rw [if_pos hnm] at h
      subst hnm
      exact ⟨i, at', List.mem_cons_self, h⟩
    · rw [if_neg hnm] at h
      obtain ⟨j, t', hmem, hlt⟩ := h
      exact ⟨j, t', List.mem_cons_of_mem _ hmem, hlt⟩

/-- An event that is no check leaves the checks as they were. -/
theorem checked_cons {e : LogEvent} {log : List LogEvent}
    (he : ∀ j required nonce passed t, e ≠ .gate j required nonce passed t)
    (h : ∀ {newer older j required nonce passed t},
      log = newer ++ .gate j required nonce passed t :: older →
      (passed = true ↔ Entitled older required nonce t)) :
    ∀ {newer older j required nonce passed t},
      e :: log = newer ++ .gate j required nonce passed t :: older →
      (passed = true ↔ Entitled older required nonce t) := by
  intro newer older j required nonce passed t heq
  cases newer with
  | nil => exact absurd (List.cons.inj heq).1 (he _ _ _ _ _)
  | cons e' newer => exact h (List.cons.inj heq).2

/-- Another event: no check, nothing issued, the same nonces cached. -/
theorem NonceHistory.other {e : LogEvent} (h : NonceHistory s)
    (hcache : s'.nonceCache = s.nonceCache) (hlog : s'.log = e :: s.log)
    (hissued : e.issued? = none)
    (hgate : ∀ j required nonce passed t, e ≠ .gate j required nonce passed t) :
    NonceHistory s' where
  cached n t := by
    rw [hcache, hlog, issuedWithin_cons hissued]
    exact h.cached n t
  checked heq := by
    rw [hlog] at heq
    exact checked_cons hgate h.checked heq
  fresh := by
    rw [hlog, List.filterMap_cons_none hissued]
    exact h.fresh

theorem NonceHistory.effect (h : NonceHistory s) (he : Effect st i s s') :
    NonceHistory s' := by
  cases he with
  | quiet d => exact ⟨h.cached, h.checked, h.fresh⟩
  | token d =>
      exact h.other rfl rfl rfl fun _ _ _ _ _ heq => by cases heq
  | gate d required nonce =>
      constructor
      · intro n t
        show (s.nonceCache.get nonceTtl t n).isSome ↔ _
        rw [issuedWithin_cons rfl]
        exact h.cached n t
      · intro newer older j required' nonce' passed t heq
        cases newer with
        | nil =>
            obtain ⟨hgate, rfl⟩ := List.cons.inj heq
            cases hgate
            exact nonceGate_iff h.cached
        | cons e newer => exact h.checked (List.cons.inj heq).2
      · exact h.fresh
  | challenge d m hfresh =>
      constructor
      · intro n t
        show ((s.nonceCache.insert _ m true).get nonceTtl t n).isSome ↔ _
        rw [issuedWithin_challenged hfresh]
        by_cases hnm : n = m
        · subst hnm
          rw [if_pos rfl]
          exact Cache.get_insert_isSome _ _ _ _ _ _
        · rw [if_neg hnm, Cache.get_insert_ne hnm]
          exact h.cached n t
      · exact checked_cons (fun _ _ _ _ _ heq => by cases heq) h.checked
      · show (m :: s.log.filterMap LogEvent.issued?).Nodup
        refine List.nodup_cons.mpr ⟨fun hmem => ?_, h.fresh⟩
        obtain ⟨e, he, hissued⟩ := List.mem_filterMap.mp hmem
        exact hfresh e he hissued
  | enter d jti hnew =>
      exact h.other rfl rfl rfl fun _ _ _ _ _ heq => by cases heq
  | cancel =>
      exact h.other rfl rfl rfl fun _ _ _ _ _ heq => by cases heq

theorem nonceHistory_start {clock : Nat} : NonceHistory (started clock) where
  cached n t := by
    constructor
    · intro h
      cases h
    · rintro ⟨j, t', hmem, -⟩
      cases hmem
  checked {newer} _ _ _ _ _ _ heq := by
    cases newer <;> cases heq
  fresh := .nil

/-! ## After the arrival of a call -/

/-- Time has passed since `s₀`, and the log has grown. -/
structure After (s₀ s : DpopSrv) : Prop where
  clock : s₀.clock ≤ s.clock
  log : s₀.log <:+ s.log

/-- Events have been added, none of which drops thread `i`. -/
def Adds (i : Nat) (s s' : DpopSrv) : Prop :=
  s.clock ≤ s'.clock ∧ ∃ new, s'.log = new ++ s.log ∧ .cancelled i ∉ new

theorem adds_one {e : LogEvent} (hclock : s.clock ≤ s'.clock)
    (hlog : s'.log = e :: s.log) (he : e ≠ .cancelled i) : Adds i s s' :=
  ⟨hclock, [e], hlog, fun hmem => he (List.mem_singleton.mp hmem).symm⟩

theorem Adds.after (h : Adds i s s') {s₀ : DpopSrv} (ha : After s₀ s) :
    After s₀ s' := by
  obtain ⟨hclock, new, hlog, -⟩ := h
  exact ⟨Nat.le_trans ha.clock hclock, ha.log.trans ⟨new, hlog.symm⟩⟩

theorem after_effect (h : Effect st j s s') {s₀ : DpopSrv} (ha : After s₀ s) :
    After s₀ s' := by
  refine ⟨Nat.le_trans ha.clock h.clock_le, ha.log.trans ?_⟩
  cases h with
  | quiet d => exact List.suffix_refl _
  | _ => exact List.suffix_cons _ _

theorem adds_effect (h : Effect st j s s') (hne : j ≠ i) : Adds i s s' := by
  have hclock := h.clock_le
  cases h with
  | quiet d => exact ⟨hclock, [], rfl, List.not_mem_nil⟩
  | cancel =>
      refine adds_one hclock rfl fun heq => hne ?_
      injection heq
  | _ => exact adds_one hclock rfl fun heq => by cases heq

theorem adds_evicts (h : Evicts s s') : Adds i s s' := by
  have hclock := Nat.le_of_eq h.clock_eq.symm
  cases h <;> exact adds_one hclock rfl fun heq => by cases heq

/-- What is known between two steps, when a call comes in at `s₀`. -/
def callLogic (st : DpopState) (s₀ : DpopSrv) : Logic DpopSrv where
  inv s := NonceHistory s ∧ After s₀ s
  guar := Effect st
  env := Evicts

theorem callLogic_moves (hs : (callLogic st s₀).inv s)
    (h : NonceHistory s' ∧ Effect st i s s') :
    (callLogic st s₀).inv s' ∧ (callLogic st s₀).guar i s s' :=
  ⟨⟨h.1, after_effect h.2 hs.2⟩, h.2⟩

/-- The call of thread `i` that came in at `s₀` has met the gate, and has been
given a nonce since. -/
structure AtGate (s₀ : DpopSrv) (i : Nat) (required : Bool)
    (nonce : Option String) (passed : Bool) (given : Option String) (t : Nat)
    (newer older : List LogEvent) (s : DpopSrv) : Prop where
  log : s.log = newer ++ .gate i required nonce passed t :: older
  kept : .cancelled i ∉ newer
  arrived : s₀.log <:+ older
  first : s₀.clock ≤ t
  last : t ≤ s.clock
  given : ∀ n, given = some n → ∃ t', .challenged i n t' ∈ newer

/-- It has, at some moment. -/
def Met (s₀ : DpopSrv) (i : Nat) (required : Bool) (nonce : Option String)
    (passed : Bool) (given : Option String) (s : DpopSrv) : Prop :=
  ∃ t newer older, AtGate s₀ i required nonce passed given t newer older s

variable {s₀ : DpopSrv} {required passed : Bool} {nonce given : Option String}

theorem Met.adds (h : Met s₀ i required nonce passed given s)
    (hadds : Adds i s s') : Met s₀ i required nonce passed given s' := by
  obtain ⟨t, newer, older, h⟩ := h
  obtain ⟨hclock, new, hlog, hnot⟩ := hadds
  refine ⟨t, new ++ newer, older, by rw [hlog, h.log, List.append_assoc],
    fun hmem => ?_, h.arrived, h.first, Nat.le_trans h.last hclock,
    fun n hn => ?_⟩
  · exact (List.mem_append.mp hmem).elim hnot h.kept
  · obtain ⟨t', hmem⟩ := h.given n hn
    exact ⟨t', List.mem_append_right _ hmem⟩

theorem stable_adds {P : DpopSrv → Prop}
    (h : ∀ {s s'}, P s → Adds i s s' → P s') : Stable (callLogic st s₀) i P where
  thread hne _ _ hg hP := h hP (adds_effect hg hne)
  env _ _ he hP := h hP (adds_evicts he)

theorem stable_read {readAt : Nat} :
    Stable (callLogic st s₀) i fun s => readAt ≤ s.clock :=
  stable_adds fun h hadds => Nat.le_trans h hadds.1

/-! ## What becomes of a call -/

/-- **The gate and the result of a call** that came in at `s₀`: `failed` says
with which errors it may have ended.  Whoever is entitled at the moment of the
check passes and is not challenged; whoever is not is sent a fresh nonce, in an
error of the kind of the request. -/
def Verdict (s₀ : DpopSrv) (i : Nat) (ctx : ValidationContext)
    (claims : DpopClaims) (failed : DpopError → Prop) (s : DpopSrv) : Prop :=
  ∃ passed t newer older,
    AtGate s₀ i ctx.nonceRequired claims.nonce passed none t newer older s ∧
    (passed = true ↔ Entitled older ctx.nonceRequired claims.nonce t) ∧
    (Entitled older ctx.nonceRequired claims.nonce t →
      ∀ n, ¬ failed (.tokenNonceRequired n) ∧
        ¬ failed (.resourceNonceRequired n)) ∧
    (¬ Entitled older ctx.nonceRequired claims.nonce t →
      ∃ n t', .challenged i n t' ∈ newer ∧ (∀ e ∈ older, e.issued? ≠ some n) ∧
        (ctx.accessToken = none → failed (.tokenNonceRequired n)) ∧
        (ctx.accessToken ≠ none → failed (.resourceNonceRequired n)))

/-- **What becomes of a call** whose proof is good: at a moment between its
arrival at `s₀` and its answer the proof is compared with the request, and it
fails there or meets the gate. -/
def Outcome (ext : ProofExternals) (s₀ : DpopSrv) (i : Nat)
    (ctx : ValidationContext) (claims : DpopClaims) (failed : DpopError → Prop)
    (s : DpopSrv) : Prop :=
  ∃ readAt, s₀.clock ≤ readAt ∧ readAt ≤ s.clock ∧
    ((∃ e, checkRequest ext ctx claims (seconds readAt) = .error e ∧ failed e) ∨
      checkRequest ext ctx claims (seconds readAt) = .ok () ∧
        Verdict s₀ i ctx claims failed s)

/-- A nonce is issued after the check it answers. -/
theorem not_issued_before {log newer older : List LogEvent} {e : LogEvent}
    {n : String} {t : Nat} (hfresh : (log.filterMap LogEvent.issued?).Nodup)
    (hlog : log = newer ++ e :: older) (hnew : .challenged i n t ∈ newer) :
    ∀ x ∈ older, x.issued? ≠ some n := by
  intro x hx hissued
  rw [hlog, List.filterMap_append] at hfresh
  refine (List.nodup_append.mp hfresh).2.2 n (List.mem_filterMap.mpr
    ⟨_, hnew, rfl⟩) n (List.mem_filterMap.mpr ⟨x, ?_, hissued⟩) rfl
  exact List.mem_cons_of_mem _ hx

variable {ctx : ValidationContext} {claims : DpopClaims}
  {failed : DpopError → Prop}

/-- A call that has passed. -/
theorem verdict_of_passed (h : NonceHistory s)
    (hmet : Met s₀ i ctx.nonceRequired claims.nonce true none s)
    (hfailed : ∀ n, ¬ failed (.tokenNonceRequired n) ∧
      ¬ failed (.resourceNonceRequired n)) :
    Verdict s₀ i ctx claims failed s := by
  obtain ⟨t, newer, older, hgate⟩ := hmet
  have hentitled := h.checked hgate.log
  exact ⟨true, t, newer, older, hgate, hentitled, fun _ => hfailed,
    fun hnot => absurd (hentitled.mp rfl) hnot⟩

/-- A call that has been challenged. -/
theorem verdict_of_challenged (h : NonceHistory s) {n : String}
    (hmet : Met s₀ i ctx.nonceRequired claims.nonce false (some n) s) :
    Verdict s₀ i ctx claims
      (fun e => nonceRequiredError ctx.accessToken n = e) s := by
  obtain ⟨t, newer, older, hgate⟩ := hmet
  have hentitled := h.checked hgate.log
  obtain ⟨t', hmem⟩ := hgate.given n rfl
  refine ⟨false, t, newer, older, ⟨hgate.log, hgate.kept, hgate.arrived,
      hgate.first, hgate.last, fun n hn => by cases hn⟩, hentitled,
    fun hyes => absurd (hentitled.mpr hyes) Bool.false_ne_true, fun _ =>
    ⟨n, t', hmem, not_issued_before h.fresh hgate.log hmem, fun hnone => ?_,
      fun hsome => ?_⟩⟩
  · simp [nonceRequiredError, hnone]
  · obtain ⟨token, htoken⟩ := Option.ne_none_iff_exists'.mp hsome
    simp [nonceRequiredError, htoken]

/-- The same call, with an error seen through another result. -/
theorem Outcome.mono {failed' : DpopError → Prop}
    (h : Outcome ext s₀ i ctx claims failed s)
    (hkeep : ∀ {e}, failed e → failed' e)
    (hback : ∀ n, (failed' (.tokenNonceRequired n) →
        failed (.tokenNonceRequired n)) ∧
      (failed' (.resourceNonceRequired n) →
        failed (.resourceNonceRequired n))) :
    Outcome ext s₀ i ctx claims failed' s := by
  obtain ⟨readAt, hfirst, hlast, hcase⟩ := h
  refine ⟨readAt, hfirst, hlast, hcase.imp ?_ ?_⟩
  · rintro ⟨e, hreq, he⟩
    exact ⟨e, hreq, hkeep he⟩
  · rintro ⟨hreq, passed, t, newer, older, hgate, hentitled, hyes, hno⟩
    refine ⟨hreq, passed, t, newer, older, hgate, hentitled, fun h n => ?_,
      fun h => ?_⟩
    · exact ⟨fun hf => (hyes h n).1 ((hback n).1 hf),
        fun hf => (hyes h n).2 ((hback n).2 hf)⟩
    · obtain ⟨n, t', hmem, hfresh, htoken, hresource⟩ := hno h
      exact ⟨n, t', hmem, hfresh, fun h => hkeep (htoken h),
        fun h => hkeep (hresource h)⟩

/-- **A call with a nonce it was sent** less than 300 s ago is not challenged,
however often the nonce was used. -/
theorem Outcome.not_challenged (h : Outcome ext s₀ i ctx claims failed s)
    (hother : ∀ {e t}, checkRequest ext ctx claims t = .error e →
      ∀ n, e ≠ .tokenNonceRequired n ∧ e ≠ .resourceNonceRequired n)
    (hunique : ∀ {e e'}, failed e → failed e' → e = e') {n : String} {t : Nat}
    (hsent : .challenged j n t ∈ s₀.log) (hnonce : claims.nonce = some n)
    (htime : (s.clock : Int) < t + nonceTtl) :
    ∀ m, ¬ failed (.tokenNonceRequired m) ∧
      ¬ failed (.resourceNonceRequired m) := by
  obtain ⟨readAt, -, -, ⟨e, hreq, he⟩ | ⟨-, passed, t', newer, older, hgate, -,
    hyes, -⟩⟩ := h
  · intro m
    exact ⟨fun hf => (hother hreq m).1 (hunique he hf),
      fun hf => (hother hreq m).2 (hunique he hf)⟩
  · refine hyes (.inr ⟨n, hnonce, j, t, hgate.arrived.subset hsent, ?_⟩)
    have hlast := hgate.last
    omega

theorem checkAth_error {accessToken ath : Option String} {e : DpopError}
    (h : checkAth ext accessToken ath = .error e) :
    ∃ text, e = .invalidSignature text := by
  unfold checkAth at h
  split at h
  · cases h
  · split at h
    · cases h
      exact ⟨_, rfl⟩
    · split at h
      · cases h
        exact ⟨_, rfl⟩
      · cases h

/-- An error about a nonce passes `bindSession`, and comes from nowhere else. -/
theorem bindSession_nonce {claims : AccessTokenClaims}
    {r : Except DpopError ValidatedProof} {e : DpopError}
    (he : ∀ text, e ≠ .invalidSignature text) :
    bindSession claims r = .error e ↔ r = .error e := by
  cases r with
  | error e' => simp [bindSession]
  | ok v =>
      by_cases hjkt : claims.cnf.jkt = v.jwkThumbprint
      · simp [bindSession, hjkt]
      · simpa [bindSession, hjkt] using fun h => he _ (Eq.symm h)

/-! ## Outlines -/

section Outlines

variable {F : Place → Chance → DpopSrv → DpopSrv → Prop} {v : ValidatedProof}
  (hF : ∀ {pt ch s s'}, F pt ch s s' → NonceHistory s' ∧ Effect st i s s')

include hF

/-- **The rest of `validate_dpop_proof`, step by step.** -/
theorem admitProof_outcome :
    Outline (callLogic st s₀) F i (admitProof ext st ctx v) (fun _ => True)
      fun r s => Outcome ext s₀ i ctx v.claims (fun e => r = .error e) s := by
  refine Outline.act (fun readAt s => s₀.clock ≤ readAt ∧ readAt ≤ s.clock)
    (fun readAt => (Stable.const _).and stable_read) ?_ fun readAt =>
      Outline.of_prop fun hfirst => ?_
  · intro s ch readAt s' hs _ hf hstep
    obtain ⟨hinv, hguar⟩ := callLogic_moves hs (hF hstep)
    obtain ⟨rfl, rfl⟩ := Prod.mk.inj (Option.some.inj hf)
    exact ⟨hinv, hguar, hinv.2.clock, Nat.le_refl _⟩
  cases hreq : checkRequest ext ctx v.claims (seconds readAt) with
  | error e =>
      exact Outline.ret fun s _ hlast =>
        ⟨readAt, hfirst, hlast, .inl ⟨e, hreq, rfl⟩⟩
  | ok _ =>
      refine Outline.act (fun passed s => readAt ≤ s.clock ∧
          Met s₀ i ctx.nonceRequired v.claims.nonce passed none s)
        (fun passed => stable_read.and (stable_adds Met.adds)) ?_
        fun passed => ?_
      · intro s ch passed s' hs hlast hf hstep
        obtain ⟨hinv, hguar⟩ := callLogic_moves hs (hF hstep)
        have hfirst' := hinv.2.clock
        obtain ⟨rfl, rfl⟩ := Prod.mk.inj (Option.some.inj hf)
        exact ⟨hinv, hguar, Nat.le_trans hlast (Nat.le_add_right _ _), _, [],
          s.log, rfl, List.not_mem_nil, hs.2.log, hfirst', Nat.le_refl _,
          fun n hn => by cases hn⟩
      cases passed with
      | true =>
          -- what follows fails without a challenge, or succeeds
          have hdone : ∀ {r : Except DpopError ValidatedProof} {s},
              (∀ n, r ≠ .error (.tokenNonceRequired n) ∧
                r ≠ .error (.resourceNonceRequired n)) →
              (callLogic st s₀).inv s → readAt ≤ s.clock ∧
                Met s₀ i ctx.nonceRequired v.claims.nonce true none s →
              Outcome ext s₀ i ctx v.claims (fun e => r = .error e) s :=
            fun hr hs h => ⟨readAt, hfirst, h.1, .inr ⟨hreq,
              verdict_of_passed hs.1 h.2 hr⟩⟩
          rw [if_pos rfl]
          cases hath : checkAth ext ctx.accessToken v.claims.ath with
          | error e =>
              obtain ⟨text, rfl⟩ := checkAth_error hath
              exact Outline.ret fun s hs h =>
                hdone (fun n => ⟨by simp, by simp⟩) hs h
          | ok _ =>
              refine Outline.act (fun _ s => readAt ≤ s.clock ∧
                  Met s₀ i ctx.nonceRequired v.claims.nonce true none s)
                (fun _ => stable_read.and (stable_adds Met.adds)) ?_
                fun fresh => ?_
              · intro s ch fresh s' hs h hf hstep
                obtain ⟨hinv, hguar⟩ := callLogic_moves hs (hF hstep)
                have hadds : Adds i s s' := by
                  rcases enterJti_cases hf with ⟨-, rfl, -⟩ | ⟨-, -, rfl⟩
                  · exact ⟨Nat.le_add_right _ _, [], rfl, List.not_mem_nil⟩
                  · exact adds_one (Nat.le_add_right _ _) rfl
                      fun heq => by cases heq
                exact ⟨hinv, hguar, Nat.le_trans h.1 hadds.1, h.2.adds hadds⟩
              · cases fresh with
                | true =>
                    rw [if_pos rfl]
                    exact Outline.ret fun s hs h =>
                      hdone (fun n => ⟨by simp, by simp⟩) hs h
                | false =>
                    rw [if_neg Bool.false_ne_true]
                    exact Outline.ret fun s hs h =>
                      hdone (fun n => ⟨by simp, by simp⟩) hs h
      | false =>
          rw [if_neg Bool.false_ne_true]
          refine Outline.act (fun n s => readAt ≤ s.clock ∧
              Met s₀ i ctx.nonceRequired v.claims.nonce false (some n) s)
            (fun n => stable_read.and (stable_adds Met.adds)) ?_ fun n => ?_
          · intro s ch n s' hs h hf hstep
            obtain ⟨hinv, hguar⟩ := callLogic_moves hs (hF hstep)
            obtain ⟨hlast, t, newer, older, hgate⟩ := h
            unfold insertNonce at hf
            dsimp only at hf
            split at hf
            · cases hf
            · obtain ⟨rfl, rfl⟩ := Prod.mk.inj (Option.some.inj hf)
              refine ⟨hinv, hguar, Nat.le_trans hlast (Nat.le_add_right _ _), t,
                .challenged i ch.uuid (s.clock + ch.elapsed) :: newer, older,
                ?_, fun hmem => ?_, hgate.arrived, hgate.first,
                Nat.le_trans hgate.last (Nat.le_add_right _ _), fun n hn => ?_⟩
              · show _ :: s.log = _
                rw [hgate.log, List.cons_append]
              · rcases List.mem_cons.mp hmem with heq | hmem
                · cases heq
                · exact hgate.kept hmem
              · obtain rfl := Option.some.inj hn
                exact ⟨_, List.mem_cons_self⟩
          · refine Outline.ret fun s hs h => ⟨readAt, hfirst, h.1, .inr ⟨hreq, ?_⟩⟩
            have hverdict := verdict_of_challenged hs.1 h.2
            simpa only [Except.error.injEq] using hverdict

end Outlines

/-! ## Runs -/

/-- No nonce is dropped before it expires. -/
def nonceKept : Filter Point DpopSrv Chance DpopEnv DpopCall where
  run _ _ _ _ _ _ := True
  cancel _ _ := True
  env e _ _ := ∃ jti, e = .evictJti jti

/-- What becomes of a request whose proof is good: its access token is looked
at, at a moment between its arrival and its answer, and then its proof. -/
def ServeOutcome (ext : ProofExternals) (st : DpopState) (s₀ : DpopSrv)
    (i : Nat) (x : Extracted) (claims : DpopClaims) (failed : DpopError → Prop)
    (s : DpopSrv) : Prop :=
  ∃ readAt, s₀.clock ≤ readAt ∧ readAt ≤ s.clock ∧
    ((∃ e, verifyToken ext st x.token (seconds readAt) = .error e ∧ failed e) ∨
      (∃ claims, verifyToken ext st x.token (seconds readAt) = .ok claims) ∧
        Outcome ext s₀ i (requestContext st.config x) claims failed s)

/-- What a call is answered with. -/
def Ended (ext : ProofExternals) (st : DpopState) (s₀ : DpopSrv) (i : Nat) :
    DpopCall → Answer → DpopSrv → Prop
  | .validate ctx, .proof r, s => ∀ v,
      checkProof ext ctx.allowedAlgs ctx.proof = .ok v →
      Outcome ext s₀ i ctx v.claims (fun e => r = .error e) s
  | .serve req, .session r, s => ∀ x v, extract req = .ok x →
      checkProof ext st.config.allowedAlgs x.proof = .ok v →
      ServeOutcome ext st s₀ i x v.claims (fun e => r = .error e) s
  | _, _, _ => True

/-- **Every call, step by step.** -/
theorem call_ends {F : Point → Chance → DpopSrv → DpopSrv → Prop}
    (hF : ∀ {pt ch s s'}, F pt ch s s' → NonceHistory s' ∧ Effect st i s s')
    (q : DpopCall) :
    Outline (callLogic st s₀) F i ((dpopSystem ext st).body q) (fun _ => True)
      fun a s => Ended ext st s₀ i q a s := by
  have hstep : ∀ {pt ch s s'}, (callLogic st s₀).inv s → F pt ch s s' →
      (callLogic st s₀).inv s' ∧ (callLogic st s₀).guar i s s' :=
    fun hs h => callLogic_moves hs (hF h)
  cases q with
  | validate ctx =>
      by_cases hproof : ∃ v, checkProof ext ctx.allowedAlgs ctx.proof = .ok v
      · obtain ⟨v, hproof⟩ := hproof
        rw [validate_body ext hproof]
        refine Outline.bind (R := fun r s =>
          Outcome ext s₀ i ctx v.claims (fun e => r = .error e) s)
          (fun r => Outline.ret fun s _ h v' hproof' => ?_)
          (Outline.mapPoint (admitProof_outcome fun h => hF h))
        obtain rfl := Except.ok.inj (hproof.symm.trans hproof')
        exact h
      · refine (Outline.of_filter hstep).post fun a s _ _ => ?_
        cases a with
        | proof r => exact fun v hv => absurd ⟨v, hv⟩ hproof
        | session r => trivial
  | serve req =>
      by_cases hproof : ∃ x v, extract req = .ok x ∧
          checkProof ext st.config.allowedAlgs x.proof = .ok v
      · obtain ⟨x, v, hextract, hproof⟩ := hproof
        rw [serve_body ext hextract hproof]
        refine Outline.bind (R := fun r s =>
          ServeOutcome ext st s₀ i x v.claims (fun e => r = .error e) s)
          (fun r => Outline.ret fun s _ h x' v' hextract' hproof' => ?_) ?_
        · obtain rfl := Except.ok.inj (hextract.symm.trans hextract')
          obtain rfl := Except.ok.inj (hproof.symm.trans hproof')
          exact h
        refine Outline.act (fun readAt s => s₀.clock ≤ readAt ∧ readAt ≤ s.clock)
          (fun readAt => (Stable.const _).and stable_read) ?_ fun readAt =>
            Outline.of_prop fun hfirst => ?_
        · intro s ch readAt s' hs _ hf h
          obtain ⟨hinv, hguar⟩ := hstep hs h
          have hclock := hinv.2.clock
          obtain ⟨rfl, rfl⟩ := Prod.mk.inj (Option.some.inj hf)
          exact ⟨hinv, hguar, hclock, Nat.le_refl _⟩
        cases htoken : verifyToken ext st x.token (seconds readAt) with
        | error e =>
            exact Outline.ret fun s _ hlast =>
              ⟨readAt, hfirst, hlast, .inl ⟨e, htoken, rfl⟩⟩
        | ok claims =>
            refine Outline.bind (R := fun r s => Outcome ext s₀ i
              (requestContext st.config x) v.claims (fun e => r = .error e) s ∧
                readAt ≤ s.clock) (fun r => Outline.ret fun s _ h => ?_) ?_
            · refine ⟨readAt, hfirst, h.2, .inr ⟨⟨claims, htoken⟩, h.1.mono
                (fun he => by rw [he]; rfl) fun n => ⟨?_, ?_⟩⟩⟩
              · exact (bindSession_nonce (by simp)).mp
              · exact (bindSession_nonce (by simp)).mp
            · refine Outline.weaken (fun _ _ h => ⟨trivial, h⟩) (Outline.carry
                stable_read (fun _ hguar h => ?_)
                (Outline.mapPoint (admitProof_outcome fun h => hF h)))
              exact Nat.le_trans h (Effect.clock_le hguar)
      · refine (Outline.of_filter hstep).post fun a s _ _ => ?_
        cases a with
        | proof r => trivial
        | session r => exact fun x v hx hv => absurd ⟨x, v, hx, hv⟩ hproof

variable {clock : Nat} {c₀ c : Config Point DpopSrv Chance DpopCall Answer}

/-- **The invariant in every reachable state**, and what is known of the steps
that follow. -/
theorem history_of_reaches {F : Filter Point DpopSrv Chance DpopEnv DpopCall}
    (hEnv : ∀ {e s s'}, F.env e s s' → nonceKept.env e s s')
    (hbefore : (dpopSystem ext st).Reaches nonceKept
      (Config.start (started clock)) c₀)
    (hrun : (dpopSystem ext st).Reaches F c₀ c) :
    NonceHistory c₀.shared ∧
      (dpopSystem ext st).Reaches (within F (dpopLogic st NonceHistory)) c₀ c := by
  have hidle : ∀ k, Stable (dpopLogic st NonceHistory) k
      fun s => own k s.log = [] := fun k => stable_own
  have hbody : ∀ k q, Outline (dpopLogic st NonceHistory) (nonceKept.run k q) k
      ((dpopSystem ext st).body q) (fun s => own k s.log = [])
      (Told ext st anyEntry q k) :=
    fun k q => call_outline (fun hs he => NonceHistory.effect hs he)
      allows_anyEntry q
  have hcancel : ∀ {k q s}, NonceHistory s → nonceKept.cancel k q →
      NonceHistory ((dpopSystem ext st).cancel k s) ∧
      Effect st k s ((dpopSystem ext st).cancel k s) ∧
      own k ((dpopSystem ext st).cancel k s).log = [] := by
    intro k q s hs _
    have heffect : Effect st k s ((dpopSystem ext st).cancel k s) := .cancel
    exact ⟨hs.effect heffect, heffect, own_cancelled⟩
  have henv : ∀ {e s s'}, NonceHistory s → (dpopSystem ext st).env e s = some s' →
      nonceKept.env e s s' → NonceHistory s' ∧ Evicts s s' := by
    intro e s s' hs hstep hkept
    obtain ⟨jti', rfl⟩ := hkept
    simp only [dpopSystem] at hstep
    split at hstep
    · cases hstep
      exact ⟨hs.other rfl rfl rfl (fun _ _ _ _ _ heq => by cases heq),
        .jti jti'⟩
    · cases hstep
  have hgood := sound (M := dpopSystem ext st) hidle hbody hcancel henv
    (Good.start nonceHistory_start fun _ => rfl) hbefore
  exact ⟨hgood.inv, sound_within hidle hbody hcancel henv
    (fun _ => trivial) (fun _ => trivial) hEnv hgood hrun⟩

/-- **A call that came in at `c₀`** and has been answered. -/
theorem ended_of_answer {q : DpopCall} {a : Answer}
    (hbefore : (dpopSystem ext st).Reaches nonceKept
      (Config.start (started clock)) c₀)
    (hrun : (dpopSystem ext st).Reaches nonceKept c₀ c)
    (hfree : c₀.thread i = none) (hanswer : c.answer i = some (q, a)) :
    Ended ext st c₀.shared i q a c.shared := by
  obtain ⟨hhistory, hwithin⟩ := history_of_reaches (fun h => h) hbefore hrun
  have hstart : After c₀.shared c₀.shared := ⟨Nat.le_refl _, List.suffix_refl _⟩
  have hgood : Good (callLogic st c₀.shared)
      (within nonceKept (dpopLogic st NonceHistory)) (fun _ _ => True)
      (fun q k a s => k = i → Ended ext st c₀.shared k q a s) c₀ :=
    Good.fresh (Q := fun q k => Ended ext st c₀.shared k q) ⟨hhistory, hstart⟩
      (fun _ _ => trivial) hfree
      fun hs h => ⟨⟨h.2.1, after_effect h.2.2 hs.2⟩, h.2.2⟩
  have henv : ∀ {e s s'}, (callLogic st c₀.shared).inv s →
      (dpopSystem ext st).env e s = some s' →
      (within nonceKept (dpopLogic st NonceHistory)).env e s s' →
      (callLogic st c₀.shared).inv s' ∧ (callLogic st c₀.shared).env s s' :=
    fun hs _ h => ⟨⟨h.2.1, (adds_evicts (i := i) h.2.2).after hs.2⟩, h.2.2⟩
  have hend := sound (M := dpopSystem ext st) (fun _ => .const True)
    (fun k q => (call_ends (fun h => h.2) q).post fun _ _ _ h _ => h)
    (fun {k q s} hs _ => by
      have heffect : Effect st k s ((dpopSystem ext st).cancel k s) := .cancel
      exact ⟨⟨hs.1.effect heffect, after_effect heffect hs.2⟩, heffect, trivial⟩)
    henv hgood hwithin
  exact hend.result (Config.answer_eq.mp hanswer) rfl

theorem normalizeHtu_error {parse : Htu.Parse} {raw : String} {e : DpopError}
    (h : Htu.normalizeHtu parse raw = .error e) : e = .htuMismatch := by
  unfold Htu.normalizeHtu at h
  split at h
  · cases h
    rfl
  · cases h

/-- The checks of a request do not challenge. -/
theorem checkRequest_error {t : Nat} {e : DpopError}
    (h : checkRequest ext ctx claims t = .error e) (n : String) :
    e ≠ .tokenNonceRequired n ∧ e ≠ .resourceNonceRequired n := by
  unfold checkRequest at h
  split at h
  · cases h
    exact ⟨by simp, by simp⟩
  · split at h
    · cases h
      exact ⟨by simp, by simp⟩
    · split at h
      · cases h
        rename_i hhtu
        rw [normalizeHtu_error hhtu]
        exact ⟨by simp, by simp⟩
      · split at h
        · cases h
          rename_i hhtu
          rw [normalizeHtu_error hhtu]
          exact ⟨by simp, by simp⟩
        · split at h
          · cases h
            exact ⟨by simp, by simp⟩
          · cases h

/-- **The nonce gate admits exactly the server's own live nonces.**  In every
state any run reaches, each check of the log has let pass exactly those who
were entitled to, and no nonce was issued twice.  Every call that came in at
`c₀` with a good proof and has been answered, by `validate_dpop_proof` itself
or by the layer, was compared with its request, and failed there, or met the
gate in the meantime: with no challenge if it was entitled to pass, and if it
was not, with a challenge of the kind of its request and a nonce never issued
before.  And a call with a nonce that was sent less than 300 s ago is not
challenged. -/
theorem nonce_gate_exact (ext : ProofExternals) (st : DpopState) (clock : Nat)
    {c₀ c : Config Point DpopSrv Chance DpopCall Answer}
    (hbefore : (dpopSystem ext st).Reaches nonceKept
      (Config.start (started clock)) c₀)
    (hrun : (dpopSystem ext st).Reaches nonceKept c₀ c) :
    (∀ newer older i required nonce passed t, c.shared.log =
        newer ++ .gate i required nonce passed t :: older →
      (passed = true ↔ Entitled older required nonce t)) ∧
    (c.shared.log.filterMap LogEvent.issued?).Nodup ∧
    (∀ i ctx r v, c₀.thread i = none →
      c.answer i = some (.validate ctx, .proof r) →
      checkProof ext ctx.allowedAlgs ctx.proof = .ok v →
      Outcome ext c₀.shared i ctx v.claims (fun e => r = .error e) c.shared ∧
      ∀ j n (t : Nat), .challenged j n t ∈ c₀.shared.log →
        v.claims.nonce = some n → (c.shared.clock : Int) < t + nonceTtl →
        ∀ m, r ≠ .error (.tokenNonceRequired m) ∧
          r ≠ .error (.resourceNonceRequired m)) ∧
    ∀ i req r x v, c₀.thread i = none →
      c.answer i = some (.serve req, .session r) → extract req = .ok x →
      checkProof ext st.config.allowedAlgs x.proof = .ok v →
      ServeOutcome ext st c₀.shared i x v.claims (fun e => r = .error e)
        c.shared := by
  have hhistory : NonceHistory c.shared :=
    (history_of_reaches (fun h => h) (hbefore.trans hrun) .refl).1
  refine ⟨fun newer older i required nonce passed t heq =>
    hhistory.checked heq, hhistory.fresh, ?_, ?_⟩
  · intro i ctx r v hfree hanswer hproof
    have houtcome : Outcome ext c₀.shared i ctx v.claims (fun e => r = .error e)
        c.shared := ended_of_answer hbefore hrun hfree hanswer v hproof
    refine ⟨houtcome, fun j n t hsent hnonce htime => ?_⟩
    exact houtcome.not_challenged checkRequest_error
      (fun h h' => Except.error.inj (h.symm.trans h')) hsent hnonce htime
  · intro i req r x v hfree hanswer hextract hproof
    exact ended_of_answer hbefore hrun hfree hanswer x v hextract hproof

theorem noncedProof_checked :
    checkProof proofLibraries [.ES256, .PS256] noncedProof.text =
      .ok noncedProof.validated :=
  checkProof_sample (by decide) (by decide +kernel)
    ((List.find?_cons_of_neg (by decide +kernel)).trans
      (List.find?_cons_of_pos (beq_self_eq_true _)))

/-- A proof is sent without a nonce. -/
def firstSent : Config Point DpopSrv Chance DpopCall Answer :=
  (Config.start (started sampleClock)).set 0
    (.validate (ticketsContext plainProof true))
    (validateBody proofLibraries (proofState true)
      (ticketsContext plainProof true) plainProof.validated)

/-- It is answered with one. -/
def challengedFirst : Config Point DpopSrv Chance DpopCall Answer :=
  ((dpopSystem proofLibraries (proofState true)).exec .calls firstSent
    [stepOf 0, stepOf 0, stepOf 0]).get (by decide +kernel)

/-- A proof is sent with the nonce of the answer. -/
def secondSent : Config Point DpopSrv Chance DpopCall Answer :=
  challengedFirst.set 1 (.validate (ticketsContext noncedProof true))
    (validateBody proofLibraries (proofState true)
      (ticketsContext noncedProof true) noncedProof.validated)

def roundTrip : Config Point DpopSrv Chance DpopCall Answer :=
  ((dpopSystem proofLibraries (proofState true)).exec .calls secondSent
    [stepOf 1, stepOf 1, stepOf 1]).get (by decide +kernel)

theorem challengedFirst_reaches :
    (dpopSystem proofLibraries (proofState true)).Reaches nonceKept
      (Config.start (started sampleClock)) challengedFirst := by
  have hcall : (dpopSystem proofLibraries (proofState true)).Reaches nonceKept
      (Config.start (started sampleClock)) firstSent :=
    System.Reaches.called .refl rfl
      (validate_body proofLibraries plainProof_checked)
  exact hcall.trans (System.exec_reaches
    (Check.calls_implies trivial trivial) (Option.some_get _).symm)

theorem roundTrip_reaches :
    (dpopSystem proofLibraries (proofState true)).Reaches nonceKept
      challengedFirst roundTrip := by
  have hcall : (dpopSystem proofLibraries (proofState true)).Reaches nonceKept
      challengedFirst secondSent :=
    System.Reaches.called .refl (by decide +kernel)
      (validate_body proofLibraries noncedProof_checked)
  exact hcall.trans (System.exec_reaches
    (Check.calls_implies trivial trivial) (Option.some_get _).symm)

example : (roundTrip.shared.log.map LogEvent.issued?) =
    [none, none, some sampleNonce, none] := by decide +kernel

theorem roundTrip_answer : roundTrip.answer 1 =
    some (.validate (ticketsContext noncedProof true),
      .proof (.ok noncedProof.validated)) :=
  answer_of_accepted (by decide +kernel)

/-- The second call: the nonce of the first answer is accepted. -/
theorem nonce_gate_exact_roundTrip :
    Outcome proofLibraries challengedFirst.shared 1
      (ticketsContext noncedProof true) noncedProof.validated.claims
      (fun e => (.ok noncedProof.validated : Except DpopError ValidatedProof) =
        .error e) roundTrip.shared ∧
    ∀ m, (.ok noncedProof.validated : Except DpopError ValidatedProof) ≠
        .error (.tokenNonceRequired m) ∧
      (.ok noncedProof.validated : Except DpopError ValidatedProof) ≠
        .error (.resourceNonceRequired m) := by
  have hproof : checkProof proofLibraries
      (ticketsContext noncedProof true).allowedAlgs
      (ticketsContext noncedProof true).proof = .ok noncedProof.validated :=
    noncedProof_checked
  obtain ⟨-, -, hvalidate, -⟩ := nonce_gate_exact proofLibraries
    (proofState true) sampleClock challengedFirst_reaches roundTrip_reaches
  obtain ⟨houtcome, haccepted⟩ := hvalidate 1 _ _ _ (by decide +kernel)
    roundTrip_answer hproof
  exact ⟨houtcome, haccepted 0 sampleNonce (sampleClock + 1500000000)
    (by decide +kernel) rfl (by decide +kernel)⟩

end DpopAuth.Ports.NonceGate
