import DpopAuth.Ports.TwoFactorSteps

/-!
# A TOTP code is accepted once

A code is valid during three time steps, 90 s, and a replay entry lives for
90 s.  An acceptance makes an entry at the moment of its own clock reading, so
two acceptances of one code for one user are at least 90 s apart, which no two
moments of one validity window are.

## Main results

* `Replay.check` — what `verify_totp_once` keeps.
* `acceptances_le_one` — one acceptance in a window.
-/

namespace DpopAuth.Ports.TotpReplay

open DpopAuth.Verified.Resumption
open DpopAuth.Verified.RelyGuarantee
open DpopAuth.Verified.RowVersions
open DpopAuth.Verified.Transactions
open DpopAuth.Verified.TtlCache
open DpopAuth.Verified.StepRules
open DpopAuth.Ports.Errors
open DpopAuth.Ports.Schema
open DpopAuth.Ports.TwoFactor
open DpopAuth.Ports.TwoFactorSteps

variable {ext : TotpExternals} {i : Nat} {w w' : TotpSrv} {α β : Type}
  {user : Uuid} {code : String} {t t' : DateTime}

/-! ## Acceptances of a code -/

/-- The note says that `code` was accepted for `user` at `t`. -/
inductive Accepts (user : Uuid) (code : String) (t : DateTime) : Note → Prop
  | mk (number : Nat) (secret : String) (enrolment : Nat) :
      Accepts user code t
        (.accepted ⟨number, user, .totp secret code, enrolment⟩ t)

/-- The time of a note that accepts `code` for `user`. -/
def acceptedAt (user : Uuid) (code : String) : Note → Option DateTime
  | .accepted ⟨_, u, .totp _ c, _⟩ t =>
      if u = user ∧ c = code then some t else none
  | _ => none

theorem acceptedAt_eq {n : Note} :
    acceptedAt user code n = some t ↔ Accepts user code t n := by
  constructor
  · intro h
    unfold acceptedAt at h
    split at h
    · split at h
      · rename_i hboth
        obtain ⟨rfl, rfl⟩ := hboth
        cases h
        exact .mk _ _ _
      · cases h
    · cases h
  · intro h
    cases h
    simp [acceptedAt]

/-- The moment `t` lies in the validity window of a time step: the step
itself, the one before, and the one after. -/
def ValidAt (step t : Int) : Prop :=
  step - 1 ≤ t / 30000000 ∧ t / 30000000 ≤ step + 1

instance (step t : Int) : Decidable (ValidAt step t) := by
  unfold ValidAt
  infer_instance

/-- The acceptances of a code in the window of a step. -/
def acceptances (user : Uuid) (code : String) (step : Int) (log : List Note) :
    List DateTime :=
  (log.filterMap (acceptedAt user code)).filter fun t => decide (ValidAt step t)

/-- Two moments of one window are less than 90 s apart. -/
theorem ValidAt.close {step t t' : Int} (h : ValidAt step t)
    (h' : ValidAt step t') : t' < t + totpReplayTtl := by
  unfold ValidAt at h h'
  unfold totpReplayTtl
  omega

/-- A window has no gaps. -/
theorem ValidAt.between {step t t' t'' : Int} (h : ValidAt step t)
    (h' : ValidAt step t'') (hle : t ≤ t') (hle' : t' ≤ t'') :
    ValidAt step t' := by
  unfold ValidAt at h h' ⊢
  omega

/-! ## The invariant -/

/-- The log and the replay cache. -/
structure Replay (w : TotpSrv) : Prop where
  /-- An acceptance leaves an entry that is at least as young. -/
  entry : ∀ {user code t n}, n ∈ w.mem.log → Accepts user code t n →
    ∃ e ∈ w.mem.replayCache, e.key = (user, code) ∧ t ≤ e.insertedAt
  /-- An entry is left by an acceptance. -/
  origin : ∀ e ∈ w.mem.replayCache, ∃ n ∈ w.mem.log,
    Accepts e.key.1 e.key.2 e.insertedAt n
  /-- Acceptances are 90 s apart. -/
  spaced : ∀ user code, (w.mem.log.filterMap (acceptedAt user code)).Pairwise
    fun later earlier => earlier + totpReplayTtl ≤ later
  past : ∀ {user code t n}, n ∈ w.mem.log → Accepts user code t n → t ≤ w.clock
  /-- A replay is one of a code that was accepted for the same user. -/
  replayed : ∀ {user code t}, Note.replayed user code t ∈ w.mem.log →
    ∃ n ∈ w.mem.log, ∃ t', Accepts user code t' n ∧ t < t' + totpReplayTtl

/-- A lookup finds an entry that is live. -/
theorem get_isSome {c : Cache (Uuid × String) Unit} {e : Entry (Uuid × String) Unit}
    {ttl now : Int} (he : e ∈ c) (hlive : now < e.insertedAt + ttl) :
    (c.get ttl now e.key).isSome = true := by
  have hfound : (c.find? fun x => decide (x.key = e.key) && x.live ttl now).isSome := by
    rw [List.find?_isSome]
    exact ⟨e, he, by simp [Entry.live, hlive]⟩
  simpa [Cache.get, Cache.find] using hfound

/-- A note that is no acceptance of a TOTP code and no replay. -/
theorem Replay.other (h : Replay w) {n : Note} {m : TotpMemory}
    (hn : ∀ user code t, ¬ Accepts user code t n)
    (hreplay : ∀ user code t, n ≠ .replayed user code t)
    (hlog : m.log = n :: w.mem.log)
    (hcache : m.replayCache = w.mem.replayCache) :
    Replay { w with mem := m } where
  entry hin hacc := by
    rw [hlog] at hin
    rcases List.mem_cons.mp hin with rfl | hin
    · exact absurd hacc (hn _ _ _)
    · rw [hcache]
      exact h.entry hin hacc
  origin e he := by
    rw [hcache] at he
    obtain ⟨x, hx, hacc⟩ := h.origin e he
    rw [hlog]
    exact ⟨x, List.mem_cons_of_mem _ hx, hacc⟩
  spaced user code := by
    have hnone : acceptedAt user code n = none := by
      cases hat : acceptedAt user code n with
      | none => rfl
      | some t => exact absurd (acceptedAt_eq.mp hat) (hn _ _ _)
    rw [hlog, List.filterMap_cons, hnone]
    exact h.spaced user code
  past hin hacc := by
    rw [hlog] at hin
    rcases List.mem_cons.mp hin with rfl | hin
    · exact absurd hacc (hn _ _ _)
    · exact h.past hin hacc
  replayed hin := by
    rw [hlog] at hin
    rcases List.mem_cons.mp hin with heq | hin
    · exact absurd heq.symm (hreplay _ _ _)
    · obtain ⟨x, hx, t', hacc, hlt⟩ := h.replayed hin
      rw [hlog]
      exact ⟨x, List.mem_cons_of_mem _ hx, t', hacc, hlt⟩

/-- A code that the cache does not know is accepted. -/
theorem Replay.accept (h : Replay w) {number enrolment : Nat} {user : Uuid}
    {secret code : String}
    (hmiss : (w.mem.replayCache.get totpReplayTtl w.clock (user, code)).isSome =
      false) :
    Replay { w with mem := { w.mem with
      replayCache := w.mem.replayCache.insert w.clock (user, code) ()
      log := .accepted ⟨number, user, .totp secret code, enrolment⟩ w.clock ::
        w.mem.log } } where
  entry {u c t n} hin hacc := by
    rcases List.mem_cons.mp hin with rfl | hin
    · cases hacc
      exact ⟨_, List.mem_cons_self, rfl, Int.le_refl _⟩
    · obtain ⟨e, he, hkey, hle⟩ := h.entry hin hacc
      by_cases hsame : (u, c) = (user, code)
      · exact ⟨_, List.mem_cons_self, hsame.symm, h.past hin hacc⟩
      · refine ⟨e, List.mem_cons_of_mem _ ?_, hkey, hle⟩
        exact List.mem_filter.mpr ⟨he, decide_eq_true (by rwa [hkey])⟩
  origin e he := by
    rcases List.mem_cons.mp he with rfl | he
    · exact ⟨_, List.mem_cons_self, .mk _ _ _⟩
    · obtain ⟨n, hn, hacc⟩ := h.origin e (List.mem_filter.mp he).1
      exact ⟨n, List.mem_cons_of_mem _ hn, hacc⟩
  spaced u c := by
    rw [List.filterMap_cons]
    split
    · exact h.spaced u c
    · rename_i t hat
      have hacc := acceptedAt_eq.mp hat
      cases hacc
      refine List.pairwise_cons.mpr ⟨fun t ht => ?_, h.spaced _ _⟩
      obtain ⟨n, hn, hnt⟩ := List.mem_filterMap.mp ht
      have hold := acceptedAt_eq.mp hnt
      obtain ⟨e, he, hkey, hle⟩ := h.entry hn hold
      -- an entry that is live would have been found
      by_contra hclose
      have hlive : w.clock < e.insertedAt + totpReplayTtl :=
        Int.lt_of_lt_of_le (Int.not_le.mp hclose) (Int.add_le_add_right hle _)
      have hsome := get_isSome he hlive
      rw [hkey, hmiss] at hsome
      cases hsome
  past hin hacc := by
    rcases List.mem_cons.mp hin with rfl | hin
    · cases hacc
      exact Int.le_refl _
    · exact h.past hin hacc
  replayed hin := by
    rcases List.mem_cons.mp hin with heq | hin
    · cases heq
    · obtain ⟨x, hx, t', hacc, hlt⟩ := h.replayed hin
      exact ⟨x, List.mem_cons_of_mem _ hx, t', hacc, hlt⟩

/-- A code that the cache knows is rejected. -/
theorem Replay.reject (h : Replay w) {user : Uuid} {code : String}
    (hhit : (w.mem.replayCache.get totpReplayTtl w.clock (user, code)).isSome =
      true) :
    Replay { w with mem := { w.mem with
      log := .replayed user code w.clock :: w.mem.log } } where
  entry hin hacc := by
    rcases List.mem_cons.mp hin with rfl | hin
    · cases hacc
    · exact h.entry hin hacc
  origin e he := by
    obtain ⟨n, hn, hacc⟩ := h.origin e he
    exact ⟨n, List.mem_cons_of_mem _ hn, hacc⟩
  spaced u c := by
    rw [List.filterMap_cons]
    exact h.spaced u c
  past hin hacc := by
    rcases List.mem_cons.mp hin with rfl | hin
    · cases hacc
    · exact h.past hin hacc
  replayed hin := by
    rcases List.mem_cons.mp hin with heq | hin
    · cases heq
      obtain ⟨v, hv⟩ := Option.isSome_iff_exists.mp hhit
      obtain ⟨e, he, hkey, hlive, -⟩ := Cache.get_eq_some hv
      obtain ⟨n, hn, hacc⟩ := h.origin e he
      rw [hkey] at hacc
      exact ⟨n, List.mem_cons_of_mem _ hn, _, hacc, hlive⟩
    · obtain ⟨x, hx, t', hacc, hlt⟩ := h.replayed hin
      exact ⟨x, List.mem_cons_of_mem _ hx, t', hacc, hlt⟩

/-- **`verify_totp_once` keeps the invariant.** -/
theorem Replay.check (h : Replay w) {n : Nat} {user : TotpUser}
    {secret code : String} :
    Replay { w with mem := (checkTotp ext n user secret code w).2 } := by
  unfold checkTotp
  split
  · exact h
  · dsimp only [Cache.orInsert]
    cases hget : (w.mem.replayCache.get totpReplayTtl w.clock
        (user.id, trim code)).isSome with
    | false =>
        simp only [Bool.false_eq_true, if_false, if_true]
        exact h.accept hget
    | true =>
        simp only [if_true, Bool.false_eq_true, if_false]
        exact h.reject hget

/-! ## Runs -/

theorem same_replay (h : SameMemory w w') (hw : Replay w) : Replay w' := by
  obtain ⟨hmem, hclock⟩ := h
  constructor
  · rw [hmem]
    exact hw.entry
  · rw [hmem]
    exact hw.origin
  · rw [hmem]
    exact hw.spaced
  · rw [hmem, hclock]
    exact hw.past
  · rw [hmem]
    exact hw.replayed

theorem replay_start {users : List UserRow} {clock : DateTime} :
    Replay (startState users clock) where
  entry hin := by cases hin
  origin e he := by cases he
  spaced _ _ := .nil
  past hin := by cases hin
  replayed hin := by cases hin

theorem Replay.tick (h : Replay w) {d : Nat} :
    Replay { w with clock := w.clock + d } where
  entry := h.entry
  origin := h.origin
  spaced := h.spaced
  past hin hacc :=
    Int.le_trans (h.past hin hacc) (Int.le_add_of_nonneg_right (by omega))
  replayed := h.replayed

/-- Acceptances that are 90 s apart do not share a window. -/
theorem acceptances_le_one {step : Int} {log : List Note}
    (h : (log.filterMap (acceptedAt user code)).Pairwise
      fun later earlier => earlier + totpReplayTtl ≤ later) :
    (acceptances user code step log).length ≤ 1 := by
  have hpair : (acceptances user code step log).Pairwise
      fun later earlier => earlier + totpReplayTtl ≤ later := h.filter _
  have hvalid : ∀ t ∈ acceptances user code step log, ValidAt step t :=
    fun t ht => of_decide_eq_true (List.mem_filter.mp ht).2
  match hts : acceptances user code step log with
  | [] => simp
  | [_] => simp
  | later :: earlier :: rest =>
      rw [hts] at hpair hvalid
      have hspaced : earlier + totpReplayTtl ≤ later :=
        List.rel_of_pairwise_cons hpair List.mem_cons_self
      have hclose : later < earlier + totpReplayTtl :=
        (hvalid earlier (by simp)).close (hvalid later (by simp))
      exact absurd hspaced (Int.not_le.mpr hclose)

end DpopAuth.Ports.TotpReplay
