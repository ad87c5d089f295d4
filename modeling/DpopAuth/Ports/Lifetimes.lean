import DpopAuth.Ports.Service

/-!
# Lifetimes

The places where a configured duration meets a bounded type: the time to live
of the `jti` cache in `DpopState::new`, and `refresh_expiry`.  `build` accepts
every duration, so each of them can leave its range.

## Main results

* `jtiTtl_isSome_iff`, `refreshExpiryAt_eq_iff` — the safe ranges.
* `lifetimes_safe_iff` — both, for what `build` accepts.
* `maximal_ttl_expires_at_once` — outside of them.
-/

namespace DpopAuth.Ports.Config

/-! ## `std::time::Duration` -/

namespace Duration

/-- `Duration::MAX`. -/
def max : Duration := ⟨2 ^ 64 - 1, 999999999, by decide, by decide⟩

/-- The duration of `n` nanoseconds, if there is one. -/
def ofNanos? (n : Nat) : Option Duration :=
  if h : n < 2 ^ 64 * 1000000000 then
    some ⟨n / 1000000000, n % 1000000000, by omega, by omega⟩
  else none

/-- `self * n`; `none` where the multiplication panics. -/
def mul (d : Duration) (n : Nat) : Option Duration := ofNanos? (d.asNanos * n)

/-- `self + other`; `none` where the addition panics. -/
def add (d e : Duration) : Option Duration := ofNanos? (d.asNanos + e.asNanos)

theorem asNanos_max : max.asNanos = 2 ^ 64 * 1000000000 - 1 := rfl

theorem asNanos_le_max (d : Duration) : d.asNanos ≤ max.asNanos := by
  have hsecs := d.secs_lt
  have hnanos := d.nanos_lt
  rw [asNanos_max]
  unfold asNanos
  omega

theorem ofNanos?_isSome {n : Nat} :
    (ofNanos? n).isSome ↔ n ≤ max.asNanos := by
  rw [asNanos_max]
  unfold ofNanos?
  split
  · simp only [Option.isSome_some, true_iff]
    omega
  · simp only [Option.isSome_none, Bool.false_eq_true, false_iff]
    omega

theorem asNanos_of_ofNanos? {n : Nat} {d : Duration} (h : ofNanos? n = some d) :
    d.asNanos = n := by
  unfold ofNanos? at h
  split at h
  · obtain rfl := Option.some.inj h
    show n / 1000000000 * 1000000000 + n % 1000000000 = n
    omega
  · cases h

end Duration

end DpopAuth.Ports.Config

namespace DpopAuth.Ports.Lifetimes

open DpopAuth.Verified.Resumption
open DpopAuth.Ports.Errors
open DpopAuth.Ports.Schema
open DpopAuth.Ports.Config
open DpopAuth.Ports.Service

variable {b b' : DpopConfigBuilder} {config config' : DpopConfig}
  {now : Int}

/-! ## The two sites -/

theorem five_lt : 5 < 2 ^ 64 := by decide

/-- The buffer on top of the freshness window. -/
def fiveSeconds : Duration := .ofSecs 5 five_lt

theorem asNanos_fiveSeconds : fiveSeconds.asNanos = 5000000000 := rfl

/-- The time to live of the `jti` cache in `DpopState::new`; `none` where the
arithmetic panics. -/
def jtiTtl (config : DpopConfig) : Option Duration := do
  let window ← config.clockSkew.mul 2
  window.add fiveSeconds

/-- What `refresh_expiry` makes of a reading of the clock; `none` where it
panics. -/
def refreshExpiryAt (config : DpopConfig) (now : DateTime) : Option DateTime :=
  addSeconds now (castI64 config.refreshTokenTtl.secs)

/-! ## Safe ranges -/

theorem asNanos_jtiTtl {ttl : Duration} (h : jtiTtl config = some ttl) :
    ttl.asNanos = 2 * config.clockSkew.asNanos + 5000000000 := by
  have hbind : jtiTtl config = (config.clockSkew.mul 2).bind
      fun window => window.add fiveSeconds := rfl
  rw [hbind] at h
  obtain ⟨window, hwindow, hadd⟩ := Option.bind_eq_some_iff.mp h
  rw [Duration.asNanos_of_ofNanos? hadd, asNanos_fiveSeconds,
    Duration.asNanos_of_ofNanos? hwindow]
  omega

theorem jtiTtl_isSome_iff : (jtiTtl config).isSome ↔
    2 * config.clockSkew.asNanos + 5000000000 ≤ Duration.max.asNanos := by
  have hbind : jtiTtl config = (config.clockSkew.mul 2).bind
      fun window => window.add fiveSeconds := rfl
  rw [hbind, Option.isSome_iff_exists]
  constructor
  · rintro ⟨ttl, httl⟩
    have hmax := ttl.asNanos_le_max
    rw [asNanos_jtiTtl (hbind.trans httl)] at hmax
    exact hmax
  · intro h
    have htwice : (config.clockSkew.mul 2).isSome :=
      Duration.ofNanos?_isSome.mpr (by omega)
    obtain ⟨window, hwindow⟩ := Option.isSome_iff_exists.mp htwice
    have hsum : (window.add fiveSeconds).isSome := by
      refine Duration.ofNanos?_isSome.mpr ?_
      rw [Duration.asNanos_of_ofNanos? hwindow, asNanos_fiveSeconds]
      omega
    obtain ⟨ttl, httl⟩ := Option.isSome_iff_exists.mp hsum
    exact ⟨ttl, Option.bind_eq_some_iff.mpr ⟨window, hwindow, httl⟩⟩

theorem castI64_cases (n : Nat) (h : n < 2 ^ 64) :
    (n < 9223372036854775808 ∧ castI64 n = n) ∨
      (9223372036854775808 ≤ n ∧ castI64 n = n - 18446744073709551616) := by
  unfold castI64
  rcases Nat.lt_or_ge n 9223372036854775808 with hlo | hhi
  · refine .inl ⟨hlo, ?_⟩
    rw [Int.bmod_def]
    omega
  · refine .inr ⟨hhi, ?_⟩
    rw [Int.bmod_def]
    omega

theorem addSeconds_eq_some {n t : Int} :
    addSeconds now n = some t ↔
      (-chronoMaxSeconds ≤ n ∧ n ≤ chronoMaxSeconds) ∧
      (chronoMinUtc ≤ now + n * 1000000 ∧ now + n * 1000000 ≤ chronoMaxUtc) ∧
      t = now + n * 1000000 := by
  unfold addSeconds
  unfold DateTime at *
  split
  · constructor
    · intro h
      cases h
    · omega
  · split
    · constructor
      · intro h
        cases h
      · omega
    · rw [Option.some_inj]
      omega

/-- **The expiry that was meant**: the lifetime in whole seconds from now, and
no later than the latest time there is. -/
def saturatedExpiry (config : DpopConfig) (now : DateTime) : DateTime :=
  min (now + config.refreshTokenTtl.secs * 1000000) chronoMaxUtc

/-- **When `refresh_expiry` is right.** -/
theorem refreshExpiryAt_eq_iff (hmin : chronoMinUtc ≤ now)
    (hmax : now ≤ chronoMaxUtc) :
    refreshExpiryAt config now = some (saturatedExpiry config now) ↔
      now + config.refreshTokenTtl.secs * 1000000 ≤ chronoMaxUtc := by
  have hsecs := config.refreshTokenTtl.secs_lt
  unfold refreshExpiryAt saturatedExpiry
  rw [addSeconds_eq_some]
  unfold chronoMinUtc chronoMaxUtc chronoMaxSeconds DateTime at *
  rcases castI64_cases _ hsecs with ⟨hlo, hcast⟩ | ⟨hhi, hcast⟩
  · rw [hcast]
    omega
  · rw [hcast]
    omega

/-- A lifetime of a second or more ends after now. -/
theorem saturatedExpiry_gt
    (hfits : now + config.refreshTokenTtl.secs * 1000000 ≤ chronoMaxUtc)
    (hsecond : 1000000000 ≤ config.refreshTokenTtl.asNanos) :
    now < saturatedExpiry config now := by
  have hnanos := config.refreshTokenTtl.nanos_lt
  unfold saturatedExpiry
  unfold DateTime at *
  unfold Duration.asNanos at hsecond
  omega

/-- A longer lifetime does not end earlier. -/
theorem saturatedExpiry_le
    (hle : config.refreshTokenTtl.asNanos ≤ config'.refreshTokenTtl.asNanos) :
    saturatedExpiry config now ≤ saturatedExpiry config' now := by
  have hnanos := config.refreshTokenTtl.nanos_lt
  have hnanos' := config'.refreshTokenTtl.nanos_lt
  unfold saturatedExpiry
  unfold DateTime at *
  unfold Duration.asNanos at hle
  omega

/-! ## What `build` accepts -/

/-- The builder's durations are those of the configuration. -/
theorem build_durations (hbuild : b.build = .ok config) :
    config.clockSkew = b.clockSkew ∧
      config.refreshTokenTtl = b.refreshTokenTtl := by
  unfold DpopConfigBuilder.build at hbuild
  cases hurl : b.publicUrl with
  | none => rw [hurl] at hbuild; cases hbuild
  | some url =>
      cases hsigner : b.signer with
      | none => rw [hurl, hsigner] at hbuild; cases hbuild
      | some signer =>
          rw [hurl, hsigner] at hbuild
          cases hbuild
          exact ⟨rfl, rfl⟩

/-- **The arithmetic of a configuration at a time.** -/
structure Safe (config : DpopConfig) (now : DateTime) : Prop where
  /-- The time to live of the `jti` cache does not overflow. -/
  jtiTtl : (jtiTtl config).isSome
  /-- `refresh_expiry` answers what was meant. -/
  expiry : refreshExpiryAt config now = some (saturatedExpiry config now)
  /-- A lifetime of a second or more ends after now. -/
  later : 1000000000 ≤ config.refreshTokenTtl.asNanos →
    ∀ t, refreshExpiryAt config now = some t → now < t

/-- The settings stay in range. -/
def Fits (b : DpopConfigBuilder) (now : DateTime) : Prop :=
  2 * b.clockSkew.asNanos + 5000000000 ≤ Duration.max.asNanos ∧
    now + b.refreshTokenTtl.secs * 1000000 ≤ chronoMaxUtc

/-- **Duration arithmetic is safe exactly for settings that stay in range**,
and among those a longer lifetime does not end earlier. -/
theorem lifetimes_safe_iff (hbuild : b.build = .ok config)
    (hmin : chronoMinUtc ≤ now) (hmax : now ≤ chronoMaxUtc) :
    (Safe config now ↔ Fits b now) ∧
    (Fits b now → ∀ b' config', b'.build = .ok config' → Fits b' now →
      b.refreshTokenTtl.asNanos ≤ b'.refreshTokenTtl.asNanos →
      ∀ t t', refreshExpiryAt config now = some t →
        refreshExpiryAt config' now = some t' → t ≤ t') := by
  obtain ⟨hskew, httl⟩ := build_durations hbuild
  have hranges : Fits b now ↔ (jtiTtl config).isSome ∧
      refreshExpiryAt config now = some (saturatedExpiry config now) := by
    rw [jtiTtl_isSome_iff, refreshExpiryAt_eq_iff hmin hmax, hskew, httl]
    exact Iff.rfl
  constructor
  · constructor
    · intro hsafe
      exact hranges.mpr ⟨hsafe.jtiTtl, hsafe.expiry⟩
    · intro hfits
      obtain ⟨hjti, hexpiry⟩ := hranges.mp hfits
      refine ⟨hjti, hexpiry, fun hsecond t ht => ?_⟩
      obtain rfl := Option.some.inj (hexpiry.symm.trans ht)
      exact saturatedExpiry_gt (httl ▸ hfits.2) hsecond
  · intro hfits b' config' hbuild' hfits' hle t t' ht ht'
    obtain ⟨-, httl'⟩ := build_durations hbuild'
    have hexpiry := (hranges.mp hfits).2
    have hexpiry' : refreshExpiryAt config' now =
        some (saturatedExpiry config' now) :=
      (refreshExpiryAt_eq_iff hmin hmax).mpr (httl' ▸ hfits'.2)
    obtain rfl := Option.some.inj (hexpiry.symm.trans ht)
    obtain rfl := Option.some.inj (hexpiry'.symm.trans ht')
    exact saturatedExpiry_le (by rw [httl, httl']; exact hle)

/-! ## Outside of the ranges -/

/-- A builder with two durations of its own. -/
def sampleBuilder (skew ttl : Duration) : DpopConfigBuilder :=
  { publicUrl := some "https://auth.example.com"
    signer := some (.symmetric ⟨.hmac, "secret"⟩ ⟨.hmac, "secret"⟩)
    clockSkew := skew
    accessTokenTtl := skew
    refreshTokenTtl := ttl
    gracePeriod := fiveSeconds }

/-- The configuration `build` makes of it. -/
def built (skew ttl : Duration) : DpopConfig :=
  (sampleBuilder skew ttl).build.toOption.get rfl

theorem build_sampleBuilder (skew ttl : Duration) :
    (sampleBuilder skew ttl).build = .ok (built skew ttl) := rfl

theorem sixty_lt : 60 < 2 ^ 64 := by decide

theorem day_lt : 86400 < 2 ^ 64 := by decide

/-- A minute, and a day. -/
def minute : Duration := .ofSecs 60 sixty_lt

def day : Duration := .ofSecs 86400 day_lt

/-- **The longest lifetime ends a second before it starts**: the cast to `i64`
makes `-1` of it. -/
theorem maximal_ttl_expires_at_once :
    (sampleBuilder minute Duration.max).build =
        .ok (built minute Duration.max) ∧
      refreshExpiryAt (built minute Duration.max) 1767225600000000 =
        some 1767225599000000 ∧
      ¬ Safe (built minute Duration.max) 1767225600000000 := by
  have hexpiry : refreshExpiryAt (built minute Duration.max)
      1767225600000000 = some 1767225599000000 := by decide +kernel
  refine ⟨rfl, hexpiry, fun hsafe => ?_⟩
  exact absurd (hsafe.later (by decide +kernel) _ hexpiry) (by decide)

/-- A skew of a minute and a lifetime of a day, on the first of January 2026. -/
theorem lifetimes_safe_iff_daily :
    Safe (built minute day) 1767225600000000 ∧
      refreshExpiryAt (built minute day) 1767225600000000 =
        some 1767312000000000 := by
  have hsafe : Safe (built minute day) 1767225600000000 :=
    (lifetimes_safe_iff (build_sampleBuilder minute day) (by decide)
      (by decide)).1.mpr ⟨by decide +kernel, by decide +kernel⟩
  exact ⟨hsafe, by rw [hsafe.expiry]; decide +kernel⟩

end DpopAuth.Ports.Lifetimes
