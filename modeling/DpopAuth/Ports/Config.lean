import DpopAuth.Ports.Token

/-!
# Configuration

`config.rs`: the runtime configuration and its builder, with the builder's
defaults.  The cookie settings are left out: nothing here delivers a token.
-/

namespace DpopAuth.Ports.Config

open DpopAuth.Ports.Errors
open DpopAuth.Ports.Token

/-- `std::time::Duration`. -/
structure Duration where
  secs : Nat
  nanos : Nat
  secs_lt : secs < 2 ^ 64
  nanos_lt : nanos < 1000000000
  deriving DecidableEq, Repr

namespace Duration

/-- Whole seconds. -/
def ofSecs (n : Nat) (h : n < 2 ^ 64) : Duration := ⟨n, 0, h, by decide⟩

/-- The length in nanoseconds. -/
def asNanos (d : Duration) : Nat := d.secs * 1000000000 + d.nanos

/-- The length in microseconds, the unit of `DateTime`, rounded up: on a clock
that counts microseconds, something has lasted `d` when it has lasted that. -/
def asMicros (d : Duration) : Nat := (d.asNanos + 999) / 1000

end Duration

/-- `DpopConfig`. -/
structure DpopConfig where
  publicUrl : String
  issuer : String
  audience : String
  clockSkew : Duration
  nonceRequired : Bool
  allowedAlgs : List Algorithm
  signer : TokenSigner
  accessTokenTtl : Duration
  refreshTokenTtl : Duration
  gracePeriod : Duration
  allowRegistration : Bool

/-- `DpopConfigBuilder`, with its defaults. -/
structure DpopConfigBuilder where
  publicUrl : Option String := none
  issuer : Option String := none
  audience : Option String := none
  clockSkew : Duration := .ofSecs 60 (by decide)
  nonceRequired : Bool := false
  allowedAlgs : List Algorithm := [.ES256, .PS256]
  signer : Option TokenSigner := none
  accessTokenTtl : Duration := .ofSecs 900 (by decide)
  refreshTokenTtl : Duration := .ofSecs (30 * 24 * 60 * 60) (by decide)
  gracePeriod : Duration := .ofSecs 5 (by decide)
  allowRegistration : Bool := true

/-- `build`: the public URL and the signer are required, and the issuer and
the audience default to the public URL. -/
def DpopConfigBuilder.build (b : DpopConfigBuilder) :
    Except DpopError DpopConfig := do
  let publicUrl ← match b.publicUrl with
    | some url => pure url
    | none => throw (.internal "public_url is required")
  let signer ← match b.signer with
    | some signer => pure signer
    | none => throw (.internal "signer is required")
  return { publicUrl := publicUrl
           issuer := b.issuer.getD publicUrl
           audience := b.audience.getD publicUrl
           clockSkew := b.clockSkew
           nonceRequired := b.nonceRequired
           allowedAlgs := b.allowedAlgs
           signer := signer
           accessTokenTtl := b.accessTokenTtl
           refreshTokenTtl := b.refreshTokenTtl
           gracePeriod := b.gracePeriod
           allowRegistration := b.allowRegistration }

end DpopAuth.Ports.Config
