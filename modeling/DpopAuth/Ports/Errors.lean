import Mathlib.Init

/-!
# Error types

The reasons for which a DPoP proof or a token is rejected, and the errors of
the authentication service, with the texts their `Display` implementations
print.  An error of the first kind becomes an internal error of the second.
-/

namespace DpopAuth.Ports.Errors

/-- Why a DPoP proof or an access token was rejected. -/
inductive DpopError where
  | missingHeader
  | invalidTyp (got : String)
  | invalidAlgorithm (alg : String)
  | invalidSignature (msg : String)
  | htmMismatch (expected got : String)
  | htuMismatch
  | jtiReplay
  | expired
  | tokenNonceRequired (nonce : String)
  | resourceNonceRequired (nonce : String)
  | internal (msg : String)
  deriving DecidableEq, Repr

/-- The text a client or a log sees. -/
def DpopError.text : DpopError → String
  | .missingHeader => "missing DPoP header"
  | .invalidTyp got => "invalid typ: expected dpop+jwt, got " ++ got
  | .invalidAlgorithm alg => "symmetric or unsupported algorithm: " ++ alg
  | .invalidSignature msg => "proof signature or structure invalid: " ++ msg
  | .htmMismatch expected got =>
      "htm mismatch: expected " ++ expected ++ ", got " ++ got
  | .htuMismatch => "htu mismatch or invalid URI"
  | .jtiReplay => "jti replay detected"
  | .expired => "proof expired (iat out of window)"
  | .tokenNonceRequired _ => "nonce required on token endpoint"
  | .resourceNonceRequired _ => "nonce required on protected resource"
  | .internal msg => "internal error: " ++ msg

/-- Why a service call was refused. -/
inductive ServiceError where
  | unauthorized
  | conflict (msg : String)
  | registrationDisabled
  | validation (msg : String)
  | internal (msg : String)
  deriving DecidableEq, Repr

/-- `From<DpopError>`: entropy and signing failures are internal errors. -/
def ServiceError.ofDpop (e : DpopError) : ServiceError := .internal e.text

end DpopAuth.Ports.Errors
