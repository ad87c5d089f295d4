import Mathlib.Algebra.Group.Nat.Defs
import DpopAuth.Ports.Errors

/-!
# Access tokens

`token.rs`: the claims of an access token and how it is issued.  The JWT
encoder is outside the repository and is a parameter; the claims it is given
are computed here.
-/

namespace DpopAuth.Ports.Token

open DpopAuth.Ports.Errors

/-- The JWS algorithms of `jsonwebtoken`. -/
inductive Algorithm where
  | HS256 | HS384 | HS512
  | ES256 | ES384
  | RS256 | RS384 | RS512
  | PS256 | PS384 | PS512
  | EdDSA
  deriving DecidableEq, Repr

/-- The kind of key an algorithm needs. -/
inductive AlgorithmFamily where
  | hmac | rsa | ec | ed
  deriving DecidableEq, Repr

def Algorithm.family : Algorithm → AlgorithmFamily
  | .HS256 | .HS384 | .HS512 => .hmac
  | .RS256 | .RS384 | .RS512 | .PS256 | .PS384 | .PS512 => .rsa
  | .ES256 | .ES384 => .ec
  | .EdDSA => .ed

/-- A key as `jsonwebtoken` holds it: its family and its material. -/
structure Key where
  family : AlgorithmFamily
  material : String
  deriving DecidableEq, Repr

/-- `TokenSigner`: a key to sign with and a key to verify with. -/
inductive TokenSigner where
  | symmetric (encoding decoding : Key)
  | asymmetric (encoding decoding : Key)
  deriving DecidableEq, Repr

namespace TokenSigner

def algorithm : TokenSigner → Algorithm
  | .symmetric .. => .HS256
  | .asymmetric .. => .ES256

def encodingKey : TokenSigner → Key
  | .symmetric k _ => k
  | .asymmetric k _ => k

def decodingKey : TokenSigner → Key
  | .symmetric _ k => k
  | .asymmetric _ k => k

end TokenSigner

/-- A JSON value. -/
inductive Json where
  | null
  | bool (b : Bool)
  | num (n : Int)
  | str (s : String)
  | arr (xs : List Json)
  | obj (members : List (String × Json))
  deriving Repr

/-- RFC 7800 confirmation. -/
structure Confirmation where
  jkt : String
  deriving DecidableEq, Repr

/-- The claims of an access token. -/
structure AccessTokenClaims where
  sub : String
  iss : String
  aud : String
  exp : Nat
  iat : Nat
  jti : String
  cnf : Confirmation
  extra : List (String × Json)
  deriving Repr

/-- The largest `u64`. -/
def u64Max : Nat := 2 ^ 64 - 1

/-- `u64::saturating_add`. -/
def saturatingAdd (a b : Nat) : Nat := min (a + b) u64Max

/-- `u64::saturating_sub`. -/
def saturatingSub (a b : Nat) : Nat := a - b

/-- `jsonwebtoken::encode`. -/
abbrev Encode := Algorithm → AccessTokenClaims → Key → Except String String

/-- `issue_access_token`, with the clock reading and the random `jti` it
takes made arguments. -/
def issueAccessToken (encode : Encode) (now : Nat) (jti : String)
    (signer : TokenSigner) (issuer audience : String) (ttl : Nat)
    (subject jkt : String) (extra : List (String × Json)) :
    Except DpopError String :=
  let claims : AccessTokenClaims :=
    { sub := subject
      iss := issuer
      aud := audience
      exp := saturatingAdd now ttl
      iat := now
      jti := jti
      cnf := ⟨jkt⟩
      extra := extra }
  match encode signer.algorithm claims signer.encodingKey with
  | .ok token => .ok token
  | .error e => .error (.internal e)

end DpopAuth.Ports.Token
