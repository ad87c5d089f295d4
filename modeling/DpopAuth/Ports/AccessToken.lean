import DpopAuth.Ports.Token

/-!
# Access tokens, from issue to verification

The claims of an access token are one JSON object: the named fields, then the
application's own claims (`#[serde(flatten)]`).  `serialize` and `deserialize`
are what `serde` derives for `AccessTokenClaims`; a named field that is read
twice is an error, every other member goes back to `extra`.

`Jwt` is the part of `jsonwebtoken` outside of the repository, and
`Jwt.Lawful` what the library relies on: decoding a token with the key that
belongs to the signing key gives back its members, deserialized and checked.

## Main results

* `deserialize_serialize` — without a reserved key, nothing moves.
* `deserialize_reserved` — with one, the object is rejected.
* `access_token_round_trip` — issue, then verify.
-/

namespace DpopAuth.Ports.AccessToken

open DpopAuth.Ports.Errors
open DpopAuth.Ports.Token

/-! ## JSON objects -/

/-- The members of a JSON object, in the order of the text. -/
abbrev Members := List (String × Json)

/-- The value of a claim. -/
def claim (key : String) (m : Members) : Option Json :=
  (m.find? fun e => e.1 == key).map Prod.snd

def parseString : Json → Except String String
  | .str s => .ok s
  | _ => .error "invalid type: expected a string"

def parseU64 : Json → Except String Nat
  | .num n =>
      if 0 ≤ n ∧ n ≤ (u64Max : Int) then .ok n.toNat
      else .error "invalid value: expected u64"
  | _ => .error "invalid type: expected u64"

/-- A field that has been read already is an error. -/
def readOnce {α : Type} (name : String) (slot : Option α)
    (parse : Json → Except String α) (v : Json) : Except String (Option α) :=
  if slot.isSome then .error ("duplicate field `" ++ name ++ "`")
  else match parse v with
    | .ok a => .ok (some a)
    | .error e => .error e

/-- A field that has not been read is an error. -/
def required {α : Type} (name : String) : Option α → Except String α
  | some a => .ok a
  | none => .error ("missing field `" ++ name ++ "`")

/-- `Confirmation`: an object whose other members are ignored, or a sequence. -/
def parseConfirmation : Json → Except String Confirmation
  | .obj m => do
      let slot ← m.foldlM (fun (slot : Option String) e =>
        if e.1 = "jkt" then readOnce "jkt" slot parseString e.2
        else .ok slot) none
      return ⟨← required "jkt" slot⟩
  | .arr [v] => do return ⟨← parseString v⟩
  | _ => .error "invalid type: expected struct Confirmation"

/-! ## `AccessTokenClaims` -/

/-- The keys of the named fields. -/
def reserved : List String := ["sub", "iss", "aud", "exp", "iat", "jti", "cnf"]

/-- The named fields, then the entries of `extra`. -/
def serialize (c : AccessTokenClaims) : Members :=
  [("sub", .str c.sub), ("iss", .str c.iss), ("aud", .str c.aud),
    ("exp", .num c.exp), ("iat", .num c.iat), ("jti", .str c.jti),
    ("cnf", .obj [("jkt", .str c.cnf.jkt)])] ++ c.extra

/-- What has been read of an object. -/
structure Fields where
  sub : Option String
  iss : Option String
  aud : Option String
  exp : Option Nat
  iat : Option Nat
  jti : Option String
  cnf : Option Confirmation
  collect : Members

/-- Read one member. -/
def Fields.read (f : Fields) (e : String × Json) : Except String Fields :=
  if e.1 = "sub" then do
    let x ← readOnce "sub" f.sub parseString e.2
    return { f with sub := x }
  else if e.1 = "iss" then do
    let x ← readOnce "iss" f.iss parseString e.2
    return { f with iss := x }
  else if e.1 = "aud" then do
    let x ← readOnce "aud" f.aud parseString e.2
    return { f with aud := x }
  else if e.1 = "exp" then do
    let x ← readOnce "exp" f.exp parseU64 e.2
    return { f with exp := x }
  else if e.1 = "iat" then do
    let x ← readOnce "iat" f.iat parseU64 e.2
    return { f with iat := x }
  else if e.1 = "jti" then do
    let x ← readOnce "jti" f.jti parseString e.2
    return { f with jti := x }
  else if e.1 = "cnf" then do
    let x ← readOnce "cnf" f.cnf parseConfirmation e.2
    return { f with cnf := x }
  else .ok { f with collect := f.collect ++ [e] }

/-- `Map::insert`, on the entries of a map in order. -/
def mapInsert (m : Members) (e : String × Json) : Members :=
  if m.any fun x => x.1 == e.1 then
    m.map fun x => if x.1 == e.1 then e else x
  else m ++ [e]

/-- The collected members as a map. -/
def mapOf (m : Members) : Members := m.foldl mapInsert []

/-- The claims, once every member has been read. -/
def Fields.claims (f : Fields) : Except String AccessTokenClaims := do
  let sub ← required "sub" f.sub
  let iss ← required "iss" f.iss
  let aud ← required "aud" f.aud
  let exp ← required "exp" f.exp
  let iat ← required "iat" f.iat
  let jti ← required "jti" f.jti
  let cnf ← required "cnf" f.cnf
  return {
    sub := sub
    iss := iss
    aud := aud
    exp := exp
    iat := iat
    jti := jti
    cnf := cnf
    extra := mapOf f.collect }

def Fields.empty : Fields := ⟨none, none, none, none, none, none, none, []⟩

def deserialize (m : Members) : Except String AccessTokenClaims :=
  match m.foldlM Fields.read Fields.empty with
  | .ok f => f.claims
  | .error e => .error e

/-! ## `jsonwebtoken` -/

/-- The error kinds the library tells apart. -/
inductive JwtError where
  | expiredSignature
  | immatureSignature
  | invalidIssuer
  | invalidAudience
  | missingRequiredClaim (name : String)
  | json (msg : String)
  | other (msg : String)
  deriving DecidableEq, Repr

def JwtError.text : JwtError → String
  | .expiredSignature => "ExpiredSignature"
  | .immatureSignature => "ImmatureSignature"
  | .invalidIssuer => "InvalidIssuer"
  | .invalidAudience => "InvalidAudience"
  | .missingRequiredClaim name => "Missing required claim: " ++ name
  | .json msg => "JSON error: " ++ msg
  | .other msg => msg

/-- `Validation`, as far as the library sets it. -/
structure Validation where
  validateExp : Bool
  leeway : Nat
  iss : List String
  aud : List String
  deriving DecidableEq, Repr

/-- A string claim is one of the expected ones. -/
def oneOf (expected : List String) : Option Json → Bool
  | some (.str s) => expected.contains s
  | _ => false

/-- The checks a `Validation` stands for: `exp` is required and not more than
the leeway in the past, issuer and audience are expected ones. -/
def Validation.check (v : Validation) (now : Nat) (m : Members) :
    Except JwtError Unit :=
  match claim "exp" m with
  | none => .error (.missingRequiredClaim "exp")
  | some exp =>
      match parseU64 exp with
      | .error _ => .error (.missingRequiredClaim "exp")
      | .ok exp =>
          if v.validateExp && decide (exp < now - v.leeway) then
            .error .expiredSignature
          else if !oneOf v.iss (claim "iss" m) then .error .invalidIssuer
          else if !oneOf v.aud (claim "aud" m) then .error .invalidAudience
          else .ok ()

/-- `jsonwebtoken`: signing a JSON object, and verifying a token for a type
that can be deserialized.  `pair` says which keys belong together. -/
structure Jwt where
  encode : Algorithm → Members → Key → Except String String
  decode : ∀ {α : Type}, (Members → Except String α) → Algorithm → Key →
    Validation → (now : Nat) → (token : String) → Except JwtError α
  pair : Algorithm → Key → Key → Prop

/-- A token decodes to the members it was made of, where these name an issuer
and an audience and the clock reads more than the leeway. -/
structure Jwt.Lawful (jwt : Jwt) : Prop where
  round_trip : ∀ {α : Type} (read : Members → Except String α)
    {alg : Algorithm} {m : Members} {ek dk : Key} {token : String}
    {v : Validation} {now : Nat}, jwt.pair alg ek dk →
      jwt.encode alg m ek = .ok token → v.leeway ≤ now →
      (claim "iss" m).isSome → (claim "aud" m).isSome →
      jwt.decode read alg dk v now token =
        match read m with
        | .error e => .error (.json e)
        | .ok a =>
            match v.check now m with
            | .error e => .error e
            | .ok () => .ok a

/-- `jsonwebtoken::encode` of the claims. -/
def Jwt.encodeClaims (jwt : Jwt) : Encode := fun alg claims key =>
  jwt.encode alg (serialize claims) key

/-- `verify_access_token`, with the clock reading made an argument. -/
def verifyAccessToken (jwt : Jwt) (algorithm : Algorithm) (decodingKey : Key)
    (token issuer audience : String) (clockSkew now : Nat) :
    Except DpopError AccessTokenClaims :=
  let validation : Validation :=
    { validateExp := true
      leeway := clockSkew
      iss := [issuer]
      aud := [audience] }
  match jwt.decode deserialize algorithm decodingKey validation now token with
  | .ok claims => .ok claims
  | .error .expiredSignature => .error .expired
  | .error .immatureSignature => .error .expired
  | .error e => .error (.invalidSignature e.text)

/-! ## Nothing moves -/

/-- A map: no two entries have the same key. -/
def IsMap (m : Members) : Prop := m.Pairwise fun x y => x.1 ≠ y.1

/-- No key of a named field. -/
def Unreserved (m : Members) : Prop := ∀ e ∈ m, e.1 ∉ reserved

instance (m : Members) : Decidable (Unreserved m) := by
  unfold Unreserved
  infer_instance

theorem mapOf_append {m : Members} (h : IsMap m) :
    ∀ done : Members, (∀ x ∈ done, ∀ y ∈ m, x.1 ≠ y.1) →
      m.foldl mapInsert done = done ++ m := by
  induction m with
  | nil => simp
  | cons e m ih =>
      intro done hdone
      obtain ⟨hhead, htail⟩ := List.pairwise_cons.mp h
      have hnew : (done.any fun x => x.1 == e.1) = false := by
        rw [List.any_eq_false]
        intro x hx
        simpa using hdone x hx e List.mem_cons_self
      have hstep : mapInsert done e = done ++ [e] := by simp [mapInsert, hnew]
      rw [List.foldl_cons, hstep, ih htail, List.append_assoc]
      · rfl
      · intro x hx y hy
        rcases List.mem_append.mp hx with hold | hlast
        · exact hdone x hold y (List.mem_cons_of_mem _ hy)
        · rw [List.mem_singleton.mp hlast]
          exact hhead y hy

/-- The entries of a map make the same map. -/
theorem mapOf_self {m : Members} (h : IsMap m) : mapOf m = m := by
  have hfold := mapOf_append h [] fun x hx => (by cases hx)
  simpa [mapOf] using hfold

/-- A member that is not reserved is collected. -/
theorem read_other {f : Fields} {e : String × Json} (h : e.1 ∉ reserved) :
    f.read e = .ok { f with collect := f.collect ++ [e] } := by
  simp only [reserved, List.mem_cons, List.not_mem_nil, or_false, not_or] at h
  simp [Fields.read, h]

theorem read_others {m : Members} (h : Unreserved m) :
    ∀ f : Fields, m.foldlM Fields.read f =
      .ok { f with collect := f.collect ++ m } := by
  induction m with
  | nil =>
      intro f
      simp [pure, Except.pure]
  | cons e m ih =>
      intro f
      have htail : Unreserved m := fun x hx => h x (List.mem_cons_of_mem _ hx)
      rw [List.foldlM_cons, read_other (h e List.mem_cons_self)]
      simp only [bind, Except.bind]
      rw [ih htail]
      simp [List.append_assoc]

/-- The named fields of the claims, read. -/
def namedFields (c : AccessTokenClaims) : Fields :=
  ⟨some c.sub, some c.iss, some c.aud, some c.exp, some c.iat, some c.jti,
    some c.cnf, []⟩

/-- A number that fits is read as it was written. -/
theorem parseU64_num {n : Nat} (h : n ≤ u64Max) : parseU64 (.num n) = .ok n := by
  have hbounds : (0 : Int) ≤ (n : Int) ∧ (n : Int) ≤ (u64Max : Int) := by omega
  simp only [parseU64, if_pos hbounds, Int.toNat_natCast]

theorem parseConfirmation_obj (jkt : String) :
    parseConfirmation (.obj [("jkt", .str jkt)]) = .ok ⟨jkt⟩ := rfl

theorem readOnce_none {α : Type} {name : String} {parse : Json → Except String α}
    {v : Json} {a : α} (h : parse v = .ok a) :
    readOnce name none parse v = .ok (some a) := by
  simp [readOnce, h]

section Named

variable {f : Fields}

theorem read_sub (h : f.sub = none) (s : String) :
    f.read ("sub", .str s) = .ok { f with sub := some s } := by
  have hread : readOnce "sub" none parseString (.str s) = .ok (some s) :=
    readOnce_none rfl
  simp [Fields.read, h, hread, bind, Except.bind, pure, Except.pure]

theorem read_iss (h : f.iss = none) (s : String) :
    f.read ("iss", .str s) = .ok { f with iss := some s } := by
  have hread : readOnce "iss" none parseString (.str s) = .ok (some s) :=
    readOnce_none rfl
  simp [Fields.read, h, hread, bind, Except.bind, pure, Except.pure]

theorem read_aud (h : f.aud = none) (s : String) :
    f.read ("aud", .str s) = .ok { f with aud := some s } := by
  have hread : readOnce "aud" none parseString (.str s) = .ok (some s) :=
    readOnce_none rfl
  simp [Fields.read, h, hread, bind, Except.bind, pure, Except.pure]

theorem read_jti (h : f.jti = none) (s : String) :
    f.read ("jti", .str s) = .ok { f with jti := some s } := by
  have hread : readOnce "jti" none parseString (.str s) = .ok (some s) :=
    readOnce_none rfl
  simp [Fields.read, h, hread, bind, Except.bind, pure, Except.pure]

theorem read_exp (h : f.exp = none) {n : Nat} (hn : n ≤ u64Max) :
    f.read ("exp", .num n) = .ok { f with exp := some n } := by
  have hread : readOnce "exp" none parseU64 (.num n) = .ok (some n) :=
    readOnce_none (parseU64_num hn)
  simp [Fields.read, h, hread, bind, Except.bind, pure, Except.pure]

theorem read_iat (h : f.iat = none) {n : Nat} (hn : n ≤ u64Max) :
    f.read ("iat", .num n) = .ok { f with iat := some n } := by
  have hread : readOnce "iat" none parseU64 (.num n) = .ok (some n) :=
    readOnce_none (parseU64_num hn)
  simp [Fields.read, h, hread, bind, Except.bind, pure, Except.pure]

theorem read_cnf (h : f.cnf = none) (jkt : String) :
    f.read ("cnf", .obj [("jkt", .str jkt)]) =
      .ok { f with cnf := some ⟨jkt⟩ } := by
  have hread : readOnce "cnf" none parseConfirmation
      (.obj [("jkt", .str jkt)]) = .ok (some ⟨jkt⟩) :=
    readOnce_none (parseConfirmation_obj jkt)
  simp [Fields.read, h, hread, bind, Except.bind, pure, Except.pure]

end Named

theorem foldlM_read {f g : Fields} {e : String × Json} {m : Members}
    (h : f.read e = .ok g) :
    (e :: m).foldlM Fields.read f = m.foldlM Fields.read g := by
  rw [List.foldlM_cons, h]
  rfl

/-- Reading what `serialize` writes starts with the named fields. -/
theorem read_serialize (c : AccessTokenClaims) (hexp : c.exp ≤ u64Max)
    (hiat : c.iat ≤ u64Max) :
    (serialize c).foldlM Fields.read Fields.empty =
      c.extra.foldlM Fields.read (namedFields c) := by
  unfold serialize
  simp only [List.cons_append, List.nil_append]
  rw [foldlM_read (read_sub rfl c.sub), foldlM_read (read_iss rfl c.iss),
    foldlM_read (read_aud rfl c.aud), foldlM_read (read_exp rfl hexp),
    foldlM_read (read_iat rfl hiat), foldlM_read (read_jti rfl c.jti),
    foldlM_read (read_cnf rfl c.cnf.jkt)]
  rfl

/-- **Without a reserved key, deserializing gives the claims back.** -/
theorem deserialize_serialize (c : AccessTokenClaims) (hexp : c.exp ≤ u64Max)
    (hiat : c.iat ≤ u64Max) (hmap : IsMap c.extra)
    (hfree : Unreserved c.extra) : deserialize (serialize c) = .ok c := by
  unfold deserialize
  rw [read_serialize c hexp hiat, read_others hfree]
  simp [Fields.claims, namedFields, required, mapOf_self hmap, bind, Except.bind,
    pure, Except.pure]

/-! ## Nothing is injected -/

/-- Every named field has been read. -/
structure Fields.Full (f : Fields) : Prop where
  sub : f.sub.isSome = true
  iss : f.iss.isSome = true
  aud : f.aud.isSome = true
  exp : f.exp.isSome = true
  iat : f.iat.isSome = true
  jti : f.jti.isSome = true
  cnf : f.cnf.isSome = true

/-- A named field is not read a second time. -/
theorem read_again {f : Fields} (h : f.Full) {e : String × Json}
    (he : e.1 ∈ reserved) : ∃ msg, f.read e = .error msg := by
  simp only [reserved, List.mem_cons, List.not_mem_nil, or_false] at he
  rcases he with hk | hk | hk | hk | hk | hk | hk <;>
    simp [Fields.read, readOnce, hk, h.sub, h.iss, h.aud, h.exp, h.iat, h.jti,
      h.cnf, bind, Except.bind]

/-- A reserved key among the further members is found. -/
theorem read_reserved {m : Members} (h : ∃ e ∈ m, e.1 ∈ reserved) :
    ∀ f : Fields, f.Full → ∃ msg, m.foldlM Fields.read f = .error msg := by
  induction m with
  | nil =>
      obtain ⟨e, he, -⟩ := h
      cases he
  | cons x m ih =>
      intro f hf
      rw [List.foldlM_cons]
      by_cases hx : x.1 ∈ reserved
      · obtain ⟨msg, hmsg⟩ := read_again hf hx
        exact ⟨msg, by rw [hmsg]; rfl⟩
      · have hrest : ∃ e ∈ m, e.1 ∈ reserved := by
          obtain ⟨e, he, hkey⟩ := h
          rcases List.mem_cons.mp he with rfl | he
          · exact absurd hkey hx
          · exact ⟨e, he, hkey⟩
        rw [read_other hx]
        exact ih hrest _
          ⟨hf.sub, hf.iss, hf.aud, hf.exp, hf.iat, hf.jti, hf.cnf⟩

/-- **With a reserved key in `extra`, the object is rejected.** -/
theorem deserialize_reserved (c : AccessTokenClaims) (hexp : c.exp ≤ u64Max)
    (hiat : c.iat ≤ u64Max) (h : ∃ e ∈ c.extra, e.1 ∈ reserved) :
    ∃ msg, deserialize (serialize c) = .error msg := by
  obtain ⟨msg, hmsg⟩ := read_reserved h (namedFields c)
    ⟨rfl, rfl, rfl, rfl, rfl, rfl, rfl⟩
  refine ⟨msg, ?_⟩
  unfold deserialize
  rw [read_serialize c hexp hiat, hmsg]

/-! ## Issue, then verify -/

/-- The checks pass for the claims of `issue_access_token`, as long as the
token has not expired. -/
theorem check_serialize (c : AccessTokenClaims) (hexp : c.exp ≤ u64Max)
    {leeway now : Nat} :
    Validation.check ⟨true, leeway, [c.iss], [c.aud]⟩ now (serialize c) =
      if c.exp < now - leeway then .error .expiredSignature else .ok () := by
  have hu64 := parseU64_num hexp
  have hclaim : claim "exp" (serialize c) = some (.num c.exp) := rfl
  have hiss : claim "iss" (serialize c) = some (.str c.iss) := rfl
  have haud : claim "aud" (serialize c) = some (.str c.aud) := rfl
  simp only [Validation.check, hclaim, hiss, haud, hu64, oneOf]
  simp

/-- The claims `issue_access_token` signs. -/
def issuedClaims (now : Nat) (jti issuer audience : String) (ttl : Nat)
    (subject jkt : String) (extra : Members) : AccessTokenClaims :=
  { sub := subject
    iss := issuer
    aud := audience
    exp := saturatingAdd now ttl
    iat := now
    jti := jti
    cnf := ⟨jkt⟩
    extra := extra }

theorem issueAccessToken_iff {jwt : Jwt} {now ttl : Nat}
    {jti issuer audience subject jkt token : String} {signer : TokenSigner}
    {extra : Members} :
    issueAccessToken jwt.encodeClaims now jti signer issuer audience ttl
        subject jkt extra = .ok token ↔
      jwt.encode signer.algorithm (serialize (issuedClaims now jti issuer audience
        ttl subject jkt extra)) signer.encodingKey = .ok token := by
  simp only [issueAccessToken, Jwt.encodeClaims, issuedClaims]
  split
  · rename_i t ht
    simp [ht]
  · rename_i e he
    simp [he]

/-- **Access-token round trip without claim injection.**  A token issued at
`t₀` and verified at `t` with the matching key, the same issuer and audience:
without a reserved key in `extra`, verification succeeds exactly until
`min (t₀ + ttl) u64::MAX` plus the leeway, and then with the claims as issued;
with a reserved key in `extra` it never succeeds. -/
theorem access_token_round_trip (jwt : Jwt) (hjwt : jwt.Lawful)
    (signer : TokenSigner)
    (hpair : jwt.pair signer.algorithm signer.encodingKey signer.decodingKey)
    (issuer audience subject jkt jti : String) (ttl t₀ t leeway : Nat)
    (extra : Members) (hmap : IsMap extra) (ht₀ : t₀ ≤ u64Max)
    (hleeway : leeway ≤ t) (token : String)
    (hissue : issueAccessToken jwt.encodeClaims t₀ jti signer issuer audience
      ttl subject jkt extra = .ok token) :
    (Unreserved extra → ∀ claims,
      verifyAccessToken jwt signer.algorithm signer.decodingKey token issuer
          audience leeway t = .ok claims ↔
        t ≤ min (t₀ + ttl) u64Max + leeway ∧
        claims = { sub := subject
                   iss := issuer
                   aud := audience
                   exp := min (t₀ + ttl) u64Max
                   iat := t₀
                   jti := jti
                   cnf := ⟨jkt⟩
                   extra := extra }) ∧
    (¬ Unreserved extra → ∀ claims,
      verifyAccessToken jwt signer.algorithm signer.decodingKey token issuer
          audience leeway t ≠ .ok claims) := by
  have hencode := issueAccessToken_iff.mp hissue
  have hexp : (issuedClaims t₀ jti issuer audience ttl subject jkt extra).exp ≤
      u64Max := Nat.min_le_right _ _
  have hdecode := hjwt.round_trip (v := ⟨true, leeway, [issuer], [audience]⟩)
    deserialize hpair hencode hleeway rfl rfl
  have hcheck : Validation.check ⟨true, leeway, [issuer], [audience]⟩ t
      (serialize (issuedClaims t₀ jti issuer audience ttl subject jkt extra)) =
      if min (t₀ + ttl) u64Max < t - leeway then .error .expiredSignature
      else .ok () := check_serialize _ hexp
  refine ⟨fun hfree claims => ?_, fun hkey claims => ?_⟩
  · rw [deserialize_serialize _ hexp ht₀ hmap hfree, hcheck] at hdecode
    simp only [verifyAccessToken, hdecode]
    by_cases hlate : min (t₀ + ttl) u64Max < t - leeway
    · simp only [hlate, if_true, reduceCtorEq, false_iff, not_and]
      intro hintime
      omega
    · have hintime : t ≤ min (t₀ + ttl) u64Max + leeway := by omega
      simp only [hlate, if_false, Except.ok.injEq, hintime, true_and]
      exact eq_comm
  · have hreserved : ∃ e ∈ extra, e.1 ∈ reserved := by
      apply Classical.byContradiction
      intro hnone
      exact hkey fun e he hin => hnone ⟨e, he, hin⟩
    obtain ⟨msg, hmsg⟩ := deserialize_reserved
      (issuedClaims t₀ jti issuer audience ttl subject jkt extra) hexp ht₀
      hreserved
    rw [hmsg] at hdecode
    simp only [verifyAccessToken, hdecode]
    intro h
    cases h

/-! ## One token -/

mutual
/-- Equality of JSON values, as a test. -/
def sameJson : Json → Json → Bool
  | .null, .null => true
  | .bool a, .bool b => a == b
  | .num a, .num b => a == b
  | .str a, .str b => a == b
  | .arr xs, .arr ys => sameItems xs ys
  | .obj xs, .obj ys => sameMembers xs ys
  | _, _ => false

def sameItems : List Json → List Json → Bool
  | [], [] => true
  | x :: xs, y :: ys => sameJson x y && sameItems xs ys
  | _, _ => false

def sameMembers : List (String × Json) → List (String × Json) → Bool
  | [], [] => true
  | (k, x) :: xs, (l, y) :: ys => k == l && (sameJson x y && sameMembers xs ys)
  | _, _ => false
end

mutual
theorem eq_of_sameJson : ∀ x y : Json, sameJson x y = true → x = y
  | .null, y => by cases y <;> simp [sameJson]
  | .bool a, y => by cases y <;> simp [sameJson]
  | .num a, y => by cases y <;> simp [sameJson]
  | .str a, y => by cases y <;> simp [sameJson]
  | .arr xs, y => by
      cases y <;> simp [sameJson]
      exact eq_of_sameItems xs _
  | .obj xs, y => by
      cases y <;> simp [sameJson]
      exact eq_of_sameMembers xs _

theorem eq_of_sameItems : ∀ xs ys : List Json, sameItems xs ys = true → xs = ys
  | [], ys => by cases ys <;> simp [sameItems]
  | x :: xs, ys => by
      cases ys with
      | nil => simp [sameItems]
      | cons y ys =>
          intro h
          obtain ⟨hx, hxs⟩ := (Bool.and_eq_true _ _).mp h
          rw [eq_of_sameJson x y hx, eq_of_sameItems xs ys hxs]

theorem eq_of_sameMembers : ∀ xs ys : List (String × Json),
    sameMembers xs ys = true → xs = ys
  | [], ys => by cases ys <;> simp [sameMembers]
  | (k, x) :: xs, ys => by
      cases ys with
      | nil => simp [sameMembers]
      | cons e ys =>
          intro h
          obtain ⟨hk, h⟩ := (Bool.and_eq_true _ _).mp h
          obtain ⟨hx, hxs⟩ := (Bool.and_eq_true _ _).mp h
          rw [eq_of_beq hk, eq_of_sameJson x e.2 hx, eq_of_sameMembers xs ys hxs]
end

def sampleKey : Key := ⟨.hmac, "0123456789abcdef0123456789abcdef"⟩

def sampleSigner : TokenSigner := .symmetric sampleKey sampleKey

def sampleExtra : Members := [("roles", .arr [.str "admin"])]

def sampleClaims : AccessTokenClaims :=
  issuedClaims 1000 "0d8f4c7e-6a57-4d0b-9a2e-3f1b7c5d9e21"
    "https://auth.example.com" "api" 900 "user-1" "thumbprint" sampleExtra

/-- The `HS256` token of `sampleClaims` under `sampleKey`. -/
def sampleToken : String :=
  "eyJ0eXAiOiJKV1QiLCJhbGciOiJIUzI1NiJ9.eyJzdWIiOiJ1c2VyLTEiLCJpc3MiOiJodHRwczo" ++
  "vL2F1dGguZXhhbXBsZS5jb20iLCJhdWQiOiJhcGkiLCJleHAiOjE5MDAsImlhdCI6MTAwMCwianR" ++
  "pIjoiMGQ4ZjRjN2UtNmE1Ny00ZDBiLTlhMmUtM2YxYjdjNWQ5ZTIxIiwiY25mIjp7ImprdCI6InR" ++
  "odW1icHJpbnQifSwicm9sZXMiOlsiYWRtaW4iXX0.SABXf80zp6XdhZN5UoGLTXC2GqRLGVnueb_" ++
  "aPPjKBHg"

/-- The library on one key and one token. -/
def sampleJwt : Jwt where
  encode alg m ek :=
    if alg = .HS256 ∧ ek = sampleKey ∧ sameMembers m (serialize sampleClaims) then
      .ok sampleToken
    else .error "InvalidKeyFormat"
  decode read alg dk v now token :=
    if alg = .HS256 ∧ dk = sampleKey ∧ token = sampleToken then
      match read (serialize sampleClaims) with
      | .error e => .error (.json e)
      | .ok a =>
          match v.check now (serialize sampleClaims) with
          | .error e => .error e
          | .ok () => .ok a
    else .error (.other "InvalidSignature")
  pair alg ek dk := alg = .HS256 ∧ ek = sampleKey ∧ dk = sampleKey

theorem sampleJwt_lawful : sampleJwt.Lawful := by
  constructor
  intro α read alg m ek dk token v now hpair hencode _ _ _
  obtain ⟨rfl, rfl, rfl⟩ := hpair
  simp only [sampleJwt] at hencode
  split at hencode
  · rename_i hsame
    cases hencode
    have hm : m = serialize sampleClaims := eq_of_sameMembers _ _ hsame.2.2
    simp [sampleJwt, hm]
  · cases hencode

/-- Issued at 1000 s for 900 s, with 30 s of leeway: accepted at 1930 s, and
not one second later. -/
theorem access_token_round_trip_expiring :
    verifyAccessToken sampleJwt .HS256 sampleKey sampleToken
        "https://auth.example.com" "api" 30 1930 = .ok sampleClaims ∧
      verifyAccessToken sampleJwt .HS256 sampleKey sampleToken
        "https://auth.example.com" "api" 30 1931 ≠ .ok sampleClaims := by
  have hsame : sameMembers (serialize sampleClaims) (serialize sampleClaims) =
      true := by decide +kernel
  have hencode : sampleJwt.encode .HS256 (serialize sampleClaims) sampleKey =
      .ok sampleToken := by simp [sampleJwt, hsame]
  have hissue : issueAccessToken sampleJwt.encodeClaims 1000
      "0d8f4c7e-6a57-4d0b-9a2e-3f1b7c5d9e21" sampleSigner
      "https://auth.example.com" "api" 900 "user-1" "thumbprint" sampleExtra =
      .ok sampleToken := issueAccessToken_iff.mpr hencode
  have hmap : IsMap sampleExtra := List.pairwise_singleton _ _
  have hfree : Unreserved sampleExtra := by decide
  have hexp : sampleClaims.exp = min (1000 + 900) u64Max := rfl
  have hmin : min (1000 + 900) u64Max = 1900 := by decide
  constructor
  · apply ((access_token_round_trip sampleJwt sampleJwt_lawful sampleSigner
      ⟨rfl, rfl, rfl⟩ _ _ _ _ _ 900 1000 1930 30 sampleExtra hmap (by decide)
      (by decide) sampleToken hissue).1 hfree sampleClaims).mpr
    have htime : 1930 ≤ min (1000 + 900) u64Max + 30 := by omega
    exact ⟨htime, rfl⟩
  · intro hok
    have hin := ((access_token_round_trip sampleJwt sampleJwt_lawful sampleSigner
      ⟨rfl, rfl, rfl⟩ _ _ _ _ _ 900 1000 1931 30 sampleExtra hmap (by decide)
      (by decide) sampleToken hissue).1 hfree sampleClaims).mp hok
    have htime : 1931 ≤ min (1000 + 900) u64Max + 30 := hin.1
    omega

end DpopAuth.Ports.AccessToken
