import DpopAuth.Verified.Delimited
import DpopAuth.Ports.Errors

/-!
# The target of a proof

`normalize_htu` of `dpop.rs` prints the scheme, the host, the port and the path
of a URL into one string, and two targets are the same when these strings are.
The URL parser is outside of the repository and is a parameter; `Lawful` is
what its URLs look like.

## Main results

* `authority_inj` — host and port are read back.
* `normalizeHtu_eq_iff` — equal strings, equal resources.
-/

namespace DpopAuth.Ports.Htu

open DpopAuth.Verified.Delimited
open DpopAuth.Ports.Errors

/-! ## URLs -/

/-- `url::Url`. -/
structure Url where
  scheme : String
  username : String
  password : Option String
  host : Option String
  port : Option Nat
  path : String
  query : Option String
  fragment : Option String
  deriving DecidableEq, Repr

/-- The default port of a scheme. -/
def defaultPort (scheme : String) : Option Nat :=
  if scheme = "http" ∨ scheme = "ws" then some 80
  else if scheme = "https" ∨ scheme = "wss" then some 443
  else if scheme = "ftp" then some 21
  else none

/-- `port_or_known_default`. -/
def Url.effectivePort (u : Url) : Option Nat := u.port <|> defaultPort u.scheme

/-- `Url::parse`. -/
abbrev Parse := String → Option Url

def Url.IsHttp (u : Url) : Prop := u.scheme = "http" ∨ u.scheme = "https"

/-- A domain or an IPv4 address. -/
def IsDomain (host : List Char) : Prop :=
  host ≠ [] ∧ '/' ∉ host ∧ ':' ∉ host ∧ '@' ∉ host

/-- An IPv6 address in brackets. -/
def IsBracketed (host : List Char) : Prop :=
  ∃ address : List Char, host = '[' :: (address ++ [']']) ∧
    ':' ∈ address ∧ '/' ∉ address ∧ ']' ∉ address

/-- **What the URLs of the parser look like.** -/
structure Lawful (parse : Parse) : Prop where
  /-- A scheme ends at the first colon. -/
  scheme : ∀ raw u, parse raw = some u → ':' ∉ u.scheme.toList
  /-- A web address has a host. -/
  host : ∀ raw u, parse raw = some u → u.IsHttp →
    ∃ host, u.host = some host ∧
      (IsDomain host.toList ∨ IsBracketed host.toList)
  /-- A default port is left out. -/
  port : ∀ raw u, parse raw = some u → u.IsHttp → ∀ p, u.port = some p →
    defaultPort u.scheme ≠ some p
  /-- The path of a web address is absolute. -/
  path : ∀ raw u, parse raw = some u → u.IsHttp →
    ∃ rest, u.path.toList = '/' :: rest

/-! ## Normal form -/

/-- What `normalize_htu` prints of a port. -/
def portText : Option Nat → String
  | some port => ":" ++ toString port
  | none => ""

/-- What `normalize_htu` prints of a URL. -/
def Url.normalized (u : Url) : String :=
  u.scheme ++ "://" ++ u.host.getD "" ++ portText u.port ++ u.path

/-- `normalize_htu`. -/
def normalizeHtu (parse : Parse) (raw : String) : Except DpopError String :=
  match parse raw with
  | none => .error .htuMismatch
  | some url => .ok url.normalized

/-- The two URLs lead to the same resource. -/
def SameResource (u e : Url) : Prop :=
  u.scheme = e.scheme ∧ u.host = e.host ∧
    u.effectivePort = e.effectivePort ∧ u.path = e.path

/-! ## Host and port -/

variable {h h' : List Char} {p p' : Option Nat}

theorem portText_some (n : Nat) :
    (portText (some n)).toList = ':' :: Nat.toDigits 10 n := by
  unfold portText
  rw [String.toList_append, Nat.toString_eq_repr, Nat.toList_repr]
  rfl

theorem toDigits_inj {m n : Nat}
    (hsame : Nat.toDigits 10 m = Nat.toDigits 10 n) : m = n := by
  have hread := congrArg (fun ds => Nat.ofDigitChars 10 ds 0) hsame
  simpa using hread

theorem portText_inj (hsame : (portText p).toList = (portText p').toList) :
    p = p' := by
  cases p with
  | none =>
      cases p' with
      | none => rfl
      | some n =>
          rw [portText_some] at hsame
          cases hsame
  | some m =>
      cases p' with
      | none =>
          rw [portText_some] at hsame
          cases hsame
      | some n =>
          rw [portText_some, portText_some] at hsame
          rw [toDigits_inj (List.cons.inj hsame).2]

/-- The digits of a port have no delimiter. -/
theorem not_mem_digits {c : Char} (hc : c.isDigit = false) (n : Nat) :
    c ∉ Nat.toDigits 10 n := by
  intro hmem
  have hdigit := Nat.isDigit_of_mem_toDigits (by decide) (by decide) hmem
  rw [hc] at hdigit
  cases hdigit

theorem slash_not_mem_portText (p : Option Nat) :
    '/' ∉ (portText p).toList := by
  cases p with
  | none =>
      intro hmem
      cases hmem
  | some n =>
      rw [portText_some]
      intro hmem
      rcases List.mem_cons.mp hmem with heq | hmem
      · exact absurd heq (by decide)
      · exact not_mem_digits (by decide) n hmem

theorem domain_inj (hd : ':' ∉ h) (hd' : ':' ∉ h')
    (hsame : h ++ (portText p).toList = h' ++ (portText p').toList) :
    h = h' ∧ p = p' := by
  cases p with
  | none =>
      cases p' with
      | none =>
          have hnil : (portText none).toList = [] := rfl
          rw [hnil, List.append_nil, List.append_nil] at hsame
          exact ⟨hsame, rfl⟩
      | some n =>
          have hnil : (portText none).toList = [] := rfl
          rw [hnil, List.append_nil, portText_some] at hsame
          exact absurd (hsame ▸ List.mem_append_right h' List.mem_cons_self) hd
  | some m =>
      cases p' with
      | none =>
          have hnil : (portText none).toList = [] := rfl
          rw [hnil, List.append_nil, portText_some] at hsame
          exact absurd (hsame ▸ List.mem_append_right h List.mem_cons_self) hd'
      | some n =>
          rw [portText_some, portText_some] at hsame
          obtain ⟨hhost, hport⟩ := (join_inj hd hd').mp hsame
          exact ⟨hhost, by rw [toDigits_inj hport]⟩

theorem bracketed_inj (hb : IsBracketed h) (hb' : IsBracketed h')
    (hsame : h ++ (portText p).toList = h' ++ (portText p').toList) :
    h = h' ∧ p = p' := by
  obtain ⟨a, rfl, -, -, hclose⟩ := hb
  obtain ⟨a', rfl, -, -, hclose'⟩ := hb'
  simp only [List.cons_append, List.append_assoc, List.nil_append,
    List.cons.injEq, true_and] at hsame
  obtain ⟨rfl, hport⟩ := (join_inj hclose hclose').mp hsame
  exact ⟨rfl, portText_inj hport⟩

/-- A domain is no bracketed address: what follows its colon is digits. -/
theorem domain_ne_bracketed (hd : ':' ∉ h) (hb : IsBracketed h') :
    h ++ (portText p).toList ≠ h' ++ (portText p').toList := by
  intro hsame
  obtain ⟨a, rfl, hcolon, -, -⟩ := hb
  obtain ⟨x, y, rfl, hx⟩ := List.eq_append_cons_of_mem hcolon
  have hsame' : h ++ (portText p).toList =
      ('[' :: x) ++ ':' :: (y ++ ']' :: (portText p').toList) := by
    rw [hsame]
    simp
  have hx' : ':' ∉ '[' :: x := by
    intro hmem
    rcases List.mem_cons.mp hmem with heq | hmem
    · exact absurd heq (by decide)
    · exact hx hmem
  cases p with
  | none =>
      have hnil : (portText none).toList = [] := rfl
      rw [hnil, List.append_nil] at hsame'
      exact hd (hsame' ▸ List.mem_append_right _ List.mem_cons_self)
  | some n =>
      rw [portText_some] at hsame'
      have hdigits := ((join_inj hd hx').mp hsame').2
      exact not_mem_digits (c := ']') (by decide) n
        (hdigits ▸ List.mem_append_right _ List.mem_cons_self)

/-- **Host and port are read back.** -/
theorem authority_inj (hh : IsDomain h ∨ IsBracketed h)
    (hh' : IsDomain h' ∨ IsBracketed h')
    (hsame : h ++ (portText p).toList = h' ++ (portText p').toList) :
    h = h' ∧ p = p' := by
  rcases hh with hd | hb
  · rcases hh' with hd' | hb'
    · exact domain_inj hd.2.2.1 hd'.2.2.1 hsame
    · exact absurd hsame (domain_ne_bracketed hd.2.2.1 hb')
  · rcases hh' with hd' | hb'
    · exact absurd hsame.symm (domain_ne_bracketed hd'.2.2.1 hb)
    · exact bracketed_inj hb hb' hsame

/-! ## The comparison -/

variable {parse : Parse} {u e : Url} {htu expected : String}

theorem toList_normalized (u : Url) : u.normalized.toList =
    u.scheme.toList ++ ':' :: ('/' :: '/' :: ((u.host.getD "").toList ++
      (portText u.port).toList ++ u.path.toList)) := by
  unfold Url.normalized
  simp only [String.toList_append, List.append_assoc]
  rfl

/-- **Equal strings, equal parts.** -/
theorem normalized_inj (hparse : Lawful parse) (hu : parse htu = some u)
    (he : parse expected = some e) (hhttp : e.IsHttp)
    (hsame : u.normalized = e.normalized) :
    u.scheme = e.scheme ∧ u.host = e.host ∧ u.port = e.port ∧
      u.path = e.path := by
  rw [← String.toList_inj, toList_normalized, toList_normalized] at hsame
  obtain ⟨hscheme, hrest⟩ := (join_inj (hparse.scheme _ _ hu)
    (hparse.scheme _ _ he)).mp hsame
  have hscheme' : u.scheme = e.scheme := String.toList_inj.mp hscheme
  have hhttp' : u.IsHttp := by
    unfold Url.IsHttp at hhttp ⊢
    rw [hscheme']
    exact hhttp
  obtain ⟨host, hhost, hform⟩ := hparse.host _ _ hu hhttp'
  obtain ⟨host', hhost', hform'⟩ := hparse.host _ _ he hhttp
  obtain ⟨path, hpath⟩ := hparse.path _ _ hu hhttp'
  obtain ⟨path', hpath'⟩ := hparse.path _ _ he hhttp
  have hslash : ∀ {h : List Char} {p : Option Nat},
      IsDomain h ∨ IsBracketed h → '/' ∉ h ++ (portText p).toList := by
    intro h p hh hmem
    rcases List.mem_append.mp hmem with hmem | hmem
    · rcases hh with hd | ⟨a, rfl, -, ha, -⟩
      · exact hd.2.1 hmem
      · simp [ha] at hmem
    · exact slash_not_mem_portText p hmem
  rw [hhost, hhost', hpath, hpath', Option.getD_some, Option.getD_some]
    at hrest
  have hafter := (List.cons.inj (List.cons.inj hrest).2).2
  obtain ⟨hauthority, htail⟩ := (join_inj (hslash hform)
    (hslash hform')).mp hafter
  obtain ⟨hhosts, hport⟩ := authority_inj hform hform' hauthority
  refine ⟨hscheme', ?_, hport, String.toList_inj.mp ?_⟩
  · rw [hhost, hhost', String.toList_inj.mp hhosts]
  · rw [hpath, hpath', htail]

/-- Default ports are left out, so equal effective ports are printed alike. -/
theorem port_eq (hparse : Lawful parse) (hu : parse htu = some u)
    (he : parse expected = some e) (hhttp : e.IsHttp)
    (hscheme : u.scheme = e.scheme)
    (hport : u.effectivePort = e.effectivePort) : u.port = e.port := by
  have hhttp' : u.IsHttp := by
    unfold Url.IsHttp at hhttp ⊢
    rw [hscheme]
    exact hhttp
  have hu' := hparse.port _ _ hu hhttp'
  have he' := hparse.port _ _ he hhttp
  unfold Url.effectivePort at hport
  rw [hscheme] at hu' hport
  cases hp : u.port with
  | none =>
      cases hq : e.port with
      | none => rfl
      | some q =>
          rw [hp, hq] at hport
          exact absurd hport (he' q hq)
  | some p =>
      cases hq : e.port with
      | none =>
          rw [hp, hq] at hport
          exact absurd hport.symm (hu' p hp)
      | some q =>
          rw [hp, hq] at hport
          exact hport

/-- **Equal strings, equal resources**: the comparison of the normal forms
succeeds exactly when the claim is a URL of the expected resource. -/
theorem normalizeHtu_eq_iff (hparse : Lawful parse)
    (he : parse expected = some e) (hhttp : e.IsHttp) :
    normalizeHtu parse htu = normalizeHtu parse expected ↔
      ∃ u, parse htu = some u ∧ SameResource u e := by
  have hexpected : normalizeHtu parse expected = .ok e.normalized := by
    unfold normalizeHtu
    rw [he]
  rw [hexpected]
  unfold normalizeHtu
  cases hu : parse htu with
  | none =>
      constructor
      · intro h
        cases h
      · rintro ⟨u, hsome, -⟩
        cases hsome
  | some u =>
      dsimp only
      constructor
      · intro h
        obtain ⟨hscheme, hhost, hport, hpath⟩ :=
          normalized_inj hparse hu he hhttp (Except.ok.inj h)
        refine ⟨u, rfl, hscheme, hhost, ?_, hpath⟩
        unfold Url.effectivePort
        rw [hport, hscheme]
      · rintro ⟨u', hu', hscheme, hhost, hport, hpath⟩
        obtain rfl := Option.some.inj hu'
        unfold Url.normalized
        rw [hscheme, hhost, hpath, port_eq hparse hu he hhttp hscheme hport]

/-! ## An example -/

/-- A web address at the host `api.example.com`. -/
def apiUrl (username : String) (port : Option Nat) (query : Option String) :
    Url :=
  { scheme := "https"
    username := username
    password := none
    host := some "api.example.com"
    port := port
    path := "/v1"
    query := query
    fragment := none }

/-- An address without a host. -/
def mailUrl : Url :=
  { scheme := "mailto"
    username := ""
    password := none
    host := none
    port := none
    path := "ada@example.com"
    query := none
    fragment := none }

/-- What the parser makes of a few texts. -/
def sampleUrls : List (String × Url) :=
  [("https://api.example.com/v1", apiUrl "" none none),
    ("https://eve@API.example.com:443/v1?x=1", apiUrl "eve" none (some "x=1")),
    ("https://api.example.com:8443/v1", apiUrl "" (some 8443) none),
    ("mailto:ada@example.com", mailUrl)]

def sampleParse : Parse := fun raw => sampleUrls.lookup raw

theorem mem_sampleUrls {raw : String} (h : sampleParse raw = some u) :
    u = mailUrl ∨ ∃ username port query, u = apiUrl username port query ∧
      (port = none ∨ port = some 8443) := by
  have hmem : ∀ {l : List (String × Url)} {r : String} {x : Url},
      l.lookup r = some x → ∃ e ∈ l, e.2 = x := by
    intro l r x hx
    induction l with
    | nil => cases hx
    | cons e l ih =>
        rw [List.lookup_cons] at hx
        split at hx
        · exact ⟨e, List.mem_cons_self, Option.some.inj hx⟩
        · obtain ⟨e', he', hxe⟩ := ih hx
          exact ⟨e', List.mem_cons_of_mem _ he', hxe⟩
  obtain ⟨e, he, rfl⟩ := hmem h
  simp only [sampleUrls, List.mem_cons, List.not_mem_nil, or_false] at he
  rcases he with rfl | rfl | rfl | rfl
  · exact .inr ⟨"", none, none, rfl, .inl rfl⟩
  · exact .inr ⟨"eve", none, some "x=1", rfl, .inl rfl⟩
  · exact .inr ⟨"", some 8443, none, rfl, .inr rfl⟩
  · exact .inl rfl

theorem mailUrl_not_http : ¬ mailUrl.IsHttp := by
  unfold Url.IsHttp
  decide

theorem sampleParse_lawful : Lawful sampleParse where
  scheme raw u h := by
    rcases mem_sampleUrls h with rfl | ⟨username, port, query, rfl, -⟩
    · decide
    · show ':' ∉ "https".toList
      decide
  host raw u h hhttp := by
    rcases mem_sampleUrls h with rfl | ⟨username, port, query, rfl, -⟩
    · exact absurd hhttp mailUrl_not_http
    · refine ⟨"api.example.com", rfl, .inl ?_⟩
      unfold IsDomain
      decide +kernel
  port raw u h hhttp p hp := by
    rcases mem_sampleUrls h with rfl | ⟨username, port, query, rfl, rfl | rfl⟩
    · exact absurd hhttp mailUrl_not_http
    · cases hp
    · obtain rfl := Option.some.inj hp
      show defaultPort "https" ≠ some 8443
      decide
  path raw u h hhttp := by
    rcases mem_sampleUrls h with rfl | ⟨username, port, query, rfl, -⟩
    · exact absurd hhttp mailUrl_not_http
    · refine ⟨['v', '1'], ?_⟩
      show "/v1".toList = _
      decide +kernel

/-- User information, a default port and a query make no difference, another
port does. -/
theorem normalizeHtu_eq_iff_api :
    normalizeHtu sampleParse "https://eve@API.example.com:443/v1?x=1" =
        normalizeHtu sampleParse "https://api.example.com/v1" ∧
      normalizeHtu sampleParse "https://api.example.com:8443/v1" ≠
        normalizeHtu sampleParse "https://api.example.com/v1" := by
  have hexpected : sampleParse "https://api.example.com/v1" =
      some (apiUrl "" none none) := by decide +kernel
  have hhttp : (apiUrl "" none none).IsHttp := .inr rfl
  constructor
  · exact (normalizeHtu_eq_iff sampleParse_lawful hexpected hhttp).mpr
      ⟨apiUrl "eve" none (some "x=1"), by decide +kernel, rfl, rfl, rfl, rfl⟩
  · intro hsame
    obtain ⟨u, hu, -, -, hport, -⟩ :=
      (normalizeHtu_eq_iff sampleParse_lawful hexpected hhttp).mp hsame
    have hother : sampleParse "https://api.example.com:8443/v1" =
        some (apiUrl "" (some 8443) none) := by decide +kernel
    obtain rfl := Option.some.inj (hother.symm.trans hu)
    exact absurd hport (by decide)

end DpopAuth.Ports.Htu
