import Mathlib.Data.List.TakeWhile
import DpopAuth.Verified.PercentEncoding
import DpopAuth.Ports.Config
import DpopAuth.Ports.TwoFactor

/-!
# The refresh cookie

`axum/cookie.rs`: `refresh_token_cookie` writes a `Set-Cookie` line, and
`read_cookie` looks a cookie up in a `Cookie` header.  The writer
percent-encodes the name and the value, and the reader does not decode.

The `cookie` crate is outside of the repository.  Its reserved characters and
the attributes it prints after the pair are a parameter, `CookieCrate`.

## Main results

* `readCookie_header` — what is found among other cookies.
* `read_cookie_iff` — which cookies are read back.
* `padded_value_changes` — one that is not.
-/

namespace DpopAuth.Ports.RefreshCookie

open DpopAuth.Verified.PercentEncoding
open DpopAuth.Ports.Config
open DpopAuth.Ports.TwoFactor

/-! ## Writing -/

/-- `SameSite`. -/
inductive SameSite where
  | strict | lax | none
  deriving DecidableEq, Repr

/-- `CookieConfig`. -/
structure CookieConfig where
  name : String := "__Host-dpop_refresh"
  path : String := "/api/auth"
  secure : Bool := true
  httpOnly : Bool := true
  sameSite : SameSite := .strict
  maxAge : Duration := .ofSecs (30 * 24 * 60 * 60) (by decide)

/-- A `Cookie`, with the attributes that are set here. -/
structure Cookie where
  name : String
  value : String
  path : String
  secure : Bool
  httpOnly : Bool
  sameSite : SameSite
  maxAgeSecs : Int
  deriving DecidableEq, Repr

/-- The `cookie` crate: the ASCII characters `encoded` replaces, and what is
printed after the pair. -/
structure CookieCrate where
  reserved : Char → Bool
  parameters : Cookie → String

/-- `cookie.encoded().to_string()`. -/
def CookieCrate.encoded (crate : CookieCrate) (cookie : Cookie) : String :=
  String.ofList (percentEncode crate.reserved cookie.name.toList ++ '=' ::
    (percentEncode crate.reserved cookie.value.toList ++
      (crate.parameters cookie).toList))

/-- `i64::try_from(secs).unwrap_or(i64::MAX)`. -/
def clampI64 (secs : Nat) : Int :=
  if secs ≤ 9223372036854775807 then secs else 9223372036854775807

/-- `refresh_token_cookie`. -/
def refreshTokenCookie (crate : CookieCrate) (config : CookieConfig)
    (value : String) : String :=
  crate.encoded
    { name := config.name
      value := value
      path := config.path
      secure := config.secure
      httpOnly := config.httpOnly
      sameSite := config.sameSite
      maxAgeSecs := clampI64 config.maxAge.secs }

/-- What the crate promises: the delimiters of a `Cookie` header and white
space are replaced, and an attribute starts with a semicolon. -/
structure CookieCrate.Lawful (crate : CookieCrate) : Prop where
  semicolon : crate.reserved ';' = true
  equals : crate.reserved '=' = true
  space : ∀ c, c.toNat < 128 → isWhitespace c = true → crate.reserved c = true
  parameters : ∀ cookie, ∀ c ∈ (crate.parameters cookie).toList.head?, c = ';'

/-! ## Reading -/

/-- Why a piece of a header is not a cookie. -/
inductive ParseError where
  | missingPair | emptyName
  deriving DecidableEq, Repr

/-- Name and value of a parsed cookie. -/
structure Pair where
  name : String
  value : String
  deriving DecidableEq, Repr

/-- `Cookie::parse`, without attributes: the first `=` ends the name, and both
parts are trimmed. -/
def parsePair (piece : List Char) : Except ParseError Pair :=
  match piece.dropWhile (· != '=') with
  | [] => .error .missingPair
  | _ :: value =>
      let name := trim (String.ofList (piece.takeWhile (· != '=')))
      if name = "" then .error .emptyName
      else .ok ⟨name, trim (String.ofList value)⟩

/-- `Cookie::split_parse`: the pieces between semicolons, blank ones apart. -/
def splitParse (header : String) : List (Except ParseError Pair) :=
  ((header.toList.splitOn ';').filter fun piece =>
    !piece.all isWhitespace).map parsePair

/-- `read_cookie`. -/
def readCookie (cookieHeader name : String) : Option String :=
  (((splitParse cookieHeader).filterMap Except.toOption).find?
    fun c => c.name == name).map Pair.value

/-! ## The browser -/

/-- What a browser keeps of a `Set-Cookie` line: the pair before the first
semicolon. -/
def sentPair (line : String) : List Char := line.toList.takeWhile (· != ';')

/-- A `Cookie` header with a pair among other ones. -/
def headerWith (before : List (List Char)) (pair : List Char)
    (after : List (List Char)) : String :=
  String.ofList ([';', ' '].intercalate (before ++ pair :: after))

/-- A piece of a header that is no cookie with this name. -/
def Other (name : String) (piece : List Char) : Prop :=
  ';' ∉ piece ∧ ∀ c, parsePair piece = .ok c → c.name ≠ name

variable {crate : CookieCrate} {config : CookieConfig} {name v : String}
  {l piece pair : List Char} {before after pieces : List (List Char)}

/-! ## Pieces -/

theorem trim_space (l : List Char) :
    trim (String.ofList (' ' :: l)) = trim (String.ofList l) := by
  unfold trim
  rw [String.toList_ofList, String.toList_ofList,
    List.dropWhile_cons_of_pos (by decide)]

/-- The blank after a semicolon makes no difference. -/
theorem parsePair_space (piece : List Char) :
    parsePair (' ' :: piece) = parsePair piece := by
  unfold parsePair
  rw [List.dropWhile_cons_of_pos (by decide),
    List.takeWhile_cons_of_pos (by decide), trim_space]

theorem parsePair_blank (h : piece.all isWhitespace = true) :
    (parsePair piece).toOption = none := by
  have hnone : piece.dropWhile (· != '=') = [] := by
    rw [List.dropWhile_eq_nil_iff]
    intro c hc
    have hspace := List.all_eq_true.mp h c hc
    rw [bne_iff_ne]
    rintro rfl
    exact absurd hspace (by decide)
  unfold parsePair
  rw [hnone]
  rfl

/-- Joining with a semicolon and a blank puts the blank into the piece. -/
theorem intercalate_blank (p : List Char) (ps : List (List Char)) :
    [';', ' '].intercalate (p :: ps) =
      [';'].intercalate (p :: ps.map (' ' :: ·)) := by
  induction ps generalizing p with
  | nil => rfl
  | cons q ps ih =>
      rw [List.intercalate_cons_cons, ih, List.map_cons,
        List.intercalate_cons_cons]
      cases ps with
      | nil => simp
      | cons r ps => simp [List.intercalate_cons_cons]

/-- **The cookies of a header** are those of its pieces. -/
theorem splitParse_pieces (hne : pieces ≠ [])
    (hsemi : ∀ p ∈ pieces, ';' ∉ p) :
    (splitParse (String.ofList ([';', ' '].intercalate pieces))).filterMap
        Except.toOption =
      pieces.filterMap fun p => (parsePair p).toOption := by
  have hkeep : ∀ ps : List (List Char),
      ((ps.filter fun piece => !piece.all isWhitespace).map
        parsePair).filterMap Except.toOption =
      ps.filterMap fun p => (parsePair p).toOption := by
    intro ps
    induction ps with
    | nil => rfl
    | cons p ps ih =>
        rw [List.filterMap_cons, ← ih, List.filter_cons]
        by_cases hblank : p.all isWhitespace = true
        · rw [hblank, parsePair_blank hblank]
          rfl
        · rw [Bool.not_eq_true] at hblank
          rw [hblank]
          exact List.filterMap_cons ..
  cases pieces with
  | nil => exact absurd rfl hne
  | cons p ps =>
      have hsplit : ([';', ' '].intercalate (p :: ps)).splitOn ';' =
          p :: ps.map (' ' :: ·) := by
        rw [intercalate_blank]
        refine List.splitOn_intercalate ';' (fun q hq => ?_) (by simp)
        rcases List.mem_cons.mp hq with rfl | hq
        · exact hsemi q List.mem_cons_self
        · obtain ⟨r, hr, rfl⟩ := List.mem_map.mp hq
          intro hmem
          rcases List.mem_cons.mp hmem with heq | hmem
          · exact absurd heq (by decide)
          · exact hsemi r (List.mem_cons_of_mem _ hr) hmem
      unfold splitParse
      rw [String.toList_ofList, hsplit, hkeep, List.filterMap_cons,
        List.filterMap_cons, List.filterMap_map]
      have hsame : ((fun p => (parsePair p).toOption) ∘ (' ' :: ·)) =
          fun p => (parsePair p).toOption :=
        funext fun p => congrArg Except.toOption (parsePair_space p)
      rw [hsame]

/-- **What is found among other cookies.** -/
theorem readCookie_header (hpair : ';' ∉ pair)
    (hbefore : ∀ p ∈ before, Other name p)
    (hafter : ∀ p ∈ after, Other name p) :
    readCookie (headerWith before pair after) name =
      ((parsePair pair).toOption.filter fun c => c.name == name).map
        Pair.value := by
  have hother : ∀ ps : List (List Char), (∀ p ∈ ps, Other name p) →
      (ps.filterMap fun p => (parsePair p).toOption).find?
        (fun c => c.name == name) = none := by
    intro ps hps
    rw [List.find?_eq_none]
    intro c hc
    obtain ⟨p, hp, hpc⟩ := List.mem_filterMap.mp hc
    have hok : parsePair p = .ok c := by
      cases hparse : parsePair p with
      | error e => rw [hparse] at hpc; cases hpc
      | ok d => rw [hparse] at hpc; cases hpc; rfl
    rw [beq_iff_eq]
    exact (hps p hp).2 c hok
  unfold readCookie headerWith
  rw [splitParse_pieces (by simp), List.filterMap_append, List.find?_append,
    hother before hbefore, List.filterMap_cons]
  · cases hparse : (parsePair pair).toOption with
    | none =>
        dsimp only
        rw [hother after hafter]
        rfl
    | some c =>
        dsimp only
        rw [List.find?_cons, hother after hafter]
        cases hname : c.name == name with
        | true => simp [Option.filter, hname]
        | false => simp [Option.filter, hname]
  · intro p hp
    rcases List.mem_append.mp hp with hp | hp
    · exact (hbefore p hp).1
    · rcases List.mem_cons.mp hp with rfl | hp
      · exact hpair
      · exact (hafter p hp).1

/-! ## The pair of the refresh cookie -/

/-- The encoding of a text, as it stands in the cookie. -/
def encodedText (crate : CookieCrate) (s : String) : List Char :=
  percentEncode crate.reserved s.toList

theorem not_whitespace_of_encoded (hcrate : crate.Lawful) {c : Char}
    (hc : c ∈ encodedText crate v) : isWhitespace c = false := by
  rcases mem_percentEncode hc with hplain | hrest
  · cases hspace : isWhitespace c with
    | false => rfl
    | true =>
        have hreserved := hcrate.space c hplain.1 hspace
        rw [hplain.2] at hreserved
        cases hreserved
  · have hdigits : c = '%' ∨ (48 ≤ c.toNat ∧ c.toNat ≤ 70) := by
      rcases hrest with hp | hd | hd
      · exact .inl hp
      · omega
      · omega
    rcases hdigits with rfl | hrange
    · decide
    · simp only [isWhitespace, Bool.or_eq_false_iff, Bool.and_eq_false_iff,
        decide_eq_false_iff_not, beq_eq_false_iff_ne, ne_eq]
      omega

theorem trim_encoded (hcrate : crate.Lawful) (v : String) :
    trim (String.ofList (encodedText crate v)) =
      String.ofList (encodedText crate v) := by
  have hkeep : ∀ l : List Char, (∀ c ∈ l, isWhitespace c = false) →
      l.dropWhile isWhitespace = l := by
    intro l hl
    cases l with
    | nil => rfl
    | cons c l =>
        rw [List.dropWhile_cons_of_neg]
        rw [hl c List.mem_cons_self]
        decide
  have hnone : ∀ c ∈ encodedText crate v, isWhitespace c = false :=
    fun c hc => not_whitespace_of_encoded hcrate hc
  unfold trim
  rw [String.toList_ofList, hkeep _ hnone,
    hkeep _ fun c hc => hnone c (List.mem_reverse.mp hc), List.reverse_reverse]

theorem semicolon_not_mem (hcrate : crate.Lawful) :
    ';' ∉ encodedText crate v :=
  not_mem_percentEncode hcrate.semicolon (by decide) (by decide)

theorem equals_not_mem (hcrate : crate.Lawful) : '=' ∉ encodedText crate v :=
  not_mem_percentEncode hcrate.equals (by decide) (by decide)

/-- Up to a delimiter that does not occur before it. -/
theorem takeWhile_to {d : Char} (h : d ∉ l) (r : List Char) :
    (l ++ d :: r).takeWhile (· != d) = l ∧
      (l ++ d :: r).dropWhile (· != d) = d :: r := by
  have hall : ∀ c ∈ l, (c != d) = true := fun c hc =>
    bne_iff_ne.mpr fun hcd => h (hcd ▸ hc)
  constructor
  · rw [List.takeWhile_append_of_pos hall, List.takeWhile_cons_of_neg (by simp),
      List.append_nil]
  · rw [List.dropWhile_append_of_pos hall, List.dropWhile_cons_of_neg (by simp)]

/-- **The pair a browser sends back.** -/
theorem sentPair_eq (hcrate : crate.Lawful) :
    sentPair (refreshTokenCookie crate config v) =
      encodedText crate config.name ++ '=' :: encodedText crate v := by
  have hfree : ∀ c ∈ encodedText crate config.name ++
      '=' :: encodedText crate v, (c != ';') = true := by
    intro c hc
    rw [bne_iff_ne]
    rintro rfl
    rcases List.mem_append.mp hc with hc | hc
    · exact semicolon_not_mem hcrate hc
    · rcases List.mem_cons.mp hc with heq | hc
      · exact absurd heq (by decide)
      · exact semicolon_not_mem hcrate hc
  unfold sentPair refreshTokenCookie CookieCrate.encoded
  rw [String.toList_ofList, ← List.cons_append, ← List.append_assoc]
  show List.takeWhile _ ((encodedText crate config.name ++
    '=' :: encodedText crate v) ++ _) = _
  rw [List.takeWhile_append_of_pos hfree]
  have hstop := hcrate.parameters
    { name := config.name
      value := v
      path := config.path
      secure := config.secure
      httpOnly := config.httpOnly
      sameSite := config.sameSite
      maxAgeSecs := clampI64 config.maxAge.secs }
  generalize (crate.parameters _).toList = attributes at hstop ⊢
  cases attributes with
  | nil => exact List.append_nil _
  | cons c rest =>
      obtain rfl := hstop c rfl
      rw [List.takeWhile_cons_of_neg (by decide), List.append_nil]

theorem parsePair_sent (hcrate : crate.Lawful) :
    parsePair (encodedText crate config.name ++ '=' :: encodedText crate v) =
      if encodedText crate config.name = [] then .error .emptyName
      else .ok ⟨String.ofList (encodedText crate config.name),
        String.ofList (encodedText crate v)⟩ := by
  obtain ⟨htake, hdrop⟩ := takeWhile_to (equals_not_mem hcrate
    (v := config.name)) (encodedText crate v)
  have hempty : String.ofList (encodedText crate config.name) = "" ↔
      encodedText crate config.name = [] := by
    rw [← String.toList_inj, String.toList_ofList]
    rfl
  unfold parsePair
  rw [hdrop, htake, trim_encoded hcrate]
  dsimp only
  rw [trim_encoded hcrate]
  simp only [hempty]

/-- Nothing of the text is replaced. -/
def PlainText (crate : CookieCrate) (s : String) : Prop :=
  ∀ c ∈ s.toList, Plain crate.reserved c

theorem plainText_of_all {s : String}
    (h : s.toList.all (fun c => decide (Plain crate.reserved c)) = true) :
    PlainText crate s := fun c hc =>
  of_decide_eq_true (List.all_eq_true.mp h c hc)

theorem encodedText_eq_iff {s : String} :
    String.ofList (encodedText crate s) = s ↔ PlainText crate s := by
  rw [← String.toList_inj, String.toList_ofList]
  exact percentEncode_eq_self_iff

/-- **Which refresh cookies are read back**: those whose name is not empty and
whose name and value are plain. -/
theorem read_cookie_iff (hcrate : crate.Lawful)
    (hbefore : ∀ p ∈ before, Other config.name p)
    (hafter : ∀ p ∈ after, Other config.name p) :
    readCookie (headerWith before
        (sentPair (refreshTokenCookie crate config v)) after) config.name =
      some v ↔
    config.name ≠ "" ∧ PlainText crate config.name ∧ PlainText crate v := by
  have hempty : encodedText crate config.name = [] ↔ config.name = "" := by
    constructor
    · intro h
      have hlength := length_le_percentEncode crate.reserved
        config.name.toList
      rw [show percentEncode crate.reserved config.name.toList = [] from h]
        at hlength
      rw [← String.toList_inj]
      exact List.length_eq_zero_iff.mp (Nat.le_zero.mp hlength)
    · intro h
      rw [h]
      rfl
  rw [sentPair_eq hcrate, readCookie_header ?_ hbefore hafter,
    parsePair_sent hcrate]
  · by_cases hname : config.name = ""
    · rw [if_pos (hempty.mpr hname)]
      constructor
      · intro h
        cases h
      · rintro ⟨hne, -⟩
        exact absurd hname hne
    · rw [if_neg fun h => hname (hempty.mp h), ← encodedText_eq_iff,
        ← encodedText_eq_iff]
      by_cases hsame : String.ofList (encodedText crate config.name) =
          config.name
      · simp [Except.toOption, Option.filter, hsame, hname]
      · simp [Except.toOption, Option.filter, hsame]
  · intro hmem
    rcases List.mem_append.mp hmem with hc | hc
    · exact semicolon_not_mem hcrate hc
    · rcases List.mem_cons.mp hc with heq | hc
      · exact absurd heq (by decide)
      · exact semicolon_not_mem hcrate hc

/-! ## An example -/

/-- `SameSite` as it is printed. -/
def SameSite.text : SameSite → String
  | .strict => "Strict"
  | .lax => "Lax"
  | .none => "None"

/-- The printing characters that are replaced: quotation marks, angle and
square and round brackets, braces, and the rest of the punctuation that has a
meaning in a header or a URL. -/
def punctuation : List Nat :=
  [34, 35, 37, 40, 41, 44, 47, 58, 59, 60, 61, 62, 63, 64, 91, 92, 93, 94, 96,
    123, 124, 125]

/-- The reserved characters and the attributes of the crate. -/
def cookieCrate : CookieCrate where
  reserved c := c.toNat ≤ 32 || c.toNat == 127 || punctuation.contains c.toNat
  parameters cookie :=
    (if cookie.httpOnly then "; HttpOnly" else "") ++
      ("; SameSite=" ++ cookie.sameSite.text ++
        (if cookie.secure then "; Secure" else "") ++
        "; Path=" ++ cookie.path ++ "; Max-Age=" ++ toString cookie.maxAgeSecs)

theorem cookieCrate_lawful : cookieCrate.Lawful where
  semicolon := by decide
  equals := by decide
  space c hascii hspace := by
    have hlow : c.toNat ≤ 32 := by
      simp only [isWhitespace, Bool.or_eq_true, Bool.and_eq_true,
        decide_eq_true_eq, beq_iff_eq] at hspace
      omega
    show (decide (c.toNat ≤ 32) || _ || _) = true
    rw [decide_eq_true hlow]
    rfl
  parameters cookie c hc := by
    have hhead : (cookieCrate.parameters cookie).toList.head? = some ';' := by
      show (String.toList ((if cookie.httpOnly then "; HttpOnly" else "") ++
        _)).head? = _
      cases cookie.httpOnly
      · simp only [Bool.false_eq_true, if_false, String.toList_append]
        rfl
      · simp only [if_true, String.toList_append]
        rfl
    rw [hhead] at hc
    exact (Option.mem_some_iff.mp hc).symm

/-- **A padded value changes**: the equals signs come back encoded. -/
theorem padded_value_changes :
    readCookie (headerWith [] (sentPair (refreshTokenCookie cookieCrate {}
        "c2VjcmV0LXNlY3JldA==")) []) "__Host-dpop_refresh" =
      some "c2VjcmV0LXNlY3JldA%3D%3D" ∧
    ¬ (readCookie (headerWith [] (sentPair (refreshTokenCookie cookieCrate {}
        "c2VjcmV0LXNlY3JldA==")) []) "__Host-dpop_refresh" =
      some "c2VjcmV0LXNlY3JldA==") := by
  decide +kernel

/-- A refresh secret between two other cookies. -/
theorem read_cookie_iff_secret :
    readCookie (headerWith ["theme=dark".toList]
        (sentPair (refreshTokenCookie cookieCrate {}
          "mZ1YtT0b3Vw7m2k9Xc5Rq8sUeHaLpNfG4jDyKoB6iQ_")) ["lang=en".toList])
        "__Host-dpop_refresh" =
      some "mZ1YtT0b3Vw7m2k9Xc5Rq8sUeHaLpNfG4jDyKoB6iQ_" := by
  have hother : ∀ (s : String) (pair : Pair), ';' ∉ s.toList →
      parsePair s.toList = .ok pair → pair.name ≠ "__Host-dpop_refresh" →
      Other "__Host-dpop_refresh" s.toList := by
    intro s pair hsemi hparse hname
    refine ⟨hsemi, fun c hc => ?_⟩
    obtain rfl := Except.ok.inj (hparse.symm.trans hc)
    exact hname
  have hconfig : ({} : CookieConfig).name = "__Host-dpop_refresh" := rfl
  rw [← hconfig]
  refine (read_cookie_iff cookieCrate_lawful ?_ ?_).mpr ?_
  · intro p hp
    rw [List.mem_singleton.mp hp]
    exact hother _ ⟨"theme", "dark"⟩ (by decide) (by rfl)
      (by decide +kernel)
  · intro p hp
    rw [List.mem_singleton.mp hp]
    exact hother _ ⟨"lang", "en"⟩ (by decide) (by rfl)
      (by decide +kernel)
  · exact ⟨by decide +kernel, plainText_of_all (by decide +kernel),
      plainText_of_all (by decide +kernel)⟩

end DpopAuth.Ports.RefreshCookie
