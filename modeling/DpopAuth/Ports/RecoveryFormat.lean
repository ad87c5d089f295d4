import DpopAuth.Ports.IdentifierHash
import DpopAuth.Ports.RecoverySpelling

/-!
# The format of recovery codes

`crypto/totp.rs` describes recovery codes three times: the generators write
them, `is_recovery_code` recognises them, and `hash_recovery_code` normalises
them before it hashes.  The three agree on one set of texts.

The batch generator asks for `count * 10` bytes in one call, and that product
wraps around in a release build.  A `Vec` holds no more than `isize::MAX` bytes;
more is a panic, of the buffer or of the vector the codes are collected in.

## Main results

* `formatRecoveryCode_inj` — a code tells its bytes.
* `isRecoveryCode_iff` — what is recognised.
* `hash_of_lower` — what is hashed.
* `recovery_codes_agree_iff` — everything, and the counts for which the batch
  is complete.
-/

namespace DpopAuth.Ports.RecoveryFormat

open DpopAuth.Ports.Errors
open DpopAuth.Ports.TwoFactor
open DpopAuth.Ports.RecoverySpelling

variable {ext : TotpExternals} {l : List Char} {v rc : String}

/-! ## Generators -/

/-- `getrandom::fill` on a buffer of a given length. -/
abbrev Fill := Nat → Except String (List Nat)

/-- The whole buffer is filled, with bytes. -/
def Fill.Lawful (fill : Fill) : Prop :=
  ∀ n bytes, fill n = .ok bytes → bytes.length = n ∧ ∀ b ∈ bytes, b < 256

/-- Multiplication of `usize`, which wraps around in a release build. -/
def usizeMul (a b : Nat) : Nat := a * b % 2 ^ 64

/-- `generate_recovery_code`. -/
def generateRecoveryCode (fill : Fill) : Except DpopError String :=
  match fill 10 with
  | .error e => .error (.internal e)
  | .ok bytes => .ok (formatRecoveryCode bytes)

/-- `as_chunks`, without the remainder. -/
def asChunks (n : Nat) (bytes : List Nat) : List (List Nat) :=
  (List.range (bytes.length / n)).map fun k => (bytes.drop (n * k)).take n

/-- `isize::MAX`. -/
def isizeMax : Nat := 2 ^ 63 - 1

/-- The bytes of a `String` itself: its pointer, length and capacity. -/
def stringSize : Nat := 24

/-- `generate_recovery_codes`; `none` where a `Vec` would be larger than it can
be and its allocation panics. -/
def generateRecoveryCodes (fill : Fill) (count : Nat) :
    Option (Except DpopError (List String)) :=
  if isizeMax < usizeMul count 10 then none
  else
    match fill (usizeMul count 10) with
    | .error e => some (.error (.internal e))
    | .ok bytes =>
        let chunks := asChunks 10 bytes
        if isizeMax < chunks.length * stringSize then none
        else some (.ok (chunks.map formatRecoveryCode))

/-- The batch is complete: `count` codes, one for each ten bytes, each of them
the code `generate_recovery_code` makes of these bytes. -/
def Batch (fill : Fill) (count : Nat) (bytes : List Nat) : Prop :=
  ∃ codes, generateRecoveryCodes fill count = some (.ok codes) ∧
    codes.length = count ∧
    ∀ k < count, ∃ chunk, chunk = (bytes.drop (10 * k)).take 10 ∧
      chunk.length = 10 ∧ codes[k]? = some (formatRecoveryCode chunk) ∧
      generateRecoveryCode (fun _ => .ok chunk) =
        .ok (formatRecoveryCode chunk)

/-- A batch is what a confirmation stores. -/
theorem recoveryCodes_eq {count : Nat} {bytes : List Nat}
    (h : bytes.length = count * 10) :
    (asChunks 10 bytes).map formatRecoveryCode = recoveryCodes count bytes := by
  unfold asChunks recoveryCodes
  rw [h, Nat.mul_div_cancel _ (by decide), List.map_map]
  rfl

theorem length_asChunks (n : Nat) (bytes : List Nat) :
    (asChunks n bytes).length = bytes.length / n := by
  rw [asChunks, List.length_map, List.length_range]

/-- What `generate_recovery_codes` returns, if it does. -/
theorem generateRecoveryCodes_eq_ok {fill : Fill} {count : Nat}
    {bytes : List Nat} {codes : List String}
    (hdrawn : fill (usizeMul count 10) = .ok bytes) :
    generateRecoveryCodes fill count = some (.ok codes) ↔
      usizeMul count 10 ≤ isizeMax ∧
        bytes.length / 10 * stringSize ≤ isizeMax ∧
        codes = (asChunks 10 bytes).map formatRecoveryCode := by
  unfold generateRecoveryCodes
  rw [hdrawn]
  dsimp only
  rw [length_asChunks]
  by_cases hbuffer : isizeMax < usizeMul count 10
  · simp [hbuffer, Nat.not_le.mpr hbuffer]
  · by_cases hcodes : isizeMax < bytes.length / 10 * stringSize
    · simp [hbuffer, hcodes, Nat.not_le.mpr hcodes]
    · simp [hbuffer, hcodes, Nat.not_lt.mp hbuffer, Nat.not_lt.mp hcodes,
        eq_comm]

/-- **The batch is complete exactly when it fits**: the buffer and the vector
of the codes are no larger than a `Vec` can be. -/
theorem batch_iff {fill : Fill} {count : Nat} {bytes : List Nat}
    (hfill : fill.Lawful) (hdrawn : fill (usizeMul count 10) = .ok bytes) :
    Batch fill count bytes ↔
      count * 10 ≤ isizeMax ∧ count * stringSize ≤ isizeMax := by
  have hlength : bytes.length = count * 10 % 2 ^ 64 :=
    (hfill _ _ hdrawn).1
  constructor
  · rintro ⟨codes, hok, hcount, -⟩
    obtain ⟨-, hcodes, rfl⟩ := (generateRecoveryCodes_eq_ok hdrawn).mp hok
    rw [List.length_map, length_asChunks] at hcount
    rw [hcount] at hcodes
    unfold stringSize isizeMax at *
    omega
  · rintro ⟨hbuffer, hcodes⟩
    have hfull : bytes.length = count * 10 := by
      unfold isizeMax at hbuffer
      rw [hlength, Nat.mod_eq_of_lt (by omega)]
    have hmany : bytes.length / 10 = count := by
      rw [hfull, Nat.mul_div_cancel _ (by decide)]
    have hasked : usizeMul count 10 ≤ isizeMax :=
      Nat.le_trans (Nat.mod_le _ _) hbuffer
    refine ⟨_, (generateRecoveryCodes_eq_ok hdrawn).mpr
      ⟨hasked, hmany.symm ▸ hcodes, rfl⟩, ?_, fun k hk => ⟨_, rfl, ?_, ?_, rfl⟩⟩
    · rw [List.length_map, length_asChunks, hmany]
    · rw [List.length_take, List.length_drop, hfull]
      omega
    · rw [recoveryCodes_eq hfull, recoveryCodes, List.getElem?_map,
        List.getElem?_range hk]
      rfl

/-! ## Digits -/

/-- A lower-case hexadecimal digit. -/
def IsDigit (c : Char) : Prop :=
  (48 ≤ c.toNat ∧ c.toNat ≤ 57) ∨ (97 ≤ c.toNat ∧ c.toNat ≤ 102)

/-- The value of a lower-case digit. -/
def unhex (c : Char) : Nat :=
  if c.toNat ≤ 57 then c.toNat - 48 else c.toNat - 87

/-- The bytes a text of digits spells. -/
def bytesOf : List Char → List Nat
  | a :: b :: l => (16 * unhex a + unhex b) :: bytesOf l
  | _ => []

theorem unhex_digitChar : ∀ n < 16, unhex (Nat.digitChar n) = n := by decide

theorem isDigit_digitChar : ∀ n < 16,
    (48 ≤ (Nat.digitChar n).toNat ∧ (Nat.digitChar n).toNat ≤ 57) ∨
      (97 ≤ (Nat.digitChar n).toNat ∧ (Nat.digitChar n).toNat ≤ 102) := by
  decide

theorem digitChar_codes : ∀ n < 103,
    (48 ≤ n ∧ n ≤ 57) ∨ (97 ≤ n ∧ n ≤ 102) →
      Nat.digitChar (if n ≤ 57 then n - 48 else n - 87) = Char.ofNat n := by
  decide

theorem IsDigit.unhex_lt {c : Char} (h : IsDigit c) : unhex c < 16 := by
  unfold IsDigit at h
  unfold unhex
  split <;> omega

theorem IsDigit.digitChar_unhex {c : Char} (h : IsDigit c) :
    Nat.digitChar (unhex c) = c := by
  unfold IsDigit at h
  unfold unhex
  rw [digitChar_codes c.toNat (by omega) h, Char.ofNat_toNat]

theorem IsDigit.of_toLower {c : Char} (h : isHexDigit c = true) :
    IsDigit c.toLower := by
  rw [isHexDigit_iff] at h
  unfold IsDigit
  rcases toLower_cases c with ⟨hsame, hnot⟩ | ⟨hup, hlow⟩
  · rw [hsame]
    omega
  · omega

theorem IsDigit.toLower {c : Char} (h : IsDigit c) : c.toLower = c := by
  unfold IsDigit at h
  rcases toLower_cases c with ⟨hsame, -⟩ | ⟨hup, -⟩
  · exact hsame
  · omega

theorem IsDigit.ne_dash {c : Char} (h : IsDigit c) : c ≠ '-' := by
  rintro rfl
  unfold IsDigit at h
  revert h
  decide

theorem bytesOf_hex {bs : List Nat} (h : ∀ b ∈ bs, b < 256) :
    bytesOf (bs.flatMap hexByte) = bs := by
  induction bs with
  | nil => rfl
  | cons b bs ih =>
      have hb : b < 256 := h b List.mem_cons_self
      have hrest := ih fun c hc => h c (List.mem_cons_of_mem _ hc)
      show (16 * unhex (Nat.digitChar (b / 16)) +
        unhex (Nat.digitChar (b % 16))) :: bytesOf (bs.flatMap hexByte) = _
      rw [unhex_digitChar _ (by omega), unhex_digitChar _ (by omega), hrest]
      congr 1
      omega

theorem hex_bytesOf {n : Nat} {ds : List Char} (hlength : ds.length = 2 * n)
    (hdigits : ∀ c ∈ ds, IsDigit c) :
    (bytesOf ds).flatMap hexByte = ds ∧ (bytesOf ds).length = n ∧
      ∀ b ∈ bytesOf ds, b < 256 := by
  induction n generalizing ds with
  | zero =>
      obtain rfl := List.length_eq_zero_iff.mp hlength
      exact ⟨rfl, rfl, fun b hb => by cases hb⟩
  | succ n ih =>
      rcases ds with _ | ⟨x, _ | ⟨y, ds⟩⟩
      · simp only [List.length_nil] at hlength
        omega
      · simp only [List.length_cons, List.length_nil] at hlength
        omega
      · have hx : IsDigit x := hdigits x List.mem_cons_self
        have hy : IsDigit y :=
          hdigits y (List.mem_cons_of_mem _ List.mem_cons_self)
        have hx16 := hx.unhex_lt
        have hy16 := hy.unhex_lt
        have hrest : ds.length = 2 * n := by
          simp only [List.length_cons] at hlength
          omega
        obtain ⟨hhex, hmany, hbytes⟩ := ih hrest fun c hc => hdigits c
          (List.mem_cons_of_mem _ (List.mem_cons_of_mem _ hc))
        refine ⟨?_, ?_, fun b hb => ?_⟩
        · show [Nat.digitChar ((16 * unhex x + unhex y) / 16),
            Nat.digitChar ((16 * unhex x + unhex y) % 16)] ++
              (bytesOf ds).flatMap hexByte = _
          rw [hhex, show (16 * unhex x + unhex y) / 16 = unhex x by omega,
            show (16 * unhex x + unhex y) % 16 = unhex y by omega,
            hx.digitChar_unhex, hy.digitChar_unhex]
          rfl
        · show (bytesOf ds).length + 1 = n + 1
          rw [hmany]
        · rcases List.mem_cons.mp hb with rfl | hb
          · omega
          · exact hbytes b hb

/-! ## Groups -/

/-- Four groups, joined by dashes. -/
def joined (a b c d : List Char) : List Char :=
  a ++ '-' :: (b ++ '-' :: (c ++ '-' :: d))

/-- Twenty digits in four groups of five. -/
def grouped (ds : List Char) : List Char :=
  ds.take 5 ++ '-' :: (ds.drop 5).take 5 ++ '-' :: (ds.drop 10).take 5 ++
    '-' :: (ds.drop 15).take 5

theorem toList_formatRecoveryCode (bs : List Nat) :
    (formatRecoveryCode bs).toList = grouped (bs.flatMap hexByte) := by
  unfold formatRecoveryCode
  rw [String.toList_ofList]
  rfl

theorem grouped_append {a b c d : List Char} (ha : a.length = 5)
    (hb : b.length = 5) (hc : c.length = 5) (hd : d.length = 5) :
    grouped (a ++ (b ++ (c ++ d))) = joined a b c d := by
  simp [grouped, joined, List.drop_append, ha, hb, hc, hd,
    List.take_of_length_le, List.drop_of_length_le]

theorem exists_parts {ds : List Char} (h : ds.length = 20) :
    ∃ a b c d : List Char, ds = a ++ (b ++ (c ++ d)) ∧ a.length = 5 ∧
      b.length = 5 ∧ c.length = 5 ∧ d.length = 5 := by
  refine ⟨ds.take 5, (ds.drop 5).take 5, (ds.drop 10).take 5, ds.drop 15,
    ?_, ?_, ?_, ?_, ?_⟩
  · have hlast : ds.drop 15 = (ds.drop 10).drop 5 := by
      rw [List.drop_drop]
    have hmid : ds.drop 10 = (ds.drop 5).drop 5 := by
      rw [List.drop_drop]
    rw [hlast, List.take_append_drop, hmid, List.take_append_drop,
      List.take_append_drop]
  all_goals
    simp only [List.length_take, List.length_drop, h]
    try omega

/-- The dashes taken out, the digits are left. -/
theorem filter_grouped {ds : List Char} (h : ds.length = 20)
    (hdigits : ∀ c ∈ ds, IsDigit c) :
    (grouped ds).filter (· != '-') = ds := by
  obtain ⟨a, b, c, d, rfl, ha, hb, hc, hd⟩ := exists_parts h
  have hkeep : ∀ {g : List Char}, (∀ x ∈ g, IsDigit x) →
      g.filter (· != '-') = g := fun hg =>
    List.filter_eq_self.mpr fun x hx => bne_iff_ne.mpr (hg x hx).ne_dash
  simp only [List.mem_append] at hdigits
  rw [grouped_append ha hb hc hd, joined]
  simp only [List.filter_append, List.filter_cons, bne_self_eq_false,
    Bool.false_eq_true, if_false]
  rw [hkeep fun x hx => hdigits x (.inl hx),
    hkeep fun x hx => hdigits x (.inr (.inl hx)),
    hkeep fun x hx => hdigits x (.inr (.inr (.inl hx))),
    hkeep fun x hx => hdigits x (.inr (.inr (.inr hx)))]

/-- **The form of a code**: four groups of five hexadecimal digits. -/
theorem exists_groups (hfour : (l.splitOn '-').length = 4)
    (hgroups : (l.splitOn '-').all isGroup = true) :
    ∃ a b c d : List Char, l = joined a b c d ∧ isGroup a = true ∧
      isGroup b = true ∧ isGroup c = true ∧ isGroup d = true := by
  have hjoin : ['-'].intercalate (l.splitOn '-') = l :=
    List.intercalate_splitOn '-'
  rcases hsplit : l.splitOn '-' with _ | ⟨a, _ | ⟨b, _ | ⟨c, _ | ⟨d, rest⟩⟩⟩⟩
  all_goals rw [hsplit] at hfour hgroups hjoin
  all_goals simp only [List.length_cons, List.length_nil] at hfour
  all_goals try omega
  obtain rfl : rest = [] := List.length_eq_zero_iff.mp (by omega)
  simp only [List.all_cons, List.all_nil, Bool.and_eq_true, and_true]
    at hgroups
  refine ⟨a, b, c, d, ?_, hgroups⟩
  rw [← hjoin]
  simp [List.intercalate_cons_cons, joined]

/-! ## Recognition -/

/-- Ten bytes. -/
def IsBytes (b : List Nat) : Prop := b.length = 10 ∧ ∀ x ∈ b, x < 256

/-- A code is recognised by its form alone: the test of its length in bytes
follows. -/
theorem isRecoveryCode_iff_hasForm :
    isRecoveryCode v = true ↔ hasForm (trim v).toList = true := by
  have hascii : ((trim v).toList.splitOn '-').length = 4 →
      ((trim v).toList.splitOn '-').all isGroup = true →
      (trim v).toList.length = 23 ∧ (trim v).utf8ByteSize = 23 := by
    intro hfour hall
    obtain ⟨a, b, c, d, hl, ha, hb, hc, hd⟩ := exists_groups hfour hall
    rw [isGroup_iff] at ha hb hc hd
    have hmany : (trim v).toList.length = 23 := by
      rw [hl]
      simp only [joined, List.length_append, List.length_cons]
      omega
    refine ⟨hmany, ?_⟩
    have hin : ∀ x ∈ (trim v).toList, InCode x := by
      intro x hx
      rw [hl] at hx
      simp only [joined, List.mem_append, List.mem_cons] at hx
      rcases hx with hx | rfl | hx | rfl | hx | rfl | hx
      · exact .inl (ha.2 x hx)
      · exact .inr rfl
      · exact .inl (hb.2 x hx)
      · exact .inr rfl
      · exact .inl (hc.2 x hx)
      · exact .inr rfl
      · exact .inl (hd.2 x hx)
    have hsize := utf8ByteSize_ascii fun x hx => (hin x hx).lt
    rw [String.ofList_toList] at hsize
    rw [hsize, hmany]
  unfold isRecoveryCode hasForm
  simp only [Bool.and_eq_true, beq_iff_eq]
  constructor
  · rintro ⟨-, hfour, hall⟩
    exact ⟨⟨(hascii hfour hall).1, hfour⟩, hall⟩
  · rintro ⟨⟨-, hfour⟩, hall⟩
    exact ⟨(hascii hfour hall).2, hfour, hall⟩

theorem isDigit_of_mem_hex {b : List Nat} (h : ∀ x ∈ b, x < 256) :
    ∀ c ∈ b.flatMap hexByte, IsDigit c := by
  intro c hc
  obtain ⟨x, hx, hcx⟩ := List.mem_flatMap.mp hc
  have hlt : x < 256 := h x hx
  simp only [hexByte, List.mem_cons, List.not_mem_nil, or_false] at hcx
  rcases hcx with rfl | rfl
  · exact isDigit_digitChar _ (by omega)
  · exact isDigit_digitChar _ (by omega)

/-- A code spells digits in groups. -/
theorem isCode_iff : IsCode rc ↔
    ∃ ds : List Char, ds.length = 20 ∧ (∀ c ∈ ds, IsDigit c) ∧
      rc.toList = grouped ds := by
  constructor
  · rintro ⟨bs, hten, hbytes, rfl⟩
    refine ⟨bs.flatMap hexByte, ?_, isDigit_of_mem_hex hbytes,
      toList_formatRecoveryCode bs⟩
    rw [(hex_digits hbytes).1, hten]
  · rintro ⟨ds, htwenty, hdigits, hrc⟩
    obtain ⟨hhex, hten, hbytes⟩ := hex_bytesOf (n := 10) htwenty hdigits
    refine ⟨bytesOf ds, hten, hbytes, String.toList_inj.mp ?_⟩
    rw [toList_formatRecoveryCode, hhex, hrc]

/-- **A code tells its bytes.** -/
theorem formatRecoveryCode_inj {b b' : List Nat} (hb : IsBytes b)
    (hb' : IsBytes b') :
    formatRecoveryCode b = formatRecoveryCode b' ↔ b = b' := by
  constructor
  · intro h
    have hread : ∀ {x : List Nat}, IsBytes x →
        bytesOf ((formatRecoveryCode x).toList.filter (· != '-')) = x := by
      intro x hx
      have htwenty : (x.flatMap hexByte).length = 20 := by
        rw [(hex_digits hx.2).1, hx.1]
      rw [toList_formatRecoveryCode, filter_grouped htwenty
        (isDigit_of_mem_hex hx.2), bytesOf_hex hx.2]
    rw [← hread hb, h, hread hb']
  · intro h
    rw [h]

/-! ## Lower case -/

/-- `str::to_lowercase`: letters of ASCII go to their lower case, and of all
other characters only the Kelvin sign becomes an ASCII character, a `k`. -/
structure LowersUnicode (ext : TotpExternals) : Prop where
  ascii : LowersAscii ext
  foreign : ∀ s c, c ∈ s.toList → 128 ≤ c.toNat →
    ∃ d ∈ (ext.toLowercase s).toList, 128 ≤ d.toNat ∨ d = 'k'

theorem isCode_format {b : List Nat} (h : IsBytes b) :
    IsCode (formatRecoveryCode b) := ⟨b, h.1, h.2, rfl⟩

/-- Nothing but ASCII becomes a code. -/
theorem LowersUnicode.ascii_of_isCode (hlower : LowersUnicode ext) {s : String}
    (h : IsCode (ext.toLowercase s)) : ∀ c ∈ s.toList, c.toNat < 128 := by
  intro c hc
  rcases Nat.lt_or_ge c.toNat 128 with hlt | hge
  · exact hlt
  · exfalso
    obtain ⟨d, hd, hforeign⟩ := hlower.foreign s c hc hge
    have hin : InCode d := h.inCode d hd
    rcases hforeign with hlarge | rfl
    · have hsmall := hin.lt
      omega
    · rcases hin with hhex | hdash
      · exact absurd hhex (by decide)
      · exact absurd hdash (by decide)

theorem map_toLower_grouped {ds : List Char} (h : ∀ c ∈ ds, IsDigit c) :
    (grouped ds).map Char.toLower = grouped ds := by
  have hpart : ∀ k, ((ds.drop k).take 5).map Char.toLower =
      (ds.drop k).take 5 := by
    intro k
    exact (List.map_congr_left fun c hc => (h c (List.mem_of_mem_drop
      (List.mem_of_mem_take hc))).toLower).trans (List.map_id _)
  have hfirst := hpart 0
  rw [List.drop_zero] at hfirst
  unfold grouped
  simp only [List.map_append, List.map_cons, hpart, hfirst]
  rfl

/-- **Lower case leaves a code alone**, and there is nothing to trim. -/
theorem lower_trim_code (hlower : LowersUnicode ext) (h : IsCode rc) :
    ext.toLowercase (trim rc) = rc := by
  obtain ⟨mid, htrim, hin, hmid⟩ := h.trim_eq (.refl rc)
  obtain ⟨ds, -, hdigits, hrc⟩ := isCode_iff.mp h
  rw [htrim, hlower.ascii _ fun c hc => ?_, String.toList_ofList, hmid, hrc,
    map_toLower_grouped hdigits, ← hrc, String.ofList_toList]
  rw [String.toList_ofList] at hc
  exact (hin c hc).lt

/-- **What is recognised** is what becomes a code in lower case. -/
theorem isRecoveryCode_iff (hlower : LowersUnicode ext) :
    isRecoveryCode v = true ↔ IsCode (ext.toLowercase (trim v)) := by
  rw [isRecoveryCode_iff_hasForm]
  constructor
  · intro hform
    unfold hasForm at hform
    simp only [Bool.and_eq_true, beq_iff_eq] at hform
    obtain ⟨a, b, c, d, hl, ha, hb, hc, hd⟩ :=
      exists_groups hform.1.2 hform.2
    rw [isGroup_iff] at ha hb hc hd
    have hhex : ∀ x ∈ a ++ (b ++ (c ++ d)), isHexDigit x = true := by
      intro x hx
      simp only [List.mem_append] at hx
      rcases hx with hx | hx | hx | hx
      · exact ha.2 x hx
      · exact hb.2 x hx
      · exact hc.2 x hx
      · exact hd.2 x hx
    have hascii : ∀ x ∈ (trim v).toList, x.toNat < 128 := by
      intro x hx
      rw [hl] at hx
      have hmem : x ∈ a ++ (b ++ (c ++ d)) ∨ x = '-' := by
        simp only [joined, List.mem_append, List.mem_cons] at hx ⊢
        grind
      rcases hmem with hmem | rfl
      · exact InCode.lt (.inl (hhex x hmem))
      · decide
    refine isCode_iff.mpr ⟨(a ++ (b ++ (c ++ d))).map Char.toLower, ?_,
      fun x hx => ?_, ?_⟩
    · simp only [List.length_map, List.length_append]
      omega
    · obtain ⟨y, hy, rfl⟩ := List.mem_map.mp hx
      exact .of_toLower (hhex y hy)
    · rw [hlower.ascii _ hascii, String.toList_ofList, hl]
      simp only [List.map_append]
      rw [grouped_append (by rw [List.length_map]; exact ha.1)
        (by rw [List.length_map]; exact hb.1)
        (by rw [List.length_map]; exact hc.1)
        (by rw [List.length_map]; exact hd.1)]
      simp only [joined, List.map_append, List.map_cons]
      rfl
  · intro hcode
    have hlist := hlower.ascii _ (hlower.ascii_of_isCode hcode)
    have hsame : (trim v).toList.map Char.toLower =
        (ext.toLowercase (trim v)).toList.map Char.toLower := by
      obtain ⟨ds, -, hdigits, hrc⟩ := isCode_iff.mp hcode
      rw [hrc, map_toLower_grouped hdigits, ← hrc, hlist, String.toList_ofList]
    rw [hasForm_congr hsame]
    exact hcode.hasForm

/-- **What is hashed**: every accepted spelling has the hash of its code. -/
theorem hash_of_lower (hlower : LowersUnicode ext) {b : List Nat}
    (hb : IsBytes b) (h : ext.toLowercase (trim v) = formatRecoveryCode b) :
    hashRecoveryCode ext v = hashRecoveryCode ext (formatRecoveryCode b) := by
  unfold hashRecoveryCode
  rw [h, lower_trim_code hlower (isCode_format hb)]

/-! ## Agreement -/

/-- **The recogniser and the hash agree with the generator.** -/
structure Agree (ext : TotpExternals) : Prop where
  /-- A code tells its bytes. -/
  injective : ∀ b b', IsBytes b → IsBytes b' →
    formatRecoveryCode b = formatRecoveryCode b' → b = b'
  /-- What is recognised. -/
  recognised : ∀ v, isRecoveryCode v = true ↔
    ∃ b, IsBytes b ∧ ext.toLowercase (trim v) = formatRecoveryCode b
  /-- What is hashed, and that no other code has this hash. -/
  hashed : ∀ v b, IsBytes b →
    ext.toLowercase (trim v) = formatRecoveryCode b →
    hashRecoveryCode ext v = hashRecoveryCode ext (formatRecoveryCode b) ∧
    ∀ b', IsBytes b' →
      hashRecoveryCode ext v = hashRecoveryCode ext (formatRecoveryCode b') →
      b' = b

theorem agree (hlower : LowersUnicode ext)
    (hsha : Function.Injective ext.sha256Hex) : Agree ext where
  injective b b' hb hb' h := (formatRecoveryCode_inj hb hb').mp h
  recognised v := by
    rw [isRecoveryCode_iff hlower]
    constructor
    · rintro ⟨b, hten, hbytes, h⟩
      exact ⟨b, ⟨hten, hbytes⟩, h⟩
    · rintro ⟨b, hb, h⟩
      exact h ▸ isCode_format hb
  hashed v b hb h := by
    refine ⟨hash_of_lower hlower hb h, fun b' hb' hsame => ?_⟩
    unfold hashRecoveryCode at hsame
    have hcodes := hsha hsame
    rw [h, lower_trim_code hlower (isCode_format hb')] at hcodes
    exact ((formatRecoveryCode_inj hb hb').mp hcodes).symm

/-- **Everything agrees exactly when the batch fits**: neither the `count * 10`
bytes drawn nor the `count` strings are more than a `Vec` can hold. -/
theorem recovery_codes_agree_iff {fill : Fill} {count : Nat} {bytes : List Nat}
    (hfill : fill.Lawful) (hlower : LowersUnicode ext)
    (hsha : Function.Injective ext.sha256Hex)
    (hdrawn : fill (usizeMul count 10) = .ok bytes) :
    Batch fill count bytes ∧ Agree ext ↔
      count * 10 ≤ isizeMax ∧ count * stringSize ≤ isizeMax := by
  rw [batch_iff hfill hdrawn]
  exact and_iff_left (agree hlower hsha)

/-! ## An example -/

/-- Bytes that count up from zero. -/
def countingFill : Fill := fun n => .ok ((List.range n).map (· % 256))

theorem countingFill_lawful : countingFill.Lawful := by
  intro n bytes h
  obtain rfl := Except.ok.inj h
  refine ⟨by rw [List.length_map, List.length_range], fun b hb => ?_⟩
  obtain ⟨k, -, rfl⟩ := List.mem_map.mp hb
  exact Nat.mod_lt _ (by decide)

/-- **An empty batch of 2⁶³ codes**: the product wraps around to zero. -/
theorem wrapped_batch_is_empty :
    generateRecoveryCodes countingFill (2 ^ 63) = some (.ok []) ∧
      ¬ Batch countingFill (2 ^ 63) [] := by
  have hempty : generateRecoveryCodes countingFill (2 ^ 63) = some (.ok []) := by
    decide +kernel
  refine ⟨hempty, ?_⟩
  rintro ⟨codes, hok, hcount, -⟩
  obtain rfl := Except.ok.inj (Option.some.inj (hempty.symm.trans hok))
  exact absurd hcount (by decide)

/-- The hashes of the first two codes of a counting batch. -/
def codeExternals : TotpExternals :=
  { sampleExternals with
    sha256Hex := IdentifierHash.tableDigest
      [("00010-20304-05060-70809",
          "d4b0b5a81a505472a5dc23018fd33211b8e983c8437793f2129b3ffb124e6b03"),
        ("0a0b0-c0d0e-0f101-11213",
          "38a83f30361a04c035126fdbc05ab16ae07b4972d679b0dfa3b2b97811cbe235")] }

theorem codeExternals_lowers : LowersUnicode codeExternals where
  ascii _ _ := rfl
  foreign s c hc hlarge := by
    refine ⟨c, ?_, .inl hlarge⟩
    show c ∈ (String.ofList (s.toList.map Char.toLower)).toList
    rw [String.toList_ofList]
    refine List.mem_map.mpr ⟨c, hc, ?_⟩
    rcases toLower_cases c with ⟨hsame, -⟩ | ⟨hup, -⟩
    · exact hsame
    · omega

theorem codeExternals_injective : Function.Injective codeExternals.sha256Hex :=
  IdentifierHash.tableDigest_injective (by decide +kernel) (by decide +kernel)

/-- Two codes, one of them typed in capitals with a blank after it. -/
theorem recovery_codes_agree_iff_two :
    (Batch countingFill 2 ((List.range 20).map (· % 256)) ∧
      Agree codeExternals) ∧
    generateRecoveryCodes countingFill 2 =
      some (.ok ["00010-20304-05060-70809", "0a0b0-c0d0e-0f101-11213"]) ∧
    hashRecoveryCode codeExternals "0A0B0-C0D0E-0F101-11213 " =
      "38a83f30361a04c035126fdbc05ab16ae07b4972d679b0dfa3b2b97811cbe235" := by
  refine ⟨?_, by decide +kernel, by decide +kernel⟩
  exact (recovery_codes_agree_iff countingFill_lawful codeExternals_lowers
    codeExternals_injective rfl).mpr (by decide)

end DpopAuth.Ports.RecoveryFormat
