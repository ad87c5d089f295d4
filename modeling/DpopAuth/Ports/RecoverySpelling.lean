import DpopAuth.Ports.TwoFactor

/-!
# Spellings of a recovery code

A recovery code is four groups of five lower-case hexadecimal digits.  Written
in any letter case, and with white space around it, it still has the form of a
recovery code, and its hash is the same: `trim` takes the white space away, and
the hash is taken of the lower-case code.

## Main results

* `splitOn_map` — the groups do not depend on the letter case.
* `IsCode.trim_eq` — what `trim` leaves of a spelling.
* `IsCode.isRecoveryCode`, `IsCode.hash_eq` — every spelling.
-/

namespace DpopAuth.Ports.RecoverySpelling

open DpopAuth.Ports.TwoFactor

variable {ext : TotpExternals} {rc s : String} {l mid : List Char}

/-! ## Characters -/

theorem toLower_cases (c : Char) :
    (c.toLower = c ∧ ¬ (65 ≤ c.toNat ∧ c.toNat ≤ 90)) ∨
    ((65 ≤ c.toNat ∧ c.toNat ≤ 90) ∧ c.toLower.toNat = c.toNat + 32) := by
  unfold Char.toLower
  by_cases h : c.val ≥ 'A'.val ∧ c.val ≤ 'Z'.val
  · have hlo : 65 ≤ c.toNat := UInt32.le_iff_toNat_le.mp h.1
    have hhi : c.val.toNat ≤ 90 := UInt32.le_iff_toNat_le.mp h.2
    have hdist : ('a'.val - 'A'.val).toNat = 32 := by decide
    refine .inr ⟨⟨hlo, hhi⟩, ?_⟩
    rw [dif_pos h]
    show (c.val + ('a'.val - 'A'.val)).toNat = c.val.toNat + 32
    rw [UInt32.toNat_add, hdist]
    omega
  · refine .inl ⟨?_, fun hr => h ⟨UInt32.le_iff_toNat_le.mpr hr.1,
      UInt32.le_iff_toNat_le.mpr hr.2⟩⟩
    rw [dif_neg h]

theorem isHexDigit_iff (c : Char) : isHexDigit c = true ↔
    (48 ≤ c.toNat ∧ c.toNat ≤ 57) ∨ (97 ≤ c.toNat ∧ c.toNat ≤ 102) ∨
      (65 ≤ c.toNat ∧ c.toNat ≤ 70) := by
  simp only [isHexDigit, Bool.or_eq_true, Bool.and_eq_true, decide_eq_true_eq,
    Char.le_def, UInt32.le_iff_toNat_le]
  exact or_assoc

theorem isHexDigit_toLower (c : Char) :
    isHexDigit c.toLower = isHexDigit c := by
  rw [Bool.eq_iff_iff, isHexDigit_iff, isHexDigit_iff]
  rcases toLower_cases c with ⟨h, -⟩ | ⟨hr, h⟩
  · rw [h]
  · omega

theorem toLower_dash (c : Char) : c.toLower = '-' ↔ c = '-' := by
  have hdash : '-'.toNat = 45 := rfl
  constructor
  · intro h
    rcases toLower_cases c with ⟨hsame, -⟩ | ⟨hr, hlow⟩
    · exact hsame.symm.trans h
    · rw [h, hdash] at hlow
      omega
  · rintro rfl
    rfl

/-- A character of a recovery code, in any letter case. -/
def InCode (c : Char) : Prop := isHexDigit c = true ∨ c = '-'

theorem inCode_toLower (c : Char) : InCode c.toLower ↔ InCode c := by
  unfold InCode
  rw [isHexDigit_toLower, toLower_dash]

theorem InCode.lt {c : Char} (h : InCode c) : c.toNat < 128 := by
  rcases h with h | rfl
  · rw [isHexDigit_iff] at h
    omega
  · decide

theorem InCode.not_whitespace {c : Char} (h : InCode c) :
    isWhitespace c = false := by
  rcases h with h | rfl
  · rw [isHexDigit_iff] at h
    simp only [isWhitespace, Bool.or_eq_false_iff, Bool.and_eq_false_iff,
      decide_eq_false_iff_not, beq_eq_false_iff_ne, ne_eq]
    omega
  · rfl

theorem utf8ByteSize_ascii (h : ∀ c ∈ l, c.toNat < 128) :
    (String.ofList l).utf8ByteSize = l.length := by
  induction l with
  | nil => rfl
  | cons c l ih =>
      have hc : c.toNat < 128 := h c List.mem_cons_self
      have hone : c.utf8Size = 1 := by
        unfold Char.utf8Size
        rw [if_pos]
        exact UInt32.le_iff_toNat_le.mpr (Nat.le_of_lt_succ hc)
      rw [String.ofList_cons, String.utf8ByteSize_append,
        String.utf8ByteSize_singleton, hone,
        ih fun d hd => h d (List.mem_cons_of_mem _ hd), List.length_cons]
      omega

/-! ## Groups -/

/-- Splitting does not see a change of letters that leaves the separator
alone. -/
theorem splitOn_map {f : Char → Char} {x : Char} (hf : ∀ c, f c = x ↔ c = x)
    (l : List Char) :
    (l.map f).splitOn x = (l.splitOn x).map (List.map f) := by
  have hsep : ∀ c, (f c == x) = (c == x) := fun c => by
    rw [Bool.eq_iff_iff, beq_iff_eq, beq_iff_eq]
    exact hf c
  unfold List.splitOn
  induction l with
  | nil => rfl
  | cons c l ih =>
      rw [List.map_cons, List.splitOnP_cons_eq_if_modifyHead,
        List.splitOnP_cons_eq_if_modifyHead, hsep, ih]
      split
      · rfl
      · cases List.splitOnP (· == x) l <;> rfl

/-- A group of five hexadecimal digits. -/
def isGroup (g : List Char) : Bool :=
  (String.ofList g).utf8ByteSize == 5 && g.all isHexDigit

theorem isGroup_iff {g : List Char} :
    isGroup g = true ↔ g.length = 5 ∧ ∀ c ∈ g, isHexDigit c = true := by
  unfold isGroup
  rw [Bool.and_eq_true, beq_iff_eq, List.all_eq_true]
  refine ⟨fun h => ⟨?_, h.2⟩, fun h => ⟨?_, h.2⟩⟩
  · rw [← utf8ByteSize_ascii fun c hc => InCode.lt (.inl (h.2 c hc))]
    exact h.1
  · rw [utf8ByteSize_ascii fun c hc => InCode.lt (.inl (h.2 c hc))]
    exact h.1

theorem isGroup_map (g : List Char) :
    isGroup (g.map Char.toLower) = isGroup g := by
  rw [Bool.eq_iff_iff, isGroup_iff, isGroup_iff, List.length_map]
  simp only [List.mem_map, forall_exists_index, and_imp,
    forall_apply_eq_imp_iff₂, isHexDigit_toLower]

/-- The form of a recovery code, after `trim`. -/
def hasForm (l : List Char) : Bool :=
  l.length == 23 && (l.splitOn '-').length == 4 && (l.splitOn '-').all isGroup

/-- **The form does not depend on the letter case.** -/
theorem hasForm_congr (h : mid.map Char.toLower = l.map Char.toLower) :
    hasForm mid = hasForm l := by
  have hform : ∀ x : List Char, hasForm (x.map Char.toLower) = hasForm x := by
    intro x
    have hgroups : isGroup ∘ List.map Char.toLower = isGroup :=
      funext isGroup_map
    unfold hasForm
    rw [splitOn_map toLower_dash, List.length_map, List.length_map,
      List.all_map, hgroups]
  rw [← hform mid, h, hform]

/-! ## Codes -/

/-- A recovery code, as `generate_recovery_codes` makes them. -/
def IsCode (rc : String) : Prop :=
  ∃ chunk : List Nat, chunk.length = 10 ∧ (∀ b ∈ chunk, b < 256) ∧
    rc = formatRecoveryCode chunk

theorem isCode_of_mem {bs : List Nat} (hlength : bs.length = 100)
    (hbytes : ∀ b ∈ bs, b < 256) (h : rc ∈ recoveryCodes 10 bs) : IsCode rc := by
  obtain ⟨k, hk, rfl⟩ := List.mem_map.mp h
  have hlt : k < 10 := List.mem_range.mp hk
  refine ⟨_, ?_, fun b hb => hbytes b ?_, rfl⟩
  · rw [List.length_take, List.length_drop]
    omega
  · exact List.mem_of_mem_drop (List.mem_of_mem_take hb)

theorem digitChar_hex : ∀ n < 16, isHexDigit (Nat.digitChar n) = true := by
  decide

theorem hex_digits {chunk : List Nat} (h : ∀ b ∈ chunk, b < 256) :
    (chunk.flatMap hexByte).length = 2 * chunk.length ∧
      ∀ c ∈ chunk.flatMap hexByte, isHexDigit c = true := by
  induction chunk with
  | nil => exact ⟨rfl, fun c hc => by cases hc⟩
  | cons b chunk ih =>
      obtain ⟨hlength, hhex⟩ := ih fun d hd => h d (List.mem_cons_of_mem _ hd)
      have hb : b < 256 := h b List.mem_cons_self
      rw [List.flatMap_cons]
      refine ⟨?_, fun c hc => ?_⟩
      · rw [List.length_append, hlength]
        simp only [hexByte, List.length_cons, List.length_nil]
        omega
      · rcases List.mem_append.mp hc with hnew | hold
        · simp only [hexByte, List.mem_cons, List.not_mem_nil, or_false] at hnew
          rcases hnew with rfl | rfl
          · exact digitChar_hex _ (by omega)
          · exact digitChar_hex _ (by omega)
        · exact hhex c hold

/-- A code is four groups with dashes between them. -/
theorem IsCode.groups (h : IsCode rc) : ∃ gs : List (List Char),
    rc.toList = ['-'].intercalate gs ∧ gs.length = 4 ∧
      ∀ g ∈ gs, isGroup g = true := by
  obtain ⟨chunk, hlength, hbytes, rfl⟩ := h
  obtain ⟨htwenty, hhex⟩ := hex_digits hbytes
  rw [hlength] at htwenty
  refine ⟨[(chunk.flatMap hexByte).take 5,
    ((chunk.flatMap hexByte).drop 5).take 5,
    ((chunk.flatMap hexByte).drop 10).take 5,
    ((chunk.flatMap hexByte).drop 15).take 5], ?_, rfl, fun g hg => ?_⟩
  · simp [formatRecoveryCode, List.intercalate_cons_cons]
  · have hpart : ∀ k, k ≤ 15 →
        isGroup (((chunk.flatMap hexByte).drop k).take 5) = true := by
      intro k hk
      refine isGroup_iff.mpr ⟨?_, fun c hc => hhex c ?_⟩
      · rw [List.length_take, List.length_drop, htwenty]
        omega
      · exact List.mem_of_mem_drop (List.mem_of_mem_take hc)
    simp only [List.mem_cons, List.not_mem_nil, or_false] at hg
    rcases hg with rfl | rfl | rfl | rfl
    · exact hpart 0 (by omega)
    · exact hpart 5 (by omega)
    · exact hpart 10 (by omega)
    · exact hpart 15 (by omega)

theorem IsCode.hasForm (h : IsCode rc) : hasForm rc.toList = true := by
  obtain ⟨gs, hrc, hfour, hgroups⟩ := h.groups
  have hsplit : rc.toList.splitOn '-' = gs := by
    rw [hrc]
    refine List.splitOn_intercalate '-' (fun g hg hin => ?_) ?_
    · have hhex := (isGroup_iff.mp (hgroups g hg)).2 '-' hin
      exact absurd hhex (by decide)
    · intro hnil
      rw [hnil] at hfour
      cases hfour
  have hlength : rc.toList.length = 23 := by
    obtain ⟨chunk, hten, hbytes, rfl⟩ := h
    have htwenty := (hex_digits hbytes).1
    rw [hten] at htwenty
    simp only [formatRecoveryCode, String.toList_ofList, List.length_append,
      List.length_cons, List.length_take, List.length_drop, htwenty]
    omega
  unfold RecoverySpelling.hasForm
  rw [hsplit, hlength, hfour]
  simpa using hgroups

theorem IsCode.inCode (h : IsCode rc) : ∀ c ∈ rc.toList, InCode c := by
  obtain ⟨chunk, -, hbytes, rfl⟩ := h
  have hhex := (hex_digits hbytes).2
  have hpart : ∀ k, ∀ c ∈ ((chunk.flatMap hexByte).drop k).take 5, InCode c :=
    fun k c hc => .inl (hhex c (List.mem_of_mem_drop (List.mem_of_mem_take hc)))
  intro c hc
  simp only [formatRecoveryCode, String.toList_ofList, List.mem_append,
    List.mem_cons] at hc
  rcases hc with ((hc | rfl | hc) | rfl | hc) | rfl | hc
  · exact hpart 0 c hc
  · exact .inr rfl
  · exact hpart 5 c hc
  · exact .inr rfl
  · exact hpart 10 c hc
  · exact .inr rfl
  · exact hpart 15 c hc

/-! ## Spellings -/

/-- `s` is the code `rc` in any letter case, with white space around it. -/
def Spelling (rc s : String) : Prop :=
  ∃ front mid back : List Char, s.toList = front ++ mid ++ back ∧
    (∀ c ∈ front, isWhitespace c = true) ∧
    (∀ c ∈ back, isWhitespace c = true) ∧
    mid.map Char.toLower = rc.toList.map Char.toLower

theorem Spelling.refl (rc : String) : Spelling rc rc :=
  ⟨[], rc.toList, [], by simp, fun c hc => (by cases hc),
    fun c hc => (by cases hc), rfl⟩

/-- Lower case, for ASCII. -/
def LowersAscii (ext : TotpExternals) : Prop :=
  ∀ s : String, (∀ c ∈ s.toList, c.toNat < 128) →
    ext.toLowercase s = String.ofList (s.toList.map Char.toLower)

theorem dropWhile_front {p : Char → Bool} {f l : List Char}
    (hfront : ∀ c ∈ f, p c = true) (hl : ∀ c ∈ l, p c = false)
    (hne : l ≠ []) (r : List Char) :
    (f ++ (l ++ r)).dropWhile p = l ++ r := by
  rw [List.dropWhile_append_of_pos hfront]
  cases l with
  | nil => exact absurd rfl hne
  | cons c l =>
      have hc : p c = false := hl c List.mem_cons_self
      rw [List.cons_append, List.dropWhile_cons_of_neg (by rw [hc]; decide)]

/-- **`trim` leaves the code**, in some letter case. -/
theorem IsCode.trim_eq (h : IsCode rc) (hs : Spelling rc s) :
    ∃ mid, trim s = String.ofList mid ∧ (∀ c ∈ mid, InCode c) ∧
      mid.map Char.toLower = rc.toList.map Char.toLower := by
  obtain ⟨front, mid, back, hlist, hfront, hback, hmid⟩ := hs
  have hin : ∀ c ∈ mid, InCode c := by
    intro c hc
    have hlow : c.toLower ∈ rc.toList.map Char.toLower :=
      hmid ▸ List.mem_map.mpr ⟨c, hc, rfl⟩
    obtain ⟨d, hd, hdc⟩ := List.mem_map.mp hlow
    rw [← inCode_toLower, ← hdc, inCode_toLower]
    exact h.inCode d hd
  have hspace : ∀ c ∈ mid, isWhitespace c = false :=
    fun c hc => (hin c hc).not_whitespace
  have hne : mid ≠ [] := by
    rintro rfl
    have hform := h.hasForm
    rw [← hasForm_congr hmid] at hform
    exact absurd hform (by decide)
  refine ⟨mid, ?_, hin, hmid⟩
  unfold trim
  rw [hlist, List.append_assoc, dropWhile_front hfront hspace hne,
    List.reverse_append]
  have hrest := dropWhile_front (p := isWhitespace) (f := back.reverse)
    (l := mid.reverse) (fun c hc => hback c (List.mem_reverse.mp hc))
    (fun c hc => hspace c (List.mem_reverse.mp hc))
    (by simpa using hne) []
  rw [List.append_nil] at hrest
  rw [hrest, List.reverse_reverse]

/-- **Every spelling has the form of a recovery code.** -/
theorem IsCode.isRecoveryCode (h : IsCode rc) (hs : Spelling rc s) :
    isRecoveryCode s = true := by
  obtain ⟨mid, htrim, hin, hmid⟩ := h.trim_eq hs
  have hform : RecoverySpelling.hasForm mid = true := by
    rw [hasForm_congr hmid]
    exact h.hasForm
  unfold RecoverySpelling.hasForm at hform
  simp only [Bool.and_eq_true, beq_iff_eq] at hform
  unfold TwoFactor.isRecoveryCode
  rw [htrim]
  simp only [Bool.and_eq_true, beq_iff_eq, String.toList_ofList]
  refine ⟨?_, hform.1.2, hform.2⟩
  rw [utf8ByteSize_ascii fun c hc => (hin c hc).lt]
  exact hform.1.1

/-- **Every spelling has the same hash.** -/
theorem IsCode.hash_eq (h : IsCode rc) (hlower : LowersAscii ext)
    (hs : Spelling rc s) :
    hashRecoveryCode ext s = hashRecoveryCode ext rc := by
  have hsame : ∀ {x}, Spelling rc x → ext.toLowercase (trim x) =
      String.ofList (rc.toList.map Char.toLower) := by
    intro x hx
    obtain ⟨mid, htrim, hin, hmid⟩ := h.trim_eq hx
    rw [htrim, hlower _ fun c hc => ?_, String.toList_ofList, hmid]
    rw [String.toList_ofList] at hc
    exact (hin c hc).lt
  unfold hashRecoveryCode
  rw [hsame hs, hsame (.refl rc)]

end DpopAuth.Ports.RecoverySpelling
