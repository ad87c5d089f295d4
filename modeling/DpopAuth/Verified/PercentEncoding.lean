/-!
# Percent-encoding

A text is percent-encoded over a set of reserved ASCII characters: a reserved
character, and every character outside of ASCII, is replaced by `%XX` for each
byte of its UTF-8 form.  All other characters are plain and stay.

## Main results

* `percentEncode_eq_self_iff` — which texts are left alone.
* `mem_percentEncode` — which characters an encoded text has.
-/

namespace DpopAuth.Verified.PercentEncoding

variable {reserved : Char → Bool} {c : Char} {l : List Char}

/-- A character that is not replaced. -/
def Plain (reserved : Char → Bool) (c : Char) : Prop :=
  c.toNat < 128 ∧ reserved c = false

instance : Decidable (Plain reserved c) := inferInstanceAs (Decidable (_ ∧ _))

/-- A digit of `%XX`. -/
def hexDigit (n : Nat) : Char :=
  if n < 10 then Char.ofNat (48 + n) else Char.ofNat (55 + n)

def encodeByte (b : UInt8) : List Char :=
  ['%', hexDigit (b.toNat / 16), hexDigit (b.toNat % 16)]

def encodeChar (reserved : Char → Bool) (c : Char) : List Char :=
  if Plain reserved c then [c]
  else (String.utf8EncodeChar c).flatMap encodeByte

/-- `utf8_percent_encode`. -/
def percentEncode (reserved : Char → Bool) (l : List Char) : List Char :=
  l.flatMap (encodeChar reserved)

/-! ## What stays -/

theorem length_encodeByte (bs : List UInt8) :
    (bs.flatMap encodeByte).length = 3 * bs.length := by
  induction bs with
  | nil => rfl
  | cons b bs ih =>
      rw [List.flatMap_cons, List.length_append, ih]
      simp only [encodeByte, List.length_cons, List.length_nil]
      omega

theorem length_encodeChar (reserved : Char → Bool) (c : Char) :
    (Plain reserved c ∧ encodeChar reserved c = [c]) ∨
    (¬ Plain reserved c ∧ 3 ≤ (encodeChar reserved c).length) := by
  unfold encodeChar
  split
  · exact .inl ⟨‹_›, rfl⟩
  · refine .inr ⟨‹_›, ?_⟩
    rw [length_encodeByte, String.length_utf8EncodeChar]
    have hpos := c.utf8Size_pos
    omega

theorem length_le_percentEncode (reserved : Char → Bool) (l : List Char) :
    l.length ≤ (percentEncode reserved l).length := by
  induction l with
  | nil => exact Nat.le_refl 0
  | cons c l ih =>
      show l.length + 1 ≤ (encodeChar reserved c ++ percentEncode reserved l).length
      rw [List.length_append]
      rcases length_encodeChar reserved c with
        ⟨-, hone⟩ | ⟨-, hthree⟩
      · rw [hone, List.length_singleton]
        omega
      · omega

/-- **A text is left alone** exactly when all of it is plain. -/
theorem percentEncode_eq_self_iff :
    percentEncode reserved l = l ↔ ∀ c ∈ l, Plain reserved c := by
  induction l with
  | nil => exact ⟨fun _ c hc => (by cases hc), fun _ => rfl⟩
  | cons c l ih =>
      have hcons : percentEncode reserved (c :: l) =
          encodeChar reserved c ++ percentEncode reserved l := rfl
      rw [hcons, List.forall_mem_cons, ← ih]
      rcases length_encodeChar reserved c with
        ⟨hplain, hone⟩ | ⟨hnot, hthree⟩
      · rw [hone]
        constructor
        · intro h
          exact ⟨hplain, (List.cons.inj h).2⟩
        · rintro ⟨-, h⟩
          rw [h]
          rfl
      · constructor
        · intro h
          have hlength := congrArg List.length h
          have hle := length_le_percentEncode reserved l
          rw [List.length_append, List.length_cons] at hlength
          omega
        · rintro ⟨hplain, -⟩
          exact absurd hplain hnot

/-! ## What can occur -/

theorem hexDigit_range : ∀ n < 16, (48 ≤ (hexDigit n).toNat ∧
    (hexDigit n).toNat ≤ 57) ∨ (65 ≤ (hexDigit n).toNat ∧
    (hexDigit n).toNat ≤ 70) := by
  decide

/-- **The characters of an encoded text**: plain ones, percent signs and
digits. -/
theorem mem_percentEncode (h : c ∈ percentEncode reserved l) :
    Plain reserved c ∨ c = '%' ∨ (48 ≤ c.toNat ∧ c.toNat ≤ 57) ∨
      (65 ≤ c.toNat ∧ c.toNat ≤ 70) := by
  obtain ⟨d, -, hd⟩ := List.mem_flatMap.mp h
  unfold encodeChar at hd
  split at hd
  · obtain rfl := List.mem_singleton.mp hd
    exact .inl ‹_›
  · obtain ⟨b, -, hb⟩ := List.mem_flatMap.mp hd
    have hlt : b.toNat < 256 := b.toNat_lt
    simp only [encodeByte, List.mem_cons, List.not_mem_nil, or_false] at hb
    rcases hb with rfl | rfl | rfl
    · exact .inr (.inl rfl)
    · exact .inr (.inr (hexDigit_range _ (by omega)))
    · exact .inr (.inr (hexDigit_range _ (by omega)))

/-- A reserved delimiter does not occur in an encoded text. -/
theorem not_mem_percentEncode (hreserved : reserved c = true) (hpercent : c ≠ '%')
    (hdigit : ¬ (48 ≤ c.toNat ∧ c.toNat ≤ 57) ∧
      ¬ (65 ≤ c.toNat ∧ c.toNat ≤ 70)) : c ∉ percentEncode reserved l := by
  intro h
  rcases mem_percentEncode h with hplain | hc | hc | hc
  · rw [hplain.2] at hreserved
    cases hreserved
  · exact hpercent hc
  · exact hdigit.1 hc
  · exact hdigit.2 hc

end DpopAuth.Verified.PercentEncoding
