import Mathlib.Data.List.Nodup
import DpopAuth.Verified.Delimited
import DpopAuth.Ports.Service

/-!
# Identifier hashes

`identifier_hash` of `entropy.rs`: the lower-case kind and the lower-case value
of an identifier, joined by a colon and hashed.  The colon does not say where
the kind ends: a kind is free text, and so is a value.

## Main results

* `identifierHash_eq_iff` — all identifiers with one hash.
* `identifierHash_separates_iff` — when the hash tells two identifiers apart.
* `identifierHash_inj` — kinds without a colon.
-/

namespace DpopAuth.Ports.IdentifierHash

open DpopAuth.Verified.Delimited
open DpopAuth.Ports.Service

variable (ext : Externals)

/-- `hash_token`. -/
def hashToken (secret : String) : String := ext.sha256Hex secret

/-- `identifier_hash`. -/
def identifierHash (kind value : String) : String :=
  let combined := ext.toLowercase kind ++ ":" ++ ext.toLowercase value
  hashToken ext combined

/-- The kind of the second identifier continues the kind of the first past a
colon, with a part of the value. -/
def Overlaps (kind value kind' value' : String) : Prop :=
  ∃ x : String, ext.toLowercase kind' = ext.toLowercase kind ++ ":" ++ x ∧
    ext.toLowercase value = x ++ ":" ++ ext.toLowercase value'

variable {ext} {k₁ v₁ k₂ v₂ : String}

theorem toList_combined (a b : String) :
    (a ++ ":" ++ b).toList = a.toList ++ ':' :: b.toList := by
  rw [String.toList_append, String.toList_append, List.append_assoc]
  rfl

theorem reaches_iff_overlaps :
    Reaches ':' (ext.toLowercase k₁).toList (ext.toLowercase v₁).toList
      (ext.toLowercase k₂).toList (ext.toLowercase v₂).toList ↔
    Overlaps ext k₁ v₁ k₂ v₂ := by
  constructor
  · rintro ⟨x, hkind, hvalue⟩
    refine ⟨String.ofList x, String.toList_inj.mp ?_, String.toList_inj.mp ?_⟩
    · rw [toList_combined, String.toList_ofList]
      exact hkind
    · rw [toList_combined, String.toList_ofList]
      exact hvalue
  · rintro ⟨x, hkind, hvalue⟩
    refine ⟨x.toList, ?_, ?_⟩
    · rw [hkind, toList_combined]
    · rw [hvalue, toList_combined]

/-- **All identifiers with one hash.** -/
theorem identifierHash_eq_iff (hsha : Function.Injective ext.sha256Hex) :
    identifierHash ext k₁ v₁ = identifierHash ext k₂ v₂ ↔
    (ext.toLowercase k₁ = ext.toLowercase k₂ ∧
      ext.toLowercase v₁ = ext.toLowercase v₂) ∨
    Overlaps ext k₁ v₁ k₂ v₂ ∨ Overlaps ext k₂ v₂ k₁ v₁ := by
  unfold identifierHash hashToken
  rw [hsha.eq_iff, ← String.toList_inj, toList_combined, toList_combined,
    join_eq_iff, reaches_iff_overlaps, reaches_iff_overlaps, String.toList_inj,
    String.toList_inj]

theorem Overlaps.kinds_ne (h : Overlaps ext k₁ v₁ k₂ v₂) :
    ext.toLowercase k₁ ≠ ext.toLowercase k₂ := by
  obtain ⟨x, hkind, -⟩ := h
  intro hsame
  have hlength := congrArg (fun s : String => s.toList.length) hkind
  simp only [← hsame, toList_combined, List.length_append,
    List.length_cons] at hlength
  omega

/-- **Kinds without a colon** are told apart, whatever the values. -/
theorem identifierHash_inj (hsha : Function.Injective ext.sha256Hex)
    (h₁ : ':' ∉ (ext.toLowercase k₁).toList)
    (h₂ : ':' ∉ (ext.toLowercase k₂).toList) :
    identifierHash ext k₁ v₁ = identifierHash ext k₂ v₂ ↔
    ext.toLowercase k₁ = ext.toLowercase k₂ ∧
      ext.toLowercase v₁ = ext.toLowercase v₂ := by
  rw [identifierHash_eq_iff hsha]
  constructor
  · rintro (h | h | h)
    · exact h
    · exact absurd (reaches_iff_overlaps.mpr h).mem h₂
    · exact absurd (reaches_iff_overlaps.mpr h).mem h₁
  · exact .inl

/-- **When the hash tells two identifiers apart.** -/
theorem identifierHash_separates_iff
    (hsha : Function.Injective ext.sha256Hex) :
    (identifierHash ext k₁ v₁ = identifierHash ext k₂ v₂ ↔
      ext.toLowercase k₁ = ext.toLowercase k₂ ∧
        ext.toLowercase v₁ = ext.toLowercase v₂) ↔
    ¬ Overlaps ext k₁ v₁ k₂ v₂ ∧ ¬ Overlaps ext k₂ v₂ k₁ v₁ := by
  rw [identifierHash_eq_iff hsha]
  constructor
  · intro h
    constructor
    · intro hover
      exact hover.kinds_ne (h.mp (.inr (.inl hover))).1
    · intro hover
      exact hover.kinds_ne (h.mp (.inr (.inr hover))).1.symm
  · rintro ⟨hfirst, hsecond⟩
    constructor
    · rintro (h | h | h)
      · exact h
      · exact absurd h hfirst
      · exact absurd h hsecond
    · exact .inl

/-! ## Sample digests -/

/-- A digest function with a few known values. -/
def tableDigest (table : List (String × String)) (s : String) : String :=
  match table.find? (fun e => e.1 == s) with
  | some e => e.2
  | none => "sha256:" ++ s

theorem head?_sha256 (s : String) : ("sha256:" ++ s).toList.head? = some 's' := by
  rw [String.toList_append]
  rfl

/-- **No two texts share a digest** when the known values differ from each
other and from the rest. -/
theorem tableDigest_injective {table : List (String × String)}
    (hnodup : (table.map Prod.snd).Nodup)
    (hother : ∀ e ∈ table, e.2.toList.head? ≠ some 's') :
    Function.Injective (tableDigest table) := by
  intro s t h
  unfold tableDigest at h
  cases hs : table.find? (fun e => e.1 == s) with
  | some e =>
      have hes : e.1 = s := by simpa using List.find?_some hs
      cases ht : table.find? (fun e => e.1 == t) with
      | some e' =>
          have het : e'.1 = t := by simpa using List.find?_some ht
          rw [hs, ht] at h
          have hsame : e = e' := List.inj_on_of_nodup_map hnodup
            (List.mem_of_find?_eq_some hs) (List.mem_of_find?_eq_some ht) h
          rw [← hes, ← het, hsame]
      | none =>
          rw [hs, ht] at h
          dsimp only at h
          exact absurd (h ▸ head?_sha256 t)
            (hother e (List.mem_of_find?_eq_some hs))
  | none =>
      cases ht : table.find? (fun e => e.1 == t) with
      | some e' =>
          rw [hs, ht] at h
          dsimp only at h
          exact absurd (h ▸ head?_sha256 s)
            (hother e' (List.mem_of_find?_eq_some ht))
      | none =>
          rw [hs, ht] at h
          exact (String.append_right_inj _).mp h

/-! ## An example -/

/-- The digests the example meets. -/
def sampleDigests : List (String × String) :=
  [("email:a:b",
      "77c7666ecc9daa6a338fc76386f3f85e58149ec7b306b41ca1e5ab8b1f1e4832"),
    ("email:ada@example.org",
      "6cb3f567e1c3cf302a56cae2a8efd2090eae8caf3f510c06cbdd06a99f7ba325"),
    ("phone:ada@example.org",
      "1ed0e3729a3d1209cf7870295adb6ae569bcee35a97305983c7703f6c85dffda")]

def identifierExternals : Externals :=
  { sampleExternals with
    sha256Hex := tableDigest sampleDigests
    toLowercase := fun s => String.ofList (s.toList.map Char.toLower) }

theorem sampleDigests_injective :
    Function.Injective identifierExternals.sha256Hex :=
  tableDigest_injective (by decide +kernel) (by decide +kernel)

/-- **Two kinds share a hash**: the hash of `email:a:b` belongs to two
identifiers. -/
theorem kinds_collide :
    ¬ (identifierHash identifierExternals "email:a" "b" =
        identifierHash identifierExternals "email" "a:b" ↔
      identifierExternals.toLowercase "email:a" =
        identifierExternals.toLowercase "email" ∧
      identifierExternals.toLowercase "b" =
        identifierExternals.toLowercase "a:b") := by
  decide +kernel

theorem not_overlaps_of_length {k v k' v' : String}
    (h : (identifierExternals.toLowercase k').toList.length ≤
      (identifierExternals.toLowercase k).toList.length) :
    ¬ Overlaps identifierExternals k v k' v' := by
  rintro ⟨x, hkind, -⟩
  have hlength := congrArg (fun s : String => s.toList.length) hkind
  simp only [toList_combined, List.length_append, List.length_cons] at hlength
  omega

/-- An address used as an e-mail address and as a telephone number. -/
theorem identifierHash_separates_ada :
    identifierHash identifierExternals "email" "Ada@Example.org" ≠
      identifierHash identifierExternals "phone" "ada@example.org" ∧
    (identifierHash identifierExternals "email" "Ada@Example.org" =
        identifierHash identifierExternals "phone" "ada@example.org" ↔
      identifierExternals.toLowercase "email" =
        identifierExternals.toLowercase "phone" ∧
      identifierExternals.toLowercase "Ada@Example.org" =
        identifierExternals.toLowercase "ada@example.org") := by
  constructor
  · decide +kernel
  · exact (identifierHash_separates_iff sampleDigests_injective).mpr
      ⟨not_overlaps_of_length (by decide +kernel),
        not_overlaps_of_length (by decide +kernel)⟩

end DpopAuth.Ports.IdentifierHash
