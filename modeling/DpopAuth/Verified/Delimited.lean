/-!
# Texts joined by a delimiter

Two texts written one after the other with a delimiter between them.  The pair
can be read back when the first text is free of the delimiter.  In general two
pairs with the same join are the same pair, or one of the first texts reaches
past a delimiter of the other join.

## Main results

* `join_eq_iff` — all pairs with one join.
* `join_inj` — what can be read back.
-/

namespace DpopAuth.Verified.Delimited

variable {α : Type} {d : α} {a b a' b' : List α}

/-- The first text of the second pair continues the first text of the first
pair past a delimiter. -/
def Reaches (d : α) (a b a' b' : List α) : Prop :=
  ∃ x, a' = a ++ d :: x ∧ b = x ++ d :: b'

/-- **All pairs with one join.** -/
theorem join_eq_iff : a ++ d :: b = a' ++ d :: b' ↔
    (a = a' ∧ b = b') ∨ Reaches d a b a' b' ∨ Reaches d a' b' a b := by
  constructor
  · intro h
    rcases List.append_eq_append_iff.mp h with ⟨x, ha, hb⟩ | ⟨x, ha, hb⟩
    · cases x with
      | nil =>
          rw [List.append_nil] at ha
          exact .inl ⟨ha.symm, (List.cons.inj hb).2⟩
      | cons c x =>
          obtain ⟨rfl, hrest⟩ := List.cons.inj hb
          exact .inr (.inl ⟨x, ha, hrest⟩)
    · cases x with
      | nil =>
          rw [List.append_nil] at ha
          exact .inl ⟨ha, (List.cons.inj hb).2.symm⟩
      | cons c x =>
          obtain ⟨rfl, hrest⟩ := List.cons.inj hb
          exact .inr (.inr ⟨x, ha, hrest⟩)
  · rintro (⟨rfl, rfl⟩ | ⟨x, rfl, rfl⟩ | ⟨x, rfl, rfl⟩)
    · rfl
    · rw [List.append_assoc, List.cons_append]
    · rw [List.append_assoc, List.cons_append]

theorem Reaches.mem (h : Reaches d a b a' b') : d ∈ a' := by
  obtain ⟨x, rfl, -⟩ := h
  exact List.mem_append_right _ List.mem_cons_self

/-- **A pair is read back** when neither first text has the delimiter. -/
theorem join_inj (ha : d ∉ a) (ha' : d ∉ a') :
    a ++ d :: b = a' ++ d :: b' ↔ a = a' ∧ b = b' := by
  rw [join_eq_iff]
  constructor
  · rintro (h | h | h)
    · exact h
    · exact absurd h.mem ha'
    · exact absurd h.mem ha
  · exact .inl

end DpopAuth.Verified.Delimited
