import Mathlib.Logic.Relation

/-!
# Machines with named steps

A machine is a partial function: the act and the state give the next state, or
nothing when the act is not possible there.  A run is a sequence of acts; the
runs a theorem is about are those whose acts all satisfy a condition on the
act and the state before it.

## Main results

* `Reaches.invariant` — what every allowed act keeps, every run keeps.
* `exec_reaches` — a list of acts that can be followed is a run.
-/

namespace DpopAuth.Verified.Machines

variable {ε σ : Type}

/-- A machine, as the effect of each act. -/
abbrev Machine (ε σ : Type) := ε → σ → Option σ

/-- One act that satisfies `F` in the state before it. -/
def Step (M : Machine ε σ) (F : ε → σ → Prop) (s s' : σ) : Prop :=
  ∃ e, M e s = some s' ∧ F e s

/-- The runs whose acts all satisfy `F`. -/
def Reaches (M : Machine ε σ) (F : ε → σ → Prop) : σ → σ → Prop :=
  Relation.ReflTransGen (Step M F)

/-- No condition. -/
def free : ε → σ → Prop := fun _ _ => True

variable {M : Machine ε σ} {F G : ε → σ → Prop} {s s' s'' : σ}

theorem Reaches.refl (s : σ) : Reaches M F s s := Relation.ReflTransGen.refl

theorem Reaches.trans (h : Reaches M F s s') (h' : Reaches M F s' s'') :
    Reaches M F s s'' := Relation.ReflTransGen.trans h h'

/-- Fewer runs satisfy more conditions. -/
theorem Reaches.weaken (hFG : ∀ e s, F e s → G e s) (h : Reaches M F s s') :
    Reaches M G s s' := by
  refine Relation.ReflTransGen.mono ?_ _ _ h
  rintro t t' ⟨e, he, hF⟩
  exact ⟨e, he, hFG e t hF⟩

theorem Reaches.free (h : Reaches M F s s') : Reaches M free s s' :=
  h.weaken fun _ _ _ => trivial

/-- **The invariant rule.** -/
theorem Reaches.invariant {P : σ → Prop}
    (hstep : ∀ e s s', P s → M e s = some s' → F e s → P s')
    (h : Reaches M F s s') (hs : P s) : P s' := by
  induction h with
  | refl => exact hs
  | tail _ hlast ih =>
      obtain ⟨e, he, hF⟩ := hlast
      exact hstep e _ _ ih he hF

/-- A condition that follows where an invariant holds. -/
theorem Reaches.weaken_within {P : σ → Prop}
    (hstep : ∀ e s s', P s → M e s = some s' → P s')
    (hFG : ∀ e s, P s → F e s → G e s) (h : Reaches M F s s') (hs : P s) :
    Reaches M G s s' := by
  have hboth : Reaches M G s s' ∧ P s' := by
    refine h.invariant (P := fun t => Reaches M G s t ∧ P t) ?_ ⟨.refl s, hs⟩
    intro e t t' ⟨hrun, ht⟩ he hF
    exact ⟨hrun.tail ⟨e, he, hFG e t ht hF⟩, hstep e t t' ht he⟩
  exact hboth.1

/-- Follow a list of acts, all of which pass the test. -/
def exec (M : Machine ε σ) (test : ε → σ → Bool) :
    List ε → σ → Option σ
  | [], s => some s
  | e :: es, s =>
      if test e s then
        match M e s with
        | none => none
        | some s' => exec M test es s'
      else none

theorem exec_reaches {test : ε → σ → Bool}
    (hF : ∀ e s, test e s = true → F e s) {es : List ε} :
    ∀ {s s' : σ}, exec M test es s = some s' → Reaches M F s s' := by
  induction es with
  | nil =>
      intro s s' h
      cases h
      exact .refl s
  | cons e es ih =>
      intro s s' h
      by_cases ht : test e s = true
      · cases hm : M e s with
        | none => simp [exec, ht, hm] at h
        | some t =>
            have hrest : exec M test es t = some s' := by
              simpa [exec, ht, hm] using h
            exact Relation.ReflTransGen.head ⟨e, hm, hF e s ht⟩ (ih hrest)
      · simp [exec, ht] at h

end DpopAuth.Verified.Machines
