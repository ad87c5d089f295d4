import DpopAuth.Verified.RelyGuarantee

/-!
# The steps of an atomic run

`Prog.trace` lists the steps of a run of one thread alone: the point, the
choice, and the state before the step.  Conditions on atomic runs, such as
which statement fails, are conditions on the trace.

## Main results

* `Outline.alone_within` — an outline speaks about the atomic runs whose steps
  respect its restriction.
-/

namespace DpopAuth.Verified.Traces

open DpopAuth.Verified.Resumption
open DpopAuth.Verified.RelyGuarantee

variable {π σ χ ε ι α : Type}

/-- The steps thread `i` takes when it runs alone. -/
def trace (i : Nat) : List χ → Prog π σ χ α → σ → List (π × χ × σ)
  | [], _, _ => []
  | _ :: _, .ret _, _ => []
  | c :: cs, .act pt f next, s =>
      (pt, c, s) :: match f i c s with
        | none => []
        | some (b, s') => trace i cs (next b) s'

/-- Every step of the atomic run satisfies `G`. -/
def AllSteps (G : π → χ → σ → Prop) (i : Nat) (cs : List χ) (p : Prog π σ χ α)
    (s : σ) : Prop := ∀ x ∈ trace i cs p s, G x.1 x.2.1 x.2.2

variable {G : π → χ → σ → Prop} {i : Nat} {s s' : σ}

theorem trace_act {γ : Type} {c : χ} {cs : List χ} {pt : π}
    {f : Action σ χ γ} {next : γ → Prog π σ χ α} {b : γ} {t : σ}
    (hf : f i c s = some (b, t)) :
    trace i (c :: cs) (.act pt f next) s =
      (pt, c, s) :: trace i cs (next b) t := by
  simp [trace, hf]

/-- **An outline, for the atomic runs that respect its restriction.** -/
theorem Outline.alone_within {p : Prog π σ χ α} {Q : α → σ → Prop} :
    ∀ {P : σ → Prop} {cs : List χ} {s s' : σ} {a : α},
      Outline (Logic.solo i) (fun pt ch s _ => G pt ch s) i p P Q → P s →
        AllSteps G i cs p s → p.alone i cs s = some (a, s') → Q a s' := by
  induction p with
  | ret a =>
      intro P cs s s' b h hP _ hrun
      obtain ⟨_, rfl, rfl⟩ := Prog.alone_ret hrun
      exact h _ trivial hP
  | act pt f next ih =>
      intro P cs s s' a h hP hall hrun
      obtain ⟨c, cs', b, t, rfl, hf, hrest⟩ := Prog.alone_act hrun
      have htrace : trace i (c :: cs') (.act pt f next) s =
          (pt, c, s) :: trace i cs' (next b) t := trace_act hf
      have hfirst : G pt c s := hall (pt, c, s) (by rw [htrace]; simp)
      obtain ⟨-, -, P', -, hpost, hout⟩ := h s c b t trivial hP hf hfirst
      refine ih b hout hpost (fun x hx => ?_) hrest
      exact hall x (by rw [htrace]; exact List.mem_cons_of_mem _ hx)

end DpopAuth.Verified.Traces
