import DpopAuth.Verified.Resumption

/-!
# Bounded progress

Outlines say what holds when a call returns.  That it does return is a fact
about its program: `EndsIn n` when at most `n` steps are left, whatever their
answers, and each of them can be taken in every state.  A call of such a
program waits for nobody; it has returned once it has been scheduled `n` times.

## Main results

* `EndsIn.bind` — programs one after the other.
* `endsIn_of_reaches` — what is left of a call, in every run.
-/

namespace DpopAuth.Verified.Progress

open DpopAuth.Verified.Resumption

variable {π σ χ ε ι α β : Type}

/-- The step can be taken in every state. -/
def CanAlways (f : Action σ χ β) : Prop :=
  ∀ i s, ∃ ch b s', f i ch s = some (b, s')

/-- At most `n` steps are left, and each can always be taken. -/
def EndsIn : Nat → Prog π σ χ α → Prop
  | _, .ret _ => True
  | 0, .act _ _ _ => False
  | n + 1, .act _ f next => CanAlways f ∧ ∀ b, EndsIn n (next b)

theorem EndsIn.ret {n : Nat} {a : α} :
    EndsIn n (.ret a : Prog π σ χ α) := by
  cases n <;> trivial

theorem EndsIn.act {n : Nat} {pt : π} {f : Action σ χ β}
    {next : β → Prog π σ χ α} (hf : CanAlways f)
    (rest : ∀ b, EndsIn n (next b)) : EndsIn (n + 1) (.act pt f next) :=
  ⟨hf, rest⟩

theorem EndsIn.mono {n m : Nat} {p : Prog π σ χ α} (h : EndsIn n p)
    (hle : n ≤ m) : EndsIn m p := by
  induction p generalizing n m with
  | ret a => exact .ret
  | act pt f next ih =>
      cases n with
      | zero => exact h.elim
      | succ n =>
          cases m with
          | zero => omega
          | succ m => exact .act h.1 fun b => ih b (h.2 b) (by omega)

/-- Programs one after the other. -/
theorem EndsIn.bind {n m : Nat} {p : Prog π σ χ β} {k : β → Prog π σ χ α}
    (h : EndsIn n p) (hk : ∀ b, EndsIn m (k b)) :
    EndsIn (n + m) (p.bind k) := by
  induction p generalizing n with
  | ret b => exact (hk b).mono (by omega)
  | act pt f next ih =>
      cases n with
      | zero => exact h.elim
      | succ n =>
          have hrest : EndsIn (n + m + 1) ((Prog.act pt f next).bind k) :=
            .act h.1 fun b => ih b (h.2 b)
          exact hrest.mono (by omega)

theorem EndsIn.mapPoint {π' : Type} {g : π → π'} {n : Nat}
    {p : Prog π σ χ α} (h : EndsIn n p) : EndsIn n (p.mapPoint g) := by
  induction p generalizing n with
  | ret a => exact .ret
  | act pt f next ih =>
      cases n with
      | zero => exact h.elim
      | succ n => exact .act h.1 fun b => ih b (h.2 b)

/-! ## Runs -/

variable {M : System π σ χ ε ι α} {F : Filter π σ χ ε ι}

/-- A step leaves no thread more to do than it had. -/
theorem endsIn_step {n : Nat} (hbody : ∀ q, EndsIn n (M.body q))
    {c d : Config π σ χ ι α} (hstep : M.Step F c d)
    (h : ∀ i q p, c.thread i = some (q, p) → EndsIn n p) :
    ∀ i q p, d.thread i = some (q, p) → EndsIn n p := by
  intro j q' p hj
  cases hstep with
  | @call i q free =>
      by_cases hji : j = i
      · subst hji
        rw [Config.set_thread_self] at hj
        cases hj
        exact hbody q'
      · rw [Config.set_thread_ne c hji] at hj
        exact h j q' p hj
  | @run i q _ pt f next ch b s' stands takes allowed =>
      by_cases hji : j = i
      · subst hji
        rw [Config.set_thread_self] at hj
        cases hj
        have hact := h j q' _ stands
        cases n with
        | zero => exact hact.elim
        | succ n => exact (hact.2 b).mono (by omega)
      · rw [Config.set_thread_ne _ hji] at hj
        exact h j q' p hj
  | @cancel i q p stands allowed =>
      by_cases hji : j = i
      · subst hji
        rw [Config.clear_thread_self] at hj
        cases hj
      · rw [Config.clear_thread_ne _ hji] at hj
        exact h j q' _ hj
  | env takes allowed => exact h j q' p hj

/-- **What is left of a call**, in every run. -/
theorem endsIn_of_reaches {n : Nat} (hbody : ∀ q, EndsIn n (M.body q))
    {s : σ} {c : Config π σ χ ι α} (hrun : M.Reaches F (Config.start s) c) :
    ∀ i q p, c.thread i = some (q, p) → EndsIn n p := by
  induction hrun with
  | refl =>
      intro i q p hi
      cases hi
  | tail _ hstep ih => exact endsIn_step hbody hstep ih

end DpopAuth.Verified.Progress
