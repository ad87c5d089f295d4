import Mathlib.Logic.Function.Basic
import Mathlib.Logic.Relation

/-!
# Concurrent programs as resumptions

A program is a tree of **indivisible steps**.  Each step is a function of
the shared state and of one choice made by the surroundings (a failure, a
fresh random value); it answers with a value and the next shared state, or
with `none` while the calling thread has to wait.  Between two steps of one
thread any other thread may run, so the tree of a program is exactly the
list of places where it can be interrupted.

The same tree has two meanings.

* `System.Step` / `System.Reaches`: any number of threads, interleaved step
  by step, together with steps of the environment.  A thread may be cancelled
  between any two of its steps.
* `Prog.alone`: one thread runs from its first step to its last with nothing
  in between, which is what "the call is atomic" means.  `System.AtomicReaches`
  is a run of such calls.

A step carries a *point*: a name for the statement about to run, with the
local variables an observer may want to speak about.  Points have no effect
on the run; a `Filter` uses them to say which runs a theorem is about.

## Main results

* `System.exec_reaches` — a schedule `System.exec` can follow is a run.
* `Prog.alone_bind`, `Prog.alone_bind_of` — an atomic run of a sequence is the
  sequence of the atomic runs.
-/

namespace DpopAuth.Verified.Resumption

variable {π σ χ ε ι α β γ : Type}

/-! ## Programs -/

/-- One indivisible step: the thread's number, the choice made outside the
program and the shared state give an answer and the next shared state, or
`none` when the thread has to wait. -/
abbrev Action (σ χ β : Type) := Nat → χ → σ → Option (β × σ)

/-- A program: it has returned, or it is about to take a step at `point`. -/
inductive Prog (π σ χ : Type) (α : Type) : Type 1 where
  | ret (a : α) : Prog π σ χ α
  | act {β : Type} (point : π) (f : Action σ χ β)
      (next : β → Prog π σ χ α) : Prog π σ χ α

namespace Prog

/-- Sequencing: the steps of the first program, then those of the second. -/
def bind : Prog π σ χ α → (α → Prog π σ χ β) → Prog π σ χ β
  | .ret a, k => k a
  | .act pt f next, k => .act pt f fun b => (next b).bind k

instance : Monad (Prog π σ χ) where
  pure := .ret
  bind := Prog.bind

/-- The program of a single step. -/
def step (point : π) (f : Action σ χ β) : Prog π σ χ β := .act point f .ret

@[simp] theorem pure_eq (a : α) : (pure a : Prog π σ χ α) = .ret a := rfl

@[simp] theorem bind_eq (p : Prog π σ χ α) (k : α → Prog π σ χ β) :
    p >>= k = p.bind k := rfl

@[simp] theorem ret_bind (a : α) (k : α → Prog π σ χ β) :
    (Prog.ret a : Prog π σ χ α).bind k = k a := rfl

@[simp] theorem act_bind {γ : Type} (pt : π) (f : Action σ χ γ)
    (next : γ → Prog π σ χ α) (k : α → Prog π σ χ β) :
    (Prog.act pt f next).bind k = .act pt f fun b => (next b).bind k := rfl

@[simp] theorem bind_ret (p : Prog π σ χ α) : p.bind .ret = p := by
  induction p with
  | ret a => rfl
  | act pt f next ih =>
      simp only [act_bind]
      congr 1
      funext b
      exact ih b

/-- The same program, with other names for its points. -/
def mapPoint {π' : Type} (g : π → π') : Prog π σ χ α → Prog π' σ χ α
  | .ret a => .ret a
  | .act pt f next => .act (g pt) f fun b => (next b).mapPoint g

/-- Every step of the program satisfies `φ`. -/
def Every (φ : ∀ {β : Type}, Action σ χ β → Prop) : Prog π σ χ α → Prop
  | .ret _ => True
  | .act _ f next => φ f ∧ ∀ b, (next b).Every φ

theorem Every.bind {φ : ∀ {β : Type}, Action σ χ β → Prop}
    {p : Prog π σ χ α} {k : α → Prog π σ χ β} (hk : ∀ a, (k a).Every φ)
    (hp : p.Every φ) : (p.bind k).Every φ := by
  induction p with
  | ret a => exact hk a
  | act pt f next ih => exact ⟨hp.1, fun b => ih b (hp.2 b)⟩

theorem Every.step {φ : ∀ {β : Type}, Action σ χ β → Prop} {pt : π}
    {f : Action σ χ α} (h : φ f) : (Prog.step pt f).Every φ :=
  ⟨h, fun _ => trivial⟩

theorem Every.mono {φ ψ : ∀ {β : Type}, Action σ χ β → Prop}
    (h : ∀ {β : Type} {f : Action σ χ β}, φ f → ψ f) {p : Prog π σ χ α}
    (hp : p.Every φ) : p.Every ψ := by
  induction p with
  | ret a => trivial
  | act pt f next ih => exact ⟨h hp.1, fun b => ih b (hp.2 b)⟩

section Fallible

variable {ξ : Type} {φ : ∀ {β : Type}, Action σ χ β → Prop}

theorem Every.except_bind {p : ExceptT ξ (Prog π σ χ) α}
    {k : α → ExceptT ξ (Prog π σ χ) β} (hp : p.run.Every φ)
    (hk : ∀ a, (k a).run.Every φ) : (p >>= k).run.Every φ := by
  refine Every.bind (fun r => ?_) hp
  cases r with
  | error e => trivial
  | ok a => exact hk a

theorem Every.lift {p : Prog π σ χ α} (hp : p.Every φ) :
    (liftM p : ExceptT ξ (Prog π σ χ) α).run.Every φ :=
  Every.bind (fun _ => trivial) hp

end Fallible

/-! ## One thread alone -/

/-- Run thread `i` from here to its end with nothing in between, one choice
for each step.  `none` when a step has to wait or the choices do not fit the
number of steps. -/
def alone (i : Nat) : List χ → Prog π σ χ α → σ → Option (α × σ)
  | [], .ret a, s => some (a, s)
  | _ :: _, .ret _, _ => none
  | [], .act _ _ _, _ => none
  | c :: cs, .act _ f next, s =>
      match f i c s with
      | none => none
      | some (b, s') => alone i cs (next b) s'

theorem alone_act {γ : Type} {i : Nat} {cs : List χ} {pt : π}
    {f : Action σ χ γ} {next : γ → Prog π σ χ α} {s s' : σ} {a : α}
    (h : alone i cs (.act pt f next) s = some (a, s')) :
    ∃ c cs' b t, cs = c :: cs' ∧ f i c s = some (b, t) ∧
      alone i cs' (next b) t = some (a, s') := by
  cases cs with
  | nil => simp [alone] at h
  | cons c cs' =>
      cases hf : f i c s with
      | none => simp [alone, hf] at h
      | some r =>
          obtain ⟨b, t⟩ := r
          refine ⟨c, cs', b, t, rfl, hf, ?_⟩
          simpa [alone, hf] using h

theorem alone_ret {i : Nat} {cs : List χ} {a b : α} {s s' : σ}
    (h : alone i cs (.ret a : Prog π σ χ α) s = some (b, s')) :
    cs = [] ∧ b = a ∧ s' = s := by
  cases cs with
  | nil =>
      simp only [alone, Option.some.injEq, Prod.mk.injEq] at h
      exact ⟨rfl, h.1.symm, h.2.symm⟩
  | cons c cs => simp [alone] at h

/-- An atomic run of a sequence is an atomic run of its first part followed
by one of its second part. -/
theorem alone_bind {i : Nat} {p : Prog π σ χ α} {k : α → Prog π σ χ β} :
    ∀ {cs : List χ} {s s' : σ} {b : β},
      alone i cs (p.bind k) s = some (b, s') →
        ∃ cs₁ cs₂ a t, cs = cs₁ ++ cs₂ ∧ alone i cs₁ p s = some (a, t) ∧
          alone i cs₂ (k a) t = some (b, s') := by
  induction p with
  | ret a =>
      intro cs s s' b h
      exact ⟨[], cs, a, s, rfl, rfl, h⟩
  | act pt f next ih =>
      intro cs s s' b h
      obtain ⟨c, cs', x, t, rfl, hf, hrest⟩ := alone_act h
      obtain ⟨cs₁, cs₂, a, u, rfl, h₁, h₂⟩ := ih x hrest
      refine ⟨c :: cs₁, cs₂, a, u, rfl, ?_, h₂⟩
      simpa [alone, hf] using h₁

theorem alone_mapPoint {π' : Type} {g : π → π'} {i : Nat} {p : Prog π σ χ α} :
    ∀ {cs : List χ} {s : σ}, alone i cs (p.mapPoint g) s = alone i cs p s := by
  induction p with
  | ret a =>
      intro cs s
      cases cs <;> rfl
  | act pt f next ih =>
      intro cs s
      cases cs with
      | nil => rfl
      | cons c cs =>
          show alone i (c :: cs) (.act (g pt) f fun b => (next b).mapPoint g) s = _
          unfold alone
          cases f i c s with
          | none => rfl
          | some r => exact ih r.1

/-- An atomic run of a sequence, from those of its parts. -/
theorem alone_bind_of {i : Nat} {p : Prog π σ χ α} {k : α → Prog π σ χ β}
    {a : α} {t : σ} {r : Option (β × σ)} :
    ∀ {l m : List χ} {s : σ}, alone i l p s = some (a, t) →
      alone i m (k a) t = r → alone i (l ++ m) (p.bind k) s = r := by
  induction p with
  | ret b =>
      intro l m s h₁ h₂
      obtain ⟨rfl, rfl, rfl⟩ := alone_ret h₁
      exact h₂
  | act pt f next ih =>
      intro l m s h₁ h₂
      obtain ⟨c, cs, b, u, rfl, hf, hrest⟩ := alone_act h₁
      simpa [alone, hf] using ih b hrest h₂

/-- The same for programs that may fail: the first part succeeds. -/
theorem alone_except_bind_of {ξ : Type} {i : Nat}
    {p : ExceptT ξ (Prog π σ χ) α} {k : α → ExceptT ξ (Prog π σ χ) β} {a : α}
    {s t : σ} {r : Option (Except ξ β × σ)} {l m : List χ}
    (h₁ : alone i l p.run s = some (.ok a, t))
    (h₂ : alone i m (k a).run t = r) :
    alone i (l ++ m) (p >>= k).run s = r := alone_bind_of h₁ h₂

end Prog

/-! ## Systems of threads -/

/-- Which calls may arrive, what becomes of the state when one is cancelled,
and what the environment may do on its own. -/
structure System (π σ χ ε ι α : Type) where
  /-- The program a call runs. -/
  body : ι → Prog π σ χ α
  /-- What cancelling the call of a thread does to the shared state. -/
  cancel : Nat → σ → σ
  /-- A step taken outside every call. -/
  env : ε → σ → Option σ

/-- The shared state and, for each thread number in use, the call it serves
and what is left of its program. -/
structure Config (π σ χ ι α : Type) where
  shared : σ
  thread : Nat → Option (ι × Prog π σ χ α)

namespace Config

/-- No thread is in use yet. -/
def start (s : σ) : Config π σ χ ι α := ⟨s, fun _ => none⟩

/-- Thread `i` now stands at `p`, serving call `q`. -/
def set (c : Config π σ χ ι α) (i : Nat) (q : ι) (p : Prog π σ χ α) :
    Config π σ χ ι α :=
  { c with thread := Function.update c.thread i (some (q, p)) }

/-- Thread number `i` is free again. -/
def clear (c : Config π σ χ ι α) (i : Nat) : Config π σ χ ι α :=
  { c with thread := Function.update c.thread i none }

/-- What thread `i` returned, once it has. -/
def result (c : Config π σ χ ι α) (i : Nat) : Option α :=
  match c.thread i with
  | some (_, .ret a) => some a
  | _ => none

/-- The call thread `i` serves and what it returned, once it has. -/
def answer (c : Config π σ χ ι α) (i : Nat) : Option (ι × α) :=
  match c.thread i with
  | some (q, .ret a) => some (q, a)
  | _ => none

theorem answer_eq {c : Config π σ χ ι α} {i : Nat} {q : ι} {a : α} :
    c.answer i = some (q, a) ↔ c.thread i = some (q, .ret a) := by
  unfold answer
  constructor
  · intro h
    split at h
    · rename_i hthread
      simp only [Option.some.injEq, Prod.mk.injEq] at h
      rw [hthread, h.1, h.2]
    · cases h
  · intro h
    rw [h]

@[simp] theorem set_shared (c : Config π σ χ ι α) (i : Nat) (q : ι)
    (p : Prog π σ χ α) : (c.set i q p).shared = c.shared := rfl

@[simp] theorem set_thread_self (c : Config π σ χ ι α) (i : Nat) (q : ι)
    (p : Prog π σ χ α) : (c.set i q p).thread i = some (q, p) := by
  simp [set]

theorem set_thread_ne (c : Config π σ χ ι α) {i j : Nat} (h : j ≠ i) (q : ι)
    (p : Prog π σ χ α) : (c.set i q p).thread j = c.thread j := by
  simp [set, Function.update_of_ne h]

@[simp] theorem clear_thread_self (c : Config π σ χ ι α) (i : Nat) :
    (c.clear i).thread i = none := by
  simp [clear]

theorem clear_thread_ne (c : Config π σ χ ι α) {i j : Nat} (h : j ≠ i) :
    (c.clear i).thread j = c.thread j := by
  simp [clear, Function.update_of_ne h]

end Config

/-- What the scheduler does next. -/
inductive Event (χ ε ι : Type) where
  | call (i : Nat) (q : ι)
  | run (i : Nat) (choice : χ)
  | cancel (i : Nat)
  | env (e : ε)

/-- The runs a theorem speaks about: which steps of threads (by number, call,
point, choice and the states before and after), which cancellations and which
steps of the environment they may contain. -/
structure Filter (π σ χ ε ι : Type) where
  run : Nat → ι → π → χ → σ → σ → Prop
  cancel : Nat → ι → Prop
  env : ε → σ → σ → Prop

/-- Every run. -/
def Filter.all : Filter π σ χ ε ι :=
  ⟨fun _ _ _ _ _ _ => True, fun _ _ => True, fun _ _ _ => True⟩

/-- Steps from states that `R` relates to `d`. -/
def Filter.toward (F : Filter π σ χ ε ι) (R : σ → σ → Prop) (d : σ) :
    Filter π σ χ ε ι where
  run i q pt ch s s' := F.run i q pt ch s s' ∧ R s d
  cancel := F.cancel
  env e s s' := F.env e s s' ∧ R s d

/-- A test of the steps of an executed schedule. -/
structure Check (π σ χ ε ι : Type) where
  run : Nat → ι → π → χ → σ → σ → Bool
  cancel : Nat → ι → Bool
  env : ε → σ → σ → Bool

/-- Every step passes. -/
def Check.all : Check π σ χ ε ι :=
  ⟨fun _ _ _ _ _ _ => true, fun _ _ => true, fun _ _ _ => true⟩

/-- What passes the test satisfies the filter. -/
structure Check.Implies (k : Check π σ χ ε ι) (F : Filter π σ χ ε ι) : Prop where
  run : ∀ {i q pt ch s s'}, k.run i q pt ch s s' = true → F.run i q pt ch s s'
  cancel : ∀ {i q}, k.cancel i q = true → F.cancel i q
  env : ∀ {e s s'}, k.env e s s' = true → F.env e s s'

/-- The runs whose steps pass a test. -/
def Check.filter (k : Check π σ χ ε ι) : Filter π σ χ ε ι :=
  ⟨fun i q pt ch s s' => k.run i q pt ch s s' = true, fun i q => k.cancel i q = true,
    fun e s s' => k.env e s s' = true⟩

theorem Check.implies_filter (k : Check π σ χ ε ι) : k.Implies k.filter :=
  ⟨id, id, id⟩

/-- Every step of a call passes, and none of the environment. -/
def Check.calls : Check π σ χ ε ι :=
  ⟨fun _ _ _ _ _ _ => true, fun _ _ => true, fun _ _ _ => false⟩

theorem Check.calls_implies {F : Filter π σ χ ε ι}
    (hrun : ∀ {i q pt ch s s'}, F.run i q pt ch s s')
    (hcancel : ∀ {i q}, F.cancel i q) :
    (Check.calls : Check π σ χ ε ι).Implies F :=
  ⟨fun _ => hrun, fun _ => hcancel, fun h => absurd h Bool.false_ne_true⟩

theorem Check.implies_all (k : Check π σ χ ε ι) : k.Implies .all :=
  ⟨fun _ => trivial, fun _ => trivial, fun _ => trivial⟩

namespace System

variable (M : System π σ χ ε ι α) (F : Filter π σ χ ε ι)

/-- One step of the system: a call arrives on an unused thread number, a
thread takes the step it stands at, its call is cancelled, or the environment
does something. -/
inductive Step : Config π σ χ ι α → Config π σ χ ι α → Prop
  | call {c : Config π σ χ ι α} {i : Nat} {q : ι} (free : c.thread i = none) :
      Step c (c.set i q (M.body q))
  | run {c : Config π σ χ ι α} {i : Nat} {q : ι} {β : Type} {pt : π}
      {f : Action σ χ β} {next : β → Prog π σ χ α} {ch : χ} {b : β} {s' : σ}
      (stands : c.thread i = some (q, .act pt f next))
      (takes : f i ch c.shared = some (b, s'))
      (allowed : F.run i q pt ch c.shared s') :
      Step c (Config.set ⟨s', c.thread⟩ i q (next b))
  | cancel {c : Config π σ χ ι α} {i : Nat} {q : ι} {p : Prog π σ χ α}
      (stands : c.thread i = some (q, p)) (allowed : F.cancel i q) :
      Step c (Config.clear ⟨M.cancel i c.shared, c.thread⟩ i)
  | env {c : Config π σ χ ι α} {e : ε} {s' : σ}
      (takes : M.env e c.shared = some s')
      (allowed : F.env e c.shared s') : Step c ⟨s', c.thread⟩

/-- A run of the system: any number of steps. -/
abbrev Reaches : Config π σ χ ι α → Config π σ χ ι α → Prop :=
  Relation.ReflTransGen (M.Step F)

/-- A step that drops a call only where `C` allows it. -/
def StepIf (C : Nat → σ → Prop) (c d : Config π σ χ ι α) : Prop :=
  M.Step F c d ∧ ∀ i, c.thread i ≠ none → d.thread i = none → C i c.shared

/-- A run of such steps. -/
abbrev ReachesIf (C : Nat → σ → Prop) :
    Config π σ χ ι α → Config π σ χ ι α → Prop :=
  Relation.ReflTransGen (M.StepIf F C)

variable {M F}

theorem ReachesIf.reaches {C : Nat → σ → Prop} {c d : Config π σ χ ι α}
    (h : M.ReachesIf F C c d) : M.Reaches F c d :=
  Relation.ReflTransGen.mono (fun _ _ hstep => hstep.1) _ _ h

/-- A weaker restriction admits more runs. -/
theorem Reaches.mono {G : Filter π σ χ ε ι} {c d : Config π σ χ ι α}
    (hrun : ∀ {i q pt ch s s'}, F.run i q pt ch s s' → G.run i q pt ch s s')
    (hcancel : ∀ {i q}, F.cancel i q → G.cancel i q)
    (henv : ∀ {e s s'}, F.env e s s' → G.env e s s')
    (h : M.Reaches F c d) : M.Reaches G c d := by
  refine Relation.ReflTransGen.mono (fun _ _ hstep => ?_) _ _ h
  cases hstep with
  | call free => exact .call free
  | run stands takes allowed => exact .run stands takes (hrun allowed)
  | cancel stands allowed => exact .cancel stands (hcancel allowed)
  | env takes allowed => exact .env takes (henv allowed)

/-- A run whose states all lead to its last one. -/
theorem Reaches.toward {R : σ → σ → Prop} {c d : Config π σ χ ι α}
    (hR : ∀ {e}, M.Reaches F c e → M.Reaches F e d → R e.shared d.shared)
    (h : M.Reaches F c d) : M.Reaches (F.toward R d.shared) c d := by
  suffices hrest : ∀ {e}, M.Reaches F e d → M.Reaches F c e →
      M.Reaches (F.toward R d.shared) e d from hrest h .refl
  intro e he
  induction he using Relation.ReflTransGen.head_induction_on with
  | refl => exact fun _ => .refl
  | @head e e' hstep hrest ih =>
      intro hbefore
      have hlead : R e.shared d.shared :=
        hR hbefore (Relation.ReflTransGen.head hstep hrest)
      refine Relation.ReflTransGen.head ?_ (ih (hbefore.tail hstep))
      cases hstep with
      | call free => exact .call free
      | run stands takes allowed => exact .run stands takes ⟨allowed, hlead⟩
      | cancel stands allowed => exact .cancel stands allowed
      | env takes allowed => exact .env takes ⟨allowed, hlead⟩

/-- A run in which no call is dropped. -/
theorem Reaches.undropped {G : Filter π σ χ ε ι} {C : Nat → σ → Prop}
    {c d : Config π σ χ ι α}
    (hrun : ∀ {i q pt ch s s'}, F.run i q pt ch s s' → G.run i q pt ch s s')
    (henv : ∀ {e s s'}, F.env e s s' → G.env e s s')
    (hkept : ∀ {i q}, ¬ F.cancel i q) (h : M.Reaches F c d) :
    M.ReachesIf G C c d := by
  have hset : ∀ {x : Config π σ χ ι α} {i j : Nat} {q : ι} {p : Prog π σ χ α},
      x.thread j ≠ none → (x.set i q p).thread j ≠ none := by
    intro x i j q p hj
    by_cases hji : j = i
    · subst hji
      simp
    · rwa [Config.set_thread_ne x hji]
  refine Relation.ReflTransGen.mono (fun x y hstep => ?_) _ _ h
  cases hstep with
  | call free => exact ⟨.call free, fun j hj hnone => absurd hnone (hset hj)⟩
  | @run i q _ pt f next ch b s' stands takes allowed =>
      exact ⟨.run stands takes (hrun allowed), fun j hj hnone =>
        absurd hnone (hset (x := ⟨s', x.thread⟩) hj)⟩
  | cancel stands allowed => exact absurd allowed hkept
  | env takes allowed =>
      exact ⟨.env takes (henv allowed), fun j hj hnone => absurd hnone hj⟩

/-- A call arrives; its program is known in another form. -/
theorem Reaches.called {c d : Config π σ χ ι α} {i : Nat} {q : ι}
    {p : Prog π σ χ α} (h : M.Reaches F c d) (hfree : d.thread i = none)
    (hbody : M.body q = p) : M.Reaches F c (d.set i q p) := by
  subst hbody
  exact h.tail (.call hfree)

/-! ## Executing a schedule -/

/-- The step an event asks for, if the configuration and the check admit it. -/
def next (M : System π σ χ ε ι α) (k : Check π σ χ ε ι)
    (c : Config π σ χ ι α) : Event χ ε ι → Option (Config π σ χ ι α)
  | .call i q =>
      match c.thread i with
      | none => some (c.set i q (M.body q))
      | some _ => none
  | .run i ch =>
      match c.thread i with
      | some (q, .act pt f next) =>
          match f i ch c.shared with
          | some (b, s') =>
              if k.run i q pt ch c.shared s' then
                some (Config.set ⟨s', c.thread⟩ i q (next b))
              else none
          | none => none
      | _ => none
  | .cancel i =>
      match c.thread i with
      | some (q, _) =>
          if k.cancel i q then
            some (Config.clear ⟨M.cancel i c.shared, c.thread⟩ i)
          else none
      | none => none
  | .env e =>
      match M.env e c.shared with
      | some s' => if k.env e c.shared s' then some ⟨s', c.thread⟩ else none
      | none => none

/-- Follow a schedule. -/
def exec (M : System π σ χ ε ι α) (k : Check π σ χ ε ι) :
    Config π σ χ ι α → List (Event χ ε ι) → Option (Config π σ χ ι α)
  | c, [] => some c
  | c, e :: es =>
      match M.next k c e with
      | some d => exec M k d es
      | none => none

variable {k : Check π σ χ ε ι}

theorem next_step (hk : k.Implies F) {c d : Config π σ χ ι α}
    {e : Event χ ε ι} (h : M.next k c e = some d) : M.Step F c d := by
  cases e with
  | call i q =>
      simp only [next] at h
      split at h
      · rename_i hfree
        simp only [Option.some.injEq] at h
        subst h
        exact .call hfree
      · cases h
  | run i ch =>
      simp only [next] at h
      split at h
      · rename_i q β pt f next hstands
        split at h
        · rename_i b s' htakes
          split at h
          · rename_i hok
            simp only [Option.some.injEq] at h
            subst h
            exact .run hstands htakes (hk.run hok)
          · cases h
        · cases h
      · cases h
  | cancel i =>
      simp only [next] at h
      split at h
      · rename_i q p hstands
        split at h
        · rename_i hok
          simp only [Option.some.injEq] at h
          subst h
          exact .cancel hstands (hk.cancel hok)
        · cases h
      · cases h
  | env e =>
      simp only [next] at h
      split at h
      · rename_i s' htakes
        split at h
        · rename_i hok
          simp only [Option.some.injEq] at h
          subst h
          exact .env htakes (hk.env hok)
        · cases h
      · cases h

/-- An event other than a call leaves an unused thread number unused. -/
theorem next_unused {c d : Config π σ χ ι α} {e : Event χ ε ι} {j : Nat}
    (h : M.next k c e = some d) (hcall : ∀ q, e ≠ .call j q)
    (hfree : c.thread j = none) : d.thread j = none := by
  cases e with
  | call i q =>
      have hji : j ≠ i := fun hji => hcall q (by rw [hji])
      simp only [next] at h
      split at h
      · cases h
        rw [Config.set_thread_ne _ hji]
        exact hfree
      · cases h
  | run i ch =>
      simp only [next] at h
      split at h
      · rename_i hstands
        split at h
        · split at h
          · cases h
            rw [Config.set_thread_ne _ fun hji => by simp [← hji, hfree] at hstands]
            exact hfree
          · cases h
        · cases h
      · cases h
  | cancel i =>
      simp only [next] at h
      split at h
      · rename_i hstands
        split at h
        · cases h
          rw [Config.clear_thread_ne _ fun hji => by simp [← hji, hfree] at hstands]
          exact hfree
        · cases h
      · cases h
  | env e =>
      simp only [next] at h
      split at h
      · split at h
        · cases h
          exact hfree
        · cases h
      · cases h

/-- A schedule is followed event by event. -/
theorem exec_cons {c d : Config π σ χ ι α} {e : Event χ ε ι}
    {es : List (Event χ ε ι)} (h : M.exec k c (e :: es) = some d) :
    ∃ m, M.next k c e = some m ∧ M.exec k m es = some d := by
  simp only [exec] at h
  split at h
  · exact ⟨_, ‹_›, h⟩
  · cases h

/-- A schedule that can be followed is a run. -/
theorem exec_reaches (hk : k.Implies F) :
    ∀ {es : List (Event χ ε ι)} {c d : Config π σ χ ι α},
      M.exec k c es = some d → M.Reaches F c d := by
  intro es
  induction es with
  | nil =>
      intro c d h
      simp only [exec, Option.some.injEq] at h
      subst h
      exact Relation.ReflTransGen.refl
  | cons e es ih =>
      intro c d h
      obtain ⟨m, hm, hd⟩ := exec_cons h
      exact (Relation.ReflTransGen.single (next_step hk hm)).trans (ih hd)

/-- Steps of threads leave every thread with the call it serves. -/
theorem next_run_query {c d : Config π σ χ ι α} {i j : Nat} {ch : χ}
    (h : M.next k c (.run j ch) = some d) :
    (d.thread i).map Prod.fst = (c.thread i).map Prod.fst := by
  simp only [next] at h
  split at h
  · rename_i q β pt f next hstands
    split at h
    · rename_i b s' htakes
      split at h
      · cases h
        by_cases hij : i = j
        · subst hij
          rw [Config.set_thread_self, hstands]
          rfl
        · rw [Config.set_thread_ne _ hij]
      · cases h
    · cases h
  · cases h

theorem exec_runs_query {i : Nat} :
    ∀ {rs : List (Nat × χ)} {c d : Config π σ χ ι α},
      M.exec k c (rs.map fun r => .run r.1 r.2) = some d →
      (d.thread i).map Prod.fst = (c.thread i).map Prod.fst := by
  intro rs
  induction rs with
  | nil =>
      intro c d h
      obtain rfl := Option.some.inj h
      rfl
  | cons r rs ih =>
      intro c d h
      simp only [List.map_cons, exec] at h
      split at h
      · rename_i m hm
        exact (ih h).trans (next_run_query hm)
      · cases h

/-! ## Atomic calls -/

/-- One step of a system whose calls are atomic: a call runs from its first
step to its last, or the environment does something. -/
inductive AtomicStep (M : System π σ χ ε ι α) : σ → σ → Prop
  | call {i : Nat} {q : ι} {l : List χ} {a : α} {s s' : σ}
      (runs : (M.body q).alone i l s = some (a, s')) : AtomicStep M s s'
  | env {e : ε} {s s' : σ} (takes : M.env e s = some s') : AtomicStep M s s'

/-- A run of atomic calls. -/
abbrev AtomicReaches (M : System π σ χ ε ι α) : σ → σ → Prop :=
  Relation.ReflTransGen M.AtomicStep

/-- A call with its thread and its choices, or a step of the environment. -/
inductive AtomicEvent (χ ε ι : Type) where
  | call (i : Nat) (q : ι) (choices : List χ)
  | env (e : ε)

/-- Follow a history of atomic calls. -/
def execAtomic (M : System π σ χ ε ι α) : σ → List (AtomicEvent χ ε ι) → Option σ
  | s, [] => some s
  | s, .call i q cs :: es =>
      match (M.body q).alone i cs s with
      | some (_, s') => execAtomic M s' es
      | none => none
  | s, .env e :: es =>
      match M.env e s with
      | some s' => execAtomic M s' es
      | none => none

/-- A history that can be followed is a run. -/
theorem execAtomic_reaches :
    ∀ {es : List (AtomicEvent χ ε ι)} {s s' : σ},
      M.execAtomic s es = some s' → M.AtomicReaches s s' := by
  intro es
  induction es with
  | nil =>
      intro s s' h
      simp only [execAtomic, Option.some.injEq] at h
      subst h
      exact Relation.ReflTransGen.refl
  | cons e es ih =>
      intro s s' h
      cases e with
      | call i q cs =>
          simp only [execAtomic] at h
          split at h
          · rename_i a t hruns
            exact (Relation.ReflTransGen.single (.call hruns)).trans (ih h)
          · cases h
      | env e =>
          simp only [execAtomic] at h
          split at h
          · rename_i t htakes
            exact (Relation.ReflTransGen.single (.env htakes)).trans (ih h)
          · cases h

end System

end DpopAuth.Verified.Resumption
