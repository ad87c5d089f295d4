import DpopAuth.Verified.Resumption

/-!
# Rely/guarantee outlines for concurrent programs

A `Logic` fixes what is true of the shared state between any two steps
(`inv`), and what a step of thread `i` or of the environment may do to it
(`guar`, `env`).  An assertion about thread `i` is `Stable` when no step of
another thread and no step of the environment can make it false.

An `Outline` of a program is a proof outline in the sense of Owicki and
Gries: a stable assertion at every point where the program can be
interrupted, such that each step keeps the invariant, stays within the
guarantee and leads to the next assertion.  `sound` is the one induction over
runs: with an outline for every call, each reachable configuration satisfies
the invariant, and every thread stands at a point of its outline.

An outline also speaks about atomic runs: `Outline.alone`.  What holds of
atomic runs only is outlined in `Logic.solo`, the logic in which nobody else
moves; every assertion is stable in it, and an outline is a Hoare triple.

## Main results

* `Outline.act`, `Outline.bind`, `Outline.weaken` — the rules of the logic.
* `sound` — every reachable configuration is `Good`.
* `sound_within` — the facts of one logic, as a restriction for another.
* `sound_trans` — a transitive relation kept by each step holds along runs.
* `Outline.alone`, `Triple.alone` — atomic runs.
-/

namespace DpopAuth.Verified.RelyGuarantee

open DpopAuth.Verified.Resumption

variable {π σ χ ε ι α β : Type}

/-! ## Assertions -/

/-- An invariant of the shared state and bounds on what one step does. -/
structure Logic (σ : Type) where
  /-- What holds between any two steps. -/
  inv : σ → Prop
  /-- What a step of thread `i` does. -/
  guar : Nat → σ → σ → Prop
  /-- What a step of the environment does. -/
  env : σ → σ → Prop

/-- `P` is a safe assertion for thread `i`: nobody else can falsify it. -/
structure Stable (L : Logic σ) (i : Nat) (P : σ → Prop) : Prop where
  thread : ∀ {j : Nat} {s s' : σ}, j ≠ i → L.inv s → L.inv s' →
    L.guar j s s' → P s → P s'
  env : ∀ {s s' : σ}, L.inv s → L.inv s' → L.env s s' → P s → P s'

variable {L : Logic σ} {i : Nat}

theorem Stable.and {P Q : σ → Prop} (hP : Stable L i P) (hQ : Stable L i Q) :
    Stable L i fun s => P s ∧ Q s where
  thread hne h h' hg hs := ⟨hP.thread hne h h' hg hs.1, hQ.thread hne h h' hg hs.2⟩
  env h h' he hs := ⟨hP.env h h' he hs.1, hQ.env h h' he hs.2⟩

theorem Stable.exists {κ : Sort _} {P : κ → σ → Prop}
    (hP : ∀ k, Stable L i (P k)) : Stable L i fun s => ∃ k, P k s where
  thread hne h h' hg := fun ⟨k, hs⟩ => ⟨k, (hP k).thread hne h h' hg hs⟩
  env h h' he := fun ⟨k, hs⟩ => ⟨k, (hP k).env h h' he hs⟩

theorem Stable.forall {κ : Sort _} {P : κ → σ → Prop}
    (hP : ∀ k, Stable L i (P k)) : Stable L i fun s => ∀ k, P k s where
  thread hne h h' hg hs k := (hP k).thread hne h h' hg (hs k)
  env h h' he hs k := (hP k).env h h' he (hs k)

theorem Stable.const (p : Prop) : Stable L i fun _ => p :=
  ⟨fun _ _ _ _ hs => hs, fun _ _ _ hs => hs⟩

/-! ## Outlines -/

/--
A proof outline for the rest of a program of thread `i`, started under `P`:
each step keeps the invariant, obeys the guarantee and establishes a stable
assertion for what follows; on return, `Q` holds.

`F` restricts the steps the outline has to answer for, as in `Filter.run`.
-/
def Outline (L : Logic σ) (F : π → χ → σ → σ → Prop) (i : Nat) :
    Prog π σ χ α → (σ → Prop) → (α → σ → Prop) → Prop
  | .ret a, P, Q => ∀ s, L.inv s → P s → Q a s
  | .act pt f next, P, Q => ∀ s ch b s', L.inv s → P s →
      f i ch s = some (b, s') → F pt ch s s' →
        L.inv s' ∧ L.guar i s s' ∧
          ∃ P', Stable L i P' ∧ P' s' ∧ Outline L F i (next b) P' Q

variable {F : π → χ → σ → σ → Prop} {P P' : σ → Prop} {Q Q' : α → σ → Prop}

/-- The rule of one step, with the assertion after it given by its answer. -/
theorem Outline.act {pt : π} {f : Action σ χ β} {next : β → Prog π σ χ α}
    (R : β → σ → Prop) (hR : ∀ b, Stable L i (R b))
    (step : ∀ {s ch b s'}, L.inv s → P s → f i ch s = some (b, s') →
      F pt ch s s' → L.inv s' ∧ L.guar i s s' ∧ R b s')
    (rest : ∀ b, Outline L F i (next b) (R b) Q) :
    Outline L F i (.act pt f next) P Q := by
  intro s ch b s' hs hP hf hF
  obtain ⟨hinv, hguar, hpost⟩ := step hs hP hf hF
  exact ⟨hinv, hguar, R b, hR b, hpost, rest b⟩

/-- A step on its own. -/
theorem Outline.step {pt : π} {f : Action σ χ α} (hQ : ∀ a, Stable L i (Q a))
    (step : ∀ {s ch a s'}, L.inv s → P s → f i ch s = some (a, s') →
      F pt ch s s' → L.inv s' ∧ L.guar i s s' ∧ Q a s') :
    Outline L F i (Prog.step pt f) P Q :=
  .act Q hQ step fun _ _ _ hs => hs

theorem Outline.ret {a : α} (h : ∀ s, L.inv s → P s → Q a s) :
    Outline L F i (.ret a) P Q := h

/-- A stronger assertion in front. -/
theorem Outline.weaken {p : Prog π σ χ α}
    (hP : ∀ s, L.inv s → P' s → P s) (h : Outline L F i p P Q) :
    Outline L F i p P' Q := by
  cases p with
  | ret a => exact fun s hs hP' => h s hs (hP s hs hP')
  | act pt f next =>
      exact fun s ch b s' hs hP' => h s ch b s' hs (hP s hs hP')

/-- A weaker postcondition. -/
theorem Outline.post {p : Prog π σ χ α}
    (hQ : ∀ a s, L.inv s → Q a s → Q' a s) :
    ∀ {P : σ → Prop}, Outline L F i p P Q → Outline L F i p P Q' := by
  induction p with
  | ret a => exact fun h s hs hP => hQ a s hs (h s hs hP)
  | act pt f next ih =>
      intro P h s ch b s' hs hP hf hF
      obtain ⟨hinv, hguar, R, hR, hpost, hrest⟩ := h s ch b s' hs hP hf hF
      exact ⟨hinv, hguar, R, hR, hpost, ih b hrest⟩

/-- Fewer steps to answer for. -/
theorem Outline.restrict {G : π → χ → σ → σ → Prop} {p : Prog π σ χ α}
    (hG : ∀ {pt ch s s'}, G pt ch s s' → F pt ch s s') :
    ∀ {P : σ → Prop}, Outline L F i p P Q → Outline L G i p P Q := by
  induction p with
  | ret a => exact fun h => h
  | act pt f next ih =>
      intro P h s ch b s' hs hP hf hstep
      obtain ⟨hinv, hguar, R, hR, hpost, hrest⟩ := h s ch b s' hs hP hf (hG hstep)
      exact ⟨hinv, hguar, R, hR, hpost, ih b hrest⟩

/-- Two outlines of one program, side by side. -/
theorem Outline.and {p : Prog π σ χ α} {Q' : α → σ → Prop} :
    ∀ {P P' : σ → Prop}, Outline L F i p P Q → Outline L F i p P' Q' →
      Outline L F i p (fun s => P s ∧ P' s) fun a s => Q a s ∧ Q' a s := by
  induction p with
  | ret a => exact fun h h' s hs hP => ⟨h s hs hP.1, h' s hs hP.2⟩
  | act pt f next ih =>
      intro P P' h h' s ch b s' hs hP hf hF
      obtain ⟨hinv, hguar, R, hR, hpost, hrest⟩ := h s ch b s' hs hP.1 hf hF
      obtain ⟨-, -, R', hR', hpost', hrest'⟩ := h' s ch b s' hs hP.2 hf hF
      exact ⟨hinv, hguar, _, hR.and hR', ⟨hpost, hpost'⟩, ih b hrest hrest'⟩

/-- A fact that no step can make false is carried along. -/
theorem Outline.carry {K : σ → Prop} {p : Prog π σ χ α} (hK : Stable L i K)
    (hkeep : ∀ {s s'}, L.inv s → L.guar i s s' → K s → K s') :
    ∀ {P : σ → Prop}, Outline L F i p P Q →
      Outline L F i p (fun s => P s ∧ K s) fun a s => Q a s ∧ K s := by
  induction p with
  | ret a => exact fun h s hs hP => ⟨h s hs hP.1, hP.2⟩
  | act pt f next ih =>
      intro P h s ch b s' hs hP hf hF
      obtain ⟨hinv, hguar, R, hR, hpost, hrest⟩ := h s ch b s' hs hP.1 hf hF
      exact ⟨hinv, hguar, _, hR.and hK, ⟨hpost, hkeep hs hguar hP.2⟩, ih b hrest⟩

/-- A fact that no step of the program makes false is carried along. -/
theorem Outline.beside {K : σ → Prop} {p : Prog π σ χ α} (hK : Stable L i K)
    (hkeep : p.Every fun f => ∀ ⦃ch s b s'⦄, f i ch s = some (b, s') →
      K s → K s') :
    ∀ {P : σ → Prop}, Outline L F i p P Q →
      Outline L F i p (fun s => P s ∧ K s) fun a s => Q a s ∧ K s := by
  induction p with
  | ret a => exact fun h s hs hP => ⟨h s hs hP.1, hP.2⟩
  | act pt f next ih =>
      intro P h s ch b s' hs hP hf hF
      obtain ⟨hinv, hguar, R, hR, hpost, hrest⟩ := h s ch b s' hs hP.1 hf hF
      exact ⟨hinv, hguar, _, hR.and hK, ⟨hpost, hkeep.1 hf hP.2⟩,
        ih b (hkeep.2 b) hrest⟩

/-- Outlines compose: what the first program establishes on return starts
the second. -/
theorem Outline.bind {p : Prog π σ χ β} {k : β → Prog π σ χ α}
    {R : β → σ → Prop} (rest : ∀ b, Outline L F i (k b) (R b) Q) :
    ∀ {P : σ → Prop}, Outline L F i p P R → Outline L F i (p.bind k) P Q := by
  induction p with
  | ret b => exact fun h => (rest b).weaken h
  | act pt f next ih =>
      intro P h s ch b s' hs hP hf hF
      obtain ⟨hinv, hguar, R', hR', hpost, hrest⟩ := h s ch b s' hs hP hf hF
      exact ⟨hinv, hguar, R', hR', hpost, ih b hrest⟩

/-- Renaming the points renames the restriction. -/
theorem Outline.mapPoint {π' : Type} {g : π → π'}
    {G : π' → χ → σ → σ → Prop} {p : Prog π σ χ α} :
    ∀ {P : σ → Prop}, Outline L (fun pt => G (g pt)) i p P Q →
      Outline L G i (p.mapPoint g) P Q := by
  induction p with
  | ret a => exact fun h => h
  | act pt f next ih =>
      intro P h s ch b s' hs hP hf hG
      obtain ⟨hinv, hguar, R, hR, hpost, hrest⟩ := h s ch b s' hs hP hf hG
      exact ⟨hinv, hguar, R, hR, hpost, ih b hrest⟩

/-- An outline from each of the states an assertion allows. -/
theorem Outline.of_states {p : Prog π σ χ α}
    (h : ∀ s, P s → Outline L F i p (fun s' => s' = s) Q) :
    Outline L F i p P Q := by
  cases p with
  | ret a => exact fun s hs hP => h s hP s hs rfl
  | act pt f next =>
      exact fun s ch b s' hs hP => h s hP s ch b s' hs rfl

/-- A case distinction on a fact that does not depend on the state. -/
theorem Outline.of_prop {p : Prog π σ χ α} {φ : Prop}
    (h : φ → Outline L F i p P Q) : Outline L F i p (fun s => φ ∧ P s) Q := by
  cases p with
  | ret a => exact fun s hs hP => h hP.1 s hs hP.2
  | act pt f next =>
      exact fun s ch b s' hs hP => h hP.1 s ch b s' hs hP.2

/-- The same for an assertion that names a witness. -/
theorem Outline.of_exists {p : Prog π σ χ α} {κ : Sort _}
    {R : κ → σ → Prop} (h : ∀ k, Outline L F i p (R k) Q) :
    Outline L F i p (fun s => ∃ k, R k s) Q := by
  cases p with
  | ret a => exact fun s hs ⟨k, hk⟩ => h k s hs hk
  | act pt f next =>
      exact fun s ch b s' hs ⟨k, hk⟩ => h k s ch b s' hs hk

/-- A program none of whose steps disturbs `P`. -/
theorem Outline.every {p : Prog π σ χ α} (hP : Stable L i P)
    (h : p.Every fun f => ∀ {s ch b s'}, L.inv s → P s →
      f i ch s = some (b, s') → L.inv s' ∧ L.guar i s s' ∧ P s') :
    Outline L F i p P fun _ => P := by
  induction p with
  | ret a => exact fun _ _ hs => hs
  | act pt f next ih =>
      intro s ch b s' hs hPs hf _
      obtain ⟨hinv, hguar, hpost⟩ := h.1 hs hPs hf
      exact ⟨hinv, hguar, P, hP, hpost, ih b (h.2 b)⟩

/-- A program of which only the restriction is known: its steps keep `P`
because of what they do, whatever they are. -/
theorem Outline.keep_of_filter {p : Prog π σ χ α} (hP : Stable L i P)
    (h : ∀ {pt ch s s'}, L.inv s → P s → F pt ch s s' →
      L.inv s' ∧ L.guar i s s' ∧ P s') :
    Outline L F i p P fun _ => P := by
  induction p with
  | ret a => exact fun _ _ hs => hs
  | act pt f next ih =>
      intro s ch b s' hs hPs _ hF
      obtain ⟨hinv, hguar, hpost⟩ := h hs hPs hF
      exact ⟨hinv, hguar, P, hP, hpost, ih b⟩

/-- A program each of whose steps keeps `P`, given what the restriction knows
of it. -/
theorem Outline.every_filter {p : Prog π σ χ α} (hP : Stable L i P)
    (h : p.Every fun f => ∀ ⦃pt ch s b s'⦄, L.inv s → P s →
      f i ch s = some (b, s') → F pt ch s s' →
        L.inv s' ∧ L.guar i s s' ∧ P s') :
    Outline L F i p P fun _ => P := by
  induction p with
  | ret a => exact fun _ _ hs => hs
  | act pt f next ih =>
      intro s ch b s' hs hPs hf hF
      obtain ⟨hinv, hguar, hpost⟩ := h.1 hs hPs hf hF
      exact ⟨hinv, hguar, P, hP, hpost, ih b (h.2 b)⟩

/-- The same, where nothing else is of interest. -/
theorem Outline.of_filter {p : Prog π σ χ α} {P : σ → Prop}
    (h : ∀ {pt ch s s'}, L.inv s → F pt ch s s' → L.inv s' ∧ L.guar i s s') :
    Outline L F i p P fun _ _ => True := by
  refine Outline.weaken (P := fun _ => True) (fun _ _ _ => trivial)
    (Outline.keep_of_filter (.const True) fun hs _ hF => ?_)
  obtain ⟨hinv, hguar⟩ := h hs hF
  exact ⟨hinv, hguar, trivial⟩

/-! ## Programs that may fail -/

variable {ξ : Type}

/-- `R` on success, `E` on failure. -/
def exceptPost (R : α → σ → Prop) (E : σ → Prop) : Except ξ α → σ → Prop
  | .ok a, s => R a s
  | .error _, s => E s

theorem exceptPost_imp {R R' : α → σ → Prop} {E E' : σ → Prop}
    {r : Except ξ α} {s : σ} (hR : ∀ a, R a s → R' a s) (hE : E s → E' s)
    (h : exceptPost R E r s) : exceptPost R' E' r s := by
  cases r with
  | error e => exact hE h
  | ok a => exact hR a h

theorem Stable.exceptPost {R : α → σ → Prop} {E : σ → Prop}
    (hR : ∀ a, Stable L i (R a)) (hE : Stable L i E) (r : Except ξ α) :
    Stable L i (RelyGuarantee.exceptPost R E r) := by
  cases r with
  | error e => exact hE
  | ok a => exact hR a

theorem Outline.throw {e : ξ} {P : σ → Prop} {R : α → σ → Prop} {E : σ → Prop}
    (h : ∀ s, L.inv s → P s → E s) :
    Outline L F i (throw e : ExceptT ξ (Prog π σ χ) α).run P (exceptPost R E) :=
  h

theorem Outline.pure {a : α} {P : σ → Prop} {R : α → σ → Prop} {E : σ → Prop}
    (h : ∀ s, L.inv s → P s → R a s) :
    Outline L F i (pure a : ExceptT ξ (Prog π σ χ) α).run P
      (exceptPost R E) :=
  h

/-- A program that cannot fail, among programs that may. -/
theorem Outline.lift {p : Prog π σ χ α} {P : σ → Prop} {R : α → σ → Prop}
    {E : σ → Prop} (h : Outline L F i p P R) :
    Outline L F i (liftM p : ExceptT ξ (Prog π σ χ) α).run P
      (exceptPost R E) := by
  show Outline L F i (p.bind fun a => .ret (Except.ok a : Except ξ α)) P
    (exceptPost R E)
  refine Outline.bind (R := R) (fun a => ?_) h
  exact fun _ _ hs => hs

/-- A function applied to the answer. -/
theorem Outline.except_map {p : ExceptT ξ (Prog π σ χ) β} {f : β → α}
    {P : σ → Prop} {R : α → σ → Prop} {E : σ → Prop}
    (h : Outline L F i p.run P (exceptPost (fun b => R (f b)) E)) :
    Outline L F i (f <$> p).run P (exceptPost R E) := by
  refine Outline.bind (R := exceptPost (fun b => R (f b)) E) (fun r => ?_) h
  cases r with
  | error e => exact fun _ _ hs => hs
  | ok a => exact fun _ _ hs => hs

/-- Sequencing with early exit: a failure of the first part ends the whole. -/
theorem Outline.except_bind {p : ExceptT ξ (Prog π σ χ) β}
    {k : β → ExceptT ξ (Prog π σ χ) α} {P : σ → Prop} {R : β → σ → Prop}
    {S : α → σ → Prop} {E : σ → Prop}
    (hp : Outline L F i p.run P (exceptPost R E))
    (rest : ∀ b, Outline L F i (k b).run (R b) (exceptPost S E)) :
    Outline L F i (p >>= k).run P (exceptPost S E) := by
  refine Outline.bind (R := exceptPost R E) (fun r => ?_) hp
  cases r with
  | error e => exact fun _ _ hs => hs
  | ok b => exact rest b

/-! ## What one thread does -/

/-- The logic, with a further bound on the steps of thread `i`. -/
def Logic.own (L : Logic σ) (i : Nat) (Ψ : σ → σ → Prop) : Logic σ where
  inv := L.inv
  guar j s s' := L.guar j s s' ∧ (j = i → Ψ s s')
  env := L.env

/-- Only the steps of the others matter to thread `i`. -/
theorem Stable.own_iff {Ψ : σ → σ → Prop} {P : σ → Prop} :
    Stable (L.own i Ψ) i P ↔ Stable L i P := by
  constructor
  · exact fun h => ⟨fun hne hs hs' hg =>
      h.thread hne hs hs' ⟨hg, fun heq => absurd heq hne⟩, h.env⟩
  · exact fun h => ⟨fun hne hs hs' hg => h.thread hne hs hs' hg.1, h.env⟩

theorem Outline.of_own {Ψ : σ → σ → Prop} {p : Prog π σ χ α} :
    ∀ {P : σ → Prop}, Outline (L.own i Ψ) F i p P Q → Outline L F i p P Q := by
  induction p with
  | ret a => exact fun h => h
  | act pt f next ih =>
      intro P h s ch b s' hs hP hf hF
      obtain ⟨hinv, hguar, R, hR, hpost, hrest⟩ := h s ch b s' hs hP hf hF
      exact ⟨hinv, hguar.1, R, Stable.own_iff.mp hR, hpost, ih b hrest⟩

theorem Outline.to_own {p : Prog π σ χ α} :
    ∀ {P : σ → Prop}, Outline L F i p P Q →
      Outline (L.own i fun _ _ => True) F i p P Q := by
  induction p with
  | ret a => exact fun h => h
  | act pt f next ih =>
      intro P h s ch b s' hs hP hf hF
      obtain ⟨hinv, hguar, R, hR, hpost, hrest⟩ := h s ch b s' hs hP hf hF
      exact ⟨hinv, ⟨hguar, fun _ => trivial⟩, R, Stable.own_iff.mpr hR, hpost,
        ih b hrest⟩

/-- An outline, beside one that bounds the steps of the thread. -/
theorem Outline.and_own {Ψ : σ → σ → Prop} {p : Prog π σ χ α}
    {Q' : α → σ → Prop} :
    ∀ {P P' : σ → Prop}, Outline L F i p P Q →
      Outline (L.own i Ψ) F i p P' Q' →
        Outline (L.own i Ψ) F i p (fun s => P s ∧ P' s)
          fun a s => Q a s ∧ Q' a s := by
  induction p with
  | ret a => exact fun h h' s hs hP => ⟨h s hs hP.1, h' s hs hP.2⟩
  | act pt f next ih =>
      intro P P' h h' s ch b s' hs hP hf hF
      obtain ⟨hinv, -, R, hR, hpost, hrest⟩ := h s ch b s' hs hP.1 hf hF
      obtain ⟨-, hguar, R', hR', hpost', hrest'⟩ := h' s ch b s' hs hP.2 hf hF
      exact ⟨hinv, hguar, _, Stable.own_iff.mpr (hR.and (Stable.own_iff.mp hR')),
        ⟨hpost, hpost'⟩, ih b hrest hrest'⟩

/-- A program each of whose steps keeps `P` and the bound; the restriction
knows the rest. -/
theorem Outline.every_within {Ψ : σ → σ → Prop} {p : Prog π σ χ α}
    (hP : Stable L i P)
    (hF : ∀ {pt ch s s'}, L.inv s → F pt ch s s' → L.inv s' ∧ L.guar i s s')
    (h : p.Every fun f => ∀ ⦃ch s b s'⦄, f i ch s = some (b, s') →
      P s → P s' ∧ Ψ s s') :
    Outline (L.own i Ψ) F i p P fun _ => P := by
  induction p with
  | ret a => exact fun _ _ hs => hs
  | act pt f next ih =>
      intro s ch b s' hs hPs hf hstep
      obtain ⟨hpost, hown⟩ := h.1 hf hPs
      obtain ⟨hinv, hguar⟩ := hF hs hstep
      exact ⟨hinv, ⟨hguar, fun _ => hown⟩, P, Stable.own_iff.mpr hP, hpost,
        ih b (h.2 b)⟩

/-! ## A further invariant -/

/-- The logic, with a further invariant. -/
def Logic.also (L : Logic σ) (I : σ → Prop) : Logic σ where
  inv s := L.inv s ∧ I s
  guar := L.guar
  env := L.env

theorem Stable.also {I P : σ → Prop} (h : Stable L i P) :
    Stable (L.also I) i P where
  thread hne hs hs' hg := h.thread hne hs.1 hs'.1 hg
  env hs hs' he := h.env hs.1 hs'.1 he

/-- An outline of a program whose steps keep the further invariant. -/
theorem Outline.also {I : σ → Prop} {p : Prog π σ χ α}
    (hp : p.Every fun f => ∀ ⦃ch s b s'⦄, f i ch s = some (b, s') →
      L.inv s → L.guar i s s' → I s → I s') :
    ∀ {P : σ → Prop}, Outline L F i p P Q → Outline (L.also I) F i p P Q := by
  induction p with
  | ret a => exact fun h s hs hP => h s hs.1 hP
  | act pt f next ih =>
      intro P h s ch b s' hs hP hf hF
      obtain ⟨hinv, hguar, R, hR, hpost, hrest⟩ := h s ch b s' hs.1 hP hf hF
      have hI : I s' := hp.1 hf hs.1 hguar hs.2
      exact ⟨⟨hinv, hI⟩, hguar, R, hR.also, hpost, ih b (hp.2 b) hrest⟩

/-! ## Soundness -/

/-- The configurations an outline for every call keeps us in: the invariant
holds, an unused thread number is `Idle`, and every running thread stands at
a stable assertion of its outline. -/
structure Good (L : Logic σ) (F : Filter π σ χ ε ι) (Idle : Nat → σ → Prop)
    (Q : ι → Nat → α → σ → Prop) (c : Config π σ χ ι α) : Prop where
  inv : L.inv c.shared
  idle : ∀ i, c.thread i = none → Idle i c.shared
  stands : ∀ i q p, c.thread i = some (q, p) →
    ∃ P, Stable L i P ∧ P c.shared ∧ Outline L (F.run i q) i p P (Q q i)

/-- The same, where the steps of a thread obey a further bound that depends on
the call it serves. -/
structure GoodOwn (L : Logic σ) (Ψ : ι → σ → σ → Prop) (F : Filter π σ χ ε ι)
    (Idle : Nat → σ → Prop) (Q : ι → Nat → α → σ → Prop)
    (c : Config π σ χ ι α) : Prop where
  inv : L.inv c.shared
  idle : ∀ i, c.thread i = none → Idle i c.shared
  stands : ∀ i q p, c.thread i = some (q, p) →
    ∃ P, Stable L i P ∧ P c.shared ∧
      Outline (L.own i (Ψ q)) (F.run i q) i p P (Q q i)

variable {M : System π σ χ ε ι α} {F : Filter π σ χ ε ι}
  {Idle : Nat → σ → Prop} {Q : ι → Nat → α → σ → Prop}

theorem GoodOwn.of_own {Ψ : ι → σ → σ → Prop} {c : Config π σ χ ι α}
    (h : GoodOwn L Ψ F Idle Q c) : Good L F Idle Q c :=
  ⟨h.inv, h.idle, fun i q p hp => by
    obtain ⟨P, hP, hPs, hout⟩ := h.stands i q p hp
    exact ⟨P, hP, hPs, hout.of_own⟩⟩

theorem Good.to_own {c : Config π σ χ ι α} (h : Good L F Idle Q c) :
    GoodOwn L (fun _ _ _ => True) F Idle Q c :=
  ⟨h.inv, h.idle, fun i q p hp => by
    obtain ⟨P, hP, hPs, hout⟩ := h.stands i q p hp
    exact ⟨P, hP, hPs, hout.to_own⟩⟩

/-- Where a thread has returned, its postcondition holds. -/
theorem Good.result {c : Config π σ χ ι α} (h : Good L F Idle Q c) {i : Nat}
    {q : ι} {a : α} (hret : c.thread i = some (q, .ret a)) :
    Q q i a c.shared := by
  obtain ⟨P, _, hP, hout⟩ := h.stands i q _ hret
  exact hout _ h.inv hP

/-- The start of a run, when every thread number is idle. -/
theorem Good.start {s : σ} (hinv : L.inv s) (hidle : ∀ i, Idle i s) :
    Good L F Idle Q (Config.start s : Config π σ χ ι α) where
  inv := hinv
  idle i _ := hidle i
  stands _ _ _ h := by simp [Config.start] at h

/-- A free thread, followed from here on; of the others only the restriction is
known. -/
theorem Good.fresh {c : Config π σ χ ι α} {j : Nat} (hinv : L.inv c.shared)
    (hidle : ∀ i, c.thread i = none → Idle i c.shared)
    (hfree : c.thread j = none)
    (hF : ∀ {i q pt ch s s'}, L.inv s → F.run i q pt ch s s' →
      L.inv s' ∧ L.guar i s s') :
    Good L F Idle (fun q i a s => i = j → Q q i a s) c where
  inv := hinv
  idle := hidle
  stands i q p hp := by
    refine ⟨fun _ => True, .const True, trivial, ?_⟩
    refine (Outline.of_filter hF).post fun a s _ _ hij => ?_
    rw [hij, hfree] at hp
    cases hp

/-- The restriction `F`, with what `L` says of the steps. -/
def within (F : Filter π σ χ ε ι) (L : Logic σ) : Filter π σ χ ε ι where
  run i q pt ch s s' := F.run i q pt ch s s' ∧ L.inv s' ∧ L.guar i s s'
  cancel := F.cancel
  env e s s' := F.env e s s' ∧ L.inv s' ∧ L.env s s'

section Soundness

variable (hIdle : ∀ i, Stable L i (Idle i))
  (hBody : ∀ i q, Outline L (F.run i q) i (M.body q) (Idle i) (Q q i))
  (hCancel : ∀ {i q s}, L.inv s → F.cancel i q →
    L.inv (M.cancel i s) ∧ L.guar i s (M.cancel i s) ∧ Idle i (M.cancel i s))
  (hEnv : ∀ {e s s'}, L.inv s → M.env e s = some s' → F.env e s s' →
    L.inv s' ∧ L.env s s')

include hIdle hBody hCancel hEnv

omit hBody in
/-- One step keeps the configuration good and is either silent, or a
guaranteed step of one thread that serves a call, or a cancellation, or a step
of the environment. -/
theorem goodOwn_step {Ψ : ι → σ → σ → Prop}
    (hOwn : ∀ i q, Outline (L.own i (Ψ q)) (F.run i q) i (M.body q) (Idle i)
      (Q q i))
    {c d : Config π σ χ ι α} (h : GoodOwn L Ψ F Idle Q c)
    (hstep : M.Step F c d) :
    GoodOwn L Ψ F Idle Q d ∧ (d.shared = c.shared ∨
      (∃ i q p, c.thread i = some (q, p) ∧ L.guar i c.shared d.shared ∧
        (Ψ q c.shared d.shared ∨ d.shared = M.cancel i c.shared)) ∨
      L.env c.shared d.shared) := by
  cases hstep with
  | @call i q free =>
      refine ⟨⟨h.inv, ?_, ?_⟩, .inl rfl⟩
      · intro j hj
        by_cases hji : j = i
        · subst hji
          simp at hj
        · exact h.idle j (by rwa [Config.set_thread_ne c hji] at hj)
      · intro j q' p hj
        by_cases hji : j = i
        · subst hji
          simp only [Config.set_thread_self, Option.some.injEq,
            Prod.mk.injEq] at hj
          obtain ⟨rfl, rfl⟩ := hj
          exact ⟨Idle j, hIdle j, h.idle j free, hOwn j q⟩
        · exact h.stands j q' p (by rwa [Config.set_thread_ne c hji] at hj)
  | @run i q _ pt f next ch b s' stands takes allowed =>
      obtain ⟨P, _, hP, hout⟩ := h.stands i q _ stands
      obtain ⟨hinv, ⟨hguar, hown⟩, P', hP', hpost, hrest⟩ :=
        hout c.shared ch b s' h.inv hP takes allowed
      refine ⟨⟨hinv, ?_, ?_⟩,
        .inr (.inl ⟨i, q, _, stands, hguar, .inl (hown rfl)⟩)⟩
      · intro j hj
        by_cases hji : j = i
        · subst hji
          simp at hj
        · have hfree := Config.set_thread_ne ⟨s', c.thread⟩ hji q (next b)
          exact (hIdle j).thread (Ne.symm hji) h.inv hinv hguar
            (h.idle j (by rw [hfree] at hj; exact hj))
      · intro j q' p hj
        by_cases hji : j = i
        · subst hji
          simp only [Config.set_thread_self, Option.some.injEq,
            Prod.mk.injEq] at hj
          obtain ⟨rfl, rfl⟩ := hj
          exact ⟨P', Stable.own_iff.mp hP', hpost, hrest⟩
        · have hsame := Config.set_thread_ne ⟨s', c.thread⟩ hji q (next b)
          obtain ⟨R, hR, hRs, hRo⟩ := h.stands j q' p
            (by rw [hsame] at hj; exact hj)
          exact ⟨R, hR, hR.thread (Ne.symm hji) h.inv hinv hguar hRs, hRo⟩
  | @cancel i q p stands allowed =>
      obtain ⟨hinv, hguar, hfree⟩ := hCancel h.inv allowed
      refine ⟨⟨hinv, ?_, ?_⟩,
        .inr (.inl ⟨i, q, p, stands, hguar, .inr rfl⟩)⟩
      · intro j hj
        by_cases hji : j = i
        · subst hji
          exact hfree
        · rw [Config.clear_thread_ne _ hji] at hj
          exact (hIdle j).thread (Ne.symm hji) h.inv hinv hguar (h.idle j hj)
      · intro j q' p' hj
        by_cases hji : j = i
        · subst hji
          simp at hj
        · rw [Config.clear_thread_ne _ hji] at hj
          obtain ⟨R, hR, hRs, hRo⟩ := h.stands j q' p' hj
          exact ⟨R, hR, hR.thread (Ne.symm hji) h.inv hinv hguar hRs, hRo⟩
  | @env e s' takes allowed =>
      obtain ⟨hinv, henv⟩ := hEnv h.inv takes allowed
      refine ⟨⟨hinv, ?_, ?_⟩, .inr (.inr henv)⟩
      · intro j hj
        exact (hIdle j).env h.inv hinv henv (h.idle j hj)
      · intro j q' p hj
        obtain ⟨R, hR, hRs, hRo⟩ := h.stands j q' p hj
        exact ⟨R, hR, hR.env h.inv hinv henv hRs, hRo⟩

omit hBody in
/-- **What a thread does depends on the call it serves**: along a run, each
step of a thread keeps the bound of its call. -/
theorem sound_own {Ψ : ι → σ → σ → Prop}
    (hOwn : ∀ i q, Outline (L.own i (Ψ q)) (F.run i q) i (M.body q) (Idle i)
      (Q q i))
    {c d : Config π σ χ ι α} (h : GoodOwn L Ψ F Idle Q c)
    (hrun : M.Reaches F c d) : GoodOwn L Ψ F Idle Q d := by
  induction hrun with
  | refl => exact h
  | tail _ hstep ih =>
      exact (goodOwn_step hIdle hCancel hEnv hOwn ih hstep).1

/-- One step keeps the configuration good and is either silent, or a
guaranteed step of one thread, or a step of the environment. -/
theorem good_step {c d : Config π σ χ ι α} (h : Good L F Idle Q c)
    (hstep : M.Step F c d) :
    Good L F Idle Q d ∧ (d.shared = c.shared ∨
      (∃ i, L.guar i c.shared d.shared) ∨ L.env c.shared d.shared) := by
  obtain ⟨hd, hkind⟩ := goodOwn_step hIdle hCancel hEnv
    (fun i q => (hBody i q).to_own) h.to_own hstep
  refine ⟨hd.of_own, hkind.imp id fun h => h.imp (fun ⟨i, _, _, _, hg, _⟩ => ?_) id⟩
  exact ⟨i, hg⟩

/-- **Soundness.**  With an outline for every call, every configuration
reached from a good one is good. -/
theorem sound {c d : Config π σ χ ι α} (h : Good L F Idle Q c)
    (hrun : M.Reaches F c d) : Good L F Idle Q d := by
  induction hrun with
  | refl => exact h
  | tail _ hstep ih => exact (good_step hIdle hBody hCancel hEnv ih hstep).1

omit hBody hCancel hEnv in
/-- A call is dropped. -/
theorem Good.cleared {c : Config π σ χ ι α} {s' : σ} (h : Good L F Idle Q c)
    (hinv : L.inv s') (hguar : L.guar i c.shared s') (hfree : Idle i s') :
    Good L F Idle Q (Config.clear ⟨s', c.thread⟩ i) := by
  refine ⟨hinv, fun j hj => ?_, fun j q p hj => ?_⟩
  · by_cases hji : j = i
    · subst hji
      exact hfree
    · rw [Config.clear_thread_ne _ hji] at hj
      exact (hIdle j).thread (Ne.symm hji) h.inv hinv hguar (h.idle j hj)
  · by_cases hji : j = i
    · subst hji
      simp at hj
    · rw [Config.clear_thread_ne _ hji] at hj
      obtain ⟨P, hP, hPs, hout⟩ := h.stands j q p hj
      exact ⟨P, hP, hP.thread (Ne.symm hji) h.inv hinv hguar hPs, hout⟩

omit hCancel in
/-- **Soundness, where calls are dropped under a condition.** -/
theorem sound_if {C : Nat → σ → Prop}
    (hDrop : ∀ {i q s}, L.inv s → F.cancel i q → C i s →
      L.inv (M.cancel i s) ∧ L.guar i s (M.cancel i s) ∧ Idle i (M.cancel i s))
    {c d : Config π σ χ ι α} (h : Good L F Idle Q c)
    (hrun : M.ReachesIf F C c d) : Good L F Idle Q d := by
  induction hrun with
  | refl => exact h
  | @tail d e _ hstep ih =>
      obtain ⟨hstep, hdrop⟩ := hstep
      -- the other steps are allowed without any cancellation
      have hkept : ∀ {e}, M.Step { F with cancel := fun _ _ => False } d e →
          Good L F Idle Q e := fun hstep' => by
        have hgood := (good_step (F := { F with cancel := fun _ _ => False })
          hIdle hBody (fun _ hfalse => hfalse.elim) hEnv
          ⟨ih.inv, ih.idle, ih.stands⟩ hstep').1
        exact ⟨hgood.inv, hgood.idle, hgood.stands⟩
      cases hstep with
      | call free => exact hkept (.call free)
      | run stands takes allowed => exact hkept (.run stands takes allowed)
      | @cancel i q p stands allowed =>
          obtain ⟨hinv, hguar, hfree⟩ := hDrop ih.inv allowed
            (hdrop i (by rw [stands]; simp) (by simp))
          exact Good.cleared hIdle ih hinv hguar hfree
      | env takes allowed => exact hkept (.env takes allowed)

omit hIdle hBody hCancel in
/-- A step from a good configuration is known to keep the invariant and the
guarantee. -/
theorem step_within {G : Filter π σ χ ε ι} {c d : Config π σ χ ι α}
    (hG : ∀ {i q pt ch s s'}, G.run i q pt ch s s' → F.run i q pt ch s s')
    (hGenv : ∀ {e s s'}, G.env e s s' → F.env e s s')
    (h : Good L F Idle Q c) (hstep : M.Step G c d) :
    M.Step (within G L) c d := by
  cases hstep with
  | call free => exact .call free
  | @run i q _ pt f next ch b s' stands takes allowed =>
      obtain ⟨P, _, hP, hout⟩ := h.stands i q _ stands
      obtain ⟨hinv, hguar, _⟩ :=
        hout c.shared ch b s' h.inv hP takes (hG allowed)
      exact .run stands takes ⟨allowed, hinv, hguar⟩
  | cancel stands allowed => exact .cancel stands allowed
  | env takes allowed =>
      obtain ⟨hinv, henv⟩ := hEnv h.inv takes (hGenv allowed)
      exact .env takes ⟨allowed, hinv, henv⟩

/-- **What one logic has established, another may use.**  Along a run under a
stronger restriction `G`, each step is known to keep the invariant and the
guarantee. -/
theorem sound_within {G : Filter π σ χ ε ι} {c d : Config π σ χ ι α}
    (hG : ∀ {i q pt ch s s'}, G.run i q pt ch s s' → F.run i q pt ch s s')
    (hGcancel : ∀ {i q}, G.cancel i q → F.cancel i q)
    (hGenv : ∀ {e s s'}, G.env e s s' → F.env e s s')
    (h : Good L F Idle Q c) (hrun : M.Reaches G c d) :
    M.Reaches (within G L) c d := by
  induction hrun with
  | refl => exact .refl
  | tail hcd hstep ih =>
      have hd := sound hIdle hBody hCancel hEnv h
        (System.Reaches.mono hG hGcancel hGenv hcd)
      exact ih.tail (step_within hEnv hG hGenv hd hstep)

/-- The same, where calls are dropped under a condition. -/
theorem sound_if_within {C : Nat → σ → Prop} {c d : Config π σ χ ι α}
    (h : Good L F Idle Q c) (hrun : M.ReachesIf F C c d) :
    M.ReachesIf (within F L) C c d := by
  induction hrun with
  | refl => exact .refl
  | tail hcd hstep ih =>
      have hd := sound hIdle hBody hCancel hEnv h (System.ReachesIf.reaches hcd)
      exact ih.tail ⟨step_within hEnv (fun h => h) (fun h => h) hd hstep.1,
        hstep.2⟩

/-- A transitive relation that every guaranteed step respects holds between
the two ends of a run. -/
theorem sound_trans {R : σ → σ → Prop} (hrefl : ∀ s, R s s)
    (htrans : ∀ {s t u}, R s t → R t u → R s u)
    (hguar : ∀ {i s s'}, L.inv s → L.inv s' → L.guar i s s' → R s s')
    (henv : ∀ {s s'}, L.inv s → L.inv s' → L.env s s' → R s s')
    {c d : Config π σ χ ι α} (h : Good L F Idle Q c)
    (hrun : M.Reaches F c d) : R c.shared d.shared := by
  induction hrun with
  | refl => exact hrefl _
  | @tail d e hcd hstep ih =>
      have hd := sound hIdle hBody hCancel hEnv h hcd
      obtain ⟨he, hkind⟩ := good_step hIdle hBody hCancel hEnv hd hstep
      refine htrans ih ?_
      rcases hkind with heq | ⟨i, hg⟩ | hv
      · rw [heq]
        exact hrefl _
      · exact hguar hd.inv he.inv hg
      · exact henv hd.inv he.inv hv

end Soundness

/-! ## Atomic runs -/

/-- What an outline says of an atomic run, if `K` holds along it and implies
the restriction. -/
theorem Outline.alone {G : π → χ → σ → σ → Prop} {K : σ → Prop}
    (hK : ∀ {s s'}, L.guar i s s' → K s → K s')
    (hG : ∀ {pt ch s s'}, K s → G pt ch s s')
    (hrefl : ∀ s, L.guar i s s)
    (htrans : ∀ {s t u}, L.guar i s t → L.guar i t u → L.guar i s u)
    {p : Prog π σ χ α} {Q : α → σ → Prop} :
    ∀ {P : σ → Prop} {cs : List χ} {s s' : σ} {a : α},
      Outline L G i p P Q → L.inv s → P s → K s →
        p.alone i cs s = some (a, s') →
          L.inv s' ∧ L.guar i s s' ∧ Q a s' := by
  induction p with
  | ret a =>
      intro P cs s s' b h hinv hP _ hrun
      obtain ⟨_, rfl, rfl⟩ := Prog.alone_ret hrun
      exact ⟨hinv, hrefl _, h _ hinv hP⟩
  | act pt f next ih =>
      intro P cs s s' a h hinv hP hKs hrun
      obtain ⟨c, cs', b, t, rfl, hf, hrest⟩ := Prog.alone_act hrun
      obtain ⟨hinv', hguar, P', _, hpost, hout⟩ :=
        h s c b t hinv hP hf (hG hKs)
      obtain ⟨hinv'', hguar', hQ⟩ :=
        ih b hout hinv' hpost (hK hguar hKs) hrest
      exact ⟨hinv'', htrans hguar hguar', hQ⟩

/-- The logic of a thread that runs with nobody else: no invariant, and the
others do not move. -/
def Logic.solo (i : Nat) : Logic σ where
  inv _ := True
  guar j s s' := j = i ∨ s' = s
  env s s' := s' = s

/-- A Hoare triple for atomic runs of thread `i`. -/
abbrev Triple (i : Nat) (p : Prog π σ χ α) (P : σ → Prop) (Q : α → σ → Prop) :
    Prop := Outline (Logic.solo i) (fun _ _ _ _ => True) i p P Q

/-- Alone, every assertion is stable. -/
theorem Stable.solo {P : σ → Prop} : Stable (Logic.solo i) i P where
  thread hne _ _ hg hs := by
    rcases hg with rfl | rfl
    · exact absurd rfl hne
    · exact hs
  env _ _ he hs := by
    cases he
    exact hs

/-- The rule of one step, for a thread alone. -/
theorem Triple.step {pt : π} {f : Action σ χ α} {P : σ → Prop}
    {Q : α → σ → Prop}
    (step : ∀ {s ch a s'}, P s → f i ch s = some (a, s') → Q a s') :
    Triple i (Prog.step pt f) P Q :=
  Outline.step (fun _ => .solo) fun _ hP hf _ =>
    ⟨trivial, .inl rfl, step hP hf⟩

/-- A triple for an atomic run. -/
theorem Triple.alone {p : Prog π σ χ α} {P : σ → Prop} {Q : α → σ → Prop}
    {cs : List χ} {s s' : σ} {a : α} (h : Triple i p P Q) (hP : P s)
    (hrun : p.alone i cs s = some (a, s')) : Q a s' :=
  (Outline.alone (L := Logic.solo i) (K := fun _ => True) (fun _ _ => trivial)
    (fun _ => trivial) (fun _ => .inl rfl) (fun _ _ => .inl rfl) h trivial hP
    trivial hrun).2.2

end DpopAuth.Verified.RelyGuarantee
