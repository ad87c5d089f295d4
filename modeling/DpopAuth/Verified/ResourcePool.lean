import Mathlib.Data.List.Forall2
import Mathlib.Logic.Relation

/-!
# A pool of interchangeable resources

A pool hands out `n` resources one at a time.  What a task does to the pool is
its `Flow`: it asks for a resource and waits until one is free, gives one back,
or goes on in one of two ways.  Tasks run interleaved.

The pool is `Jammed` when all resources are held by tasks that wait for one
more: none of them can go on, and nobody else can get one either.  A task that
never asks while holding one cannot be part of a jam; a task that holds at most
one while asking takes part with that one.  So the number of tasks that may ask
while holding decides: fewer than `n` never jam, `n` of them can.

## Main results

* `not_jammed` — too few nesting tasks never jam the pool.
* `jam` — enough of them can.
-/

namespace DpopAuth.Verified.ResourcePool

/-- What is left of a task, as far as the pool can tell. -/
inductive Flow where
  | done
  | acquire (next : Flow)
  | release (next : Flow)
  | choice (left right : Flow)
  deriving DecidableEq, Repr

namespace Flow

/-- One flow after another. -/
def andThen : Flow → Flow → Flow
  | done, k => k
  | acquire f, k => acquire (f.andThen k)
  | release f, k => release (f.andThen k)
  | choice f g, k => choice (f.andThen k) (g.andThen k)

/-- A resource held from here to the end of `body`. -/
def scope (body : Flow) : Flow := acquire (body.andThen (release done))

/-- Holding `h` resources, the flow asks for another one only if it holds none
or, where `nests` allows it, exactly one. -/
def Modest (nests : Bool) : Nat → Flow → Prop
  | _, done => True
  | h, acquire f => (h = 0 ∨ h = 1 ∧ nests = true) ∧ f.Modest nests (h + 1)
  | h, release f => f.Modest nests (h - 1)
  | h, choice f g => f.Modest nests h ∧ g.Modest nests h

instance (nests : Bool) : ∀ h (f : Flow), Decidable (f.Modest nests h)
  | _, done => .isTrue trivial
  | h, acquire f =>
      have := instDecidableModest nests (h + 1) f
      inferInstanceAs (Decidable (_ ∧ _))
  | h, release f => instDecidableModest nests (h - 1) f
  | h, choice f g =>
      have := instDecidableModest nests h f
      have := instDecidableModest nests h g
      inferInstanceAs (Decidable (_ ∧ _))

end Flow

/-- A running task: how many resources it holds, and what is left of it. -/
structure Task where
  held : Nat
  rest : Flow
  deriving DecidableEq, Repr

/-- The task waits for a resource. -/
def Task.waits (t : Task) : Prop := ∃ f, t.rest = .acquire f

/-- The resources in use. -/
def inUse : List Task → Nat
  | [] => 0
  | t :: ts => t.held + inUse ts

/-- One step of a task, when `free` says that a resource is left. -/
inductive TaskStep (free : Prop) : Task → Task → Prop
  | acquire {h : Nat} {f : Flow} (hfree : free) :
      TaskStep free ⟨h, .acquire f⟩ ⟨h + 1, f⟩
  | release {h : Nat} {f : Flow} : TaskStep free ⟨h, .release f⟩ ⟨h - 1, f⟩
  | left {h : Nat} {f g : Flow} : TaskStep free ⟨h, .choice f g⟩ ⟨h, f⟩
  | right {h : Nat} {f g : Flow} : TaskStep free ⟨h, .choice f g⟩ ⟨h, g⟩

/-- One step of the tasks on a pool of `n`. -/
inductive Step (n : Nat) : List Task → List Task → Prop
  | at (pre post : List Task) {t t' : Task}
      (step : TaskStep (inUse (pre ++ t :: post) < n) t t') :
      Step n (pre ++ t :: post) (pre ++ t' :: post)

abbrev Reaches (n : Nat) : List Task → List Task → Prop :=
  Relation.ReflTransGen (Step n)

/-- All `n` resources are held by tasks that wait for another one. -/
def Jammed (n : Nat) (ts : List Task) : Prop :=
  inUse ts = n ∧ ∀ t ∈ ts, 0 < t.held → t.waits

/-- Tasks that have not started. -/
def start (fs : List Flow) : List Task := fs.map fun f => ⟨0, f⟩

variable {n : Nat} {ts ts' : List Task} {t t' : Task} {free : Prop}

@[simp] theorem inUse_cons (t : Task) (ts : List Task) :
    inUse (t :: ts) = t.held + inUse ts := rfl

@[simp] theorem inUse_append (ts us : List Task) :
    inUse (ts ++ us) = inUse ts + inUse us := by
  induction ts with
  | nil => simp [inUse]
  | cons t ts ih =>
      rw [List.cons_append, inUse_cons, inUse_cons, ih]
      omega

theorem inUse_start (fs : List Flow) : inUse (start fs) = 0 := by
  induction fs with
  | nil => rfl
  | cons f fs ih =>
      have hcons : start (f :: fs) = ⟨0, f⟩ :: start fs := rfl
      rw [hcons, inUse_cons, ih]

/-! ## No jam -/

theorem TaskStep.modest {nests : Bool} (h : TaskStep free t t')
    (ht : t.rest.Modest nests t.held) : t'.rest.Modest nests t'.held := by
  cases h with
  | acquire _ => exact ht.2
  | release => exact ht
  | left => exact ht.1
  | right => exact ht.2

/-- What a run keeps: every task is modest, those of `ks` that nest with one
resource in hand. -/
abbrev AllModest (ks : List Bool) (ts : List Task) : Prop :=
  List.Forall₂ (fun k (t : Task) => t.rest.Modest k t.held) ks ts

/-- Replacing one element keeps a pointwise relation. -/
theorem forall₂_replace {α β : Type} {R : α → β → Prop} {b b' : β}
    (hb : ∀ a, R a b → R a b') :
    ∀ {as : List α} (pre : List β) {post : List β},
      List.Forall₂ R as (pre ++ b :: post) →
      List.Forall₂ R as (pre ++ b' :: post)
  | _, [], _, .cons h hrest => .cons (hb _ h) hrest
  | _, _ :: pre, _, .cons h hrest => .cons h (forall₂_replace hb pre hrest)

theorem Step.allModest {ks : List Bool} (h : Step n ts ts')
    (hts : AllModest ks ts) : AllModest ks ts' := by
  obtain ⟨pre, post, step⟩ := h
  rename_i t t'
  have hone : ∀ k : Bool, t.rest.Modest k t.held → t'.rest.Modest k t'.held :=
    fun _ ht => step.modest ht
  exact forall₂_replace hone pre hts

theorem Reaches.allModest {ks : List Bool} (h : Reaches n ts ts')
    (hts : AllModest ks ts) : AllModest ks ts' := by
  induction h with
  | refl => exact hts
  | tail _ step ih => exact step.allModest ih

/-- A modest task that waits if it holds anything holds at most one resource,
and only if it nests. -/
theorem held_le {k : Bool} (ht : t.rest.Modest k t.held)
    (hw : 0 < t.held → t.waits) : t.held ≤ k.toNat := by
  rcases Nat.eq_zero_or_pos t.held with h0 | hpos
  · omega
  · obtain ⟨f, hf⟩ := hw hpos
    rw [hf] at ht
    rcases ht.1 with h0 | ⟨h1, rfl⟩
    · omega
    · simp [h1]

theorem inUse_le {ks : List Bool} (hts : AllModest ks ts)
    (hw : ∀ t ∈ ts, 0 < t.held → t.waits) : inUse ts ≤ ks.count true := by
  induction hts with
  | nil => simp [inUse]
  | @cons k t ks ts ht hrest ih =>
      have hhead : t.held ≤ k.toNat := held_le ht (hw t (by simp))
      have htail : inUse ts ≤ ks.count true :=
        ih fun u hu => hw u (List.mem_cons_of_mem _ hu)
      have hcount : (k :: ks).count true = ks.count true + k.toNat := by
        cases k <;> simp
      rw [inUse_cons, hcount]
      omega

/-- **Too few tasks that nest.**  If fewer than `n` of the tasks ever ask for a
resource with one in hand, a pool of `n` never jams. -/
theorem not_jammed {ks : List Bool} {fs : List Flow}
    (hfs : List.Forall₂ (fun k (f : Flow) => f.Modest k 0) ks fs)
    (hfew : ks.count true < n) (hrun : Reaches n (start fs) ts) :
    ¬ Jammed n ts := by
  intro ⟨hall, hwait⟩
  have hstart : AllModest ks (start fs) := List.forall₂_map_right_iff.2 hfs
  have hle : inUse ts ≤ ks.count true :=
    inUse_le (hrun.allModest hstart) hwait
  omega

/-! ## A jam -/

/-- The flow can go on to `g` without touching the pool. -/
inductive Flow.Skips : Flow → Flow → Prop
  | refl (f : Flow) : Skips f f
  | left {f f' g : Flow} (h : Skips f f') : Skips (.choice f g) f'
  | right {f g g' : Flow} (h : Skips g g') : Skips (.choice f g) g'

/-- The flow first asks for one resource and can then ask for a second one. -/
def Flow.Nests (f : Flow) : Prop :=
  ∃ g k, f = .acquire g ∧ g.Skips (.acquire k)

theorem Flow.Skips.reaches {f g : Flow} (h : f.Skips g) (m : Nat)
    (pre post : List Task) :
    Reaches n (pre ++ ⟨m, f⟩ :: post) (pre ++ ⟨m, g⟩ :: post) := by
  induction h with
  | refl f => exact .refl
  | left _ ih => exact .head (.at pre post .left) ih
  | right _ ih => exact .head (.at pre post .right) ih

/-- One after the other, the nesting tasks take a resource and wait. -/
theorem jam_after (nests : Flow → Bool)
    (hnests : ∀ f, nests f = true → f.Nests) (fs : List Flow) :
    ∀ pre : List Task, (∀ t ∈ pre, 0 < t.held → t.waits) →
      inUse pre ≤ n → n ≤ inUse pre + fs.countP nests →
      ∃ ts, Reaches n (pre ++ start fs) ts ∧ Jammed n ts := by
  induction fs with
  | nil =>
      intro pre hwait hle hge
      have hfull : inUse pre = n := by
        rw [List.countP_nil] at hge
        omega
      exact ⟨pre, by simp [start, Relation.ReflTransGen.refl], hfull, hwait⟩
  | cons f fs ih =>
      intro pre hwait hle hge
      rcases Nat.lt_or_ge (inUse pre) n with hfree | hfull
      · by_cases hf : nests f = true
        · -- `f` takes the free resource and goes on to where it waits
          obtain ⟨g, k, rfl, hskip⟩ := hnests f hf
          let pre' : List Task := pre ++ [⟨1, .acquire k⟩]
          have huse : inUse pre' = inUse pre + 1 := by simp [pre', inUse]
          have hwait' : ∀ t ∈ pre', 0 < t.held → t.waits := by
            intro t ht
            rcases List.mem_append.1 ht with ht | ht
            · exact hwait t ht
            · rw [List.mem_singleton.1 ht]
              exact fun _ => ⟨k, rfl⟩
          have hcount : (Flow.acquire g :: fs).countP nests
              = fs.countP nests + 1 := by simp [hf]
          obtain ⟨ts, hrun, hjam⟩ := ih pre' hwait' (by omega) (by omega)
          refine ⟨ts, ?_, hjam⟩
          have hroom : inUse (pre ++ ⟨0, .acquire g⟩ :: start fs) < n := by
            rw [inUse_append, inUse_cons, inUse_start]
            exact hfree
          have htake : Reaches n (pre ++ ⟨0, .acquire g⟩ :: start fs)
              (pre ++ ⟨1, g⟩ :: start fs) :=
            .single (.at pre (start fs) (.acquire hroom))
          have hgo : Reaches n (pre ++ ⟨1, g⟩ :: start fs) ts := by
            refine (hskip.reaches 1 pre (start fs)).trans ?_
            simpa [pre'] using hrun
          exact htake.trans hgo
        · let pre' : List Task := pre ++ [⟨0, f⟩]
          have huse : inUse pre' = inUse pre := by simp [pre', inUse]
          have hwait' : ∀ t ∈ pre', 0 < t.held → t.waits := by
            intro t ht
            rcases List.mem_append.1 ht with ht | ht
            · exact hwait t ht
            · rw [List.mem_singleton.1 ht]
              exact fun h => absurd h (Nat.lt_irrefl 0)
          have hcount : (f :: fs).countP nests = fs.countP nests := by
            simp [hf]
          obtain ⟨ts, hrun, hjam⟩ := ih pre' hwait' (by omega) (by omega)
          refine ⟨ts, ?_, hjam⟩
          simpa [pre', start] using hrun
      · have hstart : inUse (pre ++ start (f :: fs)) = n := by
          rw [inUse_append, inUse_start]
          omega
        refine ⟨pre ++ start (f :: fs), .refl, hstart, fun t ht => ?_⟩
        rcases List.mem_append.1 ht with ht | ht
        · exact hwait t ht
        · obtain ⟨g, -, rfl⟩ := List.mem_map.1 ht
          exact fun h => absurd h (Nat.lt_irrefl 0)

/-- **Enough tasks that nest.**  With `n` of them, some interleaving jams the
pool of `n`. -/
theorem jam (nests : Flow → Bool)
    (hnests : ∀ f, nests f = true → f.Nests) {fs : List Flow}
    (hmany : n ≤ fs.countP nests) :
    ∃ ts, Reaches n (start fs) ts ∧ Jammed n ts :=
  jam_after nests hnests fs [] (by simp) (by simp [inUse])
    (by simpa [inUse] using hmany)

end DpopAuth.Verified.ResourcePool
