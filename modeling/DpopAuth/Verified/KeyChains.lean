import Mathlib.Data.List.Basic
import Mathlib.Data.List.Nodup
import DpopAuth.Verified.Machines

/-!
# Chains of single-use keys

A chain belongs to a holder and has one key in use at most; the keys used up
before it are kept, oldest first.  It is begun with a first key, rotated to a
new key, and finished.  A finished chain is never continued, and no key comes
back.

## Main results

* `chain_distinct` — the keys of a chain are distinct.
* `chain_later` — what becomes of a chain in the course of a run.
-/

namespace DpopAuth.Verified.KeyChains

open DpopAuth.Verified.Machines

variable {τ κ : Type}

/-- A chain of keys: those used up, oldest first, and the one in use. -/
structure Chain (τ κ : Type) where
  holder : τ
  spent : List κ
  current : Option κ
  deriving DecidableEq, Repr

/-- All keys of a chain, in the order in which they were in use. -/
def Chain.keys (s : Chain τ κ) : List κ := s.spent ++ s.current.toList

/-- What can happen to a chain. -/
inductive ChainAct (τ κ : Type) where
  | begin (holder : τ) (key : κ)
  | rotate (key : κ)
  | finish
  deriving DecidableEq, Repr

/-- The chain after an act, if the act is possible. -/
def chainMachine [DecidableEq κ] : Machine (ChainAct τ κ) (Option (Chain τ κ))
  | .begin holder key, none => some (some ⟨holder, [], some key⟩)
  | .rotate key, some ⟨holder, spent, some old⟩ =>
      if key ∈ spent ++ [old] then none
      else some (some ⟨holder, spent ++ [old], some key⟩)
  | .finish, some ⟨holder, spent, some old⟩ =>
      some (some ⟨holder, spent ++ [old], none⟩)
  | _, _ => none

/-- What becomes of a chain: it stays as it is, or its key is used up. -/
def Later (s s' : Chain τ κ) : Prop :=
  s' = s ∨ s'.holder = s.holder ∧
    ∃ key, s.current = some key ∧ s.spent ++ [key] <+: s'.spent

theorem Later.refl (s : Chain τ κ) : Later s s := .inl rfl

variable {s s' : Chain τ κ}

theorem Later.holder (h : Later s s') : s'.holder = s.holder := by
  rcases h with rfl | ⟨hholder, -⟩
  · rfl
  · exact hholder

theorem Later.spent (h : Later s s') : s.spent <+: s'.spent := by
  rcases h with rfl | ⟨-, key, -, hspent⟩
  · exact List.prefix_rfl
  · exact (List.prefix_append _ _).trans hspent

theorem Later.keys (h : Later s s') : s.keys <+: s'.keys := by
  rcases h with rfl | ⟨-, key, hkey, hspent⟩
  · exact List.prefix_rfl
  · have hkeys : s.keys = s.spent ++ [key] := by simp [Chain.keys, hkey]
    rw [hkeys]
    exact hspent.trans (List.prefix_append _ _)

variable [DecidableEq κ]

/-- **The acts of a chain, one by one.** -/
theorem chainMachine_cases {e : ChainAct τ κ} {o o' : Option (Chain τ κ)}
    (h : chainMachine e o = some o') :
    (∃ holder key, e = .begin holder key ∧ o = none ∧
        o' = some ⟨holder, [], some key⟩) ∨
      (∃ s old key, e = .rotate key ∧ o = some s ∧ s.current = some old ∧
        key ∉ s.spent ++ [old] ∧
          o' = some ⟨s.holder, s.spent ++ [old], some key⟩) ∨
      ∃ s old, e = .finish ∧ o = some s ∧ s.current = some old ∧
        o' = some ⟨s.holder, s.spent ++ [old], none⟩ := by
  unfold chainMachine at h
  split at h
  · simp only [Option.some.injEq] at h
    exact .inl ⟨_, _, rfl, rfl, h.symm⟩
  · split at h
    · cases h
    · rename_i hnew
      simp only [Option.some.injEq] at h
      exact .inr (.inl ⟨_, _, _, rfl, rfl, rfl, hnew, h.symm⟩)
  · simp only [Option.some.injEq] at h
    exact .inr (.inr ⟨_, _, rfl, rfl, rfl, h.symm⟩)
  · cases h

/-- The step lemma for the keys. -/
theorem distinct_step {e : ChainAct τ κ} {o o' : Option (Chain τ κ)}
    (hdistinct : ∀ s, o = some s → s.keys.Nodup)
    (h : chainMachine e o = some o') : ∀ s, o' = some s → s.keys.Nodup := by
  intro s' hs'
  rcases chainMachine_cases h with ⟨holder, key, -, -, rfl⟩ |
    ⟨s, old, key, -, rfl, hold, hnew, rfl⟩ | ⟨s, old, -, rfl, hold, rfl⟩
  · cases hs'
    exact List.nodup_singleton key
  · cases hs'
    have hkeys : (s.spent ++ [old]).Nodup := by
      simpa [Chain.keys, hold] using hdistinct s rfl
    show ((s.spent ++ [old]) ++ [key]).Nodup
    exact List.Nodup.append hkeys (List.nodup_singleton key)
      (List.disjoint_singleton.mpr hnew)
  · cases hs'
    simpa [Chain.keys, hold] using hdistinct s rfl

/-- **The keys of a chain are distinct**: no key comes back. -/
theorem chain_distinct {F : ChainAct τ κ → Option (Chain τ κ) → Prop}
    {o : Option (Chain τ κ)}
    (h : Reaches chainMachine F (none : Option (Chain τ κ)) o) :
    ∀ s, o = some s → s.keys.Nodup :=
  h.invariant (P := fun o => ∀ s, o = some s → s.keys.Nodup)
    (fun _ _ _ hdistinct hstep _ => distinct_step hdistinct hstep)
    fun _ hs => by cases hs

/-- The step lemma for what becomes of a chain. -/
theorem later_step {e : ChainAct τ κ} {o o' : Option (Chain τ κ)}
    (hlater : ∃ s', o = some s' ∧ Later s s')
    (h : chainMachine e o = some o') : ∃ s', o' = some s' ∧ Later s s' := by
  obtain ⟨s', rfl, hlater⟩ := hlater
  have hmore : ∀ old, s'.current = some old → ∀ current,
      Later s ⟨s'.holder, s'.spent ++ [old], current⟩ := by
    intro old hold current
    rcases hlater with rfl | ⟨hholder, key, hkey, hspent⟩
    · exact .inr ⟨rfl, old, hold, List.prefix_rfl⟩
    · exact .inr ⟨hholder, key, hkey, hspent.trans (List.prefix_append _ _)⟩
  rcases chainMachine_cases h with ⟨holder, key, -, hnone, -⟩ |
    ⟨v, old, key, -, hv, hold, -, rfl⟩ | ⟨v, old, -, hv, hold, rfl⟩
  · cases hnone
  · cases hv
    exact ⟨_, rfl, hmore old hold (some key)⟩
  · cases hv
    exact ⟨_, rfl, hmore old hold none⟩

/-- **What becomes of a chain in the course of a run.** -/
theorem chain_later {F : ChainAct τ κ → Option (Chain τ κ) → Prop}
    {o : Option (Chain τ κ)} (h : Reaches chainMachine F (some s) o) :
    ∃ s', o = some s' ∧ Later s s' :=
  h.invariant (P := fun o => ∃ s', o = some s' ∧ Later s s')
    (fun _ _ _ hlater hstep _ => later_step hlater hstep)
    ⟨s, rfl, .refl s⟩

end DpopAuth.Verified.KeyChains
