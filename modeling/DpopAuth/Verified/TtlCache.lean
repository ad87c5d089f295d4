import Mathlib.Data.List.Basic

/-!
# A cache whose entries expire

The cache keeps at most one entry for each key.  An entry is live until its
time to live has passed since it was inserted; a lookup never answers with a
dead entry, whether or not it is still in memory.

Entries leave the cache in two ways: they expire, or they are evicted.  The
policy that picks what to evict is not modelled; `Cache.evict` removes one
key, and a development says when it may happen.

## Main results

* `Cache.get_insert_isSome`, `Cache.get_insert_ne` — a lookup after an
  insertion.
* `Cache.get_eq_some` — a lookup answers with a live entry of that key.
-/

namespace DpopAuth.Verified.TtlCache

variable {κ ν : Type}

/-- An entry and the moment it was inserted. -/
structure Entry (κ ν : Type) where
  key : κ
  value : ν
  insertedAt : Int
  deriving DecidableEq, Repr

/-- The entry has not reached its time to live. -/
def Entry.live (ttl now : Int) (e : Entry κ ν) : Bool :=
  decide (now < e.insertedAt + ttl)

/-- The entries in memory, newest first. -/
abbrev Cache (κ ν : Type) := List (Entry κ ν)

namespace Cache

variable [DecidableEq κ]

/-- The live entry for a key. -/
def find (ttl now : Int) (k : κ) (c : Cache κ ν) : Option (Entry κ ν) :=
  c.find? fun e => decide (e.key = k) && e.live ttl now

/-- Look a key up. -/
def get (ttl now : Int) (k : κ) (c : Cache κ ν) : Option ν :=
  (c.find ttl now k).map Entry.value

/-- Drop the entry of a key. -/
def evict (k : κ) (c : Cache κ ν) : Cache κ ν := c.filter fun e => decide (e.key ≠ k)

/-- Insert, replacing the entry of that key. -/
def insert (now : Int) (k : κ) (v : ν) (c : Cache κ ν) : Cache κ ν :=
  ⟨k, v, now⟩ :: c.evict k

/-- `entry(k).or_insert(v)`: insert unless a live entry is there; the answer
says whether the entry is fresh. -/
def orInsert (ttl now : Int) (k : κ) (v : ν) (c : Cache κ ν) :
    Bool × Cache κ ν :=
  if (c.get ttl now k).isSome then (false, c) else (true, c.insert now k v)

/-- The number of live entries. -/
def liveCount (ttl now : Int) (c : Cache κ ν) : Nat := c.countP (Entry.live ttl now)

theorem find_eq_some {ttl now : Int} {k : κ} {c : Cache κ ν} {e : Entry κ ν}
    (h : c.find ttl now k = some e) :
    e ∈ c ∧ e.key = k ∧ now < e.insertedAt + ttl := by
  have hp := List.find?_some h
  simp only [Bool.and_eq_true, decide_eq_true_eq, Entry.live] at hp
  exact ⟨List.mem_of_find?_eq_some h, hp⟩

/-- A lookup answers with a live entry of that key. -/
theorem get_eq_some {ttl now : Int} {k : κ} {c : Cache κ ν} {v : ν}
    (h : c.get ttl now k = some v) :
    ∃ e ∈ c, e.key = k ∧ now < e.insertedAt + ttl ∧ e.value = v := by
  obtain ⟨e, he, rfl⟩ := Option.map_eq_some_iff.mp h
  obtain ⟨hmem, hkey, hlive⟩ := find_eq_some he
  exact ⟨e, hmem, hkey, hlive, rfl⟩

theorem get_insert_self {ttl now : Int} (h : 0 < ttl) (k : κ) (v : ν)
    (c : Cache κ ν) : (c.insert now k v).get ttl now k = some v := by
  have hlive : now < now + ttl := by omega
  simp [get, find, insert, Entry.live, hlive]

theorem find_evict_self (ttl now : Int) (k : κ) (c : Cache κ ν) :
    (c.evict k).find ttl now k = none := by
  refine List.find?_eq_none.mpr fun e he hp => ?_
  have hne : e.key ≠ k := of_decide_eq_true (List.mem_filter.mp he).2
  rw [decide_eq_false hne] at hp
  cases hp

/-- **The entry just inserted**, looked up at any moment. -/
theorem get_insert_isSome (ttl now at' : Int) (k : κ) (v : ν) (c : Cache κ ν) :
    ((c.insert at' k v).get ttl now k).isSome ↔ now < at' + ttl := by
  have hevict : List.find?
      (fun e : Entry κ ν => decide (e.key = k) && e.live ttl now) (c.evict k) =
      none := find_evict_self ttl now k c
  by_cases hlive : now < at' + ttl
  · simp [get, find, insert, Entry.live, hlive]
  · simp only [Entry.live] at hevict
    simp [get, find, insert, Entry.live, hlive, hevict]

theorem find_evict_ne {ttl now : Int} {k l : κ} (h : l ≠ k) (c : Cache κ ν) :
    (c.evict k).find ttl now l = c.find ttl now l := by
  induction c with
  | nil => rfl
  | cons e c ih =>
      simp only [find, evict] at ih ⊢
      by_cases hk : e.key = k
      · have hl : ¬ e.key = l := fun hl => h (hl.symm.trans hk)
        simpa [List.filter_cons, List.find?_cons, hk, hl, Ne.symm h] using ih
      · by_cases hl : (decide (e.key = l) && e.live ttl now) = true
        · simp [hk, hl]
        · simpa [List.filter_cons, List.find?_cons, hk, hl] using ih

theorem find_insert_ne {ttl now at' : Int} {k l : κ} (h : l ≠ k) (v : ν)
    (c : Cache κ ν) :
    (c.insert at' k v).find ttl now l = c.find ttl now l := by
  have hevict : (c.evict k).find ttl now l = c.find ttl now l :=
    find_evict_ne h c
  rw [← hevict]
  simp [find, insert, Ne.symm h]

theorem get_insert_ne {ttl now at' : Int} {k l : κ} (h : l ≠ k) (v : ν)
    (c : Cache κ ν) : (c.insert at' k v).get ttl now l = c.get ttl now l := by
  unfold get
  rw [find_insert_ne h]

end Cache

end DpopAuth.Verified.TtlCache
