import Mathlib.Data.List.Basic

/-!
# Row versions under READ COMMITTED

A table is a list of `Cell`s in insertion order.  A cell holds the last
committed version of one row, if any transaction committed one, and the
version written by the open transaction that holds the row's lock, if there
is one.  A row inserted by an open transaction has no committed version yet;
when that transaction rolls back, the cell is left empty and no statement
ever sees it again.

The rules are those of PostgreSQL's default isolation level.

* A statement works on the rows visible when it starts (`Table.targets`,
  `Table.view`): committed rows and the transaction's own versions.
* An `UPDATE` then visits its targets one by one (`Table.visit`).  A row
  locked by another open transaction makes it wait; a row that changed since
  the statement started is checked again, on its newest version, and skipped
  if it no longer qualifies.  Rows that were not targets are never visited,
  so a row committed after the start is missed.
* `COMMIT` turns all versions of the transaction into committed ones;
  `ROLLBACK` discards them.

## Main results

* `Table.visit_cases` — everything one visit can do.
* `Table.same_visit`, `Table.same_insert`, `Table.same_commit`,
  `Table.same_rollback` — no transaction touches the versions another one
  holds.
* `Table.visits_targets` — an undisturbed `UPDATE`, in closed form.
* `Table.mem_targets` — a statement's targets are the visible rows that
  qualify.
-/

namespace DpopAuth.Verified.RowVersions

variable {ρ : Type}

/-! ## Cells -/

/-- One row: its committed version, and the version of the open transaction
that holds its lock. -/
structure Cell (ρ : Type) where
  committed : Option ρ
  pending : Option (Nat × ρ)
  deriving DecidableEq, Repr

namespace Cell

/-- The version transaction `i` sees. -/
def seenBy (i : Nat) (c : Cell ρ) : Option ρ :=
  match c.pending with
  | some (j, r) => if j = i then some r else c.committed
  | none => c.committed

/-- The row a cell is about: its committed version or, before its first
commit, the inserted one. -/
def row? (c : Cell ρ) : Option ρ := c.committed <|> c.pending.map Prod.snd

/-- Transaction `i` holds the row's lock. -/
def heldBy (i : Nat) (c : Cell ρ) : Bool :=
  match c.pending with
  | some (j, _) => j == i
  | none => false

/-- A transaction other than `i` holds the row's lock. -/
def blocks (i : Nat) (c : Cell ρ) : Bool :=
  match c.pending with
  | some (j, _) => j != i
  | none => false

/-- Transaction `i`, holding the lock, writes version `r`. -/
def write (i : Nat) (r : ρ) (c : Cell ρ) : Cell ρ := { c with pending := some (i, r) }

/-- Transaction `i` commits. -/
def commit (i : Nat) (c : Cell ρ) : Cell ρ :=
  match c.pending with
  | some (j, r) => if j = i then ⟨some r, none⟩ else c
  | none => c

/-- Transaction `i` rolls back. -/
def rollback (i : Nat) (c : Cell ρ) : Cell ρ :=
  match c.pending with
  | some (j, _) => if j = i then ⟨c.committed, none⟩ else c
  | none => c

/-- The cell of a row transaction `i` inserts. -/
def fresh (i : Nat) (r : ρ) : Cell ρ := ⟨none, some (i, r)⟩

@[simp] theorem row?_committed (r : ρ) (p : Option (Nat × ρ)) :
    row? ⟨some r, p⟩ = some r := rfl

@[simp] theorem row?_inserted (i : Nat) (r : ρ) :
    row? ⟨none, some (i, r)⟩ = some r := rfl

@[simp] theorem row?_empty : row? (⟨none, none⟩ : Cell ρ) = none := rfl

@[simp] theorem seenBy_unlocked (i : Nat) (r : Option ρ) :
    seenBy i ⟨r, none⟩ = r := rfl

@[simp] theorem heldBy_unlocked (i : Nat) (r : Option ρ) :
    heldBy i ⟨r, none⟩ = false := rfl

@[simp] theorem heldBy_locked (i j : Nat) (r : Option ρ) (v : ρ) :
    heldBy i ⟨r, some (j, v)⟩ = (j == i) := rfl

@[simp] theorem blocks_unlocked (i : Nat) (r : Option ρ) :
    blocks i ⟨r, none⟩ = false := rfl

@[simp] theorem blocks_locked (i j : Nat) (r : Option ρ) (v : ρ) :
    blocks i ⟨r, some (j, v)⟩ = (j != i) := rfl

@[simp] theorem commit_unlocked (i : Nat) (r : Option ρ) :
    commit i ⟨r, none⟩ = ⟨r, none⟩ := rfl

@[simp] theorem rollback_unlocked (i : Nat) (r : Option ρ) :
    rollback i ⟨r, none⟩ = ⟨r, none⟩ := rfl

@[simp] theorem write_committed (i : Nat) (r : ρ) (c : Cell ρ) :
    (c.write i r).committed = c.committed := rfl

@[simp] theorem write_pending (i : Nat) (r : ρ) (c : Cell ρ) :
    (c.write i r).pending = some (i, r) := rfl

@[simp] theorem heldBy_write (i j : Nat) (r : ρ) (c : Cell ρ) :
    (c.write j r).heldBy i = (j == i) := rfl

@[simp] theorem heldBy_fresh (i j : Nat) (r : ρ) :
    (fresh j r).heldBy i = (j == i) := rfl

/-- A transaction that does not hold a cell leaves it alone when it ends. -/
theorem commit_of_not_heldBy {i : Nat} {c : Cell ρ} (h : c.heldBy i = false) :
    c.commit i = c := by
  obtain ⟨r, _ | ⟨j, v⟩⟩ := c
  · rfl
  · simp only [heldBy_locked, beq_eq_false_iff_ne] at h
    simp [commit, h]

theorem rollback_of_not_heldBy {i : Nat} {c : Cell ρ}
    (h : c.heldBy i = false) : c.rollback i = c := by
  obtain ⟨r, _ | ⟨j, v⟩⟩ := c
  · rfl
  · simp only [heldBy_locked, beq_eq_false_iff_ne] at h
    simp [rollback, h]

@[simp] theorem rollback_committed (i : Nat) (c : Cell ρ) :
    (c.rollback i).committed = c.committed := by
  obtain ⟨r, _ | ⟨j, v⟩⟩ := c
  · rfl
  · by_cases hj : j = i <;> simp [rollback, hj]

/-- Somebody else's lock is untouched when transaction `j` ends. -/
theorem heldBy_commit {i j : Nat} (h : j ≠ i) (c : Cell ρ) :
    (c.commit j).heldBy i = c.heldBy i := by
  obtain ⟨r, _ | ⟨k, v⟩⟩ := c
  · rfl
  · by_cases hk : k = j
    · subst hk
      simp [commit, h]
    · simp [commit, hk]

theorem heldBy_rollback {i j : Nat} (h : j ≠ i) (c : Cell ρ) :
    (c.rollback j).heldBy i = c.heldBy i := by
  obtain ⟨r, _ | ⟨k, v⟩⟩ := c
  · rfl
  · by_cases hk : k = j
    · subst hk
      simp [rollback, h]
    · simp [rollback, hk]

/-- A row somebody else holds is untouched when transaction `j` ends. -/
theorem commit_of_heldBy {i j : Nat} (h : j ≠ i) {c : Cell ρ}
    (hc : c.heldBy i = true) : c.commit j = c := by
  refine commit_of_not_heldBy ?_
  obtain ⟨r, _ | ⟨k, v⟩⟩ := c
  · rfl
  · simp only [heldBy_locked, beq_iff_eq] at hc
    simp [hc, Ne.symm h]

theorem rollback_of_heldBy {i j : Nat} (h : j ≠ i) {c : Cell ρ}
    (hc : c.heldBy i = true) : c.rollback j = c := by
  refine rollback_of_not_heldBy ?_
  obtain ⟨r, _ | ⟨k, v⟩⟩ := c
  · rfl
  · simp only [heldBy_locked, beq_iff_eq] at hc
    simp [hc, Ne.symm h]

/-- What a transaction sees of a row it does not hold is the committed
version. -/
theorem seenBy_of_not_heldBy {i : Nat} {c : Cell ρ} (h : c.heldBy i = false) :
    c.seenBy i = c.committed := by
  obtain ⟨r, _ | ⟨j, v⟩⟩ := c
  · rfl
  · simp only [heldBy_locked, beq_eq_false_iff_ne] at h
    simp [seenBy, h]

end Cell

/-! ## Tables -/

/-- The rows of a table, in insertion order. -/
abbrev Table (ρ : Type) := List (Cell ρ)

namespace Table

/-- The committed rows. -/
def rows (t : Table ρ) : List ρ := t.filterMap Cell.committed

/-- The rows transaction `i` sees. -/
def view (i : Nat) (t : Table ρ) : List ρ := t.filterMap (Cell.seenBy i)

/-- The cells whose lock transaction `i` holds. -/
def own (i : Nat) (t : Table ρ) : List (Cell ρ) := t.filter (Cell.heldBy i)

/-- The positions of the rows that `i` sees and that satisfy `p`. -/
def targets (i : Nat) (p : ρ → Bool) (t : Table ρ) : List Nat :=
  (List.range t.length).filter fun k =>
    match t[k]? with
    | some c => (c.seenBy i).any p
    | none => false

/-- Visit one target of an `UPDATE`: `none` while another transaction holds
the row; otherwise the newest version is checked again and, if it still
qualifies, the row is locked and the new version written.  Answers with the
new version. -/
def visit (i : Nat) (p : ρ → Bool) (f : ρ → ρ) (k : Nat) (t : Table ρ) :
    Option (Option ρ × Table ρ) :=
  match t[k]? with
  | none => some (none, t)
  | some c =>
      if c.blocks i then none
      else match c.seenBy i with
        | none => some (none, t)
        | some r =>
            if p r then some (some (f r), t.set k (c.write i (f r)))
            else some (none, t)

/-- Visit targets one after the other, with nobody in between: the new
versions written, and the table then. -/
def visits (i : Nat) (p : ρ → Bool) (f : ρ → ρ) :
    List Nat → Table ρ → Option (List ρ × Table ρ)
  | [], t => some ([], t)
  | k :: ks, t =>
      match t.visit i p f k with
      | none => none
      | some (o, t') =>
          match visits i p f ks t' with
          | none => none
          | some (rs, u) => some (o.toList ++ rs, u)

/-- The versions an undisturbed `UPDATE` writes. -/
def swept (i : Nat) (p : ρ → Bool) (f : ρ → ρ) (t : Table ρ) : List ρ :=
  ((t.view i).filter p).map f

/-- The table after an undisturbed `UPDATE`. -/
def sweep (i : Nat) (p : ρ → Bool) (f : ρ → ρ) (t : Table ρ) : Table ρ :=
  t.map fun c => match c.seenBy i with
    | some r => if p r then c.write i (f r) else c
    | none => c

/-- Insert a row. -/
def insert (i : Nat) (r : ρ) (t : Table ρ) : Table ρ := t ++ [Cell.fresh i r]

/-- Commit the versions of transaction `i`. -/
def commit (i : Nat) (t : Table ρ) : Table ρ := t.map (Cell.commit i)

/-- Discard the versions of transaction `i`. -/
def rollback (i : Nat) (t : Table ρ) : Table ρ := t.map (Cell.rollback i)

theorem mem_rows {r : ρ} {t : Table ρ} :
    r ∈ t.rows ↔ ∃ c ∈ t, c.committed = some r := by
  simp [rows]

theorem mem_own {i : Nat} {c : Cell ρ} {t : Table ρ} :
    c ∈ t.own i ↔ c ∈ t ∧ c.heldBy i = true := by
  simp [own]

theorem own_eq_nil {i : Nat} {t : Table ρ} :
    t.own i = [] ↔ ∀ c ∈ t, c.heldBy i = false := by
  simp [own, List.filter_eq_nil_iff]

theorem mem_targets {i : Nat} {p : ρ → Bool} {t : Table ρ} {k : Nat} :
    k ∈ t.targets i p ↔
      ∃ c r, t[k]? = some c ∧ c.seenBy i = some r ∧ p r = true := by
  simp only [targets, List.mem_filter, List.mem_range]
  constructor
  · rintro ⟨hk, hp⟩
    rw [List.getElem?_eq_getElem hk] at hp ⊢
    obtain ⟨r, hr, hpr⟩ := Option.any_eq_true _ _ |>.mp hp
    exact ⟨_, r, rfl, hr, hpr⟩
  · rintro ⟨c, r, hc, hr, hp⟩
    refine ⟨(List.getElem?_eq_some_iff.mp hc).1, ?_⟩
    simp [hc, hr, hp]

/-- **A visit, case by case.**  Either nothing changes, and the row, if it
still exists, is free and does not qualify; or the row is free or ours, its
version `r` qualifies, and the new version is written over it. -/
theorem visit_cases {i k : Nat} {p : ρ → Bool} {f : ρ → ρ} {t t' : Table ρ}
    {o : Option ρ} (h : t.visit i p f k = some (o, t')) :
    (o = none ∧ t' = t ∧ ∀ c r, t[k]? = some c → c.blocks i = false ∧
        (c.seenBy i = some r → p r = false)) ∨
      (∃ pre c post r, t = pre ++ c :: post ∧ pre.length = k ∧
        c.blocks i = false ∧ c.seenBy i = some r ∧ p r = true ∧
        o = some (f r) ∧ t' = pre ++ c.write i (f r) :: post) := by
  unfold visit at h
  split at h
  · rename_i hk
    simp only [Option.some.injEq, Prod.mk.injEq] at h
    exact .inl ⟨h.1.symm, h.2.symm, fun c r hc => by simp [hk] at hc⟩
  · rename_i c hk
    split at h
    · cases h
    · rename_i hb
      rw [Bool.not_eq_true] at hb
      split at h
      · rename_i hseen
        simp only [Option.some.injEq, Prod.mk.injEq] at h
        refine .inl ⟨h.1.symm, h.2.symm, fun d r hd => ?_⟩
        rw [hk, Option.some.injEq] at hd
        subst hd
        exact ⟨hb, fun hr => by simp [hseen] at hr⟩
      · rename_i r hseen
        split at h
        · rename_i hp
          simp only [Option.some.injEq, Prod.mk.injEq] at h
          obtain ⟨hlt, hget⟩ := List.getElem?_eq_some_iff.mp hk
          refine .inr ⟨t.take k, c, t.drop (k + 1), r, ?_, ?_, hb, hseen, hp,
            h.1.symm, ?_⟩
          · rw [← hget, List.getElem_cons_drop, List.take_append_drop]
          · simp only [List.length_take]
            omega
          · rw [← h.2, List.set_eq_take_append_cons_drop, if_pos hlt]
        · rename_i hp
          simp only [Option.some.injEq, Prod.mk.injEq] at h
          refine .inl ⟨h.1.symm, h.2.symm, fun d v hd => ?_⟩
          rw [hk, Option.some.injEq] at hd
          subst hd
          refine ⟨hb, fun hv => ?_⟩
          rw [hseen, Option.some.injEq] at hv
          subst hv
          simpa using hp

/-- The same for the position in the table. -/
theorem visit_set {i k : Nat} {p : ρ → Bool} {f : ρ → ρ} {t t' : Table ρ}
    {o : Option ρ} (h : t.visit i p f k = some (o, t')) :
    (o = none ∧ t' = t ∧ ∀ c r, t[k]? = some c → c.blocks i = false ∧
        (c.seenBy i = some r → p r = false)) ∨
      (∃ c r, t[k]? = some c ∧ c.blocks i = false ∧ c.seenBy i = some r ∧
        p r = true ∧ o = some (f r) ∧ t' = t.set k (c.write i (f r))) := by
  rcases visit_cases h with hsame |
    ⟨pre, c, post, r, rfl, rfl, hfree, hseen, hp, ho, rfl⟩
  · exact .inl hsame
  · exact .inr ⟨c, r, by simp, hfree, hseen, hp, ho, by simp⟩

/-! ## Undisturbed updates -/

theorem targets_cons (i : Nat) (p : ρ → Bool) (c : Cell ρ) (t : Table ρ) :
    targets i p (c :: t) =
      (if (c.seenBy i).any p then [0] else []) ++
        (t.targets i p).map (· + 1) := by
  simp only [targets, List.length_cons, List.range_succ_eq_map,
    List.filter_cons, List.getElem?_cons_zero, List.filter_map]
  split <;> rfl

/-- The visits of an undisturbed `UPDATE` that come after those of `pre`. -/
theorem visits_suffix {i : Nat} {p : ρ → Bool} {f : ρ → ρ} {t : Table ρ} :
    ∀ (pre : Table ρ) {rs : List ρ} {u : Table ρ},
      visits i p f ((t.targets i p).map (pre.length + ·)) (pre ++ t) =
        some (rs, u) → rs = t.swept i p f ∧ u = pre ++ t.sweep i p f := by
  induction t with
  | nil =>
      intro pre rs u h
      simp only [targets, List.length_nil, List.range_zero, List.filter_nil,
        List.map_nil, visits, Option.some.injEq, Prod.mk.injEq] at h
      exact ⟨h.1.symm, h.2.symm⟩
  | cons c t ih =>
      intro pre rs u h
      have hshift : ∀ ks : List Nat, (ks.map (· + 1)).map (pre.length + ·) =
          ks.map ((pre.length + 1) + ·) := by
        intro ks
        simp only [List.map_map]
        exact List.map_congr_left fun k _ => by
          simp only [Function.comp_apply]
          omega
      rw [targets_cons, List.map_append, hshift] at h
      cases hseen : c.seenBy i with
      | none =>
          simp only [hseen, Option.any_none, Bool.false_eq_true, if_false,
            List.map_nil, List.nil_append] at h
          have hrest := ih (pre ++ [c]) (by simpa using h)
          simpa [swept, sweep, view, hseen] using hrest
      | some r =>
          cases hp : p r with
          | false =>
              simp only [hseen, Option.any_some, hp, Bool.false_eq_true,
                if_false, List.map_nil, List.nil_append] at h
              have hrest := ih (pre ++ [c]) (by simpa using h)
              simpa [swept, sweep, view, hseen, hp] using hrest
          | true =>
              have hget : (pre ++ c :: t)[pre.length]? = some c := by simp
              have hset : (pre ++ c :: t).set pre.length (c.write i (f r)) =
                  (pre ++ [c.write i (f r)]) ++ t := by simp
              simp only [hseen, Option.any_some, hp, if_true, List.map_cons,
                List.map_nil, Nat.add_zero, List.cons_append, List.nil_append,
                visits, visit, hget, hset] at h
              split at h
              · cases h
              · rename_i o x hvisit
                split at hvisit
                · cases hvisit
                · simp only [Option.some.injEq, Prod.mk.injEq] at hvisit
                  obtain ⟨rfl, rfl⟩ := hvisit
                  split at h
                  · cases h
                  · rename_i vs y hrest
                    simp only [Option.some.injEq, Prod.mk.injEq] at h
                    obtain ⟨rfl, rfl⟩ := h
                    obtain ⟨rfl, rfl⟩ := ih (pre ++ [c.write i (f r)])
                      (by simpa using hrest)
                    simp [swept, sweep, view, hseen, hp]

/-- **An undisturbed `UPDATE`** writes a new version of every visible row that
qualifies. -/
theorem visits_targets {i : Nat} {p : ρ → Bool} {f : ρ → ρ} {t u : Table ρ}
    {rs : List ρ} (h : visits i p f (t.targets i p) t = some (rs, u)) :
    rs = t.swept i p f ∧ u = t.sweep i p f :=
  visits_suffix [] (by simpa using h)

/-! ## Frames: nobody touches the versions another transaction holds -/

/-- Transaction `i` holds the same versions at the same places. -/
def Same (i : Nat) (t t' : Table ρ) : Prop :=
  ∀ (k : Nat) (c : Cell ρ), c.heldBy i = true →
    (t[k]? = some c ↔ t'[k]? = some c)

theorem Same.refl (i : Nat) (t : Table ρ) : Same i t t := fun _ _ _ => Iff.rfl

theorem Same.trans {i : Nat} {t u v : Table ρ} (h : Same i t u)
    (h' : Same i u v) : Same i t v :=
  fun k c hc => (h k c hc).trans (h' k c hc)

/-- What a transaction holds, read off place by place. -/
theorem Same.own {i : Nat} {t t' : Table ρ} (h : Same i t t') :
    t'.own i = t.own i := by
  induction t generalizing t' with
  | nil =>
      refine own_eq_nil.mpr fun c hc => ?_
      obtain ⟨k, hk⟩ := List.mem_iff_getElem?.mp hc
      cases hheld : c.heldBy i with
      | false => rfl
      | true => simpa using (h k c hheld).mpr hk
  | cons c t ih =>
      cases t' with
      | nil =>
          refine (own_eq_nil.mpr fun d hd => ?_).symm
          obtain ⟨k, hk⟩ := List.mem_iff_getElem?.mp hd
          cases hheld : d.heldBy i with
          | false => rfl
          | true => simpa using (h k d hheld).mp hk
      | cons c' t' =>
          have hrest : Same i t t' := fun k d hd => by
            simpa using h (k + 1) d hd
          have hown : t'.filter (Cell.heldBy i) = t.filter (Cell.heldBy i) :=
            ih hrest
          simp only [Table.own, List.filter_cons, hown]
          cases hc : c.heldBy i with
          | true =>
              have heq : c' = c := by simpa using (h 0 c hc).mp rfl
              rw [heq, hc]
          | false =>
              cases hc' : c'.heldBy i with
              | false => rfl
              | true =>
                  have heq : c = c' := by simpa using (h 0 c' hc').mpr rfl
                  rw [heq, hc'] at hc
                  cases hc

theorem same_visit {i j k : Nat} (hne : j ≠ i) {p : ρ → Bool} {f : ρ → ρ}
    {t t' : Table ρ} {o : Option ρ} (h : t.visit j p f k = some (o, t')) :
    Same i t t' := by
  rcases visit_cases h with ⟨_, rfl, _⟩ | ⟨pre, c, post, r, rfl, rfl, hb, _, _, _, rfl⟩
  · exact Same.refl i _
  · have hc : c.heldBy i = false := by
      obtain ⟨r', _ | ⟨l, v⟩⟩ := c
      · rfl
      · simp only [Cell.blocks_locked, bne_eq_false_iff_eq] at hb
        simp [hb, hne]
    intro m d hd
    by_cases hm : m = pre.length
    · subst hm
      simp only [List.getElem?_append_right (Nat.le_refl _), Nat.sub_self,
        List.getElem?_cons_zero, Option.some.injEq]
      constructor
      · rintro rfl
        rw [hc] at hd
        cases hd
      · rintro rfl
        simp [hne] at hd
    · rcases Nat.lt_or_ge m pre.length with hlt | hge
      · simp [List.getElem?_append_left hlt]
      · obtain ⟨n, rfl⟩ := Nat.exists_eq_add_of_lt (Nat.lt_of_le_of_ne hge (Ne.symm hm))
        simp [List.getElem?_append_right, Nat.add_assoc]

theorem same_insert {i j : Nat} (hne : j ≠ i) (r : ρ) (t : Table ρ) :
    Same i t (t.insert j r) := by
  intro k c hc
  rcases Nat.lt_or_ge k t.length with hlt | hge
  · simp [insert, List.getElem?_append_left hlt]
  · constructor
    · intro h
      rw [List.getElem?_eq_none hge] at h
      cases h
    · intro h
      rw [insert, List.getElem?_append_right hge] at h
      obtain ⟨_, hfresh⟩ := List.getElem?_eq_some_iff.mp h
      simp only [List.getElem_singleton] at hfresh
      subst hfresh
      simp [hne] at hc

theorem same_commit {i j : Nat} (hne : j ≠ i) (t : Table ρ) :
    Same i t (t.commit j) := by
  intro k c hc
  simp only [commit, List.getElem?_map]
  constructor
  · intro h
    rw [h, Option.map_some, Cell.commit_of_heldBy hne hc]
  · intro h
    obtain ⟨d, hd, rfl⟩ := Option.map_eq_some_iff.mp h
    rw [Cell.heldBy_commit hne] at hc
    rw [hd, Cell.commit_of_heldBy hne hc]

theorem same_rollback {i j : Nat} (hne : j ≠ i) (t : Table ρ) :
    Same i t (t.rollback j) := by
  intro k c hc
  simp only [rollback, List.getElem?_map]
  constructor
  · intro h
    rw [h, Option.map_some, Cell.rollback_of_heldBy hne hc]
  · intro h
    obtain ⟨d, hd, rfl⟩ := Option.map_eq_some_iff.mp h
    rw [Cell.heldBy_rollback hne] at hc
    rw [hd, Cell.rollback_of_heldBy hne hc]

/-- After a transaction has ended it holds nothing. -/
theorem own_commit_self (i : Nat) (t : Table ρ) : (t.commit i).own i = [] := by
  rw [own_eq_nil]
  intro c hc
  obtain ⟨d, _, rfl⟩ := List.mem_map.mp hc
  obtain ⟨r, _ | ⟨j, v⟩⟩ := d
  · rfl
  · by_cases hj : j = i <;> simp [Cell.commit, hj]

theorem own_rollback_self (i : Nat) (t : Table ρ) :
    (t.rollback i).own i = [] := by
  rw [own_eq_nil]
  intro c hc
  obtain ⟨d, _, rfl⟩ := List.mem_map.mp hc
  obtain ⟨r, _ | ⟨j, v⟩⟩ := d
  · rfl
  · by_cases hj : j = i <;> simp [Cell.rollback, hj]

/-- A transaction that holds nothing changes nothing when it ends. -/
theorem commit_of_own_nil {i : Nat} {t : Table ρ} (h : t.own i = []) :
    t.commit i = t := by
  rw [own_eq_nil] at h
  exact (List.map_congr_left fun c hc =>
    Cell.commit_of_not_heldBy (h c hc)).trans (List.map_id t)

theorem rollback_of_own_nil {i : Nat} {t : Table ρ} (h : t.own i = []) :
    t.rollback i = t := by
  rw [own_eq_nil] at h
  exact (List.map_congr_left fun c hc =>
    Cell.rollback_of_not_heldBy (h c hc)).trans (List.map_id t)

/-- An `UPDATE` that writes nothing changes nothing. -/
theorem sweep_of_swept_nil {i : Nat} {p : ρ → Bool} {f : ρ → ρ} {t : Table ρ}
    (h : t.swept i p f = []) : t.sweep i p f = t := by
  simp only [swept, List.map_eq_nil_iff, List.filter_eq_nil_iff] at h
  refine (List.map_congr_left fun c hc => ?_).trans (List.map_id t)
  cases hseen : c.seenBy i with
  | none => rfl
  | some r =>
      have hr : r ∈ t.view i := List.mem_filterMap.mpr ⟨c, hc, hseen⟩
      simp [h r hr]

/-- What an `UPDATE` has written is there once its transaction commits. -/
theorem mem_rows_sweep {i : Nat} {p : ρ → Bool} {f : ρ → ρ} {t : Table ρ}
    {r : ρ} (h : r ∈ t.swept i p f) : r ∈ ((t.sweep i p f).commit i).rows := by
  simp only [swept, List.mem_map, List.mem_filter, view,
    List.mem_filterMap] at h
  obtain ⟨v, ⟨⟨c, hc, hseen⟩, hp⟩, rfl⟩ := h
  refine mem_rows.mpr ⟨(c.write i (f v)).commit i, ?_, ?_⟩
  · refine List.mem_map_of_mem (List.mem_map.mpr ⟨c, hc, ?_⟩)
    simp [hseen, hp]
  · simp [Cell.write, Cell.commit]

/-- An undisturbed `UPDATE` of an unlocked table, committed. -/
theorem sweep_commit_unlocked {i : Nat} {p : ρ → Bool} {f : ρ → ρ}
    {t : Table ρ} (h : ∀ c ∈ t, c.pending = none) :
    (t.sweep i p f).commit i = t.map fun c => match c.committed with
      | some r => if p r then ⟨some (f r), none⟩ else c
      | none => c := by
  simp only [commit, sweep, List.map_map]
  refine List.map_congr_left fun c hc => ?_
  obtain ⟨o, q⟩ := c
  obtain rfl : q = none := h _ hc
  cases o with
  | none => rfl
  | some r =>
      cases hp : p r <;> simp [hp, Cell.write, Cell.commit]

/-- A row inserted by the transaction is there once it commits. -/
theorem rows_insert_commit (i : Nat) (r : ρ) (t : Table ρ) :
    ((t.insert i r).commit i).rows = (t.commit i).rows ++ [r] := by
  simp [insert, commit, rows, Cell.fresh, Cell.commit]

/-- A transaction that holds nothing sees the committed rows. -/
theorem view_of_own_nil {i : Nat} {t : Table ρ} (h : t.own i = []) :
    t.view i = t.rows := by
  rw [own_eq_nil] at h
  exact List.filterMap_congr fun c hc => Cell.seenBy_of_not_heldBy (h c hc)

end Table

end DpopAuth.Verified.RowVersions
