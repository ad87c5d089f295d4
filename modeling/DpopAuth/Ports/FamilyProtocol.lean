import Mathlib.Data.List.Nodup
import Mathlib.Data.List.Pairwise
import DpopAuth.Verified.TransactionRules
import DpopAuth.Ports.Repo

/-!
# The refresh-token family protocol

An abstract account of what a session may do to `dpop_refresh_tokens`, and
what follows from it for a family.  It says nothing of calls or statements:
a `Move` locks an active row by revoking it, inserts the first row of a family
its session reserved, inserts the successor of the one row its session has
locked, commits, rolls back, or leaves the table alone.

The invariant is one relation between two cells of the table, `Before`: of two
rows of one family the later continues the session of the earlier, and the
earlier is revoked, or is being revoked by the transaction that is inserting
the later one.

## Main results

* `Move.inv` — every move keeps the invariant.
* `Change.kept` — a revoked row is never written again.
* `Change.extinct`, `Change.closed`, `Change.sweep` — what a family's
  revocation may rely on while other sessions move.
-/

namespace DpopAuth.Ports.FamilyProtocol

open DpopAuth.Verified.RowVersions
open DpopAuth.Verified.Transactions
open DpopAuth.Verified.TransactionRules
open DpopAuth.Ports.Schema
open DpopAuth.Ports.Service
open DpopAuth.Ports.Repo

/-! ## Rows and cells -/

abbrev Tokens := Table RefreshTokenRow

abbrev tokens (w : Srv) : Tokens := w.db .refreshTokens

/-- The same token: the rows differ in `revoked_at` at most. -/
def SameToken (r v : RefreshTokenRow) : Prop :=
  v = { r with revokedAt := v.revokedAt }

/-- The same session: one user, one key, one end. -/
structure SameSession (r v : RefreshTokenRow) : Prop where
  userId : v.userId = r.userId
  dpopJkt : v.dpopJkt = r.dpopJkt
  expiresAt : v.expiresAt = r.expiresAt

theorem SameToken.refl (r : RefreshTokenRow) : SameToken r r := rfl

theorem SameToken.revoke (now : DateTime) (r : RefreshTokenRow) :
    SameToken r (r.revoke now) := rfl

theorem SameToken.tokenHash {r v : RefreshTokenRow} (h : SameToken r v) :
    v.tokenHash = r.tokenHash := by rw [h]

theorem SameToken.fam {r v : RefreshTokenRow} (h : SameToken r v) :
    v.fam = r.fam := by rw [h]

theorem SameToken.session {r v : RefreshTokenRow} (h : SameToken r v) :
    SameSession r v := by
  constructor <;> rw [h]

theorem SameSession.symm {r v : RefreshTokenRow} (h : SameSession r v) :
    SameSession v r := ⟨h.1.symm, h.2.symm, h.3.symm⟩

theorem SameSession.trans {r v u : RefreshTokenRow} (h : SameSession r v)
    (h' : SameSession v u) : SameSession r u :=
  ⟨h'.1.trans h.1, h'.2.trans h.2, h'.3.trans h.3⟩

/-- The forms a cell can take. -/
inductive Shape : Cell RefreshTokenRow → Prop
  | empty : Shape ⟨none, none⟩
  | plain (r : RefreshTokenRow) : Shape ⟨some r, none⟩
  | locked (i : Nat) (now : DateTime) (r : RefreshTokenRow)
      (active : r.revokedAt = none) : Shape ⟨some r, some (i, r.revoke now)⟩
  | inserted (i : Nat) (r : RefreshTokenRow) (active : r.revokedAt = none) :
      Shape ⟨none, some (i, r)⟩

/-- A committed, revoked row that nobody holds. -/
def Settled (c : Cell RefreshTokenRow) : Prop :=
  c.pending = none ∧ ∃ r, c.committed = some r ∧ r.revokedAt ≠ none

/-- Session `i` is revoking the row. -/
def LockedBy (i : Nat) (c : Cell RefreshTokenRow) : Prop :=
  c.heldBy i = true ∧ c.committed ≠ none

/-- Session `i` has inserted the row and not yet committed. -/
def FreshBy (i : Nat) (c : Cell RefreshTokenRow) : Prop :=
  c.heldBy i = true ∧ c.committed = none

/-- The earlier of two rows of a family gives way to the later one. -/
def Superseded (c d : Cell RefreshTokenRow) : Prop :=
  Settled c ∨ ∃ i, LockedBy i c ∧ FreshBy i d

/-- Of two rows, the second inserted after the first: they are different
tokens, and if they belong to one family the second continues the session of
the first, which gives way to it. -/
def Before (c d : Cell RefreshTokenRow) : Prop :=
  ∀ r v, c.row? = some r → d.row? = some v → r.tokenHash ≠ v.tokenHash ∧
    (r.fam = v.fam → SameSession r v ∧ Superseded c d)

/-! ## The invariant -/

/-- What holds of the table between any two steps. -/
structure FamInv (t : Tokens) : Prop where
  shape : ∀ c ∈ t, Shape c
  order : t.Pairwise Before
  /-- A row being inserted is the only one of its family, or continues a row
  its session has locked. -/
  anchored : ∀ d ∈ t, ∀ i v, FreshBy i d → d.row? = some v →
    (∃ c ∈ t, LockedBy i c ∧ ∃ r, c.row? = some r ∧ r.fam = v.fam) ∨
      ∀ c ∈ t, ∀ r, c.row? = some r → r.fam = v.fam → c = d

/-- A committed row of the family exists. -/
def Known (fam : Uuid) (t : Tokens) : Prop :=
  ∃ c ∈ t, ∃ r, c.committed = some r ∧ r.fam = fam

/-- The family is known, and all its rows are revoked for good. -/
structure Extinct (fam : Uuid) (t : Tokens) : Prop where
  known : Known fam t
  settled : ∀ c ∈ t, ∀ r, c.row? = some r → r.fam = fam → Settled c

/-- The family is known, and every row of it that is not revoked yet is being
revoked by session `i`. -/
structure Closed (i : Nat) (fam : Uuid) (t : Tokens) : Prop where
  known : Known fam t
  covered : ∀ c ∈ t, ∀ r, c.row? = some r → r.fam = fam →
    Settled c ∨ LockedBy i c

/-- While session `i` sweeps over the family with the targets `ks` to go:
every committed row is revoked, held by `i`, or still a target. -/
def Sweep (i : Nat) (fam : Uuid) (ks : List Nat) (t : Tokens) : Prop :=
  ∀ (k : Nat) c r, t[k]? = some c → c.committed = some r → r.fam = fam →
    r.revokedAt = none → c.heldBy i = true ∨ k ∈ ks

/-- Thread `i` drew the family, and no row of it exists. -/
structure Reserved (i : Nat) (fam : Uuid) (w : Srv) : Prop where
  drawn : (i, fam) ∈ w.mem.drawn
  unused : ∀ c ∈ tokens w, ∀ r, c.row? = some r → r.fam ≠ fam

/-- Why session `i` may insert `r`: it reserved the family, or it has locked
one row, and `r` continues the session of that row. -/
def Entitled (i : Nat) (w : Srv) (r : RefreshTokenRow) : Prop :=
  Reserved i r.fam w ∨ ∃ c old, (tokens w).own i = [c] ∧
    c.committed = some old ∧ r.fam = old.fam ∧ SameSession old r

/-- No row, committed or not, carries the hash. -/
def NewHash (tokenHash : String) (t : Tokens) : Prop :=
  ∀ c ∈ t, ∀ r, c.row? = some r → r.tokenHash ≠ tokenHash

/-- The invariant of the whole state.  `quiet` is for runs in which nobody
rotates a family while another session revokes it. -/
structure Inv (quiet : Prop) (w : Srv) : Prop where
  fams : FamInv (tokens w)
  drawn : (w.mem.drawn.map Prod.snd).Nodup
  covered : ∀ c ∈ tokens w, ∀ r, c.row? = some r →
    r.fam ∈ w.mem.drawn.map Prod.snd
  reuse : quiet → ∀ i fam d, w.lastCommit i = some (.reuseDetected fam, d) →
    Extinct fam (d .refreshTokens) ∧ Extinct fam (tokens w)

/-! ## Moves -/

/-- What one move of session `i` does to the tokens, the ledger of drawn
identifiers and the record of commits. -/
inductive Change (quiet : Prop) (i : Nat) (w w' : Srv) : Prop
  | keep (table : tokens w' = tokens w)
      (ledger : w'.mem.drawn = w.mem.drawn)
      (record : w'.lastCommit = w.lastCommit)
  | draw (v : Uuid) (table : tokens w' = tokens w)
      (unseen : v ∉ w.mem.drawn.map Prod.snd)
      (ledger : w'.mem.drawn = (i, v) :: w.mem.drawn)
      (record : w'.lastCommit = w.lastCommit)
  | undo (table : tokens w' = (tokens w).rollback i)
      (ledger : w'.mem.drawn = w.mem.drawn)
      (record : w'.lastCommit = w.lastCommit)
  | lock (pre post : Tokens) (r : RefreshTokenRow) (now : DateTime)
      (here : tokens w = pre ++ ⟨some r, none⟩ :: post)
      (active : r.revokedAt = none)
      (table : tokens w' = pre ++ ⟨some r, some (i, r.revoke now)⟩ :: post)
      (ledger : w'.mem.drawn = w.mem.drawn)
      (record : w'.lastCommit = w.lastCommit)
  | insert (r : RefreshTokenRow) (active : r.revokedAt = none)
      (entitled : Entitled i w r) (hash : NewHash r.tokenHash (tokens w))
      (table : tokens w' = (tokens w).insert i r)
      (ledger : w'.mem.drawn = w.mem.drawn)
      (record : w'.lastCommit = w.lastCommit)
  | commit (table : tokens w' = (tokens w).commit i)
      (ledger : w'.mem.drawn = w.mem.drawn)
      (record : w'.lastCommit = w.lastCommit ∨ ∃ pt,
        w'.lastCommit = Function.update w.lastCommit i (some (pt, w'.db)) ∧
          (quiet → ∀ fam, pt = .reuseDetected fam → Closed i fam (tokens w)))
      (undisturbed : quiet → ∀ d ∈ tokens w, FreshBy i d → ∀ v,
        d.row? = some v → Known v.fam (tokens w) → ∀ j, j ≠ i →
          (w.session j).query ≠ some (.revokeRefreshTokenFamily v.fam))

/-- One move of session `i`. -/
structure Move (quiet : Prop) (i : Nat) (w w' : Srv) : Prop where
  frame : w.Frame i w'
  change : Change quiet i w w'

/-! ## Cells that end a transaction -/

variable {i j : Nat} {c d : Cell RefreshTokenRow} {r v : RefreshTokenRow}
  {t : Tokens}

theorem Shape.commit (h : Shape c) (i : Nat) : Shape (c.commit i) := by
  cases h with
  | empty => exact .empty
  | plain r => exact .plain r
  | locked j now r active =>
      by_cases hj : j = i
      · simpa [Cell.commit, hj] using Shape.plain _
      · simpa [Cell.commit, hj] using Shape.locked j now r active
  | inserted j r active =>
      by_cases hj : j = i
      · simpa [Cell.commit, hj] using Shape.plain _
      · simpa [Cell.commit, hj] using Shape.inserted j r active

theorem Shape.rollback (h : Shape c) (i : Nat) : Shape (c.rollback i) := by
  cases h with
  | empty => exact .empty
  | plain r => exact .plain r
  | locked j now r active =>
      by_cases hj : j = i
      · simpa [Cell.rollback, hj] using Shape.plain _
      · simpa [Cell.rollback, hj] using Shape.locked j now r active
  | inserted j r active =>
      by_cases hj : j = i
      · simpa [Cell.rollback, hj] using Shape.empty
      · simpa [Cell.rollback, hj] using Shape.inserted j r active

/-- A commit does not change which token a cell is about. -/
theorem Shape.row?_commit (h : Shape c) (hv : (c.commit i).row? = some v) :
    ∃ r, c.row? = some r ∧ SameToken r v := by
  cases h with
  | empty => cases hv
  | plain r => exact ⟨v, hv, .refl v⟩
  | locked j now r active =>
      refine ⟨r, rfl, ?_⟩
      by_cases hj : j = i <;> simp [Cell.commit, hj] at hv <;> subst hv
      · exact .revoke now r
      · exact .refl r
  | inserted j r active =>
      refine ⟨r, rfl, ?_⟩
      by_cases hj : j = i <;> simp [Cell.commit, hj] at hv <;> subst hv <;>
        exact .refl r

theorem row?_rollback (hv : (c.rollback i).row? = some v) :
    c.row? = some v := by
  obtain ⟨r, _ | ⟨j, u⟩⟩ := c
  · exact hv
  · by_cases hj : j = i
    · cases r with
      | none => simp [Cell.rollback, hj] at hv
      | some r => simpa [Cell.rollback, hj] using hv
    · simpa [Cell.rollback, hj] using hv

theorem Settled.not_held (h : Settled c) : c.heldBy i = false := by
  obtain ⟨r, p⟩ := c
  obtain ⟨rfl, _⟩ := h
  rfl

theorem Settled.not_locked (h : Settled c) : ¬ LockedBy i c := fun hl => by
  have hfree := h.not_held (i := i)
  rw [hl.1] at hfree
  cases hfree

theorem LockedBy.unique (h : LockedBy i c) (h' : LockedBy j c) : i = j := by
  obtain ⟨_, _ | ⟨k, u⟩⟩ := c
  · cases h.1
  · have h₁ : k = i := by simpa using h.1
    have h₂ : k = j := by simpa using h'.1
    rw [← h₁, h₂]

theorem Settled.commit (h : Settled c) : Settled (c.commit i) := by
  rwa [Cell.commit_of_not_heldBy h.not_held]

theorem Settled.rollback (h : Settled c) : Settled (c.rollback i) := by
  rwa [Cell.rollback_of_not_heldBy h.not_held]

/-- The committed row a session is revoking is active until then. -/
theorem Shape.active_of_locked (h : Shape c) (hl : LockedBy i c)
    (hr : c.committed = some r) : r.revokedAt = none := by
  cases h with
  | empty => exact absurd rfl hl.2
  | plain v => simp [LockedBy] at hl
  | locked j now v active =>
      cases hr
      exact active
  | inserted j v active => exact absurd rfl hl.2

theorem Shape.settled_of_locked (h : Shape c) (hl : LockedBy i c) :
    Settled (c.commit i) := by
  cases h with
  | empty => exact absurd rfl hl.2
  | plain r => simp [LockedBy] at hl
  | locked j now r active =>
      obtain rfl : j = i := by simpa [LockedBy] using hl
      simp [Cell.commit, Settled, RefreshTokenRow.revoke]
  | inserted j r active => exact absurd rfl hl.2

theorem FreshBy.row?_rollback (h : FreshBy i c) : (c.rollback i).row? = none := by
  obtain ⟨r, _ | ⟨j, u⟩⟩ := c
  · cases h.1
  · obtain rfl : r = none := h.2
    obtain rfl : j = i := by simpa using h.1
    simp [Cell.rollback]

theorem LockedBy.commit_ne (hne : j ≠ i) (h : LockedBy j c) :
    LockedBy j (c.commit i) := by
  rwa [Cell.commit_of_heldBy (Ne.symm hne) h.1]

theorem LockedBy.rollback_ne (hne : j ≠ i) (h : LockedBy j c) :
    LockedBy j (c.rollback i) := by
  rwa [Cell.rollback_of_heldBy (Ne.symm hne) h.1]

theorem FreshBy.commit_ne (hne : j ≠ i) (h : FreshBy j c) :
    FreshBy j (c.commit i) := by
  rwa [Cell.commit_of_heldBy (Ne.symm hne) h.1]

theorem FreshBy.rollback_ne (hne : j ≠ i) (h : FreshBy j c) :
    FreshBy j (c.rollback i) := by
  rwa [Cell.rollback_of_heldBy (Ne.symm hne) h.1]

/-- A row still being inserted after a commit belongs to another session. -/
theorem FreshBy.of_commit (h : FreshBy j (c.commit i)) :
    j ≠ i ∧ FreshBy j c := by
  obtain ⟨r, _ | ⟨k, u⟩⟩ := c
  · cases h.1
  · by_cases hk : k = i
    · simp [Cell.commit, hk, FreshBy] at h
    · simp only [Cell.commit, hk, if_false] at h
      refine ⟨?_, h⟩
      rintro rfl
      exact hk (by simpa using h.1)

theorem FreshBy.of_rollback (h : FreshBy j (c.rollback i)) :
    j ≠ i ∧ FreshBy j c := by
  obtain ⟨r, _ | ⟨k, u⟩⟩ := c
  · cases h.1
  · by_cases hk : k = i
    · simp [Cell.rollback, hk, FreshBy] at h
    · simp only [Cell.rollback, hk, if_false] at h
      refine ⟨?_, h⟩
      rintro rfl
      exact hk (by simpa using h.1)

theorem Superseded.commit (hc : Shape c) (h : Superseded c d) :
    Superseded (c.commit i) (d.commit i) := by
  rcases h with h | ⟨j, hl, hf⟩
  · exact .inl h.commit
  · by_cases hj : j = i
    · subst hj
      exact .inl (hc.settled_of_locked hl)
    · exact .inr ⟨j, hl.commit_ne hj, hf.commit_ne hj⟩

theorem Before.commit (hc : Shape c) (hd : Shape d) (h : Before c d) :
    Before (c.commit i) (d.commit i) := by
  intro r' v' hr' hv'
  obtain ⟨r, hr, hrr⟩ := hc.row?_commit hr'
  obtain ⟨v, hv, hvv⟩ := hd.row?_commit hv'
  obtain ⟨hhash, hfam⟩ := h r v hr hv
  rw [hrr.tokenHash, hvv.tokenHash, hrr.fam, hvv.fam]
  refine ⟨hhash, fun heq => ?_⟩
  obtain ⟨hsess, hsup⟩ := hfam heq
  exact ⟨(hrr.session.symm.trans hsess).trans hvv.session, hsup.commit hc⟩

theorem Before.rollback (h : Before c d) :
    Before (c.rollback i) (d.rollback i) := by
  intro r v hr hv
  obtain ⟨hhash, hfam⟩ := h r v (row?_rollback hr) (row?_rollback hv)
  refine ⟨hhash, fun heq => ⟨(hfam heq).1, ?_⟩⟩
  rcases (hfam heq).2 with hs | ⟨j, hl, hf⟩
  · exact .inl hs.rollback
  · by_cases hj : j = i
    · subst hj
      rw [hf.row?_rollback] at hv
      cases hv
    · exact .inr ⟨j, hl.rollback_ne hj, hf.rollback_ne hj⟩

/-! ## The invariant of the table -/

theorem FamInv.empty : FamInv [] :=
  ⟨fun _ h => absurd h List.not_mem_nil, .nil,
    fun _ h => absurd h List.not_mem_nil⟩

theorem FamInv.commit (h : FamInv t) (i : Nat) : FamInv (t.commit i) where
  shape c hc := by
    obtain ⟨d, hd, rfl⟩ := List.mem_map.mp hc
    exact (h.shape d hd).commit i
  order := List.pairwise_map.mpr <| h.order.imp_of_mem fun hc hd hb =>
    hb.commit (h.shape _ hc) (h.shape _ hd)
  anchored d' hd' j v hf hv := by
    obtain ⟨d, hd, rfl⟩ := List.mem_map.mp hd'
    obtain ⟨hj, hfd⟩ := hf.of_commit
    have hsame : d.commit i = d := Cell.commit_of_heldBy (Ne.symm hj) hfd.1
    rw [hsame] at hv
    rcases h.anchored d hd j v hfd hv with ⟨c, hc, hl, r, hr, hfam⟩ | honly
    · have hsame' : c.commit i = c := Cell.commit_of_heldBy (Ne.symm hj) hl.1
      exact .inl ⟨c, hsame' ▸ List.mem_map_of_mem hc, hl, r, hr, hfam⟩
    · refine .inr fun c' hc' r' hr' hfam => ?_
      obtain ⟨c, hc, rfl⟩ := List.mem_map.mp hc'
      obtain ⟨r, hr, hrr⟩ := (h.shape c hc).row?_commit hr'
      rw [honly c hc r hr (hrr.fam ▸ hfam)]

theorem FamInv.rollback (h : FamInv t) (i : Nat) : FamInv (t.rollback i) where
  shape c hc := by
    obtain ⟨d, hd, rfl⟩ := List.mem_map.mp hc
    exact (h.shape d hd).rollback i
  order := List.pairwise_map.mpr <| h.order.imp fun hb => hb.rollback
  anchored d' hd' j v hf hv := by
    obtain ⟨d, hd, rfl⟩ := List.mem_map.mp hd'
    obtain ⟨hj, hfd⟩ := hf.of_rollback
    have hsame : d.rollback i = d := Cell.rollback_of_heldBy (Ne.symm hj) hfd.1
    rw [hsame] at hv
    rcases h.anchored d hd j v hfd hv with ⟨c, hc, hl, r, hr, hfam⟩ | honly
    · have hsame' : c.rollback i = c :=
        Cell.rollback_of_heldBy (Ne.symm hj) hl.1
      exact .inl ⟨c, hsame' ▸ List.mem_map_of_mem hc, hl, r, hr, hfam⟩
    · refine .inr fun c' hc' r' hr' hfam => ?_
      obtain ⟨c, hc, rfl⟩ := List.mem_map.mp hc'
      rw [honly c hc r' (row?_rollback hr') hfam]

/-- An active row is the last one of its family. -/
theorem Before.active_last {r : RefreshTokenRow} (hr : r.revokedAt = none)
    (hb : Before ⟨some r, none⟩ d) (hv : d.row? = some v) : r.fam ≠ v.fam := by
  intro hfam
  rcases ((hb r v rfl hv).2 hfam).2 with ⟨_, u, hu, hrev⟩ | ⟨k, hl, _⟩
  · cases hu
    exact hrev hr
  · cases hl.1

theorem FamInv.lock {pre post : Tokens} {now : DateTime}
    (h : FamInv (pre ++ ⟨some r, none⟩ :: post)) (hr : r.revokedAt = none)
    (i : Nat) : FamInv (pre ++ ⟨some r, some (i, r.revoke now)⟩ :: post) := by
  obtain ⟨hpre, hpost, hcross⟩ := List.pairwise_append.mp h.order
  obtain ⟨hlast, hpost⟩ := List.pairwise_cons.mp hpost
  have hmem : ∀ c, c ∈ pre ++ ⟨some r, some (i, r.revoke now)⟩ :: post →
      c = ⟨some r, some (i, r.revoke now)⟩ ∨
        c ∈ pre ++ ⟨some r, none⟩ :: post := by
    intro c hc
    simp only [List.mem_append, List.mem_cons] at hc ⊢
    rcases hc with hc | hc | hc
    · exact .inr (.inl hc)
    · exact .inl hc
    · exact .inr (.inr (.inr hc))
  refine ⟨fun c hc => ?_, List.pairwise_append.mpr ⟨hpre,
    List.pairwise_cons.mpr ⟨fun d hd => ?_, hpost⟩, fun c hc d hd => ?_⟩, ?_⟩
  · rcases hmem c hc with rfl | hc
    · exact .locked i now r hr
    · exact h.shape c hc
  · intro u v hu hv
    cases hu
    exact ⟨(hlast d hd r v rfl hv).1, fun hfam =>
      absurd hfam ((hlast d hd).active_last hr hv)⟩
  · rcases List.mem_cons.mp hd with rfl | hd
    · intro u v hu hv
      cases hv
      obtain ⟨hhash, hfam⟩ := hcross c hc _ List.mem_cons_self u r hu rfl
      refine ⟨hhash, fun heq => ⟨(hfam heq).1, ?_⟩⟩
      rcases (hfam heq).2 with hs | ⟨k, _, hf⟩
      · exact .inl hs
      · cases hf.1
    · exact hcross c hc d (List.mem_cons_of_mem _ hd)
  · intro d hd j v hf hv
    rcases hmem d hd with rfl | hd
    · cases hf.2
    · rcases h.anchored d hd j v hf hv with ⟨c, hc, hl, u, hu, hfam⟩ | honly
      · refine .inl ⟨c, ?_, hl, u, hu, hfam⟩
        simp only [List.mem_append, List.mem_cons] at hc ⊢
        rcases hc with hc | rfl | hc
        · exact .inl hc
        · cases hl.1
        · exact .inr (.inr hc)
      · refine .inr fun c hc u hu hfam => ?_
        rcases hmem c hc with rfl | hc
        · cases hu
          have heq := honly ⟨some r, none⟩
            (List.mem_append_right _ List.mem_cons_self) r rfl hfam
          rw [← heq] at hf
          cases hf.1
        · exact honly c hc u hu hfam

/-- The rows of the family of an inserted row give way to it. -/
theorem FamInv.insert (h : FamInv t) (hr : r.revokedAt = none)
    (hhash : NewHash r.tokenHash t)
    (hcover : ∀ c ∈ t, ∀ v, c.row? = some v → v.fam = r.fam →
      SameSession v r ∧ (Settled c ∨ LockedBy i c))
    (hanchor : (∃ c ∈ t, LockedBy i c ∧ ∃ v, c.row? = some v ∧ v.fam = r.fam) ∨
      ∀ c ∈ t, ∀ v, c.row? = some v → v.fam ≠ r.fam) :
    FamInv (t.insert i r) where
  shape c hc := by
    rcases List.mem_append.mp hc with hc | hc
    · exact h.shape c hc
    · rw [List.mem_singleton.mp hc]
      exact .inserted i r hr
  order := by
    refine List.pairwise_append.mpr ⟨h.order, List.pairwise_singleton _ _, ?_⟩
    intro c hc d hd u v hu hv
    rw [List.mem_singleton.mp hd] at hv ⊢
    cases hv
    refine ⟨hhash c hc u hu, fun hfam => ?_⟩
    obtain ⟨hsess, hs | hl⟩ := hcover c hc u hu hfam
    · exact ⟨hsess, .inl hs⟩
    · exact ⟨hsess, .inr ⟨i, hl, by simp, rfl⟩⟩
  anchored d hd j v hf hv := by
    rcases List.mem_append.mp hd with hd | hd
    · rcases h.anchored d hd j v hf hv with ⟨c, hc, hrest⟩ | honly
      · exact .inl ⟨c, List.mem_append_left _ hc, hrest⟩
      · refine .inr fun c hc u hu hfam => ?_
        rcases List.mem_append.mp hc with hc | hc
        · exact honly c hc u hu hfam
        · rw [List.mem_singleton.mp hc] at hu
          cases hu
          rcases (hcover d hd v hv hfam.symm).2 with hs | hl
          · exact absurd hf.1 (by simp [hs.not_held])
          · exact absurd hf.2 hl.2
    · rw [List.mem_singleton.mp hd] at hf hv ⊢
      cases hv
      obtain rfl : i = j := by simpa using hf.1
      rcases hanchor with ⟨c, hc, hrest⟩ | hnone
      · exact .inl ⟨c, List.mem_append_left _ hc, hrest⟩
      · refine .inr fun c hc u hu hfam => ?_
        rcases List.mem_append.mp hc with hc | hc
        · exact absurd hfam (hnone c hc u hu)
        · exact List.mem_singleton.mp hc

/-- A session that has locked one row of a family holds its end. -/
theorem FamInv.covered_of_own {old : RefreshTokenRow} (h : FamInv t)
    (hown : t.own i = [c]) (hold : c.committed = some old) :
    ∀ d ∈ t, ∀ v, d.row? = some v → v.fam = old.fam →
      SameSession v old ∧ (Settled d ∨ LockedBy i d) := by
  obtain ⟨pre, post, rfl, hpre, hheld, hpost⟩ := List.filter_eq_cons_iff.mp hown
  have hlocked : LockedBy i c := ⟨hheld, by simp [hold]⟩
  have hrow : c.row? = some old := by
    obtain ⟨_, p⟩ := c
    cases hold
    rfl
  obtain ⟨_, hord, hcross⟩ := List.pairwise_append.mp h.order
  obtain ⟨hlast, _⟩ := List.pairwise_cons.mp hord
  intro d hd v hv hfam
  rcases List.mem_append.mp hd with hd | hd
  · obtain ⟨hsess, hsup⟩ :=
      (hcross d hd c List.mem_cons_self v old hv hrow).2 hfam
    refine ⟨hsess, .inl ?_⟩
    rcases hsup with hs | ⟨k, _, hf⟩
    · exact hs
    · exact absurd hf.2 hlocked.2
  · rcases List.mem_cons.mp hd with rfl | hd
    · obtain rfl : old = v := Option.some.inj (hrow.symm.trans hv)
      exact ⟨⟨rfl, rfl, rfl⟩, .inr hlocked⟩
    · obtain ⟨hsess, hsup⟩ := (hlast d hd old v hrow hv).2 hfam.symm
      rcases hsup with hs | ⟨k, hl, hf⟩
      · rw [hs.not_held] at hheld
        cases hheld
      · -- the holder of `c` is `i`, and `i` holds nothing after `c`
        obtain rfl := hl.unique hlocked
        have hfree := List.filter_eq_nil_iff.mp hpost d hd
        exact absurd hf.1 hfree

/-! ## What a move does to a cell -/

/-- What a move of session `i` from `w` does to one cell. -/
inductive CellStep (quiet : Prop) (i : Nat) (w : Srv) :
    Cell RefreshTokenRow → Cell RefreshTokenRow → Prop
  | same (c : Cell RefreshTokenRow) : CellStep quiet i w c c
  | undone (c : Cell RefreshTokenRow) : CellStep quiet i w c (c.rollback i)
  | done (c : Cell RefreshTokenRow)
      (undisturbed : quiet → FreshBy i c → ∀ v, c.row? = some v →
        Known v.fam (tokens w) → ∀ j, j ≠ i →
          (w.session j).query ≠ some (.revokeRefreshTokenFamily v.fam)) :
      CellStep quiet i w c (c.commit i)
  | locked (r : RefreshTokenRow) (now : DateTime) (active : r.revokedAt = none) :
      CellStep quiet i w ⟨some r, none⟩ ⟨some r, some (i, r.revoke now)⟩

variable {quiet : Prop} {w w' : Srv} {fam : Uuid}

/-- Every cell after a move was there before it, or holds the inserted row. -/
theorem Change.origin (h : Change quiet i w w') {k : Nat}
    {c' : Cell RefreshTokenRow} (hk : (tokens w')[k]? = some c') :
    (∃ c, (tokens w)[k]? = some c ∧ CellStep quiet i w c c') ∨
      ∃ r, c' = .fresh i r ∧ Entitled i w r := by
  cases h with
  | keep htab => exact .inl ⟨c', htab ▸ hk, .same c'⟩
  | draw v htab => exact .inl ⟨c', htab ▸ hk, .same c'⟩
  | undo htab =>
      rw [htab, Table.rollback, List.getElem?_map] at hk
      obtain ⟨c, hc, rfl⟩ := Option.map_eq_some_iff.mp hk
      exact .inl ⟨c, hc, .undone c⟩
  | lock pre post r now hhere hactive htab =>
      rw [htab] at hk
      rw [hhere]
      by_cases hpos : k = pre.length
      · subst hpos
        simp only [List.getElem?_append_right (Nat.le_refl _), Nat.sub_self,
          List.getElem?_cons_zero, Option.some.injEq] at hk ⊢
        subst hk
        exact .inl ⟨_, rfl, .locked r now hactive⟩
      · refine .inl ⟨c', ?_, .same c'⟩
        rcases Nat.lt_or_ge k pre.length with hlt | hge
        · rwa [List.getElem?_append_left hlt] at hk ⊢
        · obtain ⟨n, rfl⟩ := Nat.exists_eq_add_of_lt
            (Nat.lt_of_le_of_ne hge (Ne.symm hpos))
          simpa [List.getElem?_append_right, Nat.add_assoc] using hk
  | insert r hactive hentitled hhash htab =>
      rw [htab, Table.insert] at hk
      rcases Nat.lt_or_ge k (tokens w).length with hlt | hge
      · rw [List.getElem?_append_left hlt] at hk
        exact .inl ⟨c', hk, .same c'⟩
      · rw [List.getElem?_append_right hge] at hk
        obtain ⟨_, hget⟩ := List.getElem?_eq_some_iff.mp hk
        exact .inr ⟨r, by simpa using hget.symm, hentitled⟩
  | commit htab hledger hrecord hquiet =>
      rw [htab, Table.commit, List.getElem?_map] at hk
      obtain ⟨c, hc, rfl⟩ := Option.map_eq_some_iff.mp hk
      exact .inl ⟨c, hc, .done c fun hq =>
        hquiet hq c (List.mem_of_getElem? hc)⟩

/-- No cell disappears, and none changes its place. -/
theorem Change.stays (h : Change quiet i w w') {k : Nat}
    (hk : (tokens w)[k]? = some c) :
    ∃ c', (tokens w')[k]? = some c' ∧ CellStep quiet i w c c' := by
  cases h with
  | keep htab => exact ⟨c, htab ▸ hk, .same c⟩
  | draw v htab => exact ⟨c, htab ▸ hk, .same c⟩
  | undo htab =>
      refine ⟨c.rollback i, ?_, .undone c⟩
      rw [htab, Table.rollback, List.getElem?_map, hk, Option.map_some]
  | lock pre post r now hhere hactive htab =>
      rw [hhere] at hk
      by_cases hat : k = pre.length
      · subst hat
        simp only [List.getElem?_append_right (Nat.le_refl _), Nat.sub_self,
          List.getElem?_cons_zero, Option.some.injEq] at hk
        subst hk
        exact ⟨_, by simp [htab], .locked r now hactive⟩
      · refine ⟨c, ?_, .same c⟩
        rw [htab, ← hk]
        rcases Nat.lt_or_ge k pre.length with hlt | hge
        · rw [List.getElem?_append_left hlt, List.getElem?_append_left hlt]
        · obtain ⟨n, rfl⟩ := Nat.exists_eq_add_of_lt
            (Nat.lt_of_le_of_ne hge (Ne.symm hat))
          simp [List.getElem?_append_right, Nat.add_assoc]
  | insert r hactive hentitled hhash htab =>
      refine ⟨c, ?_, .same c⟩
      obtain ⟨hlt, _⟩ := List.getElem?_eq_some_iff.mp hk
      rw [htab, Table.insert, List.getElem?_append_left hlt, hk]
  | commit htab _ _ hundisturbed =>
      refine ⟨c.commit i, ?_, .done c fun hq hf v hv hknown j hj =>
        hundisturbed hq c (List.mem_of_getElem? hk) hf v hv hknown j hj⟩
      rw [htab, Table.commit, List.getElem?_map, hk, Option.map_some]

theorem Change.image (h : Change quiet i w w') (hc : c ∈ tokens w) :
    ∃ c' ∈ tokens w', CellStep quiet i w c c' := by
  obtain ⟨k, hk⟩ := List.mem_iff_getElem?.mp hc
  obtain ⟨c', hk', hstep⟩ := h.stays hk
  exact ⟨c', List.mem_of_getElem? hk', hstep⟩

theorem CellStep.row? (h : CellStep quiet i w c d) (hc : Shape c)
    (hv : d.row? = some v) : ∃ r, c.row? = some r ∧ SameToken r v := by
  cases h with
  | same => exact ⟨v, hv, .refl v⟩
  | undone => exact ⟨v, row?_rollback hv, .refl v⟩
  | done => exact hc.row?_commit hv
  | locked r now _ => exact ⟨v, hv, .refl v⟩

theorem CellStep.committed (h : CellStep quiet i w c d) (hc : Shape c)
    (hr : c.committed = some r) :
    ∃ v, d.committed = some v ∧ SameToken r v ∧
      (r.revokedAt ≠ none → v = r) := by
  cases h with
  | same => exact ⟨r, hr, .refl r, fun _ => rfl⟩
  | undone => exact ⟨r, (Cell.rollback_committed i c).trans hr, .refl r, fun _ => rfl⟩
  | done =>
      cases hheld : c.heldBy i with
      | false =>
          rw [Cell.commit_of_not_heldBy hheld]
          exact ⟨r, hr, .refl r, fun _ => rfl⟩
      | true =>
          have hlocked : LockedBy i c := ⟨hheld, by simp [hr]⟩
          obtain ⟨_, v, hv, _⟩ := hc.settled_of_locked hlocked
          have hrow : (c.commit i).row? = some v := by
            simp [Cell.row?, hv]
          obtain ⟨u, hu, hsame⟩ := hc.row?_commit hrow
          have hru : c.row? = some r := by simp [Cell.row?, hr]
          obtain rfl := Option.some.inj (hru.symm.trans hu)
          exact ⟨v, hv, hsame, fun hrev =>
            absurd (hc.active_of_locked hlocked hr) hrev⟩
  | locked u now _ => exact ⟨r, hr, .refl r, fun _ => rfl⟩

theorem CellStep.of_settled (h : CellStep quiet i w c d) (hc : Settled c) :
    d = c := by
  cases h with
  | same => rfl
  | undone => exact Cell.rollback_of_not_heldBy hc.not_held
  | done => exact Cell.commit_of_not_heldBy hc.not_held
  | locked r now active =>
      obtain ⟨_, u, hu, hrev⟩ := hc
      cases hu
      exact absurd active hrev

theorem CellStep.of_heldBy (h : CellStep quiet i w c d) (hne : j ≠ i)
    (hc : c.heldBy j = true) : d = c := by
  cases h with
  | same => rfl
  | undone => exact Cell.rollback_of_heldBy (Ne.symm hne) hc
  | done => exact Cell.commit_of_heldBy (Ne.symm hne) hc
  | locked r now active => cases hc

/-! ## What moves preserve -/

theorem Known.row? (h : Known fam t) :
    ∃ c ∈ t, ∃ r, c.row? = some r ∧ r.fam = fam := by
  obtain ⟨c, hc, r, hr, hfam⟩ := h
  exact ⟨c, hc, r, by simp [Cell.row?, hr], hfam⟩

theorem Change.known (h : Change quiet i w w') (hf : FamInv (tokens w))
    (hk : Known fam (tokens w)) : Known fam (tokens w') := by
  obtain ⟨c, hc, r, hr, rfl⟩ := hk
  obtain ⟨c', hc', hstep⟩ := h.image hc
  obtain ⟨v, hv, hsame, _⟩ := hstep.committed (hf.shape c hc) hr
  exact ⟨c', hc', v, hv, hsame.fam⟩

/-- A committed, revoked row is never written again. -/
theorem Change.kept (h : Change quiet i w w') (hf : FamInv (tokens w))
    (hr : r ∈ (tokens w).rows) (hrev : r.revokedAt ≠ none) :
    r ∈ (tokens w').rows := by
  obtain ⟨c, hc, hcr⟩ := Table.mem_rows.mp hr
  obtain ⟨c', hc', hstep⟩ := h.image hc
  obtain ⟨v, hv, _, hsame⟩ := hstep.committed (hf.shape c hc) hcr
  exact Table.mem_rows.mpr ⟨c', hc', hsame hrev ▸ hv⟩

theorem entitled_not_extinct (hr : Entitled i w r) (hk : Known r.fam (tokens w))
    (hnot : ∀ c ∈ tokens w, ∀ v, c.row? = some v → v.fam = r.fam →
      ¬ LockedBy i c) : False := by
  rcases hr with hres | ⟨c, old, hown, hold, hfam, _⟩
  · obtain ⟨c, hc, v, hv, heq⟩ := hk.row?
    exact hres.unused c hc v hv heq
  · obtain ⟨hc, hheld⟩ := Table.mem_own.mp (hown ▸ List.mem_singleton_self c)
    exact hnot c hc old (by simp [Cell.row?, hold]) hfam.symm
      ⟨hheld, by simp [hold]⟩

/-- A family whose rows are all revoked stays so. -/
theorem Change.extinct (h : Change quiet i w w') (hf : FamInv (tokens w))
    (he : Extinct fam (tokens w)) : Extinct fam (tokens w') where
  known := h.known hf he.known
  settled c' hc' v hv hfam := by
    obtain ⟨k, hk⟩ := List.mem_iff_getElem?.mp hc'
    rcases h.origin hk with ⟨c, hc, hstep⟩ | ⟨r, rfl, hr⟩
    · have hmem := List.mem_of_getElem? hc
      obtain ⟨u, hu, hsame⟩ := hstep.row? (hf.shape c hmem) hv
      have hs := he.settled c hmem u hu (hsame.fam ▸ hfam)
      exact hstep.of_settled hs ▸ hs
    · cases hv
      refine (entitled_not_extinct hr (hfam ▸ he.known) ?_).elim
      intro c hc u hu huf hl
      exact (he.settled c hc u hu (huf.trans hfam)).not_locked hl

/-- A family session `j` is about to revoke is out of reach for the others. -/
theorem Change.closed (h : Change quiet i w w') (hf : FamInv (tokens w))
    (hne : j ≠ i) (he : Closed j fam (tokens w)) : Closed j fam (tokens w') where
  known := h.known hf he.known
  covered c' hc' v hv hfam := by
    obtain ⟨k, hk⟩ := List.mem_iff_getElem?.mp hc'
    rcases h.origin hk with ⟨c, hc, hstep⟩ | ⟨r, rfl, hr⟩
    · have hmem := List.mem_of_getElem? hc
      obtain ⟨u, hu, hsame⟩ := hstep.row? (hf.shape c hmem) hv
      rcases he.covered c hmem u hu (hsame.fam ▸ hfam) with hs | hl
      · exact .inl (hstep.of_settled hs ▸ hs)
      · exact .inr (hstep.of_heldBy hne hl.1 ▸ hl)
    · cases hv
      refine (entitled_not_extinct hr (hfam ▸ he.known) ?_).elim
      intro c hc u hu huf hl
      rcases he.covered c hc u hu (huf.trans hfam) with hs | hl'
      · exact hs.not_locked hl
      · exact hne (hl'.unique hl)

/-- A sweep over a family loses nothing to the others, as long as nobody
commits a new row of it. -/
theorem Change.sweep (h : Change quiet i w w') (hf : FamInv (tokens w))
    (hne : j ≠ i) (hq : quiet) (hknown : Known fam (tokens w))
    (hquery : (w.session j).query = some (.revokeRefreshTokenFamily fam))
    {ks : List Nat} (hs : Sweep j fam ks (tokens w)) :
    Sweep j fam ks (tokens w') := by
  intro k c' r hk hr hfam hactive
  rcases h.origin hk with ⟨c, hc, hstep⟩ | ⟨v, rfl, _⟩
  · have hmem := List.mem_of_getElem? hc
    have hback : c.committed = some r → c'.heldBy j = true ∨ k ∈ ks := by
      intro hcr
      rcases hs k c r hc hcr hfam hactive with hheld | hin
      · exact .inl (hstep.of_heldBy hne hheld ▸ hheld)
      · exact .inr hin
    cases hstep with
    | same => exact hback hr
    | undone => exact hback ((Cell.rollback_committed i c).symm.trans hr)
    | done _ hquiet =>
        cases hheld : c.heldBy i with
        | false =>
            rw [Cell.commit_of_not_heldBy hheld] at hr hback ⊢
            exact hback hr
        | true =>
            have hrow : (c.commit i).row? = some r := by simp [Cell.row?, hr]
            obtain ⟨v, hv, hsame⟩ := (hf.shape c hmem).row?_commit hrow
            cases hcc : c.committed with
            | none =>
                refine absurd hquery ?_
                rw [← hfam, hsame.fam]
                exact hquiet hq ⟨hheld, hcc⟩ v hv
                  (by rw [← hsame.fam, hfam]; exact hknown) j hne
            | some u =>
                obtain ⟨_, x, hx, hrev⟩ :=
                  (hf.shape c hmem).settled_of_locked ⟨hheld, by simp [hcc]⟩
                rw [hx] at hr
                cases hr
                exact absurd hactive hrev
    | locked u now _ => exact hback hr
  · cases hr

/-- A reserved family is not used by the others. -/
theorem Change.reserved (h : Change quiet i w w') (hi : Inv quiet w)
    (hne : j ≠ i) (hr : Reserved j fam w) : Reserved j fam w' where
  drawn := by
    have hin := hr.drawn
    cases h with
    | draw v _ _ hledger => exact hledger ▸ List.mem_cons_of_mem _ hin
    | keep _ hledger => exact hledger ▸ hin
    | undo _ hledger => exact hledger ▸ hin
    | lock _ _ _ _ _ _ _ hledger => exact hledger ▸ hin
    | insert _ _ _ _ _ hledger => exact hledger ▸ hin
    | commit _ hledger => exact hledger ▸ hin
  unused c' hc' v hv hfam := by
    obtain ⟨k, hk⟩ := List.mem_iff_getElem?.mp hc'
    rcases h.origin hk with ⟨c, hc, hstep⟩ |
      ⟨r, rfl, hres | ⟨c, old, hown, hold, hf, _⟩⟩
    · have hmem := List.mem_of_getElem? hc
      obtain ⟨u, hu, hsame⟩ := hstep.row? (hi.fams.shape c hmem) hv
      exact hr.unused c hmem u hu (hsame.fam ▸ hfam)
    · cases hv
      have heq := List.inj_on_of_nodup_map hi.drawn hres.drawn hr.drawn hfam
      exact hne (congrArg Prod.fst heq).symm
    · cases hv
      have hc := (Table.mem_own.mp (hown ▸ List.mem_singleton_self c)).1
      exact hr.unused c hc old (by simp [Cell.row?, hold]) (hf ▸ hfam)

theorem Sweep.skip {ks : List Nat} {k : Nat}
    (h : Sweep i fam (k :: ks) t)
    (hskip : ∀ c r, t[k]? = some c → c.committed = some r → r.fam = fam →
      r.revokedAt = none → c.heldBy i = true) : Sweep i fam ks t := by
  intro m c r hm hr hfam hactive
  rcases h m c r hm hr hfam hactive with hheld | hin
  · exact .inl hheld
  · rcases List.mem_cons.mp hin with rfl | hin
    · exact .inl (hskip c r hm hr hfam hactive)
    · exact .inr hin

theorem Sweep.lock {ks : List Nat} {pre post : Tokens}
    (h : Sweep i fam (pre.length :: ks) (pre ++ ⟨some r, none⟩ :: post)) :
    Sweep i fam ks (pre ++ ⟨some r, some (i, v)⟩ :: post) := by
  intro m c u hm hu hfam hactive
  by_cases hmk : m = pre.length
  · subst hmk
    simp only [List.getElem?_append_right (Nat.le_refl _), Nat.sub_self,
      List.getElem?_cons_zero, Option.some.injEq] at hm
    subst hm
    exact .inl (by simp)
  · have hm' : (pre ++ (⟨some r, none⟩ : Cell RefreshTokenRow) :: post)[m]? =
        some c := by
      rcases Nat.lt_or_ge m pre.length with hlt | hge
      · rwa [List.getElem?_append_left hlt] at hm ⊢
      · obtain ⟨n, rfl⟩ := Nat.exists_eq_add_of_lt
          (Nat.lt_of_le_of_ne hge (Ne.symm hmk))
        simpa [List.getElem?_append_right, Nat.add_assoc] using hm
    rcases h m c u hm' hu hfam hactive with hheld | hin
    · exact .inl hheld
    · exact .inr ((List.mem_cons.mp hin).resolve_left hmk)

/-- A session that holds one inserted row only has founded its family. -/
theorem FamInv.founded (h : FamInv t) (hown : t.own i = [d])
    (hfresh : d.committed = none) (hv : d.row? = some v) : ¬ Known v.fam t := by
  rintro ⟨c, hc, r, hr, hfam⟩
  obtain ⟨hd, hheld⟩ := Table.mem_own.mp (hown ▸ List.mem_singleton_self d)
  rcases h.anchored d hd i v ⟨hheld, hfresh⟩ hv with ⟨e, he, hl, _⟩ | honly
  · have hin := Table.mem_own.mpr ⟨he, hl.1⟩
    rw [hown, List.mem_singleton] at hin
    exact hl.2 (hin ▸ hfresh)
  · rw [honly c hc r (by simp [Cell.row?, hr]) hfam, hfresh] at hr
    cases hr

/-- A hash names one cell. -/
theorem FamInv.cell_unique (h : FamInv t) (hc : c ∈ t) (hd : d ∈ t)
    (hr : c.row? = some r) (hv : d.row? = some v)
    (heq : r.tokenHash = v.tokenHash) : c = d := by
  have hsymm : Std.Symm fun c d : Cell RefreshTokenRow =>
      ∀ r v, c.row? = some r → d.row? = some v → r.tokenHash ≠ v.tokenHash :=
    ⟨fun _ _ hb r v hr hv => Ne.symm (hb v r hv hr)⟩
  by_contra hne
  have hpair : t.Pairwise fun c d =>
      ∀ r v, c.row? = some r → d.row? = some v → r.tokenHash ≠ v.tokenHash :=
    h.order.imp fun hb r v hr hv => (hb r v hr hv).1
  exact hpair.forall hc hd hne r v hr hv heq

/-- The unique key on `token_hash` keeps the hashes apart. -/
theorem FamInv.newHash (h : FamInv t)
    (hblock : ∀ c ∈ t, c.blocks i = true →
      ¬ (c.committed.any (r.dup) = true ∨
        c.pending.any (fun x => r.dup x.2) = true))
    (hview : ∀ x ∈ t.view i, r.dup x = false) : NewHash r.tokenHash t := by
  intro c hc x hx heq
  have hdup : r.dup x = true := by simp [RefreshTokenRow.dup, heq]
  cases hb : c.blocks i with
  | true =>
      refine hblock c hc hb ?_
      cases h.shape c hc with
      | empty => cases hx
      | plain => cases hb
      | locked k now u _ =>
          cases hx
          exact .inl (by simpa using hdup)
      | inserted k u _ =>
          cases hx
          exact .inr (by simpa using hdup)
  | false =>
      have hno : ∀ y, c.seenBy i = some y → r.dup y = false := fun y hy =>
        hview y (List.mem_filterMap.mpr ⟨c, hc, hy⟩)
      cases h.shape c hc with
      | empty => cases hx
      | plain =>
          have hfalse := hno x hx
          rw [hdup] at hfalse
          cases hfalse
      | locked k now u _ =>
          obtain rfl : k = i := by simpa using hb
          have hfalse := hno (u.revoke now) (by simp [Cell.seenBy])
          cases hx
          have hsame : r.dup (x.revoke now) = r.dup x := rfl
          rw [hsame, hdup] at hfalse
          cases hfalse
      | inserted k u _ =>
          obtain rfl : k = i := by simpa using hb
          have hfalse := hno u (by simp [Cell.seenBy])
          cases hx
          rw [hdup] at hfalse
          cases hfalse

theorem Closed.commit (h : Closed i fam t) (hf : FamInv t) :
    Extinct fam (t.commit i) where
  known := by
    obtain ⟨c, hc, r, hr, hfam⟩ := h.known
    cases hheld : c.heldBy i with
    | false =>
        refine ⟨c.commit i, List.mem_map_of_mem hc, r, ?_, hfam⟩
        rwa [Cell.commit_of_not_heldBy hheld]
    | true =>
        obtain ⟨_, v, hv, _⟩ :=
          (hf.shape c hc).settled_of_locked ⟨hheld, by simp [hr]⟩
        obtain ⟨u, hu, hsame⟩ := (hf.shape c hc).row?_commit
          (show (c.commit i).row? = some v by simp [Cell.row?, hv])
        have hru : c.row? = some r := by simp [Cell.row?, hr]
        obtain rfl := Option.some.inj (hru.symm.trans hu)
        exact ⟨c.commit i, List.mem_map_of_mem hc, v, hv, hsame.fam.trans hfam⟩
  settled c' hc' v hv hfam := by
    obtain ⟨c, hc, rfl⟩ := List.mem_map.mp hc'
    obtain ⟨u, hu, hsame⟩ := (hf.shape c hc).row?_commit hv
    rcases h.covered c hc u hu (hsame.fam ▸ hfam) with hs | hl
    · exact hs.commit
    · exact (hf.shape c hc).settled_of_locked hl

/-- **Every move keeps the invariant of the table.** -/
theorem Change.fams (h : Change quiet i w w') (hf : FamInv (tokens w)) :
    FamInv (tokens w') := by
  cases h with
  | keep htab => exact htab ▸ hf
  | draw v htab => exact htab ▸ hf
  | undo htab => exact htab ▸ hf.rollback i
  | lock pre post r now hhere hactive htab =>
      exact htab ▸ FamInv.lock (hhere ▸ hf) hactive i
  | insert r hactive hentitled hhash htab =>
      rcases hentitled with hres | ⟨c, old, hown, hlocked, hfam, hsess⟩
      · exact htab ▸ hf.insert hactive hhash
          (fun c hc v hv hfam => absurd hfam (hres.unused c hc v hv))
          (.inr hres.unused)
      · obtain ⟨hc, hheld⟩ :=
          Table.mem_own.mp (hown ▸ List.mem_singleton_self c)
        refine htab ▸ hf.insert hactive hhash (fun d hd v hv hvf => ?_) (.inl
          ⟨c, hc, ⟨hheld, by simp [hlocked]⟩, old,
            by simp [Cell.row?, hlocked], hfam.symm⟩)
        obtain ⟨hs, hrest⟩ :=
          hf.covered_of_own hown hlocked d hd v hv (hvf.trans hfam)
        exact ⟨hs.trans hsess, hrest⟩
  | commit htab => exact htab ▸ hf.commit i

/-- **Every move keeps the invariant.** -/
theorem Move.inv (h : Move quiet i w w') (hi : Inv quiet w) : Inv quiet w' where
  fams := h.change.fams hi.fams
  drawn := by
    have hd := hi.drawn
    cases h.change with
    | draw v _ hunseen hledger =>
        rw [hledger, List.map_cons]
        exact List.nodup_cons.mpr ⟨hunseen, hd⟩
    | keep _ hledger => exact hledger ▸ hd
    | undo _ hledger => exact hledger ▸ hd
    | lock _ _ _ _ _ _ _ hledger => exact hledger ▸ hd
    | insert _ _ _ _ _ hledger => exact hledger ▸ hd
    | commit _ hledger => exact hledger ▸ hd
  covered c' hc' v hv := by
    have hgrow : ∀ x ∈ w.mem.drawn.map Prod.snd,
        x ∈ w'.mem.drawn.map Prod.snd := by
      intro x hx
      cases h.change with
      | draw v _ _ hledger =>
          rw [hledger, List.map_cons]
          exact List.mem_cons_of_mem _ hx
      | keep _ hledger => exact hledger ▸ hx
      | undo _ hledger => exact hledger ▸ hx
      | lock _ _ _ _ _ _ _ hledger => exact hledger ▸ hx
      | insert _ _ _ _ _ hledger => exact hledger ▸ hx
      | commit _ hledger => exact hledger ▸ hx
    apply hgrow
    obtain ⟨k, hk⟩ := List.mem_iff_getElem?.mp hc'
    rcases h.change.origin hk with
      ⟨c, hc, hstep⟩ | ⟨r, rfl, hres | ⟨c, old, hown, hold, hfam, _⟩⟩
    · have hmem := List.mem_of_getElem? hc
      obtain ⟨u, hu, hsame⟩ := hstep.row? (hi.fams.shape c hmem) hv
      exact hsame.fam ▸ hi.covered c hmem u hu
    · cases hv
      exact List.mem_map.mpr ⟨_, hres.drawn, rfl⟩
    · cases hv
      have hc := (Table.mem_own.mp (hown ▸ List.mem_singleton_self c)).1
      rw [hfam]
      exact hi.covered c hc old (by simp [Cell.row?, hold])
  reuse hq j fam d hd := by
    have hold : w.lastCommit j = some (.reuseDetected fam, d) →
        Extinct fam (d .refreshTokens) ∧ Extinct fam (tokens w') := fun h' =>
      ⟨(hi.reuse hq j fam d h').1,
        h.change.extinct hi.fams (hi.reuse hq j fam d h').2⟩
    cases h.change with
    | keep _ _ hrecord => exact hold (hrecord ▸ hd)
    | draw _ _ _ _ hrecord => exact hold (hrecord ▸ hd)
    | undo _ _ hrecord => exact hold (hrecord ▸ hd)
    | lock _ _ _ _ _ _ _ _ hrecord => exact hold (hrecord ▸ hd)
    | insert _ _ _ _ _ _ hrecord => exact hold (hrecord ▸ hd)
    | commit htab _ hrecord =>
        rcases hrecord with hsame | ⟨pt, hupd, hclosed⟩
        · exact hold (hsame ▸ hd)
        · rw [hupd] at hd
          by_cases hj : j = i
          · subst hj
            simp only [Function.update_self, Option.some.injEq,
              Prod.mk.injEq] at hd
            obtain ⟨rfl, rfl⟩ := hd
            have he := (hclosed hq fam rfl).commit hi.fams
            rw [← htab] at he
            exact ⟨he, he⟩
          · rw [Function.update_of_ne hj] at hd
            exact hold hd

end DpopAuth.Ports.FamilyProtocol
