import DpopAuth.Ports.TenantTx

/-!
# Every statement runs for its own tenant

Connections go from hand to hand, and a call can be dropped at any moment.
Nevertheless the parameter on the connection of a guard is the tenant of that
guard from its first statement to its last, whatever the connection was used
for before; a transaction without a tenant finds none; and every version that
is not committed yet has the tenant of the call that wrote it.

`TableEffect` and `StatementStep` say once what a statement can do.  All
invariants are derived from them.

## Main results

* `statements_scoped` — the tenant a statement runs for, in every reachable
  state.
-/

namespace DpopAuth.Ports.TenantScope

open DpopAuth.Verified.Resumption
open DpopAuth.Verified.RowVersions
open DpopAuth.Verified.Transactions
open DpopAuth.Verified.Machines
open DpopAuth.Verified.RowPolicies
open DpopAuth.Ports.TenantTx

variable {τ : Type} [DecidableEq τ] {Row : τ → Type} {υ α β : Type}
  [DecidableEq υ] {A : Application τ Row υ} {t : τ}

/-- The tenant of a stored row. -/
def ownerOf (A : Application τ Row υ) (s : Stored (Row t)) : Option υ :=
  some (A.tenantId t s.row)

section

omit [DecidableEq τ]

theorem owner_of_allows {scope : Option υ} {s : Stored (Row t)}
    (h : allows A scope s.row = true) : ownerOf A s = scope :=
  beq_iff_eq.mp h

theorem owner_of_qualifies {scope : Option υ} {p : Row t → Bool}
    {s : Stored (Row t)} (h : qualifies A scope p s = true) :
    ownerOf A s = scope := by
  simp only [qualifies, Bool.and_eq_true] at h
  exact owner_of_allows h.2.1

end

/-! ## What a statement can do -/

/-- **What becomes of the tables**, in a step of connection `k` for a tenant. -/
inductive TableEffect (A : Application τ Row υ) (k : Nat) (scope : Option υ)
    (x : ∀ t, Table (Stored (Row t))) : (∀ t, Table (Stored (Row t))) → Prop
  | same : TableEffect A k scope x x
  | rollback : TableEffect A k scope x fun t => (x t).rollback k
  | commit : TableEffect A k scope x fun t => (x t).commit k
  | insert (t : τ) (s : Stored (Row t)) (hs : ownerOf A s = scope) :
      TableEffect A k scope x (Function.update x t ((x t).insert k s))
  | write (t : τ) (pos : Nat) (c : Cell (Stored (Row t)))
      (r s : Stored (Row t)) (hc : (x t)[pos]? = some c)
      (hfree : c.blocks k = false) (hseen : c.seenBy k = some r)
      (hr : ownerOf A r = scope) (hs : ownerOf A s = scope) :
      TableEffect A k scope x
        (Function.update x t ((x t).set pos (c.write k s)))

theorem forall_update {P : ∀ t, Table (Stored (Row t)) → Prop}
    {x : ∀ t, Table (Stored (Row t))} {y : Table (Stored (Row t))}
    (hx : ∀ t, P t (x t)) (hy : P t y) (t' : τ) :
    P t' (Function.update x t y t') := by
  by_cases heq : t' = t
  · subst heq
    rw [Function.update_self]
    exact hy
  · rw [Function.update_of_ne heq]
    exact hx t'

omit [DecidableEq υ] in
theorem TableEffect.owned {k : Nat} {scope : Option υ}
    {x y : ∀ t, Table (Stored (Row t))} {writesFor : Nat → Option (Option υ)}
    (h : TableEffect A k scope x y)
    (hx : ∀ t, Owned (ownerOf A) writesFor (x t))
    (hk : writesFor k = some scope) (t : τ) :
    Owned (ownerOf A) writesFor (y t) := by
  cases h with
  | same => exact hx t
  | rollback => exact (hx t).rollback
  | commit => exact (hx t).commit
  | insert t₀ s hs =>
      refine forall_update (P := fun _ => Owned (ownerOf A) writesFor) hx ?_ t
      exact (hx t₀).insert (by rw [hk, hs])
  | write t₀ pos c r s hc hfree hseen hr hs =>
      refine forall_update (P := fun _ => Owned (ownerOf A) writesFor) hx ?_ t
      exact (hx t₀).write hc hfree hseen (by rw [hk, hs]) (by rw [hr, hs])

/-- A transaction block that is open, or aborted. -/
def InBlock (st : TxStatus) : Prop := st = .explicit ∨ st = .aborted

/-- **What a statement on connection `k` can do** for a tenant. -/
structure StatementStep (A : Application τ Row υ) (k : Nat) (scope : Option υ)
    (w w' : TenantSrv Row υ) : Prop where
  mem : w'.mem = w.mem
  clock : w'.clock = w.clock
  session : ∀ j, j ≠ k → w'.session j = w.session j
  block : InBlock (w.session k).status → InBlock (w'.session k).status
  tables : TableEffect A k scope w.db w'.db

section Statements

variable {k : Nat} {scope : Option υ} {w w' u : TenantSrv Row υ}

section

omit [DecidableEq υ]

theorem step_setSession {s : Session Unit}
    (hs : InBlock (w.session k).status → InBlock s.status) :
    StatementStep A k scope w (w.setSession k s) where
  mem := rfl
  clock := rfl
  session _ hj := Function.update_of_ne hj _ _
  block h := by
    show InBlock (Function.update w.session k s k).status
    rw [Function.update_self]
    exact hs h
  tables := .same

theorem step_open : StatementStep A k scope w (w.openStatement k ()) := by
  unfold World.openStatement
  split
  · rename_i hidle
    refine step_setSession fun h => ?_
    rw [hidle] at h
    rcases h with h | h <;> cases h
  · exact step_setSession id

theorem step_fail : StatementStep A k scope w (w.failStatement k) where
  mem := rfl
  clock := rfl
  session _ hj := Function.update_of_ne hj _ _
  block h := by
    show InBlock (Function.update w.session k _ k).status
    rw [Function.update_self]
    rcases h with h | h <;> rw [h] <;> exact .inr rfl
  tables := .rollback

theorem step_complete (hblock : InBlock (w.session k).status) :
    StatementStep A k scope w (w.completeStatement k) := by
  unfold World.completeStatement
  split
  · rename_i himplicit
    rw [himplicit] at hblock
    rcases hblock with h | h <;> cases h
  · exact step_setSession id

/-- The tables do not change in the first step. -/
theorem StatementStep.after (h' : StatementStep A k scope u w')
    (h : StatementStep A k scope w u) (hsame : u.db = w.db) :
    StatementStep A k scope w w' where
  mem := h'.mem.trans h.mem
  clock := h'.clock.trans h.clock
  session j hj := (h'.session j hj).trans (h.session j hj)
  block hb := h'.block (h.block hb)
  tables := hsame ▸ h'.tables

/-- The tables do not change in the second step. -/
theorem StatementStep.before (h : StatementStep A k scope w u)
    (h' : StatementStep A k scope u w') (hsame : w'.db = u.db) :
    StatementStep A k scope w w' where
  mem := h'.mem.trans h.mem
  clock := h'.clock.trans h.clock
  session j hj := (h'.session j hj).trans (h.session j hj)
  block hb := h'.block (h.block hb)
  tables := hsame ▸ h.tables

theorem step_setTable {t : τ} {x : Table (Stored (Row t))}
    (h : TableEffect A k scope w.db (Function.update w.db t x)) :
    StatementStep A k scope w (w.setTable t x) :=
  ⟨rfl, rfl, fun _ _ => rfl, id, h⟩

end

section

omit [DecidableEq τ] [DecidableEq υ]

theorem db_open : (w.openStatement k ()).db = w.db := by
  unfold World.openStatement
  split <;> rfl

theorem mem_open : (w.openStatement k ()).mem = w.mem := by
  unfold World.openStatement
  split <;> rfl

theorem db_complete (hblock : InBlock (w.session k).status) :
    (w.completeStatement k).db = w.db := by
  unfold World.completeStatement
  split
  · rename_i himplicit
    rw [himplicit] at hblock
    rcases hblock with h | h <;> cases h
  · rfl

end

/-- The steps of a `SELECT`. -/
theorem selectRows_step (hblock : InBlock (w.session k).status)
    {r : Except SqlxError (Int × ∀ t, List (Row t))}
    (h : selectRows A k scope w = some (r, w')) :
    StatementStep A k scope w w' := by
  cases h
  exact step_complete hblock

theorem insertRow_step (hblock : InBlock (w.session k).status) {r : Int → Row t}
    {res : Except SqlxError Unit}
    (h : insertRow A t r k scope w = some (res, w')) :
    StatementStep A k scope w w' := by
  unfold insertRow at h
  split at h
  · rename_i hallowed
    split at h
    · cases h
    · cases h
      exact step_fail
    · rename_i x hx
      cases h
      have hinsert : StatementStep A k scope w (w.setTable t x) := by
        refine step_setTable ?_
        rw [(insertRows_one hx).1]
        exact .insert t ⟨r (w.now k), true⟩ (owner_of_allows hallowed)
      exact hinsert.before (step_complete (hinsert.block hblock))
        (db_complete (hinsert.block hblock))
  · cases h
    exact step_fail

theorem modifyStart_step {p : Int → Row t → Bool}
    {r : Except SqlxError (List Nat)}
    (h : modifyStart A t p k scope w = some (r, w')) :
    StatementStep A k scope w w' := by
  cases h
  exact ⟨rfl, rfl, fun _ _ => rfl, id, .same⟩

omit [DecidableEq υ] in
/-- A visit that writes. -/
theorem step_visit {q : Stored (Row t) → Bool}
    {f : Stored (Row t) → Stored (Row t)} {pos : Nat}
    (hq : ∀ s, q s = true → ownerOf A s = scope) {o : Option (Stored (Row t))}
    {x : Table (Stored (Row t))}
    (hvisit : (w.db t).visit k q f pos = some (o, x))
    (ho : ∀ s, o = some s → ownerOf A s = scope) :
    StatementStep A k scope w (w.setTable t x) := by
  refine step_setTable ?_
  rcases Table.visit_set hvisit with ⟨-, rfl, -⟩ |
    ⟨c, r, hc, hfree, hseen, hqr, rfl, rfl⟩
  · rw [Function.update_eq_self]
    exact .same
  · exact .write t pos c r (f r) hc hfree hseen (hq r hqr) (ho _ rfl)

theorem modifyVisit_step {p : Int → Row t → Bool}
    {f : Int → Row t → Option (Row t)} {pos : Nat}
    {r : Except SqlxError (Option (Row t))}
    (h : modifyVisit A t p f pos k scope w = some (r, w')) :
    StatementStep A k scope w w' := by
  unfold modifyVisit at h
  split at h
  · cases h
  · rename_i x hx
    cases h
    exact step_visit (fun s => owner_of_qualifies) hx fun s hs => by cases hs
  · rename_i s x hx
    split at h
    · rename_i hallowed
      split at h
      · cases h
      · cases h
        exact step_fail
      · cases h
        refine step_visit (fun s => owner_of_qualifies) hx fun s' hs' => ?_
        cases hs'
        exact owner_of_allows hallowed
    · cases h
      exact step_fail

omit [DecidableEq υ] in
theorem updateEnd_step {ch : Choice Unit} (hblock : InBlock (w.session k).status)
    {r : Except SqlxError Unit} (h : updateEnd () k ch w = some (r, w')) :
    StatementStep A k scope w w' := by
  rcases statement_cases h with ⟨-, rfl, -⟩ | ⟨-, rfl, -⟩ | ⟨-, hrun⟩
  · exact ⟨rfl, rfl, fun _ _ => rfl, id, .same⟩
  · exact step_fail
  · cases hrun
    have hopen : StatementStep A k scope w (w.openStatement k ()) := step_open
    exact (step_complete (hopen.block hblock)).after hopen db_open

/-! ## The tenant of a statement -/

/-- The parameter outside of a transaction that has set it: nothing, or an
empty string. -/
def Blank (s : Setting) : Prop := s.session = none ∨ s.session = some ""

section

omit [DecidableEq τ] [DecidableEq υ]

/-- **What the policy finds**, where the transaction has set the tenant, or
has none. -/
theorem policyTenant_eq {s : Setting} (hblank : Blank s)
    (hset : s.inTx = scope.map A.uuid.text) :
    policyTenant A.uuid s = .ok scope := by
  cases scope with
  | none =>
      have hcurrent : s.current = s.session := by
        unfold Setting.current
        rw [hset]
        rfl
      unfold policyTenant
      rw [hcurrent]
      rcases hblank with h | h <;> rw [h]
      simp
  | some u =>
      have hcurrent : s.current = some (A.uuid.text u) := by
        unfold Setting.current
        rw [hset]
        rfl
      unfold policyTenant
      rw [hcurrent]
      simp [A.uuid.text_ne, A.uuid.cast_text]

/-- A statement of a client, case by case. -/
theorem underPolicy_cases {f : Option υ → TenantSrv Row υ →
      Option (Except SqlxError β × TenantSrv Row υ)}
    {ch : Choice Unit} {r : Except SqlxError β}
    (htenant : policyTenant A.uuid (w.mem.setting k) = .ok scope)
    (h : underPolicy A f k ch w = some (r, w')) :
    ((w.session k).status = .aborted ∧ w' = w) ∨
      ((w.session k).status ≠ .aborted ∧ w' = w.failStatement k) ∨
      ((w.session k).status ≠ .aborted ∧
        f scope (w.openStatement k ()) = some (r, w')) := by
  rcases statement_cases h with ⟨hst, rfl, -⟩ | ⟨hst, rfl, -⟩ | ⟨hst, hrun⟩
  · exact .inl ⟨hst, rfl⟩
  · exact .inr (.inl ⟨hst, rfl⟩)
  · rw [mem_open, htenant] at hrun
    exact .inr (.inr ⟨hst, hrun⟩)

end

omit [DecidableEq υ] in
theorem underPolicy_step {f : Option υ → TenantSrv Row υ →
      Option (Except SqlxError β × TenantSrv Row υ)}
    {ch : Choice Unit} {r : Except SqlxError β}
    (htenant : policyTenant A.uuid (w.mem.setting k) = .ok scope)
    (hblock : InBlock (w.session k).status)
    (hf : ∀ {u}, InBlock (u.session k).status → f scope u = some (r, w') →
      StatementStep A k scope u w')
    (h : underPolicy A f k ch w = some (r, w')) : StatementStep A k scope w w' := by
  rcases underPolicy_cases htenant h with ⟨-, rfl⟩ | ⟨-, rfl⟩ | ⟨-, hrun⟩
  · exact ⟨rfl, rfl, fun _ _ => rfl, id, .same⟩
  · exact step_fail
  · have hopen : StatementStep A k scope w (w.openStatement k ()) := step_open
    exact (hf (hopen.block hblock) hrun).after hopen db_open

end Statements

/-! ## Calls -/

/-- The tenant of the call that has a connection. -/
def writesFor (w : TenantSrv Row υ) (k : Nat) : Option (Option υ) :=
  (w.mem.use k).scope?

/-- **The server**: no parameter is left over from a transaction, and every
open version has the tenant of the call that has the connection. -/
structure ConfinedSrv (A : Application τ Row υ) (w : TenantSrv Row υ) :
    Prop where
  blank : ∀ k, Blank (w.mem.setting k)
  idle : ∀ k, w.mem.use k = .idle →
    (w.mem.setting k).inTx = none ∧ (w.session k).status = .idle
  owned : ∀ t, Owned (ownerOf A) (writesFor w) (w.db t)

/-- The call of thread `i` has a guard on connection `k`. -/
structure HasGuard (A : Application τ Row υ) (i : Nat)
    (q : TenantCall Row υ α) (k : Nat) (w : TenantSrv Row υ) : Prop where
  use : w.mem.use k = .held i q.scope
  tenant : (w.mem.setting k).inTx = q.scope.map A.uuid.text
  block : InBlock (w.session k).status

/-- What is known where a call stands. -/
def Placed (A : Application τ Row υ) (i : Nat) (q : TenantCall Row υ α)
    (w : TenantSrv Row υ) : Stage Row υ α → Prop
  | .acquire => True
  | .beginTx k => w.mem.use k = .held i q.scope ∧
      (w.mem.setting k).inTx = none
  | .setTenant k u => w.mem.use k = .held i q.scope ∧ q.scope = some u ∧
      InBlock (w.session k).status
  | .run k _ => HasGuard A i q k w
  | .sweep k _ _ _ _ _ _ => HasGuard A i q k w
  | .done _ => True

/-- Nothing happens to a connection. -/
structure SameConn (k : Nat) (w w' : TenantSrv Row υ) : Prop where
  use : w'.mem.use k = w.mem.use k
  setting : w'.mem.setting k = w.mem.setting k
  session : w'.session k = w.session k

/-- **What a step of thread `i` can do**, for a call with this tenant. -/
structure CallStep (A : Application τ Row υ) (i : Nat) (scope : Option υ)
    (w w' : TenantSrv Row υ) : Prop where
  clock : w'.clock = w.clock
  conn : ∀ k, SameConn k w w' ∨
    (w.mem.use k = .idle ∨ w.mem.use k = .held i scope) ∧
      (w'.mem.use k = .idle ∨ w'.mem.use k = .held i scope ∨
        w'.mem.use k = .closing scope)
  tables : w'.db = w.db ∨
    ∃ k, w.mem.use k = .held i scope ∧ TableEffect A k scope w.db w'.db

section Calls

variable {i j k : Nat} {scope : Option υ} {w w' u : TenantSrv Row υ}
  {q : TenantCall Row υ α}

section

omit [DecidableEq τ] [DecidableEq υ]

theorem SameConn.refl (k : Nat) (w : TenantSrv Row υ) : SameConn k w w :=
  ⟨rfl, rfl, rfl⟩

theorem same_handTo {x : Use υ} (h : j ≠ k) :
    SameConn j w (handTo k x w) := ⟨Function.update_of_ne h _ _, rfl, rfl⟩

theorem same_setSetting {s : Setting} (h : j ≠ k) :
    SameConn j w (setSetting k s w) := ⟨rfl, Function.update_of_ne h _ _, rfl⟩

theorem SameConn.trans (h : SameConn k w u) (h' : SameConn k u w') :
    SameConn k w w' :=
  ⟨h'.use.trans h.use, h'.setting.trans h.setting, h'.session.trans h.session⟩

@[simp] theorem use_handTo {x : Use υ} : (handTo k x w).mem.use k = x :=
  Function.update_self _ _ _

@[simp] theorem setting_setSetting {s : Setting} :
    (setSetting k s w).mem.setting k = s := Function.update_self _ _ _

end

theorem Blank.endTx {s : Setting} (h : Blank s) : Blank s.endTx := by
  unfold Setting.endTx
  split
  · exact h
  · refine .inr ?_
    rcases h with h | h <;> rw [h] <;> rfl

section

omit [DecidableEq τ] [DecidableEq υ]

theorem confined_handTo {x : Use υ} (h : ConfinedSrv A w)
    (hown : (∀ t, (w.db t).own k = []) ∨ x.scope? = writesFor w k)
    (hidle : x = .idle →
      (w.mem.setting k).inTx = none ∧ (w.session k).status = .idle) :
    ConfinedSrv A (handTo k x w) where
  blank := h.blank
  idle j hj := by
    by_cases heq : j = k
    · subst heq
      exact hidle (use_handTo.symm.trans hj)
    · exact h.idle j ((same_handTo heq).use.symm.trans hj)
  owned t := by
    refine (h.owned t).change fun j => ?_
    by_cases heq : j = k
    · subst heq
      rcases hown with hown | hsame
      · exact .inl (hown t)
      · refine .inr ?_
        show ((handTo j x w).mem.use j).scope? = _
        rw [use_handTo, hsame]
    · refine .inr ?_
      show ((handTo k x w).mem.use j).scope? = _
      rw [(same_handTo heq).use]
      rfl

theorem confined_setSetting {s : Setting} (h : ConfinedSrv A w)
    (hblank : Blank s) (hidle : w.mem.use k = .idle → s.inTx = none) :
    ConfinedSrv A (setSetting k s w) where
  blank j := by
    by_cases heq : j = k
    · subst heq
      rw [setting_setSetting]
      exact hblank
    · rw [(same_setSetting heq).setting]
      exact h.blank j
  idle j hj := by
    by_cases heq : j = k
    · subst heq
      rw [setting_setSetting]
      exact ⟨hidle hj, (h.idle j hj).2⟩
    · rw [(same_setSetting heq).setting]
      exact h.idle j hj
  owned := h.owned

end

omit [DecidableEq υ] in
/-- A step that touches the tables and the session of `k` only. -/
theorem confined_tables (h : ConfinedSrv A w) (hmem : w'.mem = w.mem)
    (hsession : ∀ j, j ≠ k → w'.session j = w.session j)
    (htables : TableEffect A k scope w.db w'.db)
    (hk : w.mem.use k = .held i scope) : ConfinedSrv A w' where
  blank := by
    rw [hmem]
    exact h.blank
  idle j hj := by
    have hne : j ≠ k := by
      rintro rfl
      rw [hmem, hk] at hj
      cases hj
    rw [hmem] at hj ⊢
    rw [hsession j hne]
    exact h.idle j hj
  owned t := by
    have hwrites : writesFor w' = writesFor w := by
      unfold writesFor
      rw [hmem]
    rw [hwrites]
    refine htables.owned h.owned ?_ t
    unfold writesFor
    rw [hk]
    rfl

omit [DecidableEq τ] [DecidableEq υ] in
/-- A step on the connection of the call. -/
theorem conn_of_held (hk : w.mem.use k = .idle ∨ w.mem.use k = .held i scope)
    (hk' : w'.mem.use k = .idle ∨ w'.mem.use k = .held i scope ∨
      w'.mem.use k = .closing scope)
    (hother : ∀ j, j ≠ k → SameConn j w w') (j : Nat) :
    SameConn j w w' ∨
      (w.mem.use j = .idle ∨ w.mem.use j = .held i scope) ∧
        (w'.mem.use j = .idle ∨ w'.mem.use j = .held i scope ∨
          w'.mem.use j = .closing scope) := by
  by_cases heq : j = k
  · subst heq
    exact .inr ⟨hk, hk'⟩
  · exact .inl (hother j heq)

section

omit [DecidableEq υ]

theorem StatementStep.same (h : StatementStep A k scope w w') (hj : j ≠ k) :
    SameConn j w w' where
  use := by rw [h.mem]
  setting := by rw [h.mem]
  session := h.session j hj

/-- **A statement of a client.** -/
theorem guard_step (h : ConfinedSrv A w) (hg : HasGuard A i q k w)
    (hstep : StatementStep A k q.scope w w') :
    CallStep A i q.scope w w' ∧ ConfinedSrv A w' ∧ HasGuard A i q k w' := by
  have huse : w'.mem.use k = .held i q.scope := by
    rw [hstep.mem]
    exact hg.use
  refine ⟨⟨hstep.clock, ?_, .inr ⟨k, hg.use, hstep.tables⟩⟩,
    confined_tables h hstep.mem hstep.session hstep.tables hg.use, huse, ?_,
    hstep.block hg.block⟩
  · exact conn_of_held (.inr hg.use) (.inr (.inl huse))
      fun j hj => hstep.same hj
  · rw [hstep.mem]
    exact hg.tenant

/-- A guard is dropped. -/
theorem drop_step (h : ConfinedSrv A w) (hk : w.mem.use k = .held i scope) :
    CallStep A i scope w (handTo k (.closing scope) w) ∧
      ConfinedSrv A (handTo k (.closing scope) w) := by
  constructor
  · refine ⟨rfl, ?_, .inl rfl⟩
    exact conn_of_held (.inr hk) (.inr (.inr use_handTo))
      fun j hj => same_handTo hj
  · refine confined_handTo h (.inr ?_) fun hidle => by cases hidle
    unfold writesFor
    rw [hk]
    rfl

end

/-- The session of a connection after its transaction. -/
theorem closed_session (k : Nat) (session : Nat → Session Unit) :
    ((Function.update session k ⟨.idle, (session k).started, none⟩) k).status =
      TxStatus.idle := by
  rw [Function.update_self]

section

omit [DecidableEq υ]

/-- A transaction ends. -/
theorem end_step (h : ConfinedSrv A w) (hk : w.mem.use k = .held i scope)
    (hmem : u.mem = w.mem) (hclock : u.clock = w.clock)
    (hsession : ∀ j, j ≠ k → u.session j = w.session j)
    (hclosed : (u.session k).status = .idle)
    (htables : TableEffect A k scope w.db u.db)
    (hown : ∀ t, (u.db t).own k = []) {x : Use υ}
    (hx : x = .idle ∨ x = .closing scope) :
    CallStep A i scope w (handTo k x (endSetting k u)) ∧
      ConfinedSrv A (handTo k x (endSetting k u)) := by
  have hu : ConfinedSrv A u := confined_tables h hmem hsession htables hk
  have hset : ConfinedSrv A (endSetting k u) :=
    confined_setSetting hu (hu.blank k).endTx fun _ => Setting.inTx_endTx _
  constructor
  · refine ⟨hclock, ?_, .inr ⟨k, hk, htables⟩⟩
    refine conn_of_held (.inr hk) ?_ fun j hj => ?_
    · rw [use_handTo]
      exact hx.imp id .inr
    · have hbase : SameConn j w u :=
        ⟨by rw [hmem], by rw [hmem], hsession j hj⟩
      exact (hbase.trans (same_setSetting hj)).trans (same_handTo hj)
  · refine confined_handTo hset (.inl hown) fun _ => ⟨?_, hclosed⟩
    show ((setSetting k _ u).mem.setting k).inTx = none
    rw [setting_setSetting]
    exact Setting.inTx_endTx _

theorem rollback_step (h : ConfinedSrv A w) (hk : w.mem.use k = .held i scope)
    {x : Use υ} (hx : x = .idle ∨ x = .closing scope) :
    CallStep A i scope w (handTo k x (endSetting k (w.rollbackTx k))) ∧
      ConfinedSrv A (handTo k x (endSetting k (w.rollbackTx k))) :=
  end_step (u := w.rollbackTx k) h hk rfl rfl
    (fun _ hj => Function.update_of_ne hj _ _) (closed_session k _) .rollback
    (fun t => Table.own_rollback_self k (w.db t)) hx

theorem commit_step (h : ConfinedSrv A w) (hk : w.mem.use k = .held i scope)
    {x : Use υ} (hx : x = .idle ∨ x = .closing scope) :
    CallStep A i scope w (handTo k x (endSetting k (w.commitTx k ()))) ∧
      ConfinedSrv A (handTo k x (endSetting k (w.commitTx k ()))) :=
  end_step (u := w.commitTx k ()) h hk rfl rfl
    (fun _ hj => Function.update_of_ne hj _ _) (closed_session k _) .commit
    (fun t => Table.own_commit_self k (w.db t)) hx

end

/-! ## The steps of a call -/

/-- What a step of a call leaves. -/
def Advanced (A : Application τ Row υ) (i : Nat) (q : TenantCall Row υ α)
    (w : TenantSrv Row υ) (x : Stage Row υ α × TenantSrv Row υ) : Prop :=
  CallStep A i q.scope w x.2 ∧ ConfinedSrv A x.2 ∧ Placed A i q x.2 x.1

/-- The pool hands out a connection, or gives up. -/
theorem acquire_cases {pick : Pick} {x : Stage Row υ α × TenantSrv Row υ}
    (hx : advance A q i pick .acquire w = some x) :
    (∃ msg, pick.choice = .fail msg ∧
        x = (.done (.error (.other msg)), w)) ∨
      w.mem.use pick.conn = .idle ∧ (∀ msg, pick.choice ≠ .fail msg) ∧
        x = (.beginTx pick.conn, handTo pick.conn (.held i q.scope) w) := by
  obtain ⟨choice, conn⟩ := pick
  have hhanded : (if w.mem.use conn = .idle then
        some (Stage.beginTx conn, handTo conn (.held i q.scope) w)
      else none) = some x → w.mem.use conn = .idle ∧
        x = (.beginTx conn, handTo conn (.held i q.scope) w) := by
    intro hif
    obtain ⟨hidle, hsome⟩ := Option.ite_none_right_eq_some.mp hif
    exact ⟨hidle, (Option.some.inj hsome).symm⟩
  cases choice with
  | fail msg => exact .inl ⟨msg, rfl, (Option.some.inj hx).symm⟩
  | ok =>
      obtain ⟨hidle, heq⟩ := hhanded hx
      exact .inr ⟨hidle, (fun _ h => by cases h), heq⟩
  | draw v =>
      obtain ⟨hidle, heq⟩ := hhanded hx
      exact .inr ⟨hidle, (fun _ h => by cases h), heq⟩

theorem acquire_step (h : ConfinedSrv A w) {pick : Pick}
    {x : Stage Row υ α × TenantSrv Row υ}
    (hx : advance A q i pick .acquire w = some x) : Advanced A i q w x := by
  rcases acquire_cases hx with ⟨msg, -, rfl⟩ | ⟨hidle, -, rfl⟩
  · exact ⟨⟨rfl, fun k => .inl (.refl k w), .inl rfl⟩, h, trivial⟩
  · have hnone : writesFor w pick.conn = none := by
      unfold writesFor
      rw [hidle]
      rfl
    refine ⟨⟨rfl, ?_, .inl rfl⟩, ?_, use_handTo, (h.idle _ hidle).1⟩
    · exact conn_of_held (.inl hidle) (.inr (.inl use_handTo))
        fun j hj => same_handTo hj
    · exact confined_handTo h (.inl fun t => (h.owned t).own_nil hnone)
        fun heq => by cases heq

theorem begin_step (h : ConfinedSrv A w) {pick : Pick}
    (hp : Placed A i q w (.beginTx k)) {x : Stage Row υ α × TenantSrv Row υ}
    (hx : advance A q i pick (.beginTx k) w = some x) :
    Advanced A i q w x := by
  obtain ⟨huse, hset⟩ := hp
  obtain ⟨⟨r, u⟩, hbegin, rfl⟩ := Option.map_eq_some_iff.mp hx
  rcases beginStep_cases hbegin with ⟨rfl, -, e, rfl⟩ | ⟨rfl, rfl⟩
  · exact ⟨(drop_step h huse).1, (drop_step h huse).2, trivial⟩
  · have hblock : InBlock ((w.beginTx k).session k).status := by
      show InBlock (Function.update w.session k _ k).status
      rw [Function.update_self]
      exact .inl rfl
    have hbegun : ConfinedSrv A (w.beginTx k) := by
      have hsession : ∀ j, j ≠ k → (w.beginTx k).session j = w.session j :=
        fun _ hj => Function.update_of_ne hj _ _
      exact confined_tables h rfl hsession .same huse
    refine ⟨⟨rfl, ?_, .inl rfl⟩, hbegun, ?_⟩
    · exact conn_of_held (.inr huse) (.inr (.inl huse)) fun j hj =>
        ⟨rfl, rfl, Function.update_of_ne hj _ _⟩
    · unfold begun
      cases hscope : q.scope with
      | some v =>
          show Placed A i q (w.beginTx k) (.setTenant k v)
          exact ⟨huse, hscope, hblock⟩
      | none =>
          show HasGuard A i q k (w.beginTx k)
          refine ⟨huse, ?_, hblock⟩
          rw [hscope]
          exact hset

omit [DecidableEq τ] [DecidableEq υ] in
/-- The parameter is set. -/
theorem setting_step (h : ConfinedSrv A u) {v : υ}
    (huse : u.mem.use k = .held i q.scope) (hscope : q.scope = some v)
    (hblock : InBlock (u.session k).status) :
    ConfinedSrv A (setSetting k ((u.mem.setting k).setLocal (A.uuid.text v)) u) ∧
      HasGuard A i q k
        (setSetting k ((u.mem.setting k).setLocal (A.uuid.text v)) u) := by
  constructor
  · refine confined_setSetting h (h.blank k) fun hidle => ?_
    rw [huse] at hidle
    cases hidle
  · refine ⟨huse, ?_, hblock⟩
    rw [setting_setSetting, hscope]
    rfl

theorem setTenant_step (h : ConfinedSrv A w) {pick : Pick} {v : υ}
    (hp : Placed A i q w (.setTenant k v))
    {x : Stage Row υ α × TenantSrv Row υ}
    (hx : advance A q i pick (.setTenant k v) w = some x) :
    Advanced A i q w x := by
  obtain ⟨huse, hscope, hblock⟩ := hp
  obtain ⟨⟨r, u⟩, hset, rfl⟩ := Option.map_eq_some_iff.mp hx
  have hfailed : ∀ {u : TenantSrv Row υ} {e : SqlxError},
      StatementStep A k q.scope w u →
        Advanced A i q w (tenantSet q k (.error e, u)) := by
    intro u e hstep
    have hu : ConfinedSrv A u :=
      confined_tables h hstep.mem hstep.session hstep.tables huse
    have huse' : u.mem.use k = .held i q.scope := by
      rw [hstep.mem]
      exact huse
    refine ⟨⟨hstep.clock, ?_, .inr ⟨k, huse, hstep.tables⟩⟩,
      (drop_step hu huse').2, trivial⟩
    exact conn_of_held (.inr huse) (.inr (.inr use_handTo)) fun j hj =>
      (hstep.same hj).trans (same_handTo hj)
  rcases statement_cases hset with ⟨-, rfl, e, rfl⟩ | ⟨-, rfl, -, e, rfl⟩ |
    ⟨-, hrun⟩
  · exact hfailed ⟨rfl, rfl, fun _ _ => rfl, id, .same⟩
  · exact hfailed step_fail
  · cases hrun
    have hopen : StatementStep A k q.scope w (w.openStatement k ()) := step_open
    have huse' : (w.openStatement k ()).mem.use k = .held i q.scope := by
      rw [hopen.mem]
      exact huse
    obtain ⟨hconfined, hguard⟩ := setting_step
      (confined_tables h hopen.mem hopen.session hopen.tables huse) huse' hscope
      (hopen.block hblock)
    obtain ⟨hcall, hconfined', hguard'⟩ :=
      guard_step hconfined hguard (step_complete hguard.block)
    refine ⟨⟨hcall.clock.trans hopen.clock, fun j => ?_, .inl ?_⟩, hconfined',
      hguard'⟩
    · refine conn_of_held (.inr huse) (.inr (.inl hguard'.use))
        (fun j hj => ?_) j
      have hcomplete : StatementStep A k q.scope _ _ :=
        step_complete hguard.block
      exact ((hopen.same hj).trans (same_setSetting hj)).trans
        (hcomplete.same hj)
    · exact (db_complete hguard.block).trans db_open

/-- A step of a client. -/
theorem run_step (h : ConfinedSrv A w) {pick : Pick} {s : Script Row α}
    (hg : HasGuard A i q k w) {x : Stage Row υ α × TenantSrv Row υ}
    (hx : advance A q i pick (.run k s) w = some x) : Advanced A i q w x := by
  have htenant : policyTenant A.uuid (w.mem.setting k) = .ok q.scope :=
    policyTenant_eq (h.blank k) hg.tenant
  cases s with
  | finish exit a =>
      cases exit with
      | commit =>
          obtain ⟨⟨r, u⟩, hcommit, rfl⟩ := Option.map_eq_some_iff.mp hx
          rcases commitStep_cases hcommit with ⟨-, rfl, rfl⟩ |
            ⟨-, ⟨e, rfl⟩, -, rfl⟩ | ⟨-, rfl, rfl⟩
          · obtain ⟨hcall, hconfined⟩ := rollback_step h hg.use (.inl rfl)
            exact ⟨hcall, hconfined, trivial⟩
          · obtain ⟨hcall, hconfined⟩ := rollback_step h hg.use (.inr rfl)
            exact ⟨hcall, hconfined, trivial⟩
          · obtain ⟨hcall, hconfined⟩ := commit_step h hg.use (.inl rfl)
            exact ⟨hcall, hconfined, trivial⟩
      | rollback =>
          obtain ⟨choice, conn⟩ := pick
          cases choice with
          | fail msg =>
              cases hx
              exact ⟨(drop_step h hg.use).1, (drop_step h hg.use).2, trivial⟩
          | ok =>
              cases hx
              obtain ⟨hcall, hconfined⟩ := rollback_step h hg.use (.inl rfl)
              exact ⟨hcall, hconfined, trivial⟩
          | draw v =>
              cases hx
              obtain ⟨hcall, hconfined⟩ := rollback_step h hg.use (.inl rfl)
              exact ⟨hcall, hconfined, trivial⟩
      | drop =>
          cases hx
          exact ⟨(drop_step h hg.use).1, (drop_step h hg.use).2, trivial⟩
  | select next =>
      obtain ⟨⟨r, u⟩, hselect, rfl⟩ := Option.map_eq_some_iff.mp hx
      exact guard_step h hg (underPolicy_step htenant hg.block
        (fun hb hrun => selectRows_step hb hrun) hselect)
  | insert t r next =>
      obtain ⟨⟨r, u⟩, hinsert, rfl⟩ := Option.map_eq_some_iff.mp hx
      exact guard_step h hg (underPolicy_step htenant hg.block
        (fun hb hrun => insertRow_step hb hrun) hinsert)
  | modify t p f next =>
      obtain ⟨⟨r, u⟩, hstart, rfl⟩ := Option.map_eq_some_iff.mp hx
      obtain ⟨hcall, hconfined, hguard⟩ := guard_step h hg
        (underPolicy_step htenant hg.block
          (fun _ hrun => modifyStart_step hrun) hstart)
      cases r with
      | error e => exact ⟨hcall, hconfined, hguard⟩
      | ok ks => exact ⟨hcall, hconfined, hguard⟩

/-- A step of an `UPDATE` or `DELETE` that is under way. -/
theorem sweep_step (h : ConfinedSrv A w) {pick : Pick} {t : τ}
    {p : Int → Row t → Bool} {f : Int → Row t → Option (Row t)}
    {next : Except SqlxError (List (Row t)) → Script Row α}
    {visited : List (Row t)} {left : List Nat} (hg : HasGuard A i q k w)
    {x : Stage Row υ α × TenantSrv Row υ}
    (hx : advance A q i pick (.sweep k t p f next visited left) w = some x) :
    Advanced A i q w x := by
  cases left with
  | nil =>
      obtain ⟨⟨r, u⟩, hend, rfl⟩ := Option.map_eq_some_iff.mp hx
      exact guard_step h hg (updateEnd_step hg.block hend)
  | cons pos left =>
      obtain ⟨⟨r, u⟩, hvisit, rfl⟩ := Option.map_eq_some_iff.mp hx
      obtain ⟨hcall, hconfined, hguard⟩ := guard_step h hg
        (underPolicy_step (policyTenant_eq (h.blank k) hg.tenant) hg.block
          (fun _ hrun => modifyVisit_step hrun) hvisit)
      cases r with
      | error e => exact ⟨hcall, hconfined, hguard⟩
      | ok o => exact ⟨hcall, hconfined, hguard⟩

/-- **A step of a call**, wherever it stands. -/
theorem advance_step (h : ConfinedSrv A w) {pick : Pick} {s : Stage Row υ α}
    (hp : Placed A i q w s) {x : Stage Row υ α × TenantSrv Row υ}
    (hx : advance A q i pick s w = some x) : Advanced A i q w x := by
  cases s with
  | acquire => exact acquire_step h hx
  | beginTx k => exact begin_step h hp hx
  | setTenant k u => exact setTenant_step h hp hx
  | run k s => exact run_step h hp hx
  | sweep k t p f next visited left => exact sweep_step h hp hx
  | done r => cases hx

omit [DecidableEq υ] in
/-- A call is dropped. -/
theorem letGo_step (h : ConfinedSrv A w) {s : Stage Row υ α}
    (hp : Placed A i q w s) :
    CallStep A i q.scope w (letGo q s w) ∧ ConfinedSrv A (letGo q s w) := by
  have hnothing : CallStep A i q.scope w w :=
    ⟨rfl, fun k => .inl (.refl k w), .inl rfl⟩
  cases s with
  | acquire => exact ⟨hnothing, h⟩
  | beginTx k => exact drop_step h hp.1
  | setTenant k u => exact drop_step h hp.1
  | run k s => exact drop_step h (HasGuard.use hp)
  | sweep k t p f next visited left => exact drop_step h (HasGuard.use hp)
  | done r => exact ⟨hnothing, h⟩

omit [DecidableEq τ] [DecidableEq υ] in
/-- What is known of another call stays. -/
theorem Placed.keep {s : Stage Row υ α} (hp : Placed A j q w s)
    (hsame : ∀ k, w.mem.use k = .held j q.scope → SameConn k w w') :
    Placed A j q w' s := by
  have hguard : ∀ {k}, HasGuard A j q k w → HasGuard A j q k w' := by
    intro k hg
    have hk := hsame k hg.use
    refine ⟨hk.use.trans hg.use, ?_, ?_⟩
    · rw [hk.setting]
      exact hg.tenant
    · rw [hk.session]
      exact hg.block
  cases s with
  | acquire => trivial
  | beginTx k =>
      have hk := hsame k hp.1
      refine ⟨hk.use.trans hp.1, ?_⟩
      rw [hk.setting]
      exact hp.2
  | setTenant k u =>
      have hk := hsame k hp.1
      refine ⟨hk.use.trans hp.1, hp.2.1, ?_⟩
      rw [hk.session]
      exact hp.2.2
  | run k s => exact hguard hp
  | sweep k t p f next visited left => exact hguard hp
  | done r => trivial

omit [DecidableEq υ] in
theorem CallStep.others (h : CallStep A i scope w w') (hne : j ≠ i)
    {scope' : Option υ} (hk : w.mem.use k = .held j scope') :
    SameConn k w w' := by
  rcases h.conn k with hsame | ⟨hidle | hheld, -⟩
  · exact hsame
  · rw [hk] at hidle
    cases hidle
  · rw [hk] at hheld
    cases hheld
    exact absurd rfl hne

end Calls

/-! ## Runs -/

/-- **The invariant**: of the server, and of each call where it stands. -/
structure Confined (A : Application τ Row υ) (c : TenantConfig Row υ α) :
    Prop where
  server : ConfinedSrv A c.shared
  placed : ∀ i q s, c.thread i = some (q, s) → Placed A i q c.shared s

section Runs

variable {c d : TenantConfig Row υ α} {i j k : Nat}

section

omit [DecidableEq τ] [DecidableEq υ]

theorem thread_put_self {x : Option (TenantCall Row υ α × Stage Row υ α)}
    {w : TenantSrv Row υ} : (c.put i x w).thread i = x :=
  Function.update_self _ _ _

theorem thread_put_ne {x : Option (TenantCall Row υ α × Stage Row υ α)}
    {w : TenantSrv Row υ} (h : j ≠ i) : (c.put i x w).thread j = c.thread j :=
  Function.update_of_ne h _ _

end

omit [DecidableEq υ] in
/-- One thread moves, and leaves the connections of the others alone. -/
theorem Confined.put (h : Confined A c) {w : TenantSrv Row υ}
    {x : Option (TenantCall Row υ α × Stage Row υ α)} {scope : Option υ}
    (hcall : CallStep A i scope c.shared w) (hw : ConfinedSrv A w)
    (hx : ∀ q s, x = some (q, s) → Placed A i q w s) :
    Confined A (c.put i x w) where
  server := hw
  placed j q s hj := by
    by_cases heq : j = i
    · subst heq
      rw [thread_put_self] at hj
      exact hx q s hj
    · rw [thread_put_ne heq] at hj
      exact (h.placed j q s hj).keep fun k hk => hcall.others heq hk

section

omit [DecidableEq τ] [DecidableEq υ]

/-- A step of the pool or of the clock. -/
theorem Confined.outside (h : Confined A c) {w : TenantSrv Row υ}
    (hw : ConfinedSrv A w)
    (hsame : ∀ k j scope, c.shared.mem.use k = .held j scope →
      SameConn k c.shared w) : Confined A ⟨w, c.thread⟩ where
  server := hw
  placed j q s hj := (h.placed j q s hj).keep fun k hk => hsame k j _ hk

theorem cleaned_confined {w : TenantSrv Row υ} {scope : Option υ}
    (h : ConfinedSrv A w) (hk : w.mem.use k = .closing scope) :
    ConfinedSrv A (cleaned k w) := by
  have hroll : ConfinedSrv A (w.rollbackTx k) := by
    refine ⟨h.blank, fun j hj => ?_, fun t => (h.owned t).rollback⟩
    have hne : j ≠ k := by
      rintro rfl
      have hboth : w.mem.use j = .idle := hj
      rw [hk] at hboth
      cases hboth
    refine ⟨(h.idle j hj).1, ?_⟩
    show (Function.update w.session k _ j).status = _
    rw [Function.update_of_ne hne]
    exact (h.idle j hj).2
  have hset : ConfinedSrv A (endSetting k (w.rollbackTx k)) := by
    refine confined_setSetting hroll (h.blank k).endTx fun hidle => ?_
    have hidle' : w.mem.use k = .idle := hidle
    rw [hk] at hidle'
    cases hidle'
  refine confined_handTo hset
    (.inl fun t => Table.own_rollback_self k (w.db t))
    fun _ => ⟨?_, closed_session k _⟩
  show ((setSetting k _ (w.rollbackTx k)).mem.setting k).inTx = none
  rw [setting_setSetting]
  exact Setting.inTx_endTx _

end

theorem confined_event {e : TenantEvent Row υ α} (h : Confined A c)
    (hstep : tenantMachine A e c = some d) : Confined A d := by
  cases e with
  | call i q =>
      obtain ⟨-, hd⟩ := Option.ite_none_right_eq_some.mp hstep
      cases hd
      have hnothing : CallStep A i q.scope c.shared c.shared :=
        ⟨rfl, fun k => .inl (.refl k _), .inl rfl⟩
      refine h.put hnothing h.server fun q' s hs => ?_
      cases hs
      trivial
  | run i pick =>
      simp only [tenantMachine] at hstep
      split at hstep
      · cases hstep
      · rename_i q s hthread
        obtain ⟨x, hx, rfl⟩ := Option.map_eq_some_iff.mp hstep
        obtain ⟨hcall, hserver, hplaced⟩ :=
          advance_step h.server (h.placed i q s hthread) hx
        refine h.put hcall hserver fun q' s' hs => ?_
        cases hs
        exact hplaced
  | cancel i =>
      simp only [tenantMachine] at hstep
      split at hstep
      · cases hstep
      · rename_i q s hthread
        cases hstep
        obtain ⟨hcall, hserver⟩ := letGo_step h.server (h.placed i q s hthread)
        exact h.put hcall hserver fun q' s' hs => by cases hs
  | tick n =>
      cases hstep
      exact h.outside ⟨h.server.blank, h.server.idle, h.server.owned⟩
        fun k _ _ _ => ⟨rfl, rfl, rfl⟩
  | cleanup k =>
      simp only [tenantMachine] at hstep
      split at hstep
      · rename_i scope hk
        cases hstep
        refine h.outside (cleaned_confined h.server hk) fun j i scope' hj => ?_
        have hne : j ≠ k := by
          rintro rfl
          rw [hk] at hj
          cases hj
        have hroll : SameConn j c.shared (c.shared.rollbackTx k) :=
          ⟨rfl, rfl, Function.update_of_ne hne _ _⟩
        exact (hroll.trans (same_setSetting hne)).trans (same_handTo hne)
      · cases hstep
  | reconnect k =>
      simp only [tenantMachine] at hstep
      split at hstep
      · rename_i hk
        cases hstep
        refine h.outside (confined_setSetting h.server (.inl rfl)
          fun _ => rfl) fun j i scope hj => same_setSetting ?_
        rintro rfl
        rw [hk] at hj
        cases hj
      · cases hstep
  | spare t =>
      cases hstep
      refine h.outside ⟨h.server.blank, h.server.idle, ?_⟩
        fun k _ _ _ => ⟨rfl, rfl, rfl⟩
      exact forall_update
        (P := fun _ => Owned (ownerOf A) (writesFor c.shared)) h.server.owned
        (h.server.owned t).vacant

omit [DecidableEq τ] [DecidableEq υ] in
theorem confined_start {w : TenantSrv Row υ} (h : Opening w) :
    Confined A (.start w : TenantConfig Row υ α) where
  server :=
    { blank := fun k => by
        show Blank (w.mem.setting k)
        rw [h.fresh k]
        exact .inl rfl
      idle := fun k _ => by
        constructor
        · show (w.mem.setting k).inTx = none
          rw [h.fresh k]
          rfl
        · exact h.closed k
      owned := fun t => Owned.of_unlocked (h.unlocked t) }
  placed i q s hs := by cases hs

theorem confined_reaches {F : TenantEvent Row υ α → TenantConfig Row υ α → Prop}
    (h : Confined A c) (hrun : Reaches (tenantMachine A) F c d) :
    Confined A d :=
  hrun.invariant (fun _ _ _ hc hstep _ => confined_event hc hstep) h

/-- The connection of a call whose client has the guard. -/
def guardOn : Stage Row υ α → Option Nat
  | .run k _ => some k
  | .sweep k _ _ _ _ _ _ => some k
  | _ => none

/-- **A statement runs for the tenant of its guard.**  In every reachable state
the policy finds the tenant a guard was begun for on the connection of that
guard, and no tenant on a connection that nobody has; and every version that a
guard has written and not committed belongs to its tenant. -/
theorem statements_scoped {w : TenantSrv Row υ} (hopen : Opening w)
    (hrun : Reaches (tenantMachine A) free (.start w) c) :
    (∀ i q s k, c.thread i = some (q, s) → guardOn s = some k →
      policyTenant A.uuid (c.shared.mem.setting k) = .ok q.scope ∧
        ∀ t, ∀ x ∈ c.shared.db t, ∀ v, x.pending = some (k, v) →
          some (A.tenantId t v.row) = q.scope) ∧
      ∀ k, c.shared.mem.use k = .idle →
        policyTenant A.uuid (c.shared.mem.setting k) = .ok none := by
  have hinv := confined_reaches (confined_start hopen) hrun
  constructor
  · intro i q s k hthread hguard
    have hplaced := hinv.placed i q s hthread
    have hg : HasGuard A i q k c.shared := by
      cases s with
      | run k' s =>
          cases hguard
          exact hplaced
      | sweep k' t p f next visited left =>
          cases hguard
          exact hplaced
      | _ => cases hguard
    refine ⟨policyTenant_eq (hinv.server.blank k) hg.tenant,
      fun t x hx v hv => ?_⟩
    have howner := (hinv.server.owned t x hx k v hv).1
    unfold writesFor at howner
    rw [hg.use] at howner
    exact (Option.some.inj howner).symm
  · intro k hk
    exact policyTenant_eq (hinv.server.blank k) (hinv.server.idle k hk).1

end Runs

/-- The connection of tenant A has come to tenant B. -/
def handedOn : DemoConfig :=
  (exec (tenantMachine demo) anyEvent (writes ++ begins)
    (.start (demoSrv [ticketA, ticketB]))).get (by decide +kernel)

theorem handedOn_reached : Reaches (tenantMachine demo) free
    (.start (demoSrv [ticketA, ticketB])) handedOn :=
  exec_reaches (fun _ _ _ => trivial) (Option.some_get _).symm

theorem statements_scoped_handedOn :
    (handedOn.shared.mem.setting 0).session = some "" ∧
      policyTenant demo.uuid (handedOn.shared.mem.setting 0) =
        .ok (some .b) := by
  have hopen : Opening (demoSrv [ticketA, ticketB]) :=
    demo_opening (by decide)
  have hthread : handedOn.thread 1 = some (reader, .run 0 reader.script) := rfl
  exact ⟨by decide +kernel,
    ((statements_scoped hopen handedOn_reached).1 1 _ _ 0 hthread rfl).1⟩

end DpopAuth.Ports.TenantScope
