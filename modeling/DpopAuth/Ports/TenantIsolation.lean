import DpopAuth.Ports.TenantScope

/-!
# Tenants do not interfere

Take any run of any clients of any tenants on one pool and one database, and
leave out all calls that are not for one tenant.  What is left is a run in
which the calls of this tenant see the same rows, make the same changes and
get the same results, and in which the tenant's rows are the same in the end.
The other tenants may even have had other rows from the start.

The unique keys of the application are taken to tell tenants apart: a key that
two tenants can have in common is a channel between them that no policy
closes.  Who gets a connection, and when, is decided by the surroundings in
both runs.

## Main results

* `advance_alike` — a call cannot tell two servers apart that are alike for
  its tenant.
* `noninterference` — runs without the other tenants.
-/

namespace DpopAuth.Ports.TenantIsolation

open DpopAuth.Verified.Resumption
open DpopAuth.Verified.RowVersions
open DpopAuth.Verified.Transactions
open DpopAuth.Verified.Machines
open DpopAuth.Verified.RowPolicies
open DpopAuth.Ports.TenantTx
open DpopAuth.Ports.TenantScope

variable {τ : Type} [DecidableEq τ] {Row : τ → Type} {υ α β : Type}
  [DecidableEq υ] {A : Application τ Row υ} {t : τ} {b scope : Option υ}
  {i j k : Nat} {w w' v v' u u' : TenantSrv Row υ}

/-- No two tenants have a unique key in common. -/
def TenantKeys (A : Application τ Row υ) : Prop :=
  ∀ t r s, A.dup t r s = true → A.tenantId t r = A.tenantId t s

/-! ## Servers that are alike for a tenant -/

/-- A connection of the tenant, in both runs. -/
structure ConnAlike (k : Nat) (w v : TenantSrv Row υ) : Prop where
  use : v.mem.use k = w.mem.use k
  inTx : (v.mem.setting k).inTx = (w.mem.setting k).inTx
  session : InBlock (w.session k).status → v.session k = w.session k

/-- **The servers are alike for `b`**: the rows of `b` and its connections are
the same, and in the second run nobody else has a connection. -/
structure Alike (A : Application τ Row υ) (b : Option υ)
    (w v : TenantSrv Row υ) : Prop where
  clock : v.clock = w.clock
  tables : ∀ t, Agree (ownerOf A) b (w.db t) (v.db t)
  mine : ∀ k, writesFor w k = some b → ConnAlike k w v
  others : ∀ k, writesFor w k ≠ some b → v.mem.use k = .idle

section

omit [DecidableEq τ] [DecidableEq υ]

theorem writesFor_held (h : w.mem.use k = .held i scope) :
    writesFor w k = some scope := by
  unfold writesFor
  rw [h]
  rfl

theorem writesFor_idle (h : w.mem.use k = .idle) : writesFor w k = none := by
  unfold writesFor
  rw [h]
  rfl

end

omit [DecidableEq τ] in
/-- In the second run all open versions are those of `b`. -/
theorem Alike.quiet (h : Alike A b w v) (hv : ConfinedSrv A v) {t : τ}
    {c : Cell (Stored (Row t))} (hc : c ∈ v.db t) {r : Stored (Row t)}
    (hr : c.pending = some (j, r)) : ownerOf A r = b := by
  have hwrites := (hv.owned t c hc j r hr).1
  by_cases hj : writesFor w j = some b
  · have hsame : writesFor v j = writesFor w j :=
      congrArg Use.scope? (h.mine j hj).use
    rw [hsame, hj] at hwrites
    exact (Option.some.inj hwrites).symm
  · rw [writesFor_idle (h.others j hj)] at hwrites
    cases hwrites

section

omit [DecidableEq τ] [DecidableEq υ]

/-- The session of `k` changes, and the tables agree again. -/
theorem Alike.move (h : Alike A b w v) {s s' : Session Unit}
    (hs : InBlock s.status → s' = s) (hmem : w'.mem = w.mem) (hmem' : v'.mem = v.mem)
    (hclock : w'.clock = w.clock) (hclock' : v'.clock = v.clock)
    (htables : ∀ t, Agree (ownerOf A) b (w'.db t) (v'.db t))
    (hsession : w'.session = Function.update w.session k s)
    (hsession' : v'.session = Function.update v.session k s') :
    Alike A b w' v' where
  clock := by rw [hclock, hclock', h.clock]
  tables := htables
  mine j hj := by
    have hmine : writesFor w j = some b := by
      unfold writesFor at hj ⊢
      rw [hmem] at hj
      exact hj
    have hconn := h.mine j hmine
    refine ⟨?_, ?_, fun hblock => ?_⟩
    · rw [hmem, hmem', hconn.use]
    · rw [hmem, hmem', hconn.inTx]
    · by_cases heq : j = k
      · subst heq
        rw [hsession, Function.update_self] at hblock ⊢
        rw [hsession', Function.update_self]
        exact hs hblock
      · rw [hsession, Function.update_of_ne heq] at hblock ⊢
        rw [hsession', Function.update_of_ne heq]
        exact hconn.session hblock
  others j hj := by
    have hother : writesFor w j ≠ some b := by
      unfold writesFor at hj ⊢
      rw [hmem] at hj
      exact hj
    rw [hmem']
    exact h.others j hother

/-- What the session of `k` is set to, in both runs. -/
theorem Alike.setSession (h : Alike A b w v) (s : Session Unit) :
    Alike A b (w.setSession k s) (v.setSession k s) :=
  h.move (fun _ => rfl) rfl rfl rfl rfl h.tables rfl rfl

end

section Conn

variable (h : Alike A b w v) (hsession : v.session k = w.session k)

include h hsession

section

omit [DecidableEq τ] [DecidableEq υ]

theorem alike_open :
    Alike A b (w.openStatement k ()) (v.openStatement k ()) := by
  unfold World.openStatement
  rw [hsession, h.clock]
  split
  · exact h.setSession _
  · exact h.setSession _

theorem alike_fail : Alike A b (w.failStatement k) (v.failStatement k) := by
  refine h.move (k := k) (fun _ => ?_) rfl rfl rfl rfl
    (fun t => (h.tables t).rollback) rfl rfl
  rw [hsession]

theorem alike_complete (hblock : InBlock (w.session k).status) :
    Alike A b (w.completeStatement k) (v.completeStatement k) := by
  unfold World.completeStatement
  rw [hsession]
  rcases hblock with hst | hst
  · rw [hst]
    exact h.setSession _
  · rw [hst]
    exact h.setSession _

end

end Conn

omit [DecidableEq τ] [DecidableEq υ] in
theorem alike_begin (h : Alike A b w v) :
    Alike A b (w.beginTx k) (v.beginTx k) := by
  refine h.move (k := k) (fun _ => ?_) rfl rfl rfl rfl h.tables rfl rfl
  rw [h.clock]

/-- The session of a connection after its transaction. -/
theorem not_inBlock_closed (started : Int) :
    ¬ InBlock (⟨.idle, started, none⟩ : Session Unit).status := by
  rintro (h | h) <;> cases h

section

omit [DecidableEq τ] [DecidableEq υ]

theorem alike_rollback (h : Alike A b w v) :
    Alike A b (w.rollbackTx k) (v.rollbackTx k) :=
  h.move (k := k) (fun hblock => absurd hblock (not_inBlock_closed _)) rfl rfl
    rfl rfl (fun t => (h.tables t).rollback) rfl rfl

theorem alike_commit (h : Alike A b w v) :
    Alike A b (w.commitTx k ()) (v.commitTx k ()) :=
  h.move (k := k) (fun hblock => absurd hblock (not_inBlock_closed _)) rfl rfl
    rfl rfl (fun t => (h.tables t).commit) rfl rfl

end

omit [DecidableEq υ] in
theorem alike_setTable (h : Alike A b w v) {x y : Table (Stored (Row t))}
    (hxy : Agree (ownerOf A) b x y) :
    Alike A b (w.setTable t x) (v.setTable t y) where
  clock := h.clock
  tables t' := by
    show Agree (ownerOf A) b (Function.update w.db t x t')
      (Function.update v.db t y t')
    by_cases heq : t' = t
    · subst heq
      rw [Function.update_self, Function.update_self]
      exact hxy
    · rw [Function.update_of_ne heq, Function.update_of_ne heq]
      exact h.tables t'
  mine k hk := by
    have hconn := h.mine k hk
    exact ⟨hconn.use, hconn.inTx, hconn.session⟩
  others k hk := h.others k hk

section

omit [DecidableEq τ] [DecidableEq υ]

/-- A connection changes hands in both runs. -/
theorem alike_handTo (h : Alike A b w v) {x : Use υ}
    (hmine : x.scope? = some b →
      (v.mem.setting k).inTx = (w.mem.setting k).inTx ∧
        (InBlock (w.session k).status → v.session k = w.session k))
    (hother : x.scope? ≠ some b → x = .idle) :
    Alike A b (handTo k x w) (handTo k x v) where
  clock := h.clock
  tables := h.tables
  mine j hj := by
    by_cases heq : j = k
    · subst heq
      unfold writesFor at hj
      rw [use_handTo] at hj
      exact ⟨by rw [use_handTo, use_handTo], (hmine hj).1, (hmine hj).2⟩
    · have hsame : SameConn j w (handTo k x w) := same_handTo heq
      have hsame' : SameConn j v (handTo k x v) := same_handTo heq
      unfold writesFor at hj
      rw [hsame.use] at hj
      have hconn := h.mine j hj
      exact ⟨by rw [hsame.use, hsame'.use, hconn.use], hconn.inTx,
        hconn.session⟩
  others j hj := by
    by_cases heq : j = k
    · subst heq
      unfold writesFor at hj
      rw [use_handTo] at hj ⊢
      exact hother hj
    · have hsame : SameConn j w (handTo k x w) := same_handTo heq
      have hsame' : SameConn j v (handTo k x v) := same_handTo heq
      unfold writesFor at hj
      rw [hsame.use] at hj
      rw [hsame'.use]
      exact h.others j hj

/-- A parameter changes in both runs. -/
theorem alike_setSetting (h : Alike A b w v) {s s' : Setting}
    (hs : s'.inTx = s.inTx) :
    Alike A b (setSetting k s w) (setSetting k s' v) where
  clock := h.clock
  tables := h.tables
  mine j hj := by
    have hconn := h.mine j hj
    refine ⟨hconn.use, ?_, hconn.session⟩
    by_cases heq : j = k
    · subst heq
      rw [setting_setSetting, setting_setSetting]
      exact hs
    · have hsame : SameConn j w (setSetting k s w) := same_setSetting heq
      have hsame' : SameConn j v (setSetting k s' v) := same_setSetting heq
      rw [hsame.setting, hsame'.setting]
      exact hconn.inTx
  others := h.others

end

omit [DecidableEq υ] in
theorem alike_spare (h : Alike A b w v) :
    Alike A b (addSpare t w) (addSpare t v) :=
  alike_setTable h ((h.tables t).append (.refl _))

/-! ## The steps of others -/

omit [DecidableEq υ] in
/-- **What others do to the tables**: nothing that matters, or a row of theirs
in a new slot. -/
theorem TableEffect.apart {x y : ∀ t, Table (Stored (Row t))}
    {writes : Nat → Option (Option υ)} (h : TableEffect A k scope x y)
    (hx : ∀ t, Owned (ownerOf A) writes (x t)) (hk : writes k = some scope)
    (hne : scope ≠ b) :
    (∀ t, Agree (ownerOf A) b (x t) (y t)) ∨
      ∃ t₀, ∀ t, Agree (ownerOf A) b
        (Function.update x t₀ (x t₀ ++ [⟨none, none⟩]) t) (y t) := by
  have hother : writes k ≠ some b := by
    rw [hk]
    exact fun heq => hne (Option.some.inj heq)
  cases h with
  | same => exact .inl fun t => .refl _
  | rollback => exact .inl fun t => (hx t).agree_rollback hother
  | commit => exact .inl fun t => (hx t).agree_commit hother
  | insert t s hs =>
      refine .inr ⟨t, fun t' => ?_⟩
      by_cases heq : t' = t
      · subst heq
        rw [Function.update_self, Function.update_self]
        exact (Agree.refl _).append
          (.inr ⟨foreign_vacant, foreign_fresh (hs ▸ hne)⟩)
      · rw [Function.update_of_ne heq, Function.update_of_ne heq]
        exact .refl _
  | write t pos c r s hc hfree hseen hr hs =>
      refine .inl (forall_update (P := fun t' z => Agree (ownerOf A) b (x t') z)
        (fun t' => .refl _) ?_)
      exact (hx t).agree_write hc hfree hseen (hr ▸ hne) (hs ▸ hne)

omit [DecidableEq τ] [DecidableEq υ] in
/-- Tables that agree, and connections of others. -/
theorem Alike.aside (h : Alike A b w v) (hclock : w'.clock = w.clock)
    (htables : ∀ t, Agree (ownerOf A) b (w.db t) (w'.db t))
    (hconn : ∀ k, SameConn k w w' ∨
      writesFor w k ≠ some b ∧ writesFor w' k ≠ some b) : Alike A b w' v where
  clock := h.clock.trans hclock.symm
  tables t := (htables t).symm.trans (h.tables t)
  mine k hk := by
    rcases hconn k with hsame | ⟨-, hother⟩
    · have hmine : writesFor w k = some b := by
        unfold writesFor at hk ⊢
        rw [hsame.use] at hk
        exact hk
      have hboth := h.mine k hmine
      refine ⟨hboth.use.trans hsame.use.symm, ?_, fun hblock => ?_⟩
      · rw [hsame.setting, hboth.inTx]
      · rw [hsame.session] at hblock ⊢
        exact hboth.session hblock
    · exact absurd hk hother
  others k hk := by
    rcases hconn k with hsame | ⟨hother, -⟩
    · refine h.others k fun hmine => hk ?_
      unfold writesFor at hmine ⊢
      rw [hsame.use]
      exact hmine
    · exact h.others k hother

omit [DecidableEq υ] in
/-- **A step of a call of somebody else.** -/
theorem CallStep.apart (h : CallStep A i scope w w') (hw : ConfinedSrv A w)
    (hne : scope ≠ b) (ha : Alike A b w v) :
    Alike A b w' v ∨ ∃ t, Alike A b w' (addSpare t v) := by
  have hother : ∀ {x : Use υ}, x = .idle ∨ x = .held i scope ∨
      x = .closing scope → x.scope? ≠ some b := by
    rintro x (rfl | rfl | rfl) heq
    · cases heq
    · exact hne (Option.some.inj heq)
    · exact hne (Option.some.inj heq)
  have hconn : ∀ k, SameConn k w w' ∨
      writesFor w k ≠ some b ∧ writesFor w' k ≠ some b := by
    intro k
    rcases h.conn k with hsame | ⟨hbefore, hafter⟩
    · exact .inl hsame
    · exact .inr ⟨hother (hbefore.imp id .inl), hother hafter⟩
  rcases h.tables with hsame | ⟨k, hk, heffect⟩
  · refine .inl (ha.aside h.clock (fun t => ?_) hconn)
    rw [hsame]
    exact .refl _
  · rcases TableEffect.apart heffect hw.owned (writesFor_held hk) hne with
      hagree | ⟨t, hagree⟩
    · exact .inl (ha.aside h.clock hagree hconn)
    · have hspare : Alike A b (addSpare t w) (addSpare t v) := alike_spare ha
      refine .inr ⟨t, hspare.aside h.clock hagree fun k => ?_⟩
      rcases hconn k with hsame | hothers
      · exact .inl ⟨hsame.use, hsame.setting, hsame.session⟩
      · exact .inr hothers

/-! ## The statements of the tenant -/

/-- What both runs know where a client of `b` runs a statement. -/
structure Pair (A : Application τ Row υ) (b : Option υ) (k : Nat)
    (w v : TenantSrv Row υ) : Prop where
  alike : Alike A b w v
  mine : writesFor w k = some b
  block : InBlock (w.session k).status
  quiet : ∀ t, ∀ c ∈ v.db t, ∀ j r, c.pending = some (j, r) → ownerOf A r = b

section

omit [DecidableEq τ] [DecidableEq υ]

theorem Pair.session (h : Pair A b k w v) : v.session k = w.session k :=
  (h.alike.mine k h.mine).session h.block

theorem Pair.now (h : Pair A b k w v) : v.now k = w.now k :=
  congrArg Session.started h.session

end

/-- The same answer in both runs, and servers that are alike again. -/
def Matches (A : Application τ Row υ) (b : Option υ) (w' : TenantSrv Row υ)
    (r : β) (o : Option (β × TenantSrv Row υ)) : Prop :=
  ∃ v', o = some (r, v') ∧ Alike A b w' v'

omit [DecidableEq τ] in
theorem selectRows_alike (h : Pair A b k w v)
    {r : Except SqlxError (Int × ∀ t, List (Row t))}
    (hrun : selectRows A k b w = some (r, w')) :
    Matches A b w' r (selectRows A k b v) := by
  cases hrun
  refine ⟨v.completeStatement k, ?_,
    alike_complete h.alike h.session h.block⟩
  unfold selectRows
  rw [h.now]
  refine congrArg some (Prod.ext (congrArg Except.ok (Prod.ext rfl ?_)) rfl)
  funext t
  exact congrArg (List.map Stored.row)
    ((h.alike.tables t).view fun s => owner_of_qualifies).symm

section

omit [DecidableEq τ] [DecidableEq υ]

theorem dup_owner (hkeys : TenantKeys A) {r s : Stored (Row t)}
    (h : dupStored A r s = true) : ownerOf A r = ownerOf A s := by
  simp only [dupStored, Bool.and_eq_true] at h
  exact congrArg some (hkeys t r.row s.row h.2)

/-- A new row, in both runs. -/
theorem insertStored_alike (hkeys : TenantKeys A) {s : Stored (Row t)}
    {x y : Table (Stored (Row t))} (h : Agree (ownerOf A) b x y)
    (hs : ownerOf A s = b) {res : Except SqlxError (Table (Stored (Row t)))}
    (hinsert : insertStored A k s x = some res) :
    (∃ x' y', res = .ok x' ∧ insertStored A k s y = some (.ok y') ∧
        Agree (ownerOf A) b x' y') ∨
      ∃ e, res = .error e ∧ insertStored A k s y = some (.error e) := by
  rcases @Agree.insertRows (Option υ) b k τ (fun t => Stored (Row t)) t
      (ownerOf A) x y s (dupStored A) h hs (fun s' => dup_owner hkeys) res
      hinsert with
    ⟨x', y', rfl, rfl, rfl, hy⟩ | ⟨e, rfl, hy⟩
  · exact .inl ⟨_, _, rfl, hy, h.append (.refl _)⟩
  · exact .inr ⟨e, rfl, hy⟩

end

theorem insertRow_alike (hkeys : TenantKeys A) (h : Pair A b k w v)
    {r : Int → Row t} {res : Except SqlxError Unit}
    (hrun : insertRow A t r k b w = some (res, w')) :
    Matches A b w' res (insertRow A t r k b v) := by
  unfold insertRow at hrun ⊢
  rw [h.now]
  split at hrun
  · rename_i hallowed
    rw [if_pos hallowed]
    split at hrun
    · cases hrun
    · rename_i e hx
      cases hrun
      rcases insertStored_alike hkeys (h.alike.tables t)
          (owner_of_allows hallowed) hx with
        ⟨x', y', hok, -, -⟩ | ⟨e', he, hy⟩
      · cases hok
      · cases he
        rw [hy]
        exact ⟨_, rfl, alike_fail h.alike h.session⟩
    · rename_i x hx
      cases hrun
      rcases insertStored_alike hkeys (h.alike.tables t)
          (owner_of_allows hallowed) hx with
        ⟨x', y', hok, hy, hagree⟩ | ⟨e', he, -⟩
      · cases hok
        rw [hy]
        exact ⟨_, rfl, alike_complete (alike_setTable h.alike hagree) h.session
          h.block⟩
      · cases he
  · rename_i hdenied
    rw [if_neg hdenied]
    cases hrun
    exact ⟨_, rfl, alike_fail h.alike h.session⟩

omit [DecidableEq τ] in
theorem modifyStart_alike (h : Pair A b k w v) {p : Int → Row t → Bool}
    {r : Except SqlxError (List Nat)}
    (hrun : modifyStart A t p k b w = some (r, w')) :
    Matches A b w' r (modifyStart A t p k b v) := by
  cases hrun
  refine ⟨v, ?_, h.alike⟩
  unfold modifyStart
  rw [h.now, (h.alike.tables t).targets fun s => owner_of_qualifies]

theorem modifyVisit_alike (hkeys : TenantKeys A) (h : Pair A b k w v)
    {p : Int → Row t → Bool} {f : Int → Row t → Option (Row t)} {pos : Nat}
    {r : Except SqlxError (Option (Row t))}
    (hrun : modifyVisit A t p f pos k b w = some (r, w')) :
    Matches A b w' r (modifyVisit A t p f pos k b v) := by
  unfold modifyVisit at hrun ⊢
  rw [h.now]
  split at hrun
  · cases hrun
  · rename_i x hx
    cases hrun
    obtain ⟨y, hy, hagree⟩ := (h.alike.tables t).visit
      (fun s => owner_of_qualifies) (h.quiet t) hx
    rw [hy]
    exact ⟨_, rfl, alike_setTable h.alike hagree⟩
  · rename_i s x hx
    obtain ⟨y, hy, hagree⟩ := (h.alike.tables t).visit
      (fun s => owner_of_qualifies) (h.quiet t) hx
    rw [hy]
    dsimp only
    split at hrun
    · rename_i hallowed
      rw [if_pos hallowed]
      have hrest : Agree (ownerOf A) b (x.set pos ⟨none, none⟩)
          (y.set pos ⟨none, none⟩) := hagree.set (.refl _)
      split at hrun
      · cases hrun
      · rename_i e hfree
        cases hrun
        rcases insertStored_alike hkeys hrest (owner_of_allows hallowed)
            hfree with ⟨x', y', hok, -, -⟩ | ⟨e', he, hfree'⟩
        · cases hok
        · cases he
          rw [hfree']
          exact ⟨_, rfl, alike_fail h.alike h.session⟩
      · rename_i z hfree
        cases hrun
        rcases insertStored_alike hkeys hrest (owner_of_allows hallowed)
            hfree with ⟨x', y', -, hfree', -⟩ | ⟨e', he, -⟩
        · rw [hfree']
          exact ⟨_, rfl, alike_setTable h.alike hagree⟩
        · cases he
    · rename_i hdenied
      rw [if_neg hdenied]
      cases hrun
      exact ⟨_, rfl, alike_fail h.alike h.session⟩

omit [DecidableEq υ] in
theorem Pair.opened (h : Pair A b k w v) :
    Pair A b k (w.openStatement k ()) (v.openStatement k ()) := by
  have hopen : StatementStep A k b w (w.openStatement k ()) := step_open
  refine ⟨alike_open h.alike h.session, ?_, hopen.block h.block, ?_⟩
  · unfold writesFor
    rw [mem_open]
    exact h.mine
  · rw [db_open]
    exact h.quiet

omit [DecidableEq τ] [DecidableEq υ] in
/-- A statement, in both runs. -/
theorem statement_alike (h : Pair A b k w v) {ch : Choice Unit}
    {f g : Nat → TenantSrv Row υ → Option (Except SqlxError β × TenantSrv Row υ)}
    {r : Except SqlxError β}
    (hf : f k (w.openStatement k ()) = some (r, w') →
      Matches A b w' r (g k (v.openStatement k ())))
    (hrun : statement () f k ch w = some (r, w')) :
    Matches A b w' r (statement () g k ch v) := by
  unfold statement at hrun ⊢
  rw [h.session]
  split at hrun
  · cases hrun
    exact ⟨_, rfl, h.alike⟩
  · split at hrun
    · cases hrun
      exact ⟨_, rfl, alike_fail h.alike h.session⟩
    · exact hf hrun

section

omit [DecidableEq υ]

theorem underPolicy_alike (h : Pair A b k w v)
    (hw : policyTenant A.uuid (w.mem.setting k) = .ok b)
    (hv : policyTenant A.uuid (v.mem.setting k) = .ok b)
    {f : Option υ → TenantSrv Row υ →
      Option (Except SqlxError β × TenantSrv Row υ)} {ch : Choice Unit}
    {r : Except SqlxError β}
    (hf : ∀ {u u'}, Pair A b k u u' → f b u = some (r, w') →
      Matches A b w' r (f b u'))
    (hrun : underPolicy A f k ch w = some (r, w')) :
    Matches A b w' r (underPolicy A f k ch v) := by
  refine statement_alike h (fun hstep => ?_) hrun
  rw [mem_open, hw] at hstep
  rw [mem_open, hv]
  exact hf h.opened hstep

theorem updateEnd_alike (h : Pair A b k w v) {ch : Choice Unit}
    {r : Except SqlxError Unit} (hrun : updateEnd () k ch w = some (r, w')) :
    Matches A b w' r (updateEnd () k ch v) := by
  refine statement_alike h (fun hstep => ?_) hrun
  cases hstep
  exact ⟨_, rfl, alike_complete h.opened.alike h.opened.session
    h.opened.block⟩

end

/-! ## The calls of the tenant -/

/-- A guard of `b`, in both runs. -/
structure Guarded (A : Application τ Row υ) (b : Option υ) (k : Nat)
    (w v : TenantSrv Row υ) : Prop extends Pair A b k w v where
  tenant : policyTenant A.uuid (w.mem.setting k) = .ok b
  tenant' : policyTenant A.uuid (v.mem.setting k) = .ok b

omit [DecidableEq τ] in
theorem guarded {q : TenantCall Row υ α} (h : Alike A q.scope w v)
    (hw : ConfinedSrv A w) (hv : ConfinedSrv A v) (hg : HasGuard A i q k w) :
    Guarded A q.scope k w v where
  alike := h
  mine := writesFor_held hg.use
  block := hg.block
  quiet _ _ hc _ _ hr := h.quiet hv hc hr
  tenant := policyTenant_eq (hw.blank k) hg.tenant
  tenant' := policyTenant_eq (hv.blank k)
    ((h.mine k (writesFor_held hg.use)).inTx.trans hg.tenant)

/-- The same stage in both runs, and servers that are alike again. -/
def StepAlike (A : Application τ Row υ) (b : Option υ)
    (x : Stage Row υ α × TenantSrv Row υ)
    (o : Option (Stage Row υ α × TenantSrv Row υ)) : Prop :=
  Matches A b x.2 x.1 o

omit [DecidableEq τ] [DecidableEq υ] in
/-- What follows a statement is the same in both runs. -/
theorem Matches.map {r : Except SqlxError β}
    {g : Except SqlxError β × TenantSrv Row υ →
      Stage Row υ α × TenantSrv Row υ}
    {o : Option (Except SqlxError β × TenantSrv Row υ)}
    (h : Matches A b u r o)
    (hg : ∀ u', Alike A b u u' → (g (r, u')).1 = (g (r, u)).1 ∧
      Alike A b (g (r, u)).2 (g (r, u')).2) :
    StepAlike A b (g (r, u)) (o.map g) := by
  obtain ⟨u', rfl, halike⟩ := h
  obtain ⟨hstage, hserver⟩ := hg u' halike
  exact ⟨(g (r, u')).2, congrArg some (Prod.ext hstage rfl), hserver⟩

section Calls

variable {q : TenantCall Row υ α} {x : Stage Row υ α × TenantSrv Row υ}
  {pick : Pick}

section

omit [DecidableEq τ] [DecidableEq υ]

/-- A guard is dropped, in both runs. -/
theorem drop_alike (h : Alike A b w v) (hk : writesFor w k = some b) :
    Alike A b (handTo k (.closing b) w) (handTo k (.closing b) v) :=
  alike_handTo h (fun _ => ⟨(h.mine k hk).inTx, (h.mine k hk).session⟩)
    fun hne => absurd rfl hne

/-- A transaction has ended, in both runs. -/
theorem end_alike (h : Alike A b w v) (hclosed : (w.session k).status = .idle)
    {y : Use υ}
    (hy : y = .idle ∨ y = .closing b) :
    Alike A b (handTo k y (endSetting k w)) (handTo k y (endSetting k v)) := by
  have hend : (v.mem.setting k).endTx.inTx = (w.mem.setting k).endTx.inTx := by
    rw [Setting.inTx_endTx, Setting.inTx_endTx]
  refine alike_handTo (alike_setSetting h hend) (fun _ => ⟨?_, ?_⟩)
    fun hne => ?_
  · show ((setSetting k _ v).mem.setting k).inTx = _
    rw [setting_setSetting]
    refine hend.trans (Eq.symm ?_)
    show ((setSetting k _ w).mem.setting k).inTx = _
    rw [setting_setSetting]
  · rintro (hst | hst)
    · cases hst.symm.trans hclosed
    · cases hst.symm.trans hclosed
  · rcases hy with rfl | rfl
    · rfl
    · exact absurd rfl hne

end

theorem acquire_alike (h : Alike A q.scope w v) (hw : ConfinedSrv A w)
    (hv : ConfinedSrv A v) (hx : advance A q i pick .acquire w = some x) :
    StepAlike A q.scope x (advance A q i pick .acquire v) := by
  rcases acquire_cases hx with ⟨msg, hch, rfl⟩ | ⟨hidle, hch, rfl⟩
  · refine ⟨v, ?_, h⟩
    obtain ⟨choice, conn⟩ := pick
    cases hch
    rfl
  · have hother : writesFor w pick.conn ≠ some q.scope := by
      rw [writesFor_idle hidle]
      intro heq
      cases heq
    have hidle' := h.others pick.conn hother
    refine ⟨handTo pick.conn (.held i q.scope) v, ?_, ?_⟩
    · obtain ⟨choice, conn⟩ := pick
      have hhanded : (if v.mem.use conn = .idle then
            some ((.beginTx conn : Stage Row υ α),
              handTo conn (.held i q.scope) v)
          else none) =
          some (.beginTx conn, handTo conn (.held i q.scope) v) :=
        if_pos hidle'
      cases choice with
      | fail msg => exact absurd rfl (hch msg)
      | ok => exact hhanded
      | draw n => exact hhanded
    · refine alike_handTo h (fun _ => ⟨?_, fun hblock => ?_⟩)
        fun hne => absurd rfl hne
      · rw [(hv.idle _ hidle').1, (hw.idle _ hidle).1]
      · rw [(hw.idle _ hidle).2] at hblock
        rcases hblock with hst | hst <;> cases hst

theorem begin_alike (h : Alike A q.scope w v)
    (hp : Placed A i q w (.beginTx k))
    (hx : advance A q i pick (.beginTx k) w = some x) :
    StepAlike A q.scope x (advance A q i pick (.beginTx k) v) := by
  have hmine := writesFor_held hp.1
  obtain ⟨⟨r, u⟩, hbegin, rfl⟩ := Option.map_eq_some_iff.mp hx
  obtain ⟨choice, conn⟩ := pick
  cases choice with
  | fail msg =>
      cases hbegin
      exact ⟨_, rfl, drop_alike h hmine⟩
  | ok =>
      cases hbegin
      exact ⟨_, rfl, alike_begin h⟩
  | draw n =>
      cases hbegin
      exact ⟨_, rfl, alike_begin h⟩

theorem setTenant_alike {a : υ} (h : Alike A q.scope w v)
    (hv : ConfinedSrv A v) (hp : Placed A i q w (.setTenant k a))
    (hx : advance A q i pick (.setTenant k a) w = some x) :
    StepAlike A q.scope x (advance A q i pick (.setTenant k a) v) := by
  obtain ⟨huse, hscope, hblock⟩ := hp
  have hmine := writesFor_held huse
  have hpair : Pair A q.scope k w v :=
    ⟨h, hmine, hblock, fun _ _ hc _ _ hr => h.quiet hv hc hr⟩
  obtain ⟨⟨r, u⟩, hset, rfl⟩ := Option.map_eq_some_iff.mp hx
  have hmatches : Matches A q.scope u r (setConfig A a k pick.choice v) := by
    refine statement_alike hpair (fun hstep => ?_) hset
    cases hstep
    have hopen := hpair.opened
    exact ⟨_, rfl, alike_complete (alike_setSetting hopen.alike rfl)
      hopen.session hopen.block⟩
  have humine : writesFor u k = some q.scope := by
    rcases statement_cases hset with ⟨-, rfl, -⟩ | ⟨-, rfl, -⟩ | ⟨-, hrun⟩
    · exact hmine
    · exact hmine
    · cases hrun
      have hopen : StatementStep A k q.scope w (w.openStatement k ()) :=
        step_open
      have hcomplete : StatementStep A k q.scope
          (setSetting k (((w.openStatement k ()).mem.setting k).setLocal
            (A.uuid.text a)) (w.openStatement k ())) _ :=
        step_complete (hopen.block hblock)
      unfold writesFor
      rw [hcomplete.mem]
      show ((w.openStatement k ()).mem.use k).scope? = _
      rw [mem_open]
      exact hmine
  refine hmatches.map fun u' hu' => ?_
  cases r with
  | error e => exact ⟨rfl, drop_alike hu' humine⟩
  | ok _ => exact ⟨rfl, hu'⟩

theorem finish_alike {exit : Exit} {a : α} (h : Guarded A q.scope k w v)
    (hx : advance A q i pick (.run k (.finish exit a)) w = some x) :
    StepAlike A q.scope x (advance A q i pick (.run k (.finish exit a)) v) := by
  have hrolled : ∀ {y : Use υ}, y = .idle ∨ y = .closing q.scope →
      Alike A q.scope (handTo k y (endSetting k (w.rollbackTx k)))
        (handTo k y (endSetting k (v.rollbackTx k))) := fun hy =>
    end_alike (alike_rollback h.alike) (closed_session k w.session) hy
  cases exit with
  | commit =>
      obtain ⟨⟨r, u⟩, hcommit, rfl⟩ := Option.map_eq_some_iff.mp hx
      have hsession := h.session
      rcases h.block with hst | hst
      · obtain ⟨choice, conn⟩ := pick
        have hst' : (v.session k).status = .explicit := by
          rw [hsession]
          exact hst
        have hcommitted : Alike A q.scope
            (handTo k .idle (endSetting k (w.commitTx k ())))
            (handTo k .idle (endSetting k (v.commitTx k ()))) :=
          end_alike (alike_commit h.alike) (closed_session k w.session)
            (.inl rfl)
        cases choice with
        | fail msg =>
            simp only [commitStep, hst] at hcommit
            cases hcommit
            refine ⟨_, ?_, hrolled (.inr rfl)⟩
            simp [advance, commitStep, hst', commitDone]
        | ok =>
            simp only [commitStep, hst] at hcommit
            cases hcommit
            refine ⟨_, ?_, hcommitted⟩
            simp [advance, commitStep, hst', commitDone]
        | draw n =>
            simp only [commitStep, hst] at hcommit
            cases hcommit
            refine ⟨_, ?_, hcommitted⟩
            simp [advance, commitStep, hst', commitDone]
      · have hst' : (v.session k).status = .aborted := by
          rw [hsession]
          exact hst
        simp only [commitStep, hst] at hcommit
        cases hcommit
        refine ⟨_, ?_, hrolled (.inl rfl)⟩
        simp [advance, commitStep, hst', commitDone]
  | rollback =>
      obtain ⟨choice, conn⟩ := pick
      cases choice with
      | fail msg =>
          cases hx
          exact ⟨_, rfl, drop_alike h.alike h.mine⟩
      | ok =>
          cases hx
          exact ⟨_, rfl, hrolled (.inl rfl)⟩
      | draw n =>
          cases hx
          exact ⟨_, rfl, hrolled (.inl rfl)⟩
  | drop =>
      cases hx
      exact ⟨_, rfl, drop_alike h.alike h.mine⟩

theorem run_alike (hkeys : TenantKeys A) {s : Script Row α}
    (h : Guarded A q.scope k w v)
    (hx : advance A q i pick (.run k s) w = some x) :
    StepAlike A q.scope x (advance A q i pick (.run k s) v) := by
  cases s with
  | finish exit a => exact finish_alike h hx
  | select next =>
      obtain ⟨⟨r, u⟩, hselect, rfl⟩ := Option.map_eq_some_iff.mp hx
      exact (underPolicy_alike h.toPair h.tenant h.tenant'
        (fun hp hrun => selectRows_alike hp hrun) hselect).map
          fun u' hu' => ⟨rfl, hu'⟩
  | insert t r next =>
      obtain ⟨⟨r, u⟩, hinsert, rfl⟩ := Option.map_eq_some_iff.mp hx
      exact (underPolicy_alike h.toPair h.tenant h.tenant'
        (fun hp hrun => insertRow_alike hkeys hp hrun) hinsert).map
          fun u' hu' => ⟨rfl, hu'⟩
  | modify t p f next =>
      obtain ⟨⟨r, u⟩, hstart, rfl⟩ := Option.map_eq_some_iff.mp hx
      refine (underPolicy_alike h.toPair h.tenant h.tenant'
        (fun hp hrun => modifyStart_alike hp hrun) hstart).map
          fun u' hu' => ?_
      cases r with
      | error e => exact ⟨rfl, hu'⟩
      | ok ks => exact ⟨rfl, hu'⟩

theorem sweep_alike (hkeys : TenantKeys A) {t : τ} {p : Int → Row t → Bool}
    {f : Int → Row t → Option (Row t)}
    {next : Except SqlxError (List (Row t)) → Script Row α}
    {visited : List (Row t)} {left : List Nat} (h : Guarded A q.scope k w v)
    (hx : advance A q i pick (.sweep k t p f next visited left) w = some x) :
    StepAlike A q.scope x
      (advance A q i pick (.sweep k t p f next visited left) v) := by
  cases left with
  | nil =>
      obtain ⟨⟨r, u⟩, hend, rfl⟩ := Option.map_eq_some_iff.mp hx
      exact (updateEnd_alike h.toPair hend).map fun u' hu' => ⟨rfl, hu'⟩
  | cons pos left =>
      obtain ⟨⟨r, u⟩, hvisit, rfl⟩ := Option.map_eq_some_iff.mp hx
      refine (underPolicy_alike h.toPair h.tenant h.tenant'
        (fun hp hrun => modifyVisit_alike hkeys hp hrun) hvisit).map
          fun u' hu' => ?_
      cases r with
      | error e => exact ⟨rfl, hu'⟩
      | ok o => exact ⟨rfl, hu'⟩

/-- **A call cannot tell the servers apart.** -/
theorem advance_alike (hkeys : TenantKeys A) {s : Stage Row υ α}
    (h : Alike A q.scope w v) (hw : ConfinedSrv A w) (hv : ConfinedSrv A v)
    (hp : Placed A i q w s) (hx : advance A q i pick s w = some x) :
    StepAlike A q.scope x (advance A q i pick s v) := by
  cases s with
  | acquire => exact acquire_alike h hw hv hx
  | beginTx k => exact begin_alike h hp hx
  | setTenant k u => exact setTenant_alike h hv hp hx
  | run k s => exact run_alike hkeys (guarded h hw hv hp) hx
  | sweep k t p f next visited left =>
      exact sweep_alike hkeys (guarded h hw hv hp) hx
  | done r => cases hx

omit [DecidableEq τ] [DecidableEq υ] in
/-- A call is dropped, in both runs. -/
theorem letGo_alike {s : Stage Row υ α} (h : Alike A q.scope w v)
    (hp : Placed A i q w s) :
    Alike A q.scope (letGo q s w) (letGo q s v) := by
  cases s with
  | acquire => exact h
  | beginTx k => exact drop_alike h (writesFor_held hp.1)
  | setTenant k u => exact drop_alike h (writesFor_held hp.1)
  | run k s => exact drop_alike h (writesFor_held (HasGuard.use hp))
  | sweep k t p f next visited left =>
      exact drop_alike h (writesFor_held (HasGuard.use hp))
  | done r => exact h

end Calls

/-! ## Runs -/

/-- Only the calls for `b`. -/
def only (b : Option υ) (e : TenantEvent Row υ α) (_ : TenantConfig Row υ α) :
    Prop :=
  ∀ i q, e = .call i q → q.scope = b

/-- **The configurations are alike for `b`**: the servers are, and the calls
for `b` stand at the same places. -/
structure AlikeConfig (A : Application τ Row υ) (b : Option υ)
    (c d : TenantConfig Row υ α) : Prop where
  server : Alike A b c.shared d.shared
  same : ∀ i q s, c.thread i = some (q, s) → q.scope = b →
    d.thread i = some (q, s)
  free : ∀ i, (∀ q s, c.thread i = some (q, s) → q.scope ≠ b) →
    d.isFree i = true

section Runs

variable {c c' d : TenantConfig Row υ α}

omit [DecidableEq τ] in
/-- A thread that is free in the first run is free in the second. -/
theorem AlikeConfig.isFree (h : AlikeConfig A b c d)
    (hfree : c.isFree i = true) : d.isFree i = true := by
  cases hthread : c.thread i with
  | none =>
      refine h.free i fun q s hs => ?_
      rw [hthread] at hs
      cases hs
  | some x =>
      obtain ⟨q, s⟩ := x
      by_cases hq : q.scope = b
      · have hd := h.same i q s hthread hq
        unfold TenantConfig.isFree at hfree ⊢
        rw [hthread] at hfree
        rw [hd]
        exact hfree
      · refine h.free i fun q' s' hs => ?_
        rw [hthread] at hs
        cases hs
        exact hq

section

omit [DecidableEq τ] [DecidableEq υ]

/-- A thread moves in both runs. -/
theorem AlikeConfig.both (h : AlikeConfig A b c d)
    {x : Option (TenantCall Row υ α × Stage Row υ α)} (hw : Alike A b w v)
    (hx : ∀ q s, x = some (q, s) → q.scope = b) :
    AlikeConfig A b (c.put i x w) (d.put i x v) where
  server := hw
  same j q s hj hq := by
    by_cases heq : j = i
    · subst heq
      rw [thread_put_self] at hj ⊢
      exact hj
    · rw [thread_put_ne heq] at hj ⊢
      exact h.same j q s hj hq
  free j hj := by
    unfold TenantConfig.isFree
    by_cases heq : j = i
    · subst heq
      rw [thread_put_self] at hj ⊢
      cases x with
      | none => rfl
      | some y => exact absurd (hx y.1 y.2 rfl) (hj y.1 y.2 rfl)
    · rw [thread_put_ne heq] at hj ⊢
      exact h.free j hj

/-- A thread that serves somebody else, or nobody, moves in the first run. -/
theorem AlikeConfig.first (h : AlikeConfig A b c d)
    {x : Option (TenantCall Row υ α × Stage Row υ α)} (hw : Alike A b w v)
    (hx : ∀ q s, x = some (q, s) → q.scope ≠ b) (hfree : d.isFree i = true) :
    AlikeConfig A b (c.put i x w) ⟨v, d.thread⟩ where
  server := hw
  same j q s hj hq := by
    by_cases heq : j = i
    · subst heq
      rw [thread_put_self] at hj
      exact absurd hq (hx q s hj)
    · rw [thread_put_ne heq] at hj
      exact h.same j q s hj hq
  free j hj := by
    by_cases heq : j = i
    · subst heq
      exact hfree
    · rw [thread_put_ne heq] at hj
      exact h.free j hj

/-- No thread moves. -/
theorem AlikeConfig.outside (h : AlikeConfig A b c d) (hw : Alike A b w v) :
    AlikeConfig A b ⟨w, c.thread⟩ ⟨v, d.thread⟩ := ⟨hw, h.same, h.free⟩

end

/-- The second run has nothing to do, or a slot to skip. -/
theorem follow (hd : Alike A b w d.shared ∨
      ∃ t, Alike A b w (addSpare t d.shared)) :
    ∃ v, Reaches (tenantMachine A) (only b) d ⟨v, d.thread⟩ ∧
      Alike A b w v := by
  rcases hd with halike | ⟨t, halike⟩
  · exact ⟨d.shared, .refl d, halike⟩
  · refine ⟨addSpare t d.shared, ?_, halike⟩
    refine Relation.ReflTransGen.single ⟨.spare t, rfl, ?_⟩
    intro i q heq
    cases heq

/-- One event that is no call. -/
theorem reaches_event {e : TenantEvent Row υ α} {d' : TenantConfig Row υ α}
    (hstep : tenantMachine A e d = some d') (he : ∀ i q, e ≠ .call i q) :
    Reaches (tenantMachine A) (only b) d d' :=
  Relation.ReflTransGen.single
    ⟨e, hstep, fun i q heq => absurd heq (he i q)⟩

/-- A rollback by the pool, in both runs or of somebody else. -/
theorem cleanup_alike (hc : Confined A c) (h : AlikeConfig A b c d)
    (hk : c.shared.mem.use k = .closing scope) :
    ∃ d', Reaches (tenantMachine A) (only b) d d' ∧
      AlikeConfig A b ⟨cleaned k c.shared, c.thread⟩ d' := by
  have hwrites : writesFor c.shared k = some scope := by
    unfold writesFor
    rw [hk]
    rfl
  by_cases hscope : scope = b
  · subst hscope
    have hconn := h.server.mine k hwrites
    have hk' : d.shared.mem.use k = .closing scope := hconn.use.trans hk
    refine ⟨⟨cleaned k d.shared, d.thread⟩,
      reaches_event (e := .cleanup k) ?_
          (fun _ _ heq => by cases heq), h.outside ?_⟩
    · simp only [tenantMachine, hk']
    · exact end_alike (alike_rollback h.server)
        (closed_session k c.shared.session) (.inl rfl)
  · have hother : writesFor c.shared k ≠ some b := by
      rw [hwrites]
      exact fun heq => hscope (Option.some.inj heq)
    refine ⟨⟨d.shared, d.thread⟩, .refl d, h.outside ?_⟩
    refine h.server.aside rfl
      (fun t => (hc.server.owned t).agree_rollback hother) fun j => ?_
    by_cases heq : j = k
    · subst heq
      refine .inr ⟨hother, ?_⟩
      unfold writesFor cleaned
      rw [use_handTo]
      intro heq
      cases heq
    · have hroll : SameConn j c.shared (c.shared.rollbackTx k) :=
        ⟨rfl, rfl, Function.update_of_ne heq _ _⟩
      exact .inl ((hroll.trans (same_setSetting heq)).trans (same_handTo heq))

/-- A call that arrives, in both runs or of somebody else. -/
theorem call_alike (h : AlikeConfig A b c d)
    (hstep : tenantMachine A (.call i q) c = some c') :
    ∃ d', Reaches (tenantMachine A) (only b) d d' ∧ AlikeConfig A b c' d' := by
  simp only [tenantMachine] at hstep
  obtain ⟨hfree, hc'⟩ := Option.ite_none_right_eq_some.mp hstep
  cases hc'
  have hfree' := h.isFree hfree
  by_cases hq : q.scope = b
  · refine ⟨d.put i (some (q, .acquire)) d.shared, ?_,
      h.both h.server fun q' s hs => ?_⟩
    · refine Relation.ReflTransGen.single
        ⟨.call i q, if_pos hfree', fun j q' heq => ?_⟩
      cases heq
      exact hq
    · cases hs
      exact hq
  · refine ⟨⟨d.shared, d.thread⟩, .refl d,
      h.first h.server (fun q' s hs => ?_) hfree'⟩
    cases hs
    exact hq

/-- A step of a call, in both runs or of somebody else. -/
theorem thread_alike {pick : Pick} (hkeys : TenantKeys A) (hc : Confined A c)
    (hd : Confined A d) (h : AlikeConfig A b c d)
    (hstep : tenantMachine A (.run i pick) c = some c') :
    ∃ d', Reaches (tenantMachine A) (only b) d d' ∧ AlikeConfig A b c' d' := by
  simp only [tenantMachine] at hstep
  split at hstep
  · cases hstep
  rename_i q s hthread
  obtain ⟨x, hx, rfl⟩ := Option.map_eq_some_iff.mp hstep
  have hplaced := hc.placed i q s hthread
  by_cases hq : q.scope = b
  · subst hq
    have hthread' := h.same i q s hthread rfl
    obtain ⟨v, hv, halike⟩ := advance_alike hkeys h.server hc.server
      hd.server hplaced hx
    refine ⟨d.put i (some (q, x.1)) v, reaches_event (e := .run i pick) ?_
      (fun _ _ heq => by cases heq), h.both halike fun q' s' hs => ?_⟩
    · simp only [tenantMachine, hthread', hv]
      rfl
    · cases hs
      rfl
  · obtain ⟨v, hreaches, halike⟩ := follow (CallStep.apart
      (advance_step hc.server hplaced hx).1 hc.server hq h.server)
    refine ⟨_, hreaches, h.first halike (fun q' s' hs => ?_)
      (h.free i fun q' s' hs => ?_)⟩
    · cases hs
      exact hq
    · rw [hthread] at hs
      cases hs
      exact hq

/-- A call that is dropped, in both runs or of somebody else. -/
theorem cancel_alike (hc : Confined A c) (h : AlikeConfig A b c d)
    (hstep : tenantMachine A (.cancel i) c = some c') :
    ∃ d', Reaches (tenantMachine A) (only b) d d' ∧ AlikeConfig A b c' d' := by
  simp only [tenantMachine] at hstep
  split at hstep
  · cases hstep
  rename_i q s hthread
  cases hstep
  have hplaced := hc.placed i q s hthread
  by_cases hq : q.scope = b
  · subst hq
    have hthread' := h.same i q s hthread rfl
    refine ⟨d.put i none (letGo q s d.shared),
      reaches_event (e := .cancel i) ?_ (fun _ _ heq => by cases heq),
      h.both (letGo_alike h.server hplaced) fun q' s' hs => by cases hs⟩
    simp only [tenantMachine, hthread']
  · obtain ⟨v, hreaches, halike⟩ := follow (CallStep.apart
      (letGo_step hc.server hplaced).1 hc.server hq h.server)
    refine ⟨_, hreaches, h.first halike (fun q' s' hs => by cases hs)
      (h.free i fun q' s' hs => ?_)⟩
    rw [hthread] at hs
    cases hs
    exact hq

/-- **One event**, and what it is without the others. -/
theorem event_alike (hkeys : TenantKeys A) {e : TenantEvent Row υ α}
    (hc : Confined A c) (hd : Confined A d) (h : AlikeConfig A b c d)
    (hstep : tenantMachine A e c = some c') :
    ∃ d', Reaches (tenantMachine A) (only b) d d' ∧ AlikeConfig A b c' d' := by
  cases e with
  | call i q => exact call_alike h hstep
  | run i pick => exact thread_alike hkeys hc hd h hstep
  | cancel i => exact cancel_alike hc h hstep
  | tick n =>
      cases hstep
      refine ⟨⟨{ d.shared with clock := d.shared.clock + n }, d.thread⟩,
        reaches_event (e := .tick n) rfl
          (fun _ _ heq => by cases heq), h.outside ?_⟩
      refine ⟨?_, h.server.tables, fun k hk => ?_, h.server.others⟩
      · show d.shared.clock + n = c.shared.clock + n
        rw [h.server.clock]
      · have hconn := h.server.mine k hk
        exact ⟨hconn.use, hconn.inTx, hconn.session⟩
  | cleanup k =>
      simp only [tenantMachine] at hstep
      split at hstep
      · rename_i scope hk
        cases hstep
        exact cleanup_alike hc h hk
      · cases hstep
  | reconnect k =>
      simp only [tenantMachine] at hstep
      split at hstep
      · rename_i hk
        cases hstep
        refine ⟨⟨d.shared, d.thread⟩, .refl d, h.outside ?_⟩
        refine h.server.aside rfl (fun t => .refl _) fun j => ?_
        by_cases heq : j = k
        · subst heq
          have hidle : writesFor c.shared j ≠ some b := by
            rw [writesFor_idle hk]
            intro heq
            cases heq
          exact .inr ⟨hidle, hidle⟩
        · exact .inl (same_setSetting heq)
      · cases hstep
  | spare t =>
      cases hstep
      exact ⟨⟨addSpare t d.shared, d.thread⟩,
        reaches_event (e := .spare t) rfl
          (fun _ _ heq => by cases heq),
        h.outside (alike_spare h.server)⟩

/-- The live rows of a tenant, as they are committed. -/
def rowsOf (A : Application τ Row υ) (b : Option υ)
    (x : Table (Stored (Row t))) : List (Stored (Row t)) :=
  x.rows.filter (qualifies A b fun _ => true)

/-- **Tenants do not interfere.**  For every run from `w`, of any calls of any
tenants, there is a run from `v` in which only the calls for `b` arrive, and
in which these calls stand where they stand in the first run, have the same
results, and have left the same rows of `b`.  The database of `v` has the rows
of `b` that `w` has; the other rows do not matter. -/
theorem noninterference (hkeys : TenantKeys A) {w v : TenantSrv Row υ}
    (hw : Opening w) (hv : Opening v) (hclock : v.clock = w.clock)
    (htables : ∀ t, Agree (ownerOf A) b (w.db t) (v.db t))
    (hrun : Reaches (tenantMachine A) free (.start w) c) :
    ∃ d, Reaches (tenantMachine A) (only b) (.start v) d ∧
      (∀ i q s, c.thread i = some (q, s) → q.scope = b →
        d.thread i = some (q, s)) ∧
      ∀ t, rowsOf A b (d.shared.db t) = rowsOf A b (c.shared.db t) := by
  have hstart : AlikeConfig A b (.start w : TenantConfig Row υ α) (.start v) :=
    { server :=
        { clock := hclock
          tables := htables
          mine := fun k hk => by
            have hidle := writesFor_idle (hw.idle k)
            cases hidle.symm.trans hk
          others := fun k _ => hv.idle k }
      same := fun i q s hs => by cases hs
      free := fun i _ => rfl }
  have hsim : ∃ d, Reaches (tenantMachine A) (only b) (.start v) d ∧
      AlikeConfig A b c d := by
    induction hrun with
    | refl => exact ⟨_, .refl _, hstart⟩
    | tail hprefix hlast ih =>
        obtain ⟨d, hd, halike⟩ := ih
        obtain ⟨e, hstep, -⟩ := hlast
        obtain ⟨d', hd', halike'⟩ := event_alike hkeys
          (confined_reaches (confined_start hw) hprefix)
          (confined_reaches (confined_start hv) hd) halike hstep
        exact ⟨d', hd.trans hd', halike'⟩
  obtain ⟨d, hd, halike⟩ := hsim
  refine ⟨d, hd, halike.same, fun t => ?_⟩
  exact ((halike.server.tables t).rows fun s => owner_of_qualifies).symm

end Runs

theorem demo_keys : TenantKeys demo := by
  intro t r s h
  simp only [demo, Bool.and_eq_true, beq_iff_eq] at h
  exact h.1

/-- Tenant B has read while tenant A was writing. -/
def readBoth : DemoConfig :=
  (exec (tenantMachine demo) anyEvent
    (writes ++ begins ++ List.replicate 2 (stepOn 1))
    (.start (demoSrv [ticketA, ticketB]))).get (by decide +kernel)

theorem noninterference_readBoth :
    ∃ d : DemoConfig, Reaches (tenantMachine demo) (only (some .b))
        (.start (demoSrv [⟨none, none⟩, ticketB])) d ∧
      d.thread 1 = some (reader, .done (.ok ["B ticket"])) := by
  have hagree : ∀ t : Unit, Agree (ownerOf (t := t) demo) (some .b)
      ((demoSrv [ticketA, ticketB]).db t)
      ((demoSrv [⟨none, none⟩, ticketB]).db t) := by
    intro t
    refine .cons (.inr ⟨⟨fun r hr => ?_, fun _ _ h => by cases h⟩,
      foreign_vacant⟩)
      (.cons (.refl _) .nil)
    cases hr
    intro h
    cases h
  have hopen : Opening (demoSrv [ticketA, ticketB]) :=
    demo_opening (by decide)
  have hopen' : Opening (demoSrv [⟨none, none⟩, ticketB]) :=
    demo_opening (by decide)
  have hthread : readBoth.thread 1 =
      some (reader, .done (.ok ["B ticket"])) := rfl
  have hrun : Reaches (tenantMachine demo) free
      (.start (demoSrv [ticketA, ticketB])) readBoth :=
    exec_reaches (fun _ _ _ => trivial) (Option.some_get _).symm
  obtain ⟨d, hd, hsame, -⟩ :=
    noninterference demo_keys hopen hopen' rfl hagree hrun
  exact ⟨d, hd, hsame 1 _ _ hthread rfl⟩

end DpopAuth.Ports.TenantIsolation
