import DpopAuth.Ports.FamilyOutlines

/-!
# Calls as atomic steps

When calls run one at a time, every session is at rest between two calls:
no transaction is open and no row is locked.  Together with the invariant of
the family protocol this is `Settled`, and it holds of every state a run of
atomic calls reaches.

## Main results

* `restful_call` — every call starts and ends at rest.
* `atomic_inv` — the reachable states.
-/

namespace DpopAuth.Ports.AtomicCalls

open DpopAuth.Verified.Resumption
open DpopAuth.Verified.RelyGuarantee
open DpopAuth.Verified.RowVersions
open DpopAuth.Verified.Transactions
open DpopAuth.Verified.AtomicRules
open DpopAuth.Ports.Schema
open DpopAuth.Ports.Service
open DpopAuth.Ports.Repo
open DpopAuth.Ports.Auth
open DpopAuth.Ports.FamilyProtocol
open DpopAuth.Ports.FamilyOutlines

variable {svc : AuthService} {i : Nat} {block : Bool} {w w' : Srv}
  {α β ξ : Type}

/-! ## Programs that start and end between statements -/

abbrev RestfulE (i : Nat) (block : Bool)
    (p : ExceptT ξ (Prog Point Srv Pick) α) : Prop := Restful i block p.run

theorem restful_ret {a : α} :
    Restful i block (.ret a : Prog Point Srv Pick α) := fun _ _ hw => hw

theorem restful_pure {a : α} :
    RestfulE i block (pure a : ExceptT ξ (Prog Point Srv Pick) α) := restful_ret

theorem restful_throw {e : ξ} :
    RestfulE i block (throw e : ExceptT ξ (Prog Point Srv Pick) α) := restful_ret

theorem restful_then {p : Prog Point Srv Pick α} {k : α → Prog Point Srv Pick β}
    (hp : Restful i block p) (hk : ∀ a, Restful i block (k a)) :
    Restful i block (p.bind k) := Outline.bind hk hp

theorem restful_bind {p : ExceptT ξ (Prog Point Srv Pick) α}
    {k : α → ExceptT ξ (Prog Point Srv Pick) β} (hp : RestfulE i block p)
    (hk : ∀ a, RestfulE i block (k a)) : RestfulE i block (p >>= k) := by
  refine restful_then hp fun r => ?_
  cases r with
  | error e => exact restful_ret
  | ok a => exact hk a

theorem restful_lift {p : Prog Point Srv Pick α} (hp : Restful i block p) :
    RestfulE i block (liftM p : ExceptT ξ (Prog Point Srv Pick) α) :=
  restful_then hp fun _ => restful_ret

theorem restful_map {p : Svc α} {f : α → β} (hp : RestfulE i block p) :
    RestfulE i block (f <$> p) := by
  refine restful_then hp fun r => ?_
  cases r <;> exact restful_ret

theorem restful_propagate {q : Repo α} (hq : RestfulE i block q) :
    RestfulE i block q.propagate := by
  refine restful_then hq fun r => ?_
  cases r <;> exact restful_ret

theorem restful_ignore {q : Repo α} (hq : RestfulE i block q) :
    RestfulE i block q.ignore := restful_then hq fun _ => restful_ret

/-- A step that changes neither the database nor the sessions. -/
theorem restful_step {pt : Point} {f : Action Srv Pick α}
    (h : ∀ i ch w a w', f i ch w = some (a, w') →
      w'.session = w.session ∧ w'.db = w.db) :
    Restful i block (Prog.step pt f) := by
  refine Triple.step fun {w ch a w'} hw hf => ?_
  obtain ⟨hsess, hdb⟩ := h i ch w a w' hf
  simp only [Resting, hsess, hdb]
  exact hw

theorem restful_newText : RestfulE i block newText := by
  refine restful_step fun i ch w a w' hf => ?_
  split at hf <;> simp_all

theorem restful_newUuid : Restful i block newUuid := by
  refine restful_step fun i ch w a w' hf => ?_
  unfold newUuidStep at hf
  split at hf
  · split at hf
    · cases hf
    · simp only [Option.some.injEq, Prod.mk.injEq] at hf
      obtain ⟨_, rfl⟩ := hf
      exact ⟨rfl, rfl⟩
  · cases hf

theorem restful_utcNow : Restful i block utcNow :=
  restful_step fun _ _ _ _ _ hf => by simp_all

theorem restful_currentTimestamp : Restful i block currentTimestamp :=
  restful_step fun _ _ _ _ _ hf => by simp_all

theorem restful_graceGet {key : Uuid × String} :
    Restful i block (graceGet svc key) :=
  restful_step fun _ _ _ _ _ hf => by simp_all

theorem restful_graceInsert {key : Uuid × String} {v : ReplacementTokens} :
    Restful i block (graceInsert key v) := by
  refine restful_step fun i ch w a w' hf => ?_
  simp only [Option.some.injEq, Prod.mk.injEq] at hf
  obtain ⟨_, rfl⟩ := hf
  exact ⟨rfl, rfl⟩

theorem restful_refreshExpiry : RestfulE i block (refreshExpiry svc) := by
  refine restful_bind (restful_lift restful_utcNow) fun now => ?_
  split
  · exact restful_pure
  · exact restful_throw

theorem restful_issueAccessToken {user : UserRow} {jkt : String} :
    RestfulE i block (issueAccessToken svc user jkt) := by
  refine restful_bind (restful_lift restful_currentTimestamp) fun now =>
    restful_bind (restful_lift restful_newUuid) fun jti => ?_
  split
  · exact restful_pure
  · exact restful_throw

theorem restful_hashPasswordAsync {password : String} :
    RestfulE i block (hashPasswordAsync svc password) := by
  refine restful_bind restful_newText fun salt => ?_
  split
  · exact restful_pure
  · exact restful_throw

theorem restful_verifyPasswordAsync {password phc : String} :
    RestfulE i block (verifyPasswordAsync svc password phc) := by
  refine restful_bind (restful_step fun i ch w a w' hf => ?_) fun _ => ?_
  · split at hf <;> simp_all
  · split
    · exact restful_pure
    · exact restful_throw

theorem restful_revokeWhere {pt : Point} {p : RefreshTokenRow → Bool} :
    RestfulE i block (revokeWhere pt p) := resting_update

theorem restful_createRefreshToken {params : CreateRefreshTokenParams} :
    RestfulE i block (createRefreshToken params) :=
  restful_bind resting_insert fun _ => restful_pure

theorem restful_createUser {name hash : String} {at' : Option DateTime} :
    RestfulE i block (createUser name hash at') :=
  restful_bind (restful_lift restful_newUuid) fun _ =>
    restful_bind (restful_lift restful_newUuid) fun _ =>
      restful_bind resting_insert fun _ => restful_pure

theorem restful_updateLastLoginAt {id : Uuid} :
    RestfulE i block (updateLastLoginAt id) :=
  restful_bind resting_update fun _ => restful_pure

theorem restful_recordLoginAttempt {kind value ip : String} {success : Bool}
    {reason : Option String} :
    RestfulE i block (recordLoginAttempt svc kind value ip success reason) :=
  resting_insert

/-! ## The calls -/

theorem restful_issueSession {user : UserRow} {jkt : String}
    {ua : Option String} : RestfulE i block (issueSession svc user jkt ua) :=
  restful_bind restful_newText fun _ =>
    restful_bind (restful_lift restful_newUuid) fun _ =>
      restful_bind restful_refreshExpiry fun _ =>
        restful_bind (restful_propagate restful_createRefreshToken) fun _ =>
          restful_bind restful_issueAccessToken fun _ => restful_pure

theorem restful_authenticateUser {kind value password ip : String} :
    RestfulE i block (authenticateUser svc kind value password ip) := by
  refine restful_bind (restful_propagate resting_select) fun optUser =>
    restful_bind restful_verifyPasswordAsync fun valid => ?_
  split
  · exact restful_pure
  · exact restful_bind (restful_ignore restful_recordLoginAttempt)
      fun _ => restful_throw
  · exact restful_bind (restful_ignore restful_recordLoginAttempt)
      fun _ => restful_throw

theorem restful_registerTx {params : RegisterParams} {hash : String} :
    RestfulE i true (registerTx svc params hash) := by
  refine restful_bind (restful_lift restful_utcNow) fun _ => ?_
  refine restful_bind (restful_propagate restful_createUser) fun user => ?_
  refine restful_bind (restful_lift restful_utcNow) fun _ => ?_
  refine restful_bind (restful_then (restful_bind resting_insert
    fun _ => restful_pure) fun r => ?_) fun _ => ?_
  · cases r <;> exact restful_ret
  refine restful_bind (restful_propagate restful_updateLastLoginAt) fun _ => ?_
  refine restful_bind restful_newText fun _ => ?_
  refine restful_bind (restful_lift restful_newUuid) fun _ => ?_
  refine restful_bind restful_refreshExpiry fun _ => ?_
  refine restful_bind (restful_propagate restful_createRefreshToken) fun _ => ?_
  exact restful_bind (restful_ignore restful_recordLoginAttempt)
    fun _ => restful_pure

theorem restful_register {params : RegisterParams} :
    RestfulE i false (register svc params) := by
  unfold register
  split
  · exact restful_throw
  · exact restful_bind restful_hashPasswordAsync fun _ =>
      restful_bind (resting_transaction restful_registerTx) fun _ =>
        restful_bind restful_issueAccessToken fun _ => restful_pure

theorem restful_login {kind value password jkt ip : String}
    {ua : Option String} :
    RestfulE i block (login svc kind value password jkt ip ua) := by
  refine restful_bind restful_authenticateUser fun user => ?_
  split
  · exact restful_pure
  · exact restful_bind (restful_ignore restful_updateLastLoginAt) fun _ =>
      restful_bind (restful_ignore restful_recordLoginAttempt) fun _ =>
        restful_bind restful_issueSession fun _ => restful_pure

theorem restful_refreshRevoked {hash : String} :
    RestfulE i block (refreshRevoked svc hash) := by
  refine restful_bind (restful_propagate resting_select) fun o => ?_
  cases o with
  | none => exact restful_throw
  | some existing =>
      refine restful_bind (restful_lift restful_graceGet) fun cached => ?_
      cases cached with
      | some cached => exact restful_pure
      | none =>
          exact restful_bind (restful_propagate
            (restful_bind restful_revokeWhere fun _ => restful_pure))
            fun _ => restful_pure

theorem restful_refreshActive {hash jkt : String} {ua : Option String}
    {row : RefreshTokenRow} :
    RestfulE i block (refreshActive svc hash jkt ua row) := by
  refine restful_bind (restful_lift restful_utcNow) fun now => ?_
  split
  · exact restful_throw
  split
  · exact restful_throw
  refine restful_bind (restful_propagate resting_select) fun o => ?_
  cases o with
  | none => exact restful_throw
  | some user =>
      exact restful_bind restful_newText fun _ =>
        restful_bind (restful_propagate restful_createRefreshToken) fun _ =>
          restful_bind restful_issueAccessToken fun _ =>
            restful_bind (restful_lift restful_graceInsert) fun _ =>
              restful_pure

theorem restful_refresh {rt jkt : String} {ua : Option String} :
    RestfulE i false (refresh svc rt jkt ua) := by
  refine resting_transaction (restful_bind (restful_propagate
    (restful_bind restful_revokeWhere fun _ => restful_pure)) fun o => ?_)
  cases o with
  | none => exact restful_refreshRevoked
  | some row => exact restful_refreshActive

theorem restful_logout {rt : String} : RestfulE i block (logout svc rt) :=
  restful_propagate (restful_bind restful_revokeWhere fun _ => restful_pure)

/-- **Every call starts and ends at rest.** -/
theorem restful_call {q : Call} : Restful i false (q.body svc) := by
  cases q with
  | register params => exact restful_map restful_register
  | login kind value password jkt ip ua => exact restful_map restful_login
  | refresh rt jkt ua => exact restful_map restful_refresh
  | logout rt => exact restful_map restful_logout

/-! ## Runs of atomic calls -/

/-- No transaction is open, no statement is under way. -/
def AllRest (w : Srv) : Prop := ∀ j, Resting j false w

/-- The invariant of atomic calls. -/
structure AtomicInv (w : Srv) : Prop where
  inv : Inv True w
  rest : AllRest w

theorem AllRest.query (h : AllRest w) (j : Nat) : (w.session j).query = none :=
  (h j).1

/-- At rest, no row is locked. -/
theorem AllRest.unlocked (h : AllRest w) {t : Tbl} {c : Cell (Row t)}
    (hc : c ∈ w.db t) : c.pending = none := by
  obtain ⟨r, _ | ⟨j, v⟩⟩ := c
  · rfl
  · have hrest := h j
    simp only [Resting] at hrest
    cases hst : (w.session j).status <;> rw [hst] at hrest <;>
      simp only [Bool.false_eq_true, and_false] at hrest
    have hheld := Table.own_eq_nil.mp (hrest.2.2 t) _ hc
    simp at hheld

theorem moves_frame (h : Relation.ReflTransGen (Move quiet i) w w') :
    w.Frame i w' := by
  induction h with
  | refl => exact .refl i _
  | tail _ hm ih => exact ih.trans hm.frame

/-- An atomic call keeps the invariant. -/
theorem AtomicInv.call {q : Call} {cs : List Pick} {r : Except Stop Reply}
    (h : AtomicInv w) (hrun : (q.body svc).alone i cs w = some (r, w')) :
    AtomicInv w' ∧ Relation.ReflTransGen (Move True i) w w' := by
  -- while thread `i` runs, nobody else is executing a statement
  obtain ⟨hinv, hmoves, _⟩ := Outline.alone (L := familyLogic True)
    (K := fun w : Srv => ∀ j, j ≠ i → (w.session j).query = none)
    (fun hg hK j hj => by rw [(moves_frame hg).session j hj]; exact hK j hj)
    (fun hK _ fam _ j hj => by simp [hK j hj]) (fun _ => .refl)
    (fun h h' => h.trans h')
    (call_outline : Outline (familyLogic True) (Allowed True i) i (q.body svc)
      (Hold i false []) fun _ _ => True) h.inv
    (hold_resting (h.rest i)) (fun j _ => h.rest.query j) hrun
  refine ⟨⟨hinv, fun j => ?_⟩, hmoves⟩
  by_cases hj : j = i
  · subst hj
    exact restful_call.alone (h.rest j) hrun
  · exact Resting.frame (Ne.symm hj) (moves_frame hmoves) (h.rest j)

theorem AtomicInv.effect {e : Outside} (h : AtomicInv w)
    (he : e.effect w = some w') : AtomicInv w' := by
  have hout := elsewhere_of_effect he
  refine ⟨hout.inv h.inv, fun j => ?_⟩
  have hj := h.rest j
  simp only [Resting, hout.session, hout.held] at hj ⊢
  exact hj

theorem AtomicInv.step (h : AtomicInv w)
    (hstep : (authSystem svc).AtomicStep w w') : AtomicInv w' := by
  cases hstep with
  | call runs => exact (h.call runs).1
  | env takes => exact h.effect takes

/-- A run of atomic calls keeps the invariant. -/
theorem AtomicInv.run (h : AtomicInv w)
    (hrun : (authSystem svc).AtomicReaches w w') : AtomicInv w' := by
  induction hrun with
  | refl => exact h
  | tail _ hstep ih => exact ih.step hstep

/-- **The states atomic calls reach.** -/
theorem atomic_inv {clock : DateTime}
    (h : (authSystem svc).AtomicReaches (initial clock) w) : AtomicInv w :=
  AtomicInv.run ⟨inv_initial, fun _ => resting_initial⟩ h

/-- An extinct family stays extinct. -/
theorem extinct_run {fam : Uuid} (h : AtomicInv w)
    (hrun : (authSystem svc).AtomicReaches w w')
    (he : Extinct fam (tokens w)) : Extinct fam (tokens w') := by
  have hboth : AtomicInv w' ∧ Extinct fam (tokens w') := by
    induction hrun with
    | refl => exact ⟨h, he⟩
    | tail _ hstep ih =>
        obtain ⟨hinv, hext⟩ := ih
        refine ⟨hinv.step hstep, ?_⟩
        cases hstep with
        | call runs =>
            exact (moves_keep (P := fun w => Extinct fam (tokens w))
              (fun hi hm h => hm.change.extinct hi.fams h) hinv.inv
              (hinv.call runs).2 hext).2
        | env takes =>
            rw [(elsewhere_of_effect takes).table]
            exact hext
  exact hboth.2

end DpopAuth.Ports.AtomicCalls
