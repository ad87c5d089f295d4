import DpopAuth.Verified.UniqueIndex
import DpopAuth.Ports.AuthQueries
import DpopAuth.Ports.FamilyProtocol

/-!
# The unique keys of the authentication tables

No call reads before it writes to find out whether a key is taken; it leaves
that to the unique indexes.  They hold in every reachable state, whatever open
transactions are going to do, and so every lookup by key has one answer at
most: an identifier names one account, a hash one refresh token, an `id` one
user, in whatever order PostgreSQL returns the rows of a table.

## Main results

* `indexes_hold` — the unique indexes, in every reachable state.
* `lookups_unambiguous` — lookups by key do not depend on the order of rows.
-/

namespace DpopAuth.Ports.UniqueKeys

open DpopAuth.Verified.Resumption
open DpopAuth.Verified.RelyGuarantee
open DpopAuth.Verified.RowVersions
open DpopAuth.Verified.Transactions
open DpopAuth.Verified.StepRules
open DpopAuth.Verified.UniqueIndex
open DpopAuth.Ports.Schema
open DpopAuth.Ports.Service
open DpopAuth.Ports.Repo
open DpopAuth.Ports.Auth
open DpopAuth.Ports.AuthQueries
open DpopAuth.Ports.FamilyProtocol

variable {svc : AuthService} {i : Nat} {w w' : Srv}

/-! ## The indexes -/

/-- The unique index of each table. -/
def index (svc : AuthService) : ∀ t, Row t → Row t → Bool
  | .users => UserRow.dup
  | .identifiers => IdentifierRow.dup svc.ext.toLowercase
  | .refreshTokens => RefreshTokenRow.dup
  | .loginAttempts => LoginAttemptRow.dup
  | .recoveryCodes => RecoveryCodeRow.dup

theorem user_dup_symm (r v : UserRow) : r.dup v = v.dup r := by
  unfold UserRow.dup
  rw [Bool.beq_comm (a := r.id), Bool.beq_comm (a := r.publicId)]

theorem identifier_dup_symm (lower : String → String) (r v : IdentifierRow) :
    r.dup lower v = v.dup lower r := by
  unfold IdentifierRow.dup
  rw [Bool.beq_comm (a := r.kind), Bool.beq_comm (a := lower r.value),
    Bool.beq_comm (a := r.userId), Bool.and_comm r.deletedAt.isNone,
    Bool.and_comm r.isPrimary]

theorem token_dup_symm (r v : RefreshTokenRow) : r.dup v = v.dup r := by
  unfold RefreshTokenRow.dup
  exact Bool.beq_comm

/-! ## The calls -/

/-- The steps of the calls keep the indexes. -/
theorem queries_indexed :
    Queries svc (Within i (KeepIndexed (index svc))) where
  select := within_select respects_indexed
  insertUser row :=
    within_indexed_insert (index svc) .users user_dup_symm
  insertIdentifier row :=
    within_indexed_insert (index svc) .identifiers (identifier_dup_symm _)
  insertToken row :=
    within_indexed_insert (index svc) .refreshTokens token_dup_symm
  updateLastLoginAt id := by
    refine Prog.Every.except_bind (within_indexed_update (index svc) .users
      ?_ ?_) fun _ => trivial
    · exact fun _ _ _ _ h => h
    · exact fun _ _ _ _ h => h
  revokeWhere pt p := by
    refine within_indexed_update (index svc) .refreshTokens ?_ ?_
    · exact fun _ _ _ _ h => h
    · exact fun _ _ _ _ h => h
  recordLoginAttempt kind value ip success reason :=
    within_indexed_insert (index svc) .loginAttempts fun _ _ => rfl
  block := within_transaction respects_indexed
  look hf := fun ch w b w' hstep => by
    rw [hf hstep]
    exact (respects_indexed (i := i)).refl w
  fresh := fun ch w b w' hstep => by
    unfold newUuidStep at hstep
    split at hstep
    · split at hstep
      · cases hstep
      · simp only [Option.some.injEq, Prod.mk.injEq] at hstep
        rw [← hstep.2]
        exact indexed_same rfl
    · cases hstep
  graceInsert key value := Prog.Every.step fun ch w b w' hstep => by
    simp only [Option.some.injEq, Prod.mk.injEq] at hstep
    rw [← hstep.2]
    exact indexed_same rfl

theorem indexed_softDelete (id : Uuid) (now : DateTime) {x : Table UserRow}
    (h : Unique UserRow.dup x) : Unique UserRow.dup (softDelete id now x) := by
  refine unique_map (fun S c v hv => ?_) h
  obtain ⟨_ | u, _ | ⟨j, r⟩⟩ := c
  · exact ⟨v, hv, fun _ => ⟨rfl, rfl⟩⟩
  · exact ⟨v, hv, fun _ => ⟨rfl, rfl⟩⟩
  · by_cases hid : (u.id == id) = true
    · simp only [hid, if_true, outcome, Option.some.injEq] at hv
      refine ⟨u, rfl, fun y => ?_⟩
      subst hv
      exact ⟨rfl, rfl⟩
    · simp only [hid] at hv
      exact ⟨v, hv, fun _ => ⟨rfl, rfl⟩⟩
  · exact ⟨v, hv, fun _ => ⟨rfl, rfl⟩⟩

theorem indexed_env {e : Outside} (h : Indexed (index svc) w)
    (he : e.effect w = some w') : Indexed (index svc) w' := by
  cases e with
  | tick d =>
      simp only [Outside.effect, Option.some.injEq] at he
      rw [← he]
      exact h
  | deleteUser id =>
      simp only [Outside.effect, Option.some.injEq] at he
      rw [← he]
      exact h.setTable (show Unique (index svc .users) _ from
        indexed_softDelete id _ (h .users))
  | evict key =>
      simp only [Outside.effect, Option.some.injEq] at he
      rw [← he]
      exact h

variable {clock : DateTime} {c : AuthConfig}

/-- **The unique indexes hold in every reachable state**: whichever of the
open transactions commit, no table contains a duplicate. -/
theorem indexes_hold
    (hrun : (authSystem svc).Reaches .all (.start (initial clock)) c) :
    Indexed (index svc) c.shared := by
  refine keeping_run (J := Indexed (index svc)) (fun i q => ?_) ?_ ?_ ?_ hrun
  · exact outline_keeping (φ := True) (queries_indexed (i := i)).call
  · exact fun {i w} h t => unique_rollback (h t)
  · exact fun h he => indexed_env h he
  · exact fun t => unique_nil

/-! ## Lookups -/

/-- The identifier is the one looked for, in whatever case. -/
def Names (svc : AuthService) (kind value : String) (d : IdentifierRow) : Bool :=
  d.kind == kind && svc.ext.toLowercase d.value == svc.ext.toLowercase value &&
    d.deletedAt.isNone

/-- The row `find_user_by_identifier` picks out of those it is given. -/
def userByIdentifier (svc : AuthService) (kind value : String)
    (ids : List IdentifierRow) (us : List UserRow) : Option UserRow :=
  ids.findSome? fun d =>
    if Names svc kind value d then
      us.find? fun u => u.id == d.userId && u.deletedAt.isNone
    else none

theorem findUserByIdentifier_eq (svc : AuthService) (kind value : String) :
    findUserByIdentifier svc kind value = Repo.sql (select .plain fun _ db =>
      userByIdentifier svc kind value (db .identifiers) (db .users)) := rfl

/-- Every lookup by key has one answer, in whatever order the rows come. -/
structure Unambiguous (svc : AuthService) (db : ∀ t, List (Row t)) : Prop where
  identifier : ∀ kind value (ids : List IdentifierRow) (us : List UserRow),
    ids.Perm (db .identifiers) → us.Perm (db .users) →
      userByIdentifier svc kind value ids us =
        userByIdentifier svc kind value (db .identifiers) (db .users)
  user : ∀ id (us : List UserRow), us.Perm (db .users) →
    (us.find? fun u => u.id == id && u.deletedAt.isNone) =
      (db .users).find? fun u => u.id == id && u.deletedAt.isNone
  token : ∀ hash (rs : List RefreshTokenRow), rs.Perm (db .refreshTokens) →
    (rs.find? fun r => r.tokenHash == hash) =
      (db .refreshTokens).find? fun r => r.tokenHash == hash

/-- One account at most has an identifier. -/
theorem identifier_collides {kind value : String} {r v : IdentifierRow}
    (hr : Names svc kind value r = true) (hv : Names svc kind value v = true) :
    r.dup svc.ext.toLowercase v = true := by
  simp only [Names, Bool.and_eq_true, beq_iff_eq] at hr hv
  obtain ⟨⟨hrk, hrv⟩, hrd⟩ := hr
  obtain ⟨⟨hvk, hvv⟩, hvd⟩ := hv
  simp [IdentifierRow.dup, hrd, hvd, hrk, hvk, hrv, hvv]

theorem unambiguous_of_indexed (h : Indexed (index svc) w) (i : Nat) :
    Unambiguous svc (w.view i) := by
  have huser : ∀ id (us : List UserRow), us.Perm (w.view i .users) →
      (us.find? fun u => u.id == id && u.deletedAt.isNone) =
        (w.view i .users).find? fun u => u.id == id && u.deletedAt.isNone := by
    intro id us hus
    refine find?_eq_of_perm hus ((h .users).view i) fun r v hr hv => ?_
    simp only [Bool.and_eq_true, beq_iff_eq] at hr hv
    show UserRow.dup r v = true
    simp [UserRow.dup, hr.1, hv.1]
  refine ⟨fun kind value ids us hids hus => ?_, huser, fun hash rs hrs => ?_⟩
  · -- one row qualifies at most, and it is the same in both orders
    unfold userByIdentifier
    rw [findSome?_if, findSome?_if,
      filter_eq_of_perm hids ((h .identifiers).view i)
        fun r v hr hv => identifier_collides hr hv]
    congr 1
    funext d
    exact huser d.userId us hus
  · refine find?_eq_of_perm hrs ((h .refreshTokens).view i) fun r v hr hv => ?_
    have heq : r.tokenHash = v.tokenHash := (beq_iff_eq.mp hr).trans
      (beq_iff_eq.mp hv).symm
    exact beq_iff_eq.mpr heq

/-- **An identifier names one account**, an `id` one user and a hash one
refresh token: in every reachable state and for every session, the lookups of
the service do not depend on the order in which the rows of a table come. -/
theorem lookups_unambiguous
    (hrun : (authSystem svc).Reaches .all (.start (initial clock)) c) (i : Nat) :
    Unambiguous svc (c.shared.view i) :=
  unambiguous_of_indexed (indexes_hold hrun) i

/-- A registration and a rotation. -/
def rotatedOnce : AuthConfig :=
  ((authSystem sampleService).exec .all (.start (initial 0))
    (registers 0 ++ rotates 1 0)).get (by decide +kernel)

theorem lookups_unambiguous_rotated :
    Unambiguous sampleService (rotatedOnce.shared.view 1) :=
  lookups_unambiguous (System.exec_reaches (Check.implies_all .all)
    (Option.some_get _).symm) 1

end DpopAuth.Ports.UniqueKeys
