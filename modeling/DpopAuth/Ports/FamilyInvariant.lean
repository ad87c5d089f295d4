import Mathlib.Data.List.Pairwise
import DpopAuth.Ports.FamilyOutlines

/-!
# The invariant of a refresh-token family

What the protocol invariant says of the committed rows: in insertion order,
every row of a family but the last is revoked, and all of them continue one
session.  It is stated for every configuration that any interleaving of calls
can reach, whatever fails or is cancelled.

## Main results

* `rows_giveWay` — the committed rows of a table of the protocol.
* `family_invariant` — the reachable databases.
-/

namespace DpopAuth.Ports.FamilyInvariant

open DpopAuth.Verified.Resumption
open DpopAuth.Verified.RelyGuarantee
open DpopAuth.Verified.RowVersions
open DpopAuth.Ports.Schema
open DpopAuth.Ports.Service
open DpopAuth.Ports.Auth
open DpopAuth.Ports.FamilyProtocol
open DpopAuth.Ports.FamilyOutlines

/-! ## Committed rows -/

/-- The committed rows of a family, in insertion order. -/
def famRows (fam : Uuid) (t : Tokens) : List RefreshTokenRow :=
  t.rows.filter fun r => r.fam == fam

/-- Those that are not revoked. -/
def activeRows (fam : Uuid) (t : Tokens) : List RefreshTokenRow :=
  (famRows fam t).filter fun r => r.revokedAt.isNone

/-- Of two committed rows, the second inserted after the first. -/
def GivesWay (r v : RefreshTokenRow) : Prop :=
  r.tokenHash ≠ v.tokenHash ∧
    (r.fam = v.fam → SameSession r v ∧ r.revokedAt ≠ none)

variable {t : Tokens} {fam : Uuid} {r v : RefreshTokenRow}

theorem mem_famRows : r ∈ famRows fam t ↔ r ∈ t.rows ∧ r.fam = fam := by
  simp [famRows]

/-- **What the protocol invariant says of the committed rows.** -/
theorem rows_giveWay (h : FamInv t) : t.rows.Pairwise GivesWay := by
  refine List.pairwise_filterMap.mpr (h.order.imp ?_)
  intro c d hbefore r hr v hv
  obtain ⟨hhash, hfam⟩ := hbefore r v (by simp [Cell.row?, hr])
    (by simp [Cell.row?, hv])
  refine ⟨hhash, fun heq => ⟨(hfam heq).1, ?_⟩⟩
  rcases (hfam heq).2 with ⟨_, u, hu, hrev⟩ | ⟨i, _, hfresh⟩
  · rw [hr] at hu
    cases hu
    exact hrev
  · rw [hfresh.2] at hv
    cases hv

/-- Within a family, each row continues the earlier ones, and those are
revoked. -/
theorem famRows_pairwise (h : FamInv t) (fam : Uuid) :
    (famRows fam t).Pairwise fun r v =>
      SameSession r v ∧ r.revokedAt ≠ none := by
  refine (List.Pairwise.filter _ (rows_giveWay h)).imp_of_mem ?_
  intro r v hr hv hgives
  exact hgives.2 ((mem_famRows.mp hr).2.trans (mem_famRows.mp hv).2.symm)

theorem active_last (h : FamInv t) (hr : r ∈ famRows fam t)
    (hactive : r.revokedAt = none) : (famRows fam t).getLast? = some r := by
  have hpair := famRows_pairwise h fam
  obtain ⟨pre, post, heq⟩ := List.append_of_mem hr
  rw [heq] at hpair ⊢
  obtain ⟨_, hpost, _⟩ := List.pairwise_append.mp hpair
  cases post with
  | nil => simp
  | cons v post =>
      exact absurd hactive
        ((List.pairwise_cons.mp hpost).1 v List.mem_cons_self).2

theorem one_active (h : FamInv t) (fam : Uuid) :
    (activeRows fam t).length ≤ 1 := by
  have hpair : (activeRows fam t).Pairwise fun r v =>
      SameSession r v ∧ r.revokedAt ≠ none := (famRows_pairwise h fam).filter _
  have hnone : ∀ r ∈ activeRows fam t, r.revokedAt = none := by
    intro r hr
    simpa using (List.mem_filter.mp hr).2
  rcases hrows : activeRows fam t with _ | ⟨r, _ | ⟨v, rest⟩⟩
  · simp
  · simp
  · rw [hrows] at hpair hnone
    exact absurd (hnone r List.mem_cons_self)
      ((List.pairwise_cons.mp hpair).1 v List.mem_cons_self).2

theorem same_session (h : FamInv t) (hr : r ∈ famRows fam t)
    (hv : (famRows fam t).head? = some v) : SameSession v r := by
  obtain ⟨rest, heq⟩ := List.head?_eq_some_iff.mp hv
  have hpair := famRows_pairwise h fam
  rw [heq] at hr hpair
  rcases List.mem_cons.mp hr with rfl | hr
  · exact ⟨rfl, rfl, rfl⟩
  · exact ((List.pairwise_cons.mp hpair).1 r hr).1

/-- A hash names one committed row. -/
theorem hash_injective (h : FamInv t) (hr : r ∈ t.rows)
    (hv : v ∈ t.rows) (heq : v.tokenHash = r.tokenHash) : v = r := by
  have hpair : t.rows.Pairwise fun r v => r.tokenHash ≠ v.tokenHash :=
    (rows_giveWay h).imp fun hgives => hgives.1
  by_contra hne
  have hsymm : Std.Symm fun r v : RefreshTokenRow =>
    r.tokenHash ≠ v.tokenHash := ⟨fun _ _ h => Ne.symm h⟩
  exact hpair.forall hv hr hne heq

/-! ## Runs -/

variable {svc : AuthService} {clock : DateTime} {c d : AuthConfig}

/-- Every run is calm when nothing is asked of it. -/
theorem calm_of_all (h : (authSystem svc).Reaches .all c d) :
    (authSystem svc).Reaches (calmRuns False) c d :=
  h.mono (fun _ hquiet => hquiet.elim) (fun _ => trivial) fun _ => trivial

theorem good_of_all
    (h : (authSystem svc).Reaches .all (.start (initial clock)) c) :
    FamilyGood False c := good_of_reaches (calm_of_all h)

/-- A revoked row stays as it is. -/
theorem revoked_stays {quiet : Prop} (hc : FamilyGood quiet c)
    (hd : (authSystem svc).Reaches (calmRuns quiet) c d)
    (hr : r ∈ (tokens c.shared).rows) (hrev : r.revokedAt ≠ none) :
    r ∈ (tokens d.shared).rows := by
  have hkept := along_run
    (R := fun w w' => ∀ r ∈ (tokens w).rows, r.revokedAt ≠ none →
      r ∈ (tokens w').rows)
    (fun he r hr _ => he.table ▸ hr)
    (fun h h' r hr hrev => h' r (h r hr hrev) hrev)
    (fun hi hm r hr hrev => hm.change.kept hi.fams hr hrev) hc hd
  exact hkept r hr hrev

/-- A family in an earlier and in a later database. -/
structure FamilyKept (fam : Uuid) (t t' : Tokens) : Prop where
  one_active : (activeRows fam t').length ≤ 1
  /-- The active row is the one inserted last. -/
  active_last : ∀ r ∈ activeRows fam t', (famRows fam t').getLast? = some r
  /-- User, key and end are those of the first row. -/
  as_first : ∀ r ∈ famRows fam t', ∀ first, (famRows fam t').head? = some first →
    r.userId = first.userId ∧ r.dpopJkt = first.dpopJkt ∧
      r.expiresAt = first.expiresAt
  /-- A row once revoked stays, and stays revoked. -/
  revoked : ∀ r ∈ famRows fam t, r.revokedAt ≠ none → r ∈ famRows fam t' ∧
    ∀ v ∈ famRows fam t', v.tokenHash = r.tokenHash → v.revokedAt ≠ none

/-- **The family invariant.**  Let `c` and then `d` be configurations of any
run of any calls: the database of `d` keeps every family in order, and what is
revoked in `c` is revoked in `d`. -/
theorem family_invariant
    (hc : (authSystem svc).Reaches .all (.start (initial clock)) c)
    (hd : (authSystem svc).Reaches .all c d) (fam : Uuid) :
    FamilyKept fam (tokens c.shared) (tokens d.shared) := by
  have hgood := good_of_all hc
  have hfams := (good_of_good hgood (calm_of_all hd)).inv.fams
  refine ⟨FamilyInvariant.one_active hfams fam, fun r hr => ?_,
    fun r hr first hfirst => ?_, fun r hr hrev => ?_⟩
  · obtain ⟨hmem, hactive⟩ := List.mem_filter.mp hr
    exact FamilyInvariant.active_last hfams hmem (by simpa using hactive)
  · obtain ⟨huser, hjkt, hexp⟩ := same_session hfams hr hfirst
    exact ⟨huser, hjkt, hexp⟩
  · obtain ⟨hrow, hfam⟩ := mem_famRows.mp hr
    have hstays := revoked_stays hgood (calm_of_all hd) hrow hrev
    refine ⟨mem_famRows.mpr ⟨hstays, hfam⟩, fun v hv heq => ?_⟩
    rw [hash_injective hfams hstays (mem_famRows.mp hv).1 heq]
    exact hrev

/-- A registration, then a rotation. -/
def rotated : AuthConfig :=
  ((authSystem sampleService).exec .all (.start (initial 0))
    (registers 0 ++ rotates 1 0 ++ steps 1 1)).get (by decide +kernel)

/-- The same, then a second rotation. -/
def rotatedTwice : AuthConfig :=
  ((authSystem sampleService).exec .all rotated
    (rotates 2 1 ++ steps 2 1)).get (by decide +kernel)

theorem family_invariant_rotated :
    (famRows (sampleUuid 2) (tokens rotatedTwice.shared)).length = 3 ∧
      FamilyKept (sampleUuid 2) (tokens rotated.shared)
        (tokens rotatedTwice.shared) :=
  ⟨by decide +kernel,
    family_invariant
      (System.exec_reaches (Check.implies_all .all) (Option.some_get _).symm)
      (System.exec_reaches (Check.implies_all .all) (Option.some_get _).symm)
      (sampleUuid 2)⟩

end DpopAuth.Ports.FamilyInvariant
