import DpopAuth.Ports.FamilyReuse
import DpopAuth.Ports.RefreshAlone

/-!
# Is a revocation final?

`logout` and reuse detection revoke a family in the database and leave the
grace cache alone.  With atomic calls, a token of a revoked family is refused
from then on exactly as long as the cache holds no live entry for it.

## Main results

* `extinct_of_revokes` — both ways to revoke leave no active row.
* `revocation_final_iff` — when a token of a revoked family is refused.
* `logout_then_grace` — a token that is still accepted after a logout.
-/

namespace DpopAuth.Ports.Revocation

open DpopAuth.Verified.Resumption
open DpopAuth.Verified.RelyGuarantee
open DpopAuth.Verified.RowVersions
open DpopAuth.Verified.Transactions
open DpopAuth.Verified.AtomicRules
open DpopAuth.Verified.TtlCache
open DpopAuth.Ports.Schema
open DpopAuth.Ports.Service
open DpopAuth.Ports.Repo
open DpopAuth.Ports.Auth
open DpopAuth.Ports.FamilyProtocol
open DpopAuth.Ports.FamilyOutlines
open DpopAuth.Ports.FamilyInvariant
open DpopAuth.Ports.FamilyReuse
open DpopAuth.Ports.AtomicCalls
open DpopAuth.Ports.RefreshAlone

variable {svc : AuthService} {i : Nat} {fam : Uuid} {rt : String}
  {s s₁ s₂ : Srv} {clock : DateTime}

/-- A call that revokes a family: a logout with its active token, or a refresh
whose transaction committed as a reuse. -/
inductive Revokes (svc : AuthService) (fam : Uuid) (s s' : Srv) : Prop
  | logout (i : Nat) (cs : List Pick) (rt : String) (r : RefreshTokenRow)
      (found : r ∈ (tokens s).rows) (hash : r.tokenHash = svc.hashToken rt)
      (family : r.fam = fam) (active : r.revokedAt = none)
      (runs : (logout svc rt).run.alone i cs s = some (.ok (), s'))
  | reuse (i : Nat) (cs : List Pick) (rt jkt : String) (ua : Option String)
      (answer : Except Stop TokenPair)
      (runs : (refresh svc rt jkt ua).run.alone i cs s = some (answer, s'))
      (took : CommittedReuse i fam s')

/-- What a successful `logout` that runs alone has done. -/
theorem logout_exact (h : Resting i false s) :
    From i s (logout svc rt).run fun _ w =>
      tokens w = (swapped i (svc.hashToken rt) s).commit i := by
  refine from_propagate (From.bind update_exact fun rows w hw =>
    From.pure ?_)
  obtain ⟨_, rfl⟩ := hw
  have hst : (s.session i).status = .idle := by
    have hs := h.2
    cases hst : (s.session i).status <;> simp_all
  simp [tokens, swapped, World.now, World.openStatement, World.setSession,
    World.setTable, World.completeStatement, hst]

/-- Logging out with the active token leaves no active row. -/
theorem extinct_of_logout {w : Srv} {r : RefreshTokenRow} (hs : AtomicInv s)
    (found : r ∈ (tokens s).rows) (hash : r.tokenHash = svc.hashToken rt)
    (active : r.revokedAt = none)
    (htab : tokens w = (swapped i (svc.hashToken rt) s).commit i) :
    Extinct r.fam (tokens w) := by
  have hfree : ∀ c ∈ tokens s, c.pending = none := fun c hc =>
    hs.rest.unlocked hc
  rw [swapped, Table.sweep_commit_unlocked hfree] at htab
  obtain ⟨c, hc, hcr⟩ := Table.mem_rows.mp found
  refine ⟨⟨⟨some (r.revoke s.clock), none⟩, ?_, r.revoke s.clock, rfl, rfl⟩,
    fun d hd v hv hfam => ?_⟩
  · rw [htab]
    exact List.mem_map.mpr ⟨c, hc, by simp [hcr, hash, active]⟩
  · rw [htab] at hd
    obtain ⟨⟨o, q⟩, hmem, rfl⟩ := List.mem_map.mp hd
    obtain rfl : q = none := hfree ⟨o, q⟩ hmem
    cases o with
    | none => cases hv
    | some u =>
        have hu : u ∈ (tokens s).rows := Table.mem_rows.mpr ⟨_, hmem, rfl⟩
        by_cases hp : u.tokenHash = svc.hashToken rt ∧ u.revokedAt = none
        · simp [hp.1, hp.2, Settled, RefreshTokenRow.revoke]
        · simp only [beq_iff_eq, Option.isNone_iff_eq_none, Bool.and_eq_true,
            hp, if_false] at hv ⊢
          cases hv
          refine ⟨rfl, v, rfl, fun hactive => hp ⟨?_, hactive⟩⟩
          -- the family has one active row, and that is the one logged out
          have hin : v ∈ famRows r.fam (tokens s) := mem_famRows.mpr ⟨hu, hfam⟩
          have hlast := active_last hs.inv.fams hin hactive
          rw [active_last hs.inv.fams (mem_famRows.mpr ⟨found, rfl⟩) active]
            at hlast
          cases hlast
          exact hash

/-- An atomic call, seen from its function. -/
theorem atomic_logout {cs : List Pick} {w : Srv}
    (h : (logout svc rt).run.alone i cs s = some (.ok (), w)) :
    (authSystem svc).AtomicStep s w :=
  .call (i := i) (q := .logout rt) (l := cs ++ []) (Prog.alone_bind_of h rfl)

theorem atomic_refresh {cs : List Pick} {jkt : String} {ua : Option String}
    {r : Except Stop TokenPair} {w : Srv}
    (h : (refresh svc rt jkt ua).run.alone i cs s = some (r, w)) :
    (authSystem svc).AtomicStep s w := by
  cases r with
  | error e =>
      exact .call (i := i) (q := .refresh rt jkt ua) (l := cs ++ [])
        (Prog.alone_bind_of h rfl)
  | ok pair =>
      exact .call (i := i) (q := .refresh rt jkt ua) (l := cs ++ [])
        (Prog.alone_bind_of h rfl)

/-- **Both ways to revoke leave no active row.** -/
theorem extinct_of_revokes (hs : AtomicInv s) (h : Revokes svc fam s s₁) :
    AtomicInv s₁ ∧ Extinct fam (tokens s₁) := by
  cases h with
  | logout i cs rt r found hash family active runs =>
      refine ⟨hs.step (atomic_logout runs), family ▸ ?_⟩
      exact extinct_of_logout hs found hash active
        ((logout_exact (hs.rest i)).alone rfl runs)
  | reuse i cs rt jkt ua answer runs took =>
      have hinv := hs.step (atomic_refresh runs)
      obtain ⟨⟨pt, db⟩, hlast, hpt⟩ := Option.map_eq_some_iff.mp took
      obtain rfl : pt = .reuseDetected fam := hpt
      exact ⟨hinv, (hinv.inv.reuse trivial i fam db hlast).2⟩

/-- **When a revocation is final.**  After a call that revokes a family, and
any further atomic calls, no refresh for a token of that family succeeds if
and only if the grace cache has no live entry for that token. -/
theorem revocation_final_iff
    (hs : (authSystem svc).AtomicReaches (initial clock) s)
    (hrevokes : Revokes svc fam s s₁)
    (hlater : (authSystem svc).AtomicReaches s₁ s₂)
    {r : RefreshTokenRow} (hr : r ∈ famRows fam (tokens s₂))
    (hash : r.tokenHash = svc.hashToken rt) :
    (∀ i cs jkt ua pair w, (refresh svc rt jkt ua).run.alone i cs s₂ ≠
      some (.ok pair, w)) ↔
        s₂.mem.graceCache.get svc.config.gracePeriod.asMicros s₂.clock
          (fam, svc.hashToken rt) = none := by
  obtain ⟨hinv₁, hext₁⟩ := extinct_of_revokes (atomic_inv hs) hrevokes
  have hinv := hinv₁.run hlater
  have hrevoked := extinct_rows (extinct_run hinv₁ hlater hext₁)
  obtain ⟨hrow, rfl⟩ := mem_famRows.mp hr
  have honly : ∀ v ∈ (tokens s₂).rows, v.tokenHash = svc.hashToken rt → v = r :=
    fun v hv hvh => hash_injective hinv.inv.fams hrow hv (hvh.trans hash.symm)
  constructor
  · intro hnever
    cases hget : s₂.mem.graceCache.get svc.config.gracePeriod.asMicros s₂.clock
        (r.fam, svc.hashToken rt) with
    | none => rfl
    | some cached =>
        exact absurd (grace_runs (hinv.rest 0) hinv.inv.fams hrow hash
          (hrevoked r hr) hget) (hnever 0 _ "" none _ _)
  · intro hnone i cs jkt ua pair w hruns
    cases (refresh_exact (hinv.rest i)).alone rfl hruns with
    | grace existing cached found hash' lost hit =>
        rw [honly existing found hash', hnone] at hit
        cases hit
    | rotated old user secret access _ found hash' active =>
        obtain rfl := honly old found hash'
        exact hrevoked old hr active

/-- A registration and a rotation, as atomic calls. -/
def rotatedAlone : Srv :=
  ((authSystem sampleService).execAtomic (initial 0)
    [.call 0 (.register sampleParams) (choices (registers 0)),
      .call 1 (.refresh (sampleSecret 0) "thumbprint" none)
        (choices (rotates 1 0 ++ steps 1 1))]).get (by decide +kernel)

/-- Then a logout with the replacement. -/
def loggedOut : Except Stop Unit × Srv :=
  ((logout sampleService (sampleSecret 1)).run.alone 2 (List.replicate 3 .ok)
    rotatedAlone).get (by decide +kernel)

/-- The grace window passes. -/
def later : Srv :=
  ((authSystem sampleService).execAtomic loggedOut.2
    [.env (.tick 5000000)]).get (by decide +kernel)

theorem rotatedAlone_reaches :
    (authSystem sampleService).AtomicReaches (initial 0) rotatedAlone :=
  System.execAtomic_reaches (Option.some_get _).symm

theorem loggedOut_revokes :
    Revokes sampleService (sampleUuid 2) rotatedAlone loggedOut.2 := by
  have hfound : ∃ r ∈ (tokens rotatedAlone).rows,
      r.tokenHash = sampleService.hashToken (sampleSecret 1) ∧
        r.fam = sampleUuid 2 ∧ r.revokedAt = none := by decide +kernel
  obtain ⟨r, hr, hash, hfam, hactive⟩ := hfound
  have hruns : (logout sampleService (sampleSecret 1)).run.alone 2
      (List.replicate 3 .ok) rotatedAlone = some loggedOut :=
    (Option.some_get _).symm
  have hok : loggedOut.1 = .ok () := by decide +kernel
  exact .logout 2 _ _ r hr hash hfam hactive (by rw [hruns, ← hok])

theorem revocation_final_iff_later :
    (∀ i cs jkt ua pair w, (refresh sampleService (sampleSecret 0) jkt
      ua).run.alone i cs later ≠ some (.ok pair, w)) ↔
        later.mem.graceCache.get sampleConfig.gracePeriod.asMicros later.clock
          (sampleUuid 2, sampleService.hashToken (sampleSecret 0)) = none := by
  have hfound : ∃ r ∈ famRows (sampleUuid 2) (tokens later),
      r.tokenHash = sampleService.hashToken (sampleSecret 0) := by
    decide +kernel
  obtain ⟨r, hr, hash⟩ := hfound
  exact revocation_final_iff rotatedAlone_reaches loggedOut_revokes
    (System.execAtomic_reaches (Option.some_get _).symm) hr hash

/-- The rotated token is presented right after the logout. -/
def revived : Except Stop TokenPair × Srv :=
  ((refresh sampleService (sampleSecret 0) "thumbprint" none).run.alone 3
    (List.replicate 6 .ok) loggedOut.2).get (by decide +kernel)

/-- **A logout is not final.**  The family has been revoked, and one of its
tokens is answered with tokens. -/
theorem logout_then_grace :
    (authSystem sampleService).AtomicReaches (initial 0) rotatedAlone ∧
      Revokes sampleService (sampleUuid 2) rotatedAlone loggedOut.2 ∧
      (∃ r ∈ famRows (sampleUuid 2) (tokens loggedOut.2),
        r.tokenHash = sampleService.hashToken (sampleSecret 0)) ∧
      ∃ pair, (refresh sampleService (sampleSecret 0) "thumbprint"
        none).run.alone 3 (List.replicate 6 .ok) loggedOut.2 =
          some (.ok pair, revived.2) := by
  refine ⟨rotatedAlone_reaches, loggedOut_revokes, by decide +kernel,
    revived.1.toOption.get (by decide +kernel), ?_⟩
  have hruns : (refresh sampleService (sampleSecret 0) "thumbprint"
      none).run.alone 3 (List.replicate 6 .ok) loggedOut.2 = some revived :=
    (Option.some_get _).symm
  have hok : revived.1 = .ok (revived.1.toOption.get (by decide +kernel)) := by
    decide +kernel
  rw [hruns, ← hok]

end DpopAuth.Ports.Revocation
