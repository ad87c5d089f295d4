import DpopAuth.Ports.FamilyInvariant

/-!
# Reuse detection under concurrency

A family's revocation is one `UPDATE`, and its targets are fixed when it
starts.  A rotation that commits while it runs adds a row that was not a
target, and that row stays active: `reuse_misses_rotation` is such a run.  In
runs where no rotation of the family commits during the `UPDATE`, the family
is revoked for good: `reuse_revokes_family`.

## Main results

* `reuse_revokes_family` — runs in which no rotation cuts in.
* `reuse_misses_rotation` — a run in which one does.
-/

namespace DpopAuth.Ports.FamilyReuse

open DpopAuth.Verified.Resumption
open DpopAuth.Verified.RelyGuarantee
open DpopAuth.Verified.RowVersions
open DpopAuth.Verified.Transactions
open DpopAuth.Ports.Schema
open DpopAuth.Ports.Service
open DpopAuth.Ports.Auth
open DpopAuth.Ports.FamilyProtocol
open DpopAuth.Ports.FamilyOutlines
open DpopAuth.Ports.FamilyInvariant

variable {svc : AuthService} {clock : DateTime} {c d e : AuthConfig}
  {fam : Uuid} {i : Nat}

/-- Thread `i`'s latest commit ended the reuse branch of `refresh`. -/
def CommittedReuse (i : Nat) (fam : Uuid) (w : Srv) : Prop :=
  (w.lastCommit i).map Prod.fst = some (.reuseDetected fam)

instance (i : Nat) (fam : Uuid) (w : Srv) : Decidable (CommittedReuse i fam w) :=
  inferInstanceAs (Decidable (_ = _))

theorem extinct_rows {t : Tokens} (h : Extinct fam t) :
    ∀ r ∈ famRows fam t, r.revokedAt ≠ none := by
  intro r hr
  obtain ⟨hrow, hfam⟩ := mem_famRows.mp hr
  obtain ⟨c, hc, hcr⟩ := Table.mem_rows.mp hrow
  obtain ⟨_, v, hv, hrev⟩ := h.settled c hc r (by simp [Cell.row?, hcr]) hfam
  rw [hcr] at hv
  cases hv
  exact hrev

/-- An extinct family stays extinct, whatever else happens. -/
theorem extinct_stays (hc : FamilyGood False c)
    (hd : (authSystem svc).Reaches .all c d)
    (h : Extinct fam (tokens c.shared)) : Extinct fam (tokens d.shared) :=
  along_run (R := fun w w' => Extinct fam (tokens w) → Extinct fam (tokens w'))
    (fun he h => he.table ▸ h) (fun h h' hw => h' (h hw))
    (fun hi hm h => hm.change.extinct hi.fams h) hc (calm_of_all hd) h

/-- **Reuse detection revokes the family.**  If no rotation commits while
another session is revoking its family, then once a reuse has committed every
row of its family is revoked, then and in every later state. -/
theorem reuse_revokes_family
    (hd : (authSystem svc).Reaches (calmRuns True) (.start (initial clock)) d)
    (hcommit : CommittedReuse i fam d.shared)
    (he : (authSystem svc).Reaches .all d e) :
    ∀ r ∈ famRows fam (tokens e.shared), r.revokedAt ≠ none := by
  obtain ⟨⟨pt, db⟩, hlast, hpt⟩ := Option.map_eq_some_iff.mp hcommit
  obtain rfl : pt = .reuseDetected fam := hpt
  have hextinct := ((good_of_reaches hd).inv.reuse trivial i fam db hlast).2
  have hgood : FamilyGood False d := good_of_all <|
    hd.mono (fun _ => trivial) (fun _ => trivial) fun _ => trivial
  exact extinct_rows (extinct_stays hgood he hextinct)

/-- A rotation commits while none of the first `n` threads revokes its family. -/
def calmBelow (n : Nat) : Check Point Srv Pick Outside Call where
  run i _ pt _ w _ := match pt with
    | .rotated fam => (List.range n).all fun j => decide <|
        j = i ∨ (w.session j).query ≠ some (.revokeRefreshTokenFamily fam)
    | _ => true
  cancel _ _ := true
  env _ _ _ := true

/-- A thread number that is not in use revokes nothing, so that the first `n`
threads are all there is to look at if no other is in use. -/
theorem undisturbed_of_below {n : Nat} {q : Call} {pt : Point} {ch : Pick}
    {w' : Srv} (hc : FamilyGood False c) (hfree : ∀ j, n ≤ j → c.thread j = none)
    (h : (calmBelow n).run i q pt ch c.shared w' = true) :
    Undisturbed i pt c.shared := by
  rintro fam rfl j hji
  rcases Nat.lt_or_ge j n with hj | hj
  · have hall := List.all_eq_true.mp h j (List.mem_range.mpr hj)
    exact (of_decide_eq_true hall).resolve_left hji
  · rw [(hc.idle j (hfree j hj)).1]
    exact nofun

/-- A schedule of the first `n` threads that passes the test is a run of the
kind `reuse_revokes_family` is about. -/
theorem reaches_of_below {n : Nat} {es : List AuthEvent}
    (hes : ∀ i q, .call i q ∈ es → i < n) (hc : FamilyGood False c)
    (hfree : ∀ j, n ≤ j → c.thread j = none)
    (h : (authSystem svc).exec (calmBelow n) c es = some d) :
    (authSystem svc).Reaches (calmRuns True) c d := by
  induction es generalizing c with
  | nil =>
      cases h
      exact .refl
  | cons e es ih =>
      obtain ⟨m, hm, hd⟩ := System.exec_cons h
      have hstep : (authSystem svc).Step (calmRuns True) c m := by
        cases System.next_step (calmBelow n).implies_filter hm with
        | call free => exact .call free
        | run stands takes allowed =>
            exact .run stands takes fun _ => undisturbed_of_below hc hfree allowed
        | cancel stands _ => exact .cancel stands trivial
        | env takes _ => exact .env takes trivial
      have hgood : FamilyGood False m := good_of_good hc <|
        System.Reaches.mono (F := calmRuns True) (fun _ h => h.elim) id id
          (.single hstep)
      refine (Relation.ReflTransGen.single hstep).trans <|
        ih (fun i q hq => hes i q (List.mem_cons_of_mem _ hq)) hgood
          (fun j hj => System.next_unused hm ?_ (hfree j hj)) hd
      rintro q rfl
      exact absurd (hes j q List.mem_cons_self) (Nat.not_lt.mpr hj)

/-- Secret 0 is rotated and, when the grace window has passed, secret 1 as
well.  Past the second grace window thread 3 replays secret 0 and has locked
the one active row when thread 4 presents secret 2. -/
def replays : List AuthEvent :=
  registers 0 ++ rotates 1 0 ++ steps 1 1 ++ [.env (.tick 10000000)] ++
    rotates 2 1 ++ steps 2 1 ++ [.env (.tick 10000000)] ++
    [.call 3 (.refresh (sampleSecret 0) "thumbprint" none)] ++ steps 3 7 ++
    [.call 4 (.refresh (sampleSecret 2) "thumbprint" none)] ++ steps 4 2

def replaying : AuthConfig :=
  ((authSystem sampleService).exec (calmBelow 5) (.start (initial 0))
    replays).get (by decide +kernel)

/-- Thread 4 waits for the row, thread 3 commits. -/
def replayed : AuthConfig :=
  ((authSystem sampleService).exec (calmBelow 5) (.start (initial 0))
    (replays ++ steps 3 2)).get (by decide +kernel)

/-- Thread 4 goes on, finds its row revoked and answers with an error. -/
def rejected : AuthConfig :=
  ((authSystem sampleService).exec .all replayed (steps 4 7)).get
    (by decide +kernel)

/-- The family has three rows, one of them active until thread 3 commits. -/
theorem reuse_revokes_family_replayed :
    (famRows (sampleUuid 2) (tokens replaying.shared)).map
        (fun r => r.revokedAt.isSome) = [true, true, false] ∧
      (∀ r ∈ famRows (sampleUuid 2) (tokens rejected.shared),
        r.revokedAt ≠ none) ∧
      (famRows (sampleUuid 2) (tokens rejected.shared)).length = 3 ∧
      (rejected.answer 4).map Prod.snd = some (.error (.error .unauthorized)) :=
  ⟨by decide +kernel,
    reuse_revokes_family (i := 3)
      (reaches_of_below (fun i q h => by
          simp only [replays, registers, rotates, steps, List.mem_append,
            List.mem_cons, List.mem_replicate, drawSecret, drawUuid] at h
          grind)
        (.start inv_initial fun _ => resting_initial) (fun _ _ => rfl)
        (Option.some_get _).symm)
      (by decide +kernel)
      (System.exec_reaches (Check.implies_all .all) (Option.some_get _).symm),
    by decide +kernel, by decide +kernel⟩

/-- Thread 1 rotates secret 0, the grace window passes, thread 2 rotates
secret 1 and is about to commit.  Thread 3 replays secret 0 and waits for the
row thread 2 has locked; thread 2 commits, and thread 3 goes on. -/
def raced : AuthConfig :=
  ((authSystem sampleService).exec .all (.start (initial 0))
    (registers 0 ++ rotates 1 0 ++ steps 1 1 ++ [.env (.tick 10000000)] ++
      rotates 2 1 ++
      [.call 3 (.refresh (sampleSecret 0) "thumbprint" none)] ++ steps 3 6 ++
      steps 2 1 ++ steps 3 3)).get (by decide +kernel)

/-- **A rotation escapes the revocation.**  Thread 3 has committed its reuse
branch and the row of secret 2 is active. -/
theorem reuse_misses_rotation :
    (authSystem sampleService).Reaches .all (.start (initial 0)) raced ∧
      CommittedReuse 3 (sampleUuid 2) raced.shared ∧
      ∃ r ∈ famRows (sampleUuid 2) (tokens raced.shared),
        r.tokenHash = sampleService.hashToken (sampleSecret 2) ∧
          r.revokedAt = none := by
  refine ⟨System.exec_reaches (Check.implies_all .all)
    (Option.some_get _).symm, ?_, ?_⟩
  · decide +kernel
  · decide +kernel

end DpopAuth.Ports.FamilyReuse
