import DpopAuth.Ports.GraceSecrets

/-!
# When a refresh is sound

The rotation checks what it answers for: the key, the expiry and the owner of
the presented token's row (`RefreshAlone`).  The grace branch checks none of
them.

What it can rely on is the entry: the row of a revoked token is not locked, so
no rotation of it is still open, and the row of its replacement is committed
(`stored_of_revoked`).  The replacement continues the session, and so the
answer is sound when the three checks left out would succeed (`GraceSafe`).

## Main results

* `refresh_sound_iff` — when every answer is sound.
* `grace_ignores_key` — an answer for a key the token is not bound to.
-/

namespace DpopAuth.Ports.RefreshSound

open DpopAuth.Verified.Resumption
open DpopAuth.Verified.RelyGuarantee
open DpopAuth.Verified.RowVersions
open DpopAuth.Verified.Transactions
open DpopAuth.Verified.AtomicRules
open DpopAuth.Verified.TtlCache
open DpopAuth.Ports.Schema
open DpopAuth.Ports.Service
open DpopAuth.Ports.Repo
open DpopAuth.Ports.Auth
open DpopAuth.Ports.FamilyProtocol
open DpopAuth.Ports.FamilyOutlines
open DpopAuth.Ports.FamilyInvariant
open DpopAuth.Ports.AtomicCalls
open DpopAuth.Ports.RefreshAlone
open DpopAuth.Ports.GraceSecrets

variable {svc : AuthService} {i : Nat} {w w' : Srv} {rt jkt : String}
  {ua : Option String}

/-! ## Soundness -/

/-- The owner of a token exists and is not soft-deleted. -/
def OwnerLives (userId : Uuid) (w : Srv) : Prop :=
  ∃ u ∈ (w.db .users).rows, u.id = userId ∧ u.deletedAt = none

/-- What an answer of `refresh` must mean: the presented token's row exists,
is bound to the presented key and has not expired; its owner lives; and the
answer's refresh token is the secret of a stored row of the same family, user,
key and expiry. -/
def Sound (svc : AuthService) (rt jkt : String) (pair : TokenPair) (w : Srv) :
    Prop :=
  ∃ r ∈ (tokens w).rows, r.tokenHash = svc.hashToken rt ∧ r.dpopJkt = jkt ∧
    w.clock < r.expiresAt ∧ OwnerLives r.userId w ∧
    ∃ n ∈ (tokens w).rows, n.tokenHash = svc.hashToken pair.refreshToken ∧
      n.fam = r.fam ∧ n.userId = r.userId ∧ n.dpopJkt = r.dpopJkt ∧
        n.expiresAt = r.expiresAt

/-- The grace branch is open for a token: its row is revoked, and there is a
live entry for it. -/
def InGrace (svc : AuthService) (r : RefreshTokenRow) (w : Srv) : Prop :=
  r.revokedAt ≠ none ∧ (w.mem.graceCache.get svc.config.gracePeriod.asMicros
    w.clock (r.fam, r.tokenHash)).isSome

/-- Where the grace branch is open for the presented token, the presented key
is the session's, the session has not expired, and its owner lives. -/
def GraceSafe (svc : AuthService) (rt jkt : String) (w : Srv) : Prop :=
  ∀ r ∈ (tokens w).rows, r.tokenHash = svc.hashToken rt → InGrace svc r w →
    r.dpopJkt = jkt ∧ w.clock < r.expiresAt ∧ OwnerLives r.userId w

instance (userId : Uuid) (w : Srv) : Decidable (OwnerLives userId w) := by
  unfold OwnerLives
  infer_instance

instance (rt jkt : String) (pair : TokenPair) (w : Srv) :
    Decidable (Sound svc rt jkt pair w) := by
  unfold Sound
  infer_instance

instance (r : RefreshTokenRow) (w : Srv) : Decidable (InGrace svc r w) := by
  unfold InGrace
  infer_instance

instance (rt jkt : String) (w : Srv) : Decidable (GraceSafe svc rt jkt w) := by
  unfold GraceSafe
  infer_instance

/-! ## The replacement of a revoked token -/

/-- A hash names one cell, committed or not. -/
theorem cell_of_hash {t : Tokens} {c d : Cell RefreshTokenRow}
    {r v : RefreshTokenRow} (h : FamInv t) (hc : c ∈ t) (hd : d ∈ t)
    (hr : c.row? = some r) (hv : d.row? = some v)
    (hhash : v.tokenHash = r.tokenHash) : c = d := by
  by_contra hne
  have hsymm : Std.Symm fun c d : Cell RefreshTokenRow =>
      Before c d ∨ Before d c := ⟨fun _ _ h => h.symm⟩
  have hpairs : t.Pairwise fun c d => Before c d ∨ Before d c :=
    h.order.imp Or.inl
  rcases hpairs.forall hc hd hne with hbefore | hbefore
  · exact (hbefore r v hr hv).1 hhash.symm
  · exact (hbefore v r hv hr).1 hhash

/-- **The replacement of a revoked token is stored.**  Its rotation would hold
the row of the token until it commits. -/
theorem stored_of_revoked (hinv : FamInv (tokens w)) (hbacked : Backed svc w)
    {e : GraceEntry} (he : e ∈ w.mem.graceCache) {r : RefreshTokenRow}
    (hr : r ∈ (tokens w).rows) (hhash : r.tokenHash = e.key.2)
    (hrev : r.revokedAt ≠ none) : ∃ n ∈ (tokens w).rows, Stores svc e n := by
  obtain ⟨c, hc, n, hn, hcommitted | ⟨k, -, -, hspent⟩⟩ := hbacked e he
  · exact ⟨n, Table.mem_rows.mpr ⟨c, hc, hcommitted⟩, hn⟩
  · obtain ⟨d, hd, v, hpending, hv⟩ := hspent
    obtain ⟨b, hb, hbr⟩ := Table.mem_rows.mp hr
    have hrow : b.row? = some r := by simp [Cell.row?, hbr]
    obtain ⟨old, hold, hsame⟩ : ∃ old, d.row? = some old ∧
        old.tokenHash = v.tokenHash := by
      cases hinv.shape d hd with
      | empty => cases hpending
      | plain old => cases hpending
      | locked j now old active =>
          cases hpending
          exact ⟨old, rfl, rfl⟩
      | inserted j new active =>
          cases hpending
          exact ⟨_, rfl, rfl⟩
    obtain rfl := cell_of_hash hinv hb hd hrow hold
      (hsame.trans (hv.trans hhash.symm))
    have hlocked : LockedBy k b :=
      ⟨by simp [Cell.heldBy, hpending], by simp [hbr]⟩
    exact absurd ((hinv.shape b hb).active_of_locked hlocked hbr) hrev

/-- Rows of one family continue one session. -/
theorem session_of_fam {t : Tokens} {r n : RefreshTokenRow} (h : FamInv t)
    (hr : r ∈ t.rows) (hn : n ∈ t.rows) (hfam : n.fam = r.fam) :
    SameSession r n := by
  have hhead : ∀ v ∈ famRows r.fam t, ∃ first,
      (famRows r.fam t).head? = some first ∧ SameSession first v := by
    intro v hv
    cases hrows : famRows r.fam t with
    | nil => simp [hrows] at hv
    | cons first rest =>
        exact ⟨first, rfl, same_session h hv (by simp [hrows])⟩
  obtain ⟨first, hfirst, hsr⟩ := hhead r (mem_famRows.mpr ⟨hr, rfl⟩)
  obtain ⟨first', hfirst', hsn⟩ := hhead n (mem_famRows.mpr ⟨hn, hfam⟩)
  rw [hfirst] at hfirst'
  cases hfirst'
  exact hsr.symm.trans hsn

/-- An answer is sound where the grace branch is safe. -/
theorem sound_of_refreshed {pair : TokenPair}
    (h : Refreshed svc i rt jkt ua w pair w') (hrest : Resting i false w)
    (hinv : FamInv (tokens w)) (hbacked : Backed svc w)
    (hgrace : GraceSafe svc rt jkt w) : Sound svc rt jkt pair w' := by
  cases h with
  | grace existing cached found hash lost hit =>
      have hrev := lost existing found hash
      obtain ⟨e, he, hkey, -, rfl⟩ := Cache.get_eq_some hit
      obtain ⟨hbound, hexpires, howner⟩ := hgrace existing found hash
        ⟨hrev, by rw [hash, hit]; rfl⟩
      obtain ⟨n, hn, hnhash, hnfam⟩ := stored_of_revoked hinv hbacked he found
        (by rw [hkey, hash]) hrev
      rw [hkey] at hnfam
      have hsess := session_of_fam hinv found hn hnfam
      have htab : ∀ t, ((w.beginTx i).rollbackTx i).db t = w.db t := fun t =>
        Table.rollback_of_own_nil (hrest.own t)
      have hrows : tokens ((w.beginTx i).rollbackTx i) = tokens w := htab _
      refine ⟨existing, hrows ▸ found, hash, hbound, hexpires, ?_, n, hrows ▸ hn,
        hnhash, hnfam, hsess.1, hsess.2, hsess.3⟩
      unfold OwnerLives
      rw [htab]
      exact howner
  | rotated old user secret access _ found hash active unexpired bound owner
      owns alive table users clock =>
      have hview : (tokens w).view i = (tokens w).rows :=
        Table.view_of_own_nil (hrest.own .refreshTokens)
      have hswept : old.revoke w.clock ∈ (tokens w).swept i
          (fun r => r.tokenHash == svc.hashToken rt && r.revokedAt.isNone)
          (RefreshTokenRow.revoke w.clock) := by
        refine List.mem_map_of_mem (List.mem_filter.mpr ⟨hview ▸ found, ?_⟩)
        simp [hash, active]
      have hrows : (tokens w').rows =
          ((swapped i (svc.hashToken rt) w).commit i).rows ++
            [replacement svc old jkt ua secret] := by
        rw [table, Table.rows_insert_commit]
      refine ⟨old.revoke w.clock, ?_, hash, bound, by rwa [clock],
        ⟨user, by rwa [users], owns, alive⟩, replacement svc old jkt ua secret,
        ?_, rfl, rfl, rfl, bound.symm, rfl⟩
      · rw [hrows]
        exact List.mem_append_left _ (Table.mem_rows_sweep hswept)
      · rw [hrows]
        exact List.mem_append_right _ List.mem_cons_self

/-! ## When every answer is sound -/

variable {clock : DateTime} {c : AuthConfig}

theorem reaches_all {d : AuthConfig} (hrun : CommittingRun svc c d) :
    (authSystem svc).Reaches .all c d :=
  hrun.reaches.mono (fun _ => trivial) (fun _ => trivial) fun _ => trivial

/-- **When a refresh is sound.**  In every configuration reached by a run in
which no `COMMIT` of a rotation fails and no rotation is dropped between its
grace entry and its `COMMIT`, let a call arrive on an unused thread number and
run alone.  All its answers for a token and a key are sound if and only if,
where the grace branch is open for the token, the key is the session's, the
session has not expired, and its owner lives. -/
theorem refresh_sound_iff (hrun : CommittingRun svc (.start (initial clock)) c)
    (hi : c.thread i = none) (rt jkt : String) :
    (∀ ua cs pair w', (refresh svc rt jkt ua).run.alone i cs c.shared =
      some (.ok pair, w') → Sound svc rt jkt pair w') ↔
        GraceSafe svc rt jkt c.shared := by
  have hgood : FamilyGood False c := good_of_all (reaches_all hrun)
  have hrest := hgood.idle i hi
  have hfams := hgood.inv.fams
  constructor
  · rintro hall r hr hash ⟨hrev, hlive⟩
    obtain ⟨cached, hit⟩ := Option.isSome_iff_exists.mp hlive
    rw [hash] at hit
    have hrows : ∀ t, ((c.shared.beginTx i).rollbackTx i).db t = c.shared.db t :=
      fun t => Table.rollback_of_own_nil (hrest.own t)
    obtain ⟨v, hv, hvhash, hbound, hexpires, howner, -⟩ :=
      hall none _ _ _ (grace_runs hrest hfams hr hash hrev hit)
    unfold OwnerLives at howner
    rw [tokens, hrows] at hv
    rw [hrows] at howner
    obtain rfl := hash_injective hfams hr hv (hvhash.trans hash.symm)
    exact ⟨hbound, hexpires, howner⟩
  · intro hgrace ua cs pair w' hruns
    exact sound_of_refreshed ((refresh_exact hrest).alone rfl hruns) hrest hfams
      (backed_of_reaches hrun).2 hgrace

/-- Right after a rotation, the replaced token is answered from the cache:
soundly for its own key, and not for another. -/
theorem refresh_sound_iff_rotated :
    (∀ ua cs pair w', (refresh sampleService (sampleSecret 0) "thumbprint"
      ua).run.alone 2 cs afterRotation.shared = some (.ok pair, w') →
        Sound sampleService (sampleSecret 0) "thumbprint" pair w') ∧
    ¬ ∀ ua cs pair w', (refresh sampleService (sampleSecret 0)
      "another-thumbprint" ua).run.alone 2 cs afterRotation.shared =
        some (.ok pair, w') →
          Sound sampleService (sampleSecret 0) "another-thumbprint" pair w' := by
  have hfree : afterRotation.thread 2 = none := by decide +kernel
  have hsafe : GraceSafe sampleService (sampleSecret 0) "thumbprint"
      afterRotation.shared := by decide +kernel
  have hopen : ¬ GraceSafe sampleService (sampleSecret 0) "another-thumbprint"
      afterRotation.shared := by decide +kernel
  exact ⟨(refresh_sound_iff afterRotation_run hfree _ _).mpr hsafe,
    fun h => hopen ((refresh_sound_iff afterRotation_run hfree _ _).mp h)⟩

/-- Right after the rotation, a call presents the rotated token under another
key. -/
def stolen : Except Stop TokenPair × Srv :=
  ((refresh sampleService (sampleSecret 0) "another-thumbprint" none).run.alone
    2 (List.replicate 6 .ok) afterRotation.shared).get (by decide +kernel)

def stolenPair : TokenPair := stolen.1.toOption.get (by decide +kernel)

/-- **The grace branch ignores the key.**  The call is answered with tokens,
and the answer is not sound. -/
theorem grace_ignores_key :
    (authSystem sampleService).Reaches .all (.start (initial 0))
      afterRotation ∧
    afterRotation.thread 2 = none ∧
    (refresh sampleService (sampleSecret 0) "another-thumbprint"
      none).run.alone 2 (List.replicate 6 .ok) afterRotation.shared =
        some (.ok stolenPair, stolen.2) ∧
    ¬ Sound sampleService (sampleSecret 0) "another-thumbprint" stolenPair
      stolen.2 := by
  refine ⟨reaches_all afterRotation_run, by decide +kernel, ?_,
    by decide +kernel⟩
  have hruns : (refresh sampleService (sampleSecret 0) "another-thumbprint"
      none).run.alone 2 (List.replicate 6 .ok) afterRotation.shared =
        some stolen := (Option.some_get _).symm
  have hok : stolen.1 = .ok stolenPair := by decide +kernel
  rw [hruns, ← hok]

end DpopAuth.Ports.RefreshSound
