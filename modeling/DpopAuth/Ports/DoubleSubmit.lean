import DpopAuth.Ports.RetryProtocol

/-!
# Double submission of a refresh token

Any number of `refresh` calls with one token, one key and every interleaving of
their statements.  The compare-and-swap has one winner; the others wait for the
row lock, and by the time they get it the winner has cached its answer and
committed, so they answer from the grace cache.  No call takes the reuse
branch.

The session must last until the calls are over: if it expires in between, the
winner refuses the token (`expired_between`).

## Main results

* `swap_outline` — the compare-and-swap.
* `replace_outline`, `fallback_outline` — the winner's path, and the others'.
* `double_submit` — one rotation, one answer.
* `expired_between` — a run in which the session does not last.
-/

namespace DpopAuth.Ports.DoubleSubmit

open DpopAuth.Verified.Resumption
open DpopAuth.Verified.RelyGuarantee
open DpopAuth.Verified.RowVersions
open DpopAuth.Verified.Transactions
open DpopAuth.Verified.TransactionRules
open DpopAuth.Verified.AtomicRules
open DpopAuth.Verified.TtlCache
open DpopAuth.Ports.Schema
open DpopAuth.Ports.Service
open DpopAuth.Ports.Repo
open DpopAuth.Ports.Auth
open DpopAuth.Ports.FamilyProtocol
open DpopAuth.Ports.FamilyOutlines
open DpopAuth.Ports.FamilyInvariant
open DpopAuth.Ports.RetryProtocol

variable {S : Submit} {st : Stage} {i j : Nat} {w w' : Srv} {α β : Type}
  {l : Option (Point × Db)} {ch : Pick} {pt : Point}

/-! ## Where a call stands -/

/-- The call of thread `i` is in its block, between two statements.  It has not
written to `dpop_users`, and `l` is what its thread committed last. -/
structure Inside (i : Nat) (l : Option (Point × Db)) (w : Srv) : Prop where
  block : InBlock i w
  users : (w.db .users).own i = []
  commits : w.lastCommit i = l

/-- The call is inside, at a stage. -/
def Stands (S : Submit) (i : Nat) (l : Option (Point × Db)) (st : Stage)
    (w : Srv) : Prop := Inside i l w ∧ S.Sits st w

theorem stable_frame {P : Srv → Prop}
    (hframe : ∀ {j w w'}, j ≠ i → World.Frame j w w' → P w → P w')
    (henv : ∀ {w w'}, Elsewhere w w' → P w → P w') :
    Stable (retryLogic S) i P :=
  stable_of_family (stable_of_move (fun hne _ hm => hframe hne hm.frame) henv)

theorem stable_inside : Stable (retryLogic S) i (Inside i l) :=
  stable_frame
    (fun hne hf h =>
      { block := by
          simp only [InBlock, hf.session i (Ne.symm hne)]
          exact h.block
        users := (hf.held i (Ne.symm hne) .users).own.trans h.users
        commits := (hf.lastCommit i (Ne.symm hne)).trans h.commits })
    fun he h =>
      { block := by
          simp only [InBlock, he.session]
          exact h.block
        users := (he.held i .users).trans h.users
        commits := he.record ▸ h.commits }

theorem stable_stands (h : st.Pinned i) :
    Stable (retryLogic S) i (Stands S i l st) :=
  stable_inside.and (stable_pinned h)

/-- An assertion about one of our calls: its steps are smooth. -/
abbrev Smoothly (S : Submit) (i : Nat) (p : Prog Point Srv Pick α)
    (P : Srv → Prop) (Q : α → Srv → Prop) : Prop :=
  Outline (retryLogic S) (fun _ ch w w' => Smooth S i ch w w') i p P Q

/-- No failure. -/
abbrev Never : Srv → Prop := fun _ => False

theorem stable_never : Stable (retryLogic S) i Never := .const False

/-! ## Steps that change nothing of ours -/

/-- At most the ledger of drawn identifiers differs. -/
def Quiet (w w' : Srv) : Prop :=
  ∃ d, w' = { w with mem := { w.mem with drawn := d } }

theorem Quiet.refl (w : Srv) : Quiet w w := ⟨w.mem.drawn, rfl⟩

theorem Stands.quiet (h : Stands S i l st w) (hq : Quiet w w') :
    Stands S i l st w' := by
  obtain ⟨d, rfl⟩ := hq
  exact ⟨⟨h.1.block, h.1.users, h.1.commits⟩, h.2.same rfl rfl⟩

/-- A quiet step, and what is known of its answer. -/
theorem quiet_step {f : Action Srv Pick β} {φ : β → Prop} (hpin : st.Pinned i)
    (h : ∀ {w ch b w'}, (retryLogic S).inv w → Stands S i l st w →
      (∀ msg, ch ≠ .fail msg) → f i ch w = some (b, w') → Quiet w w' ∧ φ b) :
    Smoothly S i (Prog.step pt f) (Stands S i l st)
      fun b w => φ b ∧ Stands S i l st w := by
  refine Outline.step (fun b => (Stable.const (φ b)).and (stable_stands hpin))
    fun {w ch b w'} hi hw hf hs => ?_
  obtain ⟨hq, hφ⟩ := h hi hw hs.succeeds hf
  have hstands := hw.quiet hq
  obtain ⟨d, rfl⟩ := hq
  obtain ⟨hinv, hguar⟩ := hs.keep hi rfl rfl
  exact ⟨hinv, hguar, hφ, hstands⟩

/-- A `SELECT` in a block. -/
theorem select_step {f : Int → (∀ t, List (Row t)) → β} {φ : β → Prop}
    (hpin : st.Pinned i)
    (h : ∀ {w}, (retryLogic S).inv w → Stands S i l st w →
      φ (f (w.now i) (w.view i))) :
    Smoothly S i (select pt f) (Stands S i l st)
      (exceptPost (fun b w => φ b ∧ Stands S i l st w) Never) := by
  refine (quiet_step (φ := fun r : Except SqlxError β => ∃ b, r = .ok b ∧ φ b)
    hpin fun {w ch r w'} hi hw hch hf => ?_).post fun r w _ hw => ?_
  · rcases statement_cases hf with ⟨hab, _⟩ | ⟨_, _, ⟨msg, hmsg⟩, _⟩ | ⟨_, hrun⟩
    · exact absurd hab hw.1.block.not_aborted
    · exact absurd hmsg (hch msg)
    · simp only [Option.some.injEq, Prod.mk.injEq] at hrun
      obtain ⟨rfl, rfl⟩ := hrun
      rw [hw.1.block.complete_open, hw.1.block.now_open, view_open]
      exact ⟨.refl w, _, rfl, h hi hw⟩
  · obtain ⟨⟨b, rfl, hφ⟩, hstands⟩ := hw
    exact ⟨hφ, hstands⟩

/-- The clock reads before the token expires. -/
theorem utcNow_step (hpin : st.Pinned i) :
    Smoothly S i utcNow (Stands S i l st)
      fun now w => now < S.row.expiresAt ∧ Stands S i l st w :=
  quiet_step hpin fun {w ch b w'} hi _ _ hf => by
    simp only [Option.some.injEq, Prod.mk.injEq] at hf
    obtain ⟨rfl, rfl⟩ := hf
    exact ⟨.refl w, hi.2.1.unexpired⟩

theorem findUserById_step (hpin : st.Pinned i) :
    Smoothly S i (findUserById S.row.userId).propagate.run (Stands S i l st)
      (exceptPost (fun o w => o ≠ none ∧ Stands S i l st w) Never) := by
  refine propagate_outline (select_step hpin fun {w} hi hw => ?_)
  obtain ⟨u, hu, hid, hdel⟩ := hi.2.1.owner
  have hview : u ∈ (w.db .users).view i := by
    rw [Table.view_of_own_nil hw.1.users]
    exact hu
  have hfound : ((w.view i) .users).find?
      (fun u => u.id == S.row.userId && u.deletedAt.isNone) ≠ none := by
    rw [ne_eq, List.find?_eq_none]
    exact fun hnone => hnone u hview (by simp [hid, hdel])
  exact hfound

theorem newRefreshSecret_step (hpin : st.Pinned i) :
    Smoothly S i newRefreshSecret.run (Stands S i l st)
      (exceptPost (fun _ => Stands S i l st) Never) := by
  refine (quiet_step (φ := fun r => ∃ s, r = .ok s) hpin
    fun {w ch r w'} _ _ hch hf => ?_).post fun r w _ hw => ?_
  · split at hf
    · simp only [Option.some.injEq, Prod.mk.injEq] at hf
      obtain ⟨rfl, rfl⟩ := hf
      exact ⟨.refl w, _, rfl⟩
    · exact absurd rfl (hch _)
    · cases hf
  · obtain ⟨⟨s, rfl⟩, hstands⟩ := hw
    exact hstands

theorem issueAccessToken_step (hpin : st.Pinned i) {user : UserRow} :
    Smoothly S i (issueAccessToken S.svc user S.jkt).run (Stands S i l st)
      (exceptPost (fun _ => Stands S i l st) Never) := by
  have hclock : Smoothly S i currentTimestamp (Stands S i l st)
      fun _ => Stands S i l st :=
    (quiet_step (φ := fun _ => True) hpin fun {w ch b w'} _ _ _ hf => by
      simp only [Option.some.injEq, Prod.mk.injEq] at hf
      obtain ⟨_, rfl⟩ := hf
      exact ⟨.refl w, trivial⟩).post fun _ _ _ hw => hw.2
  have huuid : Smoothly S i newUuid (Stands S i l st)
      fun _ => Stands S i l st :=
    (quiet_step (φ := fun _ => True) hpin fun {w ch b w'} _ _ _ hf => by
      unfold newUuidStep at hf
      split at hf
      · split at hf
        · cases hf
        · simp only [Option.some.injEq, Prod.mk.injEq] at hf
          obtain ⟨_, rfl⟩ := hf
          exact ⟨⟨_, rfl⟩, trivial⟩
      · cases hf).post fun _ _ _ hw => hw.2
  refine Outline.except_bind (Outline.lift hclock) fun now => ?_
  refine Outline.except_bind (Outline.lift huuid) fun jti => ?_
  obtain ⟨token, hsign⟩ :=
    S.signs now (uuidText jti) (uuidText user.publicId) user.name
  simp only [hsign]
  exact Outline.pure fun _ _ hw => hw

/-! ## The compare-and-swap -/

/-- The condition of the `UPDATE`. -/
abbrev hashed (S : Submit) (r : RefreshTokenRow) : Bool :=
  r.tokenHash == S.svc.hashToken S.refreshToken

/-- While the `UPDATE` runs: it has written nothing, and has the token's row
still to visit unless the rotation is final; or it has taken the row. -/
def Hunting (S : Submit) (i : Nat) (l : Option (Point × Db))
    (done : List RefreshTokenRow) (ks : List Nat) (w : Srv) : Prop :=
  Revoking i true (hashed S) done w ∧ (w.db .users).own i = [] ∧
    w.lastCommit i = l ∧
    (done = [] ∧ (S.Finished w ∨ ∃ k ∈ ks, S.Spot k w) ∨
      ∃ now, done = [S.row.revoke now] ∧ S.Sits (.locked i now) w)

/-- After the `UPDATE`. -/
def Hunted (S : Submit) (i : Nat) (l : Option (Point × Db))
    (done : List RefreshTokenRow) (w : Srv) : Prop :=
  Inside i l w ∧ (done = [] ∧ S.Finished w ∨
    ∃ now, done = [S.row.revoke now] ∧ S.Sits (.locked i now) w)

theorem pinned_locked {now : DateTime} : (Stage.locked i now).Pinned i :=
  ⟨fun h => (by cases h), fun j h => by cases h; rfl⟩

theorem stable_or {P Q : Srv → Prop} (hP : Stable (retryLogic S) i P)
    (hQ : Stable (retryLogic S) i Q) :
    Stable (retryLogic S) i fun w => P w ∨ Q w where
  thread hne h h' hg := Or.imp (hP.thread hne h h' hg) (hQ.thread hne h h' hg)
  env h h' he := Or.imp (hP.env h h' he) (hQ.env h h' he)

theorem stable_hunting {done : List RefreshTokenRow} {ks : List Nat} :
    Stable (retryLogic S) i (Hunting S i l done ks) := by
  refine (stable_of_family stable_revoking).and (.and ?_ (.and ?_ (stable_or
    ((Stable.const _).and (stable_or stable_finished
      (.exists fun k => (Stable.const _).and stable_spot)))
    (.exists fun now => (Stable.const _).and (stable_pinned pinned_locked)))))
  · exact stable_frame
      (fun hne hf h => (hf.held i (Ne.symm hne) .users).own.trans h)
      fun he h => (he.held i .users).trans h
  · exact stable_frame
      (fun hne hf h => (hf.lastCommit i (Ne.symm hne)).trans h)
      fun he h => he.record ▸ h

theorem stable_hunted {done : List RefreshTokenRow} :
    Stable (retryLogic S) i (Hunted S i l done) :=
  stable_inside.and (stable_or ((Stable.const _).and stable_finished)
    (.exists fun _ => (Stable.const _).and (stable_pinned pinned_locked)))

/-- A step of a statement in a block: it goes through. -/
theorem smooth_statement {f : Nat → Srv → Option (Except SqlxError β × Srv)}
    {r : Except SqlxError β} (hst : (w.session i).status = .explicit)
    (hs : Smooth S i ch w w') (h : statement pt f i ch w = some (r, w')) :
    f i (w.openStatement i pt) = some (r, w') := by
  rcases statement_cases h with ⟨hab, _⟩ | ⟨_, _, ⟨msg, hmsg⟩, _⟩ | ⟨_, hrun⟩
  · rw [hst] at hab
    cases hab
  · exact absurd hmsg (hs.succeeds msg)
  · exact hrun

theorem open_explicit (hst : (w.session i).status = .explicit) :
    w.openStatement i pt =
      w.setSession i ⟨.explicit, (w.session i).started, some pt⟩ := by
  simp [World.openStatement, hst]

theorem locks_nil {p : RefreshTokenRow → Bool} {t : Tokens}
    (h : Locks p [] (t.own i)) : t.own i = [] := by
  have hlen := h.rows.length_eq
  simpa using hlen

/-- At the start, the token's row is a target unless the rotation is final. -/
theorem hunt_start {r : Except SqlxError (List Nat)}
    (hi : (retryLogic S).inv w) (hin : Inside i l w)
    (hown : (tokens w).own i = []) (hs : Smooth S i ch w w')
    (hstep : updateStart .plain Tbl.refreshTokens
      (fun _ (r : RefreshTokenRow) => hashed S r && r.revokedAt.isNone) i ch w =
        some (r, w')) :
    (retryLogic S).inv w' ∧ (retryLogic S).guar i w w' ∧
      exceptPost (Hunting S i l []) Never r w' := by
  have hrun := smooth_statement hin.block.1 hs hstep
  rw [open_explicit hin.block.1] at hrun
  simp only [Option.some.injEq, Prod.mk.injEq] at hrun
  obtain ⟨rfl, rfl⟩ := hrun
  obtain ⟨hinv, hguar⟩ := hs.keep hi rfl rfl
  refine ⟨hinv, hguar, ⟨.inl ⟨by simp [World.setSession], rfl⟩, ?_⟩, hin.users,
    hin.commits, .inl ⟨rfl, ?_⟩⟩
  · show Locks (hashed S) [] ((tokens w).own i)
    rw [hown]
    exact .nil _
  obtain ⟨st, hst, _⟩ := hi.2.2
  have hfree : (st.first S.row).heldBy i = false :=
    Table.own_eq_nil.mp hown _ hst.mem_first
  obtain ⟨k, hk⟩ := List.mem_iff_getElem?.mp hst.mem_first
  by_cases hfinal : ∃ now n p, st = .final now n p
  · obtain ⟨now, n, p, rfl⟩ := hfinal
    exact .inl ⟨now, n, p, hst.same rfl rfl⟩
  · have hfirst : (st.first S.row).committed = some S.row := by
      cases st with
      | final now n p => exact absurd ⟨now, n, p, rfl⟩ hfinal
      | _ => rfl
    refine .inr ⟨k, Table.mem_targets.mpr ⟨_, S.row, hk, ?_, ?_⟩, _, S.row, hk,
      hfirst, rfl⟩
    · rw [Cell.seenBy_of_not_heldBy hfree, hfirst]
    · simp [hashed, S.hash, S.active]

/-- A visit takes the row, or finds the rotation final, or is about another
row. -/
theorem hunt_visit {done : List RefreshTokenRow} {k : Nat} {ks : List Nat}
    {r : Except SqlxError (Option RefreshTokenRow)}
    (hi : (retryLogic S).inv w) (hJ : Hunting S i l done (k :: ks) w)
    (hs : Smooth S i ch w w')
    (hstep : updateVisit .plain Tbl.refreshTokens
      (fun _ (r : RefreshTokenRow) => hashed S r && r.revokedAt.isNone)
      RefreshTokenRow.revoke k i ch w = some (r, w')) :
    (retryLogic S).inv w' ∧ (retryLogic S).guar i w w' ∧
      exceptPost (fun o => Hunting S i l (done ++ o.toList) ks) Never r w' := by
  obtain ⟨hrev, husers, hlast, hcase⟩ := hJ
  have hst : (w.session i).status = .explicit := by
    rcases hrev.1 with h | h
    · exact h.1
    · cases h.2
  have hrev' : RevokeStep False i true w w' (fun o w =>
      Revoking i true (hashed S) (done ++ o.toList) w ∧
        Sweeping False i .plain ks w) r :=
    revoke_visit (fun _ _ => rfl) (fun _ h => (by cases h)) hi.1 hrev
      (fun h => h.elim) hstep
  have hrun := smooth_statement hst hs hstep
  rw [open_explicit hst] at hrun
  split at hrun
  · cases hrun
  rename_i o x hvisit
  simp only [Option.some.injEq, Prod.mk.injEq] at hrun
  obtain ⟨rfl, hw'⟩ := hrun
  have htab : tokens w' = x := by rw [← hw', tokens_setTable]
  have hcached : S.cached w' = S.cached w := by rw [← hw']; rfl
  have husers' : (w'.db .users).own i = [] := by rw [← hw']; exact husers
  have hlast' : w'.lastCommit i = l := by rw [← hw']; exact hlast
  rcases lock_of_visit hi.1.fams hrev.2 hvisit with
    ⟨rfl, hx, hskip⟩ | ⟨pre, post, v, hhere, _, hactive, hpv, rfl, hx⟩
  · -- nothing is written: the row at `k` is not the token's, or is revoked
    have hsame : tokens w' = tokens w := htab.trans hx
    obtain ⟨hinv, hguar⟩ := hs.keep hi hsame hcached
    have hdone : done ++ (none : Option RefreshTokenRow).toList = done :=
      List.append_nil done
    refine ⟨hinv, hguar, hrev'.2.2.1, husers', hlast', ?_⟩
    rw [hdone]
    rcases hcase with ⟨rfl, hcase⟩ | ⟨now, rfl, hlocked⟩
    · refine .inl ⟨rfl, ?_⟩
      rcases hcase with ⟨now, n, p, hfinal⟩ | ⟨m, hm, c, v, hc, hv, hhash⟩
      · exact .inl ⟨now, n, p, hfinal.same hsame hcached⟩
      rcases List.mem_cons.mp hm with rfl | hm
      · obtain ⟨st, hsits, _⟩ := hi.2.2
        have hown := locks_nil hrev.2
        have heq : c = st.first S.row :=
          hsits.eq_first hi.1.fams (List.mem_of_getElem? hc)
            (by simp [Cell.row?, hv]) hhash
        have hfree : c.heldBy i = false :=
          Table.own_eq_nil.mp hown c (List.mem_of_getElem? hc)
        have hfinal : v.revokedAt ≠ none := fun hactive => by
          have hheld := hskip c v hc hv (by simp [hashed, hhash, S.hash]) hactive
          rw [hfree] at hheld
          cases hheld
        have hrow : v ≠ S.row := fun h => hfinal (h ▸ S.active)
        refine .inl ?_
        cases st with
        | final now n p => exact ⟨now, n, p, hsits.same hsame hcached⟩
        | _ =>
            rw [heq] at hv
            cases hv
            exact absurd rfl hrow
      · exact .inr ⟨m, hm, c, v, hsame ▸ hc, hv, hhash⟩
    · exact .inr ⟨now, rfl, hlocked.same hsame hcached⟩
  · -- the row is taken: it was free
    have hmem : (⟨some v, none⟩ : Cell RefreshTokenRow) ∈ tokens w := by
      have hin : (⟨some v, none⟩ : Cell RefreshTokenRow) ∈
          pre ++ ⟨some v, none⟩ :: post := by simp
      exact hhere ▸ hin
    have hhash : v.tokenHash = S.row.tokenHash := by
      rw [S.hash]
      simpa [hashed] using hpv
    obtain ⟨st, hsits, _⟩ := hi.2.2
    have heq := hsits.eq_first hi.1.fams hmem rfl hhash
    obtain ⟨rfl, rfl⟩ : st = .free ∧ v = S.row := by
      cases st with
      | free => exact ⟨rfl, by simpa [Stage.first] using heq⟩
      | final now n p =>
          rw [show v = S.row.revoke now by simpa [Stage.first] using heq] at hactive
          cases hactive
      | _ => simp [Stage.first] at heq
    have hlock := hsits.lock hi.1.fams hhere (htab.trans hx)
    have hdone : done = [] := by
      rcases hcase with ⟨rfl, _⟩ | ⟨now, _, hlocked⟩
      · rfl
      · cases hlocked.free_of hsits
    subst hdone
    obtain ⟨hinv, hguar⟩ := hs.step hlock
      (fun j hj => by cases hj; exact hs.ours)
      fun st₁ hne _ hst₁ => absurd (hst₁.free_of hsits) hne
    exact ⟨hinv, hguar, hrev'.2.2.1, husers', hlast', .inr ⟨_, rfl, hlock⟩⟩

theorem hunt_finish {done : List RefreshTokenRow} {r : Except SqlxError Unit}
    (hi : (retryLogic S).inv w) (hJ : Hunting S i l done [] w)
    (hs : Smooth S i ch w w')
    (hstep : updateEnd .plain i ch w = some (r, w')) :
    (retryLogic S).inv w' ∧ (retryLogic S).guar i w w' ∧
      exceptPost (fun _ => Hunted S i l done) Never r w' := by
  obtain ⟨hrev, husers, hlast, hcase⟩ := hJ
  have hst : (w.session i).status = .explicit := by
    rcases hrev.1 with h | h
    · exact h.1
    · cases h.2
  have hrun := smooth_statement hst hs hstep
  rw [open_explicit hst] at hrun
  simp only [Option.some.injEq, Prod.mk.injEq] at hrun
  obtain ⟨rfl, hw'⟩ := hrun
  have hend : w' = w.setSession i ⟨.explicit, (w.session i).started, none⟩ := by
    rw [← hw']
    simp [World.completeStatement, World.setSession]
  subst hend
  obtain ⟨hinv, hguar⟩ := hs.keep hi rfl rfl
  refine ⟨hinv, hguar, ⟨by simp [InBlock, World.setSession], husers, hlast⟩, ?_⟩
  rcases hcase with ⟨hdone, ⟨now, n, p, hfinal⟩ | ⟨k, hk, _⟩⟩ | ⟨now, hdone, hlocked⟩
  · exact .inl ⟨hdone, now, n, p, hfinal.same rfl rfl⟩
  · cases hk
  · exact .inr ⟨now, hdone, hlocked.same rfl rfl⟩

/-- **The compare-and-swap**: the caller has taken the row, or the rotation is
final. -/
theorem swap_outline :
    Smoothly S i (revokeRefreshTokenIfActive
        (S.svc.hashToken S.refreshToken)).propagate.run
      (fun w => Inside i l w ∧ (tokens w).own i = [])
      (exceptPost (fun o w => match o with
        | none => Inside i l w ∧ S.Finished w
        | some row => ∃ now, row = S.row.revoke now ∧
            Stands S i l (.locked i now) w) Never) := by
  have hupdate : Smoothly S i (revokeWhere .plain (hashed S)).run
      (fun w => Inside i l w ∧ (tokens w).own i = [])
      (exceptPost (Hunted S i l) Never) :=
    Outline.update (Hunting S i l) (fun _ _ => stable_hunting)
      (fun _ => stable_hunted) stable_never
      (fun hi hP hstep hs => hunt_start hi hP.1 hP.2 hs hstep)
      (fun hi hJ hstep hs => hunt_visit hi hJ hs hstep)
      fun hi hJ hstep hs => hunt_finish hi hJ hs hstep
  refine propagate_outline (Outline.except_bind hupdate
    fun rows => Outline.pure fun w _ hw => ?_)
  obtain ⟨hin, ⟨rfl, hfinal⟩ | ⟨now, rfl, hlocked⟩⟩ := hw
  · exact ⟨hin, hfinal⟩
  · exact ⟨now, rfl, hin, hlocked⟩

/-! ## The two paths -/

/-- The pair a cached rotation is answered with. -/
def pairOf (p : ReplacementTokens) : TokenPair :=
  { accessToken := p.accessToken
    refreshToken := p.refreshToken
    tokenType := tokenType
    expiresIn := p.expiresIn }

/-- How the block ends: with the cached pair of a final rotation, or about to
commit one. -/
def Ends (S : Submit) (i : Nat) (l : Option (Point × Db)) :
    TxExit Point Stop TokenPair → Srv → Prop
  | .leave r, w => w.lastCommit i = l ∧
      ∃ now n p, S.Sits (.final now n p) w ∧ r = .ok (pairOf p)
  | .commit pt r, w => pt = .rotated S.row.fam ∧
      ∃ now n p, Stands S i l (.ready i now n p) w ∧ r = .ok (pairOf p)

/-- The version of a row a session sees is about the same token. -/
theorem row?_of_seenBy {c : Cell RefreshTokenRow} {v : RefreshTokenRow}
    (hc : Shape c) (hv : c.seenBy i = some v) :
    ∃ r, c.row? = some r ∧ SameToken r v := by
  cases hc with
  | empty => cases hv
  | plain r =>
      cases hv
      exact ⟨v, rfl, .refl v⟩
  | locked k now r hactive =>
      refine ⟨r, rfl, ?_⟩
      by_cases hk : k = i <;> simp [Cell.seenBy, hk] at hv <;> subst hv
      · exact .revoke now r
      · exact .refl r
  | inserted k r hactive =>
      refine ⟨r, rfl, ?_⟩
      by_cases hk : k = i <;> simp [Cell.seenBy, hk] at hv
      subst hv
      exact .refl r

/-- Once the rotation is final, the token's hash finds its revoked row. -/
theorem find_final {now : DateTime} {n : RefreshTokenRow}
    {p : ReplacementTokens} (hf : FamInv (tokens w))
    (h : S.Sits (.final now n p) w) :
    ((w.view i) .refreshTokens).find?
      (fun r => r.tokenHash == S.svc.hashToken S.refreshToken) =
        some (S.row.revoke now) := by
  have hmem : S.row.revoke now ∈ (tokens w).view i :=
    List.mem_filterMap.mpr ⟨_, h.mem_first, rfl⟩
  cases hfind : ((w.view i) .refreshTokens).find?
      (fun r => r.tokenHash == S.svc.hashToken S.refreshToken) with
  | none =>
      rw [List.find?_eq_none] at hfind
      refine absurd (hfind _ hmem) ?_
      simp [RefreshTokenRow.revoke, S.hash]
  | some v =>
      have hhash : v.tokenHash = S.row.tokenHash := by
        rw [S.hash]
        simpa using List.find?_some hfind
      obtain ⟨c, hc, hseen⟩ :=
        List.mem_filterMap.mp (List.mem_of_find?_eq_some hfind)
      obtain ⟨x, hx, hsame⟩ := row?_of_seenBy (hf.shape c hc) hseen
      have heq := h.eq_first hf hc hx (hsame.tokenHash.symm.trans hhash)
      rw [heq] at hseen
      exact hseen.symm

/-- **The path of the others**: they answer from the grace cache. -/
theorem fallback_outline :
    Smoothly S i (refreshRevoked S.svc (S.svc.hashToken S.refreshToken)).run
      (fun w => Inside i l w ∧ S.Finished w)
      (exceptPost (Ends S i l) Never) := by
  have hstart : Smoothly S i (refreshRevoked S.svc
      (S.svc.hashToken S.refreshToken)).run
      (fun w => ∃ now n p, Stands S i l (.final now n p) w)
      (exceptPost (Ends S i l) Never) := by
    refine Outline.of_exists fun now => Outline.of_exists fun n =>
      Outline.of_exists fun p => ?_
    have hselect : Smoothly S i (findRefreshTokenByHash
        (S.svc.hashToken S.refreshToken)).propagate.run
        (Stands S i l (.final now n p))
        (exceptPost (fun o w => o = some (S.row.revoke now) ∧
          Stands S i l (.final now n p) w) Never) :=
      propagate_outline (select_step pinned_final fun hi hw =>
        find_final hi.1.fams hw.2)
    have hget : Smoothly S i (graceGet S.svc
        (S.row.fam, S.svc.hashToken S.refreshToken))
        (Stands S i l (.final now n p))
        fun o w => o = some p ∧ Stands S i l (.final now n p) w :=
      quiet_step pinned_final fun {w ch b w'} _ hw _ hf => by
        simp only [Option.some.injEq, Prod.mk.injEq] at hf
        obtain ⟨rfl, rfl⟩ := hf
        exact ⟨.refl w, (hw.2.rotation n p rfl).2⟩
    refine Outline.except_bind hselect fun o => Outline.of_prop fun ho => ?_
    subst ho
    refine Outline.except_bind (Outline.lift hget) fun o =>
      Outline.of_prop fun ho => ?_
    subst ho
    exact Outline.pure fun w _ hw => ⟨hw.1.commits, now, n, p, hw.2, rfl⟩
  refine hstart.weaken ?_
  rintro w - ⟨hin, now, n, p, hfinal⟩
  exact ⟨now, n, p, hin, hfinal⟩

theorem pinned_replaced {now : DateTime} {n : RefreshTokenRow} :
    (Stage.replaced i now n).Pinned i :=
  ⟨fun h => (by cases h), fun j h => by cases h; rfl⟩

theorem pinned_ready {now : DateTime} {n : RefreshTokenRow}
    {p : ReplacementTokens} : (Stage.ready i now n p).Pinned i :=
  ⟨fun h => (by cases h), fun j h => by cases h; rfl⟩

/-- The winner inserts the successor. -/
theorem insert_outline {params : CreateRefreshTokenParams} {now : DateTime}
    (hfam : params.fam = S.row.fam) :
    Smoothly S i (createRefreshToken params).propagate.run
      (Stands S i l (.locked i now))
      (exceptPost (fun _ => Stands S i l (.replaced i now params.row)) Never) := by
  refine propagate_outline (Outline.except_bind
    (R := fun _ => Stands S i l (.replaced i now params.row))
    (Outline.step (Stable.exceptPost (fun _ => stable_stands pinned_replaced)
      stable_never) fun {w ch r w'} hi hw hf hs => ?_)
    fun _ => Outline.pure fun _ _ hw => hw)
  have hblock := hw.1.block
  have hrun := smooth_statement hblock.1 hs hf
  rw [db_open] at hrun
  split at hrun
  · cases hrun
  · simp only [Option.some.injEq, Prod.mk.injEq] at hrun
    have halive := hs.alive
    rw [← hrun.2, open_explicit hblock.1] at halive
    simp [World.failStatement, World.setSession] at halive
  · rename_i x hx
    simp only [Option.some.injEq, Prod.mk.injEq] at hrun
    obtain ⟨rfl, hw'⟩ := hrun
    rw [hblock.complete_write] at hw'
    subst hw'
    obtain ⟨rfl, _⟩ := insertRows_one hx
    have hsits : S.Sits (.replaced i now params.row)
        (w.setTable .refreshTokens ((tokens w).insert i params.row)) :=
      hw.2.insert hfam tokens_setTable
    obtain ⟨hinv, hguar⟩ := hs.win hw.2 rfl hsits fun j hj => by cases hj; rfl
    exact ⟨hinv, hguar, ⟨hblock.setTable, hw.1.users, hw.1.commits⟩, hsits⟩

/-- The winner caches its answer. -/
theorem cache_outline {p : ReplacementTokens} {now : DateTime}
    {n : RefreshTokenRow} (hn : S.Succeeds n p) :
    Smoothly S i (graceInsert (S.row.fam, S.svc.hashToken S.refreshToken) p)
      (Stands S i l (.replaced i now n))
      fun _ => Stands S i l (.ready i now n p) := by
  refine Outline.step (fun _ => stable_stands pinned_ready)
    fun {w ch r w'} hi hw hf hs => ?_
  simp only [Option.some.injEq, Prod.mk.injEq] at hf
  obtain ⟨_, rfl⟩ := hf
  have hsits : S.Sits (.ready i now n p) { w with mem := { w.mem with
      graceCache := w.mem.graceCache.insert w.clock
        (S.row.fam, S.svc.hashToken S.refreshToken) p } } :=
    hw.2.cache hn rfl (Cache.get_insert_self (Int.natCast_pos.mpr S.window) _ _ _)
  obtain ⟨hinv, hguar⟩ := hs.win hw.2 rfl hsits fun j hj => by cases hj; rfl
  exact ⟨hinv, hguar, ⟨hw.1.block, hw.1.users, hw.1.commits⟩, hsits⟩

/-- **The winner's path**: the checks pass, and it is ready to commit. -/
theorem replace_outline {now : DateTime} {ua : Option String} :
    Smoothly S i (refreshActive S.svc (S.svc.hashToken S.refreshToken) S.jkt ua
        (S.row.revoke now)).run
      (Stands S i l (.locked i now)) (exceptPost (Ends S i l) Never) := by
  refine Outline.except_bind (Outline.lift (utcNow_step pinned_locked))
    fun at' => Outline.of_prop fun hbefore => ?_
  have hexpires : ¬ (S.row.revoke now).expiresAt ≤ at' :=
    Int.not_le.mpr hbefore
  have hkey : ¬ (S.row.revoke now).dpopJkt ≠ S.jkt := not_ne_iff.mpr S.bound
  rw [if_neg hexpires, if_neg hkey]
  refine Outline.except_bind (findUserById_step pinned_locked)
    fun o => Outline.of_prop fun ho => ?_
  cases o with
  | none => exact absurd rfl ho
  | some user =>
      refine Outline.except_bind (newRefreshSecret_step pinned_locked)
        fun secret => ?_
      refine Outline.except_bind (insert_outline rfl) fun _ => ?_
      refine Outline.except_bind (issueAccessToken_step pinned_replaced)
        fun access => ?_
      refine Outline.except_bind (Outline.lift (cache_outline ⟨rfl, rfl, rfl⟩))
        fun _ => ?_
      exact Outline.pure fun w _ hw => ⟨rfl, now, _, _, hw, rfl⟩

/-! ## The call -/

/-- What a finished call has answered, and what it committed last. -/
def Answered (S : Submit) (i : Nat) (l : Option (Point × Db))
    (r : Except Stop TokenPair) (w : Srv) : Prop :=
  (w.lastCommit i = l ∨ ∃ d, w.lastCommit i = some (.rotated S.row.fam, d)) ∧
    ∃ now n p, S.Sits (.final now n p) w ∧ r = .ok (pairOf p)

theorem stable_answered {r : Except Stop TokenPair} :
    Stable (retryLogic S) i (Answered S i l r) := by
  refine .and (stable_frame (fun hne hf h => ?_) fun he h => ?_)
    (.exists fun _ => .exists fun _ => .exists fun _ =>
      (stable_pinned pinned_final).and (.const _))
  · rw [hf.lastCommit _ (Ne.symm hne)]
    exact h
  · rw [he.record]
    exact h

/-- A thread number before its call. -/
def Ready (i : Nat) (l : Option (Point × Db)) (w : Srv) : Prop :=
  Resting i false w ∧ w.lastCommit i = l

/-- **The outline of a retry.** -/
theorem refresh_outline {ua : Option String} :
    Smoothly S i (refresh S.svc S.refreshToken S.jkt ua).run (Ready i l)
      (Answered S i l) := by
  refine Outline.transaction (fun w => Inside i l w ∧ (tokens w).own i = [])
    (Ends S i l) Never (stable_inside.and ?_) (fun _ => stable_answered) ?_
    (Outline.except_bind swap_outline fun o => ?_) ?_ ?_
  · exact stable_frame
      (fun hne hf h => (hf.held _ (Ne.symm hne) .refreshTokens).own.trans h)
      fun he h => he.table ▸ h
  · intro w w' ch r hi hw hstep hs
    rcases beginStep_cases hstep with ⟨_, ⟨msg, hmsg⟩, _⟩ | ⟨rfl, rfl⟩
    · exact absurd hmsg (hs.succeeds msg)
    · obtain ⟨hinv, hguar⟩ := hs.keep hi rfl rfl
      exact ⟨hinv, hguar, ⟨inBlock_beginTx, hw.1.own .users, hw.2⟩,
        hw.1.own .refreshTokens⟩
  · cases o with
    | none => exact fallback_outline
    | some row =>
        refine Outline.of_exists fun now => Outline.of_prop fun hrow => ?_
        subst hrow
        exact replace_outline
  · intro w r ch hi hr hs
    rcases hr with ⟨_, _, hnever⟩ | ⟨hlast, now, n, p, hsits, rfl⟩
    · exact hnever.elim
    · have hroll : ∀ st, st.holder ≠ some i → S.Sits st w →
          S.Sits st (w.rollbackTx i) :=
        fun st hne hst => hst.rollback hne rfl rfl
      have hfinal := hroll _ (fun h => (by cases h)) hsits
      obtain ⟨hinv, hguar⟩ := hs.step hfinal (fun j hj => (by cases hj))
        fun st _ hne hst => hroll st hne hst
      exact ⟨hinv, hguar, .inl hlast, now, n, p, hfinal, rfl⟩
  · intro w ch pt r r' w' hi hS hstep hs
    obtain ⟨rfl, now, n, p, hw, rfl⟩ := hS
    rcases commitStep_cases hstep with ⟨hst, _⟩ | ⟨_, _, ⟨msg, hmsg⟩, _⟩ |
      ⟨_, rfl, rfl⟩
    · exact absurd hst hw.1.block.not_aborted
    · exact absurd hmsg (hs.succeeds msg)
    · have hfinal : S.Sits (.final now n p) (w.commitTx i (.rotated S.row.fam)) :=
        hw.2.commit hi.1.fams rfl rfl
      obtain ⟨hinv, hguar⟩ := hs.win hw.2 rfl hfinal fun j hj => (by cases hj)
      exact ⟨hinv, hguar, .inr ⟨fun t => (w.db t).commit i,
        by simp [World.commitTx]⟩, now, n, p, hfinal, rfl⟩

/-! ## Runs -/

variable {svc : AuthService} {clock : DateTime} {c₀ c d : AuthConfig}

/-- What holds when the call of thread `i` has returned. -/
def Returned (S : Submit) (l : Nat → Option (Point × Db)) (q : Call) (i : Nat)
    (r : Except Stop Reply) (w : Srv) : Prop :=
  S.ours i → ∀ ua, q = .refresh S.refreshToken S.jkt ua →
    ∃ a, Answered S i (l i) a w ∧ r = Reply.tokens <$> a

/-- An unused thread number. -/
def Unused (S : Submit) (l : Nat → Option (Point × Db)) (i : Nat) (w : Srv) :
    Prop := Resting i false w ∧ (S.ours i → w.lastCommit i = l i)

/-- The configurations a run of retries stays in. -/
abbrev RetryGood (S : Submit) (l : Nat → Option (Point × Db))
    (c : AuthConfig) : Prop :=
  Good (retryLogic S) (within S.runs (familyLogic False)) (Unused S l)
    (Returned S l) c

theorem smooth_of_runs {q : Call} (hours : S.ours i)
    (h : (within S.runs (familyLogic False)).run i q pt ch w w') :
    Smooth S i ch w w' := by
  obtain ⟨⟨hlasts, hmine, _⟩, hinv, hmoves⟩ := h
  obtain ⟨_, hch, halive⟩ := hmine hours
  exact ⟨hours, hch, halive, hlasts, hinv, hmoves⟩

/-- What the steps of other calls amount to. -/
theorem foreign_step {q : Call} (hours : ¬ S.ours i)
    (hi : (retryLogic S).inv w)
    (h : (within S.runs (familyLogic False)).run i q pt ch w w') :
    (retryLogic S).inv w' ∧ (retryLogic S).guar i w w' := by
  obtain ⟨⟨hlasts, _, hforeign⟩, hinv, hmoves⟩ := h
  obtain ⟨hcells, hcached⟩ := hforeign hours
  have hsame : ∀ st, S.Sits st w → S.Sits st w' := fun st hst =>
    { cells := hcells.trans hst.cells
      rotation := by
        rw [hcached]
        exact hst.rotation }
  obtain ⟨st, hst, hholder⟩ := hi.2.2
  exact ⟨⟨hinv, hlasts, st, hsame st hst, hholder⟩, hmoves,
    fun st _ _ hst => hsame st hst⟩

theorem retry_body {l : Nat → Option (Point × Db)} {q : Call} :
    Outline (retryLogic S) ((within S.runs (familyLogic False)).run i q) i
      ((authSystem S.svc).body q) (Unused S l i) (Returned S l q i) := by
  by_cases hours : S.ours i
  · by_cases hq : ∃ ua, q = .refresh S.refreshToken S.jkt ua
    · obtain ⟨ua, rfl⟩ := hq
      have hcall : Smoothly S i (refresh S.svc S.refreshToken S.jkt ua).run
          (Unused S l i) (Answered S i (l i)) :=
        refresh_outline.weaken fun w _ hw => ⟨hw.1, hw.2 hours⟩
      refine Outline.restrict (smooth_of_runs hours) ?_
      refine Outline.bind (R := Answered S i (l i)) (fun r => ?_) hcall
      cases r with
      | error e => exact .ret fun w _ hw _ _ _ => ⟨_, hw, rfl⟩
      | ok a => exact .ret fun w _ hw _ _ _ => ⟨_, hw, rfl⟩
    · refine (Outline.of_filter fun hi hF => ?_).post
        fun r w _ _ _ ua hua => absurd ⟨ua, hua⟩ hq
      exact absurd (hF.1.2.1 hours).1 hq
  · exact (Outline.of_filter fun hi hF => foreign_step hours hi hF).post
      fun r w _ _ hmine => absurd hmine hours

theorem stable_unused {l : Nat → Option (Point × Db)} :
    Stable (retryLogic S) i (Unused S l i) :=
  (stable_of_family stable_resting).and <| stable_frame
    (fun hne hf h hours => (hf.lastCommit i (Ne.symm hne)).trans (h hours))
    fun he h hours => he.record ▸ h hours

theorem retry_cancel {l : Nat → Option (Point × Db)} {q : Call}
    (hi : (retryLogic S).inv w)
    (hF : (within S.runs (familyLogic False)).cancel i q) :
    (retryLogic S).inv ((authSystem S.svc).cancel i w) ∧
      (retryLogic S).guar i w ((authSystem S.svc).cancel i w) ∧
        Unused S l i ((authSystem S.svc).cancel i w) := by
  have hours : ¬ S.ours i := hF
  obtain ⟨hinv, hlasts, st, hst, hholder⟩ := hi
  have hroll : ∀ st, st.holder ≠ some i → S.Sits st w →
      S.Sits st (w.rollbackTx i) :=
    fun st hne hst => hst.rollback hne rfl rfl
  refine ⟨⟨move_rollbackTx.inv hinv, ⟨hlasts.unexpired, ?_⟩, st, ?_, hholder⟩,
    ⟨.single move_rollbackTx, fun st _ hne hst => hroll st hne hst⟩,
    resting_rollbackTx, fun hmine => absurd hmine hours⟩
  · obtain ⟨u, hu, hlives⟩ := hlasts.owner
    obtain ⟨c, hc, hcu⟩ := Table.mem_rows.mp hu
    exact ⟨u, Table.mem_rows.mpr ⟨c.rollback i, List.mem_map_of_mem hc,
      (Cell.rollback_committed i c).trans hcu⟩, hlives⟩
  · exact hroll st (fun h => hours (hholder i h)) hst

theorem retry_env {e : Outside} (hi : (retryLogic S).inv w)
    (_ : (authSystem S.svc).env e w = some w')
    (hF : (within S.runs (familyLogic False)).env e w w') :
    (retryLogic S).inv w' ∧ (retryLogic S).env w w' := by
  obtain ⟨⟨hlasts, hcached⟩, hinv, helse⟩ := hF
  obtain ⟨st, hst, hholder⟩ := hi.2.2
  exact ⟨⟨hinv, hlasts, st, hst.env helse hcached, hholder⟩, helse,
    fun st hst => hst.env helse hcached⟩

/-- At the start of the retries. -/
theorem retry_start {l : Nat → Option (Point × Db)} (hc : FamilyGood False c)
    (hlasts : S.Lasts c.shared) (hfree : ∀ i, S.ours i → c.thread i = none)
    (hst : S.Sits .free c.shared) (hl : l = c.shared.lastCommit) :
    RetryGood S l c where
  inv := ⟨hc.inv, hlasts, .free, hst, fun _ h => by cases h⟩
  idle i hi := ⟨hc.idle i hi, fun _ => by rw [hl]⟩
  stands i q p hp := by
    have hours : ¬ S.ours i := fun hmine => by
      rw [hfree i hmine] at hp
      cases hp
    refine ⟨fun _ => True, .const True, trivial, ?_⟩
    exact (Outline.of_filter fun hi hF => foreign_step hours hi hF).post
      fun r w _ _ hmine => absurd hmine hours

/-- Every configuration a run of retries reaches is good. -/
theorem retry_good {l : Nat → Option (Point × Db)} (hc : FamilyGood False c)
    (hstart : RetryGood S l c)
    (hrun : (authSystem S.svc).Reaches S.runs c d) : RetryGood S l d := by
  have hwithin : (authSystem S.svc).Reaches
      (within S.runs (familyLogic False)) c d :=
    sound_within (fun _ => stable_resting) (fun _ _ => body_good) cancel_good
      env_good (fun _ hquiet => hquiet.elim) (fun _ => trivial)
      (fun _ => trivial) hc hrun
  exact sound (fun _ => stable_unused) (fun _ _ => retry_body) retry_cancel
    retry_env hstart hwithin

/-- What the retries have done to the family: the token is revoked, and one row
is inserted, that of the refresh token in `pair`.  None of their commits ends
the reuse branch. -/
structure RotatedOnce (R : Retry) (w w' : Srv) (pair : TokenPair) : Prop where
  rows : ∃ before now next, famRows R.row.fam (tokens w) = before ++ [R.row] ∧
    famRows R.row.fam (tokens w') = before ++ [R.row.revoke now, next] ∧
    next.tokenHash = R.svc.hashToken pair.refreshToken ∧ next.revokedAt = none
  noReuse : ∀ i, R.ours i → ∀ fam d,
    w'.lastCommit i = some (.reuseDetected fam, d) →
      w.lastCommit i = some (.reuseDetected fam, d)

/-- The committed rows at a stage where nothing is pending. -/
theorem sits_rows (h : S.Sits st w) :
    famRows S.row.fam (tokens w) =
      (Table.rows S.before).filter (fun r => r.fam == S.row.fam) ++
        (Table.rows (st.first S.row :: st.second)).filter
          fun r => r.fam == S.row.fam := by
  rw [famRows_cells, h.cells, Table.rows, List.filterMap_append,
    List.filter_append]
  rfl

/-- **One rotation, one answer.**  From a reachable configuration in which the
token is active and nobody holds its row, let our threads retry until all of
them have returned: all answers are `Ok` with one pair, and the family has been
rotated once. -/
theorem double_submit {R : Retry}
    (hc₀ : (authSystem R.svc).Reaches .all (.start (initial clock)) c₀)
    (hrow : (⟨some R.row, none⟩ : Cell RefreshTokenRow) ∈ tokens c₀.shared)
    (hlasts : R.Lasts c₀.shared) (hfree : ∀ i, R.ours i → c₀.thread i = none)
    (hrun : (authSystem R.svc).Reaches R.runs c₀ c)
    (hsome : ∃ i, R.ours i)
    (hdone : ∀ i, R.ours i → ∃ ua a,
      c.thread i = some (.refresh R.refreshToken R.jkt ua, .ret a)) :
    ∃ pair, (∀ i, R.ours i → c.result i = some (.ok (.tokens pair))) ∧
      RotatedOnce R c₀.shared c.shared pair := by
  have hfam := good_of_all hc₀
  obtain ⟨pre, post, hhere⟩ := List.append_of_mem hrow
  obtain ⟨hcells, hsettled⟩ := famCells_active hfam.inv.fams R.active hhere
  let S : Submit :=
    { R with before := famCells R.row.fam pre, settled := hsettled }
  have hfreeStage : S.Sits .free c₀.shared :=
    ⟨hcells, fun _ _ hrot => by cases hrot⟩
  have hgood : RetryGood S c₀.shared.lastCommit c :=
    retry_good hfam (retry_start hfam hlasts hfree hfreeStage rfl) hrun
  have hanswer : ∀ i, R.ours i → ∃ a ua,
      c.thread i = some (.refresh R.refreshToken R.jkt ua,
        .ret (Reply.tokens <$> a)) ∧
      Answered S i (c₀.shared.lastCommit i) a c.shared := by
    intro i hi
    obtain ⟨ua, a, hthread⟩ := hdone i hi
    obtain ⟨b, hb, rfl⟩ := hgood.result hthread hi ua rfl
    exact ⟨b, ua, hthread, hb⟩
  obtain ⟨i₀, hi₀⟩ := hsome
  obtain ⟨_, _, _, _, now, n, p, hfinal, _⟩ := hanswer i₀ hi₀
  obtain ⟨⟨hhash, hnfam, hactive⟩, hcached⟩ := hfinal.rotation n p rfl
  refine ⟨pairOf p, fun i hi => ?_, ?_, fun i hi fam d hlast => ?_⟩
  · obtain ⟨a, ua, hthread, _, _, n', p', hfinal', rfl⟩ := hanswer i hi
    have hpair : p' = p := by
      have hcached' := (hfinal'.rotation n' p' rfl).2
      rw [hcached] at hcached'
      cases hcached'
      rfl
    subst hpair
    simp only [Config.result, hthread]
    rfl
  · refine ⟨(Table.rows S.before).filter fun r => r.fam == S.row.fam, now, n,
      (sits_rows hfreeStage).trans ?_, (sits_rows hfinal).trans ?_, hhash,
      hactive⟩
    · simp [Stage.first, Stage.second, Table.rows, S]
    · have hrevoked : (R.row.revoke now).fam = R.row.fam := rfl
      have hnext : n.fam = R.row.fam := hnfam
      simp [Stage.first, Stage.second, Table.rows, S, hrevoked, hnext]
  · obtain ⟨_, _, _, hcommit, _⟩ := hanswer i hi
    rcases hcommit with hsame | ⟨e, hrot⟩
    · exact hsame ▸ hlast
    · rw [hrot] at hlast
      cases hlast

/-! ## Two runs -/

/-- A registered user with secret `0`. -/
def registered : AuthConfig :=
  ((authSystem sampleService).exec .all (.start (initial 0))
    (registers 0)).get (by decide +kernel)

/-- The row of secret `0`. -/
def sampleRow : RefreshTokenRow where
  userId := sampleUuid 0
  tokenHash := sampleService.hashToken (sampleSecret 0)
  fam := sampleUuid 2
  dpopJkt := "thumbprint"
  userAgent := none
  expiresAt := 2592000000000
  revokedAt := none

/-- Threads `1` to `k` present secret `0`. -/
def sampleRetry (k : Nat) : Retry where
  svc := sampleService
  refreshToken := sampleSecret 0
  jkt := "thumbprint"
  row := sampleRow
  ours i := 1 ≤ i ∧ i ≤ k
  hash := rfl
  bound := rfl
  active := rfl
  window := by decide
  signs _ _ _ _ := ⟨_, rfl⟩

def retryCall : Call := .refresh (sampleSecret 0) "thumbprint" none

/-- The session lasts, as a test. -/
def lasts (w : Srv) : Bool :=
  decide (w.clock < sampleRow.expiresAt) &&
    (w.db .users).rows.any fun u =>
      u.id == sampleRow.userId && u.deletedAt.isNone

/-- Nobody but threads `1` to `k` moves, nothing fails, and every state passes
the test `p`. -/
def onlyRetries (k : Nat) (p : Srv → Bool) : Check Point Srv Pick Outside Call where
  run i q _ ch _ w' := decide (1 ≤ i ∧ i ≤ k) && q == retryCall &&
    (w'.session i).status != .aborted && (match ch with
      | .fail _ => false
      | _ => true) && p w'
  cancel _ _ := false
  env _ w w' := decide ((sampleRetry k).cached w = none) && p w'

variable {k : Nat} {p : Srv → Bool}

theorem lasts_of (h : lasts w = true) : (sampleRetry k).Lasts w := by
  simp only [lasts, Bool.and_eq_true, decide_eq_true_eq, List.any_eq_true,
    beq_iff_eq, Option.isNone_iff_eq_none] at h
  obtain ⟨hclock, u, hu, hid, hdel⟩ := h
  exact ⟨hclock, u, hu, hid, hdel⟩

theorem onlyRetries_submissions :
    (onlyRetries k p).Implies (sampleRetry k).submissions where
  run {i q pt ch w w'} h := by
    simp only [onlyRetries, Bool.and_eq_true, decide_eq_true_eq, beq_iff_eq,
      bne_iff_ne] at h
    obtain ⟨⟨⟨⟨hours, rfl⟩, halive⟩, hch⟩, _⟩ := h
    refine ⟨fun _ => ⟨⟨none, rfl⟩, fun msg hmsg => ?_, halive⟩,
      fun hforeign => absurd hours hforeign⟩
    subst hmsg
    cases hch
  cancel h := by cases h
  env {e w w'} h := by
    simp only [onlyRetries, Bool.and_eq_true, decide_eq_true_eq] at h
    intro p hp
    rw [h.1] at hp
    cases hp

theorem onlyRetries_runs : (onlyRetries k lasts).Implies (sampleRetry k).runs where
  run h := by
    refine ⟨lasts_of ?_, onlyRetries_submissions.run h⟩
    simp only [onlyRetries, Bool.and_eq_true] at h
    exact h.2
  cancel h := by cases h
  env h := by
    refine ⟨lasts_of ?_, onlyRetries_submissions.env h⟩
    simp only [onlyRetries, Bool.and_eq_true] at h
    exact h.2

/-- Thread 2 has fixed its target and waits while thread 1 rotates the token;
then it finds the row revoked and answers from the grace cache. -/
def overlapped : AuthConfig :=
  ((authSystem sampleService).exec (onlyRetries 2 lasts) registered
    ([.call 1 retryCall, .call 2 retryCall] ++ steps 2 2 ++ steps 1 6 ++
      [drawSecret 1 1] ++ steps 1 2 ++ [drawUuid 1 5] ++ steps 1 2 ++
      steps 2 5)).get (by decide +kernel)

theorem two_threads {i : Nat} (h : (sampleRetry 2).ours i) : i = 1 ∨ i = 2 := by
  have hbounds : 1 ≤ i ∧ i ≤ 2 := h
  omega

theorem double_submit_overlapped :
    ∃ pair, (∀ i, (sampleRetry 2).ours i →
        overlapped.result i = some (.ok (.tokens pair))) ∧
      RotatedOnce (sampleRetry 2) registered.shared overlapped.shared pair :=
  double_submit (R := sampleRetry 2)
    (System.exec_reaches (Check.implies_all .all) (Option.some_get _).symm)
    (by decide +kernel) (lasts_of (by decide +kernel))
    (fun i hi => by rcases two_threads hi with rfl | rfl <;> rfl)
    (System.exec_reaches onlyRetries_runs (Option.some_get _).symm)
    ⟨1, Nat.le_refl 1, Nat.le_succ 1⟩
    (fun i hi => by rcases two_threads hi with rfl | rfl <;> exact ⟨none, _, rfl⟩)

/-- Thread 1 starts in time, but its token expires before it is checked. -/
def expired : AuthConfig :=
  ((authSystem sampleService).exec (onlyRetries 1 fun _ => true) registered
    ([.call 1 retryCall] ++ steps 1 1 ++ [.env (.tick 2678400000000)] ++
      steps 1 5)).get (by decide +kernel)

/-- **A session that does not last.**  The token is active and unexpired when
the only call starts, nothing fails and nobody else moves, and the call is
refused. -/
theorem expired_between :
    (authSystem sampleService).Reaches .all (.start (initial 0)) registered ∧
      (⟨some sampleRow, none⟩ : Cell RefreshTokenRow) ∈
        tokens registered.shared ∧
      (sampleRetry 1).Lasts registered.shared ∧
      registered.thread 1 = none ∧
      (authSystem sampleService).Reaches (sampleRetry 1).submissions registered
        expired ∧
      ∀ i, (sampleRetry 1).ours i →
        expired.result i = some (.error (.error .unauthorized)) := by
  refine ⟨System.exec_reaches (Check.implies_all .all)
    (Option.some_get _).symm, by decide +kernel, lasts_of (by decide +kernel),
    rfl, System.exec_reaches onlyRetries_submissions (Option.some_get _).symm,
    fun i hi => ?_⟩
  have hbounds : 1 ≤ i ∧ i ≤ 1 := hi
  obtain rfl : i = 1 := by omega
  rfl

end DpopAuth.Ports.DoubleSubmit
