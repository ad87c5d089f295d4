import DpopAuth.Ports.FamilyInvariant
import DpopAuth.Ports.AtomicCalls

/-!
# A refresh that runs alone

What `refresh` does when nothing runs in between, in closed form: `Refreshed`
lists the two ways in which it answers with tokens.  The rotation reads the
token's row under the compare-and-swap and checks key, expiry and owner.  The
grace branch checks none of them: it answers from the cache.

## Main results

* `refresh_exact` — the two successful ends of `refresh`.
* `grace_runs` — the grace branch does answer.
-/

namespace DpopAuth.Ports.RefreshAlone

open DpopAuth.Verified.Resumption
open DpopAuth.Verified.RelyGuarantee
open DpopAuth.Verified.RowVersions
open DpopAuth.Verified.Transactions
open DpopAuth.Verified.AtomicRules
open DpopAuth.Verified.TtlCache
open DpopAuth.Ports.Schema
open DpopAuth.Ports.Service
open DpopAuth.Ports.Repo
open DpopAuth.Ports.Auth
open DpopAuth.Ports.FamilyProtocol
open DpopAuth.Ports.FamilyOutlines
open DpopAuth.Ports.FamilyInvariant
open DpopAuth.Ports.AtomicCalls

variable {svc : AuthService} {i : Nat} {w w₀ : Srv} {rt jkt : String}
  {ua : Option String} {α β : Type}

/-! ## Exact rules for the parts of a call -/

theorem from_propagate {q : Repo α} {Q : α → Srv → Prop}
    (h : From i w q.run Q) : From i w q.propagate.run Q := by
  refine Outline.bind (fun r => ?_) h
  cases r with
  | error e => exact fun _ _ _ => trivial
  | ok a => exact fun _ _ hs => hs

/-- A program that cannot fail. -/
theorem from_lift {p : Prog Point Srv Pick α} {Q : α → Srv → Prop}
    (h : Triple i p (fun v => v = w) Q) :
    From i w (liftM p : Svc α).run Q := Outline.lift h

theorem utcNow_exact :
    Triple i utcNow (fun v => v = w) fun t v => t = w.clock ∧ v = w := by
  refine Triple.step fun hv hf => ?_
  subst hv
  simp only [Option.some.injEq, Prod.mk.injEq] at hf
  exact ⟨hf.1.symm, hf.2.symm⟩

theorem newText_exact : From i w newText.run fun _ v => v = w := by
  refine Triple.step fun hv hf => ?_
  subst hv
  split at hf <;> simp_all [exceptPost] <;> simp [← hf.1]

theorem graceGet_exact {key : Uuid × String} :
    Triple i (graceGet svc key) (fun v => v = w) fun o v =>
      o = w.mem.graceCache.get svc.config.gracePeriod.asMicros w.clock key ∧
        v = w := by
  refine Triple.step fun hv hf => ?_
  subst hv
  simp only [Option.some.injEq, Prod.mk.injEq] at hf
  exact ⟨hf.1.symm, hf.2.symm⟩

theorem graceInsert_exact {key : Uuid × String} {v : ReplacementTokens} :
    Triple i (graceInsert key v) (fun u => u = w) fun _ u =>
      u = { w with mem := { w.mem with
        graceCache := w.mem.graceCache.insert w.clock key v } } := by
  refine Triple.step fun hu hf => ?_
  subst hu
  simp only [Option.some.injEq, Prod.mk.injEq] at hf
  exact hf.2.symm

/-- The state after an identifier has been drawn. -/
def withDrawn (l : List (Nat × Uuid)) (w : Srv) : Srv :=
  { w with mem := { w.mem with drawn := l } }

theorem newUuid_exact :
    Triple i newUuid (fun v => v = w) fun _ v => ∃ l, v = withDrawn l w := by
  refine Triple.step fun hv hf => ?_
  subst hv
  unfold newUuidStep at hf
  split at hf
  · split at hf
    · cases hf
    · simp only [Option.some.injEq, Prod.mk.injEq] at hf
      exact ⟨_, hf.2.symm⟩
  · cases hf

theorem issueAccessToken_exact {user : UserRow} :
    From i w (issueAccessToken svc user jkt).run fun _ v =>
      ∃ l, v = withDrawn l w := by
  refine From.bind (R := fun _ v => v = w) (from_lift ?_) fun now v hv => ?_
  · refine Triple.step fun hv hf => ?_
    subst hv
    simp only [Option.some.injEq, Prod.mk.injEq] at hf
    exact hf.2.symm
  · subst hv
    refine From.bind (from_lift newUuid_exact) fun jti u hu => ?_
    split
    · exact From.pure hu
    · exact From.throw

/-! ## The two successful ends -/

/-- The row a rotation inserts. -/
def replacement (svc : AuthService) (old : RefreshTokenRow) (jkt : String)
    (ua : Option String) (secret : String) : RefreshTokenRow :=
  { userId := old.userId
    tokenHash := svc.hashToken secret
    fam := old.fam
    dpopJkt := jkt
    userAgent := ua
    expiresAt := old.expiresAt
    revokedAt := none }

/-- The answer of the grace branch. -/
abbrev cachedPair (cached : ReplacementTokens) : TokenPair :=
  { accessToken := cached.accessToken
    refreshToken := cached.refreshToken
    tokenType := tokenType
    expiresIn := cached.expiresIn }

/-- The table after the compare-and-swap on a hash. -/
def swapped (i : Nat) (hash : String) (w : Srv) : Tokens :=
  (tokens w).sweep i (fun r => r.tokenHash == hash && r.revokedAt.isNone)
    (RefreshTokenRow.revoke w.clock)

/-- How `refresh` answers with tokens, from state `w`. -/
inductive Refreshed (svc : AuthService) (i : Nat) (rt jkt : String)
    (ua : Option String) (w : Srv) : TokenPair → Srv → Prop
  /-- No row with this hash is active, and the cache has a live entry. -/
  | grace (existing : RefreshTokenRow) (cached : ReplacementTokens)
      (found : existing ∈ (tokens w).rows)
      (hash : existing.tokenHash = svc.hashToken rt)
      (lost : ∀ r ∈ (tokens w).rows, r.tokenHash = svc.hashToken rt →
        r.revokedAt ≠ none)
      (hit : w.mem.graceCache.get svc.config.gracePeriod.asMicros w.clock
        (existing.fam, svc.hashToken rt) = some cached) :
      Refreshed svc i rt jkt ua w (cachedPair cached)
        ((w.beginTx i).rollbackTx i)
  /-- The row was active, and has been replaced. -/
  | rotated (old : RefreshTokenRow) (user : UserRow) (secret access : String)
      (w' : Srv) (found : old ∈ (tokens w).rows)
      (hash : old.tokenHash = svc.hashToken rt) (active : old.revokedAt = none)
      (unexpired : w.clock < old.expiresAt) (bound : old.dpopJkt = jkt)
      (owner : user ∈ (w.db .users).rows) (owns : user.id = old.userId)
      (alive : user.deletedAt = none)
      (table : tokens w' = ((swapped i (svc.hashToken rt) w).insert i
        (replacement svc old jkt ua secret)).commit i)
      (users : w'.db .users = w.db .users) (clock : w'.clock = w.clock)
      (cache : w'.mem.graceCache = w.mem.graceCache.insert w.clock
        (old.fam, svc.hashToken rt)
          ⟨access, secret, svc.config.accessTokenTtl.secs⟩) :
      Refreshed svc i rt jkt ua w
        ⟨access, secret, tokenType, svc.config.accessTokenTtl.secs⟩ w'

/-- How the transaction of `refresh` ends when it has an answer. -/
def Ending (svc : AuthService) (i : Nat) (rt jkt : String) (ua : Option String)
    (w : Srv) : TxExit Point Stop TokenPair → Srv → Prop
  | .leave (.ok pair), v =>
      Refreshed svc i rt jkt ua w pair (v.rollbackTx i)
  | .commit pt (.ok pair), v =>
      InBlock i v ∧ Refreshed svc i rt jkt ua w pair (v.commitTx i pt)
  | _, _ => True

theorem refreshRevoked_exact (h : Resting i false w)
    (lost : ∀ r ∈ (tokens w).rows, r.tokenHash = svc.hashToken rt →
      r.revokedAt ≠ none) :
    From i (w.beginTx i) (refreshRevoked svc (svc.hashToken rt)).run
      (Ending svc i rt jkt ua w) := by
  refine From.bind (from_propagate (select_block inBlock_beginTx))
    fun o v ho => ?_
  obtain ⟨rfl, rfl⟩ := ho
  split
  · rename_i existing hfind
    have hin := List.mem_of_find?_eq_some hfind
    have hview : ((w.beginTx i).db .refreshTokens).view i = (tokens w).rows :=
      Table.view_of_own_nil (h.own .refreshTokens)
    refine From.bind (from_lift graceGet_exact) fun cached u hu => ?_
    obtain ⟨hhit, rfl⟩ := hu
    split
    · refine From.pure (.grace existing _ (hview ▸ hin) ?_ lost hhit.symm)
      simpa using List.find?_some hfind
    · exact From.bind (R := fun _ _ => True) (.of_all fun _ _ => trivial)
        fun _ _ _ => From.pure trivial
  · exact From.throw

theorem createRefreshToken_exact {params : CreateRefreshTokenParams}
    (h : InBlock i w) :
    From i w (createRefreshToken params).run fun _ v => ∃ x,
      insertRows i RefreshTokenRow.dup [params.row] (tokens w) = some (.ok x) ∧
        v = w.setTable .refreshTokens x :=
  From.bind (insert_block h) fun _ _ hv => From.pure hv

theorem refreshActive_exact {old : RefreshTokenRow} (h : Resting i false w)
    (found : old ∈ (tokens w).rows) (hash : old.tokenHash = svc.hashToken rt)
    (active : old.revokedAt = none) :
    From i ((w.beginTx i).setTable .refreshTokens
        (swapped i (svc.hashToken rt) w))
      (refreshActive svc (svc.hashToken rt) jkt ua (old.revoke w.clock)).run
      (Ending svc i rt jkt ua w) := by
  have hblock : InBlock i ((w.beginTx i).setTable .refreshTokens
      (swapped i (svc.hashToken rt) w)) := inBlock_beginTx
  refine From.bind (from_lift utcNow_exact) fun now v hv => ?_
  obtain ⟨rfl, rfl⟩ := hv
  split
  · exact From.throw
  rename_i hexpires
  split
  · exact From.throw
  rename_i hbound
  refine From.bind (from_propagate (select_block hblock)) fun o v hv => ?_
  obtain ⟨rfl, rfl⟩ := hv
  split
  · exact From.throw
  rename_i user hfind
  refine From.bind newText_exact fun secret v hv => ?_
  obtain rfl := hv
  refine From.bind (from_propagate (createRefreshToken_exact hblock))
    fun _ v hv => ?_
  obtain ⟨x, hx, rfl⟩ := hv
  obtain ⟨rfl, _, _⟩ := insertRows_one hx
  refine From.bind issueAccessToken_exact fun access v hv => ?_
  obtain ⟨l, rfl⟩ := hv
  refine From.bind (from_lift graceInsert_exact) fun _ v hv => ?_
  subst hv
  have husers : ((w.beginTx i).db .users).view i = (w.db .users).rows :=
    Table.view_of_own_nil (h.own .users)
  have huser := List.find?_some hfind
  simp only [Bool.and_eq_true, beq_iff_eq, Option.isNone_iff_eq_none] at huser
  refine From.pure ⟨hblock, .rotated old user secret access _ found hash active
    (Int.not_le.mp hexpires) (not_ne_iff.mp hbound)
    (husers ▸ List.mem_of_find?_eq_some hfind) huser.1 huser.2 ?_ ?_ rfl rfl⟩
  · simp [tokens, World.commitTx, withDrawn, World.setTable]
    rfl
  · exact Table.commit_of_own_nil (h.own .users)

theorem cas_exact (h : Resting i false w) :
    From i (w.beginTx i) (revokeRefreshTokenIfActive (svc.hashToken rt)).run
      fun o v => v = (w.beginTx i).setTable .refreshTokens
          (swapped i (svc.hashToken rt) w) ∧
        (match o with
          | none => swapped i (svc.hashToken rt) w = tokens w ∧
              ∀ r ∈ (tokens w).rows, r.tokenHash = svc.hashToken rt →
                r.revokedAt ≠ none
          | some row => ∃ old ∈ (tokens w).rows, row = old.revoke w.clock ∧
              old.tokenHash = svc.hashToken rt ∧ old.revokedAt = none) := by
  refine From.bind (update_block inBlock_beginTx) fun rows v hv => ?_
  obtain ⟨hrows, rfl⟩ := hv
  have hnow : (w.beginTx i).now i = w.clock := by
    simp [World.now, World.beginTx, World.setSession]
  have hview : (tokens w).view i = (tokens w).rows :=
    Table.view_of_own_nil (h.own .refreshTokens)
  rw [hnow] at hrows ⊢
  refine From.pure ⟨rfl, ?_⟩
  split
  · rename_i hhead
    have hnil := List.head?_eq_none_iff.mp hhead
    rw [hrows] at hnil
    refine ⟨Table.sweep_of_swept_nil hnil, fun r hr hhash hactive => ?_⟩
    simp only [Table.swept, List.map_eq_nil_iff, List.filter_eq_nil_iff] at hnil
    exact hnil r (hview ▸ hr) (by simp [hhash, hactive])
  · rename_i row hhead
    have hmem := List.mem_of_head? hhead
    rw [hrows] at hmem
    simp only [Table.swept, List.mem_map, List.mem_filter, Bool.and_eq_true,
      beq_iff_eq, Option.isNone_iff_eq_none] at hmem
    obtain ⟨old, ⟨hin, hhash, hactive⟩, rfl⟩ := hmem
    exact ⟨old, hview ▸ hin, rfl, hhash, hactive⟩

/-- **The two successful ends of a `refresh` that runs alone.** -/
theorem refresh_exact (h : Resting i false w) :
    From i w (refresh svc rt jkt ua).run (Refreshed svc i rt jkt ua w) := by
  refine transaction_exact (S := Ending svc i rt jkt ua w) ?_
    (fun hend => hend) fun hend => hend
  refine From.bind (from_propagate (cas_exact h)) fun o v hv => ?_
  cases o with
  | none =>
      obtain ⟨rfl, hsame, hlost⟩ := hv
      rw [hsame, show (w.beginTx i).setTable .refreshTokens (tokens w) =
        w.beginTx i from setTable_self]
      exact refreshRevoked_exact h hlost
  | some row =>
      obtain ⟨rfl, old, found, rfl, hash, active⟩ := hv
      exact refreshActive_exact h found hash active

/-! ## Calls that run -/

theorem statement_ok {pt : Point} {γ : Type}
    {f : Nat → Srv → Option (Except SqlxError γ × Srv)}
    (h : (w.session i).status ≠ .aborted) :
    statement (ν := Draw) pt f i .ok w = f i (w.openStatement i pt) := by
  unfold statement
  split
  · rename_i hst
    exact absurd hst h
  · rfl

/-- A compare-and-swap without targets. -/
theorem cas_runs {hash : String} (h : InBlock i w)
    (hnone : ∀ r ∈ (tokens w).view i, r.tokenHash = hash → r.revokedAt ≠ none) :
    (revokeRefreshTokenIfActive hash).propagate.run.alone i [.ok, .ok] w =
      some (.ok none, w) := by
  have htargets : ((w.openStatement i .plain).db .refreshTokens).targets i
      (fun (r : RefreshTokenRow) =>
        r.tokenHash == hash && r.revokedAt.isNone) = [] := by
    rw [List.eq_nil_iff_forall_not_mem]
    intro k hk
    obtain ⟨c, r, hc, hseen, hp⟩ := Table.mem_targets.mp hk
    rw [db_open] at hc
    simp only [Bool.and_eq_true, beq_iff_eq, Option.isNone_iff_eq_none] at hp
    exact hnone r (List.mem_filterMap.mpr ⟨c, List.mem_of_getElem? hc, hseen⟩)
      hp.1 hp.2
  have hstart : updateStart (ν := Draw) Point.plain Tbl.refreshTokens
      (fun _ (r : RefreshTokenRow) => r.tokenHash == hash && r.revokedAt.isNone)
        i .ok w = some (.ok [], w.openStatement i .plain) := by
    rw [updateStart, statement_ok h.not_aborted, htargets]
  have hend : (updateEnd Point.plain : Action Srv Pick (Except SqlxError Unit))
      i .ok (w.openStatement i .plain) = some (.ok (), w) := by
    rw [updateEnd, statement_ok (by simp [World.openStatement, World.setSession,
      h.1]), open_open, h.complete_open]
  refine Prog.alone_bind_of (l := [Choice.ok, .ok]) (m := [])
    (Prog.alone_except_bind_of (l := [Choice.ok, .ok]) (m := [])
      (a := []) ?_ rfl) rfl
  show Prog.alone i [Choice.ok, .ok] (.act _ _ _) w = _
  simp only [Prog.alone, hstart, updateVisits, hend]

/-- With a live entry in the cache, a call for a revoked token is answered from
it, whatever key it presents. -/
theorem grace_runs {r : RefreshTokenRow} {cached : ReplacementTokens}
    (h : Resting i false w) (hinv : FamInv (tokens w))
    (hr : r ∈ (tokens w).rows) (hash : r.tokenHash = svc.hashToken rt)
    (hrev : r.revokedAt ≠ none)
    (hit : w.mem.graceCache.get svc.config.gracePeriod.asMicros w.clock
      (r.fam, svc.hashToken rt) = some cached) :
    (refresh svc rt jkt ua).run.alone i (List.replicate 6 .ok) w =
      some (.ok (cachedPair cached), (w.beginTx i).rollbackTx i) := by
  have hb : InBlock i (w.beginTx i) := inBlock_beginTx
  have hview : ((w.beginTx i).db .refreshTokens).view i = (tokens w).rows :=
    Table.view_of_own_nil (h.own .refreshTokens)
  have hfind : ((tokens w).rows.find? fun r =>
      r.tokenHash == svc.hashToken rt) = some r := by
    cases hf : (tokens w).rows.find? fun r =>
        r.tokenHash == svc.hashToken rt with
    | none =>
        have hno := List.find?_eq_none.mp hf r hr
        simp [hash] at hno
    | some v =>
        have hv : v.tokenHash = svc.hashToken rt := by
          simpa using List.find?_some hf
        rw [hash_injective hinv hr (List.mem_of_find?_eq_some hf)
          (hv.trans hash.symm)]
  have hlost : ∀ v ∈ ((w.beginTx i).db .refreshTokens).view i,
      v.tokenHash = svc.hashToken rt → v.revokedAt ≠ none := by
    intro v hv hvh
    rw [hview] at hv
    rwa [hash_injective hinv hr hv (hvh.trans hash.symm)]
  have hcas := cas_runs hb hlost
  have hselect : (findRefreshTokenByHash (svc.hashToken rt)).propagate.run.alone
      i [.ok] (w.beginTx i) = some (.ok (some r), w.beginTx i) := by
    refine Prog.alone_bind_of (l := [Choice.ok]) (m := []) (a := .ok (some r))
      (t := w.beginTx i) ?_ rfl
    show Prog.alone i [Choice.ok] (.act _ (selectStep _ _) _) _ = _
    simp only [Prog.alone, selectStep, statement_ok hb.not_aborted,
      hb.complete_open, view_open]
    simp only [World.view, hview, hfind]
  have hget : (liftM (graceGet svc (r.fam, svc.hashToken rt)) :
      Svc _).run.alone i [.ok] (w.beginTx i) =
        some (.ok (some cached), w.beginTx i) := by
    refine Prog.alone_bind_of (l := [Choice.ok]) (m := []) (a := some cached)
      (t := w.beginTx i) ?_ rfl
    show Prog.alone i [Choice.ok] (.act _ _ _) _ = _
    simp only [Prog.alone]
    rw [show (w.beginTx i).mem = w.mem from rfl,
      show (w.beginTx i).clock = w.clock from rfl, hit]
  have hregion : Prog.alone i [Choice.ok, .ok, .ok, .ok]
      ((revokeRefreshTokenIfActive (svc.hashToken rt)).propagate >>= fun
        | none => refreshRevoked svc (svc.hashToken rt)
        | some row => refreshActive svc (svc.hashToken rt) jkt ua row).run
      (w.beginTx i) = some (.ok (.leave (.ok (cachedPair cached))),
        w.beginTx i) :=
    Prog.alone_except_bind_of hcas (Prog.alone_except_bind_of hselect
      (Prog.alone_except_bind_of (m := []) hget rfl))
  exact Prog.alone_bind_of (m := [Choice.ok])
    (r := some (Except.ok (cachedPair cached), (w.beginTx i).rollbackTx i))
    hregion rfl

end DpopAuth.Ports.RefreshAlone
