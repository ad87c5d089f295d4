import DpopAuth.Verified.AtomicRules
import DpopAuth.Ports.Auth
import DpopAuth.Ports.FamilyProtocol

/-!
# The service calls follow the family protocol

A proof outline for each of `register`, `login`, `refresh` and `logout`: every
step of a call is a sequence of moves of the family protocol.  Most steps
leave the token table alone (`Calm`); the exceptions are the three `UPDATE`s
that revoke tokens, which share one outline, the `INSERT` of a token, and the
ends of transactions.

The outlines hold for every interleaving.  With `quiet` they speak about runs
in which no rotation of a family commits while another session revokes that
family, and then also record that a finished revocation left no row active.

## Main results

* `revokeWhere_outline`, `createRefreshToken_outline` — the statements.
* `register_outline`, `login_outline`, `refresh_outline`, `logout_outline` —
  the calls.
* `good_of_reaches` — every reachable configuration is good.
-/

namespace DpopAuth.Ports.FamilyOutlines

open DpopAuth.Verified.Resumption
open DpopAuth.Verified.RelyGuarantee
open DpopAuth.Verified.RowVersions
open DpopAuth.Verified.Transactions
open DpopAuth.Verified.TransactionRules
open DpopAuth.Verified.AtomicRules
open DpopAuth.Ports.Errors
open DpopAuth.Ports.Schema
open DpopAuth.Ports.Service
open DpopAuth.Ports.Repo
open DpopAuth.Ports.Auth
open DpopAuth.Ports.FamilyProtocol

variable {quiet : Prop} {i j : Nat} {block : Bool}
  {X : List (Cell RefreshTokenRow)} {w w' : Srv} {α β : Type}

/-! ## The logic -/

/-- A step outside of every call does not touch the tokens. -/
structure Elsewhere (w w' : Srv) : Prop where
  table : tokens w' = tokens w
  ledger : w'.mem.drawn = w.mem.drawn
  record : w'.lastCommit = w.lastCommit
  session : w'.session = w.session
  held : ∀ j t, (w'.db t).own j = (w.db t).own j

theorem Elsewhere.refl (w : Srv) : Elsewhere w w :=
  ⟨rfl, rfl, rfl, rfl, fun _ _ => rfl⟩

/-- A step is any number of moves. -/
def familyLogic (quiet : Prop) : Logic Srv where
  inv := Inv quiet
  guar i := Relation.ReflTransGen (Move quiet i)
  env := Elsewhere

/-- No other session is revoking the family a rotation is about to commit. -/
def Undisturbed (i : Nat) (pt : Point) (w : Srv) : Prop :=
  ∀ fam, pt = .rotated fam → ∀ j, j ≠ i →
    (w.session j).query ≠ some (.revokeRefreshTokenFamily fam)

/-- The runs the outlines are about. -/
def calmRuns (quiet : Prop) {ε ι : Type} : Filter Point Srv Pick ε ι where
  run i _ pt _ w _ := quiet → Undisturbed i pt w
  cancel _ _ := True
  env _ _ _ := True

/-- The restriction as one thread sees it. -/
abbrev Allowed (quiet : Prop) (i : Nat) (pt : Point) (_ : Pick) (w _ : Srv) :
    Prop := quiet → Undisturbed i pt w

/-- What every move keeps, any number of moves keep. -/
theorem moves_keep {P : Srv → Prop}
    (hmove : ∀ {w w'}, Inv quiet w → Move quiet j w w' → P w → P w')
    (hinv : Inv quiet w) (h : Relation.ReflTransGen (Move quiet j) w w')
    (hP : P w) : Inv quiet w' ∧ P w' := by
  induction h with
  | refl => exact ⟨hinv, hP⟩
  | tail _ hm ih => exact ⟨hm.inv ih.1, hmove ih.1 hm ih.2⟩

theorem stable_of_move {P : Srv → Prop}
    (hmove : ∀ {j w w'}, j ≠ i → Inv quiet w → Move quiet j w w' → P w → P w')
    (henv : ∀ {w w'}, Elsewhere w w' → P w → P w') :
    Stable (familyLogic quiet) i P where
  thread hne hinv _ hg hP := (moves_keep (hmove hne) hinv hg hP).2
  env _ _ he hP := henv he hP

/-- What session `i` holds of the token table. -/
abbrev Hold (i : Nat) (block : Bool) (X : List (Cell RefreshTokenRow))
    (w : Srv) : Prop := Holds Tbl.refreshTokens i block X w

theorem Hold.elsewhere (he : Elsewhere w w') (h : Hold i block X w) :
    Hold i block X w' := by
  have htab : w'.db .refreshTokens = w.db .refreshTokens := he.table
  simp only [Holds, he.session, htab]
  exact h

theorem stable_hold : Stable (familyLogic quiet) i (Hold i block X) :=
  stable_of_move (fun hne _ hm h => Holds.frame hne hm.frame h)
    fun he h => Hold.elsewhere he h

/-- Session `i` holds something or other. -/
abbrev Held (i : Nat) (block : Bool) (w : Srv) : Prop :=
  ∃ X, Hold i block X w

theorem stable_held : Stable (familyLogic quiet) i (Held i block) :=
  .exists fun _ => stable_hold

theorem stable_known {fam : Uuid} :
    Stable (familyLogic quiet) i fun w => Known fam (tokens w) :=
  stable_of_move (fun _ hi hm h => hm.change.known hi.fams h)
    fun he h => by rwa [he.table]

theorem stable_reserved {fam : Uuid} :
    Stable (familyLogic quiet) i (Reserved i fam) :=
  stable_of_move (fun hne hi hm h => hm.change.reserved hi (Ne.symm hne) h)
    fun he h => ⟨he.ledger ▸ h.drawn, he.table ▸ h.unused⟩

/-! ## Steps that leave the tokens alone -/

/-- The step is one move and leaves what the session holds as it is. -/
def Calm (quiet : Prop) {β : Type} (f : Action Srv Pick β) : Prop :=
  ∀ ⦃i ch w b w'⦄, f i ch w = some (b, w') →
    ∀ ⦃block X⦄, Hold i block X w → Move quiet i w w' ∧ Hold i block X w'

theorem move_of_away (h : Away Tbl.refreshTokens i block X w w') :
    Move quiet i w w' := by
  refine ⟨h.frame, ?_⟩
  rcases h.table with htab | htab
  · exact .keep htab (by rw [h.mem]) h.lastCommit
  · exact .undo htab (by rw [h.mem]) h.lastCommit

theorem calm_of_offTable {f : Action Srv Pick β}
    (h : OffTable Tbl.refreshTokens f) : Calm quiet f := fun _ _ _ _ _ hf _ _ hX =>
  ⟨move_of_away (h hf hX), (h hf hX).holds⟩

/-- A step that changes neither the database nor the ledger. -/
theorem calm_of_same {f : Action Srv Pick β}
    (h : ∀ i ch w b w', f i ch w = some (b, w') →
      ∃ c, w' = { w with mem := { w.mem with graceCache := c } }) :
    Calm quiet f := fun _ _ _ _ _ hf _ _ hX => by
  obtain ⟨c, rfl⟩ := h _ _ _ _ _ hf
  exact ⟨⟨World.frame_mem _ _ _, .keep rfl rfl rfl⟩, hX⟩

theorem calm_newUuid : Calm quiet newUuidStep := by
  intro i ch w b w' hf block X hX
  unfold newUuidStep at hf
  split at hf
  · rename_i v
    split at hf
    · cases hf
    · rename_i hunseen
      simp only [Option.some.injEq, Prod.mk.injEq] at hf
      obtain ⟨rfl, rfl⟩ := hf
      refine ⟨⟨World.frame_mem _ _ _, .draw v rfl ?_ rfl rfl⟩, hX⟩
      intro hin
      obtain ⟨d, hd, rfl⟩ := List.mem_map.mp hin
      exact hunseen (List.any_eq_true.mpr ⟨d, hd, by simp⟩)
  · cases hf

theorem calm_newText : newText.run.Every (Calm quiet) := by
  refine Prog.Every.step (calm_of_same fun _ _ w _ _ hf => ⟨w.mem.graceCache, ?_⟩)
  split at hf <;> simp_all

theorem calm_utcNow : utcNow.Every (Calm quiet) :=
  Prog.Every.step (calm_of_same fun _ _ w _ _ hf =>
    ⟨w.mem.graceCache, by simp_all⟩)

theorem calm_currentTimestamp : currentTimestamp.Every (Calm quiet) :=
  Prog.Every.step (calm_of_same fun _ _ w _ _ hf =>
    ⟨w.mem.graceCache, by simp_all⟩)

theorem calm_graceInsert {key : Uuid × String} {v : ReplacementTokens} :
    (graceInsert key v).Every (Calm quiet) :=
  Prog.Every.step (calm_of_same fun _ _ w _ _ hf =>
    ⟨w.mem.graceCache.insert w.clock key v, by simp_all⟩)

/-- A calm program keeps what the session holds. -/
theorem calm_outline {p : Prog Point Srv Pick α} (hp : p.Every (Calm quiet)) :
    Outline (familyLogic quiet) (Allowed quiet i) i p (Hold i block X)
      fun _ => Hold i block X := by
  refine Outline.every stable_hold ?_
  induction p with
  | ret a => trivial
  | act pt f next ih =>
      refine ⟨fun hinv hX hf => ?_, fun b => ih b (hp.2 b)⟩
      obtain ⟨hm, hX'⟩ := hp.1 hf hX
      exact ⟨hm.inv hinv, .single hm, hX'⟩

/-- The same for a program that may fail. -/
theorem calm_outline_fallible {ξ : Type} {p : ExceptT ξ (Prog Point Srv Pick) α}
    (hp : p.run.Every (Calm quiet)) :
    Outline (familyLogic quiet) (Allowed quiet i) i p.run (Hold i block X)
      (exceptPost (fun _ => Hold i block X) (Held i block)) :=
  (calm_outline hp).post fun r _ _ hX => by
    cases r with
    | error e => exact ⟨X, hX⟩
    | ok a => exact hX

theorem every_mono {φ ψ : ∀ {β : Type}, Action Srv Pick β → Prop}
    (h : ∀ {β} {f : Action Srv Pick β}, φ f → ψ f) {p : Prog Point Srv Pick α}
    (hp : p.Every φ) : p.Every ψ := by
  induction p with
  | ret a => trivial
  | act pt f next ih => exact ⟨h hp.1, fun b => ih b (hp.2 b)⟩

theorem calm_sql {q : Sql Point Row Memory Draw α}
    (h : q.Every (OffTable Tbl.refreshTokens)) :
    (Repo.sql q).run.Every (Calm quiet) :=
  every_mono (fun hf => calm_of_offTable hf) h

theorem calm_propagate {q : Repo α} (h : q.run.Every (Calm quiet)) :
    q.propagate.run.Every (Calm quiet) := by
  refine Prog.Every.bind (fun r => ?_) h
  cases r <;> trivial

theorem calm_ignore {q : Repo α} (h : q.run.Every (Calm quiet)) :
    q.ignore.run.Every (Calm quiet) :=
  Prog.Every.bind (fun _ => trivial) h

/-! ## Revoking tokens -/

/-- The rows an `UPDATE` has revoked so far are what its session holds. -/
structure Locks (p : RefreshTokenRow → Bool) (done : List RefreshTokenRow)
    (own : List (Cell RefreshTokenRow)) : Prop where
  locked : ∀ c ∈ own, c.committed ≠ none
  rows : (own.map fun c => c.pending.map Prod.snd).Perm (done.map some)
  qualify : ∀ r ∈ done, p r = true

theorem Locks.nil (p : RefreshTokenRow → Bool) : Locks p [] [] :=
  ⟨by simp, by simp, by simp⟩

/-- The session of a running `UPDATE`. -/
abbrev Running (i : Nat) (block : Bool) (w : Srv) : Prop :=
  (w.session i).status = .explicit ∧ block = true ∨
    (w.session i).status = .implicit ∧ block = false

/-- Between two steps of the `UPDATE`. -/
def Revoking (i : Nat) (block : Bool) (p : RefreshTokenRow → Bool)
    (done : List RefreshTokenRow) (w : Srv) : Prop :=
  Running i block w ∧ Locks p done ((tokens w).own i)

/-- After the `UPDATE`: outside of a block it has committed. -/
def Revoked (i : Nat) (block : Bool) (p : RefreshTokenRow → Bool)
    (done : List RefreshTokenRow) (w : Srv) : Prop :=
  ((w.session i).status = .explicit ∧ block = true ∧
      Locks p done ((tokens w).own i)) ∨
    ((w.session i).status = .idle ∧ block = false ∧ (tokens w).own i = [])

/-- The progress of a family's revocation, in quiet runs. -/
def Sweeping (quiet : Prop) (i : Nat) (pt : Point) (ks : List Nat)
    (w : Srv) : Prop :=
  quiet → ∀ fam, pt = .revokeRefreshTokenFamily fam →
    Known fam (tokens w) ∧ (w.session i).query = some pt ∧
      Sweep i fam ks (tokens w)

/-- The result of a family's revocation, in quiet runs. -/
def Swept (quiet : Prop) (i : Nat) (pt : Point) (w : Srv) : Prop :=
  quiet → ∀ fam, pt = .revokeRefreshTokenFamily fam → Closed i fam (tokens w)

variable {p : RefreshTokenRow → Bool} {done : List RefreshTokenRow}
  {pt : Point} {ks : List Nat}

theorem own_of_move (hne : j ≠ i) (hm : Move quiet j w w') :
    (tokens w').own i = (tokens w).own i :=
  (hm.frame.held i (Ne.symm hne) .refreshTokens).own

theorem stable_revoking :
    Stable (familyLogic quiet) i (Revoking i block p done) :=
  stable_of_move
    (fun hne _ hm h => by
      simp only [Revoking, Running, own_of_move hne hm,
        hm.frame.session i (Ne.symm hne)]
      exact h)
    fun he h => by
      simp only [Revoking, Running, he.table, he.session]
      exact h

theorem stable_revoked : Stable (familyLogic quiet) i (Revoked i block p done) :=
  stable_of_move
    (fun hne _ hm h => by
      simp only [Revoked, own_of_move hne hm, hm.frame.session i (Ne.symm hne)]
      exact h)
    fun he h => by
      simp only [Revoked, he.table, he.session]
      exact h

theorem stable_sweeping : Stable (familyLogic quiet) i (Sweeping quiet i pt ks) :=
  stable_of_move
    (fun hne hi hm h hq fam hpt => by
      obtain ⟨hknown, hquery, hsweep⟩ := h hq fam hpt
      refine ⟨hm.change.known hi.fams hknown, ?_, ?_⟩
      · rwa [hm.frame.session i (Ne.symm hne)]
      · exact hm.change.sweep hi.fams (Ne.symm hne) hq hknown (hpt ▸ hquery)
          hsweep)
    fun he h hq fam hpt => by
      simp only [he.table, he.session]
      exact h hq fam hpt

theorem stable_swept : Stable (familyLogic quiet) i (Swept quiet i pt) :=
  stable_of_move
    (fun hne hi hm h hq fam hpt =>
      hm.change.closed hi.fams (Ne.symm hne) (h hq fam hpt))
    fun he h hq fam hpt => by
      rw [he.table]
      exact h hq fam hpt

/-- A failed statement gives up what its session holds. -/
theorem move_fail : Move quiet i w (w.failStatement i) :=
  ⟨World.frame_failStatement i w, .undo rfl rfl rfl⟩

theorem hold_fail (h : Running i block w) :
    Hold i block [] (w.failStatement i) := by
  have hown : ((w.failStatement i).db .refreshTokens).own i = [] :=
    Table.own_rollback_self i _
  rcases h with ⟨hst, rfl⟩ | ⟨hst, rfl⟩ <;>
    simp [Holds, hown] <;> simp [World.failStatement, hst]

theorem move_open : Move quiet i w (w.openStatement i pt) := by
  refine ⟨World.frame_openStatement i pt w, .keep ?_ ?_ ?_⟩ <;>
    unfold World.openStatement <;> split <;> rfl

theorem tokens_open : tokens (w.openStatement i pt) = tokens w := by
  unfold World.openStatement
  split <;> rfl

theorem query_open : ((w.openStatement i pt).session i).query = some pt := by
  unfold World.openStatement
  split <;> simp [World.setSession]

/-- One visit of a revoking `UPDATE`: it locks an active row, or leaves the
table alone because the row does not qualify or is locked already. -/
theorem lock_of_visit {t t' : Tokens} {now : DateTime} {k : Nat}
    {o : Option RefreshTokenRow} (hf : FamInv t)
    (hl : Locks p done (t.own i))
    (h : t.visit i (fun r => p r && r.revokedAt.isNone)
      (RefreshTokenRow.revoke now) k = some (o, t')) :
    (o = none ∧ t' = t ∧ ∀ c r, t[k]? = some c → c.committed = some r →
        p r = true → r.revokedAt = none → c.heldBy i = true) ∨
      ∃ pre post r, t = pre ++ ⟨some r, none⟩ :: post ∧ pre.length = k ∧
        r.revokedAt = none ∧ p r = true ∧ o = some (r.revoke now) ∧
        t' = pre ++ ⟨some r, some (i, r.revoke now)⟩ :: post := by
  rcases Table.visit_cases h with ⟨ho, ht, hskip⟩ |
    ⟨pre, c, post, r, rfl, hlen, hb, hseen, hp, ho, rfl⟩
  · refine .inl ⟨ho, ht, fun c r hc hr hpr hactive => ?_⟩
    cases hheld : c.heldBy i with
    | true => rfl
    | false =>
        have hno := (hskip c r hc).2
          ((Cell.seenBy_of_not_heldBy hheld).trans hr)
        simp [hpr, hactive] at hno
  · simp only [Bool.and_eq_true, Option.isNone_iff_eq_none] at hp
    have hmem : c ∈ pre ++ c :: post := by simp
    cases hf.shape c hmem with
    | empty => cases hseen
    | plain v =>
        cases hseen
        exact .inr ⟨pre, post, r, rfl, hlen, hp.2, hp.1, ho, rfl⟩
    | locked j now' v hactive =>
        obtain rfl : j = i := by simpa using hb
        simp only [Cell.seenBy, if_true, Option.some.injEq] at hseen
        subst hseen
        simp [RefreshTokenRow.revoke] at hp
    | inserted j v hactive =>
        obtain rfl : j = i := by simpa using hb
        exact absurd rfl (hl.locked _ (Table.mem_own.mpr ⟨hmem, by simp⟩))

theorem Locks.lock {pre post : Tokens} {r : RefreshTokenRow} {now : DateTime}
    (hp : p (r.revoke now) = true)
    (h : Locks p done (Table.own i (pre ++ ⟨some r, none⟩ :: post))) :
    Locks p (done ++ [r.revoke now])
      (Table.own i (pre ++ ⟨some r, some (i, r.revoke now)⟩ :: post)) := by
  have hown : ∀ c : Cell RefreshTokenRow, Table.own i (pre ++ c :: post) =
      pre.own i ++ (if c.heldBy i = true then c :: post.own i
        else post.own i) := by
    intro c
    simp [Table.own, List.filter_append, List.filter_cons]
  rw [hown] at h ⊢
  simp only [Cell.heldBy_unlocked, Bool.false_eq_true, if_false,
    Cell.heldBy_locked, beq_self_eq_true, if_true] at h ⊢
  obtain ⟨hlocked, hrows, hq⟩ := h
  refine ⟨fun c hc => ?_, ?_, fun v hv => ?_⟩
  · simp only [List.mem_append, List.mem_cons] at hc hlocked
    rcases hc with hc | rfl | hc
    · exact hlocked c (.inl hc)
    · simp
    · exact hlocked c (.inr hc)
  · simp only [List.map_append, List.map_cons, List.map_nil,
      Option.map_some] at hrows ⊢
    exact List.perm_middle.trans
      ((hrows.cons _).trans (List.perm_append_singleton _ _).symm)
  · rcases List.mem_append.mp hv with hv | hv
    · exact hq v hv
    · rwa [List.mem_singleton.mp hv]

/-- At the end of a sweep the family is closed. -/
theorem closed_of_sweep {fam : Uuid} {t : Tokens} (hf : FamInv t)
    (hl : Locks p done (t.own i)) (hk : Known fam t)
    (hs : Sweep i fam [] t) : Closed i fam t := by
  have hend : ∀ c ∈ t, ∀ r, c.committed = some r → r.fam = fam →
      r.revokedAt = none → c.heldBy i = true := by
    intro c hc r hr hfam hactive
    obtain ⟨k, hk⟩ := List.mem_iff_getElem?.mp hc
    rcases hs k c r hk hr hfam hactive with hheld | hin
    · exact hheld
    · cases hin
  have hnofresh : ∀ c ∈ t, ¬ FreshBy i c := fun c hc hfresh =>
    hl.locked c (Table.mem_own.mpr ⟨hc, hfresh.1⟩) hfresh.2
  refine ⟨hk, fun c hc v hv hfam => ?_⟩
  cases hf.shape c hc with
  | empty => cases hv
  | plain r =>
      obtain rfl : r = v := by simpa using hv
      refine .inl ⟨rfl, r, rfl, fun hactive => ?_⟩
      cases hend _ hc r rfl hfam hactive
  | locked j now r hactive =>
      obtain rfl : r = v := by simpa using hv
      exact .inr ⟨hend _ hc r rfl hfam hactive, by simp⟩
  | inserted j r hactive =>
      obtain rfl : r = v := by simpa using hv
      have hfresh : FreshBy j ⟨none, some (j, r)⟩ := ⟨by simp, rfl⟩
      rcases hf.anchored _ hc j r hfresh rfl with ⟨d, hd, hld, u, hu, huf⟩ | honly
      · obtain ⟨x, hx⟩ := Option.ne_none_iff_exists'.mp hld.2
        obtain rfl : x = u := by simpa [Cell.row?, hx] using hu
        have hheld := hend d hd x hx (huf.trans hfam)
          ((hf.shape d hd).active_of_locked hld hx)
        obtain rfl := hld.unique ⟨hheld, hld.2⟩
        exact absurd hfresh (hnofresh _ hc)
      · obtain ⟨d, hd, u, hu, huf⟩ := hk
        have heq := honly d hd u (by simp [Cell.row?, hu]) (huf.trans hfam.symm)
        rw [heq] at hu
        cases hu

/-- A statement may complete when a new row of its session is the first of
its family. -/
theorem move_complete (h : ∀ d ∈ (tokens w).own i, d.committed = none →
      ∀ v, d.row? = some v → ¬ Known v.fam (tokens w)) :
    Move quiet i w (w.completeStatement i) := by
  refine ⟨World.frame_completeStatement i w, ?_⟩
  cases hst : (w.session i).status with
  | implicit =>
      refine .commit ?_ ?_ (.inl ?_) fun _ d hd hfresh v hv hknown =>
        absurd hknown
          (h d (Table.mem_own.mpr ⟨hd, hfresh.1⟩) hfresh.2 v hv) <;>
      simp [World.completeStatement, hst]
  | _ =>
      refine .keep ?_ ?_ ?_ <;>
      simp [World.completeStatement, hst, World.setSession]

theorem tokens_setTable {x : Tokens} :
    tokens (w.setTable .refreshTokens x) = x := by
  simp [tokens, World.setTable]

theorem Running.not_aborted (h : Running i block w) :
    (w.session i).status ≠ .aborted := by
  rcases h with h | h <;> simp [h.1]

theorem Running.open (h : Running i block w) :
    Running i block (w.openStatement i pt) := by
  rcases h with h | h <;>
    simp [Running, World.openStatement, World.setSession, h]

/-- Where the steps of a revoking `UPDATE` lead. -/
abbrev RevokeStep (quiet : Prop) (i : Nat) (block : Bool) (w w' : Srv)
    {ξ β : Type} (R : β → Srv → Prop) (r : Except ξ β) : Prop :=
  Inv quiet w' ∧ Relation.ReflTransGen (Move quiet i) w w' ∧
    exceptPost R (Held i block) r w'

theorem revoke_fail (hi : Inv quiet w) (hst : Running i block w) {ξ : Type}
    {e : ξ} {R : β → Srv → Prop} :
    RevokeStep quiet i block w (w.failStatement i) R (.error e) :=
  ⟨move_fail.inv hi, .single move_fail, [], hold_fail hst⟩

theorem revoke_start {ch : Pick} {r : Except SqlxError (List Nat)}
    (hpt : ∀ fam, pt = .revokeRefreshTokenFamily fam → p = fun r => r.fam == fam)
    (hi : Inv quiet w) (hX : Hold i block [] w)
    (hknown : ∀ fam, pt = .revokeRefreshTokenFamily fam → Known fam (tokens w))
    (hstep : updateStart pt Tbl.refreshTokens
      (fun _ (r : RefreshTokenRow) => p r && r.revokedAt.isNone) i ch w =
        some (r, w')) :
    RevokeStep quiet i block w w'
      (fun ks w => Revoking i block p [] w ∧ Sweeping quiet i pt ks w) r := by
  rcases statement_cases hstep with ⟨_, rfl, e, rfl⟩ | ⟨_, rfl, _, e, rfl⟩ |
    ⟨hst, hrun⟩
  · exact ⟨hi, .refl, [], hX⟩
  · have haway := away_failStatement hX
    exact ⟨(move_of_away haway).inv hi, .single (move_of_away haway), [],
      haway.holds⟩
  · simp only [Option.some.injEq, Prod.mk.injEq] at hrun
    obtain ⟨rfl, rfl⟩ := hrun
    have hm : Move quiet i w (w.openStatement i pt) := move_open
    have hown : (tokens w).own i = [] := by
      simp only [Holds] at hX
      cases hs : (w.session i).status <;> simp_all
    refine ⟨hm.inv hi, .single hm, ⟨?_, ?_⟩, fun hq fam hfam => ?_⟩
    · simp only [Holds] at hX
      cases hs : (w.session i).status <;>
        simp_all [Running, World.openStatement, World.setSession]
    · rw [tokens_open, hown]
      exact .nil p
    · rw [tokens_open, query_open]
      refine ⟨hknown fam hfam, rfl, fun k c v hk hv hvf hactive => ?_⟩
      have htab : (w.openStatement i pt).db .refreshTokens = tokens w :=
        tokens_open
      refine .inr (Table.mem_targets.mpr ⟨c, v, htab ▸ hk, ?_, ?_⟩)
      · rw [Cell.seenBy_of_not_heldBy, hv]
        exact Table.own_eq_nil.mp hown c (List.mem_of_getElem? hk)
      · simp [hpt fam hfam, hvf, hactive]

theorem revoke_visit {ch : Pick} {k : Nat}
    {r : Except SqlxError (Option RefreshTokenRow)}
    (hp : ∀ now r, p (RefreshTokenRow.revoke now r) = p r)
    (hpt : ∀ fam, pt = .revokeRefreshTokenFamily fam → p = fun r => r.fam == fam)
    (hi : Inv quiet w) (hrev : Revoking i block p done w)
    (hsweep : Sweeping quiet i pt (k :: ks) w)
    (hstep : updateVisit pt Tbl.refreshTokens
      (fun _ (r : RefreshTokenRow) => p r && r.revokedAt.isNone)
      RefreshTokenRow.revoke k i ch w = some (r, w')) :
    RevokeStep quiet i block w w' (fun o w =>
      Revoking i block p (done ++ o.toList) w ∧ Sweeping quiet i pt ks w) r := by
  obtain ⟨hst, hlocks⟩ := hrev
  rcases statement_cases hstep with ⟨hab, _, _⟩ | ⟨_, rfl, _, e, rfl⟩ |
    ⟨_, hrun⟩
  · exact absurd hab (Running.not_aborted hst)
  · exact revoke_fail hi hst
  · have hm₁ : Move quiet i w (w.openStatement i pt) := move_open
    have hi₁ := hm₁.inv hi
    have htab : (w.openStatement i pt).db .refreshTokens = tokens w :=
      tokens_open
    split at hrun
    · cases hrun
    · rename_i o x hvisit
      simp only [Option.some.injEq, Prod.mk.injEq] at hrun
      obtain ⟨rfl, rfl⟩ := hrun
      have hframe : World.Frame i (w.openStatement i pt)
          ((w.openStatement i pt).setTable .refreshTokens x) :=
        World.frame_setTable fun j hj => Table.same_visit (Ne.symm hj) hvisit
      rw [htab] at hvisit
      rcases lock_of_visit hi.fams hlocks hvisit with
        ⟨rfl, rfl, hskip⟩ | ⟨pre, post, v, hhere, hlen, hactive, hpv, rfl, rfl⟩
      · have hm₂ : Move quiet i (w.openStatement i pt)
            ((w.openStatement i pt).setTable .refreshTokens (tokens w)) :=
          ⟨hframe, .keep (by rw [tokens_setTable, tokens_open]) rfl rfl⟩
        refine ⟨hm₂.inv hi₁, (Relation.ReflTransGen.single hm₁).tail hm₂,
          ⟨Running.open hst, ?_⟩, fun hq fam hfam => ?_⟩
        · rw [tokens_setTable]
          simpa using hlocks
        · obtain ⟨hknown, _, hs⟩ := hsweep hq fam hfam
          rw [tokens_setTable]
          exact ⟨hknown, query_open, hs.skip fun c u hm hu huf hua =>
            hskip c u hm hu (by simp [hpt fam hfam, huf]) hua⟩
      · have hm₂ : Move quiet i (w.openStatement i pt)
            ((w.openStatement i pt).setTable .refreshTokens
              (pre ++ ⟨some v, some (i, v.revoke
                ((w.openStatement i pt).now i))⟩ :: post)) :=
          ⟨hframe, .lock pre post v _ (tokens_open.trans hhere) hactive
            tokens_setTable rfl rfl⟩
        rw [hhere] at hlocks
        refine ⟨hm₂.inv hi₁, (Relation.ReflTransGen.single hm₁).tail hm₂,
          ⟨Running.open hst, ?_⟩, fun hq fam hfam => ?_⟩
        · rw [tokens_setTable]
          exact hlocks.lock (by rw [hp]; exact hpv)
        · obtain ⟨hknown, _, hs⟩ := hsweep hq fam hfam
          have hopen : Known fam (tokens (w.openStatement i pt)) := by
            rw [tokens_open]
            exact hknown
          have hknown' := hm₂.change.known hi₁.fams hopen
          rw [hhere, ← hlen] at hs
          refine ⟨hknown', query_open, ?_⟩
          rw [tokens_setTable]
          exact hs.lock

theorem revoke_finish {ch : Pick} {r : Except SqlxError Unit}
    (hi : Inv quiet w) (hrev : Revoking i block p done w)
    (hsweep : Sweeping quiet i pt [] w)
    (hstep : updateEnd pt i ch w = some (r, w')) :
    RevokeStep quiet i block w w' (fun _ w => Revoked i block p done w ∧
      (block = true → Swept quiet i pt w)) r := by
  obtain ⟨hst, hlocks⟩ := hrev
  rcases statement_cases hstep with ⟨hab, _, _⟩ | ⟨_, rfl, _, e, rfl⟩ |
    ⟨_, hrun⟩
  · exact absurd hab (Running.not_aborted hst)
  · exact revoke_fail hi hst
  · simp only [Option.some.injEq, Prod.mk.injEq] at hrun
    obtain ⟨rfl, rfl⟩ := hrun
    have hm₁ : Move quiet i w (w.openStatement i pt) := move_open
    have hm₂ : Move quiet i (w.openStatement i pt)
        ((w.openStatement i pt).completeStatement i) :=
      move_complete fun d hd hfresh => by
        rw [tokens_open] at hd
        exact absurd hfresh (hlocks.locked d hd)
    refine ⟨hm₂.inv (hm₁.inv hi), (Relation.ReflTransGen.single hm₁).tail hm₂, ?_⟩
    rcases hst with ⟨hst, rfl⟩ | ⟨hst, rfl⟩
    · have htab : tokens ((w.openStatement i pt).completeStatement i) =
          tokens w := by
        simp [tokens, World.completeStatement, World.openStatement,
          World.setSession, hst]
      refine ⟨.inl ⟨?_, rfl, ?_⟩, fun _ hq fam hfam => ?_⟩
      · simp [World.completeStatement, World.openStatement, World.setSession, hst]
      · rw [htab]
        exact hlocks
      · obtain ⟨hknown, _, hs⟩ := hsweep hq fam hfam
        rw [htab]
        exact closed_of_sweep hi.fams hlocks hknown hs
    · refine ⟨.inr ⟨?_, rfl, ?_⟩, by simp⟩
      · simp [World.completeStatement, World.openStatement, World.setSession, hst]
      · have htab : tokens ((w.openStatement i pt).completeStatement i) =
            (tokens w).commit i := by
          simp [tokens, World.completeStatement, World.openStatement,
            World.setSession, hst]
        rw [htab]
        exact Table.own_commit_self i _

/-- **The outline of an `UPDATE` that revokes tokens.**  It starts with nothing
held; for a family's revocation, the family must be known. -/
theorem revokeWhere_outline (hp : ∀ now r, p (RefreshTokenRow.revoke now r) = p r)
    (hpt : ∀ fam, pt = .revokeRefreshTokenFamily fam → p = fun r => r.fam == fam) :
    Outline (familyLogic quiet) (Allowed quiet i) i (revokeWhere pt p).run
      (fun w => Hold i block [] w ∧
        ∀ fam, pt = .revokeRefreshTokenFamily fam → Known fam (tokens w))
      (exceptPost
        (fun done w => Revoked i block p done w ∧
          (block = true → Swept quiet i pt w))
        (Held i block)) := by
  refine Outline.update
    (fun done ks w => Revoking i block p done w ∧ Sweeping quiet i pt ks w)
    (fun _ _ => stable_revoking.and stable_sweeping)
    (fun _ => stable_revoked.and ?_) stable_held ?_ ?_ ?_
  · exact ⟨fun hne h h' hg hs hb => stable_swept.thread hne h h' hg (hs hb),
      fun h h' he hs hb => stable_swept.env h h' he (hs hb)⟩
  · exact fun hi hP hstep _ => revoke_start hpt hi hP.1 hP.2 hstep
  · exact fun hi hJ hstep _ => revoke_visit hp hpt hi hJ.1 hJ.2 hstep
  · exact fun hi hJ hstep _ => revoke_finish hi hJ.1 hJ.2 hstep

/-! ## Inserting tokens -/

theorem Entitled.of_same {r : RefreshTokenRow} (h : Entitled i w r)
    (htab : tokens w' = tokens w) (hdrawn : w'.mem.drawn = w.mem.drawn) :
    Entitled i w' r := by
  rcases h with hres | hold
  · exact .inl ⟨hdrawn ▸ hres.drawn, htab ▸ hres.unused⟩
  · exact .inr (htab ▸ hold)

/-- What the session holds after inserting a row: outside of a block, the
insertion has committed. -/
def withInserted (i : Nat) (block : Bool) (X : List (Cell RefreshTokenRow))
    (r : RefreshTokenRow) : List (Cell RefreshTokenRow) :=
  if block then X ++ [.fresh i r] else []

theorem own_insert_self (r : RefreshTokenRow) (t : Tokens) :
    (t.insert i r).own i = t.own i ++ [.fresh i r] := by
  simp [Table.own, Table.insert, List.filter_append]

/-- The row is inserted and the statement completes. -/
theorem insert_complete {r : RefreshTokenRow} (hactive : r.revokedAt = none)
    (hi : Inv quiet w) (hst : Running i block w)
    (hown : (tokens w).own i = X) (hX : block = false → X = [])
    (hent : Entitled i w r) (hhash : NewHash r.tokenHash (tokens w)) :
    RevokeStep quiet i block w
      ((w.setTable .refreshTokens ((tokens w).insert i r)).completeStatement i)
      (fun (_ : Unit) => Hold i block (withInserted i block X r))
      (.ok () : Except SqlxError Unit) := by
  have hm₁ : Move quiet i w
      (w.setTable .refreshTokens ((tokens w).insert i r)) :=
    ⟨World.frame_setTable fun j hj => Table.same_insert (Ne.symm hj) r _,
      .insert r hactive hent hhash tokens_setTable rfl rfl⟩
  have hi₁ := hm₁.inv hi
  have hown₁ : (tokens (w.setTable .refreshTokens
      ((tokens w).insert i r))).own i = X ++ [.fresh i r] := by
    rw [tokens_setTable, own_insert_self, hown]
  rcases hst with ⟨hst, rfl⟩ | ⟨hst, rfl⟩
  · have hdone : ∀ v : Srv, (v.session i).status = .explicit →
        Move quiet i v (v.completeStatement i) ∧
          Hold i true ((tokens v).own i) (v.completeStatement i) := by
      intro v hv
      refine ⟨⟨World.frame_completeStatement i v, .keep ?_ ?_ ?_⟩, ?_⟩ <;>
        simp [Holds, tokens, World.completeStatement, World.setSession, hv]
    obtain ⟨hm₂, hheld⟩ :=
      hdone (w.setTable .refreshTokens ((tokens w).insert i r)) hst
    rw [hown₁] at hheld
    exact ⟨hm₂.inv hi₁, (Relation.ReflTransGen.single hm₁).tail hm₂, hheld⟩
  · obtain rfl := hX rfl
    have hm₂ : Move quiet i (w.setTable .refreshTokens ((tokens w).insert i r))
        ((w.setTable .refreshTokens ((tokens w).insert i r)).completeStatement i) :=
      move_complete fun d hd hfresh v hv => by
        rw [hown₁, List.nil_append] at hd
        have hsame := List.mem_singleton.mp hd
        exact hi₁.fams.founded (hsame ▸ hown₁) hfresh hv
    refine ⟨hm₂.inv hi₁, (Relation.ReflTransGen.single hm₁).tail hm₂, ?_⟩
    have hv : ((w.setTable .refreshTokens
        ((tokens w).insert i r)).session i).status = .implicit := hst
    simp [exceptPost, Holds, withInserted, World.completeStatement, hv,
      Table.own_commit_self]

theorem insert_step {ch : Pick} {r : RefreshTokenRow}
    {out : Except SqlxError Unit} (hactive : r.revokedAt = none)
    (hi : Inv quiet w) (hX : Hold i block X w)
    (hent : (w.session i).status ≠ .aborted → Entitled i w r)
    (hstep : insertStep .plain Tbl.refreshTokens RefreshTokenRow.dup
      (fun _ => [r]) i ch w = some (out, w')) :
    RevokeStep quiet i block w w'
      (fun _ => Hold i block (withInserted i block X r)) out := by
  rcases statement_cases hstep with ⟨_, rfl, e, rfl⟩ | ⟨_, rfl, _, e, rfl⟩ |
    ⟨hst, hrun⟩
  · exact ⟨hi, .refl, X, hX⟩
  · have haway := away_failStatement hX
    exact ⟨(move_of_away haway).inv hi, .single (move_of_away haway), X,
      haway.holds⟩
  · have hopen := away_openStatement (p := Point.plain) hX
    have hm₁ : Move quiet i w (w.openStatement i .plain) := move_of_away hopen
    have hi₁ := hm₁.inv hi
    split at hrun
    · cases hrun
    · simp only [Option.some.injEq, Prod.mk.injEq] at hrun
      obtain ⟨rfl, rfl⟩ := hrun
      have haway := away_failStatement hopen.holds
      have hm₂ : Move quiet i _ _ := move_of_away haway
      exact ⟨hm₂.inv hi₁, (Relation.ReflTransGen.single hm₁).tail hm₂, X,
        haway.holds⟩
    · rename_i x hx
      simp only [Option.some.injEq, Prod.mk.injEq] at hrun
      obtain ⟨rfl, rfl⟩ := hrun
      obtain ⟨rfl, hblocked, hview⟩ := insertRows_one hx
      have hrunning : Running i block (w.openStatement i .plain) := by
        simp only [Holds] at hX
        cases hs : (w.session i).status <;>
          simp_all [Running, World.openStatement, World.setSession]
      have hown : (tokens (w.openStatement i .plain)).own i = X ∧
          (block = false → X = []) := by
        rw [tokens_open]
        simp only [Holds] at hX
        cases hs : (w.session i).status <;> simp_all
      have hent₁ : Entitled i (w.openStatement i .plain) r :=
        Entitled.of_same (hent hst) tokens_open (by rw [hopen.mem])
      obtain ⟨hinv, hmoves, hpost⟩ := insert_complete hactive hi₁ hrunning
        hown.1 hown.2 hent₁ (hi₁.fams.newHash hblocked hview)
      exact ⟨hinv, hmoves.head hm₁, hpost⟩

theorem createRefreshToken_outline {params : CreateRefreshTokenParams}
    {P : Srv → Prop} (hP : ∀ w, P w → Hold i block X w)
    (hent : ∀ w, P w → (w.session i).status ≠ .aborted →
      Entitled i w params.row) :
    Outline (familyLogic quiet) (Allowed quiet i) i
      (createRefreshToken params).run P
      (exceptPost
        (fun row w => row = params.row ∧
          Hold i block (withInserted i block X params.row) w)
        (Held i block)) := by
  refine Outline.except_bind
    (R := fun _ => Hold i block (withInserted i block X params.row)) ?_
    fun _ => Outline.pure fun _ _ hw => ⟨rfl, hw⟩
  exact Outline.step
    (Stable.exceptPost (fun _ => stable_hold) stable_held)
    fun hi hw hstep _ => insert_step rfl hi (hP _ hw) (hent _ hw) hstep

/-! ## Transactions -/

/-- A block that is about to commit at `pt`: a revoked family is closed, and a
new row belongs to the family the block rotates or is all it holds. -/
structure Ready (quiet : Prop) (i : Nat) (pt : Point)
    (X : List (Cell RefreshTokenRow)) (w : Srv) : Prop where
  holds : Hold i true X w
  closed : (w.session i).status = .explicit → quiet →
    ∀ fam, pt = .reuseDetected fam → Closed i fam (tokens w)
  fresh : ∀ d ∈ X, d.committed = none → ∀ v, d.row? = some v →
    pt = .rotated v.fam ∨ X = [d]

theorem stable_ready : Stable (familyLogic quiet) i (Ready quiet i pt X) where
  thread hne h h' hg hs :=
    { holds := stable_hold.thread hne h h' hg hs.holds
      closed := by
        intro hst hq fam hfam
        have hsess : Stable (familyLogic quiet) i fun v : Srv =>
            (v.session i).status = .explicit →
              Closed i fam (tokens v) :=
          stable_of_move
            (fun hne hi hm hc he => hm.change.closed hi.fams (Ne.symm hne)
              (hc (by rwa [hm.frame.session i (Ne.symm hne)] at he)))
            fun he hc hst => by
              rw [he.table]
              exact hc (by rwa [he.session] at hst)
        exact hsess.thread hne h h' hg
          (fun he => hs.closed he hq fam hfam) hst
      fresh := hs.fresh }
  env h h' he hs :=
    { holds := stable_hold.env h h' he hs.holds
      closed := by
        intro hst hq fam hfam
        rw [he.table]
        exact hs.closed (by rwa [he.session] at hst) hq fam hfam
      fresh := hs.fresh }

theorem move_rollbackTx : Move quiet i w (w.rollbackTx i) :=
  ⟨World.frame_rollbackTx i w, .undo rfl rfl rfl⟩

theorem hold_rollbackTx : Hold i false [] (w.rollbackTx i) := by
  simp [Holds, World.rollbackTx, Table.own_rollback_self]

theorem move_commitTx (hi : Inv quiet w) (h : Ready quiet i pt X w)
    (hst : (w.session i).status ≠ .aborted) (hpt : quiet → Undisturbed i pt w) :
    Move quiet i w (w.commitTx i pt) := by
  have hX := h.holds
  have hexp : (w.session i).status = .explicit ∧ (tokens w).own i = X := by
    simp only [Holds] at hX
    cases hs : (w.session i).status <;> simp_all
  refine ⟨World.frame_commitTx i pt w, .commit rfl rfl
    (.inr ⟨pt, rfl, fun hq fam hfam => h.closed hexp.1 hq fam hfam⟩) ?_⟩
  intro hq d hd hfresh v hv hknown j hj
  have hin : d ∈ X := hexp.2 ▸ Table.mem_own.mpr ⟨hd, hfresh.1⟩
  rcases h.fresh d hin hfresh.2 v hv with hrot | hone
  · exact hpt hq v.fam hrot j hj
  · exact absurd hknown (hi.fams.founded (hexp.2.trans hone) hfresh.2 hv)

theorem hold_commitTx : Hold i false [] (w.commitTx i pt) := by
  simp [Holds, World.commitTx, Table.own_commit_self]

/-- How the region of a block may end. -/
abbrev RegionPost (quiet : Prop) (i : Nat) :
    TxExit Point Stop α → Srv → Prop
  | .leave _, w => Held i true w
  | .commit pt _, w => ∃ X, Ready quiet i pt X w

/-- **The outline of a transaction block.** -/
theorem inTransaction_outline {region : Svc (TxExit Point Stop α)}
    (inside : Outline (familyLogic quiet) (Allowed quiet i) i region.run
      (Hold i true [])
      (exceptPost (RegionPost quiet i) (Held i true))) :
    Outline (familyLogic quiet) (Allowed quiet i) i (inTransaction region).run
      (Hold i false [])
      (exceptPost (fun _ => Hold i false []) (Held i false)) := by
  refine Outline.post (Q := fun _ => Hold i false [])
    (fun r w _ hw => ?_)
    (Outline.transaction (Hold i true []) _ (Held i true) stable_hold
      (fun _ => stable_hold) ?_ inside ?_ ?_)
  · cases r with
    | error e => exact ⟨[], hw⟩
    | ok a => exact hw
  · intro w w' ch r hi hX hstep _
    rcases beginStep_cases hstep with ⟨rfl, _, e, rfl⟩ | ⟨rfl, rfl⟩
    · exact ⟨hi, .refl, hX⟩
    · have hm : Move quiet i w (w.beginTx i) :=
        ⟨World.frame_setSession i _ w, .keep rfl rfl rfl⟩
      refine ⟨hm.inv hi, .single hm, ?_⟩
      simp only [Holds] at hX ⊢
      cases hs : (w.session i).status <;>
        simp_all [World.beginTx, World.setSession]
  · intro w r ch hi _ _
    exact ⟨move_rollbackTx.inv hi, .single move_rollbackTx, hold_rollbackTx⟩
  · intro w ch pt r r' w' hi hS hstep hF
    obtain ⟨X, hready⟩ := hS
    rcases commitStep_cases hstep with ⟨_, rfl, rfl⟩ | ⟨_, ⟨e, rfl⟩, _, rfl⟩ |
      ⟨hst, rfl, rfl⟩
    · exact ⟨move_rollbackTx.inv hi, .single move_rollbackTx, hold_rollbackTx⟩
    · exact ⟨move_rollbackTx.inv hi, .single move_rollbackTx, hold_rollbackTx⟩
    · have hm := move_commitTx hi hready hst hF
      exact ⟨hm.inv hi, .single hm, hold_commitTx⟩

/-! ## Calm repository and service functions -/

theorem calm_findUserById {id : Uuid} :
    (findUserById id).run.Every (Calm quiet) := calm_sql offTable_select

theorem calm_findUserByIdentifier {svc : AuthService} {kind value : String} :
    (findUserByIdentifier svc kind value).run.Every (Calm quiet) :=
  calm_sql offTable_select

theorem calm_updateLastLoginAt {id : Uuid} :
    (updateLastLoginAt id).run.Every (Calm quiet) :=
  Prog.Every.except_bind (calm_sql (offTable_update (by decide)))
    fun _ => trivial

theorem calm_createUser {name hash : String} {at' : Option DateTime} :
    (createUser name hash at').run.Every (Calm quiet) :=
  Prog.Every.except_bind (Prog.Every.lift (Prog.Every.step calm_newUuid))
    fun _ => Prog.Every.except_bind
      (Prog.Every.lift (Prog.Every.step calm_newUuid)) fun _ =>
        Prog.Every.except_bind (calm_sql (offTable_insert (by decide)))
          fun _ => trivial

theorem calm_createIdentifier {svc : AuthService} {id : Uuid}
    {kind value : String} {primary : Bool} {at' : Option DateTime} :
    (createIdentifier svc id kind value primary at').run.Every (Calm quiet) :=
  Prog.Every.except_bind (calm_sql (offTable_insert (by decide)))
    fun _ => trivial

theorem calm_recordLoginAttempt {svc : AuthService} {kind value ip : String}
    {success : Bool} {reason : Option String} :
    (recordLoginAttempt svc kind value ip success reason).run.Every
      (Calm quiet) :=
  calm_sql (offTable_insert (by decide))

theorem calm_hashPasswordAsync {svc : AuthService} {password : String} :
    (hashPasswordAsync svc password).run.Every (Calm quiet) := by
  refine Prog.Every.except_bind calm_newText fun salt => ?_
  cases svc.ext.argon2Hash salt password <;> trivial

theorem calm_verifyPasswordAsync {svc : AuthService} {password phc : String} :
    (verifyPasswordAsync svc password phc).run.Every (Calm quiet) := by
  refine Prog.Every.except_bind (Prog.Every.step
    (calm_of_same fun _ _ w _ _ hf => ⟨w.mem.graceCache, ?_⟩)) fun _ => ?_
  · split at hf <;> simp_all
  · cases svc.ext.argon2Verify password phc <;> trivial

theorem calm_issueAccessToken {svc : AuthService} {user : UserRow}
    {jkt : String} : (issueAccessToken svc user jkt).run.Every (Calm quiet) := by
  refine Prog.Every.except_bind (Prog.Every.lift calm_currentTimestamp)
    fun now => Prog.Every.except_bind
      (Prog.Every.lift (Prog.Every.step calm_newUuid)) fun jti => ?_
  split <;> trivial

theorem calm_authenticateUser {svc : AuthService}
    {kind value password ip : String} :
    (authenticateUser svc kind value password ip).run.Every (Calm quiet) := by
  refine Prog.Every.except_bind (calm_propagate calm_findUserByIdentifier)
    fun optUser => Prog.Every.except_bind calm_verifyPasswordAsync
      fun valid => ?_
  split
  · trivial
  · exact Prog.Every.except_bind (calm_ignore calm_recordLoginAttempt)
      fun _ => trivial
  · exact Prog.Every.except_bind (calm_ignore calm_recordLoginAttempt)
      fun _ => trivial

/-! ## The outlines of the calls -/

/-- A calm program in front. -/
theorem calm_bind {p : Svc α} {k : α → Svc β} {S : β → Srv → Prop}
    (hp : p.run.Every (Calm quiet))
    (rest : ∀ a, Outline (familyLogic quiet) (Allowed quiet i) i (k a).run
      (Hold i block X) (exceptPost S (Held i block))) :
    Outline (familyLogic quiet) (Allowed quiet i) i (p >>= k).run
      (Hold i block X) (exceptPost S (Held i block)) :=
  Outline.except_bind (calm_outline_fallible hp) rest

theorem propagate_outline {L : Logic Srv} {F : Point → Pick → Srv → Srv → Prop}
    {q : Repo α} {P E : Srv → Prop} {R : α → Srv → Prop}
    (h : Outline L F i q.run P (exceptPost R E)) :
    Outline L F i q.propagate.run P (exceptPost R E) := by
  refine Outline.bind (fun r => ?_) h
  cases r with
  | error e => exact fun _ _ hs => hs
  | ok a => exact fun _ _ hs => hs

/-- Of one hash at most one row is revoked. -/
theorem Locks.of_hash {hash : String} {t : Tokens} (hf : FamInv t)
    (h : Locks (fun r => r.tokenHash == hash) done (t.own i)) :
    (done = [] ∧ t.own i = []) ∨ ∃ row c old, done = [row] ∧ t.own i = [c] ∧
      c.committed = some old ∧ SameToken old row := by
  have hrow : ∀ c ∈ t.own i, ∃ old row, c.committed = some old ∧
      c.row? = some old ∧ c.pending.map Prod.snd = some row ∧ row ∈ done ∧
        SameToken old row := by
    intro c hc
    have hin := h.rows.subset (List.mem_map_of_mem hc)
    obtain ⟨row, hdone, hrow⟩ := List.mem_map.mp hin
    cases hf.shape c (Table.mem_own.mp hc).1 with
    | empty => exact absurd rfl (h.locked _ hc)
    | plain r => cases hrow
    | locked j now r hactive =>
        cases hrow
        exact ⟨r, _, rfl, rfl, rfl, hdone, .revoke now r⟩
    | inserted j r hactive => exact absurd rfl (h.locked _ hc)
  have hlen : (t.own i).length = done.length := by
    simpa using h.rows.length_eq
  have horder : (t.own i).Pairwise Before := hf.order.filter _
  rcases howns : t.own i with _ | ⟨c, _ | ⟨d, rest⟩⟩
  · rw [howns] at hlen
    exact .inl ⟨List.length_eq_zero_iff.mp hlen.symm, rfl⟩
  · rw [howns] at hlen hrow
    obtain ⟨old, row, hold, _, _, hin, hsame⟩ := hrow c (List.mem_singleton_self c)
    obtain ⟨x, rfl⟩ := List.length_eq_one_iff.mp hlen.symm
    exact .inr ⟨row, c, old, by rw [List.mem_singleton.mp hin], rfl, hold, hsame⟩
  · rw [howns] at hrow horder
    obtain ⟨old, row, _, hold, _, hin, hsame⟩ := hrow c (by simp)
    obtain ⟨old', row', _, hold', _, hin', hsame'⟩ := hrow d (by simp)
    have hbefore := (List.pairwise_cons.mp horder).1 d (by simp)
    have h₁ : row.tokenHash = hash := by simpa using h.qualify row hin
    have h₂ : row'.tokenHash = hash := by simpa using h.qualify row' hin'
    refine absurd ?_ (hbefore old old' hold hold').1
    rw [← hsame.tokenHash, ← hsame'.tokenHash, h₁, h₂]

/-- What the compare-and-swap of `refresh` leaves behind. -/
def Swapped (i : Nat) : Option RefreshTokenRow → Srv → Prop
  | none, w => Hold i true [] w
  | some row, w => ∃ c old, (c.committed = some old ∧ SameToken old row) ∧
      Hold i true [c] w

theorem revokeRefreshTokenIfActive_outline {hash : String} :
    Outline (familyLogic quiet) (Allowed quiet i) i
      (revokeRefreshTokenIfActive hash).run (Hold i true [])
      (exceptPost (Swapped i) (Held i true)) := by
  refine Outline.except_bind ((revokeWhere_outline (fun _ _ => rfl)
    (fun _ h => by cases h)).weaken fun _ _ hX => ⟨hX, fun _ h => by cases h⟩)
    fun rows => Outline.pure fun w hi hw => ?_
  rcases hw.1 with ⟨hst, _, hlocks⟩ | ⟨_, hfalse, _⟩
  · rcases hlocks.of_hash (FamilyProtocol.Inv.fams hi) with
      ⟨rfl, hown⟩ | ⟨row, c, old, rfl, hown, hold, hsame⟩
    · exact (by simp [Holds, hst, hown] : Hold i true [] w)
    · exact ⟨c, old, ⟨hold, hsame⟩, by simp [Holds, hst, hown]⟩
  · cases hfalse

theorem findRefreshTokenByHash_outline {hash : String} :
    Outline (familyLogic quiet) (Allowed quiet i) i
      (findRefreshTokenByHash hash).run (Hold i true [])
      (exceptPost (fun o w => Hold i true [] w ∧
        ∀ r, o = some r → Known r.fam (tokens w)) (Held i true)) := by
  refine Outline.step (Stable.exceptPost (fun o => stable_hold.and
    (.forall fun r => .forall fun _ => stable_known)) stable_held)
    fun {w ch o w'} hi hX hstep _ => ?_
  rcases statement_cases hstep with ⟨_, rfl, e, rfl⟩ | ⟨_, rfl, _, e, rfl⟩ |
    ⟨hst, hrun⟩
  · exact ⟨hi, .refl, [], hX⟩
  · have haway := away_failStatement hX
    exact ⟨(move_of_away haway).inv hi, .single (move_of_away haway), [],
      haway.holds⟩
  · simp only [Option.some.injEq, Prod.mk.injEq] at hrun
    obtain ⟨rfl, rfl⟩ := hrun
    have hopen := away_openStatement (p := Point.plain) hX
    have hdone := hopen.trans (away_completeStatement hopen.holds)
    have hm : Move quiet i _ _ := move_of_away hdone
    refine ⟨hm.inv hi, .single hm, hdone.holds, fun r hr => ?_⟩
    have hown : (tokens w).own i = [] := by
      simp only [Holds] at hX
      cases hs : (w.session i).status <;> simp_all
    have hin : r ∈ (tokens (w.openStatement i .plain)).view i :=
      List.mem_of_find?_eq_some hr
    rw [tokens_open, Table.view_of_own_nil hown] at hin
    obtain ⟨c, hc, hcr⟩ := Table.mem_rows.mp hin
    exact hm.change.known (FamilyProtocol.Inv.fams hi) ⟨c, hc, r, hcr, rfl⟩

/-- Reading the grace cache disturbs nothing. -/
theorem graceGet_outline {svc : AuthService} {key : Uuid × String}
    {P : Srv → Prop} (hP : Stable (familyLogic quiet) i P) :
    Outline (familyLogic quiet) (Allowed quiet i) i (graceGet svc key) P
      fun _ => P := by
  refine Outline.step (fun _ => hP) fun hi hw hstep _ => ?_
  simp only [Option.some.injEq, Prod.mk.injEq] at hstep
  obtain ⟨_, rfl⟩ := hstep
  exact ⟨hi, .refl, hw⟩

theorem refreshRevoked_outline {svc : AuthService} {hash : String} :
    Outline (familyLogic quiet) (Allowed quiet i) i
      (refreshRevoked svc hash).run (Hold i true [])
      (exceptPost (RegionPost quiet i) (Held i true)) := by
  refine Outline.except_bind
    (propagate_outline findRefreshTokenByHash_outline) fun o => ?_
  cases o with
  | none => exact Outline.throw fun w _ hw => ⟨[], hw.1⟩
  | some existing =>
      refine Outline.except_bind (Outline.lift (graceGet_outline
        (stable_hold.and (.forall fun r => .forall fun _ => stable_known))))
        fun cached => ?_
      cases cached with
      | some cached => exact Outline.pure fun w _ hw => ⟨[], hw.1⟩
      | none =>
          refine Outline.except_bind (propagate_outline
            (Outline.except_bind ((revokeWhere_outline (fun _ _ => rfl)
              (fun fam h => by cases h; rfl)).weaken
                fun w _ hw => ⟨hw.1, fun fam h => by
                  cases h
                  exact hw.2 existing rfl⟩)
              (S := fun _ w => ∃ X, Ready quiet i
                (.reuseDetected existing.fam) X w)
              fun rows => Outline.pure fun w hi hw => ?_))
            fun _ => Outline.pure fun w _ hw => hw
          obtain ⟨⟨hst, _, hlocks⟩ | ⟨_, hfalse, _⟩, hswept⟩ := hw
          · refine ⟨(tokens w).own i, by simp [Holds, hst], fun _ hq fam h => ?_,
              fun d hd hfresh => absurd hfresh (hlocks.locked d hd)⟩
            cases h
            exact hswept rfl hq _ rfl
          · cases hfalse

theorem refreshActive_outline {svc : AuthService} {hash jkt : String}
    {ua : Option String} {row : RefreshTokenRow} :
    Outline (familyLogic quiet) (Allowed quiet i) i
      (refreshActive svc hash jkt ua row).run (Swapped i (some row))
      (exceptPost (RegionPost quiet i) (Held i true)) := by
  refine Outline.of_exists fun c => Outline.of_exists fun old =>
    Outline.of_prop fun ⟨hold, hsame⟩ => ?_
  refine calm_bind (Prog.Every.lift calm_utcNow) fun now => ?_
  split
  · exact Outline.throw fun w _ hw => ⟨[c], hw⟩
  split
  · exact Outline.throw fun w _ hw => ⟨[c], hw⟩
  rename_i hjkt
  refine calm_bind (calm_propagate calm_findUserById) fun user => ?_
  cases user with
  | none => exact Outline.throw fun w _ hw => ⟨[c], hw⟩
  | some user =>
      refine calm_bind calm_newText fun secret => ?_
      refine Outline.except_bind (propagate_outline
        (createRefreshToken_outline (fun w hw => hw) fun w hw hst => ?_))
        fun new => Outline.of_prop fun _ => ?_
      · refine .inr ⟨c, old, ?_, hold, hsame.fam, hsame.session.1, ?_,
          hsame.session.3⟩
        · simp only [Holds] at hw
          cases hs : (w.session i).status <;> simp_all
        · rw [← hsame.session.2]
          exact (not_ne_iff.mp hjkt).symm
      · refine calm_bind calm_issueAccessToken fun access => ?_
        refine calm_bind (Prog.Every.lift calm_graceInsert) fun _ => ?_
        refine Outline.pure fun w _ hw => ⟨_, hw, fun _ _ fam h => (by cases h), ?_⟩
        intro d hd hfresh v hv
        rcases List.mem_append.mp hd with hd | hd
        · rw [List.mem_singleton.mp hd, hold] at hfresh
          cases hfresh
        · rw [List.mem_singleton.mp hd] at hv
          cases hv
          exact .inl rfl

theorem refresh_outline {svc : AuthService} {rt jkt : String}
    {ua : Option String} :
    Outline (familyLogic quiet) (Allowed quiet i) i
      (refresh svc rt jkt ua).run (Hold i false [])
      (exceptPost (fun _ => Hold i false []) (Held i false)) := by
  refine inTransaction_outline (Outline.except_bind
    (propagate_outline revokeRefreshTokenIfActive_outline) fun o => ?_)
  cases o with
  | none => exact refreshRevoked_outline
  | some row => exact refreshActive_outline

/-- A token of a family drawn just before. -/
theorem found_outline {params : CreateRefreshTokenParams} :
    Outline (familyLogic quiet) (Allowed quiet i) i
      (createRefreshToken params).propagate.run
      (fun w => Hold i block [] w ∧ Reserved i params.fam w)
      (exceptPost (fun _ => Hold i block (withInserted i block [] params.row))
        (Held i block)) :=
  propagate_outline ((createRefreshToken_outline (fun _ hw => hw.1)
    fun _ hw _ => .inl hw.2).post fun r _ _ hw => by
      cases r with
      | error e => exact hw
      | ok row => exact hw.2)

/-- A fresh identifier is reserved for its thread. -/
theorem newUuid_outline :
    Outline (familyLogic quiet) (Allowed quiet i) i newUuid (Hold i block X)
      fun fam w => Hold i block X w ∧ Reserved i fam w := by
  refine Outline.step (fun fam => stable_hold.and stable_reserved)
    fun {w ch fam w'} hi hX hstep _ => ?_
  have hcalm : Calm quiet newUuidStep := calm_newUuid
  obtain ⟨hm, hX'⟩ := hcalm hstep hX
  refine ⟨hm.inv hi, .single hm, hX', ?_⟩
  unfold newUuidStep at hstep
  split at hstep
  · rename_i v
    split at hstep
    · cases hstep
    · rename_i hunseen
      simp only [Option.some.injEq, Prod.mk.injEq] at hstep
      obtain ⟨rfl, rfl⟩ := hstep
      refine ⟨List.mem_cons_self, fun c hc r hr hfam => hunseen ?_⟩
      obtain ⟨d, hd, hdr⟩ := List.mem_map.mp
        (FamilyProtocol.Inv.covered hi c hc r hr)
      exact List.any_eq_true.mpr ⟨d, hd, by simp [hdr, hfam]⟩
  · cases hstep

theorem refreshExpiry_outline {svc : AuthService} {P : Srv → Prop}
    (hP : Stable (familyLogic quiet) i P) (hheld : ∀ w, P w → Held i block w) :
    Outline (familyLogic quiet) (Allowed quiet i) i (refreshExpiry svc).run P
      (exceptPost (fun _ => P) (Held i block)) := by
  refine Outline.except_bind (R := fun _ => P) (Outline.lift
    (Outline.step (fun _ => hP) fun {w ch t w'} hi hw hstep _ => ?_))
    fun now => ?_
  · simp only [Option.some.injEq, Prod.mk.injEq] at hstep
    obtain ⟨_, rfl⟩ := hstep
    exact ⟨hi, .refl, hw⟩
  · split
    · exact Outline.pure fun _ _ hw => hw
    · exact Outline.throw fun w _ hw => hheld w hw

theorem issueSession_outline {svc : AuthService} {user : UserRow}
    {jkt : String} {ua : Option String} :
    Outline (familyLogic quiet) (Allowed quiet i) i
      (issueSession svc user jkt ua).run (Hold i false [])
      (exceptPost (fun _ => Hold i false []) (Held i false)) := by
  refine calm_bind calm_newText fun secret => ?_
  refine Outline.except_bind (Outline.lift newUuid_outline) fun fam => ?_
  refine Outline.except_bind (refreshExpiry_outline
    (stable_hold.and stable_reserved) fun w hw => ⟨[], hw.1⟩) fun expiry => ?_
  refine Outline.except_bind found_outline fun _ => ?_
  exact calm_bind calm_issueAccessToken fun _ => Outline.pure fun _ _ hw => hw

theorem registerTx_outline {svc : AuthService} {params : RegisterParams}
    {hash : String} :
    Outline (familyLogic quiet) (Allowed quiet i) i
      (registerTx svc params hash).run (Hold i true [])
      (exceptPost (RegionPost quiet i) (Held i true)) := by
  refine calm_bind (Prog.Every.lift calm_utcNow) fun changedAt => ?_
  refine calm_bind (calm_propagate calm_createUser) fun user => ?_
  refine calm_bind (Prog.Every.lift calm_utcNow) fun verifiedAt => ?_
  refine calm_bind (Prog.Every.bind (fun r => ?_) calm_createIdentifier)
    fun _ => ?_
  · cases r <;> trivial
  refine calm_bind (calm_propagate calm_updateLastLoginAt) fun _ => ?_
  refine calm_bind calm_newText fun secret => ?_
  refine Outline.except_bind (Outline.lift newUuid_outline) fun fam => ?_
  refine Outline.except_bind (refreshExpiry_outline
    (stable_hold.and stable_reserved) fun w hw => ⟨[], hw.1⟩) fun expiry => ?_
  refine Outline.except_bind found_outline fun _ => ?_
  refine calm_bind (calm_ignore calm_recordLoginAttempt) fun _ => ?_
  refine Outline.pure fun w _ hw => ⟨_, hw, fun _ _ fam h => (by cases h), ?_⟩
  intro d hd _ v _
  exact .inr (by rw [List.mem_singleton.mp hd]; rfl)

theorem register_outline {svc : AuthService} {params : RegisterParams} :
    Outline (familyLogic quiet) (Allowed quiet i) i
      (register svc params).run (Hold i false [])
      (exceptPost (fun _ => Hold i false []) (Held i false)) := by
  unfold register
  split
  · exact Outline.throw fun w _ hw => ⟨[], hw⟩
  · refine calm_bind calm_hashPasswordAsync fun hash => ?_
    refine Outline.except_bind (inTransaction_outline registerTx_outline)
      fun res => ?_
    exact calm_bind calm_issueAccessToken fun _ => Outline.pure fun _ _ hw => hw

theorem login_outline {svc : AuthService}
    {kind value password jkt ip : String} {ua : Option String} :
    Outline (familyLogic quiet) (Allowed quiet i) i
      (login svc kind value password jkt ip ua).run (Hold i false [])
      (exceptPost (fun _ => Hold i false []) (Held i false)) := by
  refine calm_bind calm_authenticateUser fun user => ?_
  split
  · exact Outline.pure fun _ _ hw => hw
  · refine calm_bind (calm_ignore calm_updateLastLoginAt) fun _ => ?_
    refine calm_bind (calm_ignore calm_recordLoginAttempt) fun _ => ?_
    exact Outline.except_bind issueSession_outline
      fun _ => Outline.pure fun _ _ hw => hw

theorem logout_outline {svc : AuthService} {rt : String} :
    Outline (familyLogic quiet) (Allowed quiet i) i
      (logout svc rt).run (Hold i false [])
      (exceptPost (fun _ => Hold i false []) (Held i false)) := by
  refine propagate_outline (Outline.except_bind ((revokeWhere_outline
    (fun _ _ => rfl) (fun _ h => by cases h)).weaken
      fun _ _ hX => ⟨hX, fun _ h => by cases h⟩)
    fun rows => Outline.pure fun w _ hw => ?_)
  rcases hw.1 with ⟨_, hfalse, _⟩ | ⟨hst, _, hown⟩
  · cases hfalse
  · simp [Holds, hst, hown]

/-- An answer that is wrapped up. -/
theorem map_outline {p : Svc α} {f : α → β}
    (h : Outline (familyLogic quiet) (Allowed quiet i) i p.run
      (Hold i false [])
      (exceptPost (fun _ => Hold i false []) (Held i false))) :
    Outline (familyLogic quiet) (Allowed quiet i) i (f <$> p).run
      (Hold i false []) fun _ _ => True :=
  (Outline.except_map (R := fun _ => Hold i false []) h).post
    fun _ _ _ _ => trivial

/-- **Every call follows the protocol.** -/
theorem call_outline {svc : AuthService} {q : Call} :
    Outline (familyLogic quiet) (Allowed quiet i) i (q.body svc)
      (Hold i false []) fun _ _ => True := by
  cases q with
  | register params => exact map_outline register_outline
  | login kind value password jkt ip ua => exact map_outline login_outline
  | refresh rt jkt ua => exact map_outline refresh_outline
  | logout rt => exact map_outline logout_outline

/-! ## Runs -/

theorem Elsewhere.inv (he : Elsewhere w w') (hi : Inv quiet w) :
    Inv quiet w' where
  fams := he.table ▸ hi.fams
  drawn := he.ledger ▸ hi.drawn
  covered := by
    rw [he.table, he.ledger]
    exact hi.covered
  reuse := by
    rw [he.record, he.table]
    exact hi.reuse

theorem own_softDelete (id : Uuid) (now : DateTime) (t : Table UserRow) :
    (softDelete id now t).own j = t.own j := by
  induction t with
  | nil => rfl
  | cons c t ih =>
      obtain ⟨_ | u, _ | v⟩ := c
      all_goals simp only [softDelete, Table.own, List.map_cons,
        List.filter_cons] at ih ⊢
      all_goals rw [ih]
      by_cases hid : u.id == id <;> simp [hid]

theorem elsewhere_of_effect {e : Outside} (h : e.effect w = some w') :
    Elsewhere w w' := by
  cases e with
  | tick d =>
      cases h
      exact ⟨rfl, rfl, rfl, rfl, fun _ _ => rfl⟩
  | deleteUser id =>
      cases h
      refine ⟨rfl, rfl, rfl, rfl, fun j t => ?_⟩
      cases t with
      | users => exact own_softDelete id w.clock _
      | _ => rfl
  | evict key =>
      cases h
      exact ⟨rfl, rfl, rfl, rfl, fun _ _ => rfl⟩

theorem inv_initial {clock : DateTime} : Inv quiet (initial clock) where
  fams := FamInv.empty
  drawn := List.nodup_nil
  covered _ hc := absurd hc List.not_mem_nil
  reuse _ _ _ _ h := by cases h

theorem resting_initial {clock : DateTime} : Resting i false (initial clock) :=
  ⟨rfl, rfl, fun _ => rfl⟩

theorem stable_resting : Stable (familyLogic quiet) i (Resting i block) :=
  stable_of_move (fun hne _ hm h => Resting.frame hne hm.frame h)
    fun he h => by
      simp only [Resting, he.session, he.held]
      exact h

theorem hold_resting (h : Resting i false w) : Hold i false [] w := by
  simp only [Resting] at h
  cases hst : (w.session i).status <;> simp_all [Holds]

variable {svc : AuthService} {clock : DateTime}
  {c d : AuthConfig}

/-- The invariant holds, unused thread numbers rest, and every thread stands at
its outline. -/
abbrev FamilyGood (quiet : Prop) (c : AuthConfig) : Prop :=
  Good (familyLogic quiet) (calmRuns quiet (ε := Outside))
    (fun i => Resting i false) (fun _ _ _ _ => True) c

theorem body_good {q : Call} :
    Outline (familyLogic quiet) ((calmRuns quiet (ε := Outside)).run i q) i
      ((authSystem svc).body q) (Resting i false) fun _ _ => True :=
  call_outline.weaken fun _ _ hw => hold_resting hw

theorem cancel_good {q : Call} (hi : Inv quiet w)
    (_ : (calmRuns quiet (ε := Outside)).cancel i q) :
    Inv quiet ((authSystem svc).cancel i w) ∧
      Relation.ReflTransGen (Move quiet i) w ((authSystem svc).cancel i w) ∧
        Resting i false ((authSystem svc).cancel i w) :=
  ⟨move_rollbackTx.inv hi, .single move_rollbackTx, resting_rollbackTx⟩

theorem env_good {e : Outside} (hi : Inv quiet w)
    (he : (authSystem svc).env e w = some w')
    (_ : (calmRuns quiet (ι := Call)).env e w w') :
    Inv quiet w' ∧ Elsewhere w w' :=
  ⟨(elsewhere_of_effect he).inv hi, elsewhere_of_effect he⟩

/-- A configuration reached from a good one is good. -/
theorem good_of_good (hc : FamilyGood quiet c)
    (h : (authSystem svc).Reaches (calmRuns quiet) c d) : FamilyGood quiet d :=
  sound (fun _ => stable_resting) (fun _ _ => body_good)
    cancel_good env_good hc h

/-- **Every reachable configuration is good.** -/
theorem good_of_reaches
    (h : (authSystem svc).Reaches (calmRuns quiet) (.start (initial clock)) c) :
    FamilyGood quiet c :=
  good_of_good (.start inv_initial fun _ => resting_initial) h

/-- A transitive relation that moves respect, and that looks at the tokens
only, holds along every run. -/
theorem along_run {R : Srv → Srv → Prop}
    (hsame : ∀ {w w'}, Elsewhere w w' → R w w')
    (htrans : ∀ {w w' w''}, R w w' → R w' w'' → R w w'')
    (hmove : ∀ {i w w'}, Inv quiet w → Move quiet i w w' → R w w')
    (hc : FamilyGood quiet c)
    (h : (authSystem svc).Reaches (calmRuns quiet) c d) :
    R c.shared d.shared := by
  have hrefl : ∀ w, R w w := fun w => hsame (.refl w)
  exact sound_trans (fun _ => stable_resting) (fun _ _ => body_good)
    cancel_good env_good hrefl htrans (fun {i w w'} hi _ hg =>
      (moves_keep (P := R w) (fun hi hm hR => htrans hR (hmove hi hm)) hi hg
        (hrefl w)).2) (fun _ _ he => hsame he) hc h

end DpopAuth.Ports.FamilyOutlines
