import DpopAuth.Ports.Registration
import DpopAuth.Ports.SessionRuns

/-!
# The secrets in the grace cache

`refresh` writes the grace cache inside of its transaction, before `COMMIT`.
So the cache may hold the secret of a row that is not committed yet, and, if
the `COMMIT` fails or the call is dropped in front of it, of a row that never
will be.

Where that does not happen, every entry is backed (`Backed`): the row it holds
the secret of is committed, or it stands in an open transaction.  What a call
needs to know is that an entry is never backed by its own transaction alone
(`Clear`), unless it is about to commit; then nothing it rolls back leaves an
entry behind.  Two open transactions cannot both have inserted a row with the
same hash, and so no call can disturb another here.

## Main results

* `backed_of_reaches` — the invariant.
* `refresh_leaves_no_trace` — a refresh that fails.
* `failed_commit_leaves_entry` — where a `COMMIT` of a rotation fails.
-/

namespace DpopAuth.Ports.GraceSecrets

open DpopAuth.Verified.Resumption
open DpopAuth.Verified.RelyGuarantee
open DpopAuth.Verified.RowVersions
open DpopAuth.Verified.RowHistories
open DpopAuth.Verified.UniqueIndex
open DpopAuth.Verified.BlockDrafts
open DpopAuth.Verified.Transactions
open DpopAuth.Verified.TransactionRules
open DpopAuth.Verified.Traces
open DpopAuth.Verified.TtlCache
open DpopAuth.Ports.Schema
open DpopAuth.Ports.Token
open DpopAuth.Ports.Service
open DpopAuth.Ports.Repo
open DpopAuth.Ports.Auth
open DpopAuth.Ports.FamilyProtocol (tokens Tokens)
open DpopAuth.Ports.FamilyOutlines (elsewhere_of_effect propagate_outline)
open DpopAuth.Ports.RefreshFailure
open DpopAuth.Ports.Registration

variable {svc : AuthService} {q : Call} {i j : Nat} {w w' : Srv} {α : Type}

/-! ## What backs an entry -/

/-- An entry of the grace cache. -/
abbrev GraceEntry := Entry (Uuid × String) ReplacementTokens

/-- The row stores the secret of the entry, in the family of the entry. -/
def Stores (svc : AuthService) (e : GraceEntry) (r : RefreshTokenRow) : Prop :=
  r.tokenHash = svc.hashToken e.value.refreshToken ∧ r.fam = e.key.1

/-- A version of the token that an entry answers. -/
abbrev spent (hash : String) : Σ t, Row t → Prop :=
  ⟨.refreshTokens, fun r => r.tokenHash = hash⟩

/-- Such a row is committed, or written by a transaction in `K` that also holds
the row of the token the entry answers. -/
def BackedBy (svc : AuthService) (K : Nat → Prop) (e : GraceEntry) (w : Srv) :
    Prop :=
  ∃ c ∈ tokens w, ∃ r, Stores svc e r ∧
    (c.committed = some r ∨ ∃ k, K k ∧ c.pending = some (k, r) ∧
      Wrote k (spent e.key.2).1 (spent e.key.2).2 w)

/-- **Every entry is backed.** -/
def Backed (svc : AuthService) (w : Srv) : Prop :=
  ∀ e ∈ w.mem.graceCache, BackedBy svc (fun _ => True) e w

/-- No entry is backed by thread `i` alone. -/
def Clear (svc : AuthService) (i : Nat) (w : Srv) : Prop :=
  ∀ e ∈ w.mem.graceCache, BackedBy svc (fun k => k ≠ i) e w

/-- The cache holds the secret of a row that thread `i` has inserted and not
committed. -/
def Exposed (svc : AuthService) (i : Nat) (w : Srv) : Prop :=
  ∃ e ∈ w.mem.graceCache, ∃ c ∈ tokens w, ∃ r, Stores svc e r ∧
    c.committed = none ∧ c.pending = some (i, r)

/-- Each refresh token in the grace cache is the secret of a committed row of
the entry's family. -/
def Stored (svc : AuthService) (w : Srv) : Prop :=
  ∀ e ∈ w.mem.graceCache, ∃ r ∈ (tokens w).rows, Stores svc e r

variable {e : GraceEntry} {K K' : Nat → Prop}

theorem Stores.same {r v : RefreshTokenRow} (h : Stores svc e r)
    (hsame : SameRow .refreshTokens r v) : Stores svc e v :=
  ⟨hsame.tokenHash.trans h.1, hsame.fam.trans h.2⟩

theorem BackedBy.mono (hK : ∀ k, K k → K' k) (h : BackedBy svc K e w) :
    BackedBy svc K' e w := by
  obtain ⟨c, hc, r, hr, hcommitted | ⟨k, hk, hpending, hspent⟩⟩ := h
  · exact ⟨c, hc, r, hr, .inl hcommitted⟩
  · exact ⟨c, hc, r, hr, .inr ⟨k, hK k hk, hpending, hspent⟩⟩

theorem Clear.backed (h : Clear svc i w) : Backed svc w :=
  fun e he => (h e he).mono fun _ _ => trivial

theorem backedBy_of_committed (hw : Evolves SameRow w w') {c : Cell RefreshTokenRow}
    (hc : c ∈ tokens w) {r : RefreshTokenRow} (hr : Stores svc e r)
    (hcommitted : c.committed = some r) : BackedBy svc K e w' := by
  obtain ⟨l, hl⟩ := List.mem_iff_getElem?.mp hc
  obtain ⟨v, hv, hsame⟩ :=
    hw .refreshTokens l r (committedAt_eq.mpr ⟨c, hl, hcommitted⟩)
  obtain ⟨d, hd, hdv⟩ := committedAt_eq.mp hv
  exact ⟨d, List.mem_of_getElem? hd, v, hr.same hsame, .inl hdv⟩

/-- A row stays pending while others take steps. -/
theorem pending_stays (hf : w.Frame j w') {k : Nat} (hne : k ≠ j)
    {c : Cell RefreshTokenRow} {r : RefreshTokenRow}
    (hpending : c.pending = some (k, r)) : c ∈ tokens w ↔ c ∈ tokens w' := by
  have hheld : c.heldBy k = true := by simp [Cell.heldBy, hpending]
  have hsame := hf.held k hne .refreshTokens
  constructor
  · intro hc
    obtain ⟨l, hl⟩ := List.mem_iff_getElem?.mp hc
    exact List.mem_of_getElem? ((hsame l c hheld).mp hl)
  · intro hc
    obtain ⟨l, hl⟩ := List.mem_iff_getElem?.mp hc
    exact List.mem_of_getElem? ((hsame l c hheld).mpr hl)

theorem BackedBy.same (htokens : tokens w' = tokens w) (h : BackedBy svc K e w) :
    BackedBy svc K e w' := by
  obtain ⟨c, hc, r, hr, hcommitted | ⟨k, hk, hpending, hspent⟩⟩ := h
  · exact ⟨c, htokens.symm ▸ hc, r, hr, .inl hcommitted⟩
  · exact ⟨c, htokens.symm ▸ hc, r, hr,
      .inr ⟨k, hk, hpending, hspent.same htokens⟩⟩

/-- A step of thread `j` leaves what others have backed. -/
theorem BackedBy.move (hm : Registration.Move j w w') (hK : ∀ k, K k → k ≠ j)
    (h : BackedBy svc K e w) : BackedBy svc K e w' := by
  obtain ⟨c, hc, r, hr, hcommitted | ⟨k, hk, hpending, hspent⟩⟩ := h
  · exact backedBy_of_committed hm.evolves hc hr hcommitted
  · exact ⟨c, (pending_stays hm.frame (hK k hk) hpending).mp hc, r, hr,
      .inr ⟨k, hk, hpending, hspent.frame (hK k hk).symm hm.frame⟩⟩

/-- A step of thread `i` itself. -/
theorem Clear.move (hm : Registration.Move i w w')
    (hcache : ∀ e ∈ w'.mem.graceCache, e ∈ w.mem.graceCache)
    (h : Clear svc i w) : Clear svc i w' :=
  fun e he => (h e (hcache e he)).move hm fun _ hk => hk

/-- Two open transactions have not inserted the same hash. -/
theorem inserted_once {x : Tokens} (hx : Unique RefreshTokenRow.dup x)
    {c d : Cell RefreshTokenRow} (hc : c ∈ x) (hd : d ∈ x)
    {r v : RefreshTokenRow} (hr : c.pending = some (i, r))
    (hv : d.pending = some (j, v)) (hhash : r.tokenHash = v.tokenHash) :
    i = j := by
  by_contra hne
  have hcd : c ≠ d := by
    intro heq
    rw [heq, hv] at hr
    cases hr
    exact hne rfl
  have hout : outcome (fun _ => true) c = some r ∧
      outcome (fun _ => true) d = some v := by simp [outcome, hr, hv]
  have hpairs : x.Pairwise fun c d =>
      Apart RefreshTokenRow.dup c d ∨ Apart RefreshTokenRow.dup d c :=
    hx.imp Or.inl
  have hsymm : Std.Symm fun c d : Cell RefreshTokenRow =>
      Apart RefreshTokenRow.dup c d ∨ Apart RefreshTokenRow.dup d c :=
    ⟨fun _ _ h => h.symm⟩
  have hapart := hpairs.forall hc hd hcd
  have hdup : RefreshTokenRow.dup r v = true ∧ RefreshTokenRow.dup v r = true := by
    simp [RefreshTokenRow.dup, hhash]
  rcases hapart with h | h
  · rw [h _ r v hout.1 hout.2] at hdup
    exact Bool.false_ne_true hdup.1
  · rw [h _ v r hout.2 hout.1] at hdup
    exact Bool.false_ne_true hdup.2

/-- A backed entry that is not exposed by thread `i` is backed by others. -/
theorem clear_of_unexposed (hw : Accounts svc w) (hbacked : Backed svc w)
    (h : ¬ Exposed svc i w) : Clear svc i w := by
  intro e he
  obtain ⟨c, hc, r, hr, hcommitted | ⟨k, -, hpending, hspent⟩⟩ := hbacked e he
  · exact ⟨c, hc, r, hr, .inl hcommitted⟩
  · by_cases hki : k = i
    · subst hki
      cases hold : c.committed with
      | none => exact absurd ⟨e, he, c, hc, r, hr, hold, hpending⟩ h
      | some old =>
          have hsame : SameRow .refreshTokens old r :=
            hw.linked.links .refreshTokens c hc old hold k r hpending
          refine ⟨c, hc, old, ⟨?_, ?_⟩, .inl hold⟩
          · exact hsame.tokenHash.symm.trans hr.1
          · exact hsame.fam.symm.trans hr.2
    · exact ⟨c, hc, r, hr, .inr ⟨k, hki, hpending, hspent⟩⟩

/-- With no transaction in between, every secret is stored. -/
theorem stored_of_backed (hw : Accounts svc w) (hbacked : Backed svc w)
    (h : ∀ i, ¬ Exposed svc i w) : Stored svc w := by
  intro e he
  obtain ⟨c, hc, r, hr, hcommitted | ⟨k, -, hpending, -⟩⟩ := hbacked e he
  · exact ⟨r, Table.mem_rows.mpr ⟨c, hc, hcommitted⟩, hr⟩
  · obtain ⟨d, hd, v, hv, hcommitted | ⟨l, hl, hpending', -⟩⟩ :=
      clear_of_unexposed hw hbacked (h k) e he
    · exact ⟨v, Table.mem_rows.mpr ⟨d, hd, hcommitted⟩, hv⟩
    · exact absurd (inserted_once (hw.indexed .refreshTokens) hd hc hpending'
        hpending (hv.1.trans hr.1.symm)) hl

/-! ## The logic -/

/-- What the calls do to the cache and to what backs it. -/
def secretsLogic (svc : AuthService) : Logic Srv where
  inv w := Accounts svc w ∧ Backed svc w
  guar i w w' := Registration.Move i w w' ∧ ∀ e ∈ w'.mem.graceCache,
    e ∈ w.mem.graceCache ∨ BackedBy svc (fun k => k = i) e w'
  env w w' := Outer w w' ∧ tokens w' = tokens w ∧
    ∀ e ∈ w'.mem.graceCache, e ∈ w.mem.graceCache

/-- **Others do not disturb**: what they insert has another hash. -/
theorem stable_clear : Stable (secretsLogic svc) i (Clear svc i) where
  thread := fun {j w w'} hne hw hw' hg h => by
    intro e he
    rcases hg.2 e he with hold | hnew
    · obtain ⟨c, hc, r, hr, hcommitted | ⟨k, hki, hpending, hspent⟩⟩ := h e hold
      · exact backedBy_of_committed hg.1.evolves hc hr hcommitted
      by_cases hkj : k = j
      · -- thread `j` backs the entry, and has moved
        obtain ⟨d, hd, v, hv, hcommitted | ⟨l, -, hpending', hspent'⟩⟩ :=
          hw'.2 e he
        · exact ⟨d, hd, v, hv, .inl hcommitted⟩
        refine ⟨d, hd, v, hv, .inr ⟨l, fun hli => hki ?_, hpending', hspent'⟩⟩
        subst hli
        have hd' := (pending_stays hg.1.frame (Ne.symm hne) hpending').mpr hd
        exact inserted_once (hw.1.indexed .refreshTokens) hc hd' hpending
          hpending' (hr.1.trans hv.1.symm)
      · exact ⟨c, (pending_stays hg.1.frame hkj hpending).mp hc, r, hr,
          .inr ⟨k, hki, hpending, hspent.frame (Ne.symm hkj) hg.1.frame⟩⟩
    · exact hnew.mono fun k (hk : k = j) => hk ▸ hne
  env _ _ he h e hmem := (h e (he.2.2 e hmem)).same he.2.1

/-- What the accounts keep. -/
theorem stable_of_accounts {P : Srv → Prop}
    (h : Stable (accountsLogic svc) i P) : Stable (secretsLogic svc) i P where
  thread hne hw hw' hg := h.thread hne hw.1 hw'.1 hg.1
  env hw hw' he := h.env hw.1 hw'.1 he.1

/-- The session of thread `i` changes with its own steps only. -/
theorem stable_session {P : Session Point → Prop} :
    Stable (secretsLogic svc) i fun w => P (w.session i) where
  thread hne _ _ hg h := by
    rw [hg.1.frame.session i (Ne.symm hne)]
    exact h
  env _ _ he h := by
    rw [he.1.session]
    exact h

/-! ## Runs -/

/-- No `COMMIT` of a rotation fails. -/
def committing : Filter Point Srv Pick Outside Call where
  run _ _ pt ch w _ := Rotates pt ch w
  cancel _ _ := True
  env _ _ _ := True

/-- The same, with what is known of the accounts. -/
abbrev secretRuns (svc : AuthService) : Filter Point Srv Pick Outside Call :=
  within committing (accountsLogic svc)

/-- An outline under these runs. -/
abbrev Keeps (svc : AuthService) (q : Call) (i : Nat)
    (p : Prog Point Srv Pick α) (P : Srv → Prop) (Q : α → Srv → Prop) : Prop :=
  Outline (secretsLogic svc) ((secretRuns svc).run i q) i p P Q

/-- What a step that leaves the cache alone keeps. -/
theorem keeps_step {pt : Point} {ch : Pick}
    (hF : (secretRuns svc).run i q pt ch w w')
    (hcache : w'.mem.graceCache = w.mem.graceCache) (h : Clear svc i w) :
    (secretsLogic svc).inv w' ∧ (secretsLogic svc).guar i w w' ∧
      Clear svc i w' := by
  obtain ⟨-, haccounts, hmove⟩ := hF
  have hclear : Clear svc i w' := h.move hmove fun e he => hcache ▸ he
  exact ⟨⟨haccounts, hclear.backed⟩, ⟨hmove, fun e he => .inl (hcache ▸ he)⟩,
    hclear⟩

/-- Programs that leave the cache alone. -/
theorem free_keeps {p : Prog Point Srv Pick α} (hp : CacheFree i p) :
    Keeps svc q i p (Clear svc i) fun _ => Clear svc i := by
  refine Outline.every_filter stable_clear (Prog.Every.mono ?_ hp)
  intro β f hf pt ch w b w' _ hclear hstep hF
  exact keeps_step hF (hf hstep) hclear

/-- A program that leaves the cache alone, and what it does to the accounts. -/
theorem free_outline {p : Prog Point Srv Pick α} {Q : α → Srv → Prop}
    (hp : CacheFree i p) : ∀ {P : Srv → Prop},
      Outline (accountsLogic svc) ((secretRuns svc).run i q) i p P Q →
        Keeps svc q i p (fun w => Clear svc i w ∧ P w)
          fun a w => Clear svc i w ∧ Q a w := by
  induction p with
  | ret a => exact fun h w hw hP => ⟨hP.1, h w hw.1 hP.2⟩
  | act pt f next ih =>
      intro P h w ch b w' hw hP hstep hF
      obtain ⟨hinv, hguar, hclear⟩ := keeps_step hF (hp.1 hstep) hP.1
      obtain ⟨-, -, R, hR, hpost, hrest⟩ := h w ch b w' hw.1 hP.2 hstep hF
      exact ⟨hinv, hguar, _, stable_clear.and (stable_of_accounts hR),
        ⟨hclear, hpost⟩, ih b (hp.2 b) hrest⟩

/-! ## A rotation -/

variable {D D' : Draft Row}

theorem moves_accounts {pt : Point} {ch : Pick} (_ : (accountsLogic svc).inv w)
    (h : (secretRuns svc).run i q pt ch w w') :
    (accountsLogic svc).inv w' ∧ (accountsLogic svc).guar i w w' := h.2

/-- A program that leaves the cache alone and adds to the draft, in front of
another. -/
theorem drafts_bind {β : Type} {p : Svc β} {k : β → Svc α} {D' : β → Draft Row}
    {R : α → Srv → Prop} (hp : CacheFree i p.run)
    (hdrafts : Drafts (accountsLogic svc) i ((secretRuns svc).run i q) D p.run D')
    (rest : ∀ b, Keeps svc q i (k b).run
      (fun w => Clear svc i w ∧ Drafting i (D' b) w)
      (exceptPost R (Clear svc i))) :
    Keeps svc q i (p >>= k).run (fun w => Clear svc i w ∧ Drafting i D w)
      (exceptPost R (Clear svc i)) := by
  refine Outline.except_bind
    (R := fun b w => Clear svc i w ∧ Drafting i (D' b) w)
    ((free_outline hp hdrafts).post fun r w _ h => ?_) rest
  cases r with
  | error e => exact h.1
  | ok b => exact h

theorem drafts_quiet {p : Svc α} (hp : p.run.Every (Quiet i)) :
    Drafts (accountsLogic svc) i ((secretRuns svc).run i q) D p.run
      fun _ => D := by
  refine (draft_quiet (fun _ => stable_drafting) moves_accounts hp).post
    fun r w _ h => ?_
  cases r <;> exact h

/-- The draft stands in a block that is not aborted. -/
def Standing (i : Nat) (D : Draft Row) (w : Srv) : Prop :=
  (w.session i).status = .explicit ∧ ∀ x ∈ D, Wrote i x.1 x.2 w

theorem Standing.drafting (h : Standing i D w) : Drafting i D w := .inr h

theorem standing_of_drafting (h : Drafting i D w)
    (hst : (w.session i).status ≠ .aborted) : Standing i D w :=
  h.resolve_left hst

theorem stable_standing : Stable (secretsLogic svc) i (Standing i D) where
  thread hne hw hw' hg h := by
    refine standing_of_drafting ((stable_of_accounts stable_drafting).thread hne hw
      hw' hg h.drafting) ?_
    rw [hg.1.frame.session i (Ne.symm hne), h.1]
    exact fun h => by cases h
  env hw hw' he h := by
    refine standing_of_drafting ((stable_of_accounts stable_drafting).env hw hw' he
      h.drafting) ?_
    rw [he.1.session, h.1]
    exact fun h => by cases h

theorem standing_quiet {p : Prog Point Srv Pick α} (hp : p.Every (Quiet i)) :
    p.Every fun f => ∀ ⦃ch w b w'⦄, f i ch w = some (b, w') →
      Standing i D w → Standing i D w' := by
  refine Prog.Every.mono ?_ hp
  intro β f hf ch w b w' hstep h
  obtain ⟨hdb, hsession⟩ := hf hstep
  refine standing_of_drafting (h.drafting.same hdb hsession) ?_
  rw [hsession, h.1]
  exact fun h => by cases h

variable {hash : String} {fam : Uuid}

/-- The new token's row. -/
abbrev inserted (hash : String) (fam : Uuid) : Σ t, Row t → Prop :=
  ⟨.refreshTokens, fun r => r.tokenHash = hash ∧ r.fam = fam⟩

/-- The compare-and-swap holds the rows it returns. -/
theorem swap_drafts :
    Drafts (accountsLogic svc) i ((secretRuns svc).run i q) []
      (revokeRefreshTokenIfActive hash).run
      fun o => o.toList.map fun _ => spent hash := by
  have hrevoked : ∀ (now : DateTime) (r : RefreshTokenRow),
      (r.tokenHash == hash && r.revokedAt.isNone) = true →
        (r.revoke now).tokenHash = hash := by
    intro now r hr
    simp only [Bool.and_eq_true, beq_iff_eq] at hr
    exact hr.1
  have hkept : ∀ (now : DateTime) (r : RefreshTokenRow), r.tokenHash = hash →
      (r.revoke now).tokenHash = hash := fun _ _ h => h
  refine Outline.except_bind
    (R := fun rows => Drafting i (rows.map fun _ => spent hash))
    (draft_updated (t := Tbl.refreshTokens) (f := RefreshTokenRow.revoke)
      (fun _ => stable_drafting) moves_accounts hrevoked hkept)
    fun rows => Outline.pure fun w _ h => ?_
  · refine h.part fun x hx => ?_
    cases rows with
    | nil => exact hx
    | cons row rows => simp_all

/-- A row has been inserted. -/
theorem createRefreshToken_keeps {params : CreateRefreshTokenParams} :
    Keeps svc q i (createRefreshToken params).run
      (fun w => Clear svc i w ∧ Drafting i D w)
      (exceptPost (fun _ w => Clear svc i w ∧
        Standing i (inserted params.tokenHash params.fam :: D) w)
        (Clear svc i)) := by
  refine Outline.except_bind (R := fun _ w => Clear svc i w ∧
      Standing i (inserted params.tokenHash params.fam :: D) w)
    (Outline.step (Stable.exceptPost
      (fun _ => stable_clear.and stable_standing) stable_clear)
      fun {w ch r w'} _ h hstep hF => ?_)
    fun _ => Outline.pure fun _ _ h => h
  have hfree : w'.mem.graceCache = w.mem.graceCache :=
    (free_insert (i := i)).1 hstep
  obtain ⟨hinv, hguar, hclear⟩ := keeps_step hF hfree h.1
  refine ⟨hinv, hguar, ?_⟩
  cases r with
  | error e => exact hclear
  | ok u =>
      rcases statement_cases hstep with ⟨-, -, e, he⟩ | ⟨-, -, -, e, he⟩ |
        ⟨hne, hrun⟩
      · cases he
      · cases he
      obtain ⟨hexplicit, hall⟩ := standing_of_drafting h.2 hne
      split at hrun
      · cases hrun
      · cases hrun
      rename_i x hx
      simp only [Option.some.injEq, Prod.mk.injEq] at hrun
      obtain ⟨-, rfl⟩ := hrun
      have hopen : w.openStatement i .plain =
          w.setSession i { w.session i with query := some .plain } := by
        simp [World.openStatement, hexplicit]
      rw [hopen] at hx
      refine ⟨hclear, ?_, fun y hy => Wrote.same (w := (w.setSession i
        { w.session i with query := some .plain }).setTable .refreshTokens x)
        ?_ ?_⟩
      · simp [World.completeStatement, World.setTable, hopen, hexplicit,
          World.setSession]
      · simp [World.completeStatement, World.setTable, hopen, hexplicit,
          World.setSession]
      · rcases List.mem_cons.mp hy with rfl | hy
        · exact wrote_inserted hx ⟨rfl, rfl⟩
        · exact wrote_insert hx ((hall y hy).same rfl)

/-- How the region of a refresh ends. -/
def Ends (svc : AuthService) (i : Nat) :
    TxExit Point Stop TokenPair → Srv → Prop
  | .commit (.rotated _) (.ok _), w => (w.session i).status = .explicit
  | _, w => Clear svc i w

theorem free_fallible {p : Svc α} (hp : CacheFree i p.run) :
    Keeps svc q i p.run (Clear svc i)
      (exceptPost (fun _ => Clear svc i) (Clear svc i)) := by
  refine (free_keeps hp).post fun r w _ h => ?_
  cases r with
  | error e => exact h
  | ok a => exact h

theorem refreshRevoked_keeps :
    Keeps svc q i (refreshRevoked svc hash).run (Clear svc i)
      (exceptPost (Ends svc i) (Clear svc i)) := by
  refine Outline.except_bind (free_fallible (free_propagate free_select))
    fun o => ?_
  cases o with
  | none => exact Outline.throw fun _ _ h => h
  | some existing =>
      refine Outline.except_bind (free_fallible (Prog.Every.lift
        (free_step fun hf => by simp_all))) fun cached => ?_
      cases cached with
      | some cached => exact Outline.pure fun _ _ h => h
      | none =>
          refine Outline.except_bind (free_fallible (free_propagate
            (Prog.Every.except_bind free_update fun _ => trivial))) fun _ => ?_
          exact Outline.pure fun _ _ h => h

/-- The entry is written for a row that stands in the transaction, as does the
row of the token it answers. -/
theorem refreshReplace_keeps {jkt : String} {ua : Option String}
    {row : RefreshTokenRow} {user : UserRow} :
    Keeps svc q i (refreshReplace svc hash jkt ua row user).run
      (fun w => Clear svc i w ∧ Drafting i [spent hash] w)
      (exceptPost (Ends svc i) (Clear svc i)) := by
  refine drafts_bind free_newText (drafts_quiet looks_quiet.newText)
    fun secret => ?_
  refine Outline.except_bind (propagate_outline createRefreshToken_keeps)
    fun _ => ?_
  refine Outline.except_bind (R := fun _ w => Clear svc i w ∧
      Standing i [inserted (svc.hashToken secret) row.fam, spent hash] w)
    (((free_keeps free_issueAccessToken).beside stable_standing
      (standing_quiet looks_quiet.issueAccessToken)).post fun r w _ h => ?_)
    fun access => ?_
  · cases r with
    | error e => exact h.1
    | ok access => exact h
  refine Outline.except_bind (R := fun _ w => (w.session i).status = .explicit)
    (Outline.lift (Outline.step (fun _ => stable_session (P := fun s =>
      s.status = .explicit)) fun {w ch u w'} hw h hstep hF => ?_))
    fun _ => ?_
  swap
  · exact Outline.pure fun w _ (h : (w.session i).status = .explicit) => h
  obtain ⟨-, haccounts, hmove⟩ := hF
  simp only [Option.some.injEq, Prod.mk.injEq] at hstep
  obtain ⟨-, rfl⟩ := hstep
  obtain ⟨hclear, hst, hall⟩ := h
  obtain ⟨c, hc, r, hpending, hhash, hfam⟩ := hall _ List.mem_cons_self
  have hspent : Wrote i (spent hash).1 (spent hash).2 w :=
    hall _ (List.mem_cons_of_mem _ List.mem_cons_self)
  have hbacked : ∀ {K : Nat → Prop}, K i → BackedBy svc K
      ⟨(row.fam, hash), ⟨access, secret, svc.config.accessTokenTtl.secs⟩,
        w.clock⟩ w := fun hK =>
    ⟨c, hc, r, ⟨hhash, hfam⟩, .inr ⟨i, hK, hpending, hspent⟩⟩
  refine ⟨⟨haccounts, fun e he => ?_⟩, ⟨hmove, fun e he => ?_⟩, hst⟩
  · rcases List.mem_cons.mp he with rfl | he
    · exact hbacked trivial
    · exact hw.2 e (List.mem_filter.mp he).1
  · rcases List.mem_cons.mp he with rfl | he
    · exact .inr (hbacked rfl)
    · exact .inl (List.mem_filter.mp he).1

theorem refreshActive_keeps {jkt : String} {ua : Option String}
    {row : RefreshTokenRow} :
    Keeps svc q i (refreshActive svc hash jkt ua row).run
      (fun w => Clear svc i w ∧ Drafting i [spent hash] w)
      (exceptPost (Ends svc i) (Clear svc i)) := by
  refine drafts_bind (Prog.Every.lift free_utcNow)
    (drafts_quiet (Prog.Every.lift looks_quiet.utcNow)) fun now => ?_
  split
  · exact Outline.throw fun _ _ h => h.1
  split
  · exact Outline.throw fun _ _ h => h.1
  refine drafts_bind (free_propagate free_select) (propagate_outline
    (draft_select (fun _ => stable_drafting) moves_accounts)) fun o => ?_
  cases o with
  | none => exact Outline.throw fun _ _ h => h.1
  | some user => exact refreshReplace_keeps

/-- A `COMMIT` that is carried out commits what backs an entry. -/
theorem clear_commit {pt : Point} (h : Backed svc w)
    (hm : Registration.Move i w (w.commitTx i pt)) :
    Clear svc i (w.commitTx i pt) := by
  intro e he
  obtain ⟨c, hc, r, hr, hcommitted | ⟨k, -, hpending, hspent⟩⟩ := h e he
  · exact backedBy_of_committed hm.evolves hc hr hcommitted
  · by_cases hki : k = i
    · subst hki
      refine ⟨c.commit k, List.mem_map_of_mem hc, r, hr, .inl ?_⟩
      simp [Cell.commit, hpending]
    · exact ⟨c, (pending_stays hm.frame hki hpending).mp hc, r, hr,
        .inr ⟨k, hki, hpending, hspent.frame (Ne.symm hki) hm.frame⟩⟩

theorem commit_keeps {pt : Point} {ch : Pick} {r : Except Stop TokenPair}
    {r' : Except SqlxError Unit} (hw : Backed svc w)
    (h : Ends svc i (.commit pt r) w)
    (hstep : commitStep pt i ch w = some (r', w'))
    (hF : (secretRuns svc).run i q pt ch w w') :
    (secretsLogic svc).inv w' ∧ (secretsLogic svc).guar i w w' ∧
      Clear svc i w' := by
  have hcache : w'.mem.graceCache = w.mem.graceCache := by
    rcases commitStep_cases hstep with ⟨-, -, rfl⟩ | ⟨-, -, -, rfl⟩ |
      ⟨-, -, rfl⟩ <;> rfl
  have hother : Clear svc i w → (secretsLogic svc).inv w' ∧
      (secretsLogic svc).guar i w w' ∧ Clear svc i w' := keeps_step hF hcache
  cases pt with
  | rotated fam =>
      cases r with
      | error e => exact hother h
      | ok pair =>
          have hst : (w.session i).status = .explicit := h
          rcases commitStep_cases hstep with ⟨haborted, -⟩ |
            ⟨-, -, ⟨msg, rfl⟩, -⟩ | ⟨-, -, rfl⟩
          · rw [hst] at haborted
            cases haborted
          · exact hF.1.elim
          · obtain ⟨-, haccounts, hmove⟩ := hF
            have hclear := clear_commit hw hmove
            exact ⟨⟨haccounts, hclear.backed⟩, ⟨hmove, fun e he => .inl he⟩,
              hclear⟩
  | plain | revokeRefreshTokenFamily | reuseDetected | registered | activateTotp
    | confirmed => exact hother h

/-- **A refresh leaves no entry behind**: its `COMMIT` is carried out, and
what it rolls back is no entry's only row. -/
theorem refresh_keeps {rt jkt : String} {ua : Option String} :
    Keeps svc q i (refresh svc rt jkt ua).run (Clear svc i)
      fun _ => Clear svc i := by
  refine Outline.transaction (fun w => Clear svc i w ∧ Drafting i [] w)
    (Ends svc i) (Clear svc i)
    (stable_clear.and (stable_of_accounts stable_drafting))
    (fun _ => stable_clear) ?_ ?_ ?_ ?_
  · intro w w' ch r _ h hstep hF
    rcases beginStep_cases hstep with ⟨rfl, -, e, rfl⟩ | ⟨rfl, rfl⟩
    · exact keeps_step hF rfl h
    · obtain ⟨hinv, hguar, hclear⟩ := keeps_step hF rfl h
      exact ⟨hinv, hguar, hclear, .inr ⟨by simp [World.beginTx,
        World.setSession], fun x hx => by cases hx⟩⟩
  · refine drafts_bind (free_propagate (Prog.Every.except_bind free_update
      fun _ => trivial)) (propagate_outline swap_drafts) fun o => ?_
    cases o with
    | none => exact refreshRevoked_keeps.weaken fun _ _ h => h.1
    | some row => exact refreshActive_keeps
  · intro w r ch _ h hF
    have hclear : Clear svc i w := by
      rcases h with ⟨e, -, h⟩ | h
      · exact h
      · exact h
    exact keeps_step hF rfl hclear
  · intro w ch pt r r' w' hw h hstep hF
    obtain ⟨hinv, hguar, hclear⟩ := commit_keeps hw.2 h hstep hF
    refine ⟨hinv, hguar, ?_⟩
    cases r' <;> exact hclear

theorem call_keeps : Keeps svc q i (q.body svc) (Clear svc i)
    fun _ => Clear svc i := by
  cases q with
  | refresh rt jkt ua =>
      refine Outline.bind (fun r => ?_) refresh_keeps
      cases r <;> exact Outline.ret fun _ _ h => h
  | register params => exact free_keeps (free_call fun _ _ _ h => by cases h)
  | login kind value password jkt ip ua =>
      exact free_keeps (free_call fun _ _ _ h => by cases h)
  | logout rt => exact free_keeps (free_call fun _ _ _ h => by cases h)

/-! ## The secrets in every reachable state -/

variable {clock : DateTime} {c : AuthConfig}

/-- Runs in which no `COMMIT` of a rotation fails, and no call is dropped while
the cache holds the secret of a row that it has inserted and not committed. -/
abbrev CommittingRun (svc : AuthService) : AuthConfig → AuthConfig → Prop :=
  (authSystem svc).ReachesIf committing fun i w => ¬ Exposed svc i w

theorem cache_env {x : Outside} (hx : x.effect w = some w') :
    ∀ e ∈ w'.mem.graceCache, e ∈ w.mem.graceCache := by
  intro e he
  cases x with
  | tick d =>
      cases hx
      exact he
  | deleteUser id =>
      cases hx
      exact he
  | evict key =>
      cases hx
      exact List.mem_of_mem_filter he

/-- **Every secret in the cache is stored, or about to be.** -/
theorem backed_of_reaches
    (hrun : CommittingRun svc (.start (initial clock)) c) :
    Accounts svc c.shared ∧ Backed svc c.shared := by
  have hwithin : (authSystem svc).ReachesIf (secretRuns svc)
      (fun i w => ¬ Exposed svc i w) (.start (initial clock)) c :=
    sound_if_within (M := authSystem svc) (F := committing)
      (fun _ => .const True) (fun _ _ => body_outline)
      (fun hw _ => ⟨(accounts_cancel hw).1, (accounts_cancel hw).2, trivial⟩)
      (fun hw he _ => accounts_env hw he) good_start hrun
  have hgood : Good (secretsLogic svc) (secretRuns svc) (fun i => Clear svc i)
      (fun _ i _ => Clear svc i) c := by
    refine sound_if (fun _ => stable_clear) (fun _ _ => call_keeps) ?_ ?_
      (Good.start ⟨accounts_start, fun e he => by cases he⟩
        fun _ e he => by cases he) hwithin
    · intro e w w' hw he hF
      have hout := elsewhere_of_effect he
      have hcache := cache_env he
      exact ⟨⟨hF.2.1, fun x hx => (hw.2 x (hcache x hx)).same hout.table⟩,
        hF.2.2, hout.table, hcache⟩
    · intro i q w hw _ hunexposed
      have hclear := clear_of_unexposed hw.1 hw.2 hunexposed
      obtain ⟨haccounts, hmove⟩ := accounts_cancel (i := i) hw.1
      have hclear' : Clear svc i (w.rollbackTx i) :=
        hclear.move hmove fun _ he => he
      exact ⟨⟨haccounts, hclear'.backed⟩, ⟨hmove, fun _ he => .inl he⟩, hclear'⟩
  exact hgood.inv

/-- **A failed refresh leaves no trace.**  In every state of every run in which
no `COMMIT` of a rotation fails and no rotation is dropped between its grace
entry and its `COMMIT`: a refresh that fails, other than by reuse detection and
with no failing `COMMIT` of its own, leaves the rows of all tables and the
grace cache as they were; each refresh token in the cache is the secret of a
row that is committed, or stands in an open transaction; and of a committed one
where no rotation stands between its grace entry and its `COMMIT`. -/
theorem refresh_leaves_no_trace (svc : AuthService) (clock : DateTime)
    {c : AuthConfig} (hrun : CommittingRun svc (.start (initial clock)) c) :
    (∀ i rt jkt ua cs e w', (refresh svc rt jkt ua).run.alone i cs c.shared =
        some (.error e, w') →
      AllSteps Unbroken i cs (refresh svc rt jkt ua).run c.shared →
        NoTrace c.shared w') ∧
    Backed svc c.shared ∧
    ((∀ i, ¬ Exposed svc i c.shared) → Stored svc c.shared) := by
  obtain ⟨haccounts, hbacked⟩ := backed_of_reaches hrun
  exact ⟨fun i rt jkt ua cs e w' => no_trace_of_error, hbacked,
    stored_of_backed haccounts hbacked⟩

/-! ## A rotation, and a failing `COMMIT` -/

instance (pt : Point) (ch : Pick) (w : Srv) : Decidable (Rotates pt ch w) := by
  unfold Rotates
  split <;> infer_instance

/-- No `COMMIT` of a rotation fails, and no call is dropped. -/
def carriesOut : Check Point Srv Pick Outside Call where
  run _ _ pt ch w _ := decide (Rotates pt ch w)
  cancel _ _ := false
  env _ _ _ := true

theorem committingRun_of_exec {es : List AuthEvent} {d : AuthConfig}
    (h : (authSystem svc).exec carriesOut c es = some d) : CommittingRun svc c d :=
  System.Reaches.undropped (F := carriesOut.filter) of_decide_eq_true
    (fun _ => trivial) Bool.false_ne_true
    (System.exec_reaches carriesOut.implies_filter h)

/-- A user has registered and rotated the token. -/
def afterRotation : AuthConfig :=
  ((authSystem sampleService).exec carriesOut (.start (initial 0))
    (registers 0 ++ rotates 1 0 ++ steps 1 1)).get (by decide +kernel)

theorem afterRotation_run :
    CommittingRun sampleService (.start (initial 0)) afterRotation :=
  committingRun_of_exec (Option.some_get _).symm

/-- The new token is shown with another key. -/
def mismatched : Except Stop TokenPair × Srv :=
  ((refresh sampleService (sampleSecret 1) "another-thumbprint" none).run.alone
    2 (List.replicate 6 .ok) afterRotation.shared).get (by decide +kernel)

/-- The call is refused, and the entry of the rotation is still there. -/
theorem refresh_leaves_no_trace_mismatched :
    (∃ e, (refresh sampleService (sampleSecret 1) "another-thumbprint"
      none).run.alone 2 (List.replicate 6 .ok) afterRotation.shared =
        some (.error e, mismatched.2)) ∧
    NoTrace afterRotation.shared mismatched.2 ∧
    mismatched.2.mem.graceCache.length = 1 ∧
    Stored sampleService afterRotation.shared := by
  obtain ⟨htrace, -, hstored⟩ :=
    refresh_leaves_no_trace sampleService 0 afterRotation_run
  have herror : mismatched.1 = .error (Stop.error .unauthorized) := by
    decide +kernel
  have hruns : (refresh sampleService (sampleSecret 1) "another-thumbprint"
      none).run.alone 2 (List.replicate 6 .ok) afterRotation.shared =
        some (.error (Stop.error .unauthorized), mismatched.2) := by
    have hsome : (refresh sampleService (sampleSecret 1) "another-thumbprint"
        none).run.alone 2 (List.replicate 6 .ok) afterRotation.shared =
          some mismatched := (Option.some_get _).symm
    rw [hsome, ← herror]
  have hplain : ∀ x ∈ trace 2 (List.replicate 6 .ok) (refresh sampleService
      (sampleSecret 1) "another-thumbprint" none).run afterRotation.shared,
      x.1 = Point.plain := by decide +kernel
  have hfree : ∀ c ∈ tokens afterRotation.shared, c.pending = none := by
    decide +kernel
  refine ⟨⟨_, hruns⟩, htrace 2 _ _ _ _ _ _ hruns fun x hx => ?_,
    by decide +kernel, hstored fun i h => ?_⟩
  · unfold Unbroken
    rw [hplain x hx]
    exact ⟨trivial, fun fam h => by cases h⟩
  · obtain ⟨e, -, d, hd, r, -, -, hpending⟩ := h
    rw [hfree d hd] at hpending
    cases hpending

/-- A user has registered. -/
def afterRegistration : AuthConfig :=
  ((authSystem sampleService).exec carriesOut (.start (initial 0))
    (registers 0)).get (by decide +kernel)

/-- The user's token is rotated, and the `COMMIT` fails. -/
def uncommitted : Except Stop TokenPair × Srv :=
  ((refresh sampleService (sampleSecret 0) "thumbprint" none).run.alone 1
    (choices (rotates 1 0) ++ [.fail "connection lost"])
    afterRegistration.shared).get (by decide +kernel)

/-- **A failed `COMMIT` leaves a grace entry.**  The call fails, and the cache
holds a refresh token that no committed row stores. -/
theorem failed_commit_leaves_entry :
    CommittingRun sampleService (.start (initial 0)) afterRegistration ∧
    (∃ e, (refresh sampleService (sampleSecret 0) "thumbprint" none).run.alone 1
      (choices (rotates 1 0) ++ [.fail "connection lost"])
      afterRegistration.shared = some (.error e, uncommitted.2)) ∧
    ¬ NoTrace afterRegistration.shared uncommitted.2 ∧
    ¬ Stored sampleService uncommitted.2 := by
  refine ⟨committingRun_of_exec (Option.some_get _).symm, ?_, fun h => ?_,
    fun h => ?_⟩
  · have herror : uncommitted.1 = .error (Stop.sqlx (.other "connection lost")) :=
      by decide +kernel
    have hruns : (refresh sampleService (sampleSecret 0) "thumbprint"
        none).run.alone 1 (choices (rotates 1 0) ++ [.fail "connection lost"])
        afterRegistration.shared = some uncommitted := (Option.some_get _).symm
    exact ⟨_, by rw [hruns, ← herror]⟩
  · have hcache : uncommitted.2.mem.graceCache ≠
        afterRegistration.shared.mem.graceCache := by decide +kernel
    exact hcache h.cache
  · have hstored : ¬ ∀ e ∈ uncommitted.2.mem.graceCache,
        ∃ r ∈ (tokens uncommitted.2).rows, r.tokenHash =
          sampleService.hashToken e.value.refreshToken ∧ r.fam = e.key.1 := by
      decide +kernel
    exact hstored h

end DpopAuth.Ports.GraceSecrets
