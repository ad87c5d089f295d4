import DpopAuth.Verified.BlockRules
import DpopAuth.Verified.Traces
import DpopAuth.Ports.RefreshAlone

/-!
# A refresh that fails

Two stores are written by `refresh`: the transaction, which a failure rolls
back, and the grace cache, which nothing rolls back.  The cache is written
last, just before `COMMIT`.  So a call that fails before its `COMMIT` leaves
no trace.  No other call writes the cache.

## Main results

* `no_trace_of_error` — a refresh that fails before its `COMMIT`.
* `free_call` — the calls that leave the cache alone.
-/

namespace DpopAuth.Ports.RefreshFailure

open DpopAuth.Verified.Resumption
open DpopAuth.Verified.RelyGuarantee
open DpopAuth.Verified.RowVersions
open DpopAuth.Verified.Transactions
open DpopAuth.Verified.TransactionRules
open DpopAuth.Verified.AtomicRules
open DpopAuth.Verified.BlockRules
open DpopAuth.Verified.Traces
open DpopAuth.Verified.TtlCache
open DpopAuth.Ports.Errors
open DpopAuth.Ports.Schema
open DpopAuth.Ports.Service
open DpopAuth.Ports.Repo
open DpopAuth.Ports.Auth
open DpopAuth.Ports.FamilyProtocol
open DpopAuth.Ports.FamilyOutlines
open DpopAuth.Ports.AtomicCalls
open DpopAuth.Ports.RefreshAlone

variable {svc : AuthService} {i : Nat} {w w' : Srv} {rt jkt : String}
  {ua : Option String} {α β ξ : Type}

/-! ## Programs that write nothing but the transaction -/

section Keeping

variable {rows : ∀ t, List (Row t)} {M : Memory → Prop}

/-- Every step of the program keeps the block discardable. -/
abbrev Kept (i : Nat) (rows : ∀ t, List (Row t)) (M : Memory → Prop)
    (p : Prog Point Srv Pick α) : Prop := p.Every (Keeps i rows M)

theorem kept_outline {F : Point → Pick → Srv → Srv → Prop}
    {p : Prog Point Srv Pick α} (h : Kept i rows M p) :
    Outline (Logic.solo i) F i p (Discardable i rows M)
      fun _ => Discardable i rows M := by
  refine Outline.every .solo ?_
  induction p with
  | ret a => trivial
  | act pt f next ih =>
      exact ⟨fun _ hP hf => ⟨trivial, .inl rfl, h.1 hP hf⟩,
        fun b => ih b (h.2 b)⟩

theorem kept_fallible {F : Point → Pick → Srv → Srv → Prop}
    {p : ExceptT ξ (Prog Point Srv Pick) α} (h : Kept i rows M p.run) :
    Outline (Logic.solo i) F i p.run (Discardable i rows M)
      (exceptPost (fun _ => Discardable i rows M) (Discardable i rows M)) := by
  refine (kept_outline h).post fun r v _ hv => ?_
  cases r with
  | error e => exact hv
  | ok a => exact hv

theorem kept_propagate {q : Repo α} (h : Kept i rows M q.run) :
    Kept i rows M q.propagate.run :=
  Prog.Every.bind (fun r => by cases r <;> trivial) h

/-- A step that changes the memory at most. -/
theorem kept_step {pt : Point} {f : Action Srv Pick α}
    (h : ∀ {ch v a v'}, M v.mem → f i ch v = some (a, v') →
      v'.session = v.session ∧ v'.db = v.db ∧ M v'.mem) :
    Kept i rows M (Prog.step pt f) := by
  refine Prog.Every.step (φ := Keeps i rows M) fun {v ch b v'} hv hf => ?_
  obtain ⟨hsess, hdb, hmem⟩ := h hv.mem hf
  exact ⟨by rw [hsess]; exact hv.inside, fun t => by rw [hdb]; exact hv.rows_eq t,
    hmem⟩

theorem kept_utcNow : Kept i rows M utcNow :=
  kept_step fun hm hf => by simp_all

theorem kept_currentTimestamp : Kept i rows M currentTimestamp :=
  kept_step fun hm hf => by simp_all

theorem kept_newText : Kept i rows M newText.run := by
  refine kept_step fun hm hf => ?_
  split at hf <;> simp_all

theorem kept_newUuid (hdrawn : ∀ m l, M m → M { m with drawn := l }) :
    Kept i rows M newUuid := by
  refine kept_step fun hm hf => ?_
  unfold newUuidStep at hf
  split at hf
  · split at hf
    · cases hf
    · simp only [Option.some.injEq, Prod.mk.injEq] at hf
      obtain ⟨-, rfl⟩ := hf
      exact ⟨rfl, rfl, hdrawn _ _ hm⟩
  · cases hf

theorem kept_graceGet {key : Uuid × String} :
    Kept i rows M (graceGet svc key) := kept_step fun hm hf => by simp_all

theorem kept_issueAccessToken (hdrawn : ∀ m l, M m → M { m with drawn := l })
    {user : UserRow} : Kept i rows M (issueAccessToken svc user jkt).run := by
  refine Prog.Every.except_bind (Prog.Every.lift kept_currentTimestamp)
    fun now => ?_
  refine Prog.Every.except_bind (Prog.Every.lift (kept_newUuid hdrawn))
    fun jti => ?_
  split <;> trivial

theorem kept_revokeWhere {pt : Point} {p : RefreshTokenRow → Bool} :
    Kept i rows M (revokeWhere pt p).run := every_update

theorem kept_createRefreshToken {params : CreateRefreshTokenParams} :
    Kept i rows M (createRefreshToken params).run :=
  Prog.Every.except_bind every_insert fun _ => trivial

end Keeping

/-! ## The failures of `refresh` -/

/-- The rows of every table and the grace cache are those of before. -/
structure NoTrace (w w' : Srv) : Prop where
  rows : ∀ t, (w'.db t).rows = (w.db t).rows
  cache : w'.mem.graceCache = w.mem.graceCache

/-- The step is not a `COMMIT` of a rotation that fails. -/
def Rotates (pt : Point) (ch : Pick) (_ : Srv) : Prop :=
  match pt, ch with
  | .rotated _, .fail _ => False
  | _, _ => True

/-- And it is not the `COMMIT` of the reuse branch. -/
def Unbroken (pt : Point) (ch : Pick) (w : Srv) : Prop :=
  Rotates pt ch w ∧ ∀ fam, pt ≠ .reuseDetected fam

/-- Nothing is stored yet. -/
abbrev Pristine (i : Nat) (w : Srv) : Srv → Prop :=
  Discardable i (fun t => (w.db t).rows)
    fun m => m.graceCache = w.mem.graceCache

/-- How the region of `refresh` ends: with nothing stored and the `COMMIT` of
the reuse branch ahead, if any; or with the `COMMIT` of a rotation ahead, which
an error never follows. -/
def Closing (i : Nat) (w : Srv) : TxExit Point Stop TokenPair → Srv → Prop
  | .leave _, v => Pristine i w v
  | .commit (.reuseDetected _) _, v => Pristine i w v
  | .commit (.rotated _) (.ok _), _ => True
  | .commit _ _, _ => False

variable {F : Point → Pick → Srv → Srv → Prop}

abbrev Silent (F : Point → Pick → Srv → Srv → Prop) (i : Nat) (w : Srv)
    (p : Svc (TxExit Point Stop TokenPair)) : Prop :=
  Outline (Logic.solo i) F i p.run (Pristine i w)
    (exceptPost (Closing i w) (Pristine i w))

theorem silent_refreshRevoked {hash : String} :
    Silent F i w (refreshRevoked svc hash) := by
  refine Outline.except_bind (kept_fallible (kept_propagate every_select))
    fun o => ?_
  cases o with
  | none => exact Outline.throw fun _ _ hv => hv
  | some existing =>
      refine Outline.except_bind (Outline.lift (kept_outline kept_graceGet))
        fun cached => ?_
      cases cached with
      | some cached => exact Outline.pure fun _ _ hv => hv
      | none =>
          refine Outline.except_bind (kept_fallible (kept_propagate
            (Prog.Every.except_bind kept_revokeWhere fun _ => trivial)))
            fun _ => ?_
          exact Outline.pure fun _ _ hv => hv

theorem silent_refreshActive {hash : String} {row : RefreshTokenRow} :
    Silent F i w (refreshActive svc hash jkt ua row) := by
  refine Outline.except_bind (Outline.lift (kept_outline kept_utcNow))
    fun now => ?_
  split
  · exact Outline.throw fun _ _ hv => hv
  split
  · exact Outline.throw fun _ _ hv => hv
  refine Outline.except_bind (kept_fallible (kept_propagate every_select))
    fun o => ?_
  cases o with
  | none => exact Outline.throw fun _ _ hv => hv
  | some user =>
      refine Outline.except_bind (kept_fallible kept_newText) fun secret => ?_
      refine Outline.except_bind (kept_fallible
        (kept_propagate kept_createRefreshToken)) fun _ => ?_
      refine Outline.except_bind (kept_fallible
        (kept_issueAccessToken fun _ _ h => h)) fun access => ?_
      -- from here on only the `COMMIT` is left
      refine Outline.except_bind (R := fun _ _ => True)
        (Outline.lift (Outline.step (fun _ => .solo)
          fun _ _ _ _ => ⟨trivial, .inl rfl, trivial⟩)) fun _ => ?_
      exact Outline.pure fun _ _ _ => trivial

/-- A call that respects `Unbroken` and fails has stored nothing. -/
theorem silent_refresh :
    Outline (Logic.solo i) (fun pt ch s _ => Unbroken pt ch s) i
      (refresh svc rt jkt ua).run (fun v => v = w)
      (exceptPost (fun _ _ => True) (NoTrace w)) := by
  have hdrop : ∀ {v}, Pristine i w v → NoTrace w (v.rollbackTx i) := by
    intro v hv
    obtain ⟨hrows, hcache⟩ := discardable_rollback hv
    exact ⟨hrows, hcache⟩
  refine Outline.transaction (Pristine i w) (Closing i w) (Pristine i w)
    .solo (fun _ => .solo) ?_ ?_ ?_ ?_
  · intro v v' ch r _ hv hstep _
    subst hv
    rcases beginStep_cases hstep with ⟨rfl, -, e, rfl⟩ | ⟨rfl, rfl⟩
    · exact ⟨trivial, .inl rfl, fun _ => rfl, rfl⟩
    · exact ⟨trivial, .inl rfl, Discardable.beginTx (fun _ => rfl) rfl⟩
  · refine Outline.except_bind (kept_fallible (kept_propagate
      (Prog.Every.except_bind kept_revokeWhere fun _ => trivial))) fun o => ?_
    cases o with
    | none => exact silent_refreshRevoked
    | some row => exact silent_refreshActive
  · intro v r ch _ hv _
    refine ⟨trivial, .inl rfl, ?_⟩
    have hpristine : Pristine i w v := by
      rcases hv with ⟨_, _, hv⟩ | hv
      · exact hv
      · exact hv
    cases r with
    | error e => exact hdrop hpristine
    | ok a => trivial
  · intro v ch pt r r' v' _ hv hstep hstepF
    refine ⟨trivial, .inl rfl, ?_⟩
    cases pt with
    | reuseDetected fam => exact absurd rfl (hstepF.2 fam)
    | rotated fam =>
        cases r with
        | error e => exact hv.elim
        | ok a =>
            rcases commitStep_cases hstep with ⟨-, rfl, -⟩ |
              ⟨-, -, ⟨msg, rfl⟩, -⟩ | ⟨-, rfl, -⟩
            · trivial
            · exact hstepF.1.elim
            · trivial
    | plain | revokeRefreshTokenFamily | registered | activateTotp | confirmed =>
        exact hv.elim

/-- **A refresh that fails leaves no trace**, in whatever state it runs: other
than by reuse detection, and with no failing `COMMIT` of its own. -/
theorem no_trace_of_error {cs : List Pick} {e : Stop}
    (hrun : (refresh svc rt jkt ua).run.alone i cs w = some (.error e, w'))
    (hall : AllSteps Unbroken i cs (refresh svc rt jkt ua).run w) :
    NoTrace w w' := by
  have hpost := Outline.alone_within silent_refresh rfl hall hrun
  exact hpost

/-! ## Calls that leave the cache alone -/

/-- A step that leaves the grace cache alone. -/
abbrev Uncached (i : Nat) (f : Action Srv Pick β) : Prop :=
  ∀ {v ch b v'}, f i ch v = some (b, v') →
    v'.mem.graceCache = v.mem.graceCache

/-- No step of the program touches the grace cache. -/
abbrev CacheFree (i : Nat) (p : Prog Point Srv Pick α) : Prop :=
  p.Every (Uncached i)

theorem mem_open {pt : Point} : (w.openStatement i pt).mem = w.mem := by
  unfold World.openStatement
  split <;> rfl

theorem mem_complete : (w.completeStatement i).mem = w.mem := by
  unfold World.completeStatement
  split <;> rfl

theorem uncached_statement {pt : Point}
    {f : Nat → Srv → Option (Except SqlxError β × Srv)}
    (hf : ∀ {v r v'}, f i v = some (r, v') →
      v'.mem.graceCache = v.mem.graceCache) :
    Uncached i (statement (ν := Draw) pt f) := by
  intro v ch b v' hstep
  rcases statement_cases hstep with ⟨-, rfl, -⟩ | ⟨-, rfl, -⟩ | ⟨-, hrun⟩
  · rfl
  · rfl
  · rw [hf hrun, mem_open]

theorem free_select {pt : Point} {f : Int → (∀ t, List (Row t)) → β} :
    CacheFree i (select (ω := Memory) (ν := Draw) pt f) := by
  refine Prog.Every.step (φ := Uncached i) (uncached_statement fun hrun => ?_)
  simp only [Option.some.injEq, Prod.mk.injEq] at hrun
  rw [← hrun.2, mem_complete]

theorem free_insert {pt : Point} {t : Tbl} {dup : Row t → Row t → Bool}
    {rs : Int → List (Row t)} :
    CacheFree i (insert (ω := Memory) (ν := Draw) pt t dup rs) := by
  refine Prog.Every.step (φ := Uncached i) (uncached_statement fun hrun => ?_)
  split at hrun
  · cases hrun
  · simp only [Option.some.injEq, Prod.mk.injEq] at hrun
    rw [← hrun.2]
    rfl
  · simp only [Option.some.injEq, Prod.mk.injEq] at hrun
    rw [← hrun.2, mem_complete]
    rfl

theorem free_update {pt : Point} {t : Tbl} {p : Int → Row t → Bool}
    {f : Int → Row t → Row t} :
    CacheFree i (update (ω := Memory) (ν := Draw) pt t p f) := by
  have hvisits : ∀ ks done, CacheFree i
      (updateVisits (ω := Memory) (ν := Draw) pt t p f done ks) := by
    intro ks
    induction ks with
    | nil =>
        intro done
        refine ⟨uncached_statement fun hrun => ?_, fun r => by cases r <;> trivial⟩
        simp only [Option.some.injEq, Prod.mk.injEq] at hrun
        rw [← hrun.2, mem_complete]
    | cons k ks ih =>
        intro done
        refine ⟨uncached_statement fun hrun => ?_, fun r => ?_⟩
        · split at hrun
          · cases hrun
          · simp only [Option.some.injEq, Prod.mk.injEq] at hrun
            rw [← hrun.2]
            rfl
        · cases r with
          | error e => trivial
          | ok o => exact ih _
  refine ⟨uncached_statement fun hrun => ?_, fun r => ?_⟩
  · simp only [Option.some.injEq, Prod.mk.injEq] at hrun
    rw [← hrun.2]
  · cases r with
    | error e => trivial
    | ok ks => exact hvisits ks []

theorem free_transaction
    {region : Prog Point Srv Pick (Except Stop (TxExit Point Stop α))}
    (h : CacheFree i region) :
    CacheFree i (transaction Stop.sqlx region) := by
  refine ⟨fun hstep => ?_, fun r => ?_⟩
  · rcases beginStep_cases hstep with ⟨rfl, -⟩ | ⟨rfl, -⟩
    · rfl
    · rfl
  · cases r with
    | error e => trivial
    | ok u =>
        refine Prog.Every.bind (fun out => ?_) h
        have hdrop : Uncached i (dropStep : Action Srv Pick Unit) := by
          intro v ch b v' hstep
          simp only [dropStep, Option.some.injEq, Prod.mk.injEq] at hstep
          rw [← hstep.2]
          rfl
        cases out with
        | error e => exact ⟨hdrop, fun _ => trivial⟩
        | ok exit =>
            cases exit with
            | leave r => exact ⟨hdrop, fun _ => trivial⟩
            | commit pt r =>
                refine ⟨fun hstep => ?_, fun r => by cases r <;> trivial⟩
                rcases commitStep_cases hstep with ⟨-, -, rfl⟩ |
                  ⟨-, -, -, rfl⟩ | ⟨-, -, rfl⟩ <;> rfl

theorem free_step {pt : Point} {f : Action Srv Pick α}
    (h : ∀ {ch v a v'}, f i ch v = some (a, v') →
      v'.mem.graceCache = v.mem.graceCache) : CacheFree i (Prog.step pt f) :=
  Prog.Every.step (φ := Uncached i) h

theorem free_utcNow : CacheFree i utcNow := free_step fun hf => by simp_all

theorem free_newText : CacheFree i newText.run := by
  refine free_step fun hf => ?_
  split at hf <;> simp_all

theorem free_newUuid : CacheFree i newUuid := by
  refine free_step fun hf => ?_
  unfold newUuidStep at hf
  split at hf
  · split at hf
    · cases hf
    · simp only [Option.some.injEq, Prod.mk.injEq] at hf
      rw [← hf.2]
  · cases hf

theorem free_propagate {q : Repo α} (h : CacheFree i q.run) :
    CacheFree i q.propagate.run :=
  Prog.Every.bind (fun r => by cases r <;> trivial) h

theorem free_ignore {q : Repo α} (h : CacheFree i q.run) :
    CacheFree i q.ignore.run := Prog.Every.bind (fun _ => trivial) h

theorem free_refreshExpiry : CacheFree i (refreshExpiry svc).run := by
  refine Prog.Every.except_bind (Prog.Every.lift free_utcNow) fun now => ?_
  split <;> trivial

theorem free_issueAccessToken {user : UserRow} :
    CacheFree i (issueAccessToken svc user jkt).run := by
  refine Prog.Every.except_bind (Prog.Every.lift
    (free_step fun hf => by simp_all)) fun now => ?_
  refine Prog.Every.except_bind (Prog.Every.lift free_newUuid) fun jti => ?_
  split <;> trivial

theorem free_hashPasswordAsync {password : String} :
    CacheFree i (hashPasswordAsync svc password).run := by
  refine Prog.Every.except_bind free_newText fun salt => ?_
  split <;> trivial

theorem free_verifyPasswordAsync {password phc : String} :
    CacheFree i (verifyPasswordAsync svc password phc).run := by
  refine Prog.Every.except_bind (free_step fun hf => ?_) fun _ => ?_
  · split at hf <;> simp_all
  · split <;> trivial

theorem free_createRefreshToken {params : CreateRefreshTokenParams} :
    CacheFree i (createRefreshToken params).run :=
  Prog.Every.except_bind free_insert fun _ => trivial

theorem free_createUser {name hash : String} {at' : Option DateTime} :
    CacheFree i (createUser name hash at').run :=
  Prog.Every.except_bind (Prog.Every.lift free_newUuid) fun _ =>
    Prog.Every.except_bind (Prog.Every.lift free_newUuid) fun _ =>
      Prog.Every.except_bind free_insert fun _ => trivial

theorem free_updateLastLoginAt {id : Uuid} :
    CacheFree i (updateLastLoginAt id).run :=
  Prog.Every.except_bind free_update fun _ => trivial

theorem free_authenticateUser {kind value password ip : String} :
    CacheFree i (authenticateUser svc kind value password ip).run := by
  refine Prog.Every.except_bind (free_propagate free_select) fun optUser => ?_
  refine Prog.Every.except_bind free_verifyPasswordAsync fun valid => ?_
  split
  · trivial
  · exact Prog.Every.except_bind (free_ignore free_insert) fun _ => trivial
  · exact Prog.Every.except_bind (free_ignore free_insert) fun _ => trivial

theorem free_issueSession {user : UserRow} :
    CacheFree i (issueSession svc user jkt ua).run := by
  refine Prog.Every.except_bind free_newText fun _ => ?_
  refine Prog.Every.except_bind (Prog.Every.lift free_newUuid) fun _ => ?_
  refine Prog.Every.except_bind free_refreshExpiry fun _ => ?_
  refine Prog.Every.except_bind (free_propagate free_createRefreshToken)
    fun _ => ?_
  exact Prog.Every.except_bind free_issueAccessToken fun _ => trivial

theorem free_registerTx {params : RegisterParams} {hash : String} :
    CacheFree i (registerTx svc params hash).run := by
  refine Prog.Every.except_bind (Prog.Every.lift free_utcNow) fun _ => ?_
  refine Prog.Every.except_bind (free_propagate free_createUser) fun user => ?_
  refine Prog.Every.except_bind (Prog.Every.lift free_utcNow) fun _ => ?_
  refine Prog.Every.except_bind (Prog.Every.bind (fun r => ?_)
    (Prog.Every.except_bind free_insert fun _ => trivial)) fun _ => ?_
  · cases r <;> trivial
  refine Prog.Every.except_bind (free_propagate free_updateLastLoginAt)
    fun _ => ?_
  refine Prog.Every.except_bind free_newText fun _ => ?_
  refine Prog.Every.except_bind (Prog.Every.lift free_newUuid) fun _ => ?_
  refine Prog.Every.except_bind free_refreshExpiry fun _ => ?_
  refine Prog.Every.except_bind (free_propagate free_createRefreshToken)
    fun _ => ?_
  exact Prog.Every.except_bind (free_ignore free_insert) fun _ => trivial

theorem free_map {p : Svc α} {f : α → β} (h : CacheFree i p.run) :
    CacheFree i (f <$> p).run :=
  Prog.Every.bind (fun r => by cases r <;> trivial) h

/-- Only `refresh` writes to the grace cache. -/
theorem free_call {q : Call} (hq : ∀ t j u, q ≠ .refresh t j u) :
    CacheFree i (q.body svc) := by
  cases q with
  | register params =>
      refine free_map ?_
      unfold register
      split
      · trivial
      · refine Prog.Every.except_bind free_hashPasswordAsync fun _ => ?_
        refine Prog.Every.except_bind (free_transaction free_registerTx)
          fun _ => ?_
        exact Prog.Every.except_bind free_issueAccessToken fun _ => trivial
  | login kind value password jkt ip ua =>
      refine free_map (Prog.Every.except_bind free_authenticateUser
        fun user => ?_)
      split
      · trivial
      · refine Prog.Every.except_bind (free_ignore free_updateLastLoginAt)
          fun _ => ?_
        refine Prog.Every.except_bind (free_ignore free_insert) fun _ => ?_
        exact Prog.Every.except_bind free_issueSession fun _ => trivial
  | refresh t j u => exact absurd rfl (hq t j u)
  | logout t =>
      exact free_map (free_propagate
        (Prog.Every.except_bind free_update fun _ => trivial))

end DpopAuth.Ports.RefreshFailure
