import Mathlib
import DpopAuth.Verified.RowHistories
import DpopAuth.Verified.BlockDrafts
import DpopAuth.Ports.UniqueKeys
import DpopAuth.Ports.RegisterLogin

/-!
# What a registration is worth

`register` answers with tokens after its `COMMIT`.  Where that is not sent in
an aborted block, the answer is backed by three committed rows: the user, the
identifier and the refresh token.  No call ever changes the key, the name or
the password hash of a user, or an identifier at all, so the rows are there in
every later state; and since the unique indexes hold, the identifier leads
`find_user_by_identifier` to this user, until the application deletes it, and
no other registration of the identifier is ever answered with tokens.

## Main results

* `registered_account` — what an answered registration leaves behind.
* `one_registration` — two answered registrations have two identifiers.
-/

namespace DpopAuth.Ports.Registration

open DpopAuth.Verified.Resumption
open DpopAuth.Verified.RelyGuarantee
open DpopAuth.Verified.RowVersions
open DpopAuth.Verified.Transactions
open DpopAuth.Verified.StepRules
open DpopAuth.Verified.RowHistories
open DpopAuth.Verified.UniqueIndex
open DpopAuth.Verified.BlockDrafts
open DpopAuth.Ports.Schema
open DpopAuth.Ports.Service
open DpopAuth.Ports.Repo
open DpopAuth.Ports.Auth
open DpopAuth.Ports.AuthQueries
open DpopAuth.Ports.FamilyProtocol
open DpopAuth.Ports.RegisterLogin
open DpopAuth.Ports.UniqueKeys

variable {svc : AuthService} {i j : Nat} {w w' : Srv} {α β : Type}

/-! ## The history of a row -/

/-- What no call changes of a row. -/
def SameRow : ∀ t, Row t → Row t → Prop
  | .users => fun r v => v.id = r.id ∧ v.publicId = r.publicId ∧
      v.name = r.name ∧ v.passwordHash = r.passwordHash
  | .identifiers => fun r v => v = r
  | .refreshTokens => SameToken
  | .loginAttempts => fun r v => v = r
  | .recoveryCodes => fun r v => v = r

theorem isHistory : IsHistory SameRow where
  refl {t} r := by
    cases t with
    | users => exact ⟨rfl, rfl, rfl, rfl⟩
    | refreshTokens => exact SameToken.refl r
    | identifiers => exact rfl
    | loginAttempts => exact rfl
    | recoveryCodes => exact rfl
  trans {t} r s u h h' := by
    cases t with
    | users =>
        exact ⟨h'.1.trans h.1, h'.2.1.trans h.2.1, h'.2.2.1.trans h.2.2.1,
          h'.2.2.2.trans h.2.2.2⟩
    | refreshTokens =>
        simp only [SameRow, SameToken] at h h' ⊢
        rw [h', h]
    | identifiers => exact Eq.trans h' h
    | loginAttempts => exact Eq.trans h' h
    | recoveryCodes => exact Eq.trans h' h

/-- Rows keep what no call changes of them. -/
abbrev Stays : Srv → Srv → Prop := Follows (fun _ _ => True) SameRow

/-- A session leaves the others alone, and identifiers are drawn once. -/
structure Orderly (i : Nat) (w w' : Srv) : Prop where
  frame : w.Frame i w'
  ledger : (w.mem.drawn.map Prod.snd).Nodup →
    (w'.mem.drawn.map Prod.snd).Nodup ∧ w.mem.drawn <:+ w'.mem.drawn

theorem orderly_same (hframe : w.Frame i w') (hmem : w'.mem.drawn = w.mem.drawn) :
    Orderly i w w' := by
  refine ⟨hframe, fun h => ?_⟩
  rw [hmem]
  exact ⟨h, List.suffix_refl _⟩

theorem respects_orderly : Respects i (Orderly i) := by
  refine Respects.weaken (respects_frame.and respects_memory) (fun h => ?_)
    fun h h' => ?_
  · exact orderly_same h.1 (by rw [h.2.1])
  · refine ⟨h.frame.trans h'.frame, fun hnodup => ?_⟩
    obtain ⟨hv, hgrow⟩ := h.ledger hnodup
    obtain ⟨hw, hgrow'⟩ := h'.ledger hv
    exact ⟨hw, hgrow.trans hgrow'⟩

theorem newUuid_cases {ch : Pick} {v : Uuid}
    (hstep : newUuidStep i ch w = some (v, w')) :
    v ∉ w.mem.drawn.map Prod.snd ∧
      w' = { w with mem := { w.mem with drawn := (i, v) :: w.mem.drawn } } := by
  unfold newUuidStep at hstep
  split at hstep
  · split at hstep
    · cases hstep
    · rename_i hunseen
      simp only [Option.some.injEq, Prod.mk.injEq] at hstep
      obtain ⟨rfl, rfl⟩ := hstep
      refine ⟨fun hin => hunseen ?_, rfl⟩
      obtain ⟨d, hd, hdv⟩ := List.mem_map.mp hin
      exact List.any_eq_true.mpr ⟨d, hd, by simp [hdv]⟩
  · cases hstep

theorem queries_stay : Queries svc (Within i Stays) where
  select := within_select (respects_follows isHistory)
  insertUser row := within_insert (respects_follows isHistory)
    fun hinsert => follows_insert isHistory (fun _ _ => trivial) hinsert
  insertIdentifier row := within_insert (respects_follows isHistory)
    fun hinsert => follows_insert isHistory (fun _ _ => trivial) hinsert
  insertToken row := within_insert (respects_follows isHistory)
    fun hinsert => follows_insert isHistory (fun _ _ => trivial) hinsert
  updateLastLoginAt id := by
    refine Prog.Every.except_bind (within_update (respects_follows isHistory)
      fun hvisit => follows_visit isHistory (fun r _ _ => ?_) hvisit)
      fun _ => trivial
    exact ⟨trivial, rfl, rfl, rfl, rfl⟩
  revokeWhere pt p := by
    refine within_update (respects_follows isHistory) fun hvisit =>
      follows_visit isHistory (fun r _ _ => ?_) hvisit
    exact ⟨trivial, SameToken.revoke _ r⟩
  recordLoginAttempt kind value ip success reason :=
    within_insert (respects_follows isHistory)
      fun hinsert => follows_insert isHistory (fun _ _ => trivial) hinsert
  block := within_transaction (respects_follows isHistory)
  look hf := fun ch w b w' hstep => .same isHistory (by rw [hf hstep])
  fresh := fun ch w b w' hstep => by
    obtain ⟨-, rfl⟩ := newUuid_cases hstep
    exact .same isHistory rfl
  graceInsert key value := Prog.Every.step fun ch w b w' hstep => by
    simp only [Option.some.injEq, Prod.mk.injEq] at hstep
    rw [← hstep.2]
    exact .same isHistory rfl

theorem orderly_insert {t : Tbl} {dup : Row t → Row t → Bool}
    {rs : List (Row t)} {x : Table (Row t)}
    (hinsert : insertRows i dup rs (w.db t) = some (.ok x)) :
    Orderly i w (w.setTable t x) :=
  orderly_same (World.frame_setTable fun _ hj => insertRows_same hj hinsert) rfl

theorem orderly_visit {t : Tbl} {p : Row t → Bool} {f : Row t → Row t} {k : Nat}
    {o : Option (Row t)} {x : Table (Row t)}
    (hvisit : (w.db t).visit i p f k = some (o, x)) :
    Orderly i w (w.setTable t x) :=
  orderly_same (World.frame_setTable fun _ hj =>
    Table.same_visit (Ne.symm hj) hvisit) rfl

theorem queries_orderly : Queries svc (Within i (Orderly i)) where
  select := within_select respects_orderly
  insertUser row := within_insert respects_orderly orderly_insert
  insertIdentifier row := within_insert respects_orderly orderly_insert
  insertToken row := within_insert respects_orderly orderly_insert
  updateLastLoginAt id := Prog.Every.except_bind
    (within_update respects_orderly orderly_visit) fun _ => trivial
  revokeWhere pt p := within_update respects_orderly orderly_visit
  recordLoginAttempt kind value ip success reason :=
    within_insert respects_orderly orderly_insert
  block := within_transaction respects_orderly
  look hf := fun ch w b w' hstep => by
    rw [hf hstep]
    exact respects_orderly.refl w
  fresh := fun ch w b w' hstep => by
    obtain ⟨hnew, rfl⟩ := newUuid_cases hstep
    refine ⟨World.frame_mem _ _ _, fun hnodup => ⟨?_, List.suffix_cons _ _⟩⟩
    exact List.nodup_cons.mpr ⟨hnew, hnodup⟩
  graceInsert key value := Prog.Every.step fun ch w b w' hstep => by
    simp only [Option.some.injEq, Prod.mk.injEq] at hstep
    rw [← hstep.2]
    exact orderly_same (World.frame_mem _ _ _) rfl

/-! ## The logic -/

/-- What holds between any two steps. -/
structure Accounts (svc : AuthService) (w : Srv) : Prop where
  indexed : Indexed (index svc) w
  linked : Linked (fun _ _ => True) SameRow w
  drawn : (w.mem.drawn.map Prod.snd).Nodup

/-- What a step of session `i` does. -/
structure Move (i : Nat) (w w' : Srv) : Prop where
  frame : w.Frame i w'
  evolves : Evolves SameRow w w'
  ledger : w.mem.drawn <:+ w'.mem.drawn

/-- What happens outside of the calls. -/
structure Outer (w w' : Srv) : Prop where
  evolves : Evolves SameRow w w'
  session : w'.session = w.session
  held : ∀ j t, ∀ c ∈ w.db t, c.heldBy j = true → c ∈ w'.db t
  ledger : w'.mem.drawn = w.mem.drawn

def accountsLogic (svc : AuthService) : Logic Srv where
  inv := Accounts svc
  guar := Move
  env := Outer

/-- Every step of every call is a move. -/
theorem call_moves {q : Call} : (q.body svc).Every fun f =>
    ∀ ⦃ch w b w'⦄, f i ch w = some (b, w') → Accounts svc w →
      Accounts svc w' ∧ Move i w w' := by
  have hstay : (q.body svc).Every (Within i Stays) := queries_stay.call
  have hindexed : (q.body svc).Every (Within i (KeepIndexed (index svc))) :=
    queries_indexed.call
  have horderly : (q.body svc).Every (Within i (Orderly i)) :=
    queries_orderly.call
  have hall := every_and hindexed (every_and hstay horderly)
  refine Prog.Every.mono (fun {β f} hf ch w b w' hstep h => ?_) hall
  obtain ⟨hlinked, hevolves⟩ := hf.2.1 hstep h.linked
  obtain ⟨hdrawn, hledger⟩ := (hf.2.2 hstep).ledger h.drawn
  exact ⟨⟨hf.1 hstep h.indexed, hlinked, hdrawn⟩, (hf.2.2 hstep).frame,
    hevolves, hledger⟩

/-! ## Cancellations and the surroundings -/

theorem accounts_cancel (h : Accounts svc w) :
    Accounts svc (w.rollbackTx i) ∧ Move i w (w.rollbackTx i) := by
  have hdb : ∀ t, (w.rollbackTx i).db t = (w.db t).rollback i := fun _ => rfl
  obtain ⟨hlinked, hevolves⟩ := h.linked.rollback isHistory hdb
  exact ⟨⟨fun t => unique_rollback (h.indexed t), hlinked, h.drawn⟩,
    World.frame_rollbackTx i w, hevolves, List.suffix_refl _⟩

/-- The cell of a user the application deletes. -/
theorem softDelete_at (id : Uuid) (now : DateTime) (x : Table UserRow) (k : Nat) :
    ∃ g : Cell UserRow → Cell UserRow,
      (softDelete id now x)[k]? = x[k]?.map g ∧
      (∀ c j, c.heldBy j = true → g c = c) ∧
      (∀ c, CellLinked (SameRow .users) c → CellLinked (SameRow .users) (g c)) ∧
      ∀ c r, c.committed = some r → ∃ v, (g c).committed = some v ∧
        SameRow .users r v := by
  refine ⟨_, List.getElem?_map, fun c j hj => ?_, fun c hc => ?_,
    fun c r hr => ?_⟩
  · obtain ⟨_ | u, _ | ⟨l, v⟩⟩ := c
    · rfl
    · rfl
    · cases hj
    · rfl
  · obtain ⟨_ | u, _ | ⟨l, v⟩⟩ := c
    · exact hc
    · exact hc
    · dsimp only
      split
      · intro r _ j v hv
        cases hv
      · exact hc
    · exact hc
  · obtain ⟨_ | u, _ | ⟨l, v⟩⟩ := c
    · cases hr
    · cases hr
    · obtain rfl : u = r := Option.some.inj hr
      dsimp only
      split
      · exact ⟨_, rfl, rfl, rfl, rfl, rfl⟩
      · exact ⟨u, rfl, rfl, rfl, rfl, rfl⟩
    · exact ⟨r, hr, isHistory.refl (t := Tbl.users) r⟩

theorem accounts_env {e : Outside} (h : Accounts svc w)
    (he : e.effect w = some w') : Accounts svc w' ∧ Outer w w' := by
  have hindexed := indexed_env h.indexed he
  cases e with
  | tick d =>
      cases he
      exact ⟨⟨hindexed, ⟨h.linked.versions, h.linked.links⟩, h.drawn⟩,
        .refl isHistory w, rfl, fun _ _ _ hc _ => hc, rfl⟩
  | evict key =>
      cases he
      exact ⟨⟨hindexed, ⟨h.linked.versions, h.linked.links⟩, h.drawn⟩,
        .refl isHistory w, rfl, fun _ _ _ hc _ => hc, rfl⟩
  | deleteUser id =>
      cases he
      let x := softDelete id w.clock (w.db .users)
      have hother : ∀ t, t ≠ .users → (w.setTable .users x).db t = w.db t :=
        fun t ht => Function.update_of_ne ht _ _
      have hself : (w.setTable .users x).db .users = x := by
        simp [World.setTable]
      have hat := softDelete_at id w.clock (w.db .users)
      refine ⟨⟨hindexed, ⟨fun t c _ => ⟨fun _ _ => trivial, fun _ _ _ => trivial⟩,
        fun t c hc => ?_⟩, h.drawn⟩, fun t k r hr => ?_, rfl,
        fun j t c hc hj => ?_, rfl⟩
      · by_cases ht : t = .users
        · subst ht
          rw [hself] at hc
          obtain ⟨k, hk⟩ := List.mem_iff_getElem?.mp hc
          obtain ⟨g, hg, -, hlink, -⟩ := hat k
          rw [hg] at hk
          obtain ⟨d, hd, rfl⟩ := Option.map_eq_some_iff.mp hk
          exact hlink d (h.linked.links .users d (List.mem_of_getElem? hd))
        · rw [hother t ht] at hc
          exact h.linked.links t c hc
      · by_cases ht : t = .users
        · subst ht
          obtain ⟨c, hc, hcr⟩ := committedAt_eq.mp hr
          obtain ⟨g, hg, -, -, hkeep⟩ := hat k
          obtain ⟨v, hv, hsame⟩ := hkeep c r hcr
          refine ⟨v, ?_, hsame⟩
          rw [hself]
          exact committedAt_eq.mpr ⟨g c, by rw [hg, hc]; rfl, hv⟩
        · refine ⟨r, ?_, isHistory.refl r⟩
          rw [hother t ht]
          exact hr
      · by_cases ht : t = .users
        · subst ht
          obtain ⟨k, hk⟩ := List.mem_iff_getElem?.mp hc
          obtain ⟨g, hg, hheld, -, -⟩ := hat k
          have hstays : x[k]? = some c := by
            rw [hg, hk, Option.map_some, hheld c j hj]
          rw [hself]
          exact List.mem_of_getElem? hstays
        · rw [hother t ht]
          exact hc

/-! ## Assertions -/

theorem stable_drafting {D : Draft Row} :
    Stable (accountsLogic svc) i (Drafting i D) where
  thread hne _ _ hg h := h.frame hne hg.frame
  env _ _ he h := by
    unfold Drafting
    rw [he.session]
    refine h.imp id fun ⟨hst, hall⟩ => ⟨hst, fun x hx => ?_⟩
    obtain ⟨c, hc, r, hr, hψ⟩ := hall x hx
    exact ⟨c, he.held i x.1 c hc (by simp [Cell.heldBy, hr]), r, hr, hψ⟩

/-- The properties of a draft are about what no call changes. -/
def Lasting (D : Draft Row) : Prop :=
  ∀ x ∈ D, ∀ r v, SameRow x.1 r v → x.2 r → x.2 v

theorem published_evolves {D : Draft Row} (hD : Lasting D)
    (he : Evolves SameRow w w') (h : Published D w) : Published D w' := by
  intro x hx
  obtain ⟨r, hr, hψ⟩ := h x hx
  obtain ⟨k, hk⟩ := mem_rows_iff.mp hr
  obtain ⟨v, hv, hsame⟩ := he x.1 k r hk
  exact ⟨v, mem_rows_iff.mpr ⟨k, hv⟩, hD x hx r v hsame hψ⟩

theorem stable_published {D : Draft Row} (hD : Lasting D) :
    Stable (accountsLogic svc) i (Published D) where
  thread _ _ _ hg h := published_evolves hD hg.evolves h
  env _ _ he h := published_evolves hD he.evolves h

-- the identifiers drawn before the call that is followed
variable {base : List (Nat × Uuid)}

/-- Thread `i` drew the identifier, and not before the call. -/
def Drew (base : List (Nat × Uuid)) (i : Nat) (id : Uuid) (w : Srv) : Prop :=
  (i, id) ∈ w.mem.drawn ∧ id ∉ base.map Prod.snd

theorem Drew.move {id : Uuid} (hl : w.mem.drawn <:+ w'.mem.drawn)
    (h : Drew base i id w) : Drew base i id w' := ⟨hl.mem h.1, h.2⟩

theorem stable_drew {id : Uuid} :
    Stable (accountsLogic svc) j (Drew base i id) where
  thread _ _ _ hg h := h.move hg.ledger
  env _ _ he h := h.move (he.ledger ▸ List.suffix_refl _)

/-! ## The transaction of `register` -/

/-- What the transaction writes of the user. -/
def UserOf (params : RegisterParams) (id : Uuid) (phc : String)
    (u : UserRow) : Prop :=
  u.id = id ∧ u.name = params.name ∧ u.passwordHash = phc

def IdentifierOf (svc : AuthService) (params : RegisterParams) (id : Uuid)
    (d : IdentifierRow) : Prop :=
  d.userId = id ∧ d.kind = params.kind ∧
    d.value = svc.ext.toLowercase params.value ∧ d.deletedAt = none

def TokenOf (svc : AuthService) (params : RegisterParams) (id : Uuid)
    (secret : String) (r : RefreshTokenRow) : Prop :=
  r.userId = id ∧ r.tokenHash = svc.hashToken secret ∧ r.dpopJkt = params.jkt

abbrev userDraft (params : RegisterParams) (id : Uuid) (phc : String) :
    Draft Row := [⟨.users, UserOf params id phc⟩]

abbrev identifierDraft (svc : AuthService) (params : RegisterParams) (id : Uuid)
    (phc : String) : Draft Row :=
  ⟨.identifiers, IdentifierOf svc params id⟩ :: userDraft params id phc

abbrev enrolmentDraft (svc : AuthService) (params : RegisterParams) (id : Uuid)
    (phc secret : String) : Draft Row :=
  ⟨.refreshTokens, TokenOf svc params id secret⟩ ::
    identifierDraft svc params id phc

theorem lasting_enrolment {params : RegisterParams} {id : Uuid}
    {phc secret : String} : Lasting (enrolmentDraft svc params id phc secret) := by
  intro x hx
  simp only [List.mem_cons, List.not_mem_nil, or_false] at hx
  rcases hx with rfl | rfl | rfl
  · intro r v hsame h
    have htoken : SameToken r v := hsame
    exact ⟨htoken.session.userId.trans h.1, htoken.tokenHash.trans h.2.1,
      htoken.session.dpopJkt.trans h.2.2⟩
  · intro r v hsame h
    obtain rfl : v = r := hsame
    exact h
  · intro r v hsame h
    exact ⟨hsame.1.trans h.1, hsame.2.2.1.trans h.2.1,
      hsame.2.2.2.trans h.2.2⟩

/-- The steps of session `i` are known to be moves in a state that has drawn
what was drawn before the call, and no registration sends its `COMMIT` in an
aborted block. -/
abbrev Sending (svc : AuthService) (base : List (Nat × Uuid)) (i : Nat)
    (pt : Point) (ch : Pick) (w w' : Srv) : Prop :=
  Sent i pt ch w ∧ Accounts svc w' ∧ Move i w w' ∧ base <:+ w.mem.drawn

theorem known {pt : Point} {ch : Pick} (_ : (accountsLogic svc).inv w)
    (h : Sending svc base i pt ch w w') :
    (accountsLogic svc).inv w' ∧ (accountsLogic svc).guar i w w' :=
  ⟨h.2.1, h.2.2.1⟩

/-- A program in a block that adds to the draft; what thread `i` drew stays
drawn. -/
abbrev Writes (svc : AuthService) (base : List (Nat × Uuid)) (i : Nat)
    (id : Uuid) (D : Draft Row) {ξ : Type}
    (p : ExceptT ξ (Prog Point Srv Pick) α) (D' : Draft Row) : Prop :=
  Outline (accountsLogic svc) (Sending svc base i) i p.run
    (fun w => Drafting i D w ∧ Drew base i id w)
    (exceptPost (fun _ w => Drafting i D' w ∧ Drew base i id w) fun _ => True)

variable {D D' : Draft Row} {id : Uuid} {ξ : Type}

/-- What was drawn stays drawn. -/
theorem keeps_drew {p : Prog Point Srv Pick α} :
    Outline (accountsLogic svc) (Sending svc base i) i p (Drew base i id)
      fun _ => Drew base i id :=
  Outline.keep_of_filter stable_drew fun _ hdrew hw =>
    ⟨hw.2.1, hw.2.2.1, hdrew.move hw.2.2.1.ledger⟩

theorem writes_of_drafts {p : ExceptT ξ (Prog Point Srv Pick) α}
    (D' : Draft Row)
    (h : Drafts (accountsLogic svc) i (Sending svc base i) D p.run fun _ => D') :
    Writes svc base i id D p D' := by
  refine (Outline.and h keeps_drew).post fun r w _ hw => ?_
  cases r with
  | error e => trivial
  | ok a => exact hw

/-- A step that leaves the database alone. -/
abbrev Quiet (i : Nat) {β : Type} (f : Action Srv Pick β) : Prop :=
  ∀ ⦃ch w b w'⦄, f i ch w = some (b, w') →
    w'.db = w.db ∧ w'.session = w.session

theorem looks_quiet : Looks (Quiet i) where
  look hf := fun ch w b w' hstep => by
    rw [hf hstep]
    exact ⟨rfl, rfl⟩
  fresh := fun ch w b w' hstep => by
    obtain ⟨-, rfl⟩ := newUuid_cases hstep
    exact ⟨rfl, rfl⟩

theorem drafting_of_quiet {p : Prog Point Srv Pick α} (hp : p.Every (Quiet i)) :
    Outline (accountsLogic svc) (Sending svc base i) i p (Drafting i D)
      fun _ => Drafting i D :=
  draft_quiet (fun _ => stable_drafting) known hp

theorem writes_of_quiet {p : ExceptT ξ (Prog Point Srv Pick) α}
    (hp : p.run.Every (Quiet i)) : Writes svc base i id D p D := by
  refine (Outline.and (drafting_of_quiet hp) keeps_drew).post fun r w _ hw => ?_
  cases r with
  | error e => trivial
  | ok a => exact hw

/-- A fresh identifier. -/
theorem newUuid_writes :
    Outline (accountsLogic svc) (Sending svc base i) i newUuid (Drafting i D)
      fun id w => Drafting i D w ∧ Drew base i id w := by
  refine Outline.step (fun id => stable_drafting.and stable_drew)
    fun {w ch id w'} _ hD hstep hw => ?_
  obtain ⟨hunseen, rfl⟩ := newUuid_cases hstep
  refine ⟨hw.2.1, hw.2.2.1, hD.same rfl rfl, List.mem_cons_self, fun hbase => ?_⟩
  exact hunseen ((hw.2.2.2.map Prod.snd).mem hbase)

theorem createUser_writes {params : RegisterParams} {phc : String}
    {changedAt : Option DateTime} :
    Outline (accountsLogic svc) (Sending svc base i) i
      (createUser params.name phc changedAt).run (Drafting i [])
      (exceptPost (fun user w => Drafting i (userDraft params user.id phc) w ∧
        Drew base i user.id w) fun _ => True) := by
  refine Outline.except_bind (Outline.lift newUuid_writes) fun id => ?_
  refine Outline.except_bind (writes_of_quiet
    (Prog.Every.lift looks_quiet.newUuid)) fun publicId => ?_
  refine Outline.except_bind (writes_of_drafts (userDraft params id phc)
    (draft_insert (fun _ => stable_drafting) known ?_)) fun _ => ?_
  · exact ⟨rfl, rfl, rfl⟩
  · exact Outline.pure fun _ _ hw => hw

theorem createIdentifier_writes {params : RegisterParams} {phc : String}
    {primary : Bool} {verifiedAt : Option DateTime} :
    Writes svc base i id (userDraft params id phc)
      (createIdentifier svc id params.kind params.value primary verifiedAt)
      (identifierDraft svc params id phc) := by
  refine Outline.except_bind (writes_of_drafts
    (identifierDraft svc params id phc)
    (draft_insert (fun _ => stable_drafting) known ?_)) fun _ => ?_
  · exact ⟨rfl, rfl, rfl, rfl⟩
  · exact Outline.pure fun _ _ hw => hw

theorem updateLastLoginAt_writes {params : RegisterParams} {phc : String} :
    Writes svc base i id (identifierDraft svc params id phc)
      (updateLastLoginAt id) (identifierDraft svc params id phc) := by
  refine Outline.except_bind (writes_of_drafts
    (identifierDraft svc params id phc)
    (draft_update (fun _ => stable_drafting) known ?_)) fun _ =>
      Outline.pure fun _ _ hw => hw
  intro now φ hφ u hu
  simp only [List.mem_cons, Sigma.mk.injEq, heq_eq_eq, List.not_mem_nil,
    or_false, reduceCtorEq, false_and, true_and, false_or] at hφ
  subst hφ
  exact hu

theorem createRefreshToken_writes {params : RegisterParams}
    {phc : String} (secret : String) {token : CreateRefreshTokenParams}
    (htoken : TokenOf svc params id secret token.row) :
    Writes svc base i id (identifierDraft svc params id phc)
      (createRefreshToken token) (enrolmentDraft svc params id phc secret) := by
  refine Outline.except_bind (writes_of_drafts
    (enrolmentDraft svc params id phc secret)
    (draft_insert (fun _ => stable_drafting) known htoken)) fun _ =>
      Outline.pure fun _ _ hw => hw

/-- The audit record is dropped from the draft again, as its error is. -/
theorem recordLoginAttempt_writes {kind value ip : String} {success : Bool}
    {reason : Option String} : Writes svc base i id D
      (recordLoginAttempt svc kind value ip success reason).ignore D := by
  have hinsert : Drafts (accountsLogic svc) i (Sending svc base i) D
      (recordLoginAttempt svc kind value ip success reason).run
      fun _ => ⟨.loginAttempts, fun _ => True⟩ :: D :=
    draft_insert (fun _ => stable_drafting) known trivial
  refine Outline.bind (fun r => ?_) (Outline.and hinsert keeps_drew)
  cases r with
  | error e => exact fun _ _ hw => hw
  | ok a =>
      exact fun _ _ hw => ⟨hw.1.part (List.subset_cons_self _ _), hw.2⟩

/-- What the transaction of `register` has written when it asks for its
`COMMIT`. -/
theorem registerTx_writes {params : RegisterParams} {phc : String} :
    Outline (accountsLogic svc) (Sending svc base i) i
      (registerTx svc params phc).run (Drafting i [])
      (exceptPost (Submits i
        (fun a : UserRow × String =>
          enrolmentDraft svc params a.1.id phc a.2)
        (fun a => Drew base i a.1.id) fun pt => ∃ fam, pt = .registered fam)
        fun _ => True) := by
  refine Outline.except_bind (R := fun _ => Drafting i []) (Outline.lift
    (drafting_of_quiet looks_quiet.utcNow)) fun changedAt => ?_
  refine Outline.except_bind (FamilyOutlines.propagate_outline
    createUser_writes) fun user => ?_
  refine Outline.except_bind (writes_of_quiet
    (Prog.Every.lift looks_quiet.utcNow)) fun verifiedAt => ?_
  refine Outline.except_bind (R := fun _ w => Drafting i
    (identifierDraft svc params user.id phc) w ∧ Drew base i user.id w)
    (Outline.bind (fun r => ?_) createIdentifier_writes) fun _ => ?_
  · cases r <;> exact fun _ _ hw => hw
  refine Outline.except_bind (FamilyOutlines.propagate_outline
    updateLastLoginAt_writes) fun _ => ?_
  refine Outline.except_bind (writes_of_quiet looks_quiet.newText)
    fun secret => ?_
  refine Outline.except_bind (writes_of_quiet
    (Prog.Every.lift looks_quiet.newUuid)) fun fam => ?_
  refine Outline.except_bind (writes_of_quiet looks_quiet.refreshExpiry)
    fun expiresAt => ?_
  refine Outline.except_bind (FamilyOutlines.propagate_outline
    (createRefreshToken_writes secret ⟨rfl, rfl, rfl⟩)) fun _ => ?_
  refine Outline.except_bind recordLoginAttempt_writes fun _ => ?_
  exact Outline.pure fun w _ hw => ⟨⟨fam, rfl⟩, hw⟩

/-- The rows of an enrolment are committed, and thread `i` drew the user. -/
def Enrolment (svc : AuthService) (base : List (Nat × Uuid)) (i : Nat)
    (params : RegisterParams) (phc : String) (a : UserRow × String) (w : Srv) :
    Prop :=
  Published (enrolmentDraft svc params a.1.id phc a.2) w ∧ Drew base i a.1.id w

theorem stable_enrolment {params : RegisterParams} {phc : String}
    {a : UserRow × String} :
    Stable (accountsLogic svc) j (Enrolment svc base i params phc a) :=
  (stable_published lasting_enrolment).and stable_drew

theorem Enrolment.move {params : RegisterParams} {phc : String}
    {a : UserRow × String} (he : Evolves SameRow w w')
    (hl : w.mem.drawn <:+ w'.mem.drawn) (h : Enrolment svc base i params phc a w) :
    Enrolment svc base i params phc a w' :=
  ⟨published_evolves lasting_enrolment he h.1, h.2.move hl⟩

/-- Any program after the transaction. -/
theorem keeps_enrolment {params : RegisterParams} {phc : String}
    {a : UserRow × String} {p : Prog Point Srv Pick α} :
    Outline (accountsLogic svc) (Sending svc base i) i p
      (Enrolment svc base i params phc a) fun _ => Enrolment svc base i params phc a :=
  Outline.keep_of_filter stable_enrolment fun _ h hw =>
    ⟨hw.2.1, hw.2.2.1, h.move hw.2.2.1.evolves hw.2.2.1.ledger⟩

/-- What an answered registration has committed. -/
def Registered (svc : AuthService) (base : List (Nat × Uuid)) (i : Nat)
    (params : RegisterParams) (pair : TokenPair) (w : Srv) : Prop :=
  ∃ phc salt user, svc.ext.argon2Hash salt params.password = .ok phc ∧
    Enrolment svc base i params phc (user, pair.refreshToken) w

theorem registered_inTransaction {params : RegisterParams} {phc : String} :
    Outline (accountsLogic svc) (Sending svc base i) i
      (inTransaction (registerTx svc params phc)).run (fun _ => True)
      (exceptPost (fun a => Enrolment svc base i params phc a) fun _ => True) :=
  Outline.draft (fun _ => stable_drafting) known
    (fun a : UserRow × String => enrolmentDraft svc params a.1.id phc a.2)
    (fun a => Drew base i a.1.id) (fun pt => ∃ fam, pt = .registered fam)
    (fun {pt ch w w'} ⟨fam, hpt⟩ hw => by
      have hsent : Sent i pt ch w := hw.1
      rw [hpt] at hsent
      exact hsent)
    (fun _ => stable_published lasting_enrolment) (fun _ => stable_drew)
    (fun hg h => h.move hg.ledger) registerTx_writes

/-- Hashing a password. -/
theorem hashPassword_outline {password : String} :
    Outline (accountsLogic svc) (Sending svc base i) i
      (hashPasswordAsync svc password).run (fun _ => True)
      (exceptPost (fun phc _ => ∃ salt,
        svc.ext.argon2Hash salt password = .ok phc) fun _ => True) := by
  refine Outline.except_bind (R := fun _ _ => True)
    (Outline.of_filter known |>.post fun r _ _ _ => ?_)
    fun salt => ?_
  · cases r <;> trivial
  · split
    · rename_i phc hphc
      exact Outline.pure fun _ _ _ => ⟨salt, hphc⟩
    · exact Outline.throw fun _ _ _ => trivial

theorem register_outline {params : RegisterParams} :
    Outline (accountsLogic svc) (Sending svc base i) i (register svc params).run
      (fun _ => True)
      (exceptPost (fun pair => Registered svc base i params pair) fun _ => True) := by
  unfold register
  split
  · exact Outline.throw fun _ _ _ => trivial
  · refine Outline.except_bind hashPassword_outline fun phc => ?_
    refine Outline.weaken (P := fun w => (∃ salt,
      svc.ext.argon2Hash salt params.password = .ok phc) ∧ True)
      (fun _ _ h => ⟨h, trivial⟩) (Outline.of_prop fun ⟨salt, hsalt⟩ => ?_)
    refine Outline.except_bind registered_inTransaction fun a => ?_
    refine Outline.except_bind (R := fun _ => Enrolment svc base i params phc a)
      (keeps_enrolment.post fun r w _ hw => ?_) fun access => ?_
    · cases r with
      | error e => trivial
      | ok access => exact hw
    · exact Outline.pure fun _ _ hw => ⟨phc, salt, a.1, hsalt, hw⟩

/-! ## Runs -/

/-- Runs in which no registration sends its `COMMIT` in an aborted block. -/
def sentRuns : Filter Point Srv Pick Outside Call where
  run i _ pt ch w _ := Sent i pt ch w
  cancel _ _ := True
  env _ _ _ := True

variable {clock : DateTime} {c d : AuthConfig}

/-- The same, with what is known of their steps. -/
def accountsRuns (svc : AuthService) (base : List (Nat × Uuid)) :
    Filter Point Srv Pick Outside Call where
  run i _ pt ch w w' := Sending svc base i pt ch w w'
  cancel _ _ := True
  env _ w w' := Accounts svc w' ∧ Outer w w'

theorem accounts_start : Accounts svc (initial clock) where
  indexed _ := unique_nil
  linked := ⟨fun _ _ hc => absurd hc List.not_mem_nil,
    fun _ _ hc => absurd hc List.not_mem_nil⟩
  drawn := List.nodup_nil

/-- Every call, whatever is asked of its run. -/
theorem body_outline {F : Point → Pick → Srv → Srv → Prop} {q : Call} :
    Outline (accountsLogic svc) F i (q.body svc) (fun _ => True)
      fun _ _ => True := by
  have hmoves : (q.body svc).Every fun f => ∀ ⦃ch w b w'⦄,
      f i ch w = some (b, w') → Accounts svc w →
        Accounts svc w' ∧ Move i w w' := call_moves
  refine Outline.every (.const True)
    (Prog.Every.mono (fun {β f} hf w ch b w' hinv _ hstep => ?_) hmoves)
  obtain ⟨hinv', hmove⟩ := hf hstep hinv
  exact ⟨hinv', hmove, trivial⟩

/-- What is known of every configuration. -/
abbrev GoodAccounts (svc : AuthService) (F : Filter Point Srv Pick Outside Call)
    (c : AuthConfig) : Prop :=
  Good (accountsLogic svc) F (fun _ _ => True) (fun _ _ _ _ => True) c

theorem good_run {F : Filter Point Srv Pick Outside Call}
    (h : GoodAccounts svc F c) (hrun : (authSystem svc).Reaches F c d) :
    GoodAccounts svc F d :=
  sound (M := authSystem svc) (fun _ => .const True) (fun _ _ => body_outline)
    (fun hw _ => ⟨(accounts_cancel hw).1, (accounts_cancel hw).2, trivial⟩)
    (fun hw he _ => accounts_env hw he) h hrun

theorem good_start {F : Filter Point Srv Pick Outside Call} :
    GoodAccounts svc F (.start (initial clock)) :=
  Good.start accounts_start fun _ => trivial

/-- Rows stay along every run. -/
theorem evolves_run (h : GoodAccounts svc .all c)
    (hrun : (authSystem svc).Reaches .all c d) :
    Evolves SameRow c.shared d.shared ∧
      c.shared.mem.drawn <:+ d.shared.mem.drawn := by
  refine sound_trans (M := authSystem svc)
    (R := fun w w' : Srv => Evolves SameRow w w' ∧
      w.mem.drawn <:+ w'.mem.drawn)
    (fun _ => .const True) (fun _ _ => body_outline)
    (fun hw _ => ⟨(accounts_cancel hw).1, (accounts_cancel hw).2, trivial⟩)
    (fun hw he _ => accounts_env hw he) (fun w => ?_) (fun hw hw' => ?_)
    (fun _ _ hg => ⟨hg.evolves, hg.ledger⟩) (fun _ _ he => ?_) h hrun
  · exact ⟨.refl isHistory w, List.suffix_refl _⟩
  · exact ⟨hw.1.trans isHistory hw'.1, hw.2.trans hw'.2⟩
  · exact ⟨he.evolves, he.ledger ▸ List.suffix_refl _⟩

/-- What an answer of a call is worth. -/
def Answered (svc : AuthService) (base : List (Nat × Uuid)) (q : Call) (i : Nat)
    (r : Except Stop Reply) (w : Srv) : Prop :=
  ∀ params pair, q = .register params → r = .ok (.tokens pair) →
    Registered svc base i params pair w

theorem call_outline {q : Call} :
    Outline (accountsLogic svc) ((accountsRuns svc base).run i q) i (q.body svc)
      (fun _ => True) (Answered svc base q i) := by
  have hother : ∀ q : Call, (∀ params, q ≠ .register params) →
      Outline (accountsLogic svc) ((accountsRuns svc base).run i q) i (q.body svc)
        (fun _ => True) (Answered svc base q i) := by
    intro q hq
    refine (Outline.of_filter known).post
      fun _ _ _ _ params pair hregister _ => ?_
    exact absurd hregister (hq params)
  cases q with
  | register params =>
      refine Outline.bind (fun r => ?_) register_outline
      cases r with
      | error e =>
          intro w _ _ params' pair _ hok
          cases hok
      | ok pair =>
          intro w _ h params' pair' hq hok
          cases hq
          cases hok
          exact h
  | login kind value password jkt ip ua => exact hother _ fun _ h => by cases h
  | refresh rt jkt ua => exact hother _ fun _ h => by cases h
  | logout rt => exact hother _ fun _ h => by cases h

theorem reaches_all (hrun : (authSystem svc).Reaches sentRuns c d) :
    (authSystem svc).Reaches .all c d :=
  hrun.mono (fun _ => trivial) (fun _ => trivial) fun _ => trivial

theorem good_all
    (hrun : (authSystem svc).Reaches sentRuns (.start (initial clock)) c) :
    GoodAccounts svc .all c := good_run good_start (reaches_all hrun)

/-- What is known of the steps of a run, and of its ledger. -/
theorem known_run (hgood : GoodAccounts svc .all c)
    (hrun : (authSystem svc).Reaches sentRuns c d) :
    (authSystem svc).Reaches (accountsRuns svc c.shared.mem.drawn) c d := by
  induction hrun with
  | refl => exact .refl
  | @tail d e hrun hstep ih =>
      have hd := good_run hgood (reaches_all hrun)
      have hledger := (evolves_run hgood (reaches_all hrun)).2
      have hwithin := step_within (M := authSystem svc) (G := sentRuns)
        (fun hw he _ => accounts_env hw he) (fun _ => trivial)
        (fun _ => trivial) hd hstep
      refine ih.tail ?_
      cases hwithin with
      | call free => exact .call free
      | run stands takes allowed =>
          exact .run stands takes ⟨allowed.1, allowed.2.1, allowed.2.2, hledger⟩
      | cancel stands allowed => exact .cancel stands allowed
      | env takes allowed => exact .env takes allowed.2

/-- An answered registration that has started at `c` or later is committed. -/
theorem registered_of_answer (hgood : GoodAccounts svc .all c)
    (hfree : c.thread i = none)
    (hrun : (authSystem svc).Reaches sentRuns c d) {params : RegisterParams}
    {pair : TokenPair}
    (hanswer : d.answer i = some (.register params, .ok (.tokens pair))) :
    Registered svc c.shared.mem.drawn i params pair d.shared := by
  have hend : Good (accountsLogic svc) (accountsRuns svc c.shared.mem.drawn)
      (fun _ _ => True)
      (fun q k r w => k = i → Answered svc c.shared.mem.drawn q k r w) d :=
    sound (M := authSystem svc) (fun _ => .const True)
      (fun _ _ => call_outline.post fun _ _ _ h _ => h)
      (fun hw _ => ⟨(accounts_cancel hw).1, (accounts_cancel hw).2, trivial⟩)
      (fun hw he _ => accounts_env hw he)
      (Good.fresh (Q := Answered svc c.shared.mem.drawn) hgood.inv
        (fun _ _ => trivial) hfree known)
      (known_run hgood hrun)
  exact hend.result (Config.answer_eq.mp hanswer) rfl params pair rfl rfl

/-! ## Accounts -/

/-- The committed identifier row of an enrolment is found under it. -/
theorem names_of_identifier (hlower : ∀ s, svc.ext.toLowercase
      (svc.ext.toLowercase s) = svc.ext.toLowercase s)
    {params : RegisterParams} {id : Uuid} {value : String} {x : IdentifierRow}
    (hx : IdentifierOf svc params id x)
    (hvalue : svc.ext.toLowercase value = svc.ext.toLowercase params.value) :
    Names svc params.kind value x = true := by
  obtain ⟨-, hkind, hstored, hlive⟩ := hx
  simp [Names, hkind, hstored, hlive, hvalue, hlower]

/-- **A registration that is answered with tokens has an account**, in every
later state: a committed user with the name and a hash of the password, which
`find_user_by_identifier` finds under every spelling of the identifier that
has the same lower case, until the application deletes the user. -/
theorem registered_account
    (hlower : ∀ s, svc.ext.toLowercase (svc.ext.toLowercase s) =
      svc.ext.toLowercase s)
    (hrun : (authSystem svc).Reaches sentRuns (.start (initial clock)) c)
    {params : RegisterParams} {pair : TokenPair}
    (hanswer : c.answer i = some (.register params, .ok (.tokens pair))) :
    ∃ phc salt id, svc.ext.argon2Hash salt params.password = .ok phc ∧
      ∀ d, (authSystem svc).Reaches .all c d →
        ∃ u ∈ (d.shared.db .users).rows, UserOf params id phc u ∧
          (u.deletedAt = none → ∀ value,
            svc.ext.toLowercase value = svc.ext.toLowercase params.value →
              userByIdentifier svc params.kind value
                (d.shared.db .identifiers).rows (d.shared.db .users).rows =
                  some u) := by
  have hgood := good_all hrun
  obtain ⟨phc, salt, user, hphc, henrol⟩ :=
    registered_of_answer good_start rfl hrun hanswer
  refine ⟨phc, salt, user.id, hphc, fun d hlater => ?_⟩
  have hindexed := (good_run hgood hlater).inv.indexed
  obtain ⟨hevolves, hledger⟩ := evolves_run hgood hlater
  have hpub := (henrol.move hevolves hledger).1
  obtain ⟨u, hu, huser⟩ := hpub ⟨.users, UserOf params user.id phc⟩ (by simp)
  obtain ⟨x, hx, hident⟩ :=
    hpub ⟨.identifiers, IdentifierOf svc params user.id⟩ (by simp)
  refine ⟨u, hu, huser, fun hlive value hvalue => ?_⟩
  have hids : (d.shared.db .identifiers).rows.filter
      (Names svc params.kind value) = [x] :=
    filter_eq_singleton (hindexed .identifiers).rows
      (fun _ _ hr hv => identifier_collides hr hv) hx
      (names_of_identifier hlower hident hvalue)
  have husers : (d.shared.db .users).rows.filter
      (fun v => v.id == x.userId && v.deletedAt.isNone) = [u] := by
    refine filter_eq_singleton (hindexed .users).rows (fun r v hr hv => ?_) hu ?_
    · simp only [Bool.and_eq_true, beq_iff_eq] at hr hv
      show UserRow.dup r v = true
      simp [UserRow.dup, hr.1, hv.1]
    · simp [huser.1, hident.1, hlive]
  unfold userByIdentifier
  rw [findSome?_if, hids, List.findSome?_cons, ← List.head?_filter, husers]
  rfl

/-- **An identifier is registered once**: when one registration of it has been
answered with tokens, no other one ever is, be it one of another thread number
or a later one of the same. -/
theorem one_registration
    (hrun : (authSystem svc).Reaches sentRuns (.start (initial clock)) c)
    {p p' : RegisterParams} {pair : TokenPair}
    (hfirst : c.answer i = some (.register p, .ok (.tokens pair)))
    (hlater : (authSystem svc).Reaches sentRuns c d)
    (hother : i ≠ j ∨ ∃ e, (authSystem svc).Reaches sentRuns c e ∧
      e.thread j = none ∧ (authSystem svc).Reaches sentRuns e d)
    (hkind : p'.kind = p.kind)
    (hvalue : svc.ext.toLowercase p'.value = svc.ext.toLowercase p.value) :
    ¬ ∃ pair', d.answer j = some (.register p', .ok (.tokens pair')) := by
  rintro ⟨pair', hsecond⟩
  have hgood := good_all hrun
  have hinv := (good_run hgood (reaches_all hlater)).inv
  obtain ⟨hevolves, hledger⟩ := evolves_run hgood (reaches_all hlater)
  obtain ⟨phc, salt, user, -, henrol⟩ :=
    registered_of_answer good_start rfl hrun hfirst
  obtain ⟨hpub, hdrew⟩ := henrol.move hevolves hledger
  obtain ⟨user', phc', token', hpub', hnew⟩ :
      ∃ (user' : UserRow) (phc' token' : String),
        Published (enrolmentDraft svc p' user'.id phc' token') d.shared ∧
          user.id ≠ user'.id := by
    rcases hother with hne | ⟨e, hce, hfree, hed⟩
    · obtain ⟨phc', salt', user', -, hpub', hdrew'⟩ :=
        registered_of_answer good_start rfl (hrun.trans hlater) hsecond
      refine ⟨user', phc', _, hpub', fun hid => hne ?_⟩
      have hdrawn : ((i, user.id) : Nat × Uuid) = (j, user'.id) :=
        List.inj_on_of_nodup_map hinv.drawn hdrew.1 hdrew'.1 hid
      exact congrArg Prod.fst hdrawn
    · -- the first user had been drawn when the second call started
      obtain ⟨phc', salt', user', -, hpub', hdrew'⟩ := registered_of_answer
        (good_run hgood (reaches_all hce)) hfree hed hsecond
      refine ⟨user', phc', _, hpub', fun hid => hdrew'.2 ?_⟩
      have hbefore := henrol.2.move (evolves_run hgood (reaches_all hce)).2
      exact hid ▸ List.mem_map_of_mem hbefore.1
  obtain ⟨x, hx, hident⟩ :=
    hpub ⟨.identifiers, IdentifierOf svc p user.id⟩ (by simp)
  obtain ⟨x', hx', hident'⟩ :=
    hpub' ⟨.identifiers, IdentifierOf svc p' user'.id⟩ (by simp)
  -- both rows stand under the same key of the index
  have hsame : x = x' := by
    obtain ⟨-, hk, hv, hlive⟩ := hident
    obtain ⟨-, hk', hv', hlive'⟩ := hident'
    have hone : ∀ y ∈ (d.shared.db .identifiers).rows,
        Names svc p.kind x.value y = true →
          (d.shared.db .identifiers).rows.filter (Names svc p.kind x.value) =
            [y] :=
      fun y hy hnames => filter_eq_singleton (hinv.indexed .identifiers).rows
        (fun _ _ hr hv => identifier_collides hr hv) hy hnames
    have hfilter := hone x hx (by simp [Names, hk, hlive])
    rw [hone x' hx' (by simp [Names, hk', hkind, hlive', hv, hv', hvalue]),
      List.cons.injEq] at hfilter
    exact hfilter.1.symm
  subst hsame
  exact hnew (hident.1.symm.trans hident'.1)

/-! ## A registration, and a second one of the same identifier -/

/-- A test for `sentRuns`. -/
def sentCheck : Check Point Srv Pick Outside Call where
  run i _ pt ch w _ := decide (Sent i pt ch w)
  cancel _ _ := true
  env _ _ _ := false

theorem sentCheck_implies : sentCheck.Implies sentRuns where
  run {i _ pt ch w _} h := of_decide_eq_true (p := Sent i pt ch w) h
  cancel _ := trivial
  env h := absurd h Bool.false_ne_true

/-- Thread 0 registers a user. -/
def answered : AuthConfig :=
  ((authSystem sampleService).exec sentCheck (.start (initial 0))
    (registers 0)).get (by decide +kernel)

/-- Thread 1 tries to register the same identifier. -/
def refused : AuthConfig :=
  ((authSystem sampleService).exec sentCheck answered
    ([.call 1 (.register sampleParams), .run 1 (.draw (.text "salt"))] ++
      steps 1 2 ++ [drawUuid 1 4, drawUuid 1 5] ++ steps 1 4)).get
    (by decide +kernel)

theorem answered_reaches : (authSystem sampleService).Reaches sentRuns
    (.start (initial 0)) answered :=
  System.exec_reaches sentCheck_implies (Option.some_get _).symm

theorem refused_reaches :
    (authSystem sampleService).Reaches sentRuns answered refused :=
  System.exec_reaches sentCheck_implies (Option.some_get _).symm

def sampleTokens : TokenPair where
  accessToken := uuidText (sampleUuid 3)
  refreshToken := sampleSecret 0
  tokenType := tokenType
  expiresIn := sampleService.config.accessTokenTtl.secs

theorem answered_tokens : answered.answer 0 =
    some (.register sampleParams, .ok (.tokens sampleTokens)) := by
  decide +kernel

example : refused.answer 1 = some (.register sampleParams,
    .error (.error (.conflict "email already registered"))) := by
  decide +kernel

/-- The number of thread 0 is free again. -/
def released : AuthConfig :=
  ((authSystem sampleService).exec sentCheck answered [.cancel 0]).get
    (by decide +kernel)

/-- Thread 0 tries to register the same identifier once more. -/
def refusedAgain : AuthConfig :=
  ((authSystem sampleService).exec sentCheck released
    ([.call 0 (.register sampleParams), .run 0 (.draw (.text "salt"))] ++
      steps 0 2 ++ [drawUuid 0 4, drawUuid 0 5] ++ steps 0 4)).get
    (by decide +kernel)

theorem one_registration_refused :
    (¬ ∃ pair, refused.answer 1 =
      some (.register sampleParams, .ok (.tokens pair))) ∧
    ¬ ∃ pair, refusedAgain.answer 0 =
      some (.register sampleParams, .ok (.tokens pair)) := by
  have hreleased : (authSystem sampleService).Reaches sentRuns answered
      released :=
    System.exec_reaches sentCheck_implies (Option.some_get _).symm
  have hagain : (authSystem sampleService).Reaches sentRuns released
      refusedAgain :=
    System.exec_reaches sentCheck_implies (Option.some_get _).symm
  have hfree : released.thread 0 = none := by decide +kernel
  exact ⟨one_registration answered_reaches answered_tokens refused_reaches
      (.inl (by decide)) rfl rfl,
    one_registration answered_reaches answered_tokens
      (hreleased.trans hagain) (.inr ⟨released, hreleased, hfree, hagain⟩)
      rfl rfl⟩

/-! ## A registration under another spelling -/

/-- A service that lower-cases ASCII letters. -/
def asciiService : AuthService :=
  { sampleService with ext := { sampleExternals with
      toLowercase := fun s => String.ofList (s.toList.map Char.toLower) } }

theorem ascii_idempotent (s : String) :
    asciiService.ext.toLowercase (asciiService.ext.toLowercase s) =
      asciiService.ext.toLowercase s := by
  simp [asciiService, Function.comp_def]

def spelledParams : RegisterParams :=
  { sampleParams with value := "User@Example.com" }

/-- Thread 0 registers `User@Example.com`. -/
def spelled : AuthConfig :=
  ((authSystem asciiService).exec sentCheck (.start (initial 0))
    ([.call 0 (.register spelledParams), .run 0 (.draw (.text "salt"))] ++
      steps 0 2 ++ [drawUuid 0 0, drawUuid 0 1] ++ steps 0 6 ++
      [drawSecret 0 0, drawUuid 0 2] ++ steps 0 5 ++ [drawUuid 0 3])).get
    (by decide +kernel)

/-- Thread 1 tries to register `user@example.com`. -/
def spelledLater : AuthConfig :=
  ((authSystem asciiService).exec sentCheck spelled
    ([.call 1 (.register sampleParams), .run 1 (.draw (.text "salt"))] ++
      steps 1 2 ++ [drawUuid 1 4, drawUuid 1 5] ++ steps 1 4)).get
    (by decide +kernel)

theorem registered_account_answered :
    ∃ phc salt id, asciiService.ext.argon2Hash salt spelledParams.password =
      .ok phc ∧ ∃ u ∈ (spelledLater.shared.db .users).rows,
        UserOf spelledParams id phc u ∧ userByIdentifier asciiService
          spelledParams.kind "USER@example.com"
          (spelledLater.shared.db .identifiers).rows
          (spelledLater.shared.db .users).rows = some u := by
  have hrun : (authSystem asciiService).Reaches sentRuns (.start (initial 0))
      spelled :=
    System.exec_reaches sentCheck_implies (Option.some_get _).symm
  have hanswer : spelled.answer 0 =
      some (.register spelledParams, .ok (.tokens sampleTokens)) := by
    decide +kernel
  obtain ⟨phc, salt, id, hphc, hlater⟩ :=
    registered_account ascii_idempotent hrun hanswer
  have hall : (authSystem asciiService).Reaches .all spelled spelledLater :=
    System.exec_reaches (Check.implies_all sentCheck) (Option.some_get _).symm
  obtain ⟨u, hu, huser, hfound⟩ := hlater spelledLater hall
  have hlive : ∀ v ∈ (spelledLater.shared.db .users).rows,
      v.deletedAt = none := by decide +kernel
  exact ⟨phc, salt, id, hphc, u, hu, huser,
    hfound (hlive u hu) _ (by decide +kernel)⟩

end DpopAuth.Ports.Registration
