import DpopAuth.Verified.KeyChains
import DpopAuth.Ports.RetryProtocol

/-!
# The session behind a refresh-token family

Seen from the outside, a family of refresh tokens is one session: it belongs
to a user and a key until it expires, one token is good for it, and the tokens
used before are spent.  `session` reads it off the committed rows.

A transaction that commits changes the session of a family by one act at most,
and the cells it holds tell which: a row it inserted alone begins a session, a
row it revoked finishes one, and both together rotate it.

## Main results

* `stands` — how the rows of a family can stand.
* `commit_session` — what a `COMMIT` does to a session.
-/

namespace DpopAuth.Ports.Sessions

open DpopAuth.Verified.RowVersions
open DpopAuth.Verified.Machines
open DpopAuth.Verified.KeyChains
open DpopAuth.Ports.Schema
open DpopAuth.Ports.Service
open DpopAuth.Ports.Auth
open DpopAuth.Ports.FamilyProtocol
open DpopAuth.Ports.FamilyInvariant
open DpopAuth.Ports.RetryProtocol

/-! ## Sessions -/

/-- Whose session it is, bound to which key, and its end. -/
structure Holder where
  userId : Uuid
  dpopJkt : String
  expiresAt : DateTime
  deriving DecidableEq, Repr

/-- A session, with the hashes of its tokens as keys. -/
abbrev Session := Chain Holder String

/-- The acts of a session. -/
abbrev SessionAct := ChainAct Holder String

def holderOf (r : RefreshTokenRow) : Holder :=
  ⟨r.userId, r.dpopJkt, r.expiresAt⟩

/-- The session the rows of a family make up. -/
def sessionOf (rows : List RefreshTokenRow) : Option Session :=
  rows.head?.map fun r =>
    { holder := holderOf r
      spent := (rows.filter fun v => v.revokedAt.isSome).map fun v => v.tokenHash
      current := (rows.find? fun v => v.revokedAt.isNone).map fun v => v.tokenHash }

/-- The session of a family, as the committed rows have it. -/
def session (fam : Uuid) (t : Tokens) : Option Session :=
  sessionOf (famRows fam t)

variable {t : Tokens} {fam : Uuid} {r v : RefreshTokenRow} {i j : Nat}
  {c d : Cell RefreshTokenRow} {rows : List RefreshTokenRow} {now : DateTime}

theorem holder_eq (h : SameSession r v) : holderOf v = holderOf r := by
  simp [holderOf, h.userId, h.dpopJkt, h.expiresAt]

/-- The hashes of the rows that are revoked, when all are. -/
abbrev hashes (rows : List RefreshTokenRow) : List String :=
  rows.map fun v => v.tokenHash

section Revoked

variable (hrev : ∀ v ∈ rows, v.revokedAt ≠ none)

include hrev

theorem filter_revoked :
    (rows.filter fun v => v.revokedAt.isSome) = rows :=
  List.filter_eq_self.mpr fun v hv =>
    Option.isSome_iff_ne_none.mpr (hrev v hv)

theorem find?_revoked :
    (rows.find? fun v => v.revokedAt.isNone) = none := by
  refine List.find?_eq_none.mpr fun v hv => ?_
  simpa using hrev v hv

/-- A session is over when all rows are revoked. -/
theorem sessionOf_over (r : RefreshTokenRow) (hr : r.revokedAt ≠ none) :
    sessionOf (rows ++ [r]) =
      some ⟨holderOf (rows.head?.getD r), hashes rows ++ [r.tokenHash], none⟩ := by
  have hall : ∀ v ∈ rows ++ [r], v.revokedAt ≠ none := by
    intro v hv
    rcases List.mem_append.mp hv with hv | hv
    · exact hrev v hv
    · rwa [List.mem_singleton.mp hv]
  unfold sessionOf
  rw [filter_revoked hall, find?_revoked hall]
  cases rows <;> simp

/-- A session goes on when the last row is active. -/
theorem sessionOf_live (r : RefreshTokenRow) (hr : r.revokedAt = none) :
    sessionOf (rows ++ [r]) = some ⟨holderOf (rows.head?.getD r), hashes rows,
      some r.tokenHash⟩ := by
  unfold sessionOf
  rw [List.filter_append, filter_revoked hrev, List.find?_append,
    find?_revoked hrev]
  cases rows <;> simp [hr]

end Revoked

/-! ## How the rows of a family can stand -/

/-- The cells of a family: settled rows, and then what a transaction may have
done to the end of the list. -/
inductive Stands (fam : Uuid) (t : Tokens) : Prop
  | closed (pre : Tokens) (settled : ∀ c ∈ pre, Settled c)
      (cells : famCells fam t = pre)
  | live (pre : Tokens) (r : RefreshTokenRow) (settled : ∀ c ∈ pre, Settled c)
      (active : r.revokedAt = none) (cells : famCells fam t = pre ++ [⟨some r, none⟩])
  | locked (pre : Tokens) (i : Nat) (now : DateTime) (r : RefreshTokenRow)
      (settled : ∀ c ∈ pre, Settled c) (active : r.revokedAt = none)
      (cells : famCells fam t = pre ++ [⟨some r, some (i, r.revoke now)⟩])
  | opening (i : Nat) (v : RefreshTokenRow) (active : v.revokedAt = none)
      (cells : famCells fam t = [.fresh i v])
  | rotating (pre : Tokens) (i : Nat) (now : DateTime) (r v : RefreshTokenRow)
      (settled : ∀ c ∈ pre, Settled c) (active : r.revokedAt = none)
      (next : v.revokedAt = none)
      (cells : famCells fam t =
        pre ++ [⟨some r, some (i, r.revoke now)⟩, .fresh i v])

/-- Of two cells of a family the earlier gives way. -/
theorem famCells_superseded (h : FamInv t) (fam : Uuid) :
    (famCells fam t).Pairwise Superseded := by
  refine (List.Pairwise.filter _ h.order).imp_of_mem ?_
  intro c d hc hd hbefore
  obtain ⟨_, r, hr, hrf⟩ := mem_famCells.mp hc
  obtain ⟨_, v, hv, hvf⟩ := mem_famCells.mp hd
  exact ((hbefore r v hr hv).2 (hrf.trans hvf.symm)).2

theorem settled_of_superseded (h : Superseded c d) (hd : d.committed ≠ none) :
    Settled c := by
  rcases h with hs | ⟨_, _, hfresh⟩
  · exact hs
  · exact absurd hfresh.2 hd

/-- A row revoked by its holder, as a cell. -/
theorem locked_cell (h : Shape c) (hl : LockedBy i c) :
    ∃ r now, r.revokedAt = none ∧ c = ⟨some r, some (i, r.revoke now)⟩ := by
  cases h with
  | empty => exact absurd rfl hl.2
  | plain r => simp [LockedBy] at hl
  | locked j now r active =>
      obtain rfl : j = i := by simpa [LockedBy] using hl
      exact ⟨r, now, active, rfl⟩
  | inserted j r active => exact absurd rfl hl.2

/-- The cells before a row that is being inserted. -/
theorem before_fresh {pre : Tokens} (h : FamInv t)
    (hcells : famCells fam t = pre ++ [.fresh i v]) (hne : pre ≠ []) :
    ∃ pre' r now, pre = pre' ++ [⟨some r, some (i, r.revoke now)⟩] ∧
      r.revokedAt = none ∧ ∀ c ∈ pre', Settled c := by
  have hpair := famCells_superseded h fam
  rw [hcells] at hpair
  obtain ⟨hpre, -, hcross⟩ := List.pairwise_append.mp hpair
  have hlast : Cell.fresh i v ∈ famCells fam t := by
    rw [hcells]
    simp
  obtain ⟨hmem, u, hu, hufam⟩ := mem_famCells.mp hlast
  have huv : u = v := (Option.some.inj hu).symm
  subst huv
  have hfresh : FreshBy i (Cell.fresh i u) := ⟨by simp, rfl⟩
  -- the row continues one that its session has locked
  obtain ⟨c, hc, hlocked, x, hx, hxfam⟩ :
      ∃ c ∈ t, LockedBy i c ∧ ∃ r, c.row? = some r ∧ r.fam = u.fam := by
    rcases h.anchored _ hmem i u hfresh rfl with hanchor | honly
    · exact hanchor
    · obtain ⟨c, hc⟩ := List.exists_mem_of_ne_nil pre hne
      have hcell : c ∈ famCells fam t := by
        rw [hcells]
        exact List.mem_append_left _ hc
      obtain ⟨hct, x, hx, hxfam⟩ := mem_famCells.mp hcell
      have heq := honly c hct x hx (hxfam.trans hufam.symm)
      rcases hcross c hc _ (List.mem_singleton_self _) with hs | ⟨_, hl, _⟩
      · rw [heq] at hs
        cases hs.1
      · rw [heq] at hl
        exact absurd rfl hl.2
  have hcpre : c ∈ pre := by
    have hcell : c ∈ pre ++ [Cell.fresh i u] :=
      hcells ▸ mem_famCells.mpr ⟨hc, x, hx, hxfam.trans hufam⟩
    rcases List.mem_append.mp hcell with hin | hin
    · exact hin
    · rw [List.mem_singleton.mp hin] at hlocked
      exact absurd rfl hlocked.2
  obtain ⟨pre', post, rfl⟩ := List.append_of_mem hcpre
  obtain ⟨-, hafter, hbefore⟩ := List.pairwise_append.mp hpre
  obtain ⟨r, now, hactive, hceq⟩ := locked_cell (h.shape c hc) hlocked
  have hpost : post = [] := by
    cases post with
    | nil => rfl
    | cons d rest =>
        -- what a locked row gives way to has not been committed
        have hcd := (List.pairwise_cons.mp hafter).1 d List.mem_cons_self
        have hd : d ∈ pre' ++ c :: d :: rest := by simp
        rcases hcross d hd _ (List.mem_singleton_self _) with hs | ⟨_, hl, _⟩
        · obtain ⟨-, _, hx, -⟩ := hs
          exact absurd hlocked (settled_of_superseded hcd (by simp [hx])).not_locked
        · exact absurd hlocked (settled_of_superseded hcd hl.2).not_locked
  subst hpost
  refine ⟨pre', r, now, by rw [hceq], hactive, fun d hd => ?_⟩
  exact settled_of_superseded (hbefore d hd c List.mem_cons_self) hlocked.2

/-- **How the rows of a family can stand.** -/
theorem stands (h : FamInv t) (fam : Uuid) : Stands fam t := by
  rcases List.eq_nil_or_concat (famCells fam t) with hnil | ⟨pre, z, hcells⟩
  · exact .closed [] (fun _ hc => absurd hc List.not_mem_nil) hnil
  rw [List.concat_eq_append] at hcells
  have hpair := famCells_superseded h fam
  rw [hcells] at hpair
  obtain ⟨-, -, hcross⟩ := List.pairwise_append.mp hpair
  have hz : z ∈ famCells fam t := by
    rw [hcells]
    simp
  obtain ⟨hmem, u, hu, -⟩ := mem_famCells.mp hz
  have hsettled : z.committed ≠ none → ∀ c ∈ pre, Settled c := fun hne c hc =>
    settled_of_superseded (hcross c hc z (List.mem_singleton_self z)) hne
  cases h.shape z hmem with
  | empty => cases hu
  | plain r =>
      have hpre := hsettled (by simp)
      by_cases hr : r.revokedAt = none
      · exact .live pre r hpre hr hcells
      · refine .closed (pre ++ [⟨some r, none⟩]) (fun c hc => ?_) hcells
        rcases List.mem_append.mp hc with hc | hc
        · exact hpre c hc
        · rw [List.mem_singleton.mp hc]
          exact ⟨rfl, r, rfl, hr⟩
  | locked i now r hr => exact .locked pre i now r (hsettled (by simp)) hr hcells
  | inserted i v hv =>
      by_cases hne : pre = []
      · subst hne
        exact .opening i v hv hcells
      · obtain ⟨pre', r, now, rfl, hr, hpre⟩ := before_fresh h hcells hne
        refine .rotating pre' i now r v hpre hr hv ?_
        rw [hcells]
        simp [Cell.fresh]

/-! ## Who may do what to a session -/

/-- The refresh token a call presents. -/
def presents : Call → Option String
  | .refresh refreshToken _ _ => some refreshToken
  | .logout refreshToken => some refreshToken
  | .register _ => none
  | .login _ _ _ _ _ _ => none

/-- The key a call wants its tokens bound to. -/
def boundTo : Call → Option String
  | .register params => some params.jkt
  | .login _ _ _ jkt _ _ => some jkt
  | .refresh _ jkt _ => some jkt
  | .logout _ => none

/-- What the call that does something to a session has shown for it. -/
inductive Authorised (svc : AuthService) :
    Call → Option Session → SessionAct → Prop
  /-- Registration and login begin a session for the key of the request. -/
  | begin {q : Call} {holder : Holder} {tokenHash : String}
      (anonymous : presents q = none) (key : boundTo q = some holder.dpopJkt) :
      Authorised svc q none (.begin holder tokenHash)
  /-- A refresh rotates the session whose token and whose key it shows. -/
  | rotate {s : Session} {refreshToken tokenHash : String}
      {userAgent : Option String}
      (current : s.current = some (svc.hashToken refreshToken)) :
      Authorised svc (.refresh refreshToken s.holder.dpopJkt userAgent) (some s)
        (.rotate tokenHash)
  /-- A refresh that shows a token of the session out of turn finishes it. -/
  | reuse {s : Session} {refreshToken jkt : String} {userAgent : Option String}
      (known : svc.hashToken refreshToken ∈ s.keys) :
      Authorised svc (.refresh refreshToken jkt userAgent) (some s) .finish
  /-- A logout finishes the session whose token it shows. -/
  | logout {s : Session} {refreshToken : String}
      (current : s.current = some (svc.hashToken refreshToken)) :
      Authorised svc (.logout refreshToken) (some s) .finish

/-- Why a call may revoke a row. -/
def MayRevoke (svc : AuthService) (t : Tokens) (old : RefreshTokenRow) :
    Call → Prop
  | .refresh refreshToken _ _ => ∃ r ∈ t.rows, r.fam = old.fam ∧
      r.tokenHash = svc.hashToken refreshToken
  | .logout refreshToken => old.tokenHash = svc.hashToken refreshToken
  | .register _ => False
  | .login _ _ _ _ _ _ => False

/-- Why a call may insert a row: it presents no token, or session `i` is
revoking the row of the token it presents. -/
def MayInsert (svc : AuthService) (i : Nat) (t : Tokens) (v : RefreshTokenRow)
    (q : Call) : Prop :=
  presents q = none ∨ ∃ refreshToken jkt userAgent c old,
    q = .refresh refreshToken jkt userAgent ∧ c ∈ t.own i ∧
      c.committed = some old ∧ old.fam = v.fam ∧
        old.tokenHash = svc.hashToken refreshToken

/-- The call may do all that session `i` has not committed yet. -/
structure Mandate (svc : AuthService) (q : Call) (i : Nat) (t : Tokens) :
    Prop where
  revokes : ∀ c ∈ t.own i, ∀ old, c.committed = some old → MayRevoke svc t old q
  inserts : ∀ d ∈ t.own i, d.committed = none → ∀ v, d.row? = some v →
    boundTo q = some v.dpopJkt ∧ MayInsert svc i t v q

/-! ## What a commit does to a session -/

/-- The session stays as it is, or the call does one act to it. -/
def SessionStep (svc : AuthService) (q : Call) (o o' : Option Session) : Prop :=
  o' = o ∨ ∃ act, Authorised svc q o act ∧ chainMachine act o = some o'

theorem famRows_famCells (fam : Uuid) (t : Tokens) :
    famRows fam t = (famCells fam t).rows := by
  rw [famRows_cells]
  refine List.filter_eq_self.mpr fun r hr => ?_
  obtain ⟨c, hc, hcr⟩ := Table.mem_rows.mp hr
  obtain ⟨-, v, hv, hfam⟩ := mem_famCells.mp hc
  have hrow : c.row? = some r := by simp [Cell.row?, hcr]
  obtain rfl := Option.some.inj (hrow.symm.trans hv)
  exact beq_iff_eq.mpr hfam

theorem session_cells (fam : Uuid) (t : Tokens) :
    session fam t = sessionOf (famCells fam t).rows := by
  rw [session, famRows_famCells]

theorem session_commit (h : FamInv t) (fam : Uuid) (i : Nat) :
    session fam (t.commit i) =
      sessionOf (Table.rows ((famCells fam t).map (Cell.commit i))) := by
  rw [session_cells, famCells_commit h.shape]

section Settled

variable {pre : Tokens} (hpre : ∀ c ∈ pre, Settled c)

include hpre

theorem commit_settled (i : Nat) : pre.map (Cell.commit i) = pre :=
  (List.map_congr_left fun c hc =>
    Cell.commit_of_not_heldBy (hpre c hc).not_held).trans (List.map_id _)

theorem revoked_of_settled : ∀ v ∈ pre.rows, v.revokedAt ≠ none := by
  intro v hv
  obtain ⟨c, hc, hcv⟩ := Table.mem_rows.mp hv
  obtain ⟨-, r, hr, hrev⟩ := hpre c hc
  rw [hcv] at hr
  cases hr
  exact hrev

end Settled

theorem rows_append (t u : Tokens) :
    Table.rows (t ++ u) = t.rows ++ u.rows := List.filterMap_append

/-- The first of some rows and of a revoked one are of one holder. -/
theorem holder_revoke (rows : List RefreshTokenRow) (r : RefreshTokenRow)
    (now : DateTime) : holderOf (rows.head?.getD (r.revoke now)) =
      holderOf (rows.head?.getD r) := by
  cases rows <;> rfl

variable {svc : AuthService} {q : Call} {pre : Tokens}

/-- The rows before a row that is being inserted. -/
theorem before_inserted (h : FamInv t)
    (hcells : famCells fam t = pre ++ [.fresh i v]) :
    ∀ u ∈ pre.rows, u.tokenHash ≠ v.tokenHash ∧ SameSession u v := by
  have hpair := List.Pairwise.filter
    (fun c : Cell RefreshTokenRow => c.row?.any fun r => r.fam == fam) h.order
  rw [show t.filter _ = famCells fam t from rfl, hcells] at hpair
  obtain ⟨-, -, hcross⟩ := List.pairwise_append.mp hpair
  intro u hu
  obtain ⟨c, hc, hcu⟩ := Table.mem_rows.mp hu
  have hrow : c.row? = some u := by simp [Cell.row?, hcu]
  obtain ⟨hhash, hfam⟩ :=
    hcross c hc _ (List.mem_singleton_self _) u v hrow rfl
  refine ⟨hhash, (hfam ?_).1⟩
  have hfams : ∀ d ∈ famCells fam t, ∀ x, d.row? = some x → x.fam = fam := by
    intro d hd x hx
    obtain ⟨-, y, hy, hyf⟩ := mem_famCells.mp hd
    obtain rfl := Option.some.inj (hx.symm.trans hy)
    exact hyf
  rw [hcells] at hfams
  rw [hfams c (List.mem_append_left _ hc) u hrow,
    hfams (.fresh i v) (by simp) v rfl]

/-- What a call shows when it revokes the active row of a session. -/
theorem authorised_finish {s : Session}
    (hm : MayRevoke svc t r q) (hfam : r.fam = fam)
    (hcurrent : s.current = some r.tokenHash)
    (hkeys : ∀ u ∈ famRows fam t, u.tokenHash ∈ s.keys) :
    Authorised svc q (some s) .finish := by
  cases q with
  | register params => exact hm.elim
  | login kind value password jkt ip ua => exact hm.elim
  | refresh rt jkt ua =>
      obtain ⟨u, hu, huf, hhash⟩ := hm
      exact .reuse (hhash ▸ hkeys u (mem_famRows.mpr ⟨hu, huf.trans hfam⟩))
  | logout rt =>
      have hhash : r.tokenHash = svc.hashToken rt := hm
      exact .logout (hhash ▸ hcurrent)

/-- A session whose last token is live. -/
theorem session_live (hpre : ∀ c ∈ pre, Settled c) (hr : r.revokedAt = none)
    (hrows : (famCells fam t).rows = pre.rows ++ [r]) :
    session fam t = some ⟨holderOf (pre.rows.head?.getD r), hashes pre.rows,
      some r.tokenHash⟩ := by
  rw [session_cells, hrows]
  exact sessionOf_live (revoked_of_settled hpre) r hr

/-- The mandate for a row that is being revoked. -/
theorem Mandate.of_revoked (hm : Mandate svc q i t)
    (hmem : (⟨some r, some (i, r.revoke now)⟩ : Cell RefreshTokenRow) ∈
      famCells fam t) : r.fam = fam ∧ MayRevoke svc t r q := by
  obtain ⟨hct, u, hu, hfam⟩ := mem_famCells.mp hmem
  obtain rfl : r = u := Option.some.inj hu
  exact ⟨hfam, hm.revokes _ (Table.mem_own.mpr ⟨hct, by simp⟩) r rfl⟩

/-- The mandate for a row that is being inserted. -/
theorem Mandate.of_inserted (hm : Mandate svc q i t)
    (hmem : Cell.fresh i v ∈ famCells fam t) :
    v.fam = fam ∧ boundTo q = some v.dpopJkt ∧ MayInsert svc i t v q := by
  obtain ⟨hct, u, hu, hfam⟩ := mem_famCells.mp hmem
  obtain rfl : v = u := Option.some.inj hu
  exact ⟨hfam, hm.inserts _ (Table.mem_own.mpr ⟨hct, by simp⟩) rfl v rfl⟩

/-- In a rotation the one committed row that session `i` has changed is the
active one. -/
theorem rotated_of_own {c : Cell RefreshTokenRow} {old : RefreshTokenRow}
    (hpre : ∀ c ∈ pre, Settled c)
    (hcells : famCells fam t =
      pre ++ [⟨some r, some (i, r.revoke now)⟩, .fresh i v])
    (hown : c ∈ t.own i) (hold : c.committed = some old)
    (hfam : old.fam = fam) : old = r := by
  have hcell : c ∈ famCells fam t := mem_famCells.mpr
    ⟨(Table.mem_own.mp hown).1, old, by simp [Cell.row?, hold], hfam⟩
  rw [hcells] at hcell
  simp only [List.mem_append, List.mem_cons, List.not_mem_nil,
    or_false] at hcell
  rcases hcell with hin | hin | hin
  · have hfree := (hpre c hin).not_held (i := i)
    rw [(Table.mem_own.mp hown).2] at hfree
    cases hfree
  · rw [hin] at hold
    exact (Option.some.inj hold).symm
  · rw [hin] at hold
    cases hold

theorem commit_finish (h : FamInv t) (hm : Mandate svc q i t)
    (hpre : ∀ c ∈ pre, Settled c) (hr : r.revokedAt = none)
    (hcells : famCells fam t = pre ++ [⟨some r, some (i, r.revoke now)⟩]) :
    SessionStep svc q (session fam t) (session fam (t.commit i)) := by
  have hrev := revoked_of_settled hpre
  have hbefore := session_live hpre hr
    ((congrArg Table.rows hcells).trans (rows_append _ _))
  have hafter : session fam (t.commit i) =
      some ⟨holderOf (pre.rows.head?.getD r),
        hashes pre.rows ++ [r.tokenHash], none⟩ := by
    rw [session_commit h, hcells, List.map_append, commit_settled hpre,
      rows_append, ← holder_revoke pre.rows r now]
    have hrow : Table.rows (List.map (Cell.commit i)
        [⟨some r, some (i, r.revoke now)⟩]) = [r.revoke now] := by
      simp [Table.rows, Cell.commit]
    rw [hrow]
    exact sessionOf_over hrev (r.revoke now) (by simp [RefreshTokenRow.revoke])
  have hmem : (⟨some r, some (i, r.revoke now)⟩ : Cell RefreshTokenRow) ∈
      famCells fam t := by
    rw [hcells]
    simp
  obtain ⟨hfam, hmay⟩ := hm.of_revoked hmem
  refine .inr ⟨.finish, ?_, by rw [hbefore, hafter]; rfl⟩
  rw [hbefore]
  refine authorised_finish hmay hfam rfl fun x hx => ?_
  rw [famRows_famCells, hcells, rows_append] at hx
  have hhash := List.mem_map_of_mem (f := fun y : RefreshTokenRow => y.tokenHash) hx
  simpa [Chain.keys, hashes, Table.rows] using hhash

theorem commit_begin (h : FamInv t) (hm : Mandate svc q i t)
    (hv : v.revokedAt = none) (hcells : famCells fam t = [.fresh i v]) :
    SessionStep svc q (session fam t) (session fam (t.commit i)) := by
  have hbefore : session fam t = none := by
    rw [session_cells, hcells]
    rfl
  have hafter : session fam (t.commit i) =
      some ⟨holderOf v, [], some v.tokenHash⟩ := by
    rw [session_commit h, hcells]
    have hrow : Table.rows (List.map (Cell.commit i) [Cell.fresh i v]) =
        [] ++ [v] := by
      simp [Table.rows, Cell.commit, Cell.fresh]
    rw [hrow]
    exact sessionOf_live (by simp) v hv
  have hmem : Cell.fresh i v ∈ famCells fam t := by
    rw [hcells]
    simp
  obtain ⟨hfam, hkey, hwhy⟩ := hm.of_inserted hmem
  refine .inr ⟨.begin (holderOf v) v.tokenHash, ?_, by rw [hbefore, hafter]; rfl⟩
  rw [hbefore]
  refine .begin ?_ hkey
  rcases hwhy with hnone | ⟨rt, jkt, ua, c, old, -, hown, hold, holdfam, -⟩
  · exact hnone
  · -- the row it continues would be one of the family
    have hcell : c ∈ famCells fam t := mem_famCells.mpr
      ⟨(Table.mem_own.mp hown).1, old, by simp [Cell.row?, hold],
        holdfam.trans hfam⟩
    rw [hcells, List.mem_singleton] at hcell
    rw [hcell] at hold
    cases hold

theorem commit_rotate (h : FamInv t) (hm : Mandate svc q i t)
    (hpre : ∀ c ∈ pre, Settled c) (hr : r.revokedAt = none)
    (hv : v.revokedAt = none)
    (hcells : famCells fam t =
      pre ++ [⟨some r, some (i, r.revoke now)⟩, .fresh i v]) :
    SessionStep svc q (session fam t) (session fam (t.commit i)) := by
  have hrev := revoked_of_settled hpre
  have hbefore := session_live hpre hr
    ((congrArg Table.rows hcells).trans (rows_append _ _))
  have hrev' : ∀ x ∈ pre.rows ++ [r.revoke now], x.revokedAt ≠ none := by
    intro x hx
    rcases List.mem_append.mp hx with hx | hx
    · exact hrev x hx
    · rw [List.mem_singleton.mp hx]
      simp [RefreshTokenRow.revoke]
  have hhead : ((pre.rows ++ [r.revoke now]).head?.getD v) =
      pre.rows.head?.getD (r.revoke now) := by
    cases pre.rows <;> rfl
  have hafter : session fam (t.commit i) =
      some ⟨holderOf (pre.rows.head?.getD r),
        hashes pre.rows ++ [r.tokenHash], some v.tokenHash⟩ := by
    rw [session_commit h, hcells, List.map_append, commit_settled hpre,
      rows_append]
    have hrow : Table.rows (List.map (Cell.commit i)
        [⟨some r, some (i, r.revoke now)⟩, Cell.fresh i v]) =
          [r.revoke now] ++ [v] := by
      simp [Table.rows, Cell.commit, Cell.fresh]
    rw [hrow, ← List.append_assoc, sessionOf_live hrev' v hv, hhead,
      holder_revoke]
    simp [hashes, RefreshTokenRow.revoke]
  have hlast : famCells fam t =
      (pre ++ [⟨some r, some (i, r.revoke now)⟩]) ++ [.fresh i v] := by
    rw [hcells]
    simp
  have hearlier := before_inserted h hlast
  have hrows : Table.rows (pre ++ [⟨some r, some (i, r.revoke now)⟩]) =
      pre.rows ++ [r] := rows_append _ _
  rw [hrows] at hearlier
  have hnew : v.tokenHash ∉ hashes pre.rows ++ [r.tokenHash] := by
    intro hin
    have hhash : v.tokenHash ∈ hashes (pre.rows ++ [r]) := by
      simpa [hashes] using hin
    obtain ⟨u, hu, heq⟩ := List.mem_map.mp hhash
    exact (hearlier u hu).1 heq
  have hmem : Cell.fresh i v ∈ famCells fam t := by
    rw [hcells]
    simp
  obtain ⟨hfam, hkey, hwhy⟩ := hm.of_inserted hmem
  refine .inr ⟨.rotate v.tokenHash, ?_, ?_⟩
  · have hlocked : (⟨some r, some (i, r.revoke now)⟩ : Cell RefreshTokenRow) ∈
        famCells fam t := by
      rw [hcells]
      simp
    obtain ⟨-, hmay⟩ := hm.of_revoked hlocked
    rcases hwhy with hnone | ⟨rt, jkt, ua, c, old, rfl, hown, hold, holdfam, hhash⟩
    · -- a call that presents no token revokes none
      cases q with
      | register params => exact hmay.elim
      | login kind value password jkt ip ua => exact hmay.elim
      | refresh rt jkt ua => cases hnone
      | logout rt => cases hnone
    · obtain rfl : r = old :=
        (rotated_of_own hpre hcells hown hold (holdfam.trans hfam)).symm
      -- the key of the request is that of the session
      have hjkt : jkt = (holderOf (pre.rows.head?.getD r)).dpopJkt := by
        have hfirst : pre.rows.head?.getD r ∈ pre.rows ++ [r] := by
          cases pre.rows <;> simp
        have hsame := (hearlier _ hfirst).2
        exact (Option.some.inj hkey).trans hsame.dpopJkt
      rw [hbefore, hjkt]
      exact Authorised.rotate (s := ⟨holderOf (pre.rows.head?.getD r),
        hashes pre.rows, some r.tokenHash⟩) (congrArg some hhash)
  · rw [hbefore, hafter]
    show (if v.tokenHash ∈ hashes pre.rows ++ [r.tokenHash] then none else _) = _
    rw [if_neg hnew]

/-- A session that holds nothing of a family leaves it as it is. -/
theorem session_idle (h : FamInv t)
    (hfree : ∀ c ∈ famCells fam t, c.heldBy i = false) :
    session fam (t.commit i) = session fam t := by
  rw [session_commit h, session_cells]
  congr 2
  exact (List.map_congr_left fun c hc =>
    Cell.commit_of_not_heldBy (hfree c hc)).trans (List.map_id _)

/-- **What a `COMMIT` does to a session**: nothing, or one act the call may
do. -/
theorem commit_session (h : FamInv t) (hm : Mandate svc q i t) (fam : Uuid) :
    SessionStep svc q (session fam t) (session fam (t.commit i)) := by
  have hsettled : ∀ {pre : Tokens}, (∀ c ∈ pre, Settled c) →
      ∀ c ∈ pre, c.heldBy i = false := fun hpre c hc => (hpre c hc).not_held
  cases stands h fam with
  | closed pre hpre hcells =>
      refine .inl (session_idle h fun c hc => ?_)
      rw [hcells] at hc
      exact hsettled hpre c hc
  | live pre r hpre hr hcells =>
      refine .inl (session_idle h fun c hc => ?_)
      rw [hcells] at hc
      rcases List.mem_append.mp hc with hc | hc
      · exact hsettled hpre c hc
      · rw [List.mem_singleton.mp hc]
        rfl
  | locked pre j now r hpre hr hcells =>
      by_cases hj : j = i
      · subst hj
        exact commit_finish h hm hpre hr hcells
      · refine .inl (session_idle h fun c hc => ?_)
        rw [hcells] at hc
        rcases List.mem_append.mp hc with hc | hc
        · exact hsettled hpre c hc
        · rw [List.mem_singleton.mp hc]
          simpa using hj
  | opening j v hv hcells =>
      by_cases hj : j = i
      · subst hj
        exact commit_begin h hm hv hcells
      · refine .inl (session_idle h fun c hc => ?_)
        rw [hcells] at hc
        rw [List.mem_singleton.mp hc]
        simpa using hj
  | rotating pre j now r v hpre hr hv hcells =>
      by_cases hj : j = i
      · subst hj
        exact commit_rotate h hm hpre hr hv hcells
      · refine .inl (session_idle h fun c hc => ?_)
        rw [hcells] at hc
        rcases List.mem_append.mp hc with hc | hc
        · exact hsettled hpre c hc
        · simp only [List.mem_cons, List.not_mem_nil, or_false] at hc
          rcases hc with rfl | rfl
          · simpa using hj
          · simpa using hj

end DpopAuth.Ports.Sessions
