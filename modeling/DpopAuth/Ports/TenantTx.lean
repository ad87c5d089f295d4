import DpopAuth.Verified.Machines
import DpopAuth.Verified.RowPolicies

/-!
# Tenant transactions

`store/tenant.rs`: a guard begins a transaction on a connection of the pool
and sets `app.current_tenant` for the time of this transaction.  The tables of
the application carry the policy

`tenant_id = NULLIF(current_setting('app.current_tenant', TRUE), '')::uuid`

for `USING` and `WITH CHECK`, and their role is subject to it.

The client of a guard is any program that decides on its next statement by
what it has seen.  It does not set the parameter or end the transaction by a
statement of its own, and it uses no savepoints.  A client without a tenant
has a plain transaction of the pool.

A dropped guard leaves its connection to the pool, which rolls back before
anybody else gets it.  When a transaction that has set the parameter ends,
PostgreSQL keeps an empty string in its place.

## Main definitions

* `Script` — what a client does with a guard.
* `advance` — one step of a call.
* `tenantMachine` — any number of calls on a pool of connections.
-/

namespace DpopAuth.Ports.TenantTx

open DpopAuth.Verified.Resumption
open DpopAuth.Verified.RowVersions
open DpopAuth.Verified.Transactions
open DpopAuth.Verified.Machines

/-! ## The application -/

/-- `Uuid`, as PostgreSQL reads and the client writes it. -/
structure UuidText (υ : Type) where
  text : υ → String
  cast : String → Option υ
  cast_text : ∀ u, cast (text u) = some u
  text_ne : ∀ u, text u ≠ ""

/-- The tables: the tenant of a row, and which rows have a unique key in
common. -/
structure Application (τ : Type) (Row : τ → Type) (υ : Type) where
  uuid : UuidText υ
  tenantId : ∀ t, Row t → υ
  dup : ∀ t, Row t → Row t → Bool

/-- A row as it is stored; a deleted one stays until it is vacuumed. -/
structure Stored (ρ : Type) where
  row : ρ
  live : Bool
  deriving DecidableEq, Repr

variable {τ : Type} {Row : τ → Type} {υ α β : Type}

/-! ## The parameter -/

/-- `app.current_tenant` on a connection: its value there, and the value the
open transaction has set. -/
structure Setting where
  session : Option String
  inTx : Option String
  deriving DecidableEq, Repr

namespace Setting

def fresh : Setting := ⟨none, none⟩

/-- `current_setting('app.current_tenant', TRUE)`. -/
def current (s : Setting) : Option String := s.inTx <|> s.session

/-- `set_config('app.current_tenant', v, true)`. -/
def setLocal (v : String) (s : Setting) : Setting := { s with inTx := some v }

/-- The transaction ends, one way or the other. -/
def endTx (s : Setting) : Setting :=
  match s.inTx with
  | none => s
  | some _ => ⟨some (s.session.getD ""), none⟩

theorem inTx_endTx (s : Setting) : s.endTx.inTx = none := by
  unfold endTx
  cases hset : s.inTx with
  | none => exact hset
  | some v => rfl

end Setting

/-- The right side of the policy. -/
def policyTenant (uuid : UuidText υ) (s : Setting) :
    Except SqlxError (Option υ) :=
  match s.current with
  | none => .ok none
  | some v =>
      if v = "" then .ok none
      else match uuid.cast v with
        | none => .error (.other "invalid input syntax for type uuid")
        | some u => .ok (some u)

/-! ## The server and the pool -/

/-- Who has a connection: nobody, the call of a thread, or the pool, which has
to roll back first.  The tenant is that of the call. -/
inductive Use (υ : Type) where
  | idle
  | held (i : Nat) (scope : Option υ)
  | closing (scope : Option υ)
  deriving DecidableEq, Repr

/-- The tenant of the call that has, or had, the connection. -/
def Use.scope? : Use υ → Option (Option υ)
  | .idle => none
  | .held _ scope => some scope
  | .closing scope => some scope

/-- What is kept for each connection. -/
structure Pool (υ : Type) where
  setting : Nat → Setting
  use : Nat → Use υ

/-- A database with the tables of the application; its sessions are the
connections of the pool. -/
abbrev TenantSrv (Row : τ → Type) (υ : Type) :=
  World Unit (fun t => Stored (Row t)) (Pool υ)

/-- What the surroundings decide about a step: whether it fails, and which
connection the pool hands out. -/
structure Pick where
  choice : Choice Unit
  conn : Nat

section Server

/-- The connection changes hands. -/
def handTo (k : Nat) (u : Use υ) (w : TenantSrv Row υ) : TenantSrv Row υ :=
  { w with mem := { w.mem with use := Function.update w.mem.use k u } }

def setSetting (k : Nat) (s : Setting) (w : TenantSrv Row υ) :
    TenantSrv Row υ :=
  { w with mem := { w.mem with setting := Function.update w.mem.setting k s } }

/-- What the end of a transaction does to the parameter. -/
def endSetting (k : Nat) (w : TenantSrv Row υ) : TenantSrv Row υ :=
  setSetting k (w.mem.setting k).endTx w

end Server

/-! ## Statements under the policy -/

section Statements

variable [DecidableEq τ] [DecidableEq υ] (A : Application τ Row υ) {t : τ}

/-- The policy, for one row. -/
def allows (scope : Option υ) (r : Row t) : Bool :=
  some (A.tenantId t r) == scope

/-- The rows a statement may use. -/
def qualifies (scope : Option υ) (p : Row t → Bool) (s : Stored (Row t)) :
    Bool := s.live && (allows A scope s.row && p s.row)

/-- Two live rows with a unique key in common. -/
def dupStored (s s' : Stored (Row t)) : Bool :=
  s.live && s'.live && A.dup t s.row s'.row

/-- A new row, where its unique keys are free. -/
def insertStored (k : Nat) (s : Stored (Row t)) (x : Table (Stored (Row t))) :
    Option (Except SqlxError (Table (Stored (Row t)))) :=
  @insertRows τ (fun t => Stored (Row t)) t k (dupStored A) [s] x

/-- The next version of a row; `none` deletes it. -/
def changed (f : Row t → Option (Row t)) (s : Stored (Row t)) :
    Stored (Row t) :=
  match f s.row with
  | some r => ⟨r, true⟩
  | none => ⟨s.row, false⟩

def policyError : SqlxError :=
  .other "new row violates row-level security policy"

/-- A statement on connection `k`, with the tenant the policy finds there. -/
def underPolicy (f : Option υ → TenantSrv Row υ →
      Option (Except SqlxError β × TenantSrv Row υ))
    (k : Nat) (ch : Choice Unit) (w : TenantSrv Row υ) :
    Option (Except SqlxError β × TenantSrv Row υ) :=
  statement () (fun k w =>
    match policyTenant A.uuid (w.mem.setting k) with
    | .error e => some (.error e, w.failStatement k)
    | .ok scope => f scope w) k ch w

/-- `SELECT`: the time, and all rows of all tables that the policy lets the
client see. -/
def selectRows (k : Nat) (scope : Option υ) (w : TenantSrv Row υ) :
    Option (Except SqlxError (Int × ∀ t, List (Row t)) × TenantSrv Row υ) :=
  some (.ok (w.now k, fun t =>
    (((w.db t).view k).filter (qualifies A scope fun _ => true)).map
      Stored.row), w.completeStatement k)

/-- `INSERT` of one row. -/
def insertRow (t : τ) (r : Int → Row t) (k : Nat) (scope : Option υ)
    (w : TenantSrv Row υ) : Option (Except SqlxError Unit × TenantSrv Row υ) :=
  if allows A scope (r (w.now k)) then
    match insertStored A k ⟨r (w.now k), true⟩ (w.db t) with
    | none => none
    | some (.error e) => some (.error e, w.failStatement k)
    | some (.ok x) => some (.ok (), (w.setTable t x).completeStatement k)
  else some (.error policyError, w.failStatement k)

/-- The rows an `UPDATE` or `DELETE` is going to visit. -/
def modifyStart (t : τ) (p : Int → Row t → Bool) (k : Nat) (scope : Option υ)
    (w : TenantSrv Row υ) :
    Option (Except SqlxError (List Nat) × TenantSrv Row υ) :=
  some (.ok ((w.db t).targets k (qualifies A scope (p (w.now k)))), w)

/-- The visit of one of them: the policy has to allow the new version, and its
unique keys must be free in the rest of the table. -/
def modifyVisit (t : τ) (p : Int → Row t → Bool)
    (f : Int → Row t → Option (Row t)) (pos k : Nat) (scope : Option υ)
    (w : TenantSrv Row υ) :
    Option (Except SqlxError (Option (Row t)) × TenantSrv Row υ) :=
  match (w.db t).visit k (qualifies A scope (p (w.now k)))
      (changed (f (w.now k))) pos with
  | none => none
  | some (none, x) => some (.ok none, w.setTable t x)
  | some (some s, x) =>
      if allows A scope s.row then
        match insertStored A k s (x.set pos ⟨none, none⟩) with
        | none => none
        | some (.error e) => some (.error e, w.failStatement k)
        | some (.ok _) => some (.ok (some s.row), w.setTable t x)
      else some (.error policyError, w.failStatement k)

/-- `set_config('app.current_tenant', u, true)`. -/
def setConfig (u : υ) (k : Nat) (ch : Choice Unit) (w : TenantSrv Row υ) :
    Option (Except SqlxError Unit × TenantSrv Row υ) :=
  statement () (fun k w =>
    some (.ok (), (setSetting k ((w.mem.setting k).setLocal (A.uuid.text u))
      w).completeStatement k)) k ch w

end Statements

/-! ## Clients -/

/-- How a client lets go of its guard. -/
inductive Exit where
  | commit | rollback | drop
  deriving DecidableEq, Repr

/-- What a client does with a guard: it runs statements, each decided by the
results before, and lets go of it with a result. -/
inductive Script (Row : τ → Type) (α : Type) where
  | finish (exit : Exit) (a : α)
  | select (next : Except SqlxError (Int × ∀ t, List (Row t)) → Script Row α)
  | insert (t : τ) (r : Int → Row t) (next : Except SqlxError Unit → Script Row α)
  | modify (t : τ) (p : Int → Row t → Bool) (f : Int → Row t → Option (Row t))
      (next : Except SqlxError (List (Row t)) → Script Row α)

/-- A client with the tenant it begins the guard for. -/
structure TenantCall (Row : τ → Type) (υ α : Type) where
  scope : Option υ
  script : Script Row α

/-- Where a call stands. -/
inductive Stage (Row : τ → Type) (υ α : Type) where
  /-- `pool.begin()` waits for a connection. -/
  | acquire
  /-- `BEGIN` on connection `k`. -/
  | beginTx (k : Nat)
  /-- `set_config` on connection `k`. -/
  | setTenant (k : Nat) (u : υ)
  /-- The client has the guard. -/
  | run (k : Nat) (s : Script Row α)
  /-- An `UPDATE` or `DELETE` of the client has rows left to visit. -/
  | sweep (k : Nat) (t : τ) (p : Int → Row t → Bool)
      (f : Int → Row t → Option (Row t))
      (next : Except SqlxError (List (Row t)) → Script Row α)
      (visited : List (Row t)) (left : List Nat)
  | done (r : Except SqlxError α)

/-- The connection a call has. -/
def Stage.conn? : Stage Row υ α → Option Nat
  | .acquire => none
  | .beginTx k => some k
  | .setTenant k _ => some k
  | .run k _ => some k
  | .sweep k _ _ _ _ _ _ => some k
  | .done _ => none

/-- A call that is not under way. -/
def Stage.isDone : Stage Row υ α → Bool
  | .done _ => true
  | _ => false

section Steps

variable [DecidableEq τ] [DecidableEq υ] (A : Application τ Row υ)
  (q : TenantCall Row υ α) (k : Nat)

/-- After `BEGIN`: a guard sets its tenant first. -/
def begun : Except SqlxError Unit × TenantSrv Row υ →
    Stage Row υ α × TenantSrv Row υ
  | (.error e, w) => (.done (.error e), handTo k (.closing q.scope) w)
  | (.ok (), w) =>
      (match q.scope with
        | some u => .setTenant k u
        | none => .run k q.script, w)

/-- After `set_config`; where it fails, `begin` drops the transaction. -/
def tenantSet : Except SqlxError Unit × TenantSrv Row υ →
    Stage Row υ α × TenantSrv Row υ
  | (.error e, w) => (.done (.error e), handTo k (.closing q.scope) w)
  | (.ok (), w) => (.run k q.script, w)

/-- After `COMMIT`. -/
def commitDone (a : α) : Except SqlxError Unit × TenantSrv Row υ →
    Stage Row υ α × TenantSrv Row υ
  | (.error e, w) =>
      (.done (.error e), handTo k (.closing q.scope) (endSetting k w))
  | (.ok (), w) => (.done (.ok a), handTo k .idle (endSetting k w))

/-- After the visit of a row. -/
def visitDone (t : τ) (p : Int → Row t → Bool)
    (f : Int → Row t → Option (Row t))
    (next : Except SqlxError (List (Row t)) → Script Row α)
    (visited : List (Row t)) (left : List Nat) :
    Except SqlxError (Option (Row t)) × TenantSrv Row υ →
      Stage Row υ α × TenantSrv Row υ
  | (.error e, w) => (.run k (next (.error e)), w)
  | (.ok o, w) => (.sweep k t p f next (visited ++ o.toList) left, w)

/-- After the start of an `UPDATE` or `DELETE`. -/
def modifyBegun (t : τ) (p : Int → Row t → Bool)
    (f : Int → Row t → Option (Row t))
    (next : Except SqlxError (List (Row t)) → Script Row α) :
    Except SqlxError (List Nat) × TenantSrv Row υ →
      Stage Row υ α × TenantSrv Row υ
  | (.error e, w) => (.run k (next (.error e)), w)
  | (.ok ks, w) => (.sweep k t p f next [] ks, w)

/-- **One step of the call of thread `i`**: `TenantTx::begin`, the statements
of the client, `commit`, `rollback` or `drop`. -/
def advance (i : Nat) (pick : Pick) :
    Stage Row υ α → TenantSrv Row υ → Option (Stage Row υ α × TenantSrv Row υ)
  | .acquire, w =>
      match pick.choice with
      | .fail msg => some (.done (.error (.other msg)), w)
      | _ =>
          if w.mem.use pick.conn = .idle then
            some (.beginTx pick.conn, handTo pick.conn (.held i q.scope) w)
          else none
  | .beginTx k, w => (beginStep k pick.choice w).map (begun q k)
  | .setTenant k u, w => (setConfig A u k pick.choice w).map (tenantSet q k)
  | .run k (.finish .commit a), w =>
      (commitStep () k pick.choice w).map (commitDone q k a)
  | .run k (.finish .rollback a), w =>
      match pick.choice with
      | .fail msg =>
          some (.done (.error (.other msg)), handTo k (.closing q.scope) w)
      | _ => some (.done (.ok a), handTo k .idle (endSetting k (w.rollbackTx k)))
  | .run k (.finish .drop a), w =>
      some (.done (.ok a), handTo k (.closing q.scope) w)
  | .run k (.select next), w =>
      (underPolicy A (selectRows A k) k pick.choice w).map fun r =>
        (.run k (next r.1), r.2)
  | .run k (.insert t r next), w =>
      (underPolicy A (insertRow A t r k) k pick.choice w).map fun r =>
        (.run k (next r.1), r.2)
  | .run k (.modify t p f next), w =>
      (underPolicy A (modifyStart A t p k) k pick.choice w).map
        (modifyBegun k t p f next)
  | .sweep k _ _ _ next visited [], w =>
      (updateEnd () k pick.choice w).map fun r =>
        (.run k (next (r.1.map fun _ => visited)), r.2)
  | .sweep k t p f next visited (pos :: left), w =>
      (underPolicy A (modifyVisit A t p f pos k) k pick.choice w).map
        (visitDone k t p f next visited left)
  | .done _, _ => none

end Steps

/-! ## The machine -/

/-- The server and, for each thread number in use, the call it serves. -/
structure TenantConfig (Row : τ → Type) (υ α : Type) where
  shared : TenantSrv Row υ
  thread : Nat → Option (TenantCall Row υ α × Stage Row υ α)

namespace TenantConfig

/-- Thread `i` is set to something else. -/
def put (c : TenantConfig Row υ α) (i : Nat)
    (x : Option (TenantCall Row υ α × Stage Row υ α)) (w : TenantSrv Row υ) :
    TenantConfig Row υ α := ⟨w, Function.update c.thread i x⟩

/-- No call of thread `i` is under way. -/
def isFree (c : TenantConfig Row υ α) (i : Nat) : Bool :=
  (c.thread i).all fun x => x.2.isDone

end TenantConfig

/-- What happens next. -/
inductive TenantEvent (Row : τ → Type) (υ α : Type) where
  | call (i : Nat) (q : TenantCall Row υ α)
  | run (i : Nat) (pick : Pick)
  /-- The call is dropped, wherever it stands. -/
  | cancel (i : Nat)
  | tick (d : Nat)
  /-- The pool rolls back what a dropped guard has left. -/
  | cleanup (k : Nat)
  /-- The pool replaces an idle connection. -/
  | reconnect (k : Nat)
  /-- A slot of a table that holds no row. -/
  | spare (t : τ)

variable [DecidableEq τ] [DecidableEq υ] (A : Application τ Row υ)

/-- The connection of a dropped call. -/
def letGo (q : TenantCall Row υ α) (s : Stage Row υ α) (w : TenantSrv Row υ) :
    TenantSrv Row υ :=
  match s.conn? with
  | none => w
  | some k => handTo k (.closing q.scope) w

/-- The connection `k` is rolled back and free again. -/
def cleaned (k : Nat) (w : TenantSrv Row υ) : TenantSrv Row υ :=
  handTo k .idle (endSetting k (w.rollbackTx k))

def addSpare (t : τ) (w : TenantSrv Row υ) : TenantSrv Row υ :=
  w.setTable t (w.db t ++ [⟨none, none⟩])

/-- **Any number of calls, interleaved**, on any number of connections. -/
def tenantMachine :
    Machine (TenantEvent Row υ α) (TenantConfig Row υ α)
  | .call i q, c =>
      if c.isFree i then some (c.put i (some (q, .acquire)) c.shared) else none
  | .run i pick, c =>
      match c.thread i with
      | none => none
      | some (q, s) =>
          (advance A q i pick s c.shared).map fun x =>
            c.put i (some (q, x.1)) x.2
  | .cancel i, c =>
      match c.thread i with
      | none => none
      | some (q, s) => some (c.put i none (letGo q s c.shared))
  | .tick d, c =>
      some { c with shared := { c.shared with clock := c.shared.clock + d } }
  | .cleanup k, c =>
      match c.shared.mem.use k with
      | .closing _ => some { c with shared := cleaned k c.shared }
      | _ => none
  | .reconnect k, c =>
      match c.shared.mem.use k with
      | .idle => some { c with shared := setSetting k .fresh c.shared }
      | _ => none
  | .spare t, c => some { c with shared := addSpare t c.shared }

/-- A database whose pool has no connection in use. -/
structure Opening (w : TenantSrv Row υ) : Prop where
  unlocked : ∀ t, ∀ c ∈ w.db t, c.pending = none
  idle : ∀ k, w.mem.use k = .idle
  closed : ∀ k, (w.session k).status = .idle
  fresh : ∀ k, w.mem.setting k = .fresh

/-- No calls yet. -/
def TenantConfig.start (w : TenantSrv Row υ) : TenantConfig Row υ α :=
  ⟨w, fun _ => none⟩

/-! ## Sample data -/

/-- Two tenants. -/
inductive DemoTenant where
  | a | b
  deriving DecidableEq, Repr

/-- The text of their identifiers. -/
def DemoTenant.text : DemoTenant → String
  | .a => "3f2504e0-4f89-41d3-9a0c-0305e82c3301"
  | .b => "9c5b94b1-35ad-49bb-b118-8e8fc24abf80"

def demoUuid : UuidText DemoTenant where
  text := DemoTenant.text
  cast s :=
    if s = DemoTenant.text .a then some .a
    else if s = DemoTenant.text .b then some .b
    else none
  cast_text u := by cases u <;> decide
  text_ne u := by cases u <;> decide

/-- `demo_tickets`. -/
structure Ticket where
  id : Nat
  tenantId : DemoTenant
  title : String
  deriving DecidableEq, Repr

/-- One table; the key of a ticket is its tenant and its `id`. -/
def demo : Application Unit (fun _ => Ticket) DemoTenant where
  uuid := demoUuid
  tenantId _ r := r.tenantId
  dup _ r s := r.tenantId == s.tenantId && r.id == s.id

/-- A database with these tickets. -/
def demoSrv (x : Table (Stored Ticket)) :
    TenantSrv (fun _ : Unit => Ticket) DemoTenant where
  db _ := x
  session _ := ⟨.idle, 0, none⟩
  lastCommit _ := none
  clock := 0
  mem := ⟨fun _ => .fresh, fun _ => .idle⟩

def ticketA : Cell (Stored Ticket) := ⟨some ⟨⟨0, .a, "A ticket"⟩, true⟩, none⟩

def ticketB : Cell (Stored Ticket) := ⟨some ⟨⟨1, .b, "B ticket"⟩, true⟩, none⟩

theorem demo_opening {x : Table (Stored Ticket)}
    (h : ∀ c ∈ x, c.pending = none) : Opening (demoSrv x) where
  unlocked _ := h
  idle _ := rfl
  closed _ := rfl
  fresh _ := rfl

abbrev DemoCall := TenantCall (fun _ : Unit => Ticket) DemoTenant (List String)

abbrev DemoConfig := TenantConfig (fun _ : Unit => Ticket) DemoTenant (List String)

/-- Tenant A adds a ticket. -/
def writer : DemoCall where
  scope := some .a
  script := .insert () (fun _ => ⟨2, .a, "committed"⟩) fun
    | .ok _ => .finish .commit []
    | .error _ => .finish .rollback []

/-- Tenant B reads the titles of its tickets. -/
def reader : DemoCall where
  scope := some .b
  script := .select fun
    | .ok x => .finish .rollback ((x.2 ()).map Ticket.title)
    | .error _ => .finish .drop []

/-- A step of thread `i`, on the first connection. -/
def stepOn (i : Nat) :
    TenantEvent (fun _ : Unit => Ticket) DemoTenant (List String) :=
  .run i ⟨.ok, 0⟩

/-- The writer, from its first step to its last. -/
def writes : List (TenantEvent (fun _ : Unit => Ticket) DemoTenant (List String)) :=
  .call 0 writer :: List.replicate 5 (stepOn 0)

/-- The reader, up to its statement. -/
def begins : List (TenantEvent (fun _ : Unit => Ticket) DemoTenant (List String)) :=
  .call 1 reader :: List.replicate 3 (stepOn 1)

/-- No condition on the events. -/
def anyEvent (_ : TenantEvent (fun _ : Unit => Ticket) DemoTenant (List String))
    (_ : DemoConfig) : Bool := true

end DpopAuth.Ports.TenantTx
