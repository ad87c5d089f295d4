import DpopAuth.Verified.ResourcePool

/-!
# The service on its connection pool

What each `AuthService` call does to the pool.  A `let mut conn =
self.pool.acquire().await?` lives to the end of its block, a transaction from
`self.pool.begin()` until it is committed or dropped; either way that is a
`scope`.  Every `?` and every early `return` may end a call in between, hence
the `choice`s.

`confirm_2fa` begins its transaction, and `disable_2fa` runs `verify_2fa_code`
and begins its transaction, while their own `conn` is still alive.

## Main results

* `pool_never_jams_iff` — the pool stays free of jams exactly when there are
  fewer such calls than connections.
* `two_step_ups_jam` — two of them jam a pool of two.
-/

namespace DpopAuth.Ports.ConnectionPool

open DpopAuth.Verified.ResourcePool

/-! ## The calls -/

/-- `register`: a transaction, unless registration is disabled. -/
def register : Flow := .choice .done (.scope .done)

/-- `login`: one connection from start to end. -/
def login : Flow := .scope .done

/-- `refresh`: one transaction; the grace and reuse branches use it too. -/
def refresh : Flow := .scope .done

/-- `logout`. -/
def logout : Flow := .scope .done

/-- `setup_2fa`. -/
def setup2fa : Flow := .scope .done

/-- `confirm_2fa`: `conn` reads the user and the draft, and is still there when
`self.pool.begin()` asks for the transaction. -/
def confirm2fa : Flow := .scope (.choice .done (.scope .done))

/-- `verify_2fa_code`. -/
def verify2faCode : Flow := .scope .done

/-- `disable_2fa`: `conn` reads the user; then `verify_2fa_code` and, after it,
the transaction ask for one more each. -/
def disable2fa : Flow :=
  .scope (.choice .done
    (verify2faCode.andThen (.choice .done (.scope .done))))

/-- The methods of `AuthService`. -/
inductive AuthCall where
  | register
  | login
  | refresh
  | logout
  | setup2fa
  | confirm2fa
  | verify2faCode
  | disable2fa
  deriving DecidableEq, Repr

/-- What the call does to the pool. -/
def AuthCall.flow : AuthCall → Flow
  | register => ConnectionPool.register
  | login => ConnectionPool.login
  | refresh => ConnectionPool.refresh
  | logout => ConnectionPool.logout
  | setup2fa => ConnectionPool.setup2fa
  | confirm2fa => ConnectionPool.confirm2fa
  | verify2faCode => ConnectionPool.verify2faCode
  | disable2fa => ConnectionPool.disable2fa

/-- The calls that ask for a connection while they hold one. -/
def AuthCall.asksTwice : AuthCall → Bool
  | confirm2fa | disable2fa => true
  | _ => false

/-- No interleaving of `calls` ends with all `n` connections held by calls that
wait for another one. -/
def NeverJams (n : Nat) (calls : List AuthCall) : Prop :=
  ∀ ts, Reaches n (start (calls.map AuthCall.flow)) ts → ¬ Jammed n ts

/-! ## When the pool is free of jams -/

theorem AuthCall.flow_modest (c : AuthCall) :
    c.flow.Modest c.asksTwice 0 := by
  cases c <;> decide

/-- The flows of `confirm_2fa` and `disable_2fa`. -/
def nests (f : Flow) : Bool := f == confirm2fa || f == disable2fa

theorem nests_flow (c : AuthCall) : nests c.flow = c.asksTwice := by
  cases c <;> decide

theorem nests_asks {f : Flow} (h : nests f = true) : f.Nests := by
  simp only [nests, Bool.or_eq_true, beq_iff_eq] at h
  rcases h with rfl | rfl
  · exact ⟨_, _, rfl, .right (.refl _)⟩
  · exact ⟨_, _, rfl, .right (.refl _)⟩

/-- **The pool and the calls that ask twice.**  Whatever the calls and whatever
the size of the pool, no interleaving jams it if and only if fewer than `n` of
the calls are `confirm_2fa` or `disable_2fa`. -/
theorem pool_never_jams_iff (n : Nat) (calls : List AuthCall) :
    NeverJams n calls ↔ calls.countP AuthCall.asksTwice < n := by
  constructor
  · intro hnever
    by_contra hmany
    have hcount : (calls.map AuthCall.flow).countP nests
        = calls.countP AuthCall.asksTwice := by
      rw [List.countP_map]
      exact List.countP_congr fun c _ => by
        rw [Function.comp_apply, nests_flow]
    have hmany : n ≤ (calls.map AuthCall.flow).countP nests := by omega
    obtain ⟨ts, hrun, hjam⟩ := jam nests (fun _ h => nests_asks h) hmany
    exact hnever ts hrun hjam
  · intro hfew ts hrun
    have hmodest : List.Forall₂ (fun k (f : Flow) => f.Modest k 0)
        (calls.map AuthCall.asksTwice) (calls.map AuthCall.flow) := by
      rw [List.forall₂_map_left_iff, List.forall₂_map_right_iff]
      exact List.forall₂_same.2 fun c _ => c.flow_modest
    have hcount : (calls.map AuthCall.asksTwice).count true
        = calls.countP AuthCall.asksTwice := by
      rw [List.count, List.countP_map]
      exact List.countP_congr fun c _ => by simp
    exact not_jammed hmodest (by omega) hrun

/-- Two connections, two step-ups: a confirmation and a removal each hold one
connection and wait for another one. -/
theorem two_step_ups_jam :
    ¬ NeverJams 2 [.confirm2fa, .disable2fa] := by
  intro hnever
  have hmany : 2 ≤ [confirm2fa, disable2fa].countP nests := by decide
  obtain ⟨ts, hrun, hjam⟩ := jam nests (fun _ h => nests_asks h) hmany
  exact hnever ts hrun hjam

end DpopAuth.Ports.ConnectionPool
