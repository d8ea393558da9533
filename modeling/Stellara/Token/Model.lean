import Stellara.Host

/-!
# The token contract (`contracts/token/src/{libs, storage, admin}.rs`)

Balances and the total supply are plain `i128` entries; nothing ties them together but the
code below.  `transfer` and `transfer_from` read both balances before they write either
(`moveBalance`).  Allowances are temporary entries: the host may drop one (`expire`).
-/

namespace Stellara.Token

open Outcome

/-- What `initialize` stores besides the administrator. -/
structure Metadata where
  name : String
  symbol : String
  decimals : Nat
deriving DecidableEq, Repr

structure State where
  admin : Option Address := none
  metadata : Option Metadata := none
  balances : Store Address Int := ∅
  totalSupply : Int := 0
  /-- the entries `(ALLOW, from, spender)` -/
  allowances : Store (Address × Address) Int := ∅

/-- Every failure is a panic. -/
abbrev Result (α : Type) : Type := Except (Fault Empty) α

def balanceOf (s : State) (addr : Address) : Int := (s.balances.lookup addr).getD 0

def setBalance (s : State) (addr : Address) (amount : Int) : State :=
  { s with balances := s.balances.insert addr amount }

def allowance (s : State) (owner spender : Address) : Int :=
  (s.allowances.lookup (owner, spender)).getD 0

def setAllowance (s : State) (owner spender : Address) (amount : Int) : State :=
  { s with allowances := s.allowances.insert (owner, spender) amount }

/-- `checked_add(..).expect(msg)`. -/
def checkedAdd (x y : Int) (msg : String) : Result Int :=
  ofOption (Checked.signed true 128 (x + y)) (.panic msg)

def requireAdmin (env : Env) (s : State) : Result Unit := do
  let admin ← ofOption s.admin (.panic "Admin not set")
  env.requireAuth admin

/-- `initialize`. -/
def initContract (env : Env) (s : State) (admin : Address) (metadata : Metadata) : Result State := do
  require (s.admin = none) (.panic "Already initialized")
  env.requireAuth admin
  pure { s with admin := some admin, metadata := some metadata }

/-- The common half of `transfer` and `transfer_from`. -/
def moveBalance (env : Env) (s : State) (src dst : Address) (amount : Int) : Result State := do
  let fromBalance := balanceOf s src
  require (amount ≤ fromBalance) (.panic "Insufficient balance")
  let toBalance := balanceOf s dst
  let debited ← env.i128 (fromBalance - amount)
  let s := setBalance s src debited
  let credited ← env.i128 (toBalance + amount)
  pure (setBalance s dst credited)

def transfer (env : Env) (s : State) (src dst : Address) (amount : Int) : Result State := do
  env.requireAuth src
  require (0 < amount) (.panic "Amount must be positive")
  moveBalance env s src dst amount

/-- The common half of `transfer_from` and `burn_from`. -/
def consumeAllowance (env : Env) (s : State) (spender src : Address) (amount : Int) :
    Result State := do
  env.requireAuth spender
  require (0 < amount) (.panic "Amount must be positive")
  require (amount ≤ allowance s src spender) (.panic "Allowance exceeded")
  let rest ← env.i128 (allowance s src spender - amount)
  pure (setAllowance s src spender rest)

def transferFrom (env : Env) (s : State) (spender src dst : Address) (amount : Int) :
    Result State := do
  let s ← consumeAllowance env s spender src amount
  moveBalance env s src dst amount

/-- The expiration ledger is not used. -/
def approve (env : Env) (s : State) (src spender : Address) (amount : Int)
    (_expirationLedger : Nat) : Result State := do
  env.requireAuth src
  require (0 ≤ amount) (.panic "Amount must be non-negative")
  pure (setAllowance s src spender amount)

def mint (env : Env) (s : State) (dst : Address) (amount : Int) : Result State := do
  requireAdmin env s
  require (0 < amount) (.panic "Amount must be positive")
  let newBalance ← checkedAdd (balanceOf s dst) amount "Overflow"
  let s := setBalance s dst newBalance
  let totalSupply ← checkedAdd s.totalSupply amount "Supply overflow"
  pure { s with totalSupply }

/-- The common half of `burn` and `burn_from`. -/
def burnBalance (env : Env) (s : State) (src : Address) (amount : Int) : Result State := do
  require (amount ≤ balanceOf s src) (.panic "Insufficient balance")
  let balance ← env.i128 (balanceOf s src - amount)
  let s := setBalance s src balance
  let totalSupply ← env.i128 (s.totalSupply - amount)
  pure { s with totalSupply }

def burn (env : Env) (s : State) (src : Address) (amount : Int) : Result State := do
  env.requireAuth src
  require (0 < amount) (.panic "Amount must be positive")
  burnBalance env s src amount

def burnFrom (env : Env) (s : State) (spender src : Address) (amount : Int) : Result State := do
  let s ← consumeAllowance env s spender src amount
  burnBalance env s src amount

def setAdmin (env : Env) (s : State) (newAdmin : Address) : Result State := do
  requireAdmin env s
  env.requireAuth newAdmin
  pure { s with admin := some newAdmin }

/-! ## The contract as a machine -/

inductive Call
  | initContract (admin : Address) (metadata : Metadata)
  | transfer (src dst : Address) (amount : Int)
  | transferFrom (spender src dst : Address) (amount : Int)
  | approve (src spender : Address) (amount : Int) (expirationLedger : Nat)
  | mint (dst : Address) (amount : Int)
  | burn (src : Address) (amount : Int)
  | burnFrom (spender src : Address) (amount : Int)
  | setAdmin (newAdmin : Address)
  /-- the host drops an allowance -/
  | expire (owner spender : Address)
deriving DecidableEq, Repr

def step (env : Env) (s : State) : Call → Result State
  | .initContract admin metadata => initContract env s admin metadata
  | .transfer src dst amount => transfer env s src dst amount
  | .transferFrom spender src dst amount => transferFrom env s spender src dst amount
  | .approve src spender amount expirationLedger => approve env s src spender amount expirationLedger
  | .mint dst amount => mint env s dst amount
  | .burn src amount => burn env s src amount
  | .burnFrom spender src amount => burnFrom env s spender src amount
  | .setAdmin newAdmin => setAdmin env s newAdmin
  | .expire owner spender => .ok { s with allowances := s.allowances.erase (owner, spender) }

def exec (env : Env) (call : Call) (s : State) : Result (Unit × State) := do
  pure ((), ← step env s call)

/-- The amounts are values of their Rust type. -/
def Call.Typed : Call → Prop
  | .transfer _ _ amount => InI128 amount
  | .transferFrom _ _ _ amount => InI128 amount
  | .approve _ _ amount _ => InI128 amount
  | .mint _ amount => InI128 amount
  | .burn _ amount => InI128 amount
  | .burnFrom _ _ amount => InI128 amount
  | .initContract .. | .setAdmin _ | .expire .. => True

instance : (call : Call) → Decidable call.Typed
  | .transfer _ _ amount | .transferFrom _ _ _ amount | .approve _ _ amount _ | .mint _ amount
  | .burn _ amount | .burnFrom _ _ amount => inferInstanceAs (Decidable (InI128 amount))
  | .initContract .. | .setAdmin _ | .expire .. => inferInstanceAs (Decidable True)

/-- Runs start with nothing stored. -/
def machine (d : Deployment) : Machine Env Call Unit (Fault Empty) State where
  init s := s = {}
  valid env call := env.Of d ∧ call.Typed
  clock env := env.timestamp
  exec env call s := exec env call s

instance (d : Deployment) (env : Env) (call : Call) : Decidable ((machine d).valid env call) :=
  inferInstanceAs (Decidable (_ ∧ _))

abbrev Trace : Type := List (Event Env Call Unit State)

theorem exec_ok {env : Env} {call : Call} {u : Unit} {s s' : State} :
    exec env call s = .ok (u, s') ↔ step env s call = .ok s' :=
  answer_eq_ok.trans (and_iff_left rfl)

end Stellara.Token
