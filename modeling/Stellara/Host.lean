import Stellara.Lib.Outcome
import Stellara.Lib.Checked
import Stellara.Lib.Ledger
import Stellara.Lib.Machine

/-!
# The contract host

What the contracts see of the chain: the ledger's clock, the addresses that signed the
transaction, the token contracts, and the arithmetic their binary was compiled with.

A contract function returns `Err(e)` or traps; either way the host drops everything the
call wrote, so a function of the model is an `Except` whose fault carries no state.
`Env.i128` and `Env.u64` are Rust's `+ - *` on those types: a result out of range traps
when the binary has overflow checks (debug and test builds) and wraps when it has not
(`cargo build --release` without a profile).  Every theorem is about both builds unless
it says otherwise.

Counters that grow by one per call (`u64` ids, `u32` counts) are `Nat`: no run is long
enough to exhaust them.
-/

namespace Stellara

open Outcome

/-- An account or contract address. -/
abbrev Address : Type := Nat

/-- A `soroban_sdk::Symbol`: a short string. -/
abbrev Symbol : Type := String

/-- Bytes are `Fin 256`. -/
instance byteNeZero : NeZero 256 := ⟨Nat.succ_ne_zero 255⟩

/-- How a call fails. -/
inductive Fault (ε : Type)
  /-- the contract returned `Err(e)` -/
  | err (e : ε)
  /-- a panic or a failed host call -/
  | panic (msg : String)
deriving DecidableEq, Repr

/-- `map_err` on the error code; a panic stays a panic. -/
def Fault.map {ε ε' : Type} (f : ε → ε') : Fault ε → Fault ε'
  | .err e => .err (f e)
  | .panic msg => .panic msg

/-- `unwrap_or(d)` on a result: an error becomes `d`, a panic stays a panic. -/
def unwrapOr {ε : Type} (d : Int) : Except (Fault ε) Int → Except (Fault ε) Int
  | .error (.err _) => .ok d
  | x => x

/-- What is fixed when a contract is deployed. -/
structure Deployment where
  /-- `env.current_contract_address()` -/
  self : Address
  /-- the binary was built with `overflow-checks` -/
  overflowChecks : Bool
deriving DecidableEq, Repr

/-- The environment of one call. -/
structure Env extends Deployment where
  /-- `env.ledger().timestamp()` -/
  timestamp : Nat
  /-- `env.ledger().sequence()` -/
  sequence : Nat
  /-- the addresses whose `require_auth` succeeds in this call -/
  signers : List Address
deriving DecidableEq, Repr

/-- A call the outside world can make to the deployment `d`.  A contract that never
calls itself has no authorisation of its own to give. -/
def Env.Of (d : Deployment) (env : Env) : Prop :=
  env.toDeployment = d ∧ d.self ∉ env.signers

instance (d : Deployment) (env : Env) : Decidable (env.Of d) :=
  inferInstanceAs (Decidable (_ ∧ _))

variable {ε : Type}

/-- `addr.require_auth()`. -/
def Env.requireAuth (env : Env) (addr : Address) : Except (Fault ε) Unit :=
  require (addr ∈ env.signers) (.panic "require_auth failed")

@[simp] theorem requireAuth_eq_ok {env : Env} {addr : Address} {u : Unit} :
    (env.requireAuth addr : Except (Fault ε) Unit) = .ok u ↔ addr ∈ env.signers :=
  require_eq_ok

theorem Env.Of.ne_self {d : Deployment} {env : Env} (h : env.Of d) {addr : Address}
    (ha : addr ∈ env.signers) : addr ≠ env.self := by
  obtain ⟨rfl, hs⟩ := h
  rintro rfl
  exact hs ha

/-! ## Arithmetic -/

/-- `i128::MAX`. -/
def i128Max : Int := 2 ^ 127 - 1

theorem zero_le_i128Max : (0 : Int) ≤ i128Max := by decide

/-- The result of an `i128` operation of the binary `d` whose exact value is `x`. -/
def Deployment.i128 (d : Deployment) (x : Int) : Except (Fault ε) Int :=
  ofOption (Checked.signed d.overflowChecks 128 x) (.panic "i128 overflow")

def Env.i128 (env : Env) (x : Int) : Except (Fault ε) Int := env.toDeployment.i128 x

/-- `x / y` on `i128`.  A zero divisor and `i128::MIN / -1` trap in every build. -/
def divI128 (x y : Int) : Except (Fault ε) Int := do
  require (y ≠ 0) (.panic "division by zero")
  ofOption (Checked.signed true 128 (x.tdiv y)) (.panic "i128 overflow")

def saturatingMul (x y : Int) : Int := Checked.saturate 128 (x * y)

def saturatingAdd (x y : Int) : Int := Checked.saturate 128 (x + y)

def saturatingSub (x y : Int) : Int := Checked.saturate 128 (x - y)

/-- The result of a `u64` operation whose exact value is `x`. -/
def Env.u64 (env : Env) (x : Int) : Except (Fault ε) Nat :=
  ofOption (Checked.unsigned env.overflowChecks 64 x) (.panic "u64 overflow")

/-- The result of a `u128` operation whose exact value is `x`. -/
def Env.u128 (env : Env) (x : Int) : Except (Fault ε) Nat :=
  ofOption (Checked.unsigned env.overflowChecks 128 x) (.panic "u128 overflow")

/-- `x as i128` of an integer type of any width. -/
def asI128 (x : Int) : Int := x.bmod (2 ^ 128)

/-- `x as u128` of an integer type of any width. -/
def asU128 (x : Int) : Nat := (x % 2 ^ 128).toNat

/-- `x` is a value of type `i128`. -/
abbrev InI128 (x : Int) : Prop := Checked.InInt 128 x

theorem inI128_iff {x : Int} : InI128 x ↔ -2 ^ 127 ≤ x ∧ x ≤ i128Max := by
  unfold InI128 Checked.InInt i128Max
  omega

section I128

variable {d : Deployment} {x y : Int}

theorem i128_exact (h : (d.i128 x : Except (Fault ε) Int) = .ok y) (hx : InI128 x) : y = x :=
  Checked.signed_exact (ofOption_eq_ok.mp h) hx

theorem i128_of_in (d : Deployment) (hx : InI128 x) :
    (d.i128 x : Except (Fault ε) Int) = .ok x := by
  unfold Deployment.i128
  rw [Checked.signed_of_inInt hx]
  rfl

theorem i128_inI128 (h : (d.i128 x : Except (Fault ε) Int) = .ok y) : InI128 y :=
  Checked.signed_inInt (by omega) (ofOption_eq_ok.mp h)

theorem env_i128_of_in (env : Env) (hx : InI128 x) : (env.i128 x : Except (Fault ε) Int) = .ok x :=
  i128_of_in env.toDeployment hx

/-- The quotient of a value that is not negative. -/
theorem divI128_of_nonneg (h0 : 0 ≤ x) (hx : x ≤ i128Max) (hy : 0 < y) :
    (divI128 x y : Except (Fault ε) Int) = .ok (x / y) := by
  have hq0 : 0 ≤ x / y := Int.ediv_nonneg h0 hy.le
  have hq : x / y ≤ x := Int.ediv_le_self y h0
  have hin : InI128 (x / y) := inI128_iff.mpr ⟨by omega, by omega⟩
  unfold divI128
  rw [require_pos _ hy.ne', Int.tdiv_eq_ediv_of_nonneg h0]
  exact ofOption_eq_ok.mpr (Checked.signed_of_inInt hin)

/-- With overflow checks a result is always exact. -/
theorem i128_checked (hc : d.overflowChecks = true)
    (h : (d.i128 x : Except (Fault ε) Int) = .ok y) : y = x := by
  rcases Checked.signed_cases (ofOption_eq_ok.mp h) with ⟨_, h⟩ | ⟨_, h, _⟩
  · exact h
  · rw [hc] at h; cases h

/-- The sum of two values of the type that are not negative is exact, or too large by `2 ^ 128`
once it has wrapped around. -/
theorem i128_sum_cases (h : (d.i128 x : Except (Fault ε) Int) = .ok y) (h0 : 0 ≤ x)
    (hx : x < 2 ^ 128) : (InI128 x ∧ y = x) ∨ (¬ InI128 x ∧ y = x - 2 ^ 128) := by
  rcases Checked.signed_cases (ofOption_eq_ok.mp h) with ⟨hin, hy⟩ | ⟨hin, -, hy⟩
  · exact .inl ⟨hin, hy⟩
  · refine .inr ⟨hin, ?_⟩
    have hbig : 2 ^ 127 ≤ x := by
      by_contra hsmall
      exact hin ⟨by omega, by omega⟩
    rw [hy, Int.bmod_def]
    omega

/-- Adding to a value that is not negative makes it no smaller exactly if what is added is not
negative and the sum fits. -/
theorem i128_grows_iff (h0 : 0 ≤ x) (hx : x ≤ i128Max) {amount : Int} (hamount : InI128 amount)
    (h : (d.i128 (x + amount) : Except (Fault ε) Int) = .ok y) :
    x ≤ y ↔ 0 ≤ amount ∧ x + amount ≤ i128Max := by
  obtain ⟨hlow, hhigh⟩ := inI128_iff.mp hamount
  constructor
  · intro hgrown
    have hpos : 0 ≤ amount := by
      by_contra hneg
      have hexact := i128_exact h (inI128_iff.mpr ⟨by omega, by omega⟩)
      omega
    refine ⟨hpos, ?_⟩
    unfold i128Max at hx hhigh
    rcases i128_sum_cases h (by omega) (by omega) with ⟨hin, -⟩ | ⟨-, hwrapped⟩
    · exact (inI128_iff.mp hin).2
    · omega
  · rintro ⟨hpos, hfits⟩
    have hexact := i128_exact h (inI128_iff.mpr ⟨by omega, hfits⟩)
    omega

theorem saturate_of_in (hx : InI128 x) : Checked.saturate 128 x = x := by
  obtain ⟨h0, h1⟩ := hx
  unfold Checked.saturate
  omega

end I128

theorem asI128_of_in {x : Int} (h : InI128 x) : asI128 x = x := by
  obtain ⟨h0, h1⟩ := h
  unfold asI128
  rw [Int.bmod_eq_of_le] <;> omega

theorem asI128_inI128 (x : Int) : InI128 (asI128 x) := Checked.bmod_inInt (by decide) x

theorem asI128_le {x : Int} (h0 : 0 ≤ x) : asI128 x ≤ x := by
  unfold asI128
  rw [Int.bmod_def]
  omega

/-- Whatever the build, a result is the value brought back into the type. -/
theorem i128_eq_asI128 {d : Deployment} {x y : Int}
    (h : (d.i128 x : Except (Fault ε) Int) = .ok y) : y = asI128 x := by
  rcases Checked.signed_cases (ofOption_eq_ok.mp h) with ⟨hin, rfl⟩ | ⟨-, -, rfl⟩
  · exact (asI128_of_in hin).symm
  · rfl

theorem asU128_of_nonneg {x : Int} (h0 : 0 ≤ x) (h : x ≤ i128Max) : (asU128 x : Int) = x := by
  unfold i128Max at h
  unfold asU128
  omega

theorem u64_of_in (env : Env) {x : Int} (h0 : 0 ≤ x) (hx : x < 2 ^ 64) :
    (env.u64 x : Except (Fault ε) Nat) = .ok x.toNat :=
  ofOption_eq_ok.mpr (Checked.unsigned_of_inNat ⟨h0, hx⟩)

theorem u64_exact {env : Env} {x : Int} {n : Nat} (h : (env.u64 x : Except (Fault ε) Nat) = .ok n)
    (h0 : 0 ≤ x) (hx : x < 2 ^ 64) : (n : Int) = x := by
  rcases Checked.unsigned_cases (ofOption_eq_ok.mp h) with ⟨_, h⟩ | ⟨hn, _⟩
  · exact h
  · exact absurd ⟨h0, hx⟩ hn

theorem u128_of_in (env : Env) {x : Int} (h0 : 0 ≤ x) (hx : x < 2 ^ 128) :
    (env.u128 x : Except (Fault ε) Nat) = .ok x.toNat :=
  ofOption_eq_ok.mpr (Checked.unsigned_of_inNat ⟨h0, hx⟩)

theorem u128_exact {env : Env} {x : Int} {n : Nat}
    (h : (env.u128 x : Except (Fault ε) Nat) = .ok n) (h0 : 0 ≤ x) (hx : x < 2 ^ 128) :
    (n : Int) = x := by
  rcases Checked.unsigned_cases (ofOption_eq_ok.mp h) with ⟨_, h⟩ | ⟨hn, _⟩
  · exact h
  · exact absurd ⟨h0, hx⟩ hn

theorem u128_lt {env : Env} {x : Int} {n : Nat}
    (h : (env.u128 x : Except (Fault ε) Nat) = .ok n) : n < 2 ^ 128 :=
  Checked.unsigned_lt (ofOption_eq_ok.mp h)

/-- With overflow checks a result is always exact. -/
theorem u64_checked {env : Env} {x : Int} {n : Nat} (hc : env.overflowChecks = true)
    (h : (env.u64 x : Except (Fault ε) Nat) = .ok n) : (n : Int) = x := by
  rcases Checked.unsigned_cases (ofOption_eq_ok.mp h) with ⟨_, h⟩ | ⟨_, h, _⟩
  · exact h
  · rw [hc] at h; cases h

theorem u128_checked {env : Env} {x : Int} {n : Nat} (hc : env.overflowChecks = true)
    (h : (env.u128 x : Except (Fault ε) Nat) = .ok n) : (n : Int) = x := by
  rcases Checked.unsigned_cases (ofOption_eq_ok.mp h) with ⟨_, h⟩ | ⟨_, h, _⟩
  · exact h
  · rw [hc] at h; cases h

/-- Whatever the build, a result is the value brought back into the type. -/
theorem u128_eq_asU128 {env : Env} {x : Int} {n : Nat}
    (h : (env.u128 x : Except (Fault ε) Nat) = .ok n) : n = asU128 x := by
  rcases Checked.unsigned_cases (ofOption_eq_ok.mp h) with ⟨hin, hn⟩ | ⟨-, -, hn⟩
  · unfold asU128
    rw [Int.emod_eq_of_lt hin.1 hin.2, ← hn, Int.toNat_natCast]
  · exact hn

/-! ## Token contracts -/

/-- The balances of every token contract the model talks to, keyed by its address. -/
abbrev Tokens : Type := Ledger Address Address

/-- `token::Client::transfer`.  The sender has authorised it: it is a signer of the
call, or the contract itself. -/
def Tokens.transfer (L : Tokens) (token src dst : Address) (amount : Int) :
    Except (Fault ε) Tokens :=
  ofOption (Ledger.transfer i128Max L token src dst amount) (.panic "token transfer failed")

/-- `token::Client::burn`.  The holder has authorised it. -/
def Tokens.burn (L : Tokens) (token holder : Address) (amount : Int) : Except (Fault ε) Tokens :=
  ofOption (Ledger.burn L token holder amount) (.panic "token burn failed")

/-- What the token contracts do outside the modelled contract. -/
inductive TokenCall
  | transfer (token src dst : Address) (amount : Int)
  | mint (token dst : Address) (amount : Int)
deriving DecidableEq, Repr

/-- A holder moves its own tokens; a token's administrator mints. -/
def TokenCall.exec (env : Env) (L : Tokens) : TokenCall → Except (Fault ε) Tokens
  | .transfer token src dst amount => do
    env.requireAuth src
    L.transfer token src dst amount
  | .mint token dst amount =>
    ofOption (Ledger.mint i128Max L token dst amount) (.panic "mint failed")

theorem tokens_transfer_eq_ok {L L' : Tokens} {token src dst : Address} {amount : Int} :
    (L.transfer token src dst amount : Except (Fault ε) Tokens) = .ok L' ↔
      Ledger.transfer i128Max L token src dst amount = some L' :=
  ofOption_eq_ok

/-- What others do with their tokens takes nothing from the contract. -/
theorem tokenCall_self {d : Deployment} {env : Env} {L L' : Tokens} {c : TokenCall}
    (hv : env.Of d) (h : (c.exec env L : Except (Fault ε) Tokens) = .ok L') (token : Address) :
    L.balance token env.self ≤ L'.balance token env.self := by
  cases c with
  | transfer tk src dst amount =>
    simp only [TokenCall.exec, bind_eq_ok, requireAuth_eq_ok, exists_unit_and] at h
    obtain ⟨hs, ht⟩ := h
    rw [tokens_transfer_eq_ok] at ht
    have hne := hv.ne_self hs
    have hb := Ledger.balance_transfer ht token env.self
    have hx := (Ledger.transfer_bounds ht).1
    rw [if_neg (fun h => hne h.2.symm)] at hb
    split at hb <;> omega
  | mint tk dst amount =>
    have hm := ofOption_eq_ok.mp h
    have hb := Ledger.balance_mint hm token env.self
    have hx := Ledger.mint_nonneg hm
    split at hb <;> omega

end Stellara
