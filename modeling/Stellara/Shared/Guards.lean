import Stellara.Host

/-!
# Shared guards (`shared/src/{circuit_breaker, fees, reentrancy_guard, nonce}.rs`)

The circuit breaker counts trades and volume per period and pauses the contract when a
threshold is reached; the fee manager collects a fee through the token contract; the
re-entrancy flag and the nonce list are used by the cross-chain router and by messaging.
-/

namespace Stellara

open Outcome

variable {ε : Type}

/-! ## Circuit breaker -/

namespace CircuitBreaker

inductive PauseLevel
  | none
  /-- specific functions paused -/
  | partially
  /-- all non-admin functions paused -/
  | full
deriving DecidableEq, Repr

structure Config where
  maxVolumePerPeriod : Int
  maxTxCountPerPeriod : Nat
  periodDuration : Nat
deriving DecidableEq, Repr

structure CircuitBreakerState where
  currentPeriodStart : Nat := 0
  currentPeriodVolume : Int := 0
  currentPeriodTxCount : Nat := 0
  lastTriggerTimestamp : Nat := 0
  pauseLevel : PauseLevel := .none
deriving DecidableEq, Repr

/-- `cb_config`, `cb_state` and `cb_p_fns`. -/
structure State where
  config : Option Config := none
  state : CircuitBreakerState := {}
  pausedFuncs : Store Symbol Bool := ∅

def init (env : Env) (s : State) (config : Config) : State :=
  { s with config := some config, state := { currentPeriodStart := env.timestamp } }

/-- `func_name` is switched off at the present pause level. -/
def isPaused (s : State) (funcName : Symbol) : Bool :=
  match s.state.pauseLevel with
  | .full => true
  | .partially => (s.pausedFuncs.lookup funcName).getD false
  | .none => false

def requireNotPaused (s : State) (funcName : Symbol) : Except (Fault ε) Unit := do
  require (s.state.pauseLevel ≠ .full) (.panic "CONTRACT_FULLY_PAUSED")
  require (isPaused s funcName = false) (.panic "FUNCTION_PAUSED")

/-- The counters of the period that `env` falls in. -/
def resetPeriod (env : Env) (config : Config) (st : CircuitBreakerState) :
    Except (Fault ε) CircuitBreakerState := do
  let periodEnd ← env.u64 (st.currentPeriodStart + config.periodDuration)
  if periodEnd ≤ env.timestamp then
    pure { st with currentPeriodStart := env.timestamp, currentPeriodVolume := 0,
                   currentPeriodTxCount := 0 }
  else pure st

def trackActivity (env : Env) (s : State) (volume : Int) : Except (Fault ε) State := do
  let config ← ofOption s.config (.panic "CB_NOT_INIT")
  let st ← resetPeriod env config s.state
  let currentPeriodVolume ← env.i128 (st.currentPeriodVolume + volume)
  let st := { st with currentPeriodVolume := currentPeriodVolume
                      currentPeriodTxCount := st.currentPeriodTxCount + 1 }
  if (config.maxVolumePerPeriod ≤ st.currentPeriodVolume ∨
      config.maxTxCountPerPeriod ≤ st.currentPeriodTxCount) ∧ st.pauseLevel = .none then
    pure { s with state := { st with pauseLevel := .full, lastTriggerTimestamp := env.timestamp } }
  else pure { s with state := st }

def setPauseLevel (s : State) (level : PauseLevel) : State :=
  { s with state := { s.state with pauseLevel := level } }

def pauseFunction (s : State) (funcName : Symbol) : State :=
  let s := { s with pausedFuncs := s.pausedFuncs.insert funcName true }
  if s.state.pauseLevel = .none then setPauseLevel s .partially else s

def unpauseFunction (s : State) (funcName : Symbol) : State :=
  { s with pausedFuncs := s.pausedFuncs.erase funcName }

end CircuitBreaker

/-! ## Fees -/

namespace FeeManager

inductive FeeError
  | insufficientBalance
  | invalidAmount
deriving DecidableEq, Repr

def collectFee (tokens : Tokens) (token payer destination : Address) (amount : Int) :
    Except (Fault FeeError) Tokens :=
  if amount < 0 then .error (.err .invalidAmount)
  else if amount = 0 then .ok tokens
  else tokens.transfer token payer destination amount

end FeeManager

/-! ## Re-entrancy flag -/

namespace ReentrancyGuard

/-- The flag after `enter`. -/
def enter (active : Bool) : Except (Fault ε) Bool := do
  require (active = false) (.panic "REENTRANCY_DETECTED")
  pure true

/-- The flag after `exit`. -/
def exit : Bool := false

end ReentrancyGuard

/-! ## Nonces -/

namespace NonceManager

structure NonceRecord where
  chainId : Nat
  nonce : Nat
  used : Bool
deriving DecidableEq, Repr

/-- `_nonces` and `_chain`. -/
structure State where
  nonces : List NonceRecord := []
  chain : Option Nat := none
deriving DecidableEq, Repr

def setChainId (s : State) (chainId : Nat) : State := { s with chain := some chainId }

/-- The nonce of the last record of the chain. -/
def getLastNonce (s : State) (chainId : Nat) : Option Nat :=
  s.nonces.foldl (fun last r => if r.chainId = chainId then some r.nonce else last) none

def enforceSequentialNonce (s : State) (chainId nonce : Nat) : Except (Fault ε) Unit :=
  match getLastNonce s chainId with
  | some expected => require (expected < nonce) (.panic "NONCE_OUT_OF_ORDER")
  | none => .ok ()

/-- The loop of `record_and_verify`: the first record of the nonce is marked, and one is
added at the end when there is none. -/
def useNonce (chainId nonce : Nat) : List NonceRecord → Except (Fault ε) (List NonceRecord)
  | [] => .ok [⟨chainId, nonce, true⟩]
  | r :: rs =>
    if r.chainId = chainId ∧ r.nonce = nonce then do
      require (r.used = false) (.panic "REPLAY_DETECTED")
      pure ({ r with used := true } :: rs)
    else do
      let rs ← useNonce chainId nonce rs
      pure (r :: rs)

def recordAndVerify (s : State) (chainId nonce : Nat) : Except (Fault ε) State := do
  require (∀ expected, s.chain = some expected → chainId = expected) (.panic "INVALID_CHAIN_ID")
  let nonces ← useNonce chainId nonce s.nonces
  pure { s with nonces }

end NonceManager

end Stellara
