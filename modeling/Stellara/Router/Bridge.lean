import Stellara.Router.Model

/-!
# Bridge (`contracts/cross-chain-router/src/bridge.rs`)

Deposits announce themselves by an event, withdrawals are let through on a list of
signatures over the withdrawal's hash.  The hash and the serialisation are the host's:
`sha256` and `toXdr` are parameters.

The entries `roles` and `init` are written once and never read; they are left out.
-/

namespace Stellara.Bridge

open Outcome Router

variable {Digest : Type}

/-- `BytesN<64>`. -/
abbrev Signature : Type := Vector (Fin 256) 64

/-- The values that a deposit or a withdrawal serialises. -/
inductive ScVal
  | address (a : Address)
  | i128 (x : Int)
  | u32 (n : Nat)
  | u64 (n : Nat)
deriving DecidableEq, Repr

structure BridgeConfig where
  admin : Address
  feeCollector : Address
  isPaused : Bool
  validatorThreshold : Nat
  chainId : Nat
deriving DecidableEq, Repr

structure RateLimit where
  limit : Int
  window : Nat
  currentUsage : Int
  lastUpdate : Nat
deriving DecidableEq, Repr

structure State where
  config : Option BridgeConfig := none
  /-- `validator` -/
  validators : List Address := []
  /-- `rl`, by asset -/
  rateLimits : Store Address RateLimit := ∅
  /-- `nonce`, by source chain and nonce -/
  nonces : Store (Nat × Nat) Bool := ∅

/-- The bridge panics wherever it refuses. -/
abbrev Result (α : Type) : Type := Except (Fault Empty) α

def getConfigInternal (s : State) : Result BridgeConfig := ofOption s.config (.panic "Not initialized")

/-- `initialize`; nobody has to sign. -/
def initBridge (s : State) (admin feeCollector : Address) (validatorThreshold chainId : Nat) :
    Result State := do
  require (s.config = none) (.panic "Already initialized")
  pure { s with config := some ⟨admin, feeCollector, false, validatorThreshold, chainId⟩ }

/-- The usage of the window that `env` falls in. -/
def RateLimit.refresh (env : Env) (rl : RateLimit) : Result RateLimit := do
  let windowEnd ← env.u64 (rl.lastUpdate + rl.window)
  if windowEnd ≤ env.timestamp then
    pure { rl with currentUsage := 0, lastUpdate := env.timestamp }
  else pure rl

def checkRateLimit (env : Env) (s : State) (asset : Address) (amount : Int) : Result State :=
  match s.rateLimits.lookup asset with
  | none => .ok s
  | some rl => do
    let rl ← rl.refresh env
    let usage ← env.i128 (rl.currentUsage + amount)
    require (usage ≤ rl.limit) (.panic "Rate limit exceeded")
    pure { s with rateLimits := s.rateLimits.insert asset { rl with currentUsage := usage } }

def deposit (sha256 : Bytes → Digest) (toXdr : ScVal → Bytes) (env : Env) (s : State)
    (sender asset : Address) (amount : Int) (destChain : Nat) (recipient : Address) :
    Result (Digest × State) := do
  env.requireAuth sender
  let config ← getConfigInternal s
  require (config.isPaused = false) (.panic "Bridge paused")
  let s ← checkRateLimit env s asset amount
  let data := toXdr (.address sender) ++ toXdr (.address asset) ++ toXdr (.i128 amount) ++
    toXdr (.u32 destChain) ++ toXdr (.address recipient) ++ toXdr (.u64 env.sequence)
  pure (sha256 data, s)

/-- The hash that the validators sign for a withdrawal. -/
def messageHash (sha256 : Bytes → Digest) (toXdr : ScVal → Bytes) (to' asset : Address)
    (amount : Int) (sourceChain nonce : Nat) : Digest :=
  sha256 (toXdr (.address to') ++ toXdr (.address asset) ++ toXdr (.i128 amount) ++
    toXdr (.u32 sourceChain) ++ toXdr (.u64 nonce))

/-- The hash is not looked at, and of the signatures only how many there are. -/
def verifyValidatorSignatures (s : State) (_hash : Digest) (signatures : List Signature)
    (threshold : Nat) : Result Unit := do
  require (threshold ≤ signatures.length) (.panic "Insufficient signatures")
  require (threshold ≤ s.validators.length) (.panic "Not enough registered validators")

def withdraw (sha256 : Bytes → Digest) (toXdr : ScVal → Bytes) (s : State) (to' asset : Address)
    (amount : Int) (sourceChain nonce : Nat) (signatures : List Signature) :
    Result (Digest × State) := do
  let config ← getConfigInternal s
  require (config.isPaused = false) (.panic "Bridge paused")
  let hash := messageHash sha256 toXdr to' asset amount sourceChain nonce
  verifyValidatorSignatures s hash signatures config.validatorThreshold
  require (s.nonces.lookup (sourceChain, nonce) = none) (.panic "Replay attack")
  pure (hash, { s with nonces := s.nonces.insert (sourceChain, nonce) true })

/-! ## Administration -/

/-- `config.admin.require_auth()`. -/
def requireAdmin (env : Env) (s : State) : Result BridgeConfig := do
  let config ← getConfigInternal s
  env.requireAuth config.admin
  pure config

def addValidator (env : Env) (s : State) (validator : Address) : Result State := do
  let _ ← requireAdmin env s
  pure (if validator ∈ s.validators then s else { s with validators := s.validators ++ [validator] })

def removeValidator (env : Env) (s : State) (validator : Address) : Result State := do
  let _ ← requireAdmin env s
  pure { s with validators := s.validators.filter fun v => v ≠ validator }

def setRateLimit (env : Env) (s : State) (asset : Address) (limit : Int) (window : Nat) :
    Result State := do
  let _ ← requireAdmin env s
  pure { s with rateLimits := s.rateLimits.insert asset ⟨limit, window, 0, env.timestamp⟩ }

def setPaused (env : Env) (s : State) (paused : Bool) : Result State := do
  let config ← requireAdmin env s
  pure { s with config := some { config with isPaused := paused } }

/-! ## The contract as a machine -/

inductive Call
  | initBridge (admin feeCollector : Address) (validatorThreshold chainId : Nat)
  | deposit (sender asset : Address) (amount : Int) (destChain : Nat) (recipient : Address)
  | withdraw (to' asset : Address) (amount : Int) (sourceChain nonce : Nat)
      (signatures : List Signature)
  | addValidator (validator : Address)
  | removeValidator (validator : Address)
  | setRateLimit (asset : Address) (limit : Int) (window : Nat)
  | setPaused (paused : Bool)
deriving DecidableEq

inductive Reply (Digest : Type)
  | done
  | id (d : Digest)
deriving DecidableEq

def done (x : Result State) : Result (Reply Digest × State) := do pure (.done, ← x)

def replyId (x : Result (Digest × State)) : Result (Reply Digest × State) := do
  let (d, s) ← x
  pure (.id d, s)

def exec (sha256 : Bytes → Digest) (toXdr : ScVal → Bytes) (env : Env) :
    Call → State → Result (Reply Digest × State)
  | .initBridge admin feeCollector validatorThreshold chainId, s =>
    done (initBridge s admin feeCollector validatorThreshold chainId)
  | .deposit sender asset amount destChain recipient, s =>
    replyId (deposit sha256 toXdr env s sender asset amount destChain recipient)
  | .withdraw to' asset amount sourceChain nonce signatures, s =>
    replyId (withdraw sha256 toXdr s to' asset amount sourceChain nonce signatures)
  | .addValidator validator, s => done (addValidator env s validator)
  | .removeValidator validator, s => done (removeValidator env s validator)
  | .setRateLimit asset limit window, s => done (setRateLimit env s asset limit window)
  | .setPaused paused, s => done (setPaused env s paused)

/-- Runs start with a freshly deployed contract. -/
def machine (sha256 : Bytes → Digest) (toXdr : ScVal → Bytes) (d : Deployment) :
    Machine Env Call (Reply Digest) (Fault Empty) State where
  init s := s = {}
  valid env _ := env.Of d
  clock env := env.timestamp
  exec env call s := exec sha256 toXdr env call s

instance (sha256 : Bytes → Digest) (toXdr : ScVal → Bytes) (d : Deployment) (env : Env)
    (call : Call) : Decidable ((machine sha256 toXdr d).valid env call) :=
  inferInstanceAs (Decidable (env.Of d))

end Stellara.Bridge
