import Stellara.Shared.Guards

/-!
# Cross-chain router (`contracts/cross-chain-router/src/lib.rs`)

Messages are recorded under the hash of their payload.  A light-client header is stored
by whoever sends one, and a message is verified with a proof that hashes to the stored
commitment root.

The hash `sha256` is the host's; the model takes it as a parameter into a type of digests.
-/

namespace Stellara.Router

open Outcome

abbrev Bytes : Type := List (Fin 256)

variable {Digest : Type} [DecidableEq Digest]

structure Message (Digest : Type) where
  id : Digest
  sourceChain : Nat
  destChain : Nat
  sender : Address
  recipient : Address
  payload : Bytes
  nonce : Nat
  status : Nat
  processed : Bool
deriving DecidableEq

structure Validator where
  address : Address
  stakedAmount : Int
  status : Nat
deriving DecidableEq, Repr

structure LightClientHeader (Digest : Type) where
  blockNumber : Nat
  blockHash : Digest
  timestamp : Nat
  commitmentRoot : Digest
deriving DecidableEq

structure State (Digest : Type) where
  admin : Option Address := none
  initialized : Bool := false
  /-- `_status` -/
  active : Bool := false
  nonces : NonceManager.State := {}
  messages : List (Message Digest) := []
  lightClient : Option (LightClientHeader Digest) := none
  validators : List Validator := []

/-- The router returns no errors of its own; every failure is a panic. -/
abbrev Result (α : Type) : Type := Except (Fault Empty) α

/-- Anyone may call `init`, at any time. -/
def init (s : State Digest) (admin : Address) : State Digest :=
  { s with admin := some admin, initialized := true }

/-- The address that signs is the caller's argument, not the stored administrator. -/
def setChainId (env : Env) (s : State Digest) (admin : Address) (chainId : Nat) :
    Result (State Digest) := do
  env.requireAuth admin
  pure { s with nonces := NonceManager.setChainId s.nonces chainId }

def initiateMessage (sha256 : Bytes → Digest) (env : Env) (s : State Digest)
    (sourceChain destChain : Nat) (sender recipient : Address) (payload : Bytes) :
    Result (Digest × State Digest) := do
  env.requireAuth sender
  let _ ← ReentrancyGuard.enter s.active
  NonceManager.enforceSequentialNonce s.nonces sourceChain env.sequence
  let messageId := sha256 payload
  let message : Message Digest :=
    ⟨messageId, sourceChain, destChain, sender, recipient, payload, env.sequence, 0, false⟩
  pure (messageId, { s with messages := s.messages ++ [message], active := ReentrancyGuard.exit })

/-- The loop of `verify_message`: mark the first message with the id. -/
def markVerified (messageId : Digest) : List (Message Digest) → Result (List (Message Digest))
  | [] => .ok []
  | msg :: rest =>
    if msg.id = messageId then do
      require (msg.processed = false) (.panic "REPLAY_DETECTED")
      pure ({ msg with status := 2, processed := true } :: rest)
    else do
      pure (msg :: (← markVerified messageId rest))

/-- The hash of the proof alone is compared with the stored commitment root. -/
def verifyMessage (sha256 : Bytes → Digest) (s : State Digest) (messageId : Digest)
    (_header : LightClientHeader Digest) (proof : Bytes) : Result (Bool × State Digest) := do
  let _ ← ReentrancyGuard.enter s.active
  match s.lightClient with
  | none => pure (false, { s with active := ReentrancyGuard.exit })
  | some lightClient =>
    if sha256 proof = lightClient.commitmentRoot then do
      let messages ← markVerified messageId s.messages
      pure (true, { s with messages, active := ReentrancyGuard.exit })
    else pure (false, { s with active := ReentrancyGuard.exit })

def registerValidator (env : Env) (s : State Digest) (validatorAddress : Address)
    (stakedAmount : Int) : Result (Bool × State Digest) := do
  env.requireAuth validatorAddress
  let _ ← ReentrancyGuard.enter s.active
  if stakedAmount < 1000000000 then pure (false, { s with active := ReentrancyGuard.exit })
  else pure (true, { s with validators := s.validators ++ [⟨validatorAddress, stakedAmount, 0⟩]
                            active := ReentrancyGuard.exit })

/-- The loop of `slash_validator`: the first entry of the address pays. -/
def slashFirst (env : Env) (validatorAddress : Address) (slashPercentage : Nat) :
    List Validator → Result (Int × List Validator)
  | [] => .ok (0, [])
  | validator :: rest =>
    if validator.address = validatorAddress then do
      let scaled ← env.i128 (validator.stakedAmount * slashPercentage)
      let slashAmount := scaled.tdiv 100
      let stakedAmount ← env.i128 (validator.stakedAmount - slashAmount)
      let status := if stakedAmount ≤ 0 then 2 else validator.status
      pure (slashAmount, { validator with stakedAmount, status } :: rest)
    else do
      let (slashAmount, rest) ← slashFirst env validatorAddress slashPercentage rest
      pure (slashAmount, validator :: rest)

def slashValidator (env : Env) (s : State Digest) (validatorAddress : Address)
    (slashPercentage : Nat) : Result (Int × State Digest) := do
  let admin ← ofOption s.admin (.panic "unwrap on None")
  env.requireAuth admin
  let _ ← ReentrancyGuard.enter s.active
  let (slashAmount, validators) ← slashFirst env validatorAddress slashPercentage s.validators
  pure (slashAmount, { s with validators, active := ReentrancyGuard.exit })

/-- `u32::MAX` for an id without a message. -/
def getMessageStatus (s : State Digest) (messageId : Digest) : Nat :=
  match s.messages.find? fun message => message.id = messageId with
  | some message => message.status
  | none => 2 ^ 32 - 1

/-- Nobody has to sign. -/
def updateLightClient (s : State Digest) (header : LightClientHeader Digest) :
    Result (Bool × State Digest) := do
  let _ ← ReentrancyGuard.enter s.active
  pure (true, { s with lightClient := some header, active := ReentrancyGuard.exit })

def getValidatorCount (s : State Digest) : Nat :=
  (s.validators.filter fun v => v.status = 0).length

/-! ## The contract as a machine -/

inductive Call (Digest : Type)
  | init (admin : Address)
  | setChainId (admin : Address) (chainId : Nat)
  | initiateMessage (sourceChain destChain : Nat) (sender recipient : Address) (payload : Bytes)
  | verifyMessage (messageId : Digest) (header : LightClientHeader Digest) (proof : Bytes)
  | registerValidator (validatorAddress : Address) (stakedAmount : Int)
  | slashValidator (validatorAddress : Address) (slashPercentage : Nat)
  | updateLightClient (header : LightClientHeader Digest)
deriving DecidableEq

inductive Reply (Digest : Type)
  | done
  | id (messageId : Digest)
  | flag (b : Bool)
  | amount (x : Int)
deriving DecidableEq

def exec (sha256 : Bytes → Digest) (env : Env) :
    Call Digest → State Digest → Result (Reply Digest × State Digest)
  | .init admin, s => .ok (.done, init s admin)
  | .setChainId admin chainId, s => do pure (.done, ← setChainId env s admin chainId)
  | .initiateMessage sourceChain destChain sender recipient payload, s => do
    let (id, s) ← initiateMessage sha256 env s sourceChain destChain sender recipient payload
    pure (.id id, s)
  | .verifyMessage messageId header proof, s => do
    let (b, s) ← verifyMessage sha256 s messageId header proof
    pure (.flag b, s)
  | .registerValidator validatorAddress stakedAmount, s => do
    let (b, s) ← registerValidator env s validatorAddress stakedAmount
    pure (.flag b, s)
  | .slashValidator validatorAddress slashPercentage, s => do
    let (x, s) ← slashValidator env s validatorAddress slashPercentage
    pure (.amount x, s)
  | .updateLightClient header, s => do
    let (b, s) ← updateLightClient s header
    pure (.flag b, s)

/-- Runs start with a freshly deployed contract. -/
def machine (sha256 : Bytes → Digest) (d : Deployment) :
    Machine Env (Call Digest) (Reply Digest) (Fault Empty) (State Digest) where
  init s := s = {}
  valid env _ := env.Of d
  clock env := env.timestamp
  exec env call s := exec sha256 env call s

instance (sha256 : Bytes → Digest) (d : Deployment) (env : Env) (call : Call Digest) :
    Decidable ((machine sha256 d).valid env call) :=
  inferInstanceAs (Decidable (env.Of d))

/-! ## The functions, taken apart -/

section Parts

variable {sha256 : Bytes → Digest} {env : Env} {s s' : State Digest}

omit [DecidableEq Digest] in
theorem setChainId_ok {admin : Address} {chainId : Nat}
    (h : setChainId env s admin chainId = .ok s') :
    s' = { s with nonces := NonceManager.setChainId s.nonces chainId } := by
  simp only [setChainId, bind_eq_ok, exists_unit_and, pure_eq_ok] at h
  exact h.2.symm

omit [DecidableEq Digest] in
theorem initiateMessage_ok {sourceChain destChain : Nat} {sender recipient : Address}
    {payload : Bytes} {messageId : Digest}
    (h : initiateMessage sha256 env s sourceChain destChain sender recipient payload =
      .ok (messageId, s')) :
    messageId = sha256 payload ∧
      s' = { s with
        messages := s.messages ++ [⟨sha256 payload, sourceChain, destChain, sender, recipient,
          payload, env.sequence, 0, false⟩]
        active := false } := by
  simp only [initiateMessage, bind_eq_ok, exists_unit_and, pure_eq_ok, Prod.mk.injEq] at h
  obtain ⟨-, _, -, -, rfl, rfl⟩ := h
  exact ⟨rfl, rfl⟩

/-- The first record with the id is marked, or nothing is. -/
theorem verifyMessage_ok {messageId : Digest} {header : LightClientHeader Digest} {proof : Bytes}
    {b : Bool} (h : verifyMessage sha256 s messageId header proof = .ok (b, s')) :
    (b = true ∧ ∃ messages, markVerified messageId s.messages = .ok messages ∧
      s' = { s with messages, active := false }) ∨
    (b = false ∧ s' = { s with active := false }) := by
  unfold verifyMessage at h
  obtain ⟨_, -, h⟩ := bind_eq_ok.mp h
  split at h
  · cases h
    exact .inr ⟨rfl, rfl⟩
  · split at h
    · simp only [bind_eq_ok, pure_eq_ok, Prod.mk.injEq] at h
      obtain ⟨messages, hmark, rfl, rfl⟩ := h
      exact .inl ⟨rfl, messages, hmark, rfl⟩
    · cases h
      exact .inr ⟨rfl, rfl⟩

omit [DecidableEq Digest] in
theorem registerValidator_ok {validatorAddress : Address} {stakedAmount : Int} {b : Bool}
    (h : registerValidator env s validatorAddress stakedAmount = .ok (b, s')) :
    (1000000000 ≤ stakedAmount ∧
      s' = { s with validators := s.validators ++ [⟨validatorAddress, stakedAmount, 0⟩]
                    active := false }) ∨
    (stakedAmount < 1000000000 ∧ s' = { s with active := false }) := by
  simp only [registerValidator, bind_eq_ok, exists_unit_and] at h
  obtain ⟨-, _, -, h⟩ := h
  split at h
  · next hsmall =>
    cases h
    exact .inr ⟨hsmall, rfl⟩
  · next hlarge =>
    cases h
    exact .inl ⟨not_lt.mp hlarge, rfl⟩

omit [DecidableEq Digest] in
theorem slashValidator_ok {validatorAddress : Address} {slashPercentage : Nat} {x : Int}
    (h : slashValidator env s validatorAddress slashPercentage = .ok (x, s')) :
    ∃ validators, slashFirst env validatorAddress slashPercentage s.validators = .ok (x, validators) ∧
      s' = { s with validators, active := false } := by
  simp only [slashValidator, bind_eq_ok, exists_unit_and, pure_eq_ok, Prod.mk.injEq] at h
  obtain ⟨_, -, -, _, -, ⟨x', validators⟩, hslash, rfl, rfl⟩ := h
  exact ⟨validators, hslash, rfl⟩

omit [DecidableEq Digest] in
theorem updateLightClient_ok {header : LightClientHeader Digest} {b : Bool}
    (h : updateLightClient s header = .ok (b, s')) :
    s' = { s with lightClient := some header, active := false } := by
  simp only [updateLightClient, bind_eq_ok, pure_eq_ok, Prod.mk.injEq] at h
  obtain ⟨_, -, -, rfl⟩ := h
  rfl

end Parts

end Stellara.Router
