import Stellara.Host

/-!
# Staking rewards (`contracts/staking-rewards`)

A user stakes into one of three pools.  Rewards accrue with the time since the last
claim and are paid out (`claim`, `unstake`) or added to the stake (`compound`).
Unstaking returns the principal, less a tenth before the lock-up has passed.

All payments come from the contract's one balance of the token.
-/

namespace Stellara.Staking

open Outcome

inductive ContractError
  | alreadyInitialized
  | notInitialized
  | unauthorized
  | invalidAmount
  | invalidPool
  | insufficientBalance
  | stillLocked
  | nothingToClaim
deriving DecidableEq, Repr

structure PoolConfig where
  lockupSeconds : Nat
  apyBps : Int
deriving DecidableEq, Repr

structure UserStake where
  amount : Int
  poolId : Nat
  startTimestamp : Nat
  lastClaimTimestamp : Nat
deriving DecidableEq, Repr

/-- The four instance entries; `initialize` writes them together. -/
structure Config where
  admin : Address
  stakingToken : Address
  rewardToken : Address
  pools : List PoolConfig
deriving DecidableEq, Repr

structure State where
  config : Option Config := none
  /-- `u_stake` -/
  stakes : Store Address UserStake := ∅
  /-- the token contracts -/
  tokens : Tokens

abbrev Result (α : Type) : Type := Except (Fault ContractError) α

def day : Nat := 24 * 60 * 60

/-- 30, 60 and 90 days at 5, 10 and 15 percent. -/
def defaultPools : List PoolConfig := [⟨30 * day, 500⟩, ⟨60 * day, 1000⟩, ⟨90 * day, 1500⟩]

def secondsInYear : Int := 365 * 24 * 60 * 60

def initializeContract (s : State) (admin stakingToken rewardToken : Address) : Result State := do
  require (s.config = none) (.err .alreadyInitialized)
  pure { s with config := some ⟨admin, stakingToken, rewardToken, defaultPools⟩ }

/-- The stake that `stake` adds to: the stored one, or an empty one. -/
def currentStake (env : Env) (s : State) (user : Address) (poolId : Nat) : UserStake :=
  (s.stakes.lookup user).getD ⟨0, poolId, env.timestamp, env.timestamp⟩

/-- Adding to a stake restarts its lock-up and drops its pending rewards. -/
def stake (env : Env) (s : State) (user : Address) (amount : Int) (poolId : Nat) :
    Result State := do
  env.requireAuth user
  require (0 < amount) (.err .invalidAmount)
  let config ← ofOption s.config (.err .notInitialized)
  require (poolId < config.pools.length) (.err .invalidPool)
  let tokens ← s.tokens.transfer config.stakingToken user env.self amount
  let newAmount ← env.i128 ((currentStake env s user poolId).amount + amount)
  pure { s with tokens
                stakes := s.stakes.insert user ⟨newAmount, poolId, env.timestamp, env.timestamp⟩ }

def calculateRewards (env : Env) (s : State) (userStake : UserStake) : Result Int := do
  let config ← ofOption s.config (.err .notInitialized)
  let pool ← ofOption config.pools[userStake.poolId]? (.err .invalidPool)
  let elapsedSeconds ← env.u64 (env.timestamp - userStake.lastClaimTimestamp)
  if elapsedSeconds = 0 then pure 0
  else do
    let yearly ← env.i128 (userStake.amount * pool.apyBps)
    let scaled ← env.i128 (yearly * elapsedSeconds)
    pure (scaled.tdiv (10000 * secondsInYear))

/-- The stored stake with the claim time moved to now. -/
def UserStake.claimedAt (st : UserStake) (env : Env) : UserStake :=
  { st with lastClaimTimestamp := env.timestamp }

def claim (env : Env) (s : State) (user : Address) : Result (Int × State) := do
  env.requireAuth user
  let userStake ← ofOption (s.stakes.lookup user) (.err .nothingToClaim)
  let rewardAmount ← calculateRewards env s userStake
  require (0 < rewardAmount) (.err .nothingToClaim)
  let config ← ofOption s.config (.panic "unwrap on None")
  let tokens ← s.tokens.transfer config.rewardToken env.self user rewardAmount
  pure (rewardAmount, { s with tokens, stakes := s.stakes.insert user (userStake.claimedAt env) })

/-- The principal less a tenth when the lock-up has not passed. -/
def principalToReturn (env : Env) (pool : PoolConfig) (userStake : UserStake) : Result Int := do
  let elapsed ← env.u64 (env.timestamp - userStake.startTimestamp)
  if elapsed < pool.lockupSeconds then do
    let scaled ← env.i128 (userStake.amount * 1000)
    env.i128 (userStake.amount - scaled.tdiv 10000)
  else pure userStake.amount

/-- A transfer of `amount` when it is positive, and nothing otherwise. -/
def payReward (tokens : Tokens) (token src dst : Address) (amount : Int) : Result Tokens :=
  if 0 < amount then tokens.transfer token src dst amount else .ok tokens

/-- Returns the principal paid and the reward that the `unstake` event reports. -/
def unstake (env : Env) (s : State) (user : Address) : Result ((Int × Int) × State) := do
  env.requireAuth user
  let userStake ← ofOption (s.stakes.lookup user) (.err .nothingToClaim)
  let config ← ofOption s.config (.panic "unwrap on None")
  let pool ← ofOption config.pools[userStake.poolId]? (.panic "index out of bounds")
  let principal ← principalToReturn env pool userStake
  let rewardAmount ← unwrapOr 0 (calculateRewards env s userStake)
  let tokens ← payReward s.tokens config.rewardToken env.self user rewardAmount
  let tokens ← tokens.transfer config.stakingToken env.self user principal
  pure ((principal, rewardAmount), { s with tokens, stakes := s.stakes.erase user })

/-- Adds the pending reward to the stake.  No token moves. -/
def compound (env : Env) (s : State) (user : Address) : Result (Int × State) := do
  env.requireAuth user
  let userStake ← ofOption (s.stakes.lookup user) (.err .nothingToClaim)
  let rewardAmount ← calculateRewards env s userStake
  require (0 < rewardAmount) (.err .nothingToClaim)
  let config ← ofOption s.config (.panic "unwrap on None")
  require (config.stakingToken = config.rewardToken) (.err .unauthorized)
  let newAmount ← env.i128 (userStake.amount + rewardAmount)
  pure (rewardAmount, { s with
    stakes := s.stakes.insert user ({ userStake with amount := newAmount }.claimedAt env) })

def getStake (s : State) (user : Address) : Option UserStake := s.stakes.lookup user

def getPendingRewards (env : Env) (s : State) (user : Address) : Result Int :=
  match s.stakes.lookup user with
  | some userStake => unwrapOr 0 (calculateRewards env s userStake)
  | none => .ok 0

/-! ## The contract as a machine -/

inductive Call
  | initializeContract (admin stakingToken rewardToken : Address)
  | stake (user : Address) (amount : Int) (poolId : Nat)
  | claim (user : Address)
  | unstake (user : Address)
  | compound (user : Address)
  /-- a call of a token contract that does not go through this one -/
  | token (c : TokenCall)
deriving DecidableEq, Repr

inductive Reply
  | done
  /-- the reward paid or added to the stake -/
  | reward (amount : Int)
  | unstaked (principal reward : Int)
deriving DecidableEq, Repr

def exec (env : Env) : Call → State → Result (Reply × State)
  | .initializeContract admin stakingToken rewardToken, s => do
    pure (.done, ← initializeContract s admin stakingToken rewardToken)
  | .stake user amount poolId, s => do pure (.done, ← stake env s user amount poolId)
  | .claim user, s => do
    let (reward, s) ← claim env s user
    pure (.reward reward, s)
  | .unstake user, s => do
    let ((principal, reward), s) ← unstake env s user
    pure (.unstaked principal reward, s)
  | .compound user, s => do
    let (reward, s) ← compound env s user
    pure (.reward reward, s)
  | .token c, s => do pure (.done, { s with tokens := ← c.exec env s.tokens })

/-- One token is staked and paid out, and tokens enter the contract through `stake` only. -/
def Call.SameToken (self : Address) : Call → Prop
  | .initializeContract _ stakingToken rewardToken => stakingToken = rewardToken
  | .token (.transfer _ _ dst _) | .token (.mint _ dst _) => dst ≠ self
  | _ => True

instance (self : Address) : (call : Call) → Decidable (call.SameToken self)
  | .initializeContract _ st rt => inferInstanceAs (Decidable (st = rt))
  | .token (.transfer _ _ dst _) => inferInstanceAs (Decidable (dst ≠ self))
  | .token (.mint _ dst _) => inferInstanceAs (Decidable (dst ≠ self))
  | .stake .. | .claim _ | .unstake _ | .compound _ => inferInstanceAs (Decidable True)

/-- Runs start before `initialize`, with no tokens in the contract. -/
def machine (d : Deployment) : Machine Env Call Reply (Fault ContractError) State where
  init s := s.config = none ∧ s.stakes = ∅ ∧ ∀ t, s.tokens.balance t d.self = 0
  valid env call := env.Of d ∧ call.SameToken d.self
  clock env := env.timestamp
  exec env call s := exec env call s

instance (d : Deployment) (env : Env) (call : Call) : Decidable ((machine d).valid env call) :=
  inferInstanceAs (Decidable (_ ∧ _))

end Stellara.Staking
