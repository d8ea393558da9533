import Stellara.Host

/-!
# Liquidity mining (`contracts/liquidity-mining/src/lib.rs`)

The administrator creates pairs, each with its emissions per block.  Users provide liquidity
tokens to a pair.  A user's pending rewards are the user's share of all liquidity provided,
times the pair's emissions since its last update, less what the user has claimed before.
Providing and withdrawing make the current block the pair's last update.

The numbers of the source mix `i128`, `u64` and `u32`; here the amounts are `i128` and the
blocks `u64`.
-/

namespace Stellara.Mining

open Outcome

inductive LiquidityMiningError
  | alreadyInitialized
  | notInitialized
  | unauthorized
  | invalidAmount
  | invalidPair
  | insufficientBalance
  | insufficientRewardBalance
  | noRewardsToClaim
  | invalidEmissionSchedule
  | invalidMultiplier
  | pairAlreadyExists
  | invalidLockupPeriod
  | stillLocked
deriving DecidableEq, Repr

structure PairConfig where
  pairId : Nat
  pairSymbol : Symbol
  emissionsPerBlock : Int
  totalAllocated : Int
  accumulatedRewardPerShare : Int
  lastUpdateBlock : Nat
  active : Bool
deriving DecidableEq, Repr

structure LPStake where
  user : Address
  pairId : Nat
  lpBalance : Int
  startTimestamp : Nat
  rewardDebt : Int
  /-- 0 for none; nothing sets another one -/
  bonusMultiplierTier : Nat
deriving DecidableEq, Repr

structure MultiplierConfig where
  lockupTier1Days : Nat
  multiplierTier1 : Nat
  lockupTier2Days : Nat
  multiplierTier2 : Nat
  lockupTier3Days : Nat
  multiplierTier3 : Nat
deriving DecidableEq, Repr

/-- What `initialize` writes once. -/
structure Config where
  admin : Address
  lpToken : Address
  rewardToken : Address
  governanceToken : Address
  multiplierConfig : MultiplierConfig
deriving DecidableEq, Repr

structure State where
  config : Option Config := none
  pairs : Store Nat PairConfig := ∅
  pairList : List Nat := []
  stakes : Store (Address × Nat) LPStake := ∅
  lockedRewards : Store Address Int := ∅
  /-- over all pairs -/
  totalLpStaked : Option Int := none
  /-- the token contracts -/
  tokens : Tokens

abbrev Result (α : Type) : Type := Except (Fault LiquidityMiningError) α

def defaultMultipliers : MultiplierConfig := ⟨30, 200, 90, 300, 180, 500⟩

/-- `initialize`. -/
def initContract (s : State) (admin lpToken rewardToken governanceToken : Address) :
    Result State := do
  require (s.config = none) (.err .alreadyInitialized)
  pure { s with
    config := some ⟨admin, lpToken, rewardToken, governanceToken, defaultMultipliers⟩
    pairList := []
    totalLpStaked := some 0 }

def requireInitialized (s : State) : Result Config :=
  ofOption s.config (.err .notInitialized)

def createPair (env : Env) (s : State) (admin : Address) (pairId : Nat) (pairSymbol : Symbol)
    (emissionsPerBlock totalAllocated : Int) : Result State := do
  env.requireAuth admin
  let config ← requireInitialized s
  require (admin = config.admin) (.err .unauthorized)
  require (0 < emissionsPerBlock ∧ 0 < totalAllocated) (.err .invalidAmount)
  let pairConfig : PairConfig :=
    { pairId, pairSymbol, emissionsPerBlock, totalAllocated, accumulatedRewardPerShare := 0,
      lastUpdateBlock := env.sequence, active := true }
  require (s.pairs.lookup pairId = none) (.err .pairAlreadyExists)
  pure { s with pairs := s.pairs.insert pairId pairConfig, pairList := s.pairList ++ [pairId] }

/-- The pair's last update is now; nothing is accumulated. -/
def updatePairRewards (env : Env) (s : State) (pairId : Nat) : Result State := do
  let pairConfig ← ofOption (s.pairs.lookup pairId) (.err .invalidPair)
  pure { s with pairs := s.pairs.insert pairId { pairConfig with lastUpdateBlock := env.sequence } }

def getBonusMultiplier (tier : Nat) : Result Int :=
  match tier with
  | 0 => .ok 100
  | 1 => .ok 200
  | 2 => .ok 300
  | 3 => .ok 500
  | _ => .error (.err .invalidMultiplier)

/-- The pending rewards of a stake when `totalStaked` is staked over all pairs. -/
def pendingOf (env : Env) (userStake : LPStake) (pairConfig : PairConfig) (totalStaked : Int) :
    Result Int :=
  if totalStaked = 0 ∨ userStake.lpBalance = 0 then pure 0
  else do
    let blocksSinceLastClaim ← env.u64 ((env.sequence : Int) - pairConfig.lastUpdateBlock)
    let perBlock ← env.i128 (userStake.lpBalance * pairConfig.emissionsPerBlock)
    let scaled ← env.i128 (perBlock * blocksSinceLastClaim)
    let userRewardShare ← divI128 scaled totalStaked
    let multiplier ← getBonusMultiplier userStake.bonusMultiplierTier
    let boosted ← env.i128 (userRewardShare * multiplier)
    let finalReward ← divI128 boosted 100
    env.i128 (finalReward - userStake.rewardDebt)

def calculatePendingReward (env : Env) (s : State) (user : Address) (pairId : Nat) :
    Result Int := do
  let userStake ← ofOption (s.stakes.lookup (user, pairId)) (.err .invalidPair)
  let pairConfig ← ofOption (s.pairs.lookup pairId) (.err .invalidPair)
  pendingOf env userStake pairConfig (s.totalLpStaked.getD 1)

/-- Pays the rewards and adds them to the debt. -/
def claimRewardsInternal (env : Env) (s : State) (user : Address) (pairId : Nat)
    (pendingReward : Int) : Result (Int × State) :=
  if pendingReward ≤ 0 then pure (0, s)
  else do
    let config ← requireInitialized s
    require (pendingReward ≤ s.tokens.balance config.rewardToken env.self)
      (.err .insufficientRewardBalance)
    let tokens ← s.tokens.transfer config.rewardToken env.self user pendingReward
    let userStake ← ofOption (s.stakes.lookup (user, pairId)) (.err .invalidPair)
    let rewardDebt ← env.i128 (userStake.rewardDebt + pendingReward)
    let stakes := s.stakes.insert (user, pairId) { userStake with rewardDebt }
    pure (pendingReward, { s with tokens, stakes })

def provideLiquidity (env : Env) (s : State) (user : Address) (pairId : Nat) (lpAmount : Int) :
    Result State := do
  env.requireAuth user
  let config ← requireInitialized s
  require (0 < lpAmount) (.err .invalidAmount)
  let pairConfig ← ofOption (s.pairs.lookup pairId) (.err .invalidPair)
  require (pairConfig.active = true) (.err .invalidPair)
  let s ← updatePairRewards env s pairId
  let userStake := (s.stakes.lookup (user, pairId)).getD ⟨user, pairId, 0, env.timestamp, 0, 0⟩
  let tokens ← s.tokens.transfer config.lpToken user env.self lpAmount
  let lpBalance ← env.i128 (userStake.lpBalance + lpAmount)
  let total ← env.i128 (s.totalLpStaked.getD 0 + lpAmount)
  pure { s with tokens, totalLpStaked := some total
                stakes := s.stakes.insert (user, pairId) { userStake with lpBalance } }

/-- How long a stake of the tier is locked up, in seconds. -/
def requiredSeconds (env : Env) (multiplierConfig : MultiplierConfig) (tier : Nat) : Result Nat :=
  match tier with
  | 1 => env.u64 (multiplierConfig.lockupTier1Days * (24 * 60 * 60))
  | 2 => env.u64 (multiplierConfig.lockupTier2Days * (24 * 60 * 60))
  | 3 => env.u64 (multiplierConfig.lockupTier3Days * (24 * 60 * 60))
  | _ => .ok 0

/-- A stake with a bonus stays until its lock-up has passed. -/
def requireUnlocked (env : Env) (config : Config) (userStake : LPStake) : Result Unit :=
  if 0 < userStake.bonusMultiplierTier then do
    let required ← requiredSeconds env config.multiplierConfig userStake.bonusMultiplierTier
    let elapsed ← env.u64 ((env.timestamp : Int) - userStake.startTimestamp)
    require (required ≤ elapsed) (.err .stillLocked)
  else pure ()

/-- Returns the reward that was paid.  The pending reward is computed after the pair's last
update has been moved to now, and the stake read at the beginning is written back over what
the claim stored. -/
def withdrawLiquidity (env : Env) (s : State) (user : Address) (pairId : Nat) (lpAmount : Int) :
    Result (Int × State) := do
  env.requireAuth user
  let config ← requireInitialized s
  require (0 < lpAmount) (.err .invalidAmount)
  let userStake ← ofOption (s.stakes.lookup (user, pairId)) (.err .invalidPair)
  require (lpAmount ≤ userStake.lpBalance) (.err .insufficientBalance)
  requireUnlocked env config userStake
  let s ← updatePairRewards env s pairId
  let pendingReward ← calculatePendingReward env s user pairId
  let (paid, s) ← claimRewardsInternal env s user pairId pendingReward
  let lpBalance ← env.i128 (userStake.lpBalance - lpAmount)
  let total ← env.i128 (s.totalLpStaked.getD 0 - lpAmount)
  let stakes := s.stakes.insert (user, pairId) { userStake with lpBalance }
  let tokens ← s.tokens.transfer config.lpToken env.self user lpAmount
  pure (paid, { s with tokens, stakes, totalLpStaked := some total })

/-- Returns the reward that was paid and the part of it that was also locked. -/
def lockRewardsForGovernance (env : Env) (s : State) (user : Address) (pairId lockupDays : Nat) :
    Result ((Int × Int) × State) := do
  env.requireAuth user
  let _ ← requireInitialized s
  require (0 < lockupDays ∧ lockupDays ≤ 365) (.err .invalidLockupPeriod)
  let pendingReward ← calculatePendingReward env s user pairId
  require (0 < pendingReward) (.err .noRewardsToClaim)
  let governanceAmount := pendingReward.tdiv 2
  let locked ← env.i128 ((s.lockedRewards.lookup user).getD 0 + governanceAmount)
  let s := { s with lockedRewards := s.lockedRewards.insert user locked }
  -- "Claim the remaining 50% normally", but all of it is claimed
  let (paid, s) ← claimRewardsInternal env s user pairId pendingReward
  pure ((paid, governanceAmount), s)

def claimRewards (env : Env) (s : State) (user : Address) (pairId : Nat) :
    Result (Int × State) := do
  env.requireAuth user
  let _ ← requireInitialized s
  let pendingReward ← calculatePendingReward env s user pairId
  require (0 < pendingReward) (.err .noRewardsToClaim)
  claimRewardsInternal env s user pairId pendingReward

def getPendingRewards (env : Env) (s : State) (user : Address) (pairId : Nat) : Result Int := do
  let _ ← requireInitialized s
  calculatePendingReward env s user pairId

/-! ## The contract as a machine -/

inductive Call
  | initContract (admin lpToken rewardToken governanceToken : Address)
  | createPair (admin : Address) (pairId : Nat) (pairSymbol : Symbol)
      (emissionsPerBlock totalAllocated : Int)
  | provideLiquidity (user : Address) (pairId : Nat) (lpAmount : Int)
  | withdrawLiquidity (user : Address) (pairId : Nat) (lpAmount : Int)
  | lockRewardsForGovernance (user : Address) (pairId lockupDays : Nat)
  | claimRewards (user : Address) (pairId : Nat)
  /-- a call of a token contract that does not go through this one -/
  | token (c : TokenCall)
deriving DecidableEq, Repr

/-- What a call paid to the user and what it recorded as locked, where it did. -/
inductive Reply
  | done
  | paid (amount : Int)
  | locked (amount governanceAmount : Int)
deriving DecidableEq, Repr

def exec (env : Env) : Call → State → Result (Reply × State)
  | .initContract admin lpToken rewardToken governanceToken, s => do
    pure (.done, ← initContract s admin lpToken rewardToken governanceToken)
  | .createPair admin pairId pairSymbol emissionsPerBlock totalAllocated, s => do
    pure (.done, ← createPair env s admin pairId pairSymbol emissionsPerBlock totalAllocated)
  | .provideLiquidity user pairId lpAmount, s => do
    pure (.done, ← provideLiquidity env s user pairId lpAmount)
  | .withdrawLiquidity user pairId lpAmount, s => do
    let (paid, s) ← withdrawLiquidity env s user pairId lpAmount
    pure (.paid paid, s)
  | .lockRewardsForGovernance user pairId lockupDays, s => do
    let ((paid, governanceAmount), s) ← lockRewardsForGovernance env s user pairId lockupDays
    pure (.locked paid governanceAmount, s)
  | .claimRewards user pairId, s => do
    let (paid, s) ← claimRewards env s user pairId
    pure (.paid paid, s)
  | .token c, s => do pure (.done, { s with tokens := ← c.exec env s.tokens })

/-- Runs start before `initialize`, with any tokens anywhere.  The number of a ledger is a
`u32`, and it does not decrease. -/
def machine (d : Deployment) : Machine Env Call Reply (Fault LiquidityMiningError) State where
  init s := s = { tokens := s.tokens }
  valid env _ := env.Of d ∧ env.sequence < 2 ^ 32
  clock env := env.sequence
  exec env call s := exec env call s

instance (d : Deployment) (env : Env) (call : Call) : Decidable ((machine d).valid env call) :=
  inferInstanceAs (Decidable (_ ∧ _))

abbrev Trace : Type := List (Event Env Call Reply State)

/-! ## What one call can do -/

section Calls

variable {env : Env} {s s' : State} {user : Address} {pairId : Nat} {lpAmount paid : Int}

theorem initContract_ok {admin lpToken rewardToken governanceToken : Address}
    (h : initContract s admin lpToken rewardToken governanceToken = .ok s') :
    s.config = none ∧ ∃ config, s' =
      { s with config := some config, pairList := [], totalLpStaked := some 0 } := by
  simp only [initContract, bind_eq_ok, require_eq_ok, exists_unit_and, pure_eq_ok] at h
  obtain ⟨hnone, rfl⟩ := h
  exact ⟨hnone, _, rfl⟩

theorem createPair_ok {admin : Address} {pairSymbol : Symbol}
    {emissionsPerBlock totalAllocated : Int}
    (h : createPair env s admin pairId pairSymbol emissionsPerBlock totalAllocated = .ok s') :
    s.pairs.lookup pairId = none ∧ 0 < emissionsPerBlock ∧ 0 < totalAllocated ∧
      s' = { s with
        pairs := s.pairs.insert pairId
          ⟨pairId, pairSymbol, emissionsPerBlock, totalAllocated, 0, env.sequence, true⟩
        pairList := s.pairList ++ [pairId] } := by
  simp only [createPair, bind_eq_ok, require_eq_ok, requireAuth_eq_ok, exists_unit_and,
    pure_eq_ok] at h
  obtain ⟨-, _, -, -, ⟨hpos, hallocated⟩, hfree, rfl⟩ := h
  exact ⟨hfree, hpos, hallocated, rfl⟩

/-- The stake that a provision adds to: the stored one, or an empty one. -/
def currentStake (env : Env) (s : State) (user : Address) (pairId : Nat) : LPStake :=
  (s.stakes.lookup (user, pairId)).getD ⟨user, pairId, 0, env.timestamp, 0, 0⟩

theorem provideLiquidity_ok (h : provideLiquidity env s user pairId lpAmount = .ok s') :
    ∃ config pairConfig tokens lpBalance total, s.config = some config ∧ 0 < lpAmount ∧
      s.pairs.lookup pairId = some pairConfig ∧
      (env.i128 ((currentStake env s user pairId).lpBalance + lpAmount) : Result Int) =
        .ok lpBalance ∧
      (env.i128 (s.totalLpStaked.getD 0 + lpAmount) : Result Int) = .ok total ∧
      s' = { s with
        pairs := s.pairs.insert pairId { pairConfig with lastUpdateBlock := env.sequence }
        tokens, totalLpStaked := some total
        stakes := s.stakes.insert (user, pairId)
          { currentStake env s user pairId with lpBalance } } := by
  simp only [provideLiquidity, requireInitialized, updatePairRewards, bind_eq_ok, require_eq_ok,
    requireAuth_eq_ok, exists_unit_and, ofOption_eq_ok, pure_eq_ok] at h
  obtain ⟨-, config, hconfig, hpos, pairConfig, hpair, -, s1, ⟨pairConfig', hpair', rfl⟩, tokens, -,
    lpBalance, hlp, total, htotal, rfl⟩ := h
  rw [hpair] at hpair'
  cases hpair'
  exact ⟨config, pairConfig, tokens, lpBalance, total, hconfig, hpos, hpair, hlp, htotal, rfl⟩

/-- The state in which a withdrawal computes the pending reward. -/
def refreshed (env : Env) (s : State) (pairId : Nat) (pairConfig : PairConfig) : State :=
  { s with pairs := s.pairs.insert pairId { pairConfig with lastUpdateBlock := env.sequence } }

theorem withdrawLiquidity_ok
    (h : withdrawLiquidity env s user pairId lpAmount = .ok (paid, s')) :
    ∃ config userStake pairConfig pendingReward s1 tokens lpBalance total,
      s.config = some config ∧ 0 < lpAmount ∧
      s.stakes.lookup (user, pairId) = some userStake ∧ lpAmount ≤ userStake.lpBalance ∧
      s.pairs.lookup pairId = some pairConfig ∧
      calculatePendingReward env (refreshed env s pairId pairConfig) user pairId =
        .ok pendingReward ∧
      claimRewardsInternal env (refreshed env s pairId pairConfig) user pairId pendingReward =
        .ok (paid, s1) ∧
      (env.i128 (userStake.lpBalance - lpAmount) : Result Int) = .ok lpBalance ∧
      (env.i128 (s1.totalLpStaked.getD 0 - lpAmount) : Result Int) = .ok total ∧
      s' = { s1 with
        tokens, totalLpStaked := some total
        stakes := s1.stakes.insert (user, pairId) { userStake with lpBalance } } := by
  simp only [withdrawLiquidity, requireInitialized, updatePairRewards, bind_eq_ok, require_eq_ok,
    requireAuth_eq_ok, exists_unit_and, ofOption_eq_ok, pure_eq_ok] at h
  obtain ⟨-, config, hconfig, hpos, userStake, hstake, hle, -, s0, ⟨pairConfig, hpair, rfl⟩,
    pendingReward, hpending, ⟨paid', s1⟩, hclaim, lpBalance, hlp, total, htotal, tokens, -, heq⟩ := h
  obtain ⟨rfl, rfl⟩ := Prod.mk.inj heq
  exact ⟨config, userStake, pairConfig, pendingReward, s1, tokens, lpBalance, total, hconfig, hpos,
    hstake, hle, hpair, hpending, hclaim, hlp, htotal, rfl⟩

/-- A claim of nothing changes nothing. -/
theorem claimRewardsInternal_nonpos {pendingReward : Int} (hle : pendingReward ≤ 0)
    (h : claimRewardsInternal env s user pairId pendingReward = .ok (paid, s')) :
    paid = 0 ∧ s' = s := by
  unfold claimRewardsInternal at h
  rw [if_pos hle] at h
  obtain ⟨rfl, rfl⟩ := Prod.mk.inj (pure_eq_ok.mp h)
  exact ⟨rfl, rfl⟩

/-- A claim pays what is pending and adds it to the debt. -/
theorem claimRewardsInternal_ok {pendingReward : Int} (hpos : 0 < pendingReward)
    (h : claimRewardsInternal env s user pairId pendingReward = .ok (paid, s')) :
    ∃ userStake tokens rewardDebt, s.stakes.lookup (user, pairId) = some userStake ∧
      (env.i128 (userStake.rewardDebt + pendingReward) : Result Int) = .ok rewardDebt ∧
      paid = pendingReward ∧
      s' = { s with
        tokens, stakes := s.stakes.insert (user, pairId) { userStake with rewardDebt } } := by
  unfold claimRewardsInternal at h
  rw [if_neg (by omega)] at h
  simp only [requireInitialized, bind_eq_ok, require_eq_ok, exists_unit_and, ofOption_eq_ok,
    pure_eq_ok, Prod.mk.injEq] at h
  obtain ⟨_, -, -, tokens, -, userStake, hstake, rewardDebt, hdebt, rfl, rfl⟩ := h
  exact ⟨userStake, tokens, rewardDebt, hstake, hdebt, rfl, rfl⟩

theorem claimRewards_ok (h : claimRewards env s user pairId = .ok (paid, s')) :
    ∃ pendingReward, calculatePendingReward env s user pairId = .ok pendingReward ∧
      0 < pendingReward ∧
      claimRewardsInternal env s user pairId pendingReward = .ok (paid, s') := by
  simp only [claimRewards, bind_eq_ok, require_eq_ok, requireAuth_eq_ok, exists_unit_and] at h
  obtain ⟨-, _, -, pendingReward, hpending, hpos, hclaim⟩ := h
  exact ⟨pendingReward, hpending, hpos, hclaim⟩

theorem lockRewardsForGovernance_ok {lockupDays : Nat} {governanceAmount : Int}
    (h : lockRewardsForGovernance env s user pairId lockupDays =
      .ok ((paid, governanceAmount), s')) :
    ∃ pendingReward locked, calculatePendingReward env s user pairId = .ok pendingReward ∧
      0 < pendingReward ∧ governanceAmount = pendingReward.tdiv 2 ∧
      claimRewardsInternal env { s with lockedRewards := locked } user pairId pendingReward =
        .ok (paid, s') := by
  simp only [lockRewardsForGovernance, bind_eq_ok, require_eq_ok, requireAuth_eq_ok,
    exists_unit_and, pure_eq_ok, Prod.mk.injEq] at h
  obtain ⟨-, _, -, -, pendingReward, hpending, hpos, locked, -, ⟨paid', s1⟩, hclaim, ⟨rfl, rfl⟩,
    rfl⟩ := h
  exact ⟨pendingReward, _, hpending, hpos, rfl, hclaim⟩

end Calls

/-! ## Runs to look at -/

/-- Contract 0 in the given block; calls are signed by `signers`. -/
def callAt (block : Nat) (signers : List Address) : Env := ⟨⟨0, true⟩, 5 * block, block, signers⟩

/-- Users 1 and 2 hold 1000 of the liquidity token 7, the contract 100000 of the reward token 8;
administrator 9 creates pair 1 with 10 rewards per block and 1000 in all. -/
def opened : List (Env × Call) :=
  [(callAt 0 [], .token (.mint 7 1 1000)), (callAt 0 [], .token (.mint 7 2 1000)),
    (callAt 0 [], .token (.mint 8 0 100000)), (callAt 0 [], .initContract 9 7 8 6),
    (callAt 0 [9], .createPair 9 1 "USDC_XLM" 10 1000)]

end Stellara.Mining
