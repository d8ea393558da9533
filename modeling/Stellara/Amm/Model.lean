import Stellara.Shared.Guards
import Stellara.Shared.Governance
import Stellara.Amm.Math

/-!
# The concentrated-liquidity AMM (`contracts/amm/src/lib.rs`)

A pool holds a price and the liquidity that trades at it; a position adds liquidity over a
range of ticks.  The fee growth outside a tick, the price samples of the fee oracle and the
owners' lists of positions are kept beside.

`swap` moves the price by at most one tick.
-/

namespace Stellara.Amm

open Outcome

structure State where
  /-- `amm_init` -/
  initialized : Bool := false
  /-- `pool_cnt` -/
  poolCount : Nat := 0
  pools : Store PoolKey PoolState := ∅
  /-- `pos` -/
  positions : Store Nat LpPosition := ∅
  /-- `pos_cnt` -/
  positionCount : Nat := 0
  /-- `own_pos` -/
  ownerPositions : Store Address (List Nat) := ∅
  /-- `tfee`, by pool, tick and `is_a` -/
  tickFees : Store (PoolKey × Int × Bool) Int := ∅
  /-- `vol_hist`, by pool and period -/
  priceSamples : Store (PoolKey × Nat) Int := ∅
  cb : CircuitBreaker.State := {}
  gov : Governance.State := {}
  /-- the token contracts -/
  tokens : Tokens

/-! ## Storage -/

def readPool (s : State) (key : PoolKey) : Option PoolState := s.pools.lookup key

def writePool (s : State) (key : PoolKey) (pool : PoolState) : State :=
  { s with pools := s.pools.insert key pool }

def requirePool (s : State) (key : PoolKey) : Result PoolState :=
  ofOption (readPool s key) (.err .poolNotFound)

def readPosition (s : State) (positionId : Nat) : Option LpPosition := s.positions.lookup positionId

def writePosition (s : State) (position : LpPosition) : State :=
  { s with positions := s.positions.insert position.id position }

def requirePosition (s : State) (positionId : Nat) : Result LpPosition :=
  ofOption (readPosition s positionId) (.err .positionNotFound)

def deletePosition (s : State) (positionId : Nat) : State :=
  { s with positions := s.positions.erase positionId }

def ownerIds (s : State) (owner : Address) : List Nat := (s.ownerPositions.lookup owner).getD []

def indexOwnerPosition (s : State) (owner : Address) (positionId : Nat) : State :=
  { s with ownerPositions := s.ownerPositions.insert owner (ownerIds s owner ++ [positionId]) }

def deindexOwnerPosition (s : State) (owner : Address) (positionId : Nat) : State :=
  { s with ownerPositions :=
      s.ownerPositions.insert owner ((ownerIds s owner).filter fun id => id ≠ positionId) }

def readTickFeeOutside (s : State) (key : PoolKey) (tick : Int) (isA : Bool) : Int :=
  (s.tickFees.lookup (key, tick, isA)).getD 0

def writeTickFeeOutside (s : State) (key : PoolKey) (tick : Int) (isA : Bool) (value : Int) : State :=
  { s with tickFees := s.tickFees.insert (key, tick, isA) value }

def mintPosition (env : Env) (s : State) (owner : Address) (key : PoolKey)
    (tickLower tickUpper liquidity insideA insideB : Int) : Nat × State :=
  let positionId := s.positionCount + 1
  let position : LpPosition :=
    { id := positionId, owner, poolKey := key, tickLower, tickUpper, liquidity
      feeGrowthInsideALast := insideA, feeGrowthInsideBLast := insideB
      tokensOwedA := 0, tokensOwedB := 0, createdAt := env.timestamp }
  (positionId,
    indexOwnerPosition (writePosition { s with positionCount := positionId } position) owner
      positionId)

/-! ## Fee growth by tick -/

def feeGrowthInside (d : Deployment) (s : State) (key : PoolKey) (pool : PoolState)
    (tickLower tickUpper : Int) : Result (Int × Int) := do
  let insideA ← growthInside d pool.feeGrowthGlobalA (readTickFeeOutside s key tickLower true)
    (readTickFeeOutside s key tickUpper true) pool.currentTick tickLower tickUpper
  let insideB ← growthInside d pool.feeGrowthGlobalB (readTickFeeOutside s key tickLower false)
    (readTickFeeOutside s key tickUpper false) pool.currentTick tickLower tickUpper
  pure (insideA, insideB)

/-- Cross a tick: flip its outside values. -/
def crossTick (d : Deployment) (s : State) (key : PoolKey) (pool : PoolState) (tick : Int) :
    Result State := do
  let outsideA ← d.i128 (pool.feeGrowthGlobalA - readTickFeeOutside s key tick true)
  let outsideB ← d.i128 (pool.feeGrowthGlobalB - readTickFeeOutside s key tick false)
  pure (writeTickFeeOutside (writeTickFeeOutside s key tick true outsideA) key tick false outsideB)

/-! ## Price samples and the dynamic fee -/

def oraclePeriodSecs : Nat := 3600

def recordPriceSample (env : Env) (s : State) (key : PoolKey) (sqrtPrice : Int) : State :=
  { s with priceSamples := s.priceSamples.insert (key, env.timestamp / oraclePeriodSecs) sqrtPrice }

def readPriceSample (s : State) (key : PoolKey) (period : Nat) : Option Int :=
  s.priceSamples.lookup (key, period)

/-- `sum += x` over a list. -/
def sumI128 (d : Deployment) (xs : List Int) : Result Int :=
  xs.foldlM (fun sum x => d.i128 (sum + x)) 0

/-- The samples of the last 24 periods, the present one first. -/
def recentSamples (env : Env) (s : State) (key : PoolKey) : List Int :=
  (List.range 24).filterMap fun i =>
    readPriceSample s key (env.timestamp / oraclePeriodSecs - i)

def squaredDeviation (d : Deployment) (mean sample : Int) : Result Int := do
  let diff ← d.i128 (sample - mean)
  d.i128 (diff * diff)

/-- The premium of the volatility: a tenth of it, at most 50 bps. -/
def volatilityPremium (d : Deployment) (samples : List Int) (mean : Int) : Result Nat := do
  let squares ← samples.mapM (squaredDeviation d mean)
  let varianceSum ← sumI128 d squares
  let root ← isqrt d (varianceSum.tdiv samples.length)
  let scaled ← d.i128 (root * 10000)
  let volBps := scaled.tdiv (max mean 1)
  -- `as u32` keeps the low 32 bits
  pure (min ((volBps % 2 ^ 32).toNat / 10) 50)

def computeDynamicFee (env : Env) (s : State) (key : PoolKey) (baseFee : Nat) : Result Nat := do
  let samples := recentSamples env s key
  let sum ← sumI128 env.toDeployment samples
  if samples.length < 2 then pure baseFee
  else do
    let mean := sum.tdiv samples.length
    if mean = 0 then pure baseFee
    else do
      let premium ← volatilityPremium env.toDeployment samples mean
      pure (baseFee + premium)

/-! ## Guards -/

def requireInit (s : State) : Result Unit := require (s.initialized = true) (.err .notInitialized)

def requireNotPaused (s : State) : Result Unit :=
  require (s.cb.state.pauseLevel ≠ .full) (.err .paused)

/-! ## Pools -/

def init (env : Env) (s : State) (admin : Address) (approvers : List Address) (executor : Address)
    (cbConfig : CircuitBreaker.Config) : Result State := do
  require (s.initialized = false) (.err .unauthorized)
  let acl := Governance.initGovernanceRoles s.gov.acl admin approvers executor
  let acl := Acl.assignPermission acl Acl.roleAdmin Acl.permissionPause
  let acl := Acl.assignPermission acl Acl.roleAdmin Acl.permissionUnpause
  let acl := Acl.assignPermission acl Acl.roleAdmin Acl.permissionNewPool
  let acl := Acl.assignPermission acl Acl.roleAdmin Acl.permissionMgrAcl
  pure { s with initialized := true, poolCount := 0, gov := { s.gov with acl }
                cb := CircuitBreaker.init env s.cb cbConfig }

/-- The pool that `create_pool` writes. -/
def newPool (key : PoolKey) (feeTier : Nat) (initSqrtPrice : Int) : PoolState :=
  { tokenA := key.tokenA, tokenB := key.tokenB, sqrtPrice := initSqrtPrice
    currentTick := sqrtPriceToTick initSqrtPrice, liquidity := 0, feeTier, dynamicFeeBps := feeTier
    feeGrowthGlobalA := 0, feeGrowthGlobalB := 0, totalVolume := 0, activeLiquidity := 0
    ilReserveA := 0, ilReserveB := 0 }

def createPool (env : Env) (s : State) (caller : Address) (key : PoolKey) (feeTier : Nat)
    (initSqrtPrice : Int) : Result State := do
  env.requireAuth caller
  requireInit s
  Acl.requirePermission s.gov.acl caller Acl.permissionNewPool
  require (isValidFeeTier feeTier = true) (.err .invalidFeeTier)
  require (0 < initSqrtPrice) (.err .invalidAmount)
  require (readPool s key = none) (.err .poolAlreadyExists)
  pure { writePool s key (newPool key feeTier initSqrtPrice) with poolCount := s.poolCount + 1 }

/-! ## Liquidity -/

/-- A transfer when the amount is positive, and nothing otherwise. -/
def payIfPositive (tokens : Tokens) (token src dst : Address) (amount : Int) : Result Tokens :=
  if 0 < amount then tokens.transfer token src dst amount else .ok tokens

/-- The range of ticks that `add_liquidity` is asked for, with the amounts offered. -/
structure Offer where
  tickLower : Int
  tickUpper : Int
  amountDesiredA : Int
  amountDesiredB : Int
deriving DecidableEq, Repr

/-- Liquidity that an offer buys, with the amounts charged for it. -/
structure Deposit where
  liquidity : Int
  amountA : Int
  amountB : Int
deriving DecidableEq, Repr

def quoteDeposit (d : Deployment) (pool : PoolState) (offer : Offer) : Result Deposit := do
  let sqrtLower ← tickToSqrtPrice offer.tickLower
  let sqrtUpper ← tickToSqrtPrice offer.tickUpper
  let liquidity ← liquidityFromAmounts d offer.amountDesiredA offer.amountDesiredB sqrtLower
    sqrtUpper pool.sqrtPrice
  require (liquidity ≠ 0) (.err .insufficientLiquidity)
  let (amountA, amountB) ← amountsForLiquidity d liquidity sqrtLower sqrtUpper pool.sqrtPrice
  pure ⟨liquidity, amountA, amountB⟩

/-- `current_tick >= tick_lower && current_tick < tick_upper`. -/
def PoolState.inRange (pool : PoolState) (tickLower tickUpper : Int) : Bool :=
  tickLower ≤ pool.currentTick && pool.currentTick < tickUpper

def activate (d : Deployment) (pool : PoolState) (tickLower tickUpper liquidity : Int) :
    Result PoolState :=
  if pool.inRange tickLower tickUpper then do
    let total ← d.i128 (pool.liquidity + liquidity)
    let active ← d.i128 (pool.activeLiquidity + liquidity)
    pure { pool with liquidity := total, activeLiquidity := max active 0 }
  else .ok { pool with activeLiquidity := max pool.activeLiquidity 0 }

/-- The hedge reserve that a deposit into the range locks. -/
def quoteReserve (d : Deployment) (pool : PoolState) (tickLower tickUpper amountA amountB : Int) :
    Result (Int × Int) := do
  let ilBps ← estimateIlBps d tickLower tickUpper pool.sqrtPrice
  computeHedgeReserve d ilBps amountA amountB

def lockReserve (d : Deployment) (pool : PoolState) (reserveA reserveB : Int) :
    Result PoolState := do
  let ilReserveA ← d.i128 (pool.ilReserveA + reserveA)
  let ilReserveB ← d.i128 (pool.ilReserveB + reserveB)
  pure { pool with ilReserveA, ilReserveB }

structure AddLiquidityResult where
  positionId : Nat
  amountA : Int
  amountB : Int
  liquidity : Int
deriving DecidableEq, Repr

def addLiquidity (env : Env) (s : State) (caller : Address) (key : PoolKey) (offer : Offer)
    (minA minB : Int) : Result (AddLiquidityResult × State) := do
  env.requireAuth caller
  requireInit s
  requireNotPaused s
  require (offer.tickLower < offer.tickUpper) (.err .invalidTickRange)
  require (0 < offer.amountDesiredA ∨ 0 < offer.amountDesiredB) (.err .invalidAmount)
  let pool ← requirePool s key
  let deposit ← quoteDeposit env.toDeployment pool offer
  require (minA ≤ deposit.amountA ∧ minB ≤ deposit.amountB) (.err .slippageExceeded)
  let tokens ← payIfPositive s.tokens key.tokenA caller env.self deposit.amountA
  let tokens ← payIfPositive tokens key.tokenB caller env.self deposit.amountB
  let pool ← activate env.toDeployment pool offer.tickLower offer.tickUpper deposit.liquidity
  let (insideA, insideB) ← feeGrowthInside env.toDeployment s key pool offer.tickLower
    offer.tickUpper
  let (positionId, s) := mintPosition env { s with tokens } caller key offer.tickLower
    offer.tickUpper deposit.liquidity insideA insideB
  let (reserveA, reserveB) ← quoteReserve env.toDeployment pool offer.tickLower offer.tickUpper
    deposit.amountA deposit.amountB
  let pool ← lockReserve env.toDeployment pool reserveA reserveB
  pure (⟨positionId, deposit.amountA, deposit.amountB, deposit.liquidity⟩, writePool s key pool)

/-- The pool after `liquidity` has left the range. -/
def deactivate (d : Deployment) (pool : PoolState) (tickLower tickUpper liquidity : Int) :
    Result PoolState :=
  if pool.inRange tickLower tickUpper then do
    let total ← d.i128 (pool.liquidity - liquidity)
    let active ← d.i128 (pool.activeLiquidity - liquidity)
    pure { pool with liquidity := max total 0, activeLiquidity := max active 0 }
  else .ok pool

def unlockReserve (d : Deployment) (pool : PoolState) (hedgeA hedgeB : Int) : Result PoolState := do
  let reserveA ← d.i128 (pool.ilReserveA - hedgeA)
  let reserveB ← d.i128 (pool.ilReserveB - hedgeB)
  pure { pool with ilReserveA := max reserveA 0, ilReserveB := max reserveB 0 }

/-- A position is stored with what it has left, or deleted when that is nothing. -/
def storeRest (s : State) (caller : Address) (position : LpPosition) : State :=
  if position.liquidity = 0 then
    deindexOwnerPosition (deletePosition s position.id) caller position.id
  else writePosition s position

structure RemoveLiquidityResult where
  amountA : Int
  amountB : Int
  hedgeA : Int
  hedgeB : Int
deriving DecidableEq, Repr

def removeLiquidity (env : Env) (s : State) (caller : Address) (positionId : Nat)
    (liquidityToRemove minA minB : Int) : Result (RemoveLiquidityResult × State) := do
  env.requireAuth caller
  requireInit s
  let position ← requirePosition s positionId
  require (position.owner = caller) (.err .unauthorized)
  require (0 < liquidityToRemove ∧ liquidityToRemove ≤ position.liquidity) (.err .invalidAmount)
  let pool ← requirePool s position.poolKey
  let (insideA, insideB) ← feeGrowthInside env.toDeployment s position.poolKey pool
    position.tickLower position.tickUpper
  let position ← accruePositionFees env.toDeployment position insideA insideB
  let (outA, outB) ← rangeAmounts env.toDeployment position.tickLower position.tickUpper
    liquidityToRemove pool.sqrtPrice
  require (minA ≤ outA ∧ minB ≤ outB) (.err .slippageExceeded)
  let (hedgeA, hedgeB) ← computeHedgeRelease env.toDeployment pool liquidityToRemove
    position.liquidity
  let pool ← unlockReserve env.toDeployment pool hedgeA hedgeB
  let outA ← env.i128 (outA + hedgeA)
  let outB ← env.i128 (outB + hedgeB)
  let pool ← deactivate env.toDeployment pool position.tickLower position.tickUpper
    liquidityToRemove
  let tokens ← payIfPositive s.tokens pool.tokenA env.self caller outA
  let tokens ← payIfPositive tokens pool.tokenB env.self caller outB
  let s := storeRest { s with tokens } caller
    { position with liquidity := position.liquidity - liquidityToRemove }
  pure (⟨outA, outB, hedgeA, hedgeB⟩, writePool s position.poolKey pool)

def collectFees (env : Env) (s : State) (caller : Address) (positionId : Nat) :
    Result ((Int × Int) × State) := do
  env.requireAuth caller
  requireInit s
  let position ← requirePosition s positionId
  require (position.owner = caller) (.err .unauthorized)
  let pool ← requirePool s position.poolKey
  let (insideA, insideB) ← feeGrowthInside env.toDeployment s position.poolKey pool
    position.tickLower position.tickUpper
  let position ← accruePositionFees env.toDeployment position insideA insideB
  let owedA := position.tokensOwedA
  let owedB := position.tokensOwedB
  let tokens ← payIfPositive s.tokens pool.tokenA env.self caller owedA
  let tokens ← payIfPositive tokens pool.tokenB env.self caller owedB
  let position := { position with
    tokensOwedA := if 0 < owedA then 0 else owedA
    tokensOwedB := if 0 < owedB then 0 else owedB }
  pure ((owedA, owedB), writePosition { s with tokens } position)

/-! ## Swaps -/

/-- The pool of two tokens, in the order of their addresses. -/
def swapKey (tokenIn tokenOut : Address) : PoolKey :=
  if tokenIn < tokenOut then ⟨tokenIn, tokenOut⟩ else ⟨tokenOut, tokenIn⟩

/-- The tick at the end of the step. -/
def targetTick (pool : PoolState) (zeroForOne : Bool) : Int :=
  min (max (if zeroForOne then pool.currentTick - 1 else pool.currentTick + 1) minTick) maxTick

def quoteSwap (d : Deployment) (pool : PoolState) (zeroForOne : Bool) (amountIn : Int) :
    Result SwapStep := do
  let targetSqrt ← tickToSqrtPrice (targetTick pool zeroForOne)
  computeSwapStep d pool.sqrtPrice targetSqrt pool.liquidity amountIn pool.dynamicFeeBps

/-- The global fee growths after a fee was paid in the token sold. -/
def swapFeeGrowth (d : Deployment) (pool : PoolState) (zeroForOne : Bool) (feePaid : Int) :
    Result (Int × Int) :=
  if zeroForOne then do
    let growthA ← accumulateFeeGrowth d feePaid pool.liquidity pool.feeGrowthGlobalA
    pure (growthA, pool.feeGrowthGlobalB)
  else do
    let growthB ← accumulateFeeGrowth d feePaid pool.liquidity pool.feeGrowthGlobalB
    pure (pool.feeGrowthGlobalA, growthB)

/-- Cross the tick that the swap left, or the one it reached. -/
def crossIfMoved (d : Deployment) (s : State) (key : PoolKey) (pool : PoolState)
    (zeroForOne : Bool) (newTick : Int) : Result State :=
  if newTick ≠ pool.currentTick then
    crossTick d s key pool (if zeroForOne then pool.currentTick else targetTick pool zeroForOne)
  else .ok s

structure SwapResult where
  amountIn : Int
  amountOut : Int
  feePaid : Int
  newSqrtPrice : Int
  newTick : Int
deriving DecidableEq, Repr

def swap (env : Env) (s : State) (caller tokenIn tokenOut : Address)
    (amountIn minAmountOut : Int) : Result (SwapResult × State) := do
  env.requireAuth caller
  requireInit s
  requireNotPaused s
  require (0 < amountIn) (.err .invalidAmount)
  let zeroForOne := decide (tokenIn < tokenOut)
  let key := swapKey tokenIn tokenOut
  let pool ← requirePool s key
  require (pool.liquidity ≠ 0) (.err .insufficientLiquidity)
  let s := recordPriceSample env s key pool.sqrtPrice
  let step ← quoteSwap env.toDeployment pool zeroForOne amountIn
  require (minAmountOut ≤ step.amountOut) (.err .slippageExceeded)
  let (growthA, growthB) ← swapFeeGrowth env.toDeployment pool zeroForOne step.feePaid
  let newTick := sqrtPriceToTick step.newSqrtPrice
  let s ← crossIfMoved env.toDeployment s key pool zeroForOne newTick
  let totalVolume ← env.i128 (pool.totalVolume + step.amountIn)
  let s := writePool s key { pool with
    sqrtPrice := step.newSqrtPrice, currentTick := newTick
    feeGrowthGlobalA := growthA, feeGrowthGlobalB := growthB, totalVolume }
  let tokens ← s.tokens.transfer tokenIn caller env.self step.amountIn
  let tokens ← tokens.transfer tokenOut env.self caller step.amountOut
  pure (⟨step.amountIn, step.amountOut, step.feePaid, step.newSqrtPrice, newTick⟩,
    { s with tokens })

def updateDynamicFee (env : Env) (s : State) (key : PoolKey) : Result (Nat × State) := do
  requireInit s
  let pool ← requirePool s key
  let newFee ← computeDynamicFee env s key pool.feeTier
  pure (newFee, writePool s key { pool with dynamicFeeBps := newFee })

/-! ## Pausing and governance -/

/-- `pause` and `unpause`. -/
def setPause (env : Env) (s : State) (admin : Address) (permission : Symbol)
    (level : CircuitBreaker.PauseLevel) : Result State := do
  env.requireAuth admin
  requireInit s
  Acl.requirePermission s.gov.acl admin permission
  pure { s with cb := CircuitBreaker.setPauseLevel s.cb level }

def pause (env : Env) (s : State) (admin : Address) : Result State :=
  setPause env s admin Acl.permissionPause .full

def unpause (env : Env) (s : State) (admin : Address) : Result State :=
  setPause env s admin Acl.permissionUnpause .none

def governanceResult {α : Type} (x : Governance.Result α) : Result α :=
  x.mapError (Fault.map fun _ => AmmError.unauthorized)

def proposeUpgrade (env : Env) (s : State) (admin : Address) (newContractHash description : Symbol)
    (approvers : List Address) (approvalThreshold timelockDelay : Nat) : Result (Nat × State) := do
  env.requireAuth admin
  requireInit s
  let (id, gov) ← governanceResult (Governance.proposeUpgrade env s.gov admin newContractHash
    env.self description approvalThreshold approvers timelockDelay)
  pure (id, { s with gov })

/-- An operation on a proposal, signed by its actor. -/
def upgradeCall (env : Env) (s : State) (actor : Address)
    (f : Governance.State → Governance.Result Governance.State) : Result State := do
  env.requireAuth actor
  requireInit s
  let gov ← governanceResult (f s.gov)
  pure { s with gov }

def approveUpgrade (env : Env) (s : State) (proposalId : Nat) (approver : Address) : Result State :=
  upgradeCall env s approver fun gov => Governance.approveProposal gov proposalId approver

def executeUpgrade (env : Env) (s : State) (proposalId : Nat) (executor : Address) : Result State :=
  upgradeCall env s executor fun gov => Governance.executeProposal env gov proposalId executor

def rejectUpgrade (env : Env) (s : State) (proposalId : Nat) (rejector : Address) : Result State :=
  upgradeCall env s rejector fun gov => Governance.rejectProposal gov proposalId rejector

def cancelUpgrade (env : Env) (s : State) (proposalId : Nat) (admin : Address) : Result State :=
  upgradeCall env s admin fun gov => Governance.cancelProposal gov proposalId admin

/-! ## The contract as a machine -/

inductive Call
  | init (admin : Address) (approvers : List Address) (executor : Address)
      (cbConfig : CircuitBreaker.Config)
  | createPool (caller : Address) (key : PoolKey) (feeTier : Nat) (initSqrtPrice : Int)
  | addLiquidity (caller : Address) (key : PoolKey) (offer : Offer) (minA minB : Int)
  | removeLiquidity (caller : Address) (positionId : Nat) (liquidityToRemove minA minB : Int)
  | collectFees (caller : Address) (positionId : Nat)
  | swap (caller tokenIn tokenOut : Address) (amountIn minAmountOut : Int)
  | updateDynamicFee (key : PoolKey)
  | pause (admin : Address)
  | unpause (admin : Address)
  | proposeUpgrade (admin : Address) (newContractHash description : Symbol)
      (approvers : List Address) (approvalThreshold timelockDelay : Nat)
  | approveUpgrade (proposalId : Nat) (approver : Address)
  | executeUpgrade (proposalId : Nat) (executor : Address)
  | rejectUpgrade (proposalId : Nat) (rejector : Address)
  | cancelUpgrade (proposalId : Nat) (admin : Address)
  /-- a call of a token contract that does not go through this one -/
  | token (c : TokenCall)
deriving DecidableEq, Repr

inductive Reply
  | done
  | id (n : Nat)
  | fee (bps : Nat)
  | added (r : AddLiquidityResult)
  | removed (r : RemoveLiquidityResult)
  | collected (owed : Int × Int)
  | swapped (r : SwapResult)
deriving DecidableEq, Repr

def done (x : Result State) : Result (Reply × State) := do pure (.done, ← x)

/-- Wrap what a call returns. -/
def reply {α : Type} (f : α → Reply) (x : Result (α × State)) : Result (Reply × State) := do
  let (a, s) ← x
  pure (f a, s)

def exec (env : Env) : Call → State → Result (Reply × State)
  | .init admin approvers executor cbConfig, s => done (init env s admin approvers executor cbConfig)
  | .createPool caller key feeTier initSqrtPrice, s =>
    done (createPool env s caller key feeTier initSqrtPrice)
  | .addLiquidity caller key offer minA minB, s =>
    reply .added (addLiquidity env s caller key offer minA minB)
  | .removeLiquidity caller positionId liquidityToRemove minA minB, s =>
    reply .removed (removeLiquidity env s caller positionId liquidityToRemove minA minB)
  | .collectFees caller positionId, s =>
    reply .collected (collectFees env s caller positionId)
  | .swap caller tokenIn tokenOut amountIn minAmountOut, s =>
    reply .swapped (swap env s caller tokenIn tokenOut amountIn minAmountOut)
  | .updateDynamicFee key, s => reply .fee (updateDynamicFee env s key)
  | .pause admin, s => done (pause env s admin)
  | .unpause admin, s => done (unpause env s admin)
  | .proposeUpgrade admin newContractHash description approvers approvalThreshold timelockDelay, s =>
    reply .id (proposeUpgrade env s admin newContractHash description approvers approvalThreshold
      timelockDelay)
  | .approveUpgrade proposalId approver, s => done (approveUpgrade env s proposalId approver)
  | .executeUpgrade proposalId executor, s => done (executeUpgrade env s proposalId executor)
  | .rejectUpgrade proposalId rejector, s => done (rejectUpgrade env s proposalId rejector)
  | .cancelUpgrade proposalId admin, s => done (cancelUpgrade env s proposalId admin)
  | .token c, s => done (do pure { s with tokens := ← c.exec env s.tokens })

/-- Runs start before `init`, with any token balances. -/
def machine (d : Deployment) : Machine Env Call Reply (Fault AmmError) State where
  init s := ∃ tokens, s = { tokens }
  valid env _ := env.Of d
  clock env := env.timestamp
  exec env call s := exec env call s

/-- The calls of a run, newest first. -/
abbrev Trace : Type := List (Event Env Call Reply State)

instance (d : Deployment) (env : Env) (call : Call) : Decidable ((machine d).valid env call) :=
  inferInstanceAs (Decidable (env.Of d))

end Stellara.Amm
