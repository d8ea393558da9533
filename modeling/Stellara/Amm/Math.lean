import Stellara.Lib.Loop
import Stellara.Host

/-!
# Pool mathematics (`contracts/amm/src/{pool, position, fees, il_hedge}.rs`)

The pure functions of the AMM: the tick table, liquidity and amounts, the swap step, fee
growth, the loss estimate and the hedge reserve.  Prices are `i128` with 64 fractional
bits and never negative, so the difference of two prices is an `i128`; `*`, `+` and `-` on
other values can overflow and are `d.i128` of the binary `d`.
-/

namespace Stellara.Amm

open Outcome

inductive AmmError
  | notInitialized
  | poolAlreadyExists
  | poolNotFound
  | invalidTickRange
  | insufficientLiquidity
  | invalidAmount
  | unauthorized
  | paused
  | invalidFeeTier
  | positionNotFound
  | slippageExceeded
deriving DecidableEq, Repr

abbrev Result (α : Type) : Type := Except (Fault AmmError) α

structure PoolKey where
  tokenA : Address
  tokenB : Address
deriving DecidableEq, Repr

structure PoolState where
  tokenA : Address
  tokenB : Address
  sqrtPrice : Int
  currentTick : Int
  liquidity : Int
  feeTier : Nat
  dynamicFeeBps : Nat
  feeGrowthGlobalA : Int
  feeGrowthGlobalB : Int
  totalVolume : Int
  activeLiquidity : Int
  ilReserveA : Int
  ilReserveB : Int
deriving DecidableEq, Repr

structure LpPosition where
  id : Nat
  owner : Address
  poolKey : PoolKey
  tickLower : Int
  tickUpper : Int
  liquidity : Int
  feeGrowthInsideALast : Int
  feeGrowthInsideBLast : Int
  tokensOwedA : Int
  tokensOwedB : Int
  createdAt : Nat
deriving DecidableEq, Repr

def q64 : Int := 2 ^ 64

def minTick : Int := -8192
def maxTick : Int := 8192

/-! ## Ticks -/

def tickSqrtTable : List (Int × Int) :=
  [(-8192, 12247334978884438016), (-7680, 12564898345393909760), (-7168, 12890695869940434944),
    (-6656, 13224941057498855424), (-6144, 13567852949053179904), (-5632, 13919656265140750336),
    (-5120, 14280581553118414848), (-4608, 14650865338247188480), (-4096, 15030750278694412288),
    (-3584, 15420485324554993664), (-3072, 15820325880995923968), (-2560, 16230533975631024128),
    (-2048, 16651378430235568128), (-1536, 17083135036913317888), (-1024, 17526086738831433728),
    (-512, 17980523815641698304), (0, 18446744073709551616), (512, 18925053041275609088),
    (1024, 19415764168677568512), (1536, 19919199033763692544), (2048, 20435687552632508416),
    (2560, 20965568195836801024), (3072, 21509188210193616896), (3584, 22066903846345601024),
    (4096, 22639080592222822400), (4608, 23226093412558073856), (5120, 23828326994612617216),
    (5632, 24446176000273354752), (6144, 25080045324686745600), (6656, 25730350361598795776),
    (7168, 26397517275575197696), (7680, 27081983281279832064), (8192, 27784196929994764288)]

def tickToSqrtPrice (tick : Int) : Result Int := do
  require (minTick ≤ tick ∧ tick ≤ maxTick) (.err .invalidTickRange)
  let lowerIdx := min ((tick - minTick).tdiv 512).toNat (tickSqrtTable.length - 2)
  let (t0, s0) ← ofOption tickSqrtTable[lowerIdx]? (.panic "index out of bounds")
  let (t1, s1) ← ofOption tickSqrtTable[lowerIdx + 1]? (.panic "index out of bounds")
  pure (s0 + ((s1 - s0) * (tick - t0)).tdiv (t1 - t0))

/-- The tick in the first segment of the table that holds the price. -/
def segmentTick (sqrtPrice : Int) : List (Int × Int) → Option Int
  | (t0, s0) :: (t1, s1) :: rest =>
    if s0 ≤ sqrtPrice ∧ sqrtPrice < s1 then
      some (t0 + ((sqrtPrice - s0) * 512).tdiv (max (s1 - s0) 1))
    else segmentTick sqrtPrice ((t1, s1) :: rest)
  | _ => none

def sqrtPriceToTick (sqrtPrice : Int) : Int :=
  (segmentTick sqrtPrice tickSqrtTable).getD
    (if sqrtPrice ≤ 12247334978884438016 then minTick else maxTick)

/-! ## Liquidity -/

/-- The price clamped to a position's range. -/
def clampPrice (sqrtPriceLower sqrtPriceUpper currentSqrtPrice : Int) : Int :=
  min (max currentSqrtPrice sqrtPriceLower) sqrtPriceUpper

/-- Token A between the price and the upper end of the range. -/
def amountAFor (liquidity sqrtPriceUpper sqCur : Int) : Int :=
  if sqCur < sqrtPriceUpper then
    let step1 := (saturatingMul liquidity (sqrtPriceUpper - sqCur)).tdiv (max sqrtPriceUpper 1)
    (saturatingMul step1 q64).tdiv (max sqCur 1)
  else 0

/-- Token B between the lower end of the range and the price. -/
def amountBFor (d : Deployment) (liquidity sqrtPriceLower sqCur : Int) : Result Int :=
  if sqrtPriceLower < sqCur then do
    let scaled ← d.i128 (liquidity * (sqCur - sqrtPriceLower))
    pure (scaled.tdiv q64)
  else .ok 0

def amountsForLiquidity (d : Deployment)
    (liquidity sqrtPriceLower sqrtPriceUpper currentSqrtPrice : Int) : Result (Int × Int) := do
  let sqCur := clampPrice sqrtPriceLower sqrtPriceUpper currentSqrtPrice
  let amountB ← amountBFor d liquidity sqrtPriceLower sqCur
  pure (amountAFor liquidity sqrtPriceUpper sqCur, amountB)

/-- The liquidity that `amountA` buys above the price. -/
def liquidityFromA (amountA sqrtPriceUpper sqCur : Int) : Int :=
  if sqCur < sqrtPriceUpper then
    let step1 := (saturatingMul amountA sqrtPriceUpper).tdiv q64
    (saturatingMul step1 sqCur).tdiv (sqrtPriceUpper - sqCur)
  else i128Max

/-- The liquidity that `amountB` buys below the price. -/
def liquidityFromB (d : Deployment) (amountB sqrtPriceLower sqCur : Int) : Result Int :=
  if sqrtPriceLower < sqCur then do
    let scaled ← d.i128 (amountB * q64)
    pure (scaled.tdiv (max (sqCur - sqrtPriceLower) 1))
  else .ok i128Max

def liquidityFromAmounts (d : Deployment)
    (amountA amountB sqrtPriceLower sqrtPriceUpper currentSqrtPrice : Int) : Result Int := do
  let sqCur := clampPrice sqrtPriceLower sqrtPriceUpper currentSqrtPrice
  let liqB ← liquidityFromB d amountB sqrtPriceLower sqCur
  pure (max (min (liquidityFromA amountA sqrtPriceUpper sqCur) liqB) 0)

/-- What `liquidity` units in the tick range are worth at the price. -/
def rangeAmounts (d : Deployment) (tickLower tickUpper liquidity sqrtPrice : Int) :
    Result (Int × Int) := do
  let sqrtLower ← tickToSqrtPrice tickLower
  let sqrtUpper ← tickToSqrtPrice tickUpper
  amountsForLiquidity d liquidity sqrtLower sqrtUpper sqrtPrice

/-! ## Swap step -/

structure SwapStep where
  amountIn : Int
  amountOut : Int
  feePaid : Int
  newSqrtPrice : Int
deriving DecidableEq, Repr

/-- The most of token A that can be sold before the price has fallen to the target. -/
def sellMaxIn (currentSqrtPrice targetSqrtPrice liquidity : Int) : Int :=
  if currentSqrtPrice = 0 ∨ targetSqrtPrice = 0 then 0
  else
    let step1 := (saturatingMul liquidity (currentSqrtPrice - targetSqrtPrice)).tdiv currentSqrtPrice
    (saturatingMul step1 q64).tdiv targetSqrtPrice

/-- Token A is sold and the price falls: the new price and the input charged. -/
def sellStep (currentSqrtPrice targetSqrtPrice liquidity amountAfterFee : Int) : Int × Int :=
  let maxIn := sellMaxIn currentSqrtPrice targetSqrtPrice liquidity
  if maxIn ≤ amountAfterFee then (targetSqrtPrice, maxIn)
  else
    let term := (saturatingMul amountAfterFee currentSqrtPrice).tdiv (max liquidity 1)
    let den := saturatingAdd term q64
    let newSqrtPrice := (saturatingMul currentSqrtPrice q64).tdiv (max den 1)
    (max newSqrtPrice targetSqrtPrice, amountAfterFee)

/-- The most of token B that can be sold before the price has risen to the target. -/
def buyMaxIn (currentSqrtPrice targetSqrtPrice liquidity : Int) : Int :=
  (saturatingMul liquidity (targetSqrtPrice - currentSqrtPrice)).tdiv q64

/-- Token A is bought and the price rises. -/
def buyStep (currentSqrtPrice targetSqrtPrice liquidity amountAfterFee : Int) : Int × Int :=
  let maxIn := buyMaxIn currentSqrtPrice targetSqrtPrice liquidity
  if maxIn ≤ amountAfterFee then (targetSqrtPrice, maxIn)
  else
    let moved := (saturatingMul amountAfterFee q64).tdiv (max liquidity 1)
    (min (saturatingAdd currentSqrtPrice moved) targetSqrtPrice, amountAfterFee)

/-- Token B paid for a fall of the price. -/
def sellOut (currentSqrtPrice newSqrtPrice liquidity : Int) : Int :=
  (saturatingMul liquidity (currentSqrtPrice - newSqrtPrice)).tdiv q64

/-- Token A paid for a rise of the price. -/
def buyOut (currentSqrtPrice newSqrtPrice liquidity : Int) : Int :=
  if currentSqrtPrice = 0 ∨ newSqrtPrice = 0 then 0
  else
    let step1 := (saturatingMul liquidity (newSqrtPrice - currentSqrtPrice)).tdiv currentSqrtPrice
    (saturatingMul step1 q64).tdiv newSqrtPrice

def computeSwapStep (d : Deployment)
    (currentSqrtPrice targetSqrtPrice liquidity amountInRemaining : Int) (feeBps : Nat) :
    Result SwapStep := do
  let scaledFee ← d.i128 (amountInRemaining * feeBps)
  let feePaid := scaledFee.tdiv 10000
  let afterFee ← d.i128 (amountInRemaining - feePaid)
  let amountAfterFee := max afterFee 0
  if targetSqrtPrice < currentSqrtPrice then
    let (newSqrtPrice, amountIn) :=
      sellStep currentSqrtPrice targetSqrtPrice liquidity amountAfterFee
    let amountOut := sellOut currentSqrtPrice newSqrtPrice liquidity
    pure ⟨amountIn, amountOut, feePaid, newSqrtPrice⟩
  else
    let (newSqrtPrice, amountIn) :=
      buyStep currentSqrtPrice targetSqrtPrice liquidity amountAfterFee
    let amountOut := buyOut currentSqrtPrice newSqrtPrice liquidity
    pure ⟨amountIn, amountOut, feePaid, newSqrtPrice⟩

/-! ## Fees -/

def isValidFeeTier (feeTier : Nat) : Bool := feeTier = 5 || feeTier = 30 || feeTier = 100

def accumulateFeeGrowth (d : Deployment) (feeAmount liquidity globalFeeGrowth : Int) :
    Result Int :=
  if liquidity = 0 then .ok globalFeeGrowth
  else do
    let scaled ← d.i128 (feeAmount * q64)
    let increment ← divI128 scaled liquidity
    d.i128 (globalFeeGrowth + increment)

/-- The growth beyond a tick: the value stored there, or the rest of the global growth when
the price is on the other side. -/
def growthBeyond (d : Deployment) (global outside : Int) (stored : Bool) : Result Int :=
  if stored then .ok outside else d.i128 (global - outside)

/-- `fee_growth_inside` for one of the two tokens. -/
def growthInside (d : Deployment) (global outsideLower outsideUpper : Int)
    (currentTick tickLower tickUpper : Int) : Result Int := do
  let below ← growthBeyond d global outsideLower (tickLower ≤ currentTick)
  let above ← growthBeyond d global outsideUpper (currentTick < tickUpper)
  let rest ← d.i128 (global - below)
  d.i128 (rest - above)

/-- What a position is owed in one token: what it was, and its share of the growth. -/
def accrueOwed (d : Deployment) (owed liquidity last now : Int) : Result Int := do
  let feePerUnit ← d.i128 (now - last)
  if 0 < feePerUnit then do
    let scaled ← d.i128 (liquidity * feePerUnit)
    d.i128 (owed + scaled.tdiv q64)
  else pure owed

def accruePositionFees (d : Deployment) (position : LpPosition) (insideA insideB : Int) :
    Result LpPosition := do
  let tokensOwedA ← accrueOwed d position.tokensOwedA position.liquidity
    position.feeGrowthInsideALast insideA
  let tokensOwedB ← accrueOwed d position.tokensOwedB position.liquidity
    position.feeGrowthInsideBLast insideB
  pure { position with tokensOwedA, tokensOwedB
                       feeGrowthInsideALast := insideA, feeGrowthInsideBLast := insideB }

/-- The body of the loop of `isqrt`, on `(x, y)`. -/
def isqrtStep (d : Deployment) (n : Int) : Int × Int → Result (Option (Int × Int))
  | (x, y) =>
    if y < x then do
      let quotient ← divI128 n y
      let sum ← d.i128 (y + quotient)
      pure (some (y, sum.tdiv 2))
    else .ok none

/-- `fees.rs` and `il_hedge.rs` both have this function.  `x` falls in every iteration, so `n` of
them are enough. -/
def isqrt (d : Deployment) (n : Int) : Result Int :=
  if n ≤ 0 then .ok 0
  else do
    let next ← d.i128 (n + 1)
    let (x, _) ← Loop.run (.panic "out of fuel") (isqrtStep d n) (n.toNat + 1) (n, next.tdiv 2)
    pure x

/-! ## Hedge -/

def hedgeThresholdBps : Int := 200
def hedgeRatioBps : Int := 500
def hedgeScale : Int := 1000000

def estimateIlBps (d : Deployment) (tickLower tickUpper sqrtPrice : Int) : Result Int :=
  match tickToSqrtPrice ((tickLower + tickUpper).tdiv 2) with
  | .error _ => .ok 0
  | .ok entrySqrtPrice =>
    if entrySqrtPrice = 0 then .ok 0
    else do
      let sqrtR := (saturatingMul sqrtPrice hedgeScale).tdiv entrySqrtPrice
      let r := (saturatingMul sqrtR sqrtR).tdiv hedgeScale
      let numerator ← d.i128 (2 * sqrtR)
      let denominator ← d.i128 (hedgeScale + r)
      let il ← d.i128 ((saturatingMul numerator hedgeScale).tdiv (max denominator 1) - hedgeScale)
      let scaled ← d.i128 (il * 10000)
      pure (scaled.tdiv hedgeScale)

def computeHedgeReserve (d : Deployment) (ilBps amountA amountB : Int) : Result (Int × Int) :=
  if |ilBps| < hedgeThresholdBps then .ok (0, 0)
  else do
    let scaledA ← d.i128 (amountA * hedgeRatioBps)
    let scaledB ← d.i128 (amountB * hedgeRatioBps)
    pure (scaledA.tdiv 10000, scaledB.tdiv 10000)

def computeHedgeRelease (d : Deployment) (pool : PoolState) (liquidityRemoved totalLiquidity : Int) :
    Result (Int × Int) :=
  if totalLiquidity = 0 then .ok (0, 0)
  else do
    let scaledA ← d.i128 (pool.ilReserveA * liquidityRemoved)
    let scaledB ← d.i128 (pool.ilReserveB * liquidityRemoved)
    pure (scaledA.tdiv (max totalLiquidity 1), scaledB.tdiv (max totalLiquidity 1))

end Stellara.Amm
