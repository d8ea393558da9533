import Stellara.Lib.RangeMeter
import Stellara.Amm.Sound
import Stellara.Amm.Ticks

/-!
# Fee growth (`contracts/amm/src/{pool, fees, position}.rs`)

A pool keeps the growth of its fees for each token in total and, for the ticks that were crossed,
the part of it on the far side (`growthMeter`); `fee_growth_inside` reads the growth of a range
off these (`growthInside_eq`).  Only swaps change them (`level_step`), and a call leaves a position
as it was or settles it at the growth of the moment (`position_step`).
-/

namespace Stellara.Amm

open Outcome RangeMeter

/-- The global fee growth of one token. -/
def PoolState.growth (pool : PoolState) (isA : Bool) : Int :=
  side isA (pool.feeGrowthGlobalA, pool.feeGrowthGlobalB)

/-- Fees that a position is owed in one token. -/
def LpPosition.owed (p : LpPosition) (isA : Bool) : Int := side isA (p.tokensOwedA, p.tokensOwedB)

/-- The fee growth up to which they were credited. -/
def LpPosition.last (p : LpPosition) (isA : Bool) : Int :=
  side isA (p.feeGrowthInsideALast, p.feeGrowthInsideBLast)

/-- Arithmetic on the value is exact: the build checks for overflows, or there is none. -/
def Exact (d : Deployment) (x : Int) : Prop := d.overflowChecks = true ∨ InI128 x

instance (d : Deployment) (x : Int) : Decidable (Exact d x) := inferInstanceAs (Decidable (_ ∨ _))

/-! ## The meter of a pool -/

/-- The fee growth of a token in a pool, as a meter over its ticks. -/
def growthMeter (s : State) (key : PoolKey) (pool : PoolState) (isA : Bool) : RangeMeter Int Int where
  total := pool.growth isA
  outside tick := readTickFeeOutside s key tick isA
  current := pool.currentTick

section Arithmetic

variable {d : Deployment}

theorem exact_of_ok {x y : Int} (hx : Exact d x) (h : (d.i128 x : Result Int) = .ok y) : y = x :=
  hx.elim (fun hc => i128_checked hc h) (i128_exact h)

theorem i128_nonneg_eq (d : Deployment) {x : Int} (h0 : 0 ≤ x) (hx : x ≤ i128Max) :
    (d.i128 x : Result Int) = .ok x :=
  i128_of_in d (inI128_iff.mpr ⟨by omega, hx⟩)

variable {m : RangeMeter Int Int} {history : List (Int × Int)}

/-- What lies beyond a boundary is between zero and the total. -/
theorem outside_bounds (h : m.Records history) (hpos : ∀ g ∈ history, 0 ≤ g.2) (t : Int) :
    0 ≤ m.outside t ∧ m.outside t ≤ m.total := by
  have hb := sumBelow_bounds hpos t
  rw [← h.below, ← h.total] at hb
  unfold RangeMeter.below at hb
  split at hb <;> omega

/-- **The growth inside a range**, as `fee_growth_inside` computes it, is that of the meter. -/
theorem growthInside_eq (d : Deployment) (h : m.Records history) (hpos : ∀ g ∈ history, 0 ≤ g.2)
    (hmax : m.total ≤ i128Max) {lower upper : Int} (hle : lower ≤ upper) :
    growthInside d m.total (m.outside lower) (m.outside upper) m.current lower upper =
      .ok (sumIn lower upper history) := by
  have hsum := h.inside_eq hle
  have h0 := sumIn_nonneg hpos lower upper
  rw [← hsum] at h0 ⊢
  have hlow := outside_bounds h hpos lower
  have hup := outside_bounds h hpos upper
  have hbelow := sumBelow_bounds hpos lower
  have hbelow' := sumBelow_bounds hpos upper
  rw [← h.below, ← h.total] at hbelow hbelow'
  have hfirst : growthBeyond d m.total (m.outside lower) (lower ≤ m.current) =
      (.ok (m.below lower) : Result Int) := by
    unfold growthBeyond RangeMeter.below
    by_cases hc : lower ≤ m.current
    · rw [if_pos (decide_eq_true hc), if_pos hc]
    · rw [if_neg (by simpa using hc), if_neg hc]
      exact i128_nonneg_eq d (by omega) (by omega)
  have hsecond : growthBeyond d m.total (m.outside upper) (m.current < upper) =
      (.ok (m.total - m.below upper) : Result Int) := by
    unfold growthBeyond RangeMeter.below
    by_cases hc : m.current < upper
    · rw [if_pos (decide_eq_true hc), if_neg (not_le.mpr hc), sub_sub_cancel]
    · rw [if_neg (by simpa using hc), if_pos (not_lt.mp hc)]
      exact i128_nonneg_eq d (by omega) (by omega)
  unfold growthInside
  rw [hfirst, hsecond]
  show (do
    let rest ← d.i128 (m.total - m.below lower)
    d.i128 (rest - (m.total - m.below upper)) : Result Int) = _
  rw [i128_nonneg_eq d (by omega) (by omega)]
  show d.i128 (m.total - m.below lower - (m.total - m.below upper)) = _
  unfold RangeMeter.inside at h0 ⊢
  have heq : m.total - m.below lower - (m.total - m.below upper) = m.below upper - m.below lower := by
    omega
  rw [heq]
  exact i128_nonneg_eq d h0 (by omega)

/-- An accrual credits the liquidity's share of the growth since the last one. -/
theorem accrueOwed_exact {owed liquidity last now owed' : Int}
    (h : accrueOwed d owed liquidity last now = .ok owed') (hlast : 0 ≤ last) (hle : last ≤ now)
    (hnow : now ≤ i128Max) (hscaled : Exact d (liquidity * (now - last)))
    (howed : Exact d (owed + (liquidity * (now - last)).tdiv q64)) :
    owed' = owed + (liquidity * (now - last)).tdiv q64 := by
  unfold accrueOwed at h
  rw [i128_nonneg_eq d (by omega) (by omega)] at h
  change (if 0 < now - last then _ else _) = _ at h
  split at h
  · simp only [bind_eq_ok] at h
    obtain ⟨scaled, hs, h⟩ := h
    rw [exact_of_ok hscaled hs] at h
    exact exact_of_ok howed h
  · next hzero =>
    have hnone : now - last = 0 := by omega
    cases h
    rw [hnone, mul_zero, Int.zero_tdiv, add_zero]

end Arithmetic

/-! ## A swap -/

theorem readTickFeeOutside_write (s : State) (key k : PoolKey) (tick t value : Int) (isA a : Bool) :
    readTickFeeOutside (writeTickFeeOutside s key tick isA value) k t a =
      if (k, t, a) = (key, tick, isA) then value else readTickFeeOutside s k t a := by
  unfold readTickFeeOutside writeTickFeeOutside
  rw [Store.lookup_insert_eq]
  split <;> rfl

section Swap

variable {d : Deployment} {s s' : State} {key : PoolKey} {pool : PoolState}

/-- Crossing flips one tick of one pool, for both tokens. -/
theorem crossTick_outside {tick : Int} (h : crossTick d s key pool tick = .ok s')
    (hin : ∀ isA, InI128 (pool.growth isA - readTickFeeOutside s key tick isA)) (k : PoolKey) (t : Int)
    (isA : Bool) : readTickFeeOutside s' k t isA =
      if k = key ∧ t = tick then pool.growth isA - readTickFeeOutside s key tick isA
      else readTickFeeOutside s k t isA := by
  simp only [crossTick, bind_eq_ok, pure_eq_ok] at h
  obtain ⟨outsideA, hA, outsideB, hB, rfl⟩ := h
  rw [i128_exact hA (hin true), i128_exact hB (hin false), readTickFeeOutside_write,
    readTickFeeOutside_write]
  simp only [Prod.mk.injEq]
  by_cases hk : k = key ∧ t = tick
  · rw [if_pos hk]
    cases isA
    · exact if_pos ⟨hk.1, hk.2, rfl⟩
    · rw [if_neg (fun hf => by cases hf.2.2), if_pos ⟨hk.1, hk.2, rfl⟩]
      rfl
  · rw [if_neg hk, if_neg (fun hf => hk ⟨hf.1, hf.2.1⟩), if_neg (fun hf => hk ⟨hf.1, hf.2.1⟩)]

/-- The tick that a swap flips when it moves. -/
def boundary (pool : PoolState) (zeroForOne : Bool) : Int :=
  if zeroForOne then pool.currentTick else targetTick pool zeroForOne

theorem crossIfMoved_outside {zeroForOne : Bool} {newTick : Int} (h : crossIfMoved d s key pool zeroForOne newTick = .ok s')
    (hin : ∀ isA, InI128 (pool.growth isA - readTickFeeOutside s key (boundary pool zeroForOne) isA))
    (k : PoolKey) (t : Int) (isA : Bool) : readTickFeeOutside s' k t isA =
      if newTick ≠ pool.currentTick ∧ k = key ∧ t = boundary pool zeroForOne then
        pool.growth isA - readTickFeeOutside s key (boundary pool zeroForOne) isA
      else readTickFeeOutside s k t isA := by
  unfold crossIfMoved at h
  by_cases hmoved : newTick ≠ pool.currentTick
  · have h : crossTick d s key pool (boundary pool zeroForOne) = .ok s' := by
      rw [if_pos hmoved] at h
      exact h
    rw [crossTick_outside h hin]
    by_cases hk : k = key ∧ t = boundary pool zeroForOne
    · rw [if_pos hk]
      exact (if_pos ⟨hmoved, hk⟩).symm
    · rw [if_neg hk]
      exact (if_neg fun hf => hk hf.2).symm
  · rw [if_neg hmoved] at h
    cases h
    rw [if_neg (fun hf => hmoved hf.1)]

theorem accumulateFeeGrowth_exact {fee liquidity global growth : Int} (hL : liquidity ≠ 0)
    (h : accumulateFeeGrowth d fee liquidity global = .ok growth) (hscaled : Exact d (fee * q64))
    (hsum : Exact d (global + (fee * q64).tdiv liquidity)) :
    growth = global + (fee * q64).tdiv liquidity := by
  unfold accumulateFeeGrowth at h
  rw [if_neg hL] at h
  simp only [divI128, bind_eq_ok, require_eq_ok, exists_unit_and, ofOption_eq_ok] at h
  obtain ⟨scaled, hs, increment, ⟨-, hdiv⟩, h⟩ := h
  rw [exact_of_ok hscaled hs] at hdiv
  have hincr : increment = (fee * q64).tdiv liquidity := by
    rcases Checked.signed_cases hdiv with ⟨-, heq⟩ | ⟨-, hf, -⟩
    · exact heq
    · cases hf
  rw [hincr] at h
  exact exact_of_ok hsum h

/-- The fee is accumulated in the token sold. -/
theorem swapFeeGrowth_side {zeroForOne : Bool} {fee growthA growthB : Int}
    (h : swapFeeGrowth d pool zeroForOne fee = .ok (growthA, growthB)) :
    accumulateFeeGrowth d fee pool.liquidity (pool.growth zeroForOne) =
        .ok (side zeroForOne (growthA, growthB)) ∧
      ∀ isA, zeroForOne ≠ isA → side isA (growthA, growthB) = pool.growth isA := by
  unfold swapFeeGrowth at h
  cases zeroForOne
  · simp only [Bool.false_eq_true, if_false, bind_eq_ok, pure_eq_ok] at h
    obtain ⟨growth, hg, heq⟩ := h
    obtain ⟨rfl, rfl⟩ := Prod.mk.inj heq
    refine ⟨hg, ?_⟩
    intro isA hne
    cases isA
    · exact absurd rfl hne
    · rfl
  · simp only [if_true, bind_eq_ok, pure_eq_ok] at h
    obtain ⟨growth, hg, heq⟩ := h
    obtain ⟨rfl, rfl⟩ := Prod.mk.inj heq
    refine ⟨hg, ?_⟩
    intro isA hne
    cases isA
    · rfl
    · exact absurd rfl hne

theorem swapFeeGrowth_exact {zeroForOne : Bool} {fee growthA growthB : Int} (hL : pool.liquidity ≠ 0)
    (h : swapFeeGrowth d pool zeroForOne fee = .ok (growthA, growthB))
    (hscaled : Exact d (fee * q64))
    (hsum : Exact d (pool.growth zeroForOne + (fee * q64).tdiv pool.liquidity)) (isA : Bool) :
    side isA (growthA, growthB) = pool.growth isA +
      ((if zeroForOne = isA then fee else 0) * q64).tdiv pool.liquidity := by
  obtain ⟨hsold, hother⟩ := swapFeeGrowth_side h
  by_cases heq : zeroForOne = isA
  · subst heq
    rw [if_pos rfl]
    exact accumulateFeeGrowth_exact hL hsold hscaled hsum
  · rw [if_neg heq, hother isA heq, zero_mul, Int.zero_tdiv, add_zero]

theorem swapFeeGrowth_bounded {zeroForOne : Bool} {fee growthA growthB : Int}
    (hL : pool.liquidity ≠ 0) (h : swapFeeGrowth d pool zeroForOne fee = .ok (growthA, growthB))
    (isA : Bool) (hmax : pool.growth isA ≤ i128Max) : side isA (growthA, growthB) ≤ i128Max := by
  obtain ⟨hsold, hother⟩ := swapFeeGrowth_side h
  by_cases heq : zeroForOne = isA
  · subst heq
    unfold accumulateFeeGrowth at hsold
    rw [if_neg hL] at hsold
    simp only [bind_eq_ok] at hsold
    obtain ⟨scaled, -, increment, -, hsold⟩ := hsold
    exact (inI128_iff.mp (i128_inI128 hsold)).2
  · rw [hother isA heq]
    exact hmax

/-- The fee of a swap is not negative. -/
theorem quoteSwap_fee_nonneg {zeroForOne : Bool} {amountIn : Int} {step : SwapStep}
    (h : quoteSwap d pool zeroForOne amountIn = .ok step) (hpos : 0 < amountIn)
    (hexact : Exact d (amountIn * pool.dynamicFeeBps)) : 0 ≤ step.feePaid := by
  obtain ⟨target, scaledFee, rest, -, hfee, hpaid, -⟩ := quoteSwap_step h
  rw [hpaid, exact_of_ok hexact hfee]
  exact Int.tdiv_nonneg (mul_nonneg hpos.le (Int.natCast_nonneg _)) (by decide)

end Swap

/-! ## Calls that add to no growth -/

def Call.isSwap : Call → Bool
  | .swap .. => true
  | _ => false

/-- Fee growths and ticks are as they were, and new pools start without growth. -/
structure Level (s s' : State) : Prop where
  tickFees : s'.tickFees = s.tickFees
  pool : ∀ key pool', readPool s' key = some pool' →
    (∃ pool, readPool s key = some pool ∧ pool'.sqrtPrice = pool.sqrtPrice ∧
      pool'.currentTick = pool.currentTick ∧ ∀ isA, pool'.growth isA = pool.growth isA) ∨
    (readPool s key = none ∧ pool'.currentTick = sqrtPriceToTick pool'.sqrtPrice ∧
      ∀ isA, pool'.growth isA = 0)
  kept : ∀ key, readPool s' key = none → readPool s key = none

/-- A call that writes one pool: again, with its price, tick and growths, or a new one. -/
theorem Level.write {s s' : State} {key : PoolKey} {pool' : PoolState}
    (htick : s'.tickFees = s.tickFees) (hpools : s'.pools = s.pools.insert key pool')
    (hpool : (∃ pool, readPool s key = some pool ∧ pool'.sqrtPrice = pool.sqrtPrice ∧
        pool'.currentTick = pool.currentTick ∧ ∀ isA, pool'.growth isA = pool.growth isA) ∨
      (readPool s key = none ∧ pool'.currentTick = sqrtPriceToTick pool'.sqrtPrice ∧
        ∀ isA, pool'.growth isA = 0)) : Level s s' := by
  refine ⟨htick, ?_, ?_⟩
  · intro k p hr
    rw [readPool_of_insert hpools] at hr
    split at hr
    · next hk =>
      cases hr
      rw [hk]
      exact hpool
    · exact .inl ⟨p, hr, rfl, rfl, fun _ => rfl⟩
  · intro k hr
    rw [readPool_of_insert hpools] at hr
    split at hr
    · cases hr
    · exact hr

theorem Level.same {s s' : State} (htick : s'.tickFees = s.tickFees) (hpools : s'.pools = s.pools) :
    Level s s' := by
  refine ⟨htick, ?_, ?_⟩
  · unfold readPool
    rw [hpools]
    exact fun key pool' hr => .inl ⟨pool', hr, rfl, rfl, fun _ => rfl⟩
  · unfold readPool
    rw [hpools]
    exact fun key hr => hr

theorem activate_level {d : Deployment} {pool pool' : PoolState} {lower upper x : Int}
    (h : activate d pool lower upper x = .ok pool') : pool'.sqrtPrice = pool.sqrtPrice ∧
      pool'.currentTick = pool.currentTick ∧ pool'.feeGrowthGlobalA = pool.feeGrowthGlobalA ∧
      pool'.feeGrowthGlobalB = pool.feeGrowthGlobalB := by
  obtain ⟨active, ⟨-, total, -, rfl⟩ | ⟨-, rfl⟩⟩ := activate_ok h <;> exact ⟨rfl, rfl, rfl, rfl⟩

theorem deactivate_level {d : Deployment} {pool pool' : PoolState} {lower upper x : Int}
    (h : deactivate d pool lower upper x = .ok pool') : pool'.sqrtPrice = pool.sqrtPrice ∧
      pool'.currentTick = pool.currentTick ∧ pool'.feeGrowthGlobalA = pool.feeGrowthGlobalA ∧
      pool'.feeGrowthGlobalB = pool.feeGrowthGlobalB := by
  obtain ⟨-, total, active, -, rfl⟩ | ⟨-, rfl⟩ := deactivate_ok h <;> exact ⟨rfl, rfl, rfl, rfl⟩

theorem growth_congr {pool pool' : PoolState} (hA : pool'.feeGrowthGlobalA = pool.feeGrowthGlobalA)
    (hB : pool'.feeGrowthGlobalB = pool.feeGrowthGlobalB) (isA : Bool) :
    pool'.growth isA = pool.growth isA := by
  unfold PoolState.growth
  rw [hA, hB]

/-- Only swaps touch the fee growths. -/
theorem level_step {env : Env} {call : Call} {r : Reply} {s s' : State} (hc : call.isSwap = false)
    (hx : exec env call s = .ok (r, s')) : Level s s' := by
  cases call with
  | swap => cases hc
  | createPool caller key feeTier price =>
    obtain ⟨-, -, hnone, rfl⟩ := createPool_ok (done_ok.mp hx).1
    refine Level.write rfl rfl (.inr ⟨hnone, rfl, ?_⟩)
    intro isA
    cases isA <;> rfl
  | addLiquidity caller key offer minA minB =>
    obtain ⟨a, hx, -⟩ := reply_ok.mp hx
    obtain ⟨-, pool, deposit, t₁, t₂, pool₁, insideA, insideB, reserveA, reserveB, pool₂, owners, hp,
      -, -, -, hact, -, -, hlock, -, rfl⟩ := addLiquidity_ok hx
    obtain ⟨ra, rb, -, -, rfl⟩ := lockReserve_ok hlock
    obtain ⟨hprice, htick, hA, hB⟩ := activate_level hact
    exact Level.write rfl rfl (.inl ⟨pool, hp, hprice, htick, growth_congr hA hB⟩)
  | removeLiquidity caller positionId x minA minB =>
    obtain ⟨a, hx, -⟩ := reply_ok.mp hx
    obtain ⟨-, old, pool, insideA, insideB, position, outA, outB, hedgeA, hedgeB, pool₁, sumA, sumB,
      pool₂, t₁, t₂, owners, -, -, -, hp, -, -, -, -, hunlock, -, -, hde, -, -, -, rfl⟩ :=
      removeLiquidity_ok hx
    obtain ⟨ra, rb, -, -, rfl⟩ := unlockReserve_ok hunlock
    obtain ⟨hprice, htick, hA, hB⟩ := deactivate_level hde
    exact Level.write rfl rfl (.inl ⟨pool, hp, hprice, htick, growth_congr hA hB⟩)
  | collectFees caller positionId =>
    obtain ⟨a, hx, -⟩ := reply_ok.mp hx
    obtain ⟨-, old, pool, insideA, insideB, position, t₁, t₂, -, -, -, -, -, -, -, -, rfl⟩ :=
      collectFees_ok hx
    exact Level.same rfl rfl
  | updateDynamicFee key =>
    obtain ⟨n, hx, -⟩ := reply_ok.mp hx
    obtain ⟨pool, hp, -, rfl⟩ := updateDynamicFee_ok hx
    exact Level.write rfl rfl (.inl ⟨pool, hp, rfl, rfl, fun _ => rfl⟩)
  | init | pause | unpause | proposeUpgrade | approveUpgrade | executeUpgrade | rejectUpgrade
  | cancelUpgrade | token =>
    have hi := exec_idle rfl hx
    exact Level.same hi.tickFees hi.pools

/-! ## What a call leaves of a position -/

/-- The call mints the position or accrues its fees. -/
def settles (id : Nat) (e : Event Env Call Reply State) : Bool :=
  match e.call, e.ret with
  | .addLiquidity .., .added r => r.positionId = id
  | .removeLiquidity _ positionId _ _ _, _ => positionId = id
  | .collectFees _ positionId, _ => positionId = id
  | _, _ => false

theorem addLiquidity_range {env : Env} {s s' : State} {caller : Address} {key : PoolKey}
    {offer : Offer} {minA minB : Int} {r : AddLiquidityResult}
    (h : addLiquidity env s caller key offer minA minB = .ok (r, s')) :
    offer.tickLower < offer.tickUpper := by
  simp only [addLiquidity, bind_eq_ok, require_eq_ok, exists_unit_and] at h
  obtain ⟨-, -, -, hrange, -⟩ := h
  exact hrange

/-- A position that a call settles stands at the fee growth of the moment. -/
structure SettledAt (d : Deployment) (s : State) (id : Nat) (p : LpPosition) : Prop where
  range : p.tickLower < p.tickUpper ∨ ∃ old, readPosition s id = some old ∧
    p.tickLower = old.tickLower ∧ p.tickUpper = old.tickUpper
  growth : ∃ pool, readPool s p.poolKey = some pool ∧
    feeGrowthInside d s p.poolKey pool p.tickLower p.tickUpper =
      .ok (p.feeGrowthInsideALast, p.feeGrowthInsideBLast)

/-- **A call leaves a position as it was, or settles it.** -/
theorem position_step {env : Env} {call : Call} {r : Reply} {s s' : State} (hw : Wf s)
    (hx : exec env call s = .ok (r, s')) {id : Nat} {p : LpPosition}
    (hp : readPosition s' id = some p) :
    (settles id ⟨env, call, r, s, s'⟩ = false ∧ readPosition s id = some p) ∨
    (settles id ⟨env, call, r, s, s'⟩ = true ∧ call.isSwap = false ∧
      SettledAt env.toDeployment s id p) := by
  cases call with
  | createPool caller key feeTier price =>
    obtain ⟨-, -, hnone, rfl⟩ := createPool_ok (done_ok.mp hx).1
    exact .inl ⟨rfl, hp⟩
  | addLiquidity caller key offer minA minB =>
    obtain ⟨a, hcall, rfl⟩ := reply_ok.mp hx
    have hrange := addLiquidity_range hcall
    obtain ⟨-, pool, deposit, t₁, t₂, pool₁, insideA, insideB, reserveA, reserveB, pool₂, owners,
      hpool, -, -, -, hact, hin, -, -, rfl, rfl⟩ := addLiquidity_ok hcall
    have hp : (s.positions.insert _ _).lookup id = some p := hp
    rw [Store.lookup_insert_eq] at hp
    split at hp
    · next hid =>
      cases hp
      refine .inr ⟨decide_eq_true hid.symm, rfl, .inl hrange, pool, hpool, ?_⟩
      obtain ⟨-, htick, hA, hB⟩ := activate_level hact
      unfold feeGrowthInside at hin ⊢
      rw [htick, hA, hB] at hin
      exact hin
    · next hid => exact .inl ⟨decide_eq_false (fun h => hid h.symm), hp⟩
  | removeLiquidity caller positionId x minA minB =>
    obtain ⟨a, hcall, rfl⟩ := reply_ok.mp hx
    obtain ⟨-, old, pool, insideA, insideB, position, outA, outB, hedgeA, hedgeB, pool₁, sumA, sumB,
      pool₂, t₁, t₂, owners, hold, -, -, hpool, hin, hacc, -, -, -, -, -, -, -, -, -, rfl⟩ :=
      removeLiquidity_ok hcall
    obtain ⟨owedA, owedB, -, -, rfl⟩ := accruePositionFees_ok hacc
    have hid : old.id = positionId := (hw.position positionId old hold).1
    have hp : (restPositions s _).lookup id = some p := hp
    rw [lookup_restPositions] at hp
    split at hp
    · next heq =>
      have heq : id = old.id := heq
      split at hp
      · cases hp
      · cases hp
        refine .inr ⟨decide_eq_true (by omega), rfl, .inr ⟨old, ?_, rfl, rfl⟩, pool, hpool, hin⟩
        rw [heq, hid]
        exact hold
    · next hne =>
      have hne : id ≠ old.id := hne
      exact .inl ⟨decide_eq_false (by omega), hp⟩
  | collectFees caller positionId =>
    obtain ⟨a, hcall, rfl⟩ := reply_ok.mp hx
    obtain ⟨-, old, pool, insideA, insideB, position, t₁, t₂, hold, hpool, hin, hacc, -, -, -, -,
      rfl⟩ := collectFees_ok hcall
    obtain ⟨owedA, owedB, -, -, rfl⟩ := accruePositionFees_ok hacc
    have hid : old.id = positionId := (hw.position positionId old hold).1
    have hp : (s.positions.insert _ _).lookup id = some p := hp
    rw [Store.lookup_insert_eq] at hp
    split at hp
    · next heq =>
      cases hp
      refine .inr ⟨decide_eq_true (by omega), rfl, .inr ⟨old, ?_, rfl, rfl⟩, pool, hpool, hin⟩
      rw [heq, hid]
      exact hold
    · next hne => exact .inl ⟨decide_eq_false (by omega), hp⟩
  | swap caller tokenIn tokenOut amountIn minOut =>
    obtain ⟨a, hcall, rfl⟩ := reply_ok.mp hx
    obtain ⟨-, -, pool, step, growthA, growthB, s₁, volume, t₁, t₂, fees, samples, -, -, -, -, -, -, -,
      -, -, rfl⟩ := swap_ok hcall
    exact .inl ⟨rfl, hp⟩
  | updateDynamicFee key =>
    obtain ⟨n, hcall, rfl⟩ := reply_ok.mp hx
    obtain ⟨pool, -, -, rfl⟩ := updateDynamicFee_ok hcall
    exact .inl ⟨rfl, hp⟩
  | init | pause | unpause | proposeUpgrade | approveUpgrade | executeUpgrade | rejectUpgrade
  | cancelUpgrade | token =>
    have hi := exec_idle rfl hx
    refine .inl ⟨rfl, ?_⟩
    unfold readPosition at hp ⊢
    rw [← hi.positions]
    exact hp

end Stellara.Amm
