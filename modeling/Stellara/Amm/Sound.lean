import Stellara.Amm.Flows

/-!
# Sound calls of the AMM (`contracts/amm/src/lib.rs`)

Should hold: the tokens in the contract for a pool cover what closing its positions pays,
the fees credited to them and the recorded hedge reserve (`Solvent`).  It fails: the fee of
a swap is credited and not collected, a hedge reserve is recorded and not funded, a sale of
token A is paid up to the target price whatever it brings, a swap trades liquidity that is
not in range, and amounts are rounded against the pool.

`SoundStep` excludes these, call by call.  While only sound calls are made, nothing is
credited or reserved (`NoFees`).
-/

namespace Stellara.Amm

open Outcome

/-- The position as `collect_fees` would find it. -/
def accrued (d : Deployment) (s : State) (pool : PoolState) (p : LpPosition) : Result LpPosition := do
  let (insideA, insideB) ← feeGrowthInside d s p.poolKey pool p.tickLower p.tickUpper
  accruePositionFees d p insideA insideB

/-- What collecting the fees of a position would pay. -/
def credit (d : Deployment) (s : State) (pool : PoolState) (isA : Bool) (p : LpPosition) : Int :=
  match accrued d s pool p with
  | .ok q => max (side isA (q.tokensOwedA, q.tokensOwedB)) 0
  | .error _ => max (side isA (p.tokensOwedA, p.tokensOwedB)) 0

/-- The fees credited to the positions of a pool. -/
def credited (d : Deployment) (s : State) (key : PoolKey) (pool : PoolState) (isA : Bool) : Int :=
  Store.total (fun _ p => if p.poolKey = key then credit d s pool isA p else 0) s.positions

/-- The recorded hedge reserve. -/
def reserve (isA : Bool) (pool : PoolState) : Int := side isA (pool.ilReserveA, pool.ilReserveB)

/-- The contract holds what it owes to every pool in both of its tokens. -/
def Solvent (d : Deployment) (tr : Trace) (s : State) : Prop :=
  ∀ key pool isA, readPool s key = some pool →
    closing d s.positions key isA pool.sqrtPrice + credited d s key pool isA + reserve isA pool ≤
      holdings key isA tr

/-! ## Sound calls -/

/-- The deposit locks no hedge reserve. -/
def NoReserve (d : Deployment) (s : State) (key : PoolKey) (offer : Offer) : Prop :=
  ∀ pool ∈ readPool s key, ∀ deposit ∈ (quoteDeposit d pool offer).toOption,
    ∀ amounts ∈ (quoteReserve d pool offer.tickLower offer.tickUpper deposit.amountA
      deposit.amountB).toOption, amounts = (0, 0)

/-- The position is closed, or no product in its amounts is clamped. -/
def RemovalExact (s : State) (positionId : Nat) (liquidityToRemove : Int) : Prop :=
  ∀ p ∈ readPosition s positionId, ∀ pool ∈ readPool s p.poolKey,
    liquidityToRemove = p.liquidity ∨ Unclamped p pool.sqrtPrice

/-- A move to the price takes less than a unit of either token out of the dust, and a move to
the target, whose input is rounded down, nothing of the token sold. -/
def DustKept (d : Deployment) (positions : Store Nat LpPosition) (key : PoolKey) (pool : PoolState)
    (targetSqrtPrice amountIn newSqrtPrice : Int) : Prop :=
  (∀ isA, dust d positions key isA pool.sqrtPrice < dust d positions key isA newSqrtPrice + 1) ∧
  (maxIn pool.sqrtPrice targetSqrtPrice pool.liquidity ≤ amountIn →
    dust d positions key (targetSqrtPrice < pool.sqrtPrice) pool.sqrtPrice ≤
      dust d positions key (targetSqrtPrice < pool.sqrtPrice) newSqrtPrice)

/-- A move to the price that the positions can pay for. -/
def MoveSound (d : Deployment) (positions : Store Nat LpPosition) (key : PoolKey) (pool : PoolState)
    (zeroForOne : Bool) (targetSqrtPrice amountIn newSqrtPrice : Int) : Prop :=
  newSqrtPrice = pool.sqrtPrice ∨
    (decide (targetSqrtPrice < pool.sqrtPrice) = zeroForOne ∧
      InBand positions key pool newSqrtPrice ∧
      MaxInExact pool.sqrtPrice targetSqrtPrice pool.liquidity amountIn ∧
      DustKept d positions key pool targetSqrtPrice amountIn newSqrtPrice)

/-- The swap is charged no fee, and its move is sound. -/
def SwapSound (d : Deployment) (s : State) (key : PoolKey) (zeroForOne : Bool) (amountIn : Int) :
    Prop :=
  ∀ pool ∈ readPool s key, amountIn * pool.dynamicFeeBps < 10000 ∧
    ∀ target ∈ (tickToSqrtPrice (targetTick pool zeroForOne)).toOption,
      MoveSound d s.positions key pool zeroForOne target amountIn
        (stepTo pool.sqrtPrice target pool.liquidity amountIn).1

/-- What a call has to meet to keep the pools solvent. -/
def SoundCall (d : Deployment) (s : State) : Call → Prop
  | .addLiquidity _ key offer _ _ => NoReserve d s key offer
  | .removeLiquidity _ positionId liquidityToRemove _ _ => RemovalExact s positionId liquidityToRemove
  | .swap _ tokenIn tokenOut amountIn _ =>
    SwapSound d s (swapKey tokenIn tokenOut) (decide (tokenIn < tokenOut)) amountIn
  | _ => True

/-- The condition on a call of a run, read in the state before it. -/
def SoundStep (e : Event Env Call Reply State) : Prop :=
  SoundCall e.env.toDeployment e.before e.call

instance (d : Deployment) (s : State) (key : PoolKey) (offer : Offer) :
    Decidable (NoReserve d s key offer) := by
  unfold NoReserve; infer_instance

instance (s : State) (positionId : Nat) (x : Int) : Decidable (RemovalExact s positionId x) := by
  unfold RemovalExact; infer_instance

instance (d : Deployment) (positions : Store Nat LpPosition) (key : PoolKey) (pool : PoolState)
    (target amountIn new : Int) : Decidable (DustKept d positions key pool target amountIn new) :=
  inferInstanceAs (Decidable (_ ∧ _))

instance (d : Deployment) (positions : Store Nat LpPosition) (key : PoolKey) (pool : PoolState)
    (zeroForOne : Bool) (target amountIn new : Int) :
    Decidable (MoveSound d positions key pool zeroForOne target amountIn new) :=
  inferInstanceAs (Decidable (_ ∨ _))

instance (d : Deployment) (s : State) (key : PoolKey) (zeroForOne : Bool) (amountIn : Int) :
    Decidable (SwapSound d s key zeroForOne amountIn) := by
  unfold SwapSound; infer_instance

instance (d : Deployment) (s : State) (call : Call) : Decidable (SoundCall d s call) := by
  induction call using Call.casesOn <;> unfold SoundCall <;> infer_instance

instance (e : Event Env Call Reply State) : Decidable (SoundStep e) :=
  inferInstanceAs (Decidable (SoundCall _ _ _))

/-! ## Nothing credited, nothing reserved -/

/-- A pool that has collected no fee and no reserve. -/
structure PoolState.Bare (pool : PoolState) : Prop where
  price : 0 < pool.sqrtPrice
  tier : 0 < pool.feeTier
  fee : 0 < pool.dynamicFeeBps
  growthA : pool.feeGrowthGlobalA = 0
  growthB : pool.feeGrowthGlobalB = 0
  reserveA : pool.ilReserveA = 0
  reserveB : pool.ilReserveB = 0

/-- A position that is owed nothing. -/
structure LpPosition.Bare (p : LpPosition) : Prop where
  owedA : p.tokensOwedA = 0
  owedB : p.tokensOwedB = 0
  lastA : p.feeGrowthInsideALast = 0
  lastB : p.feeGrowthInsideBLast = 0

/-- No fee was ever credited and no reserve recorded. -/
structure NoFees (s : State) : Prop where
  pool : ∀ key pool, readPool s key = some pool → pool.Bare
  position : ∀ id p, readPosition s id = some p → p.Bare
  tick : ∀ key tick isA, readTickFeeOutside s key tick isA = 0

theorem i128_zero (d : Deployment) : (d.i128 0 : Result Int) = .ok 0 := i128_of_in d (by decide)

theorem growthInside_zero (d : Deployment) (currentTick tickLower tickUpper : Int) :
    growthInside d 0 0 0 currentTick tickLower tickUpper = .ok 0 := by
  have hbeyond : ∀ stored, growthBeyond d 0 0 stored = .ok 0 := by
    intro stored
    unfold growthBeyond
    split
    · rfl
    · rw [sub_zero, i128_zero]
  simp [growthInside, hbeyond, i128_zero, ok_bind]

theorem accrueOwed_zero (d : Deployment) (liquidity : Int) : accrueOwed d 0 liquidity 0 0 = .ok 0 := by
  simp [accrueOwed, i128_zero, ok_bind]

theorem accruePositionFees_bare (d : Deployment) {p : LpPosition} (h : p.Bare) :
    accruePositionFees d p 0 0 = .ok p := by
  obtain ⟨hoA, hoB, hlA, hlB⟩ := h
  cases p
  subst hoA hoB hlA hlB
  simp only [accruePositionFees, accrueOwed_zero, ok_bind]
  rfl

section Bare

variable {d : Deployment} {s s' : State} {key : PoolKey} {pool pool' : PoolState}

theorem feeGrowthInside_zero (h : NoFees s) (hA : pool.feeGrowthGlobalA = 0)
    (hB : pool.feeGrowthGlobalB = 0) (d : Deployment) (key : PoolKey) (lower upper : Int) :
    feeGrowthInside d s key pool lower upper = .ok (0, 0) := by
  unfold feeGrowthInside
  simp only [h.tick, hA, hB, growthInside_zero, ok_bind]
  rfl

/-- What is owed does not grow without fees. -/
theorem accrue_eq_self (h : NoFees s) (hp : pool.Bare) {old position : LpPosition}
    (hold : old.Bare) {lower upper insideA insideB : Int}
    (hin : feeGrowthInside d s key pool lower upper = .ok (insideA, insideB))
    (hacc : accruePositionFees d old insideA insideB = .ok position) : position = old := by
  rw [feeGrowthInside_zero h hp.growthA hp.growthB] at hin
  cases hin
  rw [accruePositionFees_bare d hold] at hacc
  cases hacc
  rfl

theorem credited_eq_zero (h : NoFees s) (hp : pool.Bare) (isA : Bool) :
    credited d s key pool isA = 0 := by
  apply Store.total_zero
  intro id p hr
  have hbare := h.position id p hr
  have haccrued : accrued d s pool p = .ok p := by
    unfold accrued
    rw [feeGrowthInside_zero h hp.growthA hp.growthB]
    exact accruePositionFees_bare d hbare
  have hcredit : credit d s pool isA p = 0 := by
    unfold credit
    rw [haccrued]
    show max (side isA (p.tokensOwedA, p.tokensOwedB)) 0 = 0
    rw [hbare.owedA, hbare.owedB]
    cases isA <;> rfl
  rw [hcredit, ite_self]

theorem reserve_eq_zero (hp : pool.Bare) (isA : Bool) : reserve isA pool = 0 := by
  unfold reserve
  rw [hp.reserveA, hp.reserveB]
  cases isA <;> rfl

/-- A call that writes one pool and positions, and no fee growth. -/
theorem NoFees.update (h : NoFees s) (hpools : s'.pools = s.pools.insert key pool)
    (hpool : pool.Bare) (hpos : ∀ id p, readPosition s' id = some p → p.Bare)
    (htick : ∀ key tick isA, readTickFeeOutside s' key tick isA = 0) : NoFees s' := by
  refine ⟨?_, hpos, htick⟩
  intro k p hr
  unfold readPool at hr
  rw [hpools, Store.lookup_insert_eq] at hr
  split at hr
  · cases hr
    exact hpool
  · exact h.pool k p hr

theorem NoFees.idle {call : Call} (h : NoFees s) (hi : Idle call s s') : NoFees s' := by
  constructor
  · unfold readPool
    rw [hi.pools]
    exact h.pool
  · unfold readPosition
    rw [hi.positions]
    exact h.position
  · unfold readTickFeeOutside
    rw [hi.tickFees]
    exact h.tick

theorem activate_bare {lower upper x : Int} (hp : pool.Bare)
    (h : activate d pool lower upper x = .ok pool') : pool'.Bare := by
  obtain ⟨active, ⟨-, total, -, rfl⟩ | ⟨-, rfl⟩⟩ := activate_ok h
  · exact ⟨hp.price, hp.tier, hp.fee, hp.growthA, hp.growthB, hp.reserveA, hp.reserveB⟩
  · exact ⟨hp.price, hp.tier, hp.fee, hp.growthA, hp.growthB, hp.reserveA, hp.reserveB⟩

theorem deactivate_bare {lower upper x : Int} (hp : pool.Bare)
    (h : deactivate d pool lower upper x = .ok pool') : pool'.Bare := by
  obtain ⟨-, total, active, -, rfl⟩ | ⟨-, rfl⟩ := deactivate_ok h
  · exact ⟨hp.price, hp.tier, hp.fee, hp.growthA, hp.growthB, hp.reserveA, hp.reserveB⟩
  · exact hp

theorem lockReserve_bare (hp : pool.Bare) (h : lockReserve d pool 0 0 = .ok pool') : pool'.Bare := by
  obtain ⟨ra, rb, hA, hB, rfl⟩ := lockReserve_ok h
  rw [hp.reserveA, add_zero] at hA
  rw [hp.reserveB, add_zero] at hB
  exact ⟨hp.price, hp.tier, hp.fee, hp.growthA, hp.growthB, i128_exact hA (by decide), i128_exact hB (by decide)⟩

theorem unlockReserve_bare (hp : pool.Bare) (h : unlockReserve d pool 0 0 = .ok pool') :
    pool'.Bare := by
  obtain ⟨ra, rb, hA, hB, rfl⟩ := unlockReserve_ok h
  rw [hp.reserveA, sub_zero] at hA
  rw [hp.reserveB, sub_zero] at hB
  have hA := i128_exact hA (by decide)
  have hB := i128_exact hB (by decide)
  refine ⟨hp.price, hp.tier, hp.fee, hp.growthA, hp.growthB, ?_, ?_⟩
  · show max ra 0 = 0
    omega
  · show max rb 0 = 0
    omega

/-- With no reserve nothing is released. -/
theorem computeHedgeRelease_bare {x total : Int} {amounts : Int × Int} (hp : pool.Bare)
    (h : computeHedgeRelease d pool x total = .ok amounts) : amounts = (0, 0) := by
  unfold computeHedgeRelease at h
  split at h
  · cases h
    rfl
  · rw [hp.reserveA, hp.reserveB, zero_mul, i128_zero, ok_bind, ok_bind] at h
    cases h
    simp

/-- A swap without a fee leaves the fee growths. -/
theorem swapFeeGrowth_zero {zeroForOne : Bool} {growthA growthB : Int} (hp : pool.Bare)
    (h : swapFeeGrowth d pool zeroForOne 0 = .ok (growthA, growthB)) : growthA = 0 ∧ growthB = 0 := by
  have hacc : ∀ liquidity, ∀ growth, accumulateFeeGrowth d 0 liquidity 0 = .ok growth →
      growth = 0 := by
    intro liquidity growth hg
    unfold accumulateFeeGrowth at hg
    split at hg
    · cases hg
      rfl
    · rw [zero_mul, i128_zero, ok_bind] at hg
      simp only [bind_eq_ok] at hg
      obtain ⟨increment, hi, hg⟩ := hg
      simp only [divI128, bind_eq_ok, require_eq_ok, exists_unit_and, ofOption_eq_ok,
        Int.zero_tdiv] at hi
      have hi := Checked.signed_exact hi.2 (by decide)
      rw [hi, add_zero] at hg
      exact i128_exact hg (by decide)
  unfold swapFeeGrowth at h
  rw [hp.growthA, hp.growthB] at h
  split at h
  · simp only [bind_eq_ok, pure_eq_ok] at h
    obtain ⟨growth, hg, heq⟩ := h
    obtain ⟨rfl, rfl⟩ := Prod.mk.inj heq
    exact ⟨hacc _ _ hg, rfl⟩
  · simp only [bind_eq_ok, pure_eq_ok] at h
    obtain ⟨growth, hg, heq⟩ := h
    obtain ⟨rfl, rfl⟩ := Prod.mk.inj heq
    exact ⟨rfl, hacc _ _ hg⟩

/-- Crossing a tick where nothing was credited writes zero. -/
theorem crossTick_zero {tick : Int} (h : ∀ key tick isA, readTickFeeOutside s key tick isA = 0)
    (hp : pool.Bare) (hc : crossTick d s key pool tick = .ok s') :
    ∀ key tick isA, readTickFeeOutside s' key tick isA = 0 := by
  simp only [crossTick, bind_eq_ok, pure_eq_ok, h, hp.growthA, hp.growthB, sub_zero] at hc
  obtain ⟨outA, hA, outB, hB, rfl⟩ := hc
  have hA := i128_exact hA (by decide)
  have hB := i128_exact hB (by decide)
  intro k t isA
  show ((AList.insert _ _ (AList.insert _ _ s.tickFees)).lookup _).getD 0 = 0
  rw [Store.lookup_insert_eq, Store.lookup_insert_eq]
  split
  · exact hB
  · split
    · exact hA
    · exact h k t isA

theorem crossIfMoved_zero {zeroForOne : Bool} {newTick : Int}
    (h : ∀ key tick isA, readTickFeeOutside s key tick isA = 0) (hp : pool.Bare)
    (hc : crossIfMoved d s key pool zeroForOne newTick = .ok s') :
    ∀ key tick isA, readTickFeeOutside s' key tick isA = 0 := by
  unfold crossIfMoved at hc
  by_cases hmoved : newTick ≠ pool.currentTick
  · rw [if_pos hmoved] at hc
    exact crossTick_zero h hp hc
  · rw [if_neg hmoved] at hc
    cases hc
    exact h

end Bare

end Stellara.Amm
