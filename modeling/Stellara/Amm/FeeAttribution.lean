import Stellara.Amm.Growth
import Stellara.Amm.Liquidity

/-!
# Whom the fee of a swap is credited to (`contracts/amm/src/{lib, pool, fees, position}.rs`)

Should hold: the fee growth inside a range is that of the swaps that started in it, so a
position is credited with its share of these swaps, and no swap credits more than its fee.  Two
things break it.  `swap` flips the tick it crosses against the global growth from before the
swap, and stores the new growth afterwards: a swap that moves the tick is counted on the side it
moved to.  And `pool.liquidity` stays as it was when the tick moves, so a later fee is divided by
the liquidity of positions that are out of range, or not by that of positions in range.

    Run tr s → (∀ e ∈ tr, Attributable e) →
      Attributed d tr s ∧ Throughout Credited tr ∧ ∀ e ∈ tr, WithinFee e    (fee_attribution)
-/

namespace Stellara.Amm

open Outcome RangeMeter

/-! ## What the swaps of a run pay to a range -/

/-- The fee of a swap, in the token sold. -/
def feeCharged (isA : Bool) (e : Event Env Call Reply State) : Int :=
  match e.call, e.ret with
  | .swap _ tokenIn tokenOut _ _, .swapped r => if decide (tokenIn < tokenOut) = isA then r.feePaid else 0
  | _, _ => 0

/-- A swap in the pool: the tick it started at, and what its fee is for a unit of liquidity. -/
def swapGrowth (key : PoolKey) (isA : Bool) (e : Event Env Call Reply State) : Option (Int × Int) :=
  match e.call with
  | .swap _ tokenIn tokenOut _ _ =>
    if swapKey tokenIn tokenOut = key then
      (readPool e.before key).map fun pool =>
        (pool.currentTick, (feeCharged isA e * q64).tdiv pool.liquidity)
    else none
  | _ => none

/-- The swaps of a history in the pool. -/
def growths (tr : Trace) (key : PoolKey) (isA : Bool) : List (Int × Int) :=
  tr.filterMap (swapGrowth key isA)

/-- The fee growth of the swaps of a history that started in `[lower, upper)`. -/
def growthOf (tr : Trace) (key : PoolKey) (isA : Bool) (lower upper : Int) : Int :=
  sumIn lower upper (growths tr key isA)

/-- What a swap credits a position with, in units of `2^-64`: its liquidity times the growth, when
the swap started in its range. -/
def swapCredit (isA : Bool) (p : LpPosition) (e : Event Env Call Reply State) : Int :=
  p.liquidity * growthOf [e] p.poolKey isA p.tickLower p.tickUpper

/-- The calls since the fees of the position were last settled. -/
def sinceSettled (id : Nat) (tr : Trace) : Trace := tr.takeWhile fun e => !settles id e

/-! ## What should hold -/

/-- Inside every range the pools have recorded the growth of the swaps that started there. -/
def Attributed (d : Deployment) (tr : Trace) (s : State) : Prop :=
  ∀ key pool, readPool s key = some pool → ∀ lower upper, lower ≤ upper →
    feeGrowthInside d s key pool lower upper =
      .ok (growthOf tr key true lower upper, growthOf tr key false lower upper)

/-- What the call leaves of a position whose fees it has accrued. -/
def Leaves (e : Event Env Call Reply State) (q : LpPosition) : Prop :=
  match e.call with
  | .removeLiquidity _ positionId x _ _ => readPosition e.after positionId =
      if q.liquidity - x = 0 then none else some { q with liquidity := q.liquidity - x }
  | .collectFees .. => e.ret = .collected (q.tokensOwedA, q.tokensOwedB)
  | _ => True

/-- When a call accrues the fees of a position, what the position is owed grows by what the swaps
since its last settlement credit it with; it has been as it is since then. -/
def Credited (e : Event Env Call Reply State) (older : Trace) : Prop :=
  ∀ id p, settles id e = true → readPosition e.before id = some p →
    (∀ e' ∈ sinceSettled id older, readPosition e'.before id = some p) ∧
    ∃ pool q, readPool e.before p.poolKey = some pool ∧
      accrued e.env.toDeployment e.before pool p = .ok q ∧ Leaves e q ∧ q.liquidity = p.liquidity ∧
      ∀ isA, q.owed isA =
        p.owed isA + (tally (swapCredit isA p) (sinceSettled id older)).tdiv q64

/-- Over all positions a call credits at most the fee that it charges. -/
def WithinFee (e : Event Env Call Reply State) : Prop :=
  ∀ isA, Store.total (fun _ p => swapCredit isA p e) e.before.positions ≤ feeCharged isA e * q64

/-! ## When it does -/

/-- The swap adds to no growth, or it leaves the tick where it is and trades the liquidity that
is in range there. -/
def SwapAttributable (d : Deployment) (s : State) (key : PoolKey) (zeroForOne : Bool)
    (amountIn : Int) : Prop :=
  ∀ pool ∈ readPool s key, ∀ step ∈ (quoteSwap d pool zeroForOne amountIn).toOption,
    let growth := (step.feePaid * q64).tdiv pool.liquidity
    (growth ≠ 0 → sqrtPriceToTick step.newSqrtPrice = pool.currentTick ∧
      pool.liquidity = liquidityAt s key pool.currentTick) ∧
    Exact d (amountIn * pool.dynamicFeeBps) ∧ Exact d (step.feePaid * q64) ∧
    Exact d (pool.growth zeroForOne + growth)

/-- The credit of an accrual is computed without a wrap-around. -/
def AccrualExact (d : Deployment) (s : State) (id : Nat) : Prop :=
  ∀ p ∈ readPosition s id, ∀ pool ∈ readPool s p.poolKey,
    ∀ inside ∈ (feeGrowthInside d s p.poolKey pool p.tickLower p.tickUpper).toOption, ∀ isA,
      let scaled := p.liquidity * (side isA inside - p.last isA)
      Exact d scaled ∧ Exact d (p.owed isA + scaled.tdiv q64)

def CallAttributable (d : Deployment) (s : State) : Call → Prop
  | .swap _ tokenIn tokenOut amountIn _ =>
    SwapAttributable d s (swapKey tokenIn tokenOut) (decide (tokenIn < tokenOut)) amountIn
  | .removeLiquidity _ id _ _ _ | .collectFees _ id => AccrualExact d s id
  | _ => True

/-- The condition on a call of a run, read in the state before it. -/
def Attributable (e : Event Env Call Reply State) : Prop :=
  CallAttributable e.env.toDeployment e.before e.call

instance (d : Deployment) (s : State) (key : PoolKey) (zeroForOne : Bool) (amountIn : Int) :
    Decidable (SwapAttributable d s key zeroForOne amountIn) := by
  unfold SwapAttributable; infer_instance

instance (d : Deployment) (s : State) (id : Nat) : Decidable (AccrualExact d s id) := by
  unfold AccrualExact; infer_instance

instance (d : Deployment) (s : State) (call : Call) : Decidable (CallAttributable d s call) := by
  induction call using Call.casesOn <;> unfold CallAttributable <;> infer_instance

instance (e : Event Env Call Reply State) : Decidable (Attributable e) :=
  inferInstanceAs (Decidable (CallAttributable _ _ _))

/-! ## The books of a run -/

/-- The pool's counters have recorded the swaps of the history. -/
structure PoolBooks (tr : Trace) (s : State) (key : PoolKey) (pool : PoolState) : Prop where
  tick : pool.currentTick = sqrtPriceToTick pool.sqrtPrice
  records : ∀ isA, (growthMeter s key pool isA).Records (growths tr key isA)
  nonneg : ∀ isA, ∀ g ∈ growths tr key isA, 0 ≤ g.2
  bounded : ∀ isA, pool.growth isA ≤ i128Max

/-- The position stands where it was last settled. -/
structure PositionBooks (tr : Trace) (id : Nat) (p : LpPosition) : Prop where
  range : p.tickLower ≤ p.tickUpper
  kept : ∀ e ∈ sinceSettled id tr, readPosition e.before id = some p
  last_nonneg : ∀ isA, 0 ≤ p.last isA
  last : ∀ isA, p.last isA + growthOf (sinceSettled id tr) p.poolKey isA p.tickLower p.tickUpper =
    growthOf tr p.poolKey isA p.tickLower p.tickUpper

/-- What holds in every state of a run of attributable calls. -/
structure FeeBooks (tr : Trace) (s : State) : Prop where
  untouched : ∀ key, readPool s key = none →
    (∀ tick isA, readTickFeeOutside s key tick isA = 0) ∧ ∀ isA, growths tr key isA = []
  pool : ∀ key pool, readPool s key = some pool → PoolBooks tr s key pool
  position : ∀ id p, readPosition s id = some p → PositionBooks tr id p

section History

variable {e : Event Env Call Reply State} {tr : Trace} {key : PoolKey} {isA : Bool}

theorem growths_cons_none (h : swapGrowth key isA e = none) :
    growths (e :: tr) key isA = growths tr key isA := List.filterMap_cons_none h

theorem growths_cons_some {g : Int × Int} (h : swapGrowth key isA e = some g) :
    growths (e :: tr) key isA = g :: growths tr key isA := List.filterMap_cons_some h

theorem swapGrowth_of_not_swap (h : e.call.isSwap = false) : swapGrowth key isA e = none := by
  unfold swapGrowth
  cases hc : e.call with
  | swap =>
    rw [hc] at h
    cases h
  | _ => rfl

theorem growthOf_cons (e : Event Env Call Reply State) (tr : Trace) (key : PoolKey) (isA : Bool)
    (lower upper : Int) : growthOf (e :: tr) key isA lower upper =
      growthOf [e] key isA lower upper + growthOf tr key isA lower upper := by
  unfold growthOf
  rw [← sumIn_append]
  unfold growths
  rw [← List.filterMap_append]
  rfl

theorem growthOf_of_not_swap (h : e.call.isSwap = false) (lower upper : Int) :
    growthOf [e] key isA lower upper = 0 := by
  unfold growthOf
  rw [growths_cons_none (swapGrowth_of_not_swap h)]
  rfl

theorem growthOf_single {g : Int × Int} (h : swapGrowth key isA e = some g) (lower upper : Int) :
    growthOf [e] key isA lower upper = if lower ≤ g.1 ∧ g.1 < upper then g.2 else 0 := by
  unfold growthOf
  rw [growths_cons_some h, sumIn_cons]
  exact add_zero _

/-- The credits of a history are the liquidity times its growth in the range. -/
theorem tally_swapCredit (isA : Bool) (p : LpPosition) (tr : Trace) :
    tally (swapCredit isA p) tr =
      p.liquidity * growthOf tr p.poolKey isA p.tickLower p.tickUpper := by
  induction tr with
  | nil => exact (mul_zero _).symm
  | cons e tr ih =>
    rw [tally_cons, ih, growthOf_cons, mul_add]
    rfl

theorem growths_nonneg_of_subset {tr' : Trace} (hsub : ∀ e ∈ tr', e ∈ tr)
    (h : ∀ g ∈ growths tr key isA, 0 ≤ g.2) : ∀ g ∈ growths tr' key isA, 0 ≤ g.2 := by
  intro g hg
  obtain ⟨e, he, heq⟩ := List.mem_filterMap.mp hg
  exact h g (List.mem_filterMap.mpr ⟨e, hsub e he, heq⟩)

theorem sinceSettled_subset (id : Nat) (tr : Trace) : ∀ e ∈ sinceSettled id tr, e ∈ tr :=
  fun _ he => (List.takeWhile_sublist _).subset he

end History

section Books

variable {d : Deployment} {tr : Trace} {s : State}

/-- **The growth inside every range is that of the swaps that started there.** -/
theorem FeeBooks.attributed (h : FeeBooks tr s) (d : Deployment) : Attributed d tr s := by
  intro key pool hp lower upper hle
  have hb := h.pool key pool hp
  have hin := fun isA => growthInside_eq d (hb.records isA) (hb.nonneg isA) (hb.bounded isA) hle
  have hA : growthInside d pool.feeGrowthGlobalA (readTickFeeOutside s key lower true)
      (readTickFeeOutside s key upper true) pool.currentTick lower upper =
        (.ok (growthOf tr key true lower upper) : Result Int) := hin true
  have hB : growthInside d pool.feeGrowthGlobalB (readTickFeeOutside s key lower false)
      (readTickFeeOutside s key upper false) pool.currentTick lower upper =
        (.ok (growthOf tr key false lower upper) : Result Int) := hin false
  unfold feeGrowthInside
  rw [hA, hB]
  rfl

/-- No range has more growth than `i128` holds. -/
theorem FeeBooks.growthOf_bounds (h : FeeBooks tr s) {key : PoolKey} {pool : PoolState}
    (hp : readPool s key = some pool) (isA : Bool) {lower upper : Int} (hle : lower ≤ upper) :
    0 ≤ growthOf tr key isA lower upper ∧ growthOf tr key isA lower upper ≤ i128Max := by
  have hb := h.pool key pool hp
  have htotal : pool.growth isA = ((growths tr key isA).map Prod.snd).sum := (hb.records isA).total
  have hmax := hb.bounded isA
  have hlow := sumBelow_bounds (hb.nonneg isA) lower
  have hup := sumBelow_bounds (hb.nonneg isA) upper
  refine ⟨sumIn_nonneg (hb.nonneg isA) lower upper, ?_⟩
  unfold growthOf
  rw [sumIn_eq_sub hle]
  omega

end Books

/-! ## One step -/

section Step

variable {tr : Trace} {s s' : State} {env : Env} {call : Call} {r : Reply}

/-- A call that is not a swap keeps the books of the pools. -/
theorem FeeBooks.pool_level (h : FeeBooks tr s) (hc : call.isSwap = false) (hl : Level s s')
    {key : PoolKey} {pool' : PoolState} (hp : readPool s' key = some pool') :
    PoolBooks (⟨env, call, r, s, s'⟩ :: tr) s' key pool' := by
  have hgrowths : ∀ isA, growths (⟨env, call, r, s, s'⟩ :: tr) key isA = growths tr key isA :=
    fun isA => growths_cons_none (swapGrowth_of_not_swap hc)
  have houtside : ∀ tick isA, readTickFeeOutside s' key tick isA = readTickFeeOutside s key tick isA := by
    intro tick isA
    unfold readTickFeeOutside
    rw [hl.tickFees]
  obtain ⟨pool, hpool, hprice, htick, hgrowth⟩ | ⟨hnone, htick, hgrowth⟩ := hl.pool key pool' hp
  · have hb := h.pool key pool hpool
    have hmeter : ∀ isA, growthMeter s' key pool' isA = growthMeter s key pool isA := by
      intro isA
      unfold growthMeter
      simp only [houtside, hgrowth, htick]
    constructor
    · rw [htick, hprice]
      exact hb.tick
    · intro isA
      rw [hmeter, hgrowths]
      exact hb.records isA
    · intro isA
      rw [hgrowths]
      exact hb.nonneg isA
    · intro isA
      rw [hgrowth]
      exact hb.bounded isA
  · obtain ⟨hzero, hnil⟩ := h.untouched key hnone
    constructor
    · exact htick
    · intro isA
      rw [hgrowths, hnil]
      exact records_nil (hgrowth isA) fun tick => (houtside tick isA).trans (hzero tick isA)
    · intro isA g hg
      rw [hgrowths, hnil] at hg
      cases hg
    · intro isA
      rw [hgrowth]
      exact zero_le_i128Max

/-- What the settlement of a position leaves, and what other calls do. -/
theorem FeeBooks.position_step (hw : Wf s) (h : FeeBooks tr s)
    (hx : exec env call s = .ok (r, s')) {id : Nat} {p : LpPosition}
    (hp : readPosition s' id = some p) : PositionBooks (⟨env, call, r, s, s'⟩ :: tr) id p := by
  obtain ⟨hset, hold⟩ | ⟨hset, hc, hat⟩ := Amm.position_step hw hx hp
  · have hb := h.position id p hold
    have hsince : sinceSettled id (⟨env, call, r, s, s'⟩ :: tr) =
        ⟨env, call, r, s, s'⟩ :: sinceSettled id tr := by
      unfold sinceSettled
      rw [List.takeWhile_cons, hset]
      rfl
    refine ⟨hb.range, ?_, hb.last_nonneg, ?_⟩
    · rw [hsince]
      exact List.forall_mem_cons.mpr ⟨hold, hb.kept⟩
    · intro isA
      rw [hsince, growthOf_cons _ (sinceSettled id tr), growthOf_cons _ tr, ← hb.last isA]
      omega
  · have hsince : sinceSettled id (⟨env, call, r, s, s'⟩ :: tr) = [] := by
      unfold sinceSettled
      rw [List.takeWhile_cons, hset]
      rfl
    have hrange : p.tickLower ≤ p.tickUpper := by
      obtain hlt | ⟨old, hold, hlo, hhi⟩ := hat.range
      · exact hlt.le
      · rw [hlo, hhi]
        exact (h.position id old hold).range
    obtain ⟨pool, hpool, hin⟩ := hat.growth
    have hnow := h.attributed env.toDeployment p.poolKey pool hpool _ _ hrange
    rw [hin] at hnow
    obtain ⟨hA, hB⟩ := Prod.mk.inj (Except.ok.inj hnow)
    have hlast : ∀ isA, p.last isA = growthOf tr p.poolKey isA p.tickLower p.tickUpper := by
      intro isA
      cases isA
      · exact hB
      · exact hA
    refine ⟨hrange, ?_, ?_, ?_⟩
    · rw [hsince]
      exact fun e he => (by cases he)
    · intro isA
      rw [hlast]
      exact (h.growthOf_bounds hpool isA hrange).1
    · intro isA
      rw [hsince, growthOf_cons _ tr, growthOf_of_not_swap hc, hlast]
      show _ + sumIn _ _ [] = _
      rw [sumIn_nil, add_zero, zero_add]

end Step

section SwapStep

variable {tr : Trace} {s s' : State} {env : Env} {caller tokenIn tokenOut : Address}
  {amountIn minOut : Int} {r : SwapResult}

/-- **What an attributable swap does** to the fee growths of its pool. -/
structure SwapFacts (s s' : State) (key : PoolKey) (zeroForOne : Bool)
    (e : Event Env Call Reply State) (pool pool' : PoolState) : Prop where
  read : readPool s key = some pool
  here : ∀ isA, swapGrowth key isA e =
    some (pool.currentTick, (feeCharged isA e * q64).tdiv pool.liquidity)
  elsewhere : ∀ isA k, k ≠ key → swapGrowth k isA e = none
  pools : s'.pools = s.pools.insert key pool'
  fee : ∀ isA, 0 ≤ feeCharged isA e
  growth : ∀ isA, pool'.growth isA = pool.growth isA + (feeCharged isA e * q64).tdiv pool.liquidity
  bounded : ∀ isA, pool.growth isA ≤ i128Max → pool'.growth isA ≤ i128Max
  trades : ∀ isA, (feeCharged isA e * q64).tdiv pool.liquidity ≠ 0 →
    pool'.currentTick = pool.currentTick ∧ pool.liquidity = liquidityAt s key pool.currentTick
  tick : pool'.currentTick = sqrtPriceToTick pool'.sqrtPrice
  moves : pool.currentTick = sqrtPriceToTick pool.sqrtPrice → pool'.currentTick ≠ pool.currentTick →
    pool'.currentTick = targetTick pool zeroForOne ∧ targetTick pool zeroForOne =
      if zeroForOne then pool.currentTick - 1 else pool.currentTick + 1
  outside : (∀ isA, InI128 (pool.growth isA - readTickFeeOutside s key (boundary pool zeroForOne) isA)) →
    ∀ k t isA, readTickFeeOutside s' k t isA =
      if pool'.currentTick ≠ pool.currentTick ∧ k = key ∧ t = boundary pool zeroForOne then
        pool.growth isA - readTickFeeOutside s key (boundary pool zeroForOne) isA
      else readTickFeeOutside s k t isA

/-- A boundary can be flipped. -/
theorem PoolBooks.flip_inI128 {key : PoolKey} {pool : PoolState} (hb : PoolBooks tr s key pool)
    (t : Int) (isA : Bool) : InI128 (pool.growth isA - readTickFeeOutside s key t isA) := by
  have hout : 0 ≤ readTickFeeOutside s key t isA ∧
      readTickFeeOutside s key t isA ≤ pool.growth isA :=
    outside_bounds (hb.records isA) (hb.nonneg isA) t
  have hmax := hb.bounded isA
  exact inI128_iff.mpr ⟨by omega, by omega⟩

theorem swap_facts (hx : swap env s caller tokenIn tokenOut amountIn minOut = .ok (r, s'))
    (hok : SwapAttributable env.toDeployment s (swapKey tokenIn tokenOut)
      (decide (tokenIn < tokenOut)) amountIn) :
    ∃ pool pool', SwapFacts s s' (swapKey tokenIn tokenOut) (decide (tokenIn < tokenOut))
      ⟨env, .swap caller tokenIn tokenOut amountIn minOut, .swapped r, s, s'⟩ pool pool' := by
  obtain ⟨-, hpos, pool, step, growthA, growthB, s₁, volume, t₁, t₂, fees, samples, hp, hL, hq, hg,
    hcross, hfees, -, -, rfl, rfl⟩ := swap_ok hx
  obtain ⟨htrade, hfee, hscaled, hsum⟩ := (forall_quote hp hq).mp hok
  have hfee0 := quoteSwap_fee_nonneg hq hpos hfee
  have hcharged : ∀ s' isA, feeCharged isA ⟨env, .swap caller tokenIn tokenOut amountIn minOut,
      .swapped ⟨step.amountIn, step.amountOut, step.feePaid, step.newSqrtPrice,
        sqrtPriceToTick step.newSqrtPrice⟩, s, s'⟩ =
      if decide (tokenIn < tokenOut) = isA then step.feePaid else 0 := fun _ _ => rfl
  refine ⟨pool, _, hp, ?_, fun isA k hk => if_neg fun heq => hk heq.symm, rfl, ?_, ?_, ?_, ?_, rfl,
    ?_, ?_⟩
  · intro isA
    show (if swapKey tokenIn tokenOut = swapKey tokenIn tokenOut then _ else none) = _
    rw [if_pos rfl]
    show Option.map _ (readPool s _) = _
    rw [hp]
    rfl
  · intro isA
    rw [hcharged]
    split <;> omega
  · intro isA
    rw [hcharged]
    exact swapFeeGrowth_exact hL hg hscaled hsum isA
  · exact fun isA hmax => swapFeeGrowth_bounded hL hg isA hmax
  · intro isA hne
    rw [hcharged] at hne
    split at hne
    · exact htrade hne
    · rw [zero_mul, Int.zero_tdiv] at hne
      exact absurd rfl hne
  · exact fun htick hmoved => quoteSwap_tick htick hq hmoved
  · intro hin k t isA
    have houtside := crossIfMoved_outside hcross hin k t isA
    unfold readTickFeeOutside at houtside ⊢
    rw [hfees] at houtside
    exact houtside

/-- A swap that adds to the growth of its pool leaves the tick where it is, so the pool's
counters record it under the tick at which it started. -/
theorem SwapFacts.records {key : PoolKey} {zeroForOne : Bool} {e : Event Env Call Reply State}
    {pool pool' : PoolState} (hf : SwapFacts s s' key zeroForOne e pool pool')
    (hb : PoolBooks tr s key pool) (isA : Bool) :
    (growthMeter s' key pool' isA).Records
      ((pool.currentTick, (feeCharged isA e * q64).tdiv pool.liquidity) :: growths tr key isA) := by
  have houtside := hf.outside (hb.flip_inI128 _) key
  have hgrow := (hb.records isA).grow ((feeCharged isA e * q64).tdiv pool.liquidity)
  by_cases hmoved : pool'.currentTick = pool.currentTick
  · -- the tick stays, and so do the counters
    have hmeter : growthMeter s' key pool' isA =
        (growthMeter s key pool isA).grow ((feeCharged isA e * q64).tdiv pool.liquidity) := by
      unfold growthMeter RangeMeter.grow
      simp only [hf.growth, hmoved, houtside, ne_eq, not_true_eq_false, false_and, if_false]
    rw [hmeter]
    exact hgrow
  · -- the tick moves and nothing is added, so the boundary is flipped against the present total
    have hzero : (feeCharged isA e * q64).tdiv pool.liquidity = 0 := by
      by_contra hne
      exact hmoved (hf.trades isA hne).1
    obtain ⟨hcur, htarget⟩ := hf.moves hb.tick hmoved
    have hmeter : growthMeter s' key pool' isA =
        ((growthMeter s key pool isA).grow ((feeCharged isA e * q64).tdiv pool.liquidity)).cross
          (boundary pool zeroForOne) pool'.currentTick := by
      rw [hzero]
      unfold growthMeter RangeMeter.grow RangeMeter.cross
      simp only [hf.growth, hzero, add_zero, houtside, ne_eq, hmoved, not_false_eq_true, true_and,
        RangeMeter.mk.injEq, and_true]
      funext t
      rw [Function.update_apply]
    rw [hmeter]
    refine hgrow.cross ?_ ?_
    · show boundary pool zeroForOne ≤ pool'.currentTick ↔ ¬ boundary pool zeroForOne ≤ pool.currentTick
      unfold boundary
      rw [hcur, htarget]
      cases zeroForOne <;> simp
    · intro t ht
      show t ≤ pool'.currentTick ↔ t ≤ pool.currentTick
      unfold boundary at ht
      rw [htarget] at ht
      rw [hcur, htarget]
      cases zeroForOne <;> simp at ht ⊢ <;> omega

end SwapStep

/-! ## Runs -/

section Run

variable {d : Deployment} {tr : Trace} {s s' : State} {env : Env} {call : Call} {r : Reply}

/-- The growth of an attributable swap is not negative. -/
theorem SwapFacts.growth_nonneg (hw : Wf s) {key : PoolKey} {zeroForOne : Bool}
    {e : Event Env Call Reply State} {pool pool' : PoolState}
    (hf : SwapFacts s s' key zeroForOne e pool pool') (isA : Bool) :
    0 ≤ (feeCharged isA e * q64).tdiv pool.liquidity := by
  by_cases hzero : (feeCharged isA e * q64).tdiv pool.liquidity = 0
  · rw [hzero]
  · have hliq := (hf.trades isA hzero).2
    have h0 : 0 ≤ liquidityAt s key pool.currentTick :=
      Store.total_nonneg fun id p hp => share_nonneg (hw.position id p hp).2.2.1 key _
    exact Int.tdiv_nonneg (mul_nonneg (hf.fee isA) (by decide)) (by omega)

theorem FeeBooks.pool_swap {caller tokenIn tokenOut : Address} {amountIn minOut : Int}
    {r : SwapResult} (hw : Wf s) (h : FeeBooks tr s)
    (hx : swap env s caller tokenIn tokenOut amountIn minOut = .ok (r, s'))
    (hok : SwapAttributable env.toDeployment s (swapKey tokenIn tokenOut)
      (decide (tokenIn < tokenOut)) amountIn) {key : PoolKey} {new : PoolState}
    (hp : readPool s' key = some new) :
    PoolBooks (⟨env, .swap caller tokenIn tokenOut amountIn minOut, .swapped r, s, s'⟩ :: tr) s' key
      new := by
  obtain ⟨pool, pool', hf⟩ := swap_facts hx hok
  have hb := h.pool _ pool hf.read
  rw [readPool_of_insert hf.pools] at hp
  split at hp
  · next hk =>
    subst hk
    cases hp
    constructor
    · exact hf.tick
    · intro isA
      rw [growths_cons_some (hf.here isA)]
      exact hf.records hb isA
    · intro isA
      rw [growths_cons_some (hf.here isA)]
      exact List.forall_mem_cons.mpr ⟨hf.growth_nonneg hw isA, hb.nonneg isA⟩
    · exact fun isA => hf.bounded isA (hb.bounded isA)
  · next hk =>
    have hb' := h.pool key new hp
    have hin : ∀ a, InI128 (pool.growth a -
        readTickFeeOutside s (swapKey tokenIn tokenOut)
          (boundary pool (decide (tokenIn < tokenOut))) a) := hb.flip_inI128 _
    have houtside : ∀ t isA, readTickFeeOutside s' key t isA = readTickFeeOutside s key t isA := by
      intro t isA
      rw [hf.outside hin, if_neg (fun hc => hk hc.2.1)]
    constructor
    · exact hb'.tick
    · intro isA
      rw [growths_cons_none (hf.elsewhere isA key hk)]
      have hmeter : growthMeter s' key new isA = growthMeter s key new isA := by
        unfold growthMeter
        simp only [houtside]
      rw [hmeter]
      exact hb'.records isA
    · intro isA
      rw [growths_cons_none (hf.elsewhere isA key hk)]
      exact hb'.nonneg isA
    · exact hb'.bounded

/-- **An attributable call keeps the books.** -/
theorem FeeBooks.step (hw : Wf s) (h : FeeBooks tr s) (hx : exec env call s = .ok (r, s'))
    (hok : CallAttributable env.toDeployment s call) :
    FeeBooks (⟨env, call, r, s, s'⟩ :: tr) s' := by
  refine ⟨?_, ?_, fun id p hp => h.position_step hw hx hp⟩
  · intro key hnone
    by_cases hc : call.isSwap = false
    · have hl := level_step hc hx
      obtain ⟨hzero, hnil⟩ := h.untouched key (hl.kept key hnone)
      refine ⟨?_, fun isA => (growths_cons_none (swapGrowth_of_not_swap hc)).trans (hnil isA)⟩
      intro tick isA
      have h0 := hzero tick isA
      unfold readTickFeeOutside at h0 ⊢
      rw [hl.tickFees]
      exact h0
    · cases call with
      | swap caller tokenIn tokenOut amountIn minOut =>
        obtain ⟨a, hcall, rfl⟩ := reply_ok.mp hx
        obtain ⟨pool, pool', hf⟩ := swap_facts hcall hok
        rw [readPool_of_insert hf.pools] at hnone
        split at hnone
        · cases hnone
        · next hk =>
          obtain ⟨hzero, hnil⟩ := h.untouched key hnone
          refine ⟨?_, fun isA => (growths_cons_none (hf.elsewhere isA key hk)).trans (hnil isA)⟩
          intro tick isA
          rw [hf.outside ((h.pool _ pool hf.read).flip_inI128 _), if_neg (fun hf => hk hf.2.1)]
          exact hzero tick isA
      | _ => exact absurd rfl hc
  · intro key pool' hp
    by_cases hc : call.isSwap = false
    · exact h.pool_level hc (level_step hc hx) hp
    · cases call with
      | swap caller tokenIn tokenOut amountIn minOut =>
        obtain ⟨a, hcall, rfl⟩ := reply_ok.mp hx
        exact h.pool_swap hw hcall hok hp
      | _ => exact absurd rfl hc

theorem feeBooks_run (h : Run (machine d) tr s) (hok : ∀ e ∈ tr, Attributable e) : FeeBooks tr s := by
  induction h with
  | start h =>
    obtain ⟨tokens, rfl⟩ := h
    exact ⟨fun key _ => ⟨fun _ _ => rfl, fun _ => rfl⟩, fun key pool hr => (by cases hr),
      fun id p hr => (by cases hr)⟩
  | @commit tr s s' env call r h hv _ hx ih =>
    rw [List.forall_mem_cons] at hok
    exact (ih hok.2).step (wf_run h) hx hok.1

/-- What an accrual credits is what the swaps since the last settlement credit. -/
theorem FeeBooks.accrued_owed (h : FeeBooks tr s) {id : Nat} {p q : LpPosition} {pool : PoolState}
    {insideA insideB : Int} (hp : readPosition s id = some p)
    (hpool : readPool s p.poolKey = some pool)
    (hin : feeGrowthInside d s p.poolKey pool p.tickLower p.tickUpper = .ok (insideA, insideB))
    (hacc : accruePositionFees d p insideA insideB = .ok q) (hok : AccrualExact d s id) (isA : Bool) :
    q.owed isA = p.owed isA + (tally (swapCredit isA p) (sinceSettled id tr)).tdiv q64 := by
  have hb := h.position id p hp
  have hnow := h.attributed d p.poolKey pool hpool _ _ hb.range
  rw [hin] at hnow
  obtain ⟨hA, hB⟩ := Prod.mk.inj (Except.ok.inj hnow)
  have hside : side isA (insideA, insideB) = growthOf tr p.poolKey isA p.tickLower p.tickUpper := by
    cases isA
    · exact hB
    · exact hA
  have hbounds := h.growthOf_bounds hpool isA hb.range
  have hsince : 0 ≤ growthOf (sinceSettled id tr) p.poolKey isA p.tickLower p.tickUpper :=
    sumIn_nonneg (growths_nonneg_of_subset (sinceSettled_subset id tr)
      ((h.pool _ pool hpool).nonneg isA)) _ _
  have hlast := hb.last isA
  have hlast0 := hb.last_nonneg isA
  have hgrown : side isA (insideA, insideB) - p.last isA =
      growthOf (sinceSettled id tr) p.poolKey isA p.tickLower p.tickUpper := by omega
  obtain ⟨hscaled, howed⟩ := hok p hp pool hpool (insideA, insideB) (by rw [hin]; rfl) isA
  obtain ⟨owedA, owedB, hoA, hoB, rfl⟩ := accruePositionFees_ok hacc
  have hcredit : side isA (owedA, owedB) = p.owed isA +
      (p.liquidity * (side isA (insideA, insideB) - p.last isA)).tdiv q64 := by
    cases isA
    · exact accrueOwed_exact hoB hlast0 (by omega) (by omega) hscaled howed
    · exact accrueOwed_exact hoA hlast0 (by omega) (by omega) hscaled howed
  rw [tally_swapCredit, ← hgrown]
  exact hcredit

theorem accrued_of_ok {pool : PoolState} {p q : LpPosition} {insideA insideB : Int}
    (hin : feeGrowthInside d s p.poolKey pool p.tickLower p.tickUpper = .ok (insideA, insideB))
    (hacc : accruePositionFees d p insideA insideB = .ok q) : accrued d s pool p = .ok q := by
  unfold accrued
  rw [hin]
  exact hacc

/-- **An attributable accrual credits the position with its share of the swaps since the last.** -/
theorem FeeBooks.credited (hw : Wf s) (h : FeeBooks tr s) (hx : exec env call s = .ok (r, s'))
    (hok : CallAttributable env.toDeployment s call) : Credited ⟨env, call, r, s, s'⟩ tr := by
  intro id p hset hp
  refine ⟨(h.position id p hp).kept, ?_⟩
  cases call with
  | addLiquidity caller key offer minA minB =>
    -- the position minted is not there before the call
    obtain ⟨a, hcall, rfl⟩ := reply_ok.mp hx
    obtain ⟨-, pool, deposit, t₁, t₂, pool₁, insideA, insideB, reserveA, reserveB, pool₂, owners, -,
      -, -, -, -, -, -, -, rfl, rfl⟩ := addLiquidity_ok hcall
    have hid : s.positionCount + 1 = id := of_decide_eq_true hset
    have hle := (hw.position id p hp).2.1
    omega
  | removeLiquidity caller positionId x minA minB =>
    obtain ⟨a, hcall, rfl⟩ := reply_ok.mp hx
    obtain ⟨-, old, pool, insideA, insideB, position, outA, outB, hedgeA, hedgeB, pool₁, sumA, sumB,
      pool₂, t₁, t₂, owners, hold, -, -, hpool, hin, hacc, -, -, -, -, -, -, -, -, -, rfl⟩ :=
      removeLiquidity_ok hcall
    have hid : positionId = id := of_decide_eq_true hset
    subst hid
    obtain rfl : old = p := Option.some.inj (hold.symm.trans hp)
    have howed := h.accrued_owed hp hpool hin hacc hok
    obtain ⟨owedA, owedB, -, -, rfl⟩ := accruePositionFees_ok hacc
    refine ⟨pool, _, hpool, accrued_of_ok hin hacc, ?_, rfl, howed⟩
    show (restPositions s _).lookup positionId = _
    rw [lookup_restPositions, if_pos (hw.position positionId old hold).1.symm]
  | collectFees caller positionId =>
    obtain ⟨a, hcall, rfl⟩ := reply_ok.mp hx
    obtain ⟨-, old, pool, insideA, insideB, position, t₁, t₂, hold, hpool, hin, hacc, hA, hB, -, -,
      rfl⟩ := collectFees_ok hcall
    have hid : positionId = id := of_decide_eq_true hset
    subst hid
    obtain rfl : old = p := Option.some.inj (hold.symm.trans hp)
    have howed := h.accrued_owed hp hpool hin hacc hok
    obtain ⟨owedA, owedB, -, -, rfl⟩ := accruePositionFees_ok hacc
    refine ⟨pool, _, hpool, accrued_of_ok hin hacc, ?_, rfl, howed⟩
    show Reply.collected a = _
    rw [← hA, ← hB]
  | _ => cases hset

theorem swapCredit_of_not_swap {e : Event Env Call Reply State} (h : e.call.isSwap = false)
    (isA : Bool) (p : LpPosition) : swapCredit isA p e = 0 := by
  unfold swapCredit
  rw [growthOf_of_not_swap h, mul_zero]

/-- The positions in range share a swap's growth by their liquidity. -/
theorem total_swapCredit {e : Event Env Call Reply State} {key : PoolKey} {isA : Bool} {tick growth : Int}
    (hsome : swapGrowth key isA e = some (tick, growth))
    (hnone : ∀ k, k ≠ key → swapGrowth k isA e = none) (s : State) :
    Store.total (fun _ p => swapCredit isA p e) s.positions = liquidityAt s key tick * growth := by
  have hshare : ∀ p : LpPosition, swapCredit isA p e = (ranges key).share p tick * growth := by
    intro p
    unfold swapCredit
    by_cases hk : p.poolKey = key
    · have hweight : (ranges key).weight p = p.liquidity := if_pos hk
      rw [hk, growthOf_single hsome]
      unfold Ranges.share
      rw [hweight]
      show _ = (if p.tickLower ≤ tick ∧ tick < p.tickUpper then _ else _) * _
      split
      · rfl
      · rw [mul_zero, zero_mul]
    · have hzero : growthOf [e] p.poolKey isA p.tickLower p.tickUpper = 0 := by
        unfold growthOf
        rw [growths_cons_none (hnone _ hk)]
        rfl
      rw [share_of_ne hk, zero_mul, hzero, mul_zero]
  simp only [hshare]
  exact Store.total_mul _ _ _

theorem withinFee_of_not_swap {e : Event Env Call Reply State} (h : e.call.isSwap = false) :
    WithinFee e := by
  intro isA
  have hcharged : feeCharged isA e = 0 := by
    unfold feeCharged
    cases hc : e.call with
    | swap =>
      rw [hc] at h
      cases h
    | _ => rfl
  have hzero : Store.total (fun _ p => swapCredit isA p e) e.before.positions = 0 :=
    Store.total_zero fun id p _ => swapCredit_of_not_swap h isA p
  rw [hcharged, hzero, zero_mul]

/-- **An attributable swap credits at most its fee.** -/
theorem SwapFacts.withinFee {key : PoolKey} {zeroForOne : Bool} {e : Event Env Call Reply State}
    {pool pool' : PoolState} (hf : SwapFacts s s' key zeroForOne e pool pool') (isA : Bool) :
    Store.total (fun _ p => swapCredit isA p e) s.positions ≤ feeCharged isA e * q64 := by
  have hscaled : 0 ≤ feeCharged isA e * q64 := mul_nonneg (hf.fee isA) (by decide)
  rw [total_swapCredit (hf.here isA) (hf.elsewhere isA)]
  by_cases hzero : (feeCharged isA e * q64).tdiv pool.liquidity = 0
  · rw [hzero, mul_zero]
    exact hscaled
  · rw [← (hf.trades isA hzero).2]
    exact Int.mul_tdiv_self_le hscaled

theorem withinFee_step (hx : exec env call s = .ok (r, s'))
    (hok : CallAttributable env.toDeployment s call) : WithinFee ⟨env, call, r, s, s'⟩ := by
  cases call with
  | swap caller tokenIn tokenOut amountIn minOut =>
    obtain ⟨a, hcall, rfl⟩ := reply_ok.mp hx
    obtain ⟨pool, pool', hf⟩ := swap_facts hcall hok
    exact hf.withinFee
  | _ => exact withinFee_of_not_swap rfl

/-- **Fee attribution.**  In every run of attributable calls the fee growth inside a range is
that of the swaps that started in it, every accrual credits its position with its share of
these swaps, and no swap credits more than its fee. -/
theorem fee_attribution (h : Run (machine d) tr s) (hok : ∀ e ∈ tr, Attributable e) :
    Attributed d tr s ∧ Throughout Credited tr ∧ ∀ e ∈ tr, WithinFee e := by
  refine ⟨(feeBooks_run h hok).attributed d, ?_⟩
  induction h with
  | start => exact ⟨trivial, fun e he => (by cases he)⟩
  | @commit tr s s' env call r h hv _ hx ih =>
    rw [List.forall_mem_cons] at hok ⊢
    obtain ⟨hcredited, hwithin⟩ := ih hok.2
    exact ⟨⟨(feeBooks_run h hok.2).credited (wf_run h) hx hok.1, hcredited⟩,
      withinFee_step hx hok.1, hwithin⟩

end Run

/-! ## A fee charged inside a tick, and one charged across -/

/-- A sale that pays no fee moves the tick, a purchase then pays a fee inside the tick reached,
and the provider collects it. -/
theorem fee_attribution_inside_tick :
    ∃ (tr : Trace) (s : State), (Run (machine ⟨0, true⟩) tr s ∧
      growthOf tr poolOf56 false (-1) 0 = 1398661032108) ∧
      Attributed ⟨0, true⟩ tr s ∧ Throughout Credited tr ∧ ∀ e ∈ tr, WithinFee e := by
  have hinit : (machine ⟨0, true⟩).init { tokens := .empty } := ⟨_, rfl⟩
  obtain ⟨tr, s, hrun, hok⟩ := Machine.exists_run_of_replay hinit
    (openPool ++ [deposit512, (callAt 3 [2], .swap 2 5 6 300 0), (callAt 4 [2], .swap 2 6 5 1000 0),
      (callAt 5 [1], .collectFees 1 1)])
    (fun tr _ => growthOf tr poolOf56 false (-1) 0 = 1398661032108 ∧ ∀ e ∈ tr, Attributable e)
    (by decide) (by decide) (by decide)
  obtain ⟨hgrowth, hall⟩ := of_decide_eq_true hok
  exact ⟨tr, s, ⟨hrun, hgrowth⟩, fee_attribution hrun hall⟩

/-- A sale that starts at tick 0 and moves the tick to -1 pays its fee to `[-1, 0)`. -/
theorem fee_attribution_across_tick :
    ∃ (tr : Trace) (s : State), Run (machine ⟨0, true⟩) tr s ∧ ¬ Attributed ⟨0, true⟩ tr s := by
  have hinit : (machine ⟨0, true⟩).init { tokens := .empty } := ⟨_, rfl⟩
  obtain ⟨tr, s, hrun, hok⟩ := Machine.exists_run_of_replay hinit
    (openPool ++ [deposit512, (callAt 3 [2], .swap 2 5 6 100000 0)])
    (fun tr s => ((readPool s poolOf56).map fun pool =>
        (feeGrowthInside ⟨0, true⟩ s poolOf56 pool 0 512).toOption) = some (some (0, 0)) ∧
      growthOf tr poolOf56 true 0 512 = 139866103210815)
    (by decide) (by decide) (by decide)
  refine ⟨tr, s, hrun, ?_⟩
  intro hatt
  obtain ⟨hinside, hgrowth⟩ := of_decide_eq_true hok
  obtain ⟨pool, hp, heq⟩ := Option.map_eq_some_iff.mp hinside
  rw [hatt poolOf56 pool hp 0 512 (by decide), hgrowth] at heq
  cases heq

end Stellara.Amm
