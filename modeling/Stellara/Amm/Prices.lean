import Stellara.Amm.Ticks
import Stellara.Amm.Growth
import Stellara.Amm.Liquidity

/-!
# The price of a pool over a run (`contracts/amm/src/lib.rs`)

`create_pool` takes any positive price; the ticks cover the prices of the table.  A pool above
them has no liquidity in range, so it does not trade, but one below them does:

    price     0 ──── minSqrtPrice ─────────── maxSqrtPrice ────
    trades    yes         yes                      no                      (`PoolState.Priced`)

A swap goes for the price of the next tick.  Below the ticks that is higher than the price, also
for a sale of token A, which is to lower it (`directed_iff`).
-/

namespace Stellara.Amm

open Outcome

/-- What holds of a pool's price in every reachable state. -/
structure PoolState.Priced (pool : PoolState) : Prop where
  tick : pool.currentTick = sqrtPriceToTick pool.sqrtPrice
  pos : 0 < pool.sqrtPrice
  trades : pool.liquidity ≠ 0 → pool.sqrtPrice ≤ maxSqrtPrice

section Calls

variable {d : Deployment} {pool pool' : PoolState} {lower upper x : Int}

/-- A range that holds the tick ends at a supported one, so the price is within the table. -/
theorem below_of_inRange {q : Int} (htick : pool.currentTick = sqrtPriceToTick pool.sqrtPrice)
    (hupper : tickToSqrtPrice upper = .ok q) (h : pool.inRange lower upper = true) :
    pool.sqrtPrice < maxSqrtPrice := by
  have hlt : pool.currentTick < upper := by
    unfold PoolState.inRange at h
    rw [Bool.and_eq_true, decide_eq_true_eq, decide_eq_true_eq] at h
    exact h.2
  have hmax := (sqrtPriceToTick_bounds q).2
  rw [sqrtPriceToTick_of_tick hupper] at hmax
  by_contra hge
  have htop : sqrtPriceToTick maxSqrtPrice = maxTick := by decide
  have hmono := sqrtPriceToTick_mono (not_lt.mp hge)
  omega

theorem rangeAmounts_upper {liquidity sqrtPrice : Int} {amounts : Int × Int}
    (h : rangeAmounts d lower upper liquidity sqrtPrice = .ok amounts) :
    ∃ q, tickToSqrtPrice upper = .ok q := by
  obtain ⟨-, q, -, hupper, -⟩ := rangeAmounts_ok h
  exact ⟨q, hupper⟩

theorem PoolState.Priced.activate (h : pool.Priced) {q : Int} (hupper : tickToSqrtPrice upper = .ok q)
    (hact : activate d pool lower upper x = .ok pool') : pool'.Priced := by
  obtain ⟨active, ⟨hin, total, -, rfl⟩ | ⟨-, rfl⟩⟩ := activate_ok hact
  · exact ⟨h.tick, h.pos, fun _ => (below_of_inRange h.tick hupper hin).le⟩
  · exact ⟨h.tick, h.pos, h.trades⟩

theorem PoolState.Priced.deactivate (h : pool.Priced) {q : Int}
    (hupper : tickToSqrtPrice upper = .ok q)
    (hde : deactivate d pool lower upper x = .ok pool') : pool'.Priced := by
  obtain ⟨hin, total, active, -, rfl⟩ | ⟨-, rfl⟩ := deactivate_ok hde
  · exact ⟨h.tick, h.pos, fun _ => (below_of_inRange h.tick hupper hin).le⟩
  · exact h

theorem PoolState.Priced.reserves (h : pool.Priced) (reserveA reserveB : Int) :
    PoolState.Priced { pool with ilReserveA := reserveA, ilReserveB := reserveB } :=
  ⟨h.tick, h.pos, h.trades⟩

/-- The price that a swap reaches is positive, and within the table if the price was. -/
theorem quoteSwap_price {zeroForOne : Bool} {amountIn : Int} {step : SwapStep}
    (h : quoteSwap d pool zeroForOne amountIn = .ok step) (hpos : 0 < pool.sqrtPrice) :
    0 < step.newSqrtPrice ∧ step.newSqrtPrice ≤ maxSqrtPrice := by
  obtain ⟨target, -, rest, ht, -, -, hprice⟩ := quoteSwap_step h
  obtain ⟨hlo, hhi⟩ := tickToSqrtPrice_bounds ht
  have hrest : 0 ≤ max rest 0 := le_max_right _ _
  rw [hprice]
  refine ⟨stepTo_pos hpos hlo hhi hrest _, ?_⟩
  unfold stepTo
  split
  · next hfall =>
    rw [sellStep_price hlo hfall hrest]
    exact hhi
  · next hrise => exact (buyStep_price (not_lt.mp hrise) hhi hrest).2.trans hhi

end Calls

/-! ## Prices and samples -/

/-- Every pool has a price, and every sample is one at which its pool has traded. -/
structure PricesInv (s : State) : Prop where
  pool : ∀ key pool, readPool s key = some pool → pool.Priced
  sample : ∀ key period p, readPriceSample s key period = some p → 0 < p ∧ p ≤ maxSqrtPrice

/-- A swap records the price it has found. -/
theorem swap_samples {env : Env} {s s' : State} {caller tokenIn tokenOut : Address}
    {amountIn minOut : Int} {r : SwapResult}
    (h : swap env s caller tokenIn tokenOut amountIn minOut = .ok (r, s')) :
    ∃ pool, readPool s (swapKey tokenIn tokenOut) = some pool ∧ s'.priceSamples =
      s.priceSamples.insert (swapKey tokenIn tokenOut, env.timestamp / oraclePeriodSecs)
        pool.sqrtPrice := by
  simp only [swap, requirePool, bind_eq_ok, ofOption_eq_ok, pure_eq_ok] at h
  obtain ⟨_, -, _, -, _, -, _, -, pool, hp, _, -, step, -, _, -, growths, -, s₁, hc, volume, -, t₁, -,
    t₂, -, heq⟩ := h
  obtain ⟨-, rfl⟩ := Prod.mk.inj heq
  obtain ⟨fees, rfl⟩ := crossIfMoved_eq hc
  exact ⟨pool, hp, rfl⟩

/-- Only swaps record prices. -/
theorem samples_step {env : Env} {call : Call} {r : Reply} {s s' : State} (hc : call.isSwap = false)
    (hx : exec env call s = .ok (r, s')) : s'.priceSamples = s.priceSamples := by
  cases call with
  | swap => cases hc
  | createPool caller key feeTier price =>
    obtain ⟨-, -, -, rfl⟩ := createPool_ok (done_ok.mp hx).1
    rfl
  | addLiquidity caller key offer minA minB =>
    obtain ⟨a, hx, -⟩ := reply_ok.mp hx
    obtain ⟨-, pool, deposit, t₁, t₂, pool₁, insideA, insideB, reserveA, reserveB, pool₂, owners, -, -,
      -, -, -, -, -, -, -, rfl⟩ := addLiquidity_ok hx
    rfl
  | removeLiquidity caller positionId x minA minB =>
    obtain ⟨a, hx, -⟩ := reply_ok.mp hx
    obtain ⟨-, old, pool, insideA, insideB, position, outA, outB, hedgeA, hedgeB, pool₁, sumA, sumB,
      pool₂, t₁, t₂, owners, -, -, -, -, -, -, -, -, -, -, -, -, -, -, -, rfl⟩ := removeLiquidity_ok hx
    rfl
  | collectFees caller positionId =>
    obtain ⟨a, hx, -⟩ := reply_ok.mp hx
    obtain ⟨-, old, pool, insideA, insideB, position, t₁, t₂, -, -, -, -, -, -, -, -, rfl⟩ :=
      collectFees_ok hx
    rfl
  | updateDynamicFee key =>
    obtain ⟨n, hx, -⟩ := reply_ok.mp hx
    obtain ⟨pool, -, -, rfl⟩ := updateDynamicFee_ok hx
    rfl
  | init admin approvers executor cfg =>
    have hx := (done_ok.mp hx).1
    simp only [init, bind_eq_ok, pure_eq_ok] at hx
    obtain ⟨_, -, rfl⟩ := hx
    rfl
  | pause admin | unpause admin =>
    have hx := (done_ok.mp hx).1
    simp only [pause, unpause, setPause, bind_eq_ok, pure_eq_ok] at hx
    obtain ⟨_, -, _, -, _, -, rfl⟩ := hx
    rfl
  | proposeUpgrade admin hash description approvers threshold delay =>
    obtain ⟨n, hx, -⟩ := reply_ok.mp hx
    simp only [proposeUpgrade, bind_eq_ok, pure_eq_ok] at hx
    obtain ⟨_, -, _, -, _, -, heq⟩ := hx
    obtain ⟨-, rfl⟩ := Prod.mk.inj heq
    rfl
  | approveUpgrade pid actor | executeUpgrade pid actor | rejectUpgrade pid actor
  | cancelUpgrade pid actor =>
    have hx := (done_ok.mp hx).1
    simp only [approveUpgrade, executeUpgrade, rejectUpgrade, cancelUpgrade, upgradeCall, bind_eq_ok,
      pure_eq_ok] at hx
    obtain ⟨_, -, _, -, _, -, rfl⟩ := hx
    rfl
  | token c =>
    have hx := (done_ok.mp hx).1
    simp only [bind_eq_ok, pure_eq_ok] at hx
    obtain ⟨tokens, -, rfl⟩ := hx
    rfl

theorem PricesInv.write {s s' : State} {key : PoolKey} {pool' : PoolState} (h : PricesInv s)
    (hpools : s'.pools = s.pools.insert key pool') (hpool : pool'.Priced)
    (hsamples : s'.priceSamples = s.priceSamples) : PricesInv s' := by
  refine ⟨?_, ?_⟩
  · intro k p hr
    rw [readPool_of_insert hpools] at hr
    split at hr
    · cases hr
      exact hpool
    · exact h.pool k p hr
  · unfold readPriceSample
    rw [hsamples]
    exact h.sample

theorem prices_step {env : Env} {call : Call} {r : Reply} {s s' : State} (h : PricesInv s)
    (hx : exec env call s = .ok (r, s')) : PricesInv s' := by
  have hsamples := fun hc => samples_step hc hx
  cases call with
  | createPool caller key feeTier price =>
    obtain ⟨-, hpos, -, rfl⟩ := createPool_ok (done_ok.mp hx).1
    exact h.write rfl ⟨rfl, hpos, fun hL => absurd rfl hL⟩ (hsamples rfl)
  | addLiquidity caller key offer minA minB =>
    obtain ⟨a, hx, -⟩ := reply_ok.mp hx
    obtain ⟨-, pool, deposit, t₁, t₂, pool₁, insideA, insideB, reserveA, reserveB, pool₂, owners, hp,
      hq, -, -, hact, -, -, hlock, -, rfl⟩ := addLiquidity_ok hx
    obtain ⟨q, hupper⟩ := rangeAmounts_upper (quoteDeposit_amounts hq)
    obtain ⟨ra, rb, -, -, rfl⟩ := lockReserve_ok hlock
    exact h.write rfl (((h.pool key pool hp).activate hupper hact).reserves ra rb) (hsamples rfl)
  | removeLiquidity caller positionId x minA minB =>
    obtain ⟨a, hx, -⟩ := reply_ok.mp hx
    obtain ⟨-, old, pool, insideA, insideB, position, outA, outB, hedgeA, hedgeB, pool₁, sumA, sumB,
      pool₂, t₁, t₂, owners, -, -, -, hp, -, -, hq, -, hunlock, -, -, hde, -, -, -, rfl⟩ :=
      removeLiquidity_ok hx
    obtain ⟨q, hupper⟩ := rangeAmounts_upper hq
    obtain ⟨ra, rb, -, -, rfl⟩ := unlockReserve_ok hunlock
    exact h.write rfl (((h.pool _ pool hp).reserves _ _).deactivate hupper hde) (hsamples rfl)
  | swap caller tokenIn tokenOut amountIn minOut =>
    obtain ⟨a, hx, -⟩ := reply_ok.mp hx
    obtain ⟨pool', hp', hs⟩ := swap_samples hx
    obtain ⟨-, -, pool, step, growthA, growthB, s₁, volume, t₁, t₂, fees, samples, hp, hL, hq, -, -, -,
      -, -, -, rfl⟩ := swap_ok hx
    obtain rfl := Option.some.inj (hp.symm.trans hp')
    have hpriced := h.pool _ pool hp
    obtain ⟨hpos, hmax⟩ := quoteSwap_price hq hpriced.pos
    refine ⟨?_, ?_⟩
    · intro k p hr
      rw [readPool_of_insert rfl] at hr
      split at hr
      · cases hr
        exact ⟨rfl, hpos, fun _ => hmax⟩
      · exact h.pool k p hr
    · intro k period p hr
      unfold readPriceSample at hr
      rw [hs, Store.lookup_insert_eq] at hr
      split at hr
      · cases hr
        exact ⟨hpriced.pos, hpriced.trades hL⟩
      · exact h.sample k period p hr
  | collectFees caller positionId =>
    obtain ⟨a, hx, -⟩ := reply_ok.mp hx
    obtain ⟨-, old, pool, insideA, insideB, position, t₁, t₂, -, -, -, -, -, -, -, -, rfl⟩ :=
      collectFees_ok hx
    exact ⟨h.pool, h.sample⟩
  | updateDynamicFee key =>
    obtain ⟨n, hx, -⟩ := reply_ok.mp hx
    obtain ⟨pool, hp, -, rfl⟩ := updateDynamicFee_ok hx
    have hpriced := h.pool key pool hp
    exact h.write rfl ⟨hpriced.tick, hpriced.pos, hpriced.trades⟩ (hsamples rfl)
  | init | pause | unpause | proposeUpgrade | approveUpgrade | executeUpgrade | rejectUpgrade
  | cancelUpgrade | token =>
    have hi := exec_idle rfl hx
    refine ⟨?_, ?_⟩
    · unfold readPool
      rw [hi.pools]
      exact h.pool
    · unfold readPriceSample
      rw [hsamples rfl]
      exact h.sample

/-- **Prices in every reachable state.** -/
theorem prices_run {d : Deployment} {tr : Trace} {s : State} (h : Run (machine d) tr s) :
    PricesInv s := by
  refine h.invariant ?_ fun env call r s s' _ hI hx => prices_step hI hx
  rintro s ⟨tokens, rfl⟩
  refine ⟨?_, ?_⟩
  · intro key pool hp
    cases hp
  · intro key period p hp
    cases hp

/-! ## The direction of a swap -/

/-- What a swap's input leaves after the fee. -/
def netInput (d : Deployment) (amountIn : Int) (feeBps : Nat) : Result Int := do
  let scaledFee ← d.i128 (amountIn * feeBps)
  let afterFee ← d.i128 (amountIn - scaledFee.tdiv 10000)
  pure (max afterFee 0)

/-- The price has not moved against the trade, and the tick is that of the price. -/
structure Directed (pool pool' : PoolState) (zeroForOne : Bool) : Prop where
  down : zeroForOne = true → pool'.sqrtPrice ≤ pool.sqrtPrice
  up : zeroForOne = false → pool.sqrtPrice ≤ pool'.sqrtPrice
  tick : pool'.currentTick = sqrtPriceToTick pool'.sqrtPrice

/-- A swap has moved its pool's price in its direction. -/
def SwapDirected (e : Event Env Call Reply State) : Prop :=
  match e.call with
  | .swap _ tokenIn tokenOut _ _ => ∃ pool pool',
    readPool e.before (swapKey tokenIn tokenOut) = some pool ∧
    readPool e.after (swapKey tokenIn tokenOut) = some pool' ∧
    Directed pool pool' (tokenIn < tokenOut)
  | _ => True

/-- The input reaches the price of the lowest tick from below, or moves the price towards it. -/
def Lifts (pool : PoolState) (n : Int) : Prop :=
  buyMaxIn pool.sqrtPrice minSqrtPrice pool.liquidity ≤ n ∨
    max pool.liquidity 1 ≤ saturatingMul n q64

/-- **The defect**: token A is sold to a pool below the ticks, and enough of it to move the price. -/
def SoldBelowTicks (e : Event Env Call Reply State) : Prop :=
  match e.call with
  | .swap _ tokenIn tokenOut amountIn _ => tokenIn < tokenOut ∧
    ∃ pool ∈ readPool e.before (swapKey tokenIn tokenOut), pool.sqrtPrice < minSqrtPrice ∧
      ∃ n ∈ (netInput e.env.toDeployment amountIn pool.dynamicFeeBps).toOption, Lifts pool n
  | _ => False

section Direction

variable {d : Deployment} {pool : PoolState} {zeroForOne : Bool} {amountIn n : Int} {step : SwapStep}

theorem netInput_nonneg {feeBps : Nat} (h : netInput d amountIn feeBps = .ok n) : 0 ≤ n := by
  simp only [netInput, bind_eq_ok, pure_eq_ok] at h
  obtain ⟨_, -, _, -, rfl⟩ := h
  exact le_max_right _ _

/-- A swap goes from the price towards the one of its target tick. -/
theorem quoteSwap_stepTo (h : quoteSwap d pool zeroForOne amountIn = .ok step) :
    ∃ target n, tickToSqrtPrice (targetTick pool zeroForOne) = .ok target ∧
      netInput d amountIn pool.dynamicFeeBps = .ok n ∧
      step.newSqrtPrice = (stepTo pool.sqrtPrice target pool.liquidity n).1 := by
  simp only [quoteSwap, computeSwapStep, bind_eq_ok] at h
  obtain ⟨target, ht, scaledFee, hfee, rest, hrest, h⟩ := h
  have hnet : netInput d amountIn pool.dynamicFeeBps = .ok (max rest 0) := by
    simp only [netInput, hfee, ok_bind, hrest]
    rfl
  refine ⟨target, max rest 0, ht, hnet, ?_⟩
  unfold stepTo
  by_cases hfall : target < pool.sqrtPrice
  · rw [if_pos hfall] at h ⊢
    cases h
    rfl
  · rw [if_neg hfall] at h ⊢
    cases h
    rfl

/-- Towards a price that is not above it, a step does not raise the price. -/
theorem stepTo_down {current target liquidity : Int} (hlo : minSqrtPrice ≤ target)
    (hhi : target ≤ maxSqrtPrice) (hn : 0 ≤ n) (hle : target ≤ current) :
    (stepTo current target liquidity n).1 ≤ current := by
  unfold stepTo
  split
  · next hfall =>
    rw [sellStep_price hlo hfall hn]
    exact hle
  · next hrise => exact (buyStep_price (not_lt.mp hrise) hhi hn).2.trans hle

/-- Towards a price that is not below it, a step does not lower the price. -/
theorem stepTo_up {current target liquidity : Int} (hhi : target ≤ maxSqrtPrice) (hn : 0 ≤ n)
    (hle : current ≤ target) : current ≤ (stepTo current target liquidity n).1 := by
  unfold stepTo
  rw [if_neg (not_lt.mpr hle)]
  exact (buyStep_price hle hhi hn).1

/-- Below the lowest tick, every swap goes up to it, and gets anywhere only if its input does. -/
theorem stepTo_below_iff {liquidity : Int} {current : Int} (hpos : 0 < current)
    (hbelow : current < minSqrtPrice) (hn : 0 ≤ n) :
    (stepTo current minSqrtPrice liquidity n).1 ≤ current ↔
      ¬ (buyMaxIn current minSqrtPrice liquidity ≤ n ∨ max liquidity 1 ≤ saturatingMul n q64) := by
  have hmin : minSqrtPrice < 2 ^ 64 := by decide
  rw [not_or, not_le, not_le]
  unfold stepTo buyStep
  rw [if_neg (not_lt.mpr hbelow.le)]
  simp only
  by_cases hfull : buyMaxIn current minSqrtPrice liquidity ≤ n
  · rw [if_pos hfull]
    show minSqrtPrice ≤ current ↔ _
    omega
  · rw [if_neg hfull]
    have hscaled : 0 ≤ saturatingMul n q64 := saturate_nonneg (mul_nonneg hn (by decide))
    have hL : 0 < max liquidity 1 := by omega
    rw [Int.tdiv_eq_ediv_of_nonneg hscaled]
    have hmoved : 0 ≤ saturatingMul n q64 / max liquidity 1 := Int.ediv_nonneg hscaled hL.le
    have hzero : saturatingMul n q64 / max liquidity 1 ≤ 0 ↔ saturatingMul n q64 < max liquidity 1 := by
      rw [← Int.lt_add_one_iff, Int.ediv_lt_iff_lt_mul hL]
      omega
    rw [← hzero]
    show min (saturatingAdd current (saturatingMul n q64 / max liquidity 1)) minSqrtPrice ≤ current ↔ _
    generalize saturatingMul n q64 / max liquidity 1 = moved at hmoved
    unfold saturatingAdd Checked.saturate
    omega

/-- The price of the tick below is not above the price, unless that is below all ticks. -/
theorem target_le {target : Int} (h : pool.Priced) (hmin : minSqrtPrice ≤ pool.sqrtPrice)
    (ht : tickToSqrtPrice (targetTick pool true) = .ok target) : target ≤ pool.sqrtPrice := by
  obtain ⟨q, hq, hle⟩ := tickPrice_le hmin
  have hbounds := sqrtPriceToTick_bounds pool.sqrtPrice
  have htick : targetTick pool true ≤ sqrtPriceToTick pool.sqrtPrice := by
    unfold targetTick
    rw [if_pos rfl, h.tick]
    omega
  rcases htick.lt_or_eq with hlt | heq
  · exact (tickToSqrtPrice_strictMono ht hq hlt).le.trans hle
  · rw [heq, hq] at ht
    cases ht
    exact hle

/-- The price of the tick above is not below the price. -/
theorem le_target {target : Int} (h : pool.Priced) (hmax : pool.sqrtPrice ≤ maxSqrtPrice)
    (ht : tickToSqrtPrice (targetTick pool false) = .ok target) : pool.sqrtPrice ≤ target := by
  have hbounds := sqrtPriceToTick_bounds pool.sqrtPrice
  have htarget : targetTick pool false = min (sqrtPriceToTick pool.sqrtPrice + 1) maxTick := by
    unfold targetTick
    rw [if_neg Bool.false_ne_true, h.tick]
    omega
  have hback := sqrtPriceToTick_of_tick ht
  rw [htarget] at ht hback
  by_contra hlt
  have hmono := sqrtPriceToTick_mono (not_le.mp hlt).le
  -- a tick above the price's own, unless that is the highest
  have htop : sqrtPriceToTick pool.sqrtPrice = maxTick := by omega
  rw [htop] at ht
  have hlast : tickToSqrtPrice maxTick = .ok maxSqrtPrice := by decide
  have hsame : min (maxTick + 1) maxTick = maxTick := by decide
  rw [hsame, hlast] at ht
  cases ht
  exact hlt hmax

/-- **The direction of a quote.** -/
theorem quoteSwap_directed_iff (h : pool.Priced) (hL : pool.liquidity ≠ 0)
    (hq : quoteSwap d pool zeroForOne amountIn = .ok step) :
    ((zeroForOne = true → step.newSqrtPrice ≤ pool.sqrtPrice) ∧
      (zeroForOne = false → pool.sqrtPrice ≤ step.newSqrtPrice)) ↔
    ¬ (zeroForOne = true ∧ pool.sqrtPrice < minSqrtPrice ∧
      ∃ n ∈ (netInput d amountIn pool.dynamicFeeBps).toOption, Lifts pool n) := by
  obtain ⟨target, n, ht, hnet, hprice⟩ := quoteSwap_stepTo hq
  obtain ⟨hlo, hhi⟩ := tickToSqrtPrice_bounds ht
  have hn := netInput_nonneg hnet
  have hinput : (∃ n ∈ (netInput d amountIn pool.dynamicFeeBps).toOption, Lifts pool n) ↔
      Lifts pool n := by
    rw [hnet]
    constructor
    · rintro ⟨m, hm, hlifts⟩
      cases hm
      exact hlifts
    · exact fun hlifts => ⟨n, rfl, hlifts⟩
  rw [hprice, hinput]
  cases zeroForOne with
  | false =>
    have hup : pool.sqrtPrice ≤ (stepTo pool.sqrtPrice target pool.liquidity n).1 :=
      stepTo_up hhi hn (le_target h (h.trades hL) ht)
    simp [hup]
  | true =>
    rcases le_or_gt minSqrtPrice pool.sqrtPrice with hmin | hbelow
    · have hdown : (stepTo pool.sqrtPrice target pool.liquidity n).1 ≤ pool.sqrtPrice :=
        stepTo_down hlo hhi hn (target_le h hmin ht)
      simp [hdown, hmin]
    · have hfirst : targetTick pool true = minTick := by
        have hlow : pool.currentTick = minTick := by
          have hbounds := sqrtPriceToTick_bounds pool.sqrtPrice
          have hmono := sqrtPriceToTick_mono hbelow.le
          have hzero : sqrtPriceToTick minSqrtPrice = minTick := by decide
          rw [h.tick]
          omega
        unfold targetTick
        rw [if_pos rfl, hlow]
        decide
      have hprice : tickToSqrtPrice minTick = .ok minSqrtPrice := by decide
      rw [hfirst, hprice] at ht
      cases ht
      have hiff : (stepTo pool.sqrtPrice minSqrtPrice pool.liquidity n).1 ≤ pool.sqrtPrice ↔
          ¬ Lifts pool n := stepTo_below_iff h.pos hbelow hn
      simp [hbelow, hiff]

end Direction

/-- **The direction of a swap.**  In every run a swap moves its pool's price in its direction and
stores the tick of the price, exactly if it is no sale of token A that moves a price below the
ticks. -/
theorem directed_iff {d : Deployment} {tr : Trace} {s : State} (h : Run (machine d) tr s) :
    ∀ e ∈ tr, SwapDirected e ↔ ¬ SoldBelowTicks e := by
  intro e he
  obtain ⟨tr', hrun, -, hx⟩ := h.of_mem he
  have hinv := prices_run hrun
  obtain ⟨env, call, r, s₀, s₁⟩ := e
  cases call with
  | swap caller tokenIn tokenOut amountIn minOut =>
    obtain ⟨a, hx, -⟩ := reply_ok.mp hx
    obtain ⟨-, -, pool, step, growthA, growthB, s₂, volume, t₁, t₂, fees, samples, hp, hL, hq, -, -, -,
      -, -, -, hs⟩ := swap_ok hx
    have hiff := quoteSwap_directed_iff (hinv.pool _ pool hp) hL hq
    rw [decide_eq_true_eq] at hiff
    have hbad : SoldBelowTicks ⟨env, .swap caller tokenIn tokenOut amountIn minOut, r, s₀, s₁⟩ ↔
        tokenIn < tokenOut ∧ pool.sqrtPrice < minSqrtPrice ∧
          ∃ n ∈ (netInput env.toDeployment amountIn pool.dynamicFeeBps).toOption, Lifts pool n := by
      unfold SoldBelowTicks
      simp only [hp, Option.mem_some_iff, exists_eq_left']
    obtain ⟨pool', hp', hprice, htick⟩ : ∃ pool', readPool s₁ (swapKey tokenIn tokenOut) = some pool' ∧
        pool'.sqrtPrice = step.newSqrtPrice ∧
        pool'.currentTick = sqrtPriceToTick step.newSqrtPrice := by
      rw [show s₁ = _ from hs]
      exact ⟨_, AList.lookup_insert _, rfl, rfl⟩
    rw [← hprice] at hiff
    rw [hbad, ← hiff]
    constructor
    · rintro ⟨p, p', hread, hread', hdir⟩
      obtain rfl := Option.some.inj (hp.symm.trans hread)
      obtain rfl := Option.some.inj (hp'.symm.trans hread')
      exact ⟨fun hlt => hdir.down (decide_eq_true hlt), hdir.up⟩
    · rintro ⟨hdown, hup⟩
      exact ⟨pool, pool', hp, hp', fun hlt => hdown (of_decide_eq_true hlt), hup, by rw [htick, hprice]⟩
  | _ => exact ⟨fun _ hbad => hbad, fun _ => trivial⟩

instance (pool : PoolState) (n : Int) : Decidable (Lifts pool n) :=
  inferInstanceAs (Decidable (_ ∨ _))

instance (e : Event Env Call Reply State) : Decidable (SoldBelowTicks e) := by
  induction e using Event.casesOn with
  | _ _ call => induction call using Call.casesOn <;> unfold SoldBelowTicks <;> infer_instance

/-- Two swaps in a pool whose price is within the table. -/
theorem directed_both_ways :
    ∃ (tr : Trace) (s : State), Run (machine ⟨0, true⟩) tr s ∧ tr.length = 9 ∧
      ∀ e ∈ tr, SwapDirected e := by
  have hinit : (machine ⟨0, true⟩).init { tokens := .empty } := ⟨_, rfl⟩
  obtain ⟨tr, s, hrun, hok⟩ := Machine.exists_run_of_replay hinit
    (openPool ++ [deposit512, (callAt 3 [2], .swap 2 5 6 100000 0),
      (callAt 4 [2], .swap 2 6 5 100000 0)])
    (fun tr _ => tr.length = 9 ∧ ∀ e ∈ tr, ¬ SoldBelowTicks e) (by decide) (by decide) (by decide)
  obtain ⟨hlen, hall⟩ := of_decide_eq_true hok
  exact ⟨tr, s, hrun, hlen, fun e he => (directed_iff hrun e he).mpr (hall e he)⟩

/-- **A sale that raises the price.**  The pool of 5 and 6 opens at half the price of tick 0, below
the lowest tick; after a purchase a sale of token 5 raises the price again. -/
theorem sale_raises_price :
    ¬ ∀ (d : Deployment) (tr : Trace) (s : State), Run (machine d) tr s →
      ∀ e ∈ tr, SwapDirected e := by
  intro hclaim
  have hinit : (machine ⟨0, true⟩).init { tokens := .empty } := ⟨_, rfl⟩
  obtain ⟨tr, s, hrun, hok⟩ := Machine.exists_run_of_replay hinit
    (openPool.take 5 ++ [(callAt 1 [9], .createPool 9 poolOf56 30 (2 ^ 63)),
      (callAt 2 [1], .addLiquidity 1 poolOf56 ⟨-8192, 0, 1000000, 0⟩ 0 0),
      (callAt 3 [2], .swap 2 6 5 1000 0), (callAt 4 [2], .swap 2 5 6 100 0)])
    (fun tr _ => tr.head?.map (fun e => (e.call,
        (readPool e.before poolOf56).map PoolState.sqrtPrice,
        (readPool e.after poolOf56).map PoolState.sqrtPrice)) =
      some (.swap 2 5 6 100 0, some 9232681481571063624, some 9233615227279818670))
    (by decide) (by decide) (by decide)
  obtain ⟨e, he, heq⟩ := Option.map_eq_some_iff.mp (of_decide_eq_true hok)
  obtain ⟨hcall, hbefore, hafter⟩ : e.call = .swap 2 5 6 100 0 ∧
      (readPool e.before poolOf56).map PoolState.sqrtPrice = some 9232681481571063624 ∧
      (readPool e.after poolOf56).map PoolState.sqrtPrice = some 9233615227279818670 := by
    simpa using heq
  have hdirected := hclaim _ _ _ hrun e (List.mem_of_mem_head? he)
  unfold SwapDirected at hdirected
  rw [hcall] at hdirected
  obtain ⟨pool, pool', hp, hp', hdir⟩ := hdirected
  have hkey : swapKey 5 6 = poolOf56 := rfl
  rw [hkey] at hp hp'
  rw [hp] at hbefore
  rw [hp'] at hafter
  have hdown := hdir.down (by decide)
  have hlow : pool.sqrtPrice = 9232681481571063624 := Option.some.inj hbefore
  have hhigh : pool'.sqrtPrice = 9233615227279818670 := Option.some.inj hafter
  omega

end Stellara.Amm
