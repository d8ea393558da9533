import Stellara.Amm.Liquidity
import Stellara.Amm.Sound

/-!
# Solvency of the AMM (`contracts/amm/src/lib.rs`)

A sound call changes what closing the positions of a pool pays by no more than what it moves
into the pool (`Kept`), so a run of sound calls is solvent:

    Run tr s → (∀ e ∈ tr, SoundStep e) → Solvent d tr s          (solvent_run)

A swap brings its net input and the fee it credits exactly when it is charged no fee
(`swap_brings_fee_iff`).
-/

namespace Stellara.Amm

open Outcome

/-! ## One call -/

/-- The price of a pool, zero when there is none. -/
def priceOf (s : State) (key : PoolKey) : Int := ((readPool s key).map PoolState.sqrtPrice).getD 0

/-- After the call nothing is credited or reserved, and closing the positions of a pool pays
no more than before and what the call moved into the pool. -/
def Kept (d : Deployment) (e : Event Env Call Reply State) : Prop :=
  NoFees e.after ∧ ∀ key isA,
    closing d e.after.positions key isA (priceOf e.after key) ≤
      closing d e.before.positions key isA (priceOf e.before key) + flow key isA e

theorem priceOf_insert {s s' : State} {key : PoolKey} {pool : PoolState}
    (h : s'.pools = s.pools.insert key pool) (k : PoolKey) :
    priceOf s' k = if k = key then pool.sqrtPrice else priceOf s k := by
  unfold priceOf readPool
  rw [h, Store.lookup_insert_eq]
  split
  · rfl
  · rfl

theorem priceOf_of_read {s : State} {key : PoolKey} {pool : PoolState}
    (h : readPool s key = some pool) : priceOf s key = pool.sqrtPrice := by
  unfold priceOf
  rw [h]
  rfl

/-- A call that leaves the price of the pool it writes leaves all prices. -/
theorem priceOf_same {s s' : State} {key : PoolKey} {pool pool' : PoolState}
    (hp : readPool s key = some pool) (h : s'.pools = s.pools.insert key pool')
    (hprice : pool'.sqrtPrice = pool.sqrtPrice) (k : PoolKey) : priceOf s' k = priceOf s k := by
  rw [priceOf_insert h]
  split
  · next heq => rw [heq, priceOf_of_read hp, hprice]
  · rfl

theorem closing_of_no_pool {d : Deployment} {s : State} {key : PoolKey} (hw : Wf s)
    (h : readPool s key = none) (isA : Bool) (sqrtPrice : Int) :
    closing d s.positions key isA sqrtPrice = 0 := by
  apply Store.total_zero
  intro id p hr
  obtain ⟨-, -, -, pool, hp⟩ := hw.position id p hr
  apply if_neg
  rintro rfl
  rw [h] at hp
  cases hp

theorem side_max (isA : Bool) (a b : Int) : side isA (max a 0, max b 0) = max (side isA (a, b)) 0 := by
  cases isA <;> rfl

theorem side_neg_max (isA : Bool) (a b : Int) :
    side isA (-max a 0, -max b 0) = -max (side isA (a, b)) 0 := by
  cases isA <;> rfl

theorem side_swap (isA : Bool) (tokenIn tokenOut : Address) (amountIn amountOut : Int) :
    side isA (if tokenIn < tokenOut then (amountIn, -amountOut) else (-amountOut, amountIn)) =
      if isA = decide (tokenIn < tokenOut) then amountIn else -amountOut := by
  by_cases hlt : tokenIn < tokenOut <;> cases isA <;> simp [hlt, side]

/-- Closing after a sound move: what the swap charges covers the rise in the token sold, and
what it pays is covered by the fall in the token bought. -/
theorem closing_swap {d : Deployment} {positions : Store Nat LpPosition} {key : PoolKey}
    {pool : PoolState} {zeroForOne : Bool} {target amountIn new charged out : Int}
    (hlive : ∀ id p, positions.lookup id = some p → 0 < p.liquidity) (hpos : 0 < pool.sqrtPrice)
    (hL : pool.liquidity ≠ 0) (htarget : target ≤ maxSqrtPrice) (hamount : 0 ≤ amountIn)
    (hstep : stepTo pool.sqrtPrice target pool.liquidity amountIn = (new, charged))
    (hout : out = stepOut target pool.sqrtPrice new pool.liquidity) (hcharged : 0 ≤ charged)
    (hmove : MoveSound d positions key pool zeroForOne target amountIn new) (isA : Bool) :
    closing d positions key isA new ≤ closing d positions key isA pool.sqrtPrice +
      if isA = zeroForOne then charged else -out := by
  rcases hmove with rfl | ⟨hdir, hband, hmax, hdust, hfull⟩
  · rw [stepOut_self] at hout
    split <;> omega
  · have hL : 0 < pool.liquidity := lt_of_le_of_ne (inBand_liquidity hlive hband) (Ne.symm hL)
    obtain ⟨hin, hpaid⟩ := stepTo_priced hpos htarget hL hamount hmax hstep
    have hclosing := closing_move d hband isA
    have hdust := hdust isA
    rw [hdir] at hin hpaid hfull
    rw [← hout] at hpaid
    apply Int.lt_add_one_iff.mp
    by_cases hside : isA = zeroForOne
    · rw [if_pos hside]
      rw [hside] at hclosing hdust ⊢
      have hlt : (closing d positions key zeroForOne new : ℚ) <
          closing d positions key zeroForOne pool.sqrtPrice + charged + 1 := by
        rcases hin with hin | ⟨hreach, hin⟩
        · linarith
        · have hkept := hfull hreach
          linarith
      exact_mod_cast hlt
    · rw [if_neg hside]
      have hside : isA = !zeroForOne := by
        cases isA <;> cases zeroForOne <;> simp_all
      rw [hside] at hclosing hdust ⊢
      have hlt : (closing d positions key (!zeroForOne) new : ℚ) <
          closing d positions key (!zeroForOne) pool.sqrtPrice + -out + 1 := by
        linarith
      exact_mod_cast hlt

section Calls

variable {env : Env} {s s' : State}

theorem createPool_kept {caller : Address} {key : PoolKey} {feeTier : Nat} {price : Int} (hw : Wf s)
    (hn : NoFees s) (hx : createPool env s caller key feeTier price = .ok s') :
    Kept env.toDeployment ⟨env, .createPool caller key feeTier price, .done, s, s'⟩ := by
  obtain ⟨htier, hprice, hnone, rfl⟩ := createPool_ok hx
  constructor
  · exact hn.update rfl ⟨hprice, htier, htier, rfl, rfl, rfl, rfl⟩ hn.position hn.tick
  · intro k isA
    rw [flow_of_none rfl, add_zero]
    show closing env.toDeployment s.positions k isA (priceOf _ k) ≤
      closing env.toDeployment s.positions k isA (priceOf s k)
    by_cases hk : k = key
    · rw [hk, closing_of_no_pool hw hnone, closing_of_no_pool hw hnone]
    · rw [priceOf_insert (s := s) rfl, if_neg hk]

/-- A deposit brings what closing the new position pays. -/
theorem addLiquidity_kept {caller : Address} {key : PoolKey} {offer : Offer} {minA minB : Int}
    {r : AddLiquidityResult} (hw : Wf s) (hn : NoFees s)
    (hx : addLiquidity env s caller key offer minA minB = .ok (r, s'))
    (hsound : NoReserve env.toDeployment s key offer) :
    Kept env.toDeployment ⟨env, .addLiquidity caller key offer minA minB, .added r, s, s'⟩ := by
  obtain ⟨-, pool, deposit, t₁, t₂, pool₁, insideA, insideB, reserveA, reserveB, pool₂, owners, hp,
    hq, -, -, hact, hin, hres, hlock, rfl, rfl⟩ := addLiquidity_ok hx
  have hbare := hn.pool key pool hp
  have hbare₁ := activate_bare hbare hact
  have hprice₁ : pool₁.sqrtPrice = pool.sqrtPrice := by
    obtain ⟨active, ⟨-, total, -, rfl⟩ | ⟨-, rfl⟩⟩ := activate_ok hact <;> rfl
  rw [feeGrowthInside_zero hn hbare₁.growthA hbare₁.growthB] at hin
  cases hin
  have hzero : (reserveA, reserveB) = (0, 0) := by
    refine hsound pool hp deposit (by rw [hq]; rfl) (reserveA, reserveB) ?_
    unfold quoteReserve at hres ⊢
    rw [hprice₁] at hres
    rw [hres]
    rfl
  cases hzero
  have hbare₂ := lockReserve_bare hbare₁ hlock
  have hprice₂ : pool₂.sqrtPrice = pool.sqrtPrice := by
    obtain ⟨ra, rb, -, -, rfl⟩ := lockReserve_ok hlock
    exact hprice₁
  constructor
  · refine hn.update rfl hbare₂ ?_ hn.tick
    intro id p hr
    have hr : (s.positions.insert _ _).lookup id = some p := hr
    rw [Store.lookup_insert_eq] at hr
    split at hr
    · cases hr
      exact ⟨rfl, rfl, rfl, rfl⟩
    · exact hn.position id p hr
  · intro k isA
    rw [flow_of_moved rfl, side_max]
    show closing env.toDeployment (s.positions.insert _ _) k isA (priceOf _ k) ≤
      closing env.toDeployment s.positions k isA (priceOf s k) + _
    rw [priceOf_same hp rfl hprice₂, closing_insert_new hw.fresh]
    show _ + (if key = k then payout env.toDeployment offer.tickLower offer.tickUpper
      deposit.liquidity isA (priceOf s k) else 0) ≤ _
    split
    · next hk =>
      rw [← hk, priceOf_of_read hp, payout_of_ok (quoteDeposit_amounts hq)]
    · exact le_refl _

/-- Leaving pays no more than it takes from what closing pays. -/
theorem removeLiquidity_kept {caller : Address} {positionId : Nat} {x minA minB : Int}
    {r : RemoveLiquidityResult} (hw : Wf s) (hn : NoFees s)
    (hx : removeLiquidity env s caller positionId x minA minB = .ok (r, s'))
    (hsound : RemovalExact s positionId x) :
    Kept env.toDeployment ⟨env, .removeLiquidity caller positionId x minA minB, .removed r, s, s'⟩ := by
  obtain ⟨-, old, pool, insideA, insideB, position, outA, outB, hedgeA, hedgeB, pool₁, sumA, sumB,
    pool₂, t₁, t₂, owners, hpos, hx0, hxle, hp, hin, hacc, hout, hhedge, hunlock, hsumA, hsumB, hde,
    -, -, rfl, rfl⟩ := removeLiquidity_ok hx
  have hbare := hn.pool _ pool hp
  have hold := hn.position _ old hpos
  obtain rfl := (accrue_eq_self hn hbare hold hin hacc).symm
  have hzero := computeHedgeRelease_bare hbare hhedge
  cases hzero
  have hbare₂ := deactivate_bare (unlockReserve_bare hbare hunlock) hde
  have hprice₂ : pool₂.sqrtPrice = pool.sqrtPrice := by
    obtain ⟨ra, rb, -, -, rfl⟩ := unlockReserve_ok hunlock
    obtain ⟨-, total, active, -, rfl⟩ | ⟨-, rfl⟩ := deactivate_ok hde <;> rfl
  -- what is paid are the amounts of the range
  have hsums : sumA = outA ∧ sumB = outB := by
    obtain ⟨lower, upper, -, -, hamounts⟩ := rangeAmounts_ok hout
    rw [hamounts] at hout
    obtain ⟨hA, hB⟩ := amountsForLiquidity_inI128 hout
    rw [add_zero] at hsumA hsumB
    exact ⟨i128_exact hsumA hA, i128_exact hsumB hB⟩
  obtain ⟨rfl, rfl⟩ := hsums
  have hpaid : ∀ isA, max (side isA (sumA, sumB)) 0 +
      payout env.toDeployment old.tickLower old.tickUpper (old.liquidity - x) isA pool.sqrtPrice ≤
        payout env.toDeployment old.tickLower old.tickUpper old.liquidity isA pool.sqrtPrice := by
    intro isA
    rcases hsound old hpos pool hp with rfl | hun
    · rw [payout_of_ok hout, sub_self, payout_zero, add_zero]
    · exact payout_split hun hx0 hxle hout isA
  have hid : old.id = positionId := (hw.position positionId old hpos).1
  have hlookup : s.positions.lookup ({ old with liquidity := old.liquidity - x } : LpPosition).id =
      some old := by
    show s.positions.lookup old.id = some old
    rw [hid]
    exact hpos
  constructor
  · refine hn.update rfl hbare₂ ?_ hn.tick
    intro id p hr
    have hr : (restPositions s _).lookup id = some p := hr
    rw [lookup_restPositions] at hr
    split at hr
    · split at hr
      · cases hr
      · cases hr
        exact ⟨hold.owedA, hold.owedB, hold.lastA, hold.lastB⟩
    · exact hn.position id p hr
  · intro k isA
    have hmoved : ∀ after, moved ⟨env, .removeLiquidity caller positionId x minA minB,
        .removed ⟨sumA, sumB, 0, 0⟩, s, after⟩ =
          some (old.poolKey, -max sumA 0, -max sumB 0) := by
      intro after
      show (readPosition s positionId).map _ = _
      rw [hpos]
      rfl
    rw [flow_of_moved (hmoved _), side_neg_max]
    show closing env.toDeployment (restPositions s _) k isA (priceOf _ k) ≤
      closing env.toDeployment s.positions k isA (priceOf s k) + _
    rw [priceOf_same hp rfl hprice₂, closing_restPositions hlookup]
    unfold closePosition
    dsimp only
    split
    · next hk =>
      have hpaid := hpaid isA
      rw [← hk, priceOf_of_read hp]
      omega
    · omega

/-- Nothing is collected when nothing was credited. -/
theorem collectFees_kept {caller : Address} {positionId : Nat} {owed : Int × Int} (hw : Wf s)
    (hn : NoFees s) (hx : collectFees env s caller positionId = .ok (owed, s')) :
    Kept env.toDeployment ⟨env, .collectFees caller positionId, .collected owed, s, s'⟩ := by
  obtain ⟨owedA, owedB⟩ := owed
  obtain ⟨-, old, pool, insideA, insideB, position, t₁, t₂, hpos, hp, hin, hacc, hA, hB, -, -, rfl⟩ :=
    collectFees_ok hx
  have hbare := hn.pool _ pool hp
  have hold := hn.position _ old hpos
  obtain rfl := (accrue_eq_self hn hbare hold hin hacc).symm
  rw [hold.owedA] at hA
  rw [hold.owedB] at hB
  subst hA hB
  have hid : old.id = positionId := (hw.position positionId old hpos).1
  have hlookup : s.positions.lookup old.id = some old := by
    rw [hid]
    exact hpos
  constructor
  · refine ⟨hn.pool, ?_, hn.tick⟩
    intro id p hr
    have hr : (s.positions.insert _ _).lookup id = some p := hr
    rw [Store.lookup_insert_eq] at hr
    split at hr
    · cases hr
      exact ⟨rfl, rfl, hold.lastA, hold.lastB⟩
    · exact hn.position id p hr
  · intro k isA
    have hmoved : ∀ after, moved ⟨env, .collectFees caller positionId, .collected (0, 0), s, after⟩ =
        some (old.poolKey, 0, 0) := by
      intro after
      show (readPosition s positionId).map _ = _
      rw [hpos]
      rfl
    have hflow : (if old.poolKey = k then side isA (0, 0) else 0) = 0 := by
      rw [show side isA (0, 0) = 0 by cases isA <;> rfl, ite_self]
    rw [flow_of_moved (hmoved _), hflow, add_zero]
    show closing env.toDeployment (s.positions.insert _ _) k isA (priceOf s k) ≤
      closing env.toDeployment s.positions k isA (priceOf s k)
    rw [closing_insert_old hlookup]
    show _ - _ + closePosition env.toDeployment k isA (priceOf s k) old ≤ _
    omega

/-- **A sound swap** is paid for. -/
theorem swap_kept {caller tokenIn tokenOut : Address} {amountIn minOut : Int} {r : SwapResult}
    (hw : Wf s) (hn : NoFees s)
    (hx : swap env s caller tokenIn tokenOut amountIn minOut = .ok (r, s'))
    (hsound : SwapSound env.toDeployment s (swapKey tokenIn tokenOut) (decide (tokenIn < tokenOut))
      amountIn) :
    Kept env.toDeployment ⟨env, .swap caller tokenIn tokenOut amountIn minOut, .swapped r, s, s'⟩ := by
  obtain ⟨-, hamount, pool, step, growthA, growthB, s₁, volume, t₁, t₂, fees, samples, hp, hL, hq,
    hgrowth, hcross, rfl, h₁, -, rfl, rfl⟩ := swap_ok hx
  have hbare := hn.pool _ pool hp
  obtain ⟨hfee, hmove⟩ := hsound pool hp
  obtain ⟨target, ht, hstep, hout, hpaid⟩ := quoteSwap_ok hq hamount hbare.fee hfee
  obtain ⟨hlo, hhi⟩ := tickToSqrtPrice_bounds ht
  have hmove := hmove target (by rw [ht]; rfl)
  rw [hstep] at hmove
  rw [hpaid] at hgrowth
  obtain ⟨rfl, rfl⟩ := swapFeeGrowth_zero hbare hgrowth
  have hprice := stepTo_pos hbare.price hlo hhi hamount.le pool.liquidity
  rw [hstep] at hprice
  have htick := crossIfMoved_zero (s := recordPriceSample env s _ pool.sqrtPrice) hn.tick hbare hcross
  constructor
  · exact hn.update rfl ⟨hprice, hbare.tier, hbare.fee, rfl, rfl, hbare.reserveA, hbare.reserveB⟩
      hn.position htick
  · intro k isA
    rw [flow_of_moved rfl, side_swap]
    show closing env.toDeployment s.positions k isA (priceOf _ k) ≤
      closing env.toDeployment s.positions k isA (priceOf s k) + _
    rw [priceOf_insert (s := s) rfl]
    by_cases hk : k = swapKey tokenIn tokenOut
    · rw [if_pos hk, if_pos hk.symm, hk, priceOf_of_read hp]
      exact closing_swap (fun id p hr => (hw.position id p hr).2.2.1) hbare.price hL hhi hamount.le
        hstep hout (Ledger.transfer_bounds h₁).1 hmove isA
    · rw [if_neg hk, if_neg (Ne.symm hk), add_zero]

end Calls

/-! ## Runs -/

theorem kept_step {env : Env} {call : Call} {r : Reply} {s s' : State} (hw : Wf s) (hn : NoFees s)
    (hx : exec env call s = .ok (r, s')) (hsound : SoundCall env.toDeployment s call) :
    Kept env.toDeployment ⟨env, call, r, s, s'⟩ := by
  cases call with
  | createPool caller key feeTier price =>
    obtain ⟨hcall, rfl⟩ := done_ok.mp hx
    exact createPool_kept hw hn hcall
  | addLiquidity caller key offer minA minB =>
    obtain ⟨a, hcall, rfl⟩ := reply_ok.mp hx
    exact addLiquidity_kept hw hn hcall hsound
  | removeLiquidity caller positionId x minA minB =>
    obtain ⟨a, hcall, rfl⟩ := reply_ok.mp hx
    exact removeLiquidity_kept hw hn hcall hsound
  | collectFees caller positionId =>
    obtain ⟨a, hcall, rfl⟩ := reply_ok.mp hx
    exact collectFees_kept hw hn hcall
  | swap caller tokenIn tokenOut amountIn minOut =>
    obtain ⟨a, hcall, rfl⟩ := reply_ok.mp hx
    exact swap_kept hw hn hcall hsound
  | updateDynamicFee key =>
    obtain ⟨n, hcall, rfl⟩ := reply_ok.mp hx
    obtain ⟨pool, hp, hle, rfl⟩ := updateDynamicFee_ok hcall
    have hbare := hn.pool key pool hp
    constructor
    · exact hn.update rfl ⟨hbare.price, hbare.tier, hbare.tier.trans_le hle, hbare.growthA,
        hbare.growthB, hbare.reserveA, hbare.reserveB⟩ hn.position hn.tick
    · intro k isA
      rw [flow_of_none rfl, add_zero]
      have hprice : priceOf (writePool s key { pool with dynamicFeeBps := n }) k = priceOf s k := by
        rw [priceOf_insert (s := s) rfl]
        split
        · next hk => rw [hk, priceOf_of_read hp]
        · rfl
      show closing env.toDeployment s.positions k isA (priceOf _ k) ≤
        closing env.toDeployment s.positions k isA (priceOf s k)
      rw [hprice]
  | init | pause | unpause | proposeUpgrade | approveUpgrade | executeUpgrade | rejectUpgrade
  | cancelUpgrade | token =>
    have hidle := exec_idle rfl hx
    refine ⟨hn.idle hidle, ?_⟩
    intro k isA
    rw [flow_of_none rfl, add_zero]
    unfold priceOf readPool
    rw [hidle.positions, hidle.pools]

/-- In a run of sound calls nothing is credited or reserved, and the holdings cover what
closing the positions pays. -/
theorem covered_run {d : Deployment} {tr : Trace} {s : State} (h : Run (machine d) tr s)
    (hsound : ∀ e ∈ tr, SoundStep e) : NoFees s ∧
      ∀ key isA, closing d s.positions key isA (priceOf s key) ≤ holdings key isA tr := by
  induction h with
  | @start s h =>
    obtain ⟨tokens, rfl⟩ := h
    exact ⟨⟨fun key pool hr => (by cases hr), fun id p hr => (by cases hr), fun _ _ _ => rfl⟩,
      fun _ _ => le_refl _⟩
  | @commit tr s s' env call r h hv _ hx ih =>
    rw [List.forall_mem_cons] at hsound
    obtain ⟨hn, hcovered⟩ := ih hsound.2
    obtain ⟨rfl, -⟩ := hv
    obtain ⟨hn', hkept⟩ := kept_step (wf_run h) hn hx hsound.1
    refine ⟨hn', fun key isA => ?_⟩
    have hcovered := hcovered key isA
    have hkept := hkept key isA
    unfold holdings at hcovered ⊢
    rw [tally_cons]
    dsimp only at hkept
    omega

/-- **Solvency of sound runs.** -/
theorem solvent_run {d : Deployment} {tr : Trace} {s : State} (h : Run (machine d) tr s)
    (hsound : ∀ e ∈ tr, SoundStep e) : Solvent d tr s := by
  obtain ⟨hn, hcovered⟩ := covered_run h hsound
  intro key pool isA hp
  have hbare := hn.pool key pool hp
  have hcovered := hcovered key isA
  rw [priceOf_of_read hp] at hcovered
  rw [credited_eq_zero hn hbare, reserve_eq_zero hbare]
  omega

/-- What a swap charges as its fee. -/
theorem swap_fee {d : Deployment} {pool : PoolState} {zeroForOne : Bool} {amountIn : Int}
    {step : SwapStep} (h : quoteSwap d pool zeroForOne amountIn = .ok step)
    (hexact : d.overflowChecks = true ∨ InI128 (amountIn * pool.dynamicFeeBps)) :
    step.feePaid = (amountIn * pool.dynamicFeeBps).tdiv 10000 := by
  simp only [quoteSwap, computeSwapStep, bind_eq_ok] at h
  obtain ⟨target, -, scaled, hscaled, after, -, h⟩ := h
  have hscaled : scaled = amountIn * pool.dynamicFeeBps := by
    rcases hexact with hc | hin
    · exact i128_checked hc hscaled
    · exact i128_exact hscaled hin
  rw [← hscaled]
  split at h
  · cases h
    rfl
  · cases h
    rfl

/-- A swap brings its net input and its fee exactly when the fee is zero. -/
theorem swap_brings_fee_iff {d : Deployment} {env : Env} {s s' : State}
    {caller tokenIn tokenOut : Address} {amountIn minOut : Int} {r : SwapResult} (hv : env.Of d)
    (hx : swap env s caller tokenIn tokenOut amountIn minOut = .ok (r, s'))
    (hne : tokenIn ≠ tokenOut) {pool : PoolState}
    (hp : readPool s (swapKey tokenIn tokenOut) = some pool)
    (hexact : d.overflowChecks = true ∨ InI128 (amountIn * pool.dynamicFeeBps)) :
    s.tokens.balance tokenIn d.self + r.amountIn + r.feePaid ≤ s'.tokens.balance tokenIn d.self ↔
      amountIn * pool.dynamicFeeBps < 10000 := by
  obtain ⟨rfl, -⟩ := id hv
  obtain ⟨hs, hamount, pool', step, growthA, growthB, s₁, volume, t₁, t₂, fees, samples, hp', -, hq,
    -, -, -, h₁, h₂, rfl, rfl⟩ := swap_ok hx
  cases hp.symm.trans hp'
  have hb := balance_swap (hv.ne_self hs) h₁ h₂ tokenIn
  rw [if_pos rfl, if_neg hne, add_zero] at hb
  have hfee := swap_fee hq hexact
  have hfee0 : 0 ≤ amountIn * pool.dynamicFeeBps := mul_nonneg hamount.le (by omega)
  rw [Int.tdiv_eq_ediv_of_nonneg hfee0] at hfee
  show s.tokens.balance tokenIn env.self + step.amountIn + step.feePaid ≤
    Ledger.balance t₂ tokenIn env.self ↔ _
  rw [hb]
  omega

/-- **Solvency of the AMM.**  In a run of sound calls the contract holds, for every pool and
each of its tokens, what closing the positions pays, the credited fees and the reserve; and a
swap brings its net input and the whole fee exactly when it is charged none. -/
theorem amm_solvency {d : Deployment} {tr : Trace} {s : State} (h : Run (machine d) tr s) :
    ((∀ e ∈ tr, SoundStep e) → Solvent d tr s) ∧
    ∀ e ∈ tr, ∀ caller tokenIn tokenOut amountIn minOut r pool,
      e.call = .swap caller tokenIn tokenOut amountIn minOut → e.ret = .swapped r →
      tokenIn ≠ tokenOut → readPool e.before (swapKey tokenIn tokenOut) = some pool →
      (d.overflowChecks = true ∨ InI128 (amountIn * pool.dynamicFeeBps)) →
      (e.before.tokens.balance tokenIn d.self + r.amountIn + r.feePaid ≤
          e.after.tokens.balance tokenIn d.self ↔
        amountIn * pool.dynamicFeeBps < 10000) := by
  refine ⟨solvent_run h, ?_⟩
  intro e he caller tokenIn tokenOut amountIn minOut r pool hcall hret hne hp hexact
  obtain ⟨-, -, hv, hx⟩ := h.of_mem he
  rw [hcall, hret] at hx
  obtain ⟨a, hx, ha⟩ := reply_ok.mp hx
  cases ha
  exact swap_brings_fee_iff hv hx hne hp hexact

/-! ## Runs of one position -/

/-- The run of a deposit and a swap that pays a fee of 300: the fee is credited to the
position, but the contract received the net input only. -/
theorem credited_not_collected :
    ∃ (tr : Trace) (s : State), Run (machine ⟨0, true⟩) tr s ∧ ¬ Solvent ⟨0, true⟩ tr s := by
  have hinit : (machine ⟨0, true⟩).init { tokens := .empty } := ⟨_, rfl⟩
  obtain ⟨tr, s, hrun, hok⟩ := Machine.exists_run_of_replay hinit
    (openPool ++ [deposit512, (callAt 3 [2], .swap 2 6 5 100000 0)])
    (fun tr s => match readPool s poolOf56 with
      | none => false
      | some pool => holdings poolOf56 false tr <
          closing ⟨0, true⟩ s.positions poolOf56 false pool.sqrtPrice +
            credited ⟨0, true⟩ s poolOf56 pool false + reserve false pool)
    (by decide) (by decide) (by decide)
  refine ⟨tr, s, hrun, ?_⟩
  intro hsolvent
  cases hp : readPool s poolOf56 with
  | none =>
    rw [hp] at hok
    cases hok
  | some pool =>
    rw [hp] at hok
    have hlt := of_decide_eq_true hok
    have hle := hsolvent poolOf56 pool false hp
    omega

/-- A swap that is charged no fee, and then half of the position is removed. -/
theorem amm_solvency_small_swap :
    ∃ (tr : Trace) (s : State), Run (machine ⟨0, true⟩) tr s ∧ Solvent ⟨0, true⟩ tr s ∧
      (readPool s poolOf56).map (fun pool => decide (2 ^ 64 < pool.sqrtPrice)) = some true ∧
      ∃ e ∈ tr, ∃ r, e.ret = .swapped r ∧
        e.before.tokens.balance 6 0 + r.amountIn + r.feePaid ≤ e.after.tokens.balance 6 0 := by
  have hinit : (machine ⟨0, true⟩).init { tokens := .empty } := ⟨_, rfl⟩
  obtain ⟨tr, s, hrun, hok⟩ := Machine.exists_run_of_replay hinit
    (openPool ++ [deposit512, (callAt 3 [2], .swap 2 6 5 300 0),
      (callAt 4 [1], .removeLiquidity 1 1 20000000 0 0)])
    (fun tr s => (∀ e ∈ tr, SoundStep e) ∧
      (readPool s poolOf56).map (fun pool => decide (2 ^ 64 < pool.sqrtPrice)) = some true ∧
      ∃ e ∈ tr, e.call = .swap 2 6 5 300 0 ∧
        (readPool e.before (swapKey 6 5)).map PoolState.dynamicFeeBps = some 30 ∧
        e.ret = .swapped ⟨300, 298, 0, 18446883939812762431, 0⟩)
    (by decide) (by decide) (by decide +kernel)
  obtain ⟨hsound, hprice, e, he, hcall, hfee, hret⟩ := of_decide_eq_true hok
  obtain ⟨pool, hp, hfee⟩ := Option.map_eq_some_iff.mp hfee
  refine ⟨tr, s, hrun, (amm_solvency hrun).1 hsound, hprice, e, he, ?_⟩
  refine ⟨_, hret, ?_⟩
  have hbrings := (amm_solvency hrun).2 e he 2 6 5 300 0 _ pool hcall hret (by decide) hp (.inl rfl)
  rw [hfee] at hbrings
  exact hbrings.mpr (by decide)

end Stellara.Amm
