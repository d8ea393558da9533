import Stellara.Amm.Model

/-!
# The AMM's calls, taken apart

One lemma per entry point: what an accepted call found, what it computed and what it left.
Calls that touch neither pools nor positions are `Idle`.

`Wf` is what every reachable state satisfies: pools and positions are stored under their
own keys, every live position has liquidity and a pool.
-/

namespace Stellara.Amm

open Outcome

/-! ## Reading after writing -/

/-- A call that writes one pool. -/
theorem readPool_of_insert {s s' : State} {key : PoolKey} {pool : PoolState}
    (h : s'.pools = s.pools.insert key pool) (k : PoolKey) :
    readPool s' k = if k = key then some pool else readPool s k := by
  unfold readPool
  rw [h, Store.lookup_insert_eq]

/-- The position that `mint_position` writes. -/
def newPosition (env : Env) (s : State) (owner : Address) (key : PoolKey) (offer : Offer)
    (liquidity insideA insideB : Int) : LpPosition :=
  { id := s.positionCount + 1, owner, poolKey := key, tickLower := offer.tickLower
    tickUpper := offer.tickUpper, liquidity, feeGrowthInsideALast := insideA
    feeGrowthInsideBLast := insideB, tokensOwedA := 0, tokensOwedB := 0, createdAt := env.timestamp }

/-- The positions after `storeRest`. -/
def restPositions (s : State) (position : LpPosition) : Store Nat LpPosition :=
  if position.liquidity = 0 then s.positions.erase position.id
  else s.positions.insert position.id position

theorem storeRest_eq (s : State) (caller : Address) (position : LpPosition) :
    ∃ owners, storeRest s caller position =
      { s with positions := restPositions s position, ownerPositions := owners } := by
  unfold storeRest restPositions
  split
  · exact ⟨_, rfl⟩
  · exact ⟨s.ownerPositions, rfl⟩

theorem crossTick_eq {d : Deployment} {s s' : State} {key : PoolKey} {pool : PoolState} {tick : Int}
    (h : crossTick d s key pool tick = .ok s') : ∃ fees, s' = { s with tickFees := fees } := by
  simp only [crossTick, bind_eq_ok, pure_eq_ok] at h
  obtain ⟨_, -, _, -, rfl⟩ := h
  exact ⟨_, rfl⟩

theorem crossIfMoved_eq {d : Deployment} {s s' : State} {key : PoolKey} {pool : PoolState}
    {zeroForOne : Bool} {newTick : Int} (h : crossIfMoved d s key pool zeroForOne newTick = .ok s') :
    ∃ fees, s' = { s with tickFees := fees } := by
  unfold crossIfMoved at h
  split at h
  · exact crossTick_eq h
  · cases h
    exact ⟨s.tickFees, rfl⟩

/-- Activating changes the liquidity of the pool only. -/
theorem activate_ok {d : Deployment} {pool pool' : PoolState} {lower upper x : Int}
    (h : activate d pool lower upper x = .ok pool') :
    ∃ active, (pool.inRange lower upper = true ∧ ∃ total,
        (d.i128 (pool.liquidity + x) : Result Int) = .ok total ∧
        pool' = { pool with liquidity := total, activeLiquidity := active }) ∨
      (pool.inRange lower upper = false ∧ pool' = { pool with activeLiquidity := active }) := by
  unfold activate at h
  split at h
  · next hr =>
    simp only [bind_eq_ok, pure_eq_ok] at h
    obtain ⟨total, htot, active, -, rfl⟩ := h
    exact ⟨_, .inl ⟨hr, total, htot, rfl⟩⟩
  · next hr =>
    cases h
    exact ⟨_, .inr ⟨by simpa using hr, rfl⟩⟩

theorem deactivate_ok {d : Deployment} {pool pool' : PoolState} {lower upper x : Int}
    (h : deactivate d pool lower upper x = .ok pool') :
    (pool.inRange lower upper = true ∧ ∃ total active,
        (d.i128 (pool.liquidity - x) : Result Int) = .ok total ∧
        pool' = { pool with liquidity := max total 0, activeLiquidity := active }) ∨
      (pool.inRange lower upper = false ∧ pool' = pool) := by
  unfold deactivate at h
  split at h
  · next hr =>
    simp only [bind_eq_ok, pure_eq_ok] at h
    obtain ⟨total, htot, active, -, rfl⟩ := h
    exact .inl ⟨hr, total, _, htot, rfl⟩
  · next hr =>
    cases h
    exact .inr ⟨by simpa using hr, rfl⟩

theorem activate_tokens {d : Deployment} {pool pool' : PoolState} {lower upper x : Int}
    (h : activate d pool lower upper x = .ok pool') :
    pool'.tokenA = pool.tokenA ∧ pool'.tokenB = pool.tokenB := by
  obtain ⟨active, ⟨-, total, -, rfl⟩ | ⟨-, rfl⟩⟩ := activate_ok h
  · exact ⟨rfl, rfl⟩
  · exact ⟨rfl, rfl⟩

theorem deactivate_tokens {d : Deployment} {pool pool' : PoolState} {lower upper x : Int}
    (h : deactivate d pool lower upper x = .ok pool') :
    pool'.tokenA = pool.tokenA ∧ pool'.tokenB = pool.tokenB := by
  obtain ⟨-, total, active, -, rfl⟩ | ⟨-, rfl⟩ := deactivate_ok h
  · exact ⟨rfl, rfl⟩
  · exact ⟨rfl, rfl⟩

theorem lockReserve_ok {d : Deployment} {pool pool' : PoolState} {a b : Int}
    (h : lockReserve d pool a b = .ok pool') :
    ∃ ra rb, (d.i128 (pool.ilReserveA + a) : Result Int) = .ok ra ∧
      (d.i128 (pool.ilReserveB + b) : Result Int) = .ok rb ∧
      pool' = { pool with ilReserveA := ra, ilReserveB := rb } := by
  simp only [lockReserve, bind_eq_ok, pure_eq_ok] at h
  obtain ⟨ra, ha, rb, hb, rfl⟩ := h
  exact ⟨ra, rb, ha, hb, rfl⟩

theorem unlockReserve_ok {d : Deployment} {pool pool' : PoolState} {a b : Int}
    (h : unlockReserve d pool a b = .ok pool') :
    ∃ ra rb, (d.i128 (pool.ilReserveA - a) : Result Int) = .ok ra ∧
      (d.i128 (pool.ilReserveB - b) : Result Int) = .ok rb ∧
      pool' = { pool with ilReserveA := max ra 0, ilReserveB := max rb 0 } := by
  simp only [unlockReserve, bind_eq_ok, pure_eq_ok] at h
  obtain ⟨ra, ha, rb, hb, rfl⟩ := h
  exact ⟨ra, rb, ha, hb, rfl⟩

theorem accruePositionFees_ok {d : Deployment} {p p' : LpPosition} {a b : Int}
    (h : accruePositionFees d p a b = .ok p') :
    ∃ owedA owedB, accrueOwed d p.tokensOwedA p.liquidity p.feeGrowthInsideALast a = .ok owedA ∧
      accrueOwed d p.tokensOwedB p.liquidity p.feeGrowthInsideBLast b = .ok owedB ∧
      p' = { p with tokensOwedA := owedA, tokensOwedB := owedB
                    feeGrowthInsideALast := a, feeGrowthInsideBLast := b } := by
  simp only [accruePositionFees, bind_eq_ok, pure_eq_ok] at h
  obtain ⟨owedA, ha, owedB, hb, rfl⟩ := h
  exact ⟨owedA, owedB, ha, hb, rfl⟩

/-! ## The entry points -/

section Parts

variable {env : Env} {s s' : State}

theorem done_ok {x : Result State} {r : Reply} :
    done x = .ok (r, s') ↔ x = .ok s' ∧ r = .done := answer_eq_ok

theorem reply_ok {α : Type} {f : α → Reply} {x : Result (α × State)} {r : Reply} :
    reply f x = .ok (r, s') ↔ ∃ a, x = .ok (a, s') ∧ r = f a := answerWith_eq_ok

theorem createPool_ok {caller : Address} {key : PoolKey} {feeTier : Nat} {price : Int}
    (h : createPool env s caller key feeTier price = .ok s') :
    0 < feeTier ∧ 0 < price ∧ readPool s key = none ∧
      s' = { writePool s key (newPool key feeTier price) with poolCount := s.poolCount + 1 } := by
  simp only [createPool, requireInit, bind_eq_ok, require_eq_ok, requireAuth_eq_ok,
    exists_unit_and, pure_eq_ok] at h
  obtain ⟨-, -, -, htier, hp, hnone, rfl⟩ := h
  refine ⟨?_, hp, hnone, rfl⟩
  simp only [isValidFeeTier, Bool.or_eq_true, decide_eq_true_eq] at htier
  omega

theorem addLiquidity_ok {caller : Address} {key : PoolKey} {offer : Offer} {minA minB : Int}
    {r : AddLiquidityResult} (h : addLiquidity env s caller key offer minA minB = .ok (r, s')) :
    caller ∈ env.signers ∧ ∃ pool deposit t₁ t₂ pool₁ insideA insideB reserveA reserveB pool₂ owners,
      readPool s key = some pool ∧ quoteDeposit env.toDeployment pool offer = .ok deposit ∧
      payIfPositive s.tokens key.tokenA caller env.self deposit.amountA = .ok t₁ ∧
      payIfPositive t₁ key.tokenB caller env.self deposit.amountB = .ok t₂ ∧
      activate env.toDeployment pool offer.tickLower offer.tickUpper deposit.liquidity = .ok pool₁ ∧
      feeGrowthInside env.toDeployment s key pool₁ offer.tickLower offer.tickUpper =
        .ok (insideA, insideB) ∧
      quoteReserve env.toDeployment pool₁ offer.tickLower offer.tickUpper deposit.amountA
        deposit.amountB = .ok (reserveA, reserveB) ∧
      lockReserve env.toDeployment pool₁ reserveA reserveB = .ok pool₂ ∧
      r = ⟨s.positionCount + 1, deposit.amountA, deposit.amountB, deposit.liquidity⟩ ∧
      s' = { s with
        tokens := t₂
        positionCount := s.positionCount + 1
        positions := s.positions.insert (s.positionCount + 1)
          (newPosition env s caller key offer deposit.liquidity insideA insideB)
        ownerPositions := owners
        pools := s.pools.insert key pool₂ } := by
  simp only [addLiquidity, requireInit, requireNotPaused, requirePool, bind_eq_ok, require_eq_ok,
    requireAuth_eq_ok, exists_unit_and, ofOption_eq_ok, pure_eq_ok] at h
  obtain ⟨hs, -, -, -, -, pool, hp, deposit, hq, -, t₁, ht₁, t₂, ht₂, pool₁, hact,
    ⟨insideA, insideB⟩, hin, ⟨reserveA, reserveB⟩, hres, pool₂, hlock, heq⟩ := h
  obtain ⟨rfl, rfl⟩ := Prod.mk.inj heq
  exact ⟨hs, pool, deposit, t₁, t₂, pool₁, insideA, insideB, reserveA, reserveB, pool₂, _, hp, hq,
    ht₁, ht₂, hact, hin, hres, hlock, rfl, rfl⟩

theorem removeLiquidity_ok {caller : Address} {positionId : Nat} {x minA minB : Int}
    {r : RemoveLiquidityResult}
    (h : removeLiquidity env s caller positionId x minA minB = .ok (r, s')) :
    caller ∈ env.signers ∧ ∃ old pool insideA insideB position outA outB hedgeA hedgeB pool₁ sumA sumB
        pool₂ t₁ t₂ owners,
      readPosition s positionId = some old ∧ 0 < x ∧ x ≤ old.liquidity ∧
      readPool s old.poolKey = some pool ∧
      feeGrowthInside env.toDeployment s old.poolKey pool old.tickLower old.tickUpper =
        .ok (insideA, insideB) ∧
      accruePositionFees env.toDeployment old insideA insideB = .ok position ∧
      rangeAmounts env.toDeployment old.tickLower old.tickUpper x pool.sqrtPrice =
        .ok (outA, outB) ∧
      computeHedgeRelease env.toDeployment pool x old.liquidity = .ok (hedgeA, hedgeB) ∧
      unlockReserve env.toDeployment pool hedgeA hedgeB = .ok pool₁ ∧
      (env.i128 (outA + hedgeA) : Result Int) = .ok sumA ∧
      (env.i128 (outB + hedgeB) : Result Int) = .ok sumB ∧
      deactivate env.toDeployment pool₁ old.tickLower old.tickUpper x = .ok pool₂ ∧
      payIfPositive s.tokens pool₂.tokenA env.self caller sumA = .ok t₁ ∧
      payIfPositive t₁ pool₂.tokenB env.self caller sumB = .ok t₂ ∧
      r = ⟨sumA, sumB, hedgeA, hedgeB⟩ ∧
      s' = { s with
        tokens := t₂
        positions := restPositions s { position with liquidity := old.liquidity - x }
        ownerPositions := owners
        pools := s.pools.insert old.poolKey pool₂ } := by
  simp only [removeLiquidity, requireInit, requirePool, requirePosition, bind_eq_ok, require_eq_ok,
    requireAuth_eq_ok, exists_unit_and, ofOption_eq_ok, pure_eq_ok] at h
  obtain ⟨hs, -, old, hpos, -, ⟨hx0, hxle⟩, pool, hp, ⟨insideA, insideB⟩, hin, position, hacc,
    ⟨outA, outB⟩, hout, -, ⟨hedgeA, hedgeB⟩, hhedge, pool₁, hunlock, sumA, hsumA, sumB, hsumB,
    pool₂, hde, t₁, ht₁, t₂, ht₂, heq⟩ := h
  obtain ⟨rfl, hs'⟩ := Prod.mk.inj heq
  obtain ⟨owedA, owedB, -, -, rfl⟩ := accruePositionFees_ok hacc
  obtain ⟨owners, howners⟩ := storeRest_eq { s with tokens := t₂ } caller
    { old with tokensOwedA := owedA, tokensOwedB := owedB, feeGrowthInsideALast := insideA
               feeGrowthInsideBLast := insideB, liquidity := old.liquidity - x }
  refine ⟨hs, old, pool, insideA, insideB, _, outA, outB, hedgeA, hedgeB, pool₁, sumA, sumB, pool₂,
    t₁, t₂, owners, hpos, hx0, hxle, hp, hin, hacc, hout, hhedge, hunlock, hsumA, hsumB, hde, ht₁,
    ht₂, rfl, ?_⟩
  rw [← hs', howners]
  rfl

theorem collectFees_ok {caller : Address} {positionId : Nat} {owedA owedB : Int}
    (h : collectFees env s caller positionId = .ok ((owedA, owedB), s')) :
    caller ∈ env.signers ∧ ∃ old pool insideA insideB position t₁ t₂,
      readPosition s positionId = some old ∧ readPool s old.poolKey = some pool ∧
      feeGrowthInside env.toDeployment s old.poolKey pool old.tickLower old.tickUpper =
        .ok (insideA, insideB) ∧
      accruePositionFees env.toDeployment old insideA insideB = .ok position ∧
      owedA = position.tokensOwedA ∧ owedB = position.tokensOwedB ∧
      payIfPositive s.tokens pool.tokenA env.self caller owedA = .ok t₁ ∧
      payIfPositive t₁ pool.tokenB env.self caller owedB = .ok t₂ ∧
      s' = { s with
        tokens := t₂
        positions := s.positions.insert old.id { position with
          tokensOwedA := if 0 < owedA then 0 else owedA
          tokensOwedB := if 0 < owedB then 0 else owedB } } := by
  simp only [collectFees, requireInit, requirePool, requirePosition, bind_eq_ok, require_eq_ok,
    requireAuth_eq_ok, exists_unit_and, ofOption_eq_ok, pure_eq_ok] at h
  obtain ⟨hs, -, old, hpos, -, pool, hp, ⟨insideA, insideB⟩, hin, position, hacc, t₁, ht₁, t₂, ht₂,
    heq⟩ := h
  obtain ⟨hr, rfl⟩ := Prod.mk.inj heq
  obtain ⟨rfl, rfl⟩ := Prod.mk.inj hr
  obtain ⟨oa, ob, -, -, rfl⟩ := accruePositionFees_ok hacc
  exact ⟨hs, old, pool, insideA, insideB, _, t₁, t₂, hpos, hp, hin, hacc, rfl, rfl, ht₁, ht₂, rfl⟩

theorem swap_ok {caller tokenIn tokenOut : Address} {amountIn minOut : Int} {r : SwapResult}
    (h : swap env s caller tokenIn tokenOut amountIn minOut = .ok (r, s')) :
    caller ∈ env.signers ∧ 0 < amountIn ∧
      ∃ pool step growthA growthB s₁ volume t₁ t₂ fees samples,
      readPool s (swapKey tokenIn tokenOut) = some pool ∧ pool.liquidity ≠ 0 ∧
      quoteSwap env.toDeployment pool (decide (tokenIn < tokenOut)) amountIn = .ok step ∧
      swapFeeGrowth env.toDeployment pool (decide (tokenIn < tokenOut)) step.feePaid =
        .ok (growthA, growthB) ∧
      crossIfMoved env.toDeployment (recordPriceSample env s (swapKey tokenIn tokenOut)
        pool.sqrtPrice) (swapKey tokenIn tokenOut) pool (decide (tokenIn < tokenOut))
        (sqrtPriceToTick step.newSqrtPrice) = .ok s₁ ∧ s₁.tickFees = fees ∧
      Ledger.transfer i128Max s.tokens tokenIn caller env.self step.amountIn = some t₁ ∧
      Ledger.transfer i128Max t₁ tokenOut env.self caller step.amountOut = some t₂ ∧
      r = ⟨step.amountIn, step.amountOut, step.feePaid, step.newSqrtPrice,
        sqrtPriceToTick step.newSqrtPrice⟩ ∧
      s' = { s with
        tokens := t₂
        tickFees := fees
        priceSamples := samples
        pools := s.pools.insert (swapKey tokenIn tokenOut) { pool with
          sqrtPrice := step.newSqrtPrice, currentTick := sqrtPriceToTick step.newSqrtPrice
          feeGrowthGlobalA := growthA, feeGrowthGlobalB := growthB, totalVolume := volume } } := by
  simp only [swap, requireInit, requireNotPaused, requirePool, bind_eq_ok, require_eq_ok,
    requireAuth_eq_ok, exists_unit_and, ofOption_eq_ok, tokens_transfer_eq_ok, pure_eq_ok] at h
  obtain ⟨hs, -, -, ha, pool, hp, hL, step, hq, -, ⟨growthA, growthB⟩, hg, s₁, hc, volume, -, t₁,
    ht₁, t₂, ht₂, heq⟩ := h
  obtain ⟨rfl, rfl⟩ := Prod.mk.inj heq
  obtain ⟨fees, hfees⟩ := crossIfMoved_eq hc
  subst hfees
  exact ⟨hs, ha, pool, step, growthA, growthB, _, volume, t₁, t₂, fees, _, hp, hL, hq, hg, hc, rfl,
    ht₁, ht₂, rfl, rfl⟩

/-- The volatility only adds to the fee. -/
theorem computeDynamicFee_ge {key : PoolKey} {baseFee n : Nat}
    (h : computeDynamicFee env s key baseFee = .ok n) : baseFee ≤ n := by
  simp only [computeDynamicFee, bind_eq_ok] at h
  obtain ⟨sum, -, h⟩ := h
  split at h
  · cases h
    exact le_refl _
  · split at h
    · cases h
      exact le_refl _
    · simp only [bind_eq_ok, pure_eq_ok] at h
      obtain ⟨premium, -, rfl⟩ := h
      exact Nat.le_add_right _ _

theorem updateDynamicFee_ok {key : PoolKey} {n : Nat}
    (h : updateDynamicFee env s key = .ok (n, s')) :
    ∃ pool, readPool s key = some pool ∧ pool.feeTier ≤ n ∧
      s' = writePool s key { pool with dynamicFeeBps := n } := by
  simp only [updateDynamicFee, requireInit, requirePool, bind_eq_ok, require_eq_ok,
    exists_unit_and, ofOption_eq_ok, pure_eq_ok] at h
  obtain ⟨-, pool, hp, fee, hfee, heq⟩ := h
  obtain ⟨rfl, rfl⟩ := Prod.mk.inj heq
  exact ⟨pool, hp, computeDynamicFee_ge hfee, rfl⟩

end Parts

/-! ## Calls that touch no pool -/

/-- Pools, positions and fee growths are as before, and the contract moves no tokens. -/
structure Idle (call : Call) (s s' : State) : Prop where
  pools : s'.pools = s.pools
  positions : s'.positions = s.positions
  positionCount : s'.positionCount = s.positionCount
  tickFees : s'.tickFees = s.tickFees
  tokens : (∀ c, call ≠ .token c) → s'.tokens = s.tokens

/-- The call is neither about a pool nor about a position. -/
def Call.idle : Call → Bool
  | .createPool .. | .addLiquidity .. | .removeLiquidity .. | .collectFees .. | .swap ..
  | .updateDynamicFee _ => false
  | _ => true

theorem setPause_idle {env : Env} {s s' : State} {admin : Address} {permission : Symbol}
    {level : CircuitBreaker.PauseLevel} (h : setPause env s admin permission level = .ok s')
    (call : Call) : Idle call s s' := by
  simp only [setPause, bind_eq_ok, pure_eq_ok] at h
  obtain ⟨_, -, _, -, _, -, rfl⟩ := h
  exact ⟨rfl, rfl, rfl, rfl, fun _ => rfl⟩

theorem upgradeCall_idle {env : Env} {s s' : State} {actor : Address}
    {f : Governance.State → Governance.Result Governance.State}
    (h : upgradeCall env s actor f = .ok s') (call : Call) : Idle call s s' := by
  simp only [upgradeCall, bind_eq_ok, pure_eq_ok] at h
  obtain ⟨_, -, _, -, _, -, rfl⟩ := h
  exact ⟨rfl, rfl, rfl, rfl, fun _ => rfl⟩

theorem exec_idle {env : Env} {call : Call} {r : Reply} {s s' : State} (hc : call.idle = true)
    (h : exec env call s = .ok (r, s')) : Idle call s s' := by
  cases call with
  | createPool | addLiquidity | removeLiquidity | collectFees | swap | updateDynamicFee => cases hc
  | init admin approvers executor cfg =>
    obtain ⟨h, -⟩ := done_ok.mp h
    simp only [init, bind_eq_ok, exists_unit_and, pure_eq_ok] at h
    obtain ⟨-, rfl⟩ := h
    exact ⟨rfl, rfl, rfl, rfl, fun _ => rfl⟩
  | pause admin => exact setPause_idle (done_ok.mp h).1 _
  | unpause admin => exact setPause_idle (done_ok.mp h).1 _
  | proposeUpgrade admin hash description approvers threshold delay =>
    obtain ⟨n, h, -⟩ := reply_ok.mp h
    simp only [proposeUpgrade, bind_eq_ok, pure_eq_ok] at h
    obtain ⟨_, -, _, -, _, -, heq⟩ := h
    obtain ⟨-, rfl⟩ := Prod.mk.inj heq
    exact ⟨rfl, rfl, rfl, rfl, fun _ => rfl⟩
  | approveUpgrade pid approver => exact upgradeCall_idle (done_ok.mp h).1 _
  | executeUpgrade pid executor => exact upgradeCall_idle (done_ok.mp h).1 _
  | rejectUpgrade pid rejector => exact upgradeCall_idle (done_ok.mp h).1 _
  | cancelUpgrade pid admin => exact upgradeCall_idle (done_ok.mp h).1 _
  | token c =>
    obtain ⟨h, -⟩ := done_ok.mp h
    simp only [bind_eq_ok, pure_eq_ok] at h
    obtain ⟨tokens, -, rfl⟩ := h
    exact ⟨rfl, rfl, rfl, rfl, fun hc => absurd rfl (hc c)⟩

/-! ## Well-formed states -/

/-- Pools and positions are stored under their own keys; a live position has liquidity and
a pool. -/
structure Wf (s : State) : Prop where
  position : ∀ id p, readPosition s id = some p →
    p.id = id ∧ id ≤ s.positionCount ∧ 0 < p.liquidity ∧ ∃ pool, readPool s p.poolKey = some pool
  pool : ∀ key pool, readPool s key = some pool →
    pool.tokenA = key.tokenA ∧ pool.tokenB = key.tokenB ∧ InI128 pool.liquidity

theorem Wf.idle {call : Call} {s s' : State} (h : Wf s) (hi : Idle call s s') : Wf s' := by
  constructor
  · unfold readPosition readPool
    rw [hi.positions, hi.positionCount, hi.pools]
    exact h.position
  · unfold readPool
    rw [hi.pools]
    exact h.pool

/-- A call that writes one pool, and positions of that pool or of pools that were there. -/
theorem Wf.update {s s' : State} {key : PoolKey} {pool : PoolState} (h : Wf s)
    (hp : s'.pools = s.pools.insert key pool)
    (hpool : pool.tokenA = key.tokenA ∧ pool.tokenB = key.tokenB ∧ InI128 pool.liquidity)
    (hpos : ∀ id p, readPosition s' id = some p →
      p.id = id ∧ id ≤ s'.positionCount ∧ 0 < p.liquidity ∧
        (p.poolKey = key ∨ ∃ pool, readPool s p.poolKey = some pool)) : Wf s' := by
  have hread := readPool_of_insert hp
  constructor
  · intro id p hr
    obtain ⟨h1, h2, h3, h4⟩ := hpos id p hr
    refine ⟨h1, h2, h3, ?_⟩
    rw [hread]
    split
    · exact ⟨pool, rfl⟩
    · next hne =>
      rcases h4 with heq | hex
      · exact absurd heq hne
      · exact hex
  · intro k pool' hr
    rw [hread] at hr
    split at hr
    · next heq => cases hr; rw [heq]; exact hpool
    · exact h.pool k pool' hr

theorem Wf.position_of_pool {s : State} (h : Wf s) {id : Nat} {p : LpPosition}
    (hr : readPosition s id = some p) (key : PoolKey) : p.id = id ∧ id ≤ s.positionCount ∧
      0 < p.liquidity ∧ (p.poolKey = key ∨ ∃ pool, readPool s p.poolKey = some pool) := by
  obtain ⟨h1, h2, h3, h4⟩ := h.position id p hr
  exact ⟨h1, h2, h3, .inr h4⟩

theorem quoteDeposit_pos {d : Deployment} {pool : PoolState} {offer : Offer} {deposit : Deposit}
    (h : quoteDeposit d pool offer = .ok deposit) : 0 < deposit.liquidity := by
  simp only [quoteDeposit, liquidityFromAmounts, bind_eq_ok, require_eq_ok, exists_unit_and,
    pure_eq_ok] at h
  obtain ⟨lower, -, upper, -, liquidity, ⟨liqB, -, rfl⟩, hne, amounts, -, rfl⟩ := h
  show 0 < max (min _ liqB) 0
  omega

theorem lookup_restPositions (s : State) (position : LpPosition) (id : Nat) :
    (restPositions s position).lookup id =
      if id = position.id then if position.liquidity = 0 then none else some position
      else s.positions.lookup id := by
  unfold restPositions
  split
  · rw [Store.lookup_erase_eq]
  · rw [Store.lookup_insert_eq]

theorem wf_step {env : Env} {call : Call} {r : Reply} {s s' : State} (h : Wf s)
    (hx : exec env call s = .ok (r, s')) : Wf s' := by
  cases call with
  | createPool caller key feeTier price =>
    obtain ⟨-, -, hnone, rfl⟩ := createPool_ok (done_ok.mp hx).1
    refine h.update rfl ⟨rfl, rfl, ?_⟩ fun id p hr => h.position_of_pool hr key
    show InI128 0
    decide
  | addLiquidity caller key offer minA minB =>
    obtain ⟨a, hx, -⟩ := reply_ok.mp hx
    obtain ⟨-, pool, deposit, t₁, t₂, pool₁, insideA, insideB, reserveA, reserveB, pool₂, owners, hp,
      hq, -, -, hact, -, -, hlock, -, rfl⟩ := addLiquidity_ok hx
    obtain ⟨ra, rb, -, -, rfl⟩ := lockReserve_ok hlock
    refine h.update rfl ?_ ?_
    · obtain ⟨htokA, htokB, hin⟩ := h.pool key pool hp
      obtain ⟨active, ⟨-, total, htot, rfl⟩ | ⟨-, rfl⟩⟩ := activate_ok hact
      · exact ⟨htokA, htokB, i128_inI128 htot⟩
      · exact ⟨htokA, htokB, hin⟩
    · intro id p hr
      have hr : (s.positions.insert _ _).lookup id = some p := hr
      show p.id = id ∧ id ≤ s.positionCount + 1 ∧ _
      rw [Store.lookup_insert_eq] at hr
      split at hr
      · next heq =>
        cases hr
        rw [heq]
        exact ⟨rfl, le_refl _, quoteDeposit_pos hq, .inl rfl⟩
      · obtain ⟨h1, h2, h3⟩ := h.position_of_pool hr key
        exact ⟨h1, by omega, h3⟩
  | removeLiquidity caller positionId x minA minB =>
    obtain ⟨a, hx, -⟩ := reply_ok.mp hx
    obtain ⟨-, old, pool, insideA, insideB, position, outA, outB, hedgeA, hedgeB, pool₁, sumA, sumB,
      pool₂, t₁, t₂, owners, hpos, hx0, hxle, hp, -, hacc, -, -, hunlock, -, -, hde, -, -, -, rfl⟩ :=
      removeLiquidity_ok hx
    obtain ⟨ra, rb, -, -, rfl⟩ := unlockReserve_ok hunlock
    obtain ⟨owedA, owedB, -, -, rfl⟩ := accruePositionFees_ok hacc
    refine h.update rfl ?_ ?_
    · obtain ⟨htokA, htokB, hin⟩ := h.pool _ pool hp
      obtain ⟨-, total, active, htot, rfl⟩ | ⟨-, rfl⟩ := deactivate_ok hde
      · refine ⟨htokA, htokB, ?_⟩
        obtain ⟨hlo, hhi⟩ := inI128_iff.mp (i128_inI128 htot)
        exact inI128_iff.mpr ⟨by show _ ≤ max total 0; omega, by
          show max total 0 ≤ _; unfold i128Max at *; omega⟩
      · exact ⟨htokA, htokB, hin⟩
    · intro id p hr
      have hr : (restPositions s _).lookup id = some p := hr
      show p.id = id ∧ id ≤ s.positionCount ∧ _
      obtain ⟨hid, hle, -, hpool⟩ := h.position positionId old hpos
      rw [lookup_restPositions] at hr
      split at hr
      · next heq =>
        split at hr
        · cases hr
        · next hne =>
          cases hr
          have hne : old.liquidity - x ≠ 0 := hne
          have heq : id = old.id := heq
          refine ⟨heq.symm, by omega, ?_, .inl rfl⟩
          show 0 < old.liquidity - x
          omega
      · exact h.position_of_pool hr _
  | collectFees caller positionId =>
    obtain ⟨a, hx, -⟩ := reply_ok.mp hx
    obtain ⟨-, old, pool, insideA, insideB, position, t₁, t₂, hpos, hp, -, hacc, -, -, -, -, rfl⟩ :=
      collectFees_ok hx
    obtain ⟨owedA, owedB, -, -, rfl⟩ := accruePositionFees_ok hacc
    refine ⟨?_, h.pool⟩
    intro id p hr
    have hr : (s.positions.insert _ _).lookup id = some p := hr
    rw [Store.lookup_insert_eq] at hr
    split at hr
    · next heq =>
      cases hr
      obtain ⟨hid, hle, hrest⟩ := h.position positionId old hpos
      rw [heq]
      show old.id = old.id ∧ old.id ≤ s.positionCount ∧ _
      exact ⟨rfl, by omega, hrest⟩
    · exact h.position id p hr
  | swap caller tokenIn tokenOut amountIn minOut =>
    obtain ⟨a, hx, -⟩ := reply_ok.mp hx
    obtain ⟨-, -, pool, step, growthA, growthB, s₁, volume, t₁, t₂, fees, samples, hp, -, -, -, -, -,
      -, -, -, rfl⟩ := swap_ok hx
    exact h.update rfl (h.pool _ pool hp) fun id p hr => h.position_of_pool hr _
  | updateDynamicFee key =>
    obtain ⟨n, hx, -⟩ := reply_ok.mp hx
    obtain ⟨pool, hp, -, rfl⟩ := updateDynamicFee_ok hx
    exact h.update rfl (h.pool _ pool hp) fun id p hr => h.position_of_pool hr _
  | init | pause | unpause | proposeUpgrade | approveUpgrade | executeUpgrade | rejectUpgrade
  | cancelUpgrade | token => exact h.idle (exec_idle rfl hx)

theorem wf_run {d : Deployment} {tr : Trace} {s : State} (h : Run (machine d) tr s) : Wf s := by
  refine h.invariant ?_ ?_
  · rintro s ⟨tokens, rfl⟩
    exact ⟨fun id p hr => (by cases hr), fun key pool hr => (by cases hr)⟩
  · intro env call r s s' _ hwf hx
    exact wf_step hwf hx

end Stellara.Amm
