import Stellara.Amm.Liquidity

/-!
# One pool for two tokens

`create_pool` stores a pool under its tokens in the order they are given; `swap` looks for it
under its tokens in the order of their addresses; a position names the pool it was opened in.

    Run (machine d) tr s → ((∀ e ∈ tr, Canonical e.after) ↔ ∀ e ∈ tr, Ascending e)
                                                                            (canonical_iff)

`Canonical`: two tokens have at most one pool, and every entry point that is given the tokens of
a pool works on it and treats them as the first and the second as the pool does.  `Ascending`:
pools are created with the lower address first.
-/

namespace Stellara.Amm

open Outcome

/-! ## The property and its condition -/

/-- The keys have the same two tokens. -/
def SamePair (key key' : PoolKey) : Prop :=
  key' = key ∨ key' = ⟨key.tokenB, key.tokenA⟩

/-- A trade of one of the tokens for the other. -/
def Trades (key : PoolKey) (tokenIn tokenOut : Address) : Prop :=
  tokenIn = key.tokenA ∧ tokenOut = key.tokenB ∨ tokenIn = key.tokenB ∧ tokenOut = key.tokenA

/-- The sold token is the pool's first and the fee is booked for the first, or both are the
second. -/
def SoldOnItsSide (pool pool' : PoolState) (tokenIn tokenOut : Address) : Prop :=
  tokenIn = pool.tokenA ∧ tokenOut = pool.tokenB ∧
      pool'.feeGrowthGlobalB = pool.feeGrowthGlobalB ∨
    tokenIn = pool.tokenB ∧ tokenOut = pool.tokenA ∧
      pool'.feeGrowthGlobalA = pool.feeGrowthGlobalA

/-- Only this pool changes, and not its tokens. -/
def Works (s s' : State) (key : PoolKey) (pool pool' : PoolState) : Prop :=
  s'.pools = s.pools.insert key pool' ∧ pool'.tokenA = pool.tokenA ∧ pool'.tokenB = pool.tokenB

/-- **The pools are canonical.** -/
structure Canonical (s : State) : Prop where
  /-- at most one pool for two tokens -/
  unique : ∀ key key' pool pool', readPool s key = some pool → readPool s key' = some pool' →
    SamePair key key' → key' = key
  /-- a pool has the tokens that it was created with -/
  tokens : ∀ key pool, readPool s key = some pool →
    pool.tokenA = key.tokenA ∧ pool.tokenB = key.tokenB
  /-- a swap finds the pool, in both directions -/
  swapFinds : ∀ key pool tokenIn tokenOut, readPool s key = some pool →
    Trades key tokenIn tokenOut → readPool s (swapKey tokenIn tokenOut) = some pool
  swapWorks : ∀ key pool tokenIn tokenOut env caller amountIn minAmountOut r s',
    readPool s key = some pool → Trades key tokenIn tokenOut →
    swap env s caller tokenIn tokenOut amountIn minAmountOut = .ok (r, s') →
      ∃ pool', Works s s' key pool pool' ∧ SoldOnItsSide pool pool' tokenIn tokenOut
  /-- liquidity is added to the pool, against its first and its second token -/
  addWorks : ∀ key pool env caller offer minA minB r s', readPool s key = some pool →
    addLiquidity env s caller key offer minA minB = .ok (r, s') →
      ∃ pool' t, Works s s' key pool pool' ∧
        payIfPositive s.tokens pool.tokenA caller env.self r.amountA = .ok t ∧
        payIfPositive t pool.tokenB caller env.self r.amountB = .ok s'.tokens ∧
        (readPosition s' r.positionId).map LpPosition.poolKey = some key
  /-- a position has a pool -/
  removeFinds : ∀ id position, readPosition s id = some position →
    ∃ pool, readPool s position.poolKey = some pool
  /-- and liquidity is removed from this one, for its first and its second token -/
  removeWorks : ∀ id position pool env caller x minA minB r s',
    readPosition s id = some position → readPool s position.poolKey = some pool →
    removeLiquidity env s caller id x minA minB = .ok (r, s') →
      ∃ pool' t, Works s s' position.poolKey pool pool' ∧
        payIfPositive s.tokens pool.tokenA env.self caller r.amountA = .ok t ∧
        payIfPositive t pool.tokenB env.self caller r.amountB = .ok s'.tokens

/-- **The condition.**  A new pool is given the lower address first. -/
def Ascending (e : Event Env Call Reply State) : Prop :=
  match e.call with
  | .createPool _ key _ _ => key.tokenA ≤ key.tokenB
  | _ => True

instance (e : Event Env Call Reply State) : Decidable (Ascending e) :=
  match e with
  | ⟨_, .createPool _ key _ _, _, _, _⟩ => inferInstanceAs (Decidable (key.tokenA ≤ key.tokenB))
  | ⟨_, .init .., _, _, _⟩ | ⟨_, .addLiquidity .., _, _, _⟩ | ⟨_, .removeLiquidity .., _, _, _⟩
  | ⟨_, .collectFees .., _, _, _⟩ | ⟨_, .swap .., _, _, _⟩ | ⟨_, .updateDynamicFee _, _, _, _⟩
  | ⟨_, .pause _, _, _, _⟩ | ⟨_, .unpause _, _, _, _⟩ | ⟨_, .proposeUpgrade .., _, _, _⟩
  | ⟨_, .approveUpgrade .., _, _, _⟩ | ⟨_, .executeUpgrade .., _, _, _⟩
  | ⟨_, .rejectUpgrade .., _, _, _⟩ | ⟨_, .cancelUpgrade .., _, _, _⟩ | ⟨_, .token _, _, _, _⟩ =>
    inferInstanceAs (Decidable True)

/-! ## What the calls write -/

/-- All stored keys are in order. -/
def Sorted (s : State) : Prop := ∀ key pool, readPool s key = some pool → key.tokenA ≤ key.tokenB

section Calls

variable {env : Env} {s s' : State}

/-- A swap in a pool whose key it has built. -/
theorem swap_works {caller tokenIn tokenOut : Address} {amountIn minOut : Int} {r : SwapResult}
    {pool : PoolState} (hpool : readPool s (swapKey tokenIn tokenOut) = some pool)
    (h : swap env s caller tokenIn tokenOut amountIn minOut = .ok (r, s')) :
    ∃ pool', Works s s' (swapKey tokenIn tokenOut) pool pool' ∧
      (tokenIn < tokenOut → pool'.feeGrowthGlobalB = pool.feeGrowthGlobalB) ∧
      (¬ tokenIn < tokenOut → pool'.feeGrowthGlobalA = pool.feeGrowthGlobalA) := by
  obtain ⟨-, -, pool₀, step, growthA, growthB, s₁, volume, t₁, t₂, fees, samples, hp, -, -, hgrowth,
    -, -, -, -, -, rfl⟩ := swap_ok h
  rw [hpool] at hp
  cases hp
  refine ⟨_, ⟨rfl, rfl, rfl⟩, ?_, ?_⟩
  · intro hlt
    simp only [swapFeeGrowth, decide_eq_true hlt, if_true, bind_eq_ok, pure_eq_ok,
      Prod.mk.injEq] at hgrowth
    obtain ⟨_, -, -, rfl⟩ := hgrowth
    rfl
  · intro hge
    rw [swapFeeGrowth, if_neg (by simpa using hge)] at hgrowth
    simp only [bind_eq_ok, pure_eq_ok, Prod.mk.injEq] at hgrowth
    obtain ⟨_, -, rfl, -⟩ := hgrowth
    rfl

theorem addLiquidity_works {caller : Address} {key : PoolKey} {offer : Offer} {minA minB : Int}
    {r : AddLiquidityResult} {pool : PoolState} (hpool : readPool s key = some pool)
    (htokens : pool.tokenA = key.tokenA ∧ pool.tokenB = key.tokenB)
    (h : addLiquidity env s caller key offer minA minB = .ok (r, s')) :
    ∃ pool' t, Works s s' key pool pool' ∧
      payIfPositive s.tokens pool.tokenA caller env.self r.amountA = .ok t ∧
      payIfPositive t pool.tokenB caller env.self r.amountB = .ok s'.tokens ∧
      (readPosition s' r.positionId).map LpPosition.poolKey = some key := by
  obtain ⟨-, pool₀, deposit, t₁, t₂, pool₁, insideA, insideB, reserveA, reserveB, pool₂, owners, hp,
    -, ht₁, ht₂, hact, -, -, hlock, rfl, rfl⟩ := addLiquidity_ok h
  rw [hpool] at hp
  cases hp
  obtain ⟨hA, hB⟩ := activate_tokens hact
  obtain ⟨ra, rb, -, -, rfl⟩ := lockReserve_ok hlock
  rw [htokens.1, htokens.2]
  refine ⟨_, t₁, ⟨rfl, hA, hB⟩, ht₁, ht₂, ?_⟩
  show ((s.positions.insert (s.positionCount + 1) _).lookup (s.positionCount + 1)).map _ = some key
  rw [AList.lookup_insert]
  rfl

theorem removeLiquidity_works {caller : Address} {id : Nat} {x minA minB : Int}
    {r : RemoveLiquidityResult} {position : LpPosition} {pool : PoolState}
    (hposition : readPosition s id = some position)
    (hpool : readPool s position.poolKey = some pool)
    (h : removeLiquidity env s caller id x minA minB = .ok (r, s')) :
    ∃ pool' t, Works s s' position.poolKey pool pool' ∧
      payIfPositive s.tokens pool.tokenA env.self caller r.amountA = .ok t ∧
      payIfPositive t pool.tokenB env.self caller r.amountB = .ok s'.tokens := by
  obtain ⟨-, old, pool₀, insideA, insideB, accrued, outA, outB, hedgeA, hedgeB, pool₁, sumA, sumB,
    pool₂, t₁, t₂, owners, hpos, -, -, hp, -, -, -, -, hunlock, -, -, hde, ht₁, ht₂, rfl, rfl⟩ :=
    removeLiquidity_ok h
  rw [hposition] at hpos
  cases hpos
  rw [hpool] at hp
  cases hp
  obtain ⟨ra, rb, -, -, rfl⟩ := unlockReserve_ok hunlock
  obtain ⟨hA, hB⟩ := deactivate_tokens hde
  rw [hA] at ht₁
  rw [hB] at ht₂
  exact ⟨pool₂, t₁, ⟨rfl, hA, hB⟩, ht₁, ht₂⟩

/-- Only `create_pool` stores a pool under a new key. -/
theorem readPool_step {call : Call} {r : Reply} {key : PoolKey} {pool : PoolState}
    (hx : exec env call s = .ok (r, s')) (hpool : readPool s' key = some pool) :
    (∃ pool, readPool s key = some pool) ∨
      ∃ caller feeTier price, call = .createPool caller key feeTier price := by
  -- a pool is written under a key that has one
  have hwrite : ∀ {k : PoolKey} {p p' : PoolState}, readPool s k = some p →
      s'.pools = s.pools.insert k p' → ∃ pool, readPool s key = some pool := by
    intro k p p' hk hpools
    unfold readPool at hpool
    rw [hpools, Store.lookup_insert_eq] at hpool
    split at hpool
    · next heq => rw [heq]; exact ⟨p, hk⟩
    · exact ⟨pool, hpool⟩
  cases call with
  | createPool caller k feeTier price =>
    obtain ⟨-, -, -, rfl⟩ := createPool_ok (done_ok.mp hx).1
    have hpool : (s.pools.insert k _).lookup key = some pool := hpool
    rw [Store.lookup_insert_eq] at hpool
    split at hpool
    · next heq => exact .inr ⟨caller, feeTier, price, by rw [heq]⟩
    · exact .inl ⟨pool, hpool⟩
  | addLiquidity caller k offer minA minB =>
    obtain ⟨a, hx, -⟩ := reply_ok.mp hx
    obtain ⟨-, pool₀, deposit, t₁, t₂, pool₁, insideA, insideB, reserveA, reserveB, pool₂, owners,
      hp, -, -, -, -, -, -, -, -, rfl⟩ := addLiquidity_ok hx
    exact .inl (hwrite hp rfl)
  | removeLiquidity caller positionId x minA minB =>
    obtain ⟨a, hx, -⟩ := reply_ok.mp hx
    obtain ⟨-, old, pool₀, insideA, insideB, accrued, outA, outB, hedgeA, hedgeB, pool₁, sumA, sumB,
      pool₂, t₁, t₂, owners, -, -, -, hp, -, -, -, -, -, -, -, -, -, -, -, rfl⟩ :=
      removeLiquidity_ok hx
    exact .inl (hwrite hp rfl)
  | collectFees caller positionId =>
    obtain ⟨a, hx, -⟩ := reply_ok.mp hx
    obtain ⟨-, old, pool₀, insideA, insideB, accrued, t₁, t₂, -, -, -, -, -, -, -, -, rfl⟩ :=
      collectFees_ok hx
    exact .inl ⟨pool, hpool⟩
  | swap caller tokenIn tokenOut amountIn minOut =>
    obtain ⟨a, hx, -⟩ := reply_ok.mp hx
    obtain ⟨-, -, pool₀, step, growthA, growthB, s₁, volume, t₁, t₂, fees, samples, hp, -, -, -, -,
      -, -, -, -, rfl⟩ := swap_ok hx
    exact .inl (hwrite hp rfl)
  | updateDynamicFee k =>
    obtain ⟨n, hx, -⟩ := reply_ok.mp hx
    obtain ⟨pool₀, hp, -, rfl⟩ := updateDynamicFee_ok hx
    exact .inl (hwrite hp rfl)
  | init | pause | unpause | proposeUpgrade | approveUpgrade | executeUpgrade | rejectUpgrade
  | cancelUpgrade | token =>
    refine .inl ⟨pool, ?_⟩
    unfold readPool at hpool ⊢
    rw [← (exec_idle rfl hx).pools]
    exact hpool

end Calls

theorem sorted_run {d : Deployment} {tr : Trace} {s : State} (h : Run (machine d) tr s)
    (hall : ∀ e ∈ tr, Ascending e) : Sorted s := by
  induction h with
  | start hinit =>
    obtain ⟨tokens, rfl⟩ := hinit
    intro key pool hpool
    cases hpool
  | commit _ _ _ hx ih =>
    rw [List.forall_mem_cons] at hall
    intro key pool hpool
    rcases readPool_step hx hpool with ⟨pool₀, hp⟩ | ⟨caller, feeTier, price, rfl⟩
    · exact ih hall.2 key pool₀ hp
    · exact hall.1

/-! ## Both ways -/

/-- For tokens in order, both directions of a trade give the key itself. -/
theorem swapKey_of_trades {key : PoolKey} {tokenIn tokenOut : Address}
    (hle : key.tokenA ≤ key.tokenB) (h : Trades key tokenIn tokenOut) :
    swapKey tokenIn tokenOut = key := by
  obtain ⟨tokenA, tokenB⟩ := key
  unfold swapKey
  rcases h with ⟨rfl, rfl⟩ | ⟨rfl, rfl⟩
  · split
    · rfl
    · next hge =>
      have heq : tokenIn = tokenOut := le_antisymm hle (not_lt.mp hge)
      rw [heq]
  · rw [if_neg (not_lt.mpr hle)]

/-- **Sorted keys** make the pools canonical. -/
theorem canonical_of_sorted {s : State} (hwf : Wf s) (hsorted : Sorted s) : Canonical s where
  unique := by
    intro key key' pool pool' hkey hkey' hpair
    have hle := hsorted key pool hkey
    have hle' := hsorted key' pool' hkey'
    rcases hpair with rfl | rfl
    · rfl
    · obtain ⟨tokenA, tokenB⟩ := key
      rw [PoolKey.mk.injEq]
      exact ⟨le_antisymm hle' hle, le_antisymm hle hle'⟩
  tokens := fun key pool hpool => ⟨(hwf.pool key pool hpool).1, (hwf.pool key pool hpool).2.1⟩
  swapFinds := by
    intro key pool tokenIn tokenOut hpool htrades
    rw [swapKey_of_trades (hsorted key pool hpool) htrades]
    exact hpool
  swapWorks := by
    intro key pool tokenIn tokenOut env caller amountIn minAmountOut r s' hpool htrades hx
    have hkey := swapKey_of_trades (hsorted key pool hpool) htrades
    have hle := hsorted key pool hpool
    obtain ⟨hA, hB, -⟩ := hwf.pool key pool hpool
    rw [← hkey] at hpool
    obtain ⟨pool', hworks, hgrowthB, hgrowthA⟩ := swap_works hpool hx
    rw [hkey] at hworks
    refine ⟨pool', hworks, ?_⟩
    unfold SoldOnItsSide
    rw [hA, hB]
    rcases htrades with ⟨rfl, rfl⟩ | ⟨rfl, rfl⟩
    · by_cases hlt : key.tokenA < key.tokenB
      · exact .inl ⟨rfl, rfl, hgrowthB hlt⟩
      · -- a pool of one token: both sides are the same
        have heq := le_antisymm hle (not_lt.mp hlt)
        exact .inr ⟨heq, heq.symm, hgrowthA hlt⟩
    · exact .inr ⟨rfl, rfl, hgrowthA (not_lt.mpr hle)⟩
  addWorks := by
    intro key pool env caller offer minA minB r s' hpool hx
    obtain ⟨hA, hB, -⟩ := hwf.pool key pool hpool
    exact addLiquidity_works hpool ⟨hA, hB⟩ hx
  removeFinds := fun id position hposition => (hwf.position id position hposition).2.2.2
  removeWorks := fun id position pool env caller x minA minB r s' hposition hpool hx =>
    removeLiquidity_works hposition hpool hx

/-- A pool that a swap finds has its tokens in order. -/
theorem ascending_of_canonical {d : Deployment} {tr : Trace} {s : State} (h : Run (machine d) tr s)
    (hall : ∀ e ∈ tr, Canonical e.after) : ∀ e ∈ tr, Ascending e := by
  intro e he
  obtain ⟨tr', -, -, hx⟩ := h.of_mem he
  have hcanon := hall e he
  obtain ⟨env, call, r, s₀, s₁⟩ := e
  cases call with
  | createPool caller key feeTier price =>
    obtain ⟨-, -, -, hs⟩ := createPool_ok (done_ok.mp hx).1
    by_contra hlt
    have hlt : key.tokenB < key.tokenA := not_le.mp hlt
    have hpool : readPool s₁ key = some (newPool key feeTier price) := by
      rw [show s₁ = _ from hs]
      exact AList.lookup_insert _
    have hfound := hcanon.swapFinds key _ key.tokenA key.tokenB hpool (.inl ⟨rfl, rfl⟩)
    rw [swapKey, if_neg (lt_asymm hlt)] at hfound
    -- what is stored under the sorted key has its tokens in this order
    have htokens : key.tokenA = key.tokenB := (hcanon.tokens _ _ hfound).1
    rw [htokens] at hlt
    exact lt_irrefl _ hlt
  | _ => trivial

end Stellara.Amm
