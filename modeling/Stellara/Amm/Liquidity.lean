import Stellara.Lib.Ranges
import Stellara.Amm.Steps

/-!
# Active liquidity (`contracts/amm/src/lib.rs`, `cross_tick`)

The liquidity that trades at the present price should be that of the positions whose range
contains the present tick.  Deposits and withdrawals keep it so.  A swap moves the tick and
`cross_tick` flips the fee growths stored there, but `pool.liquidity` stays as it was; so
the equation survives a swap exactly when the positions it enters have as much liquidity
as those it leaves.

    Run tr s → ((∀ e ∈ tr, LiquidityInv e.after) ↔ ∀ e ∈ tr, StepOk e)   (active_liquidity_iff)
-/

namespace Stellara.Amm

open Outcome

/-- The positions of a pool as ranges of ticks. -/
def ranges (key : PoolKey) : Ranges LpPosition Int Int where
  lower p := p.tickLower
  upper p := p.tickUpper
  weight p := if p.poolKey = key then p.liquidity else 0

/-- The liquidity of the live positions of a pool whose range contains the tick. -/
def liquidityAt (s : State) (key : PoolKey) (tick : Int) : Int := (ranges key).depth s.positions tick

/-- Every pool trades with the liquidity of the positions in range. -/
def LiquidityInv (s : State) : Prop :=
  ∀ key pool, readPool s key = some pool → pool.liquidity = liquidityAt s key pool.currentTick

/-- The tick at which a swap leaves the pool. -/
def reachedTick (d : Deployment) (pool : PoolState) (zeroForOne : Bool) (amountIn : Int) :
    Result Int := do
  let step ← quoteSwap d pool zeroForOne amountIn
  pure (sqrtPriceToTick step.newSqrtPrice)

/-- A deposit in range does not take the liquidity of the pool out of `i128`. -/
def DepositFits (d : Deployment) (s : State) (key : PoolKey) (offer : Offer) : Prop :=
  ∀ pool ∈ readPool s key, ∀ deposit ∈ (quoteDeposit d pool offer).toOption,
    pool.inRange offer.tickLower offer.tickUpper = true → pool.liquidity + deposit.liquidity ≤ i128Max

/-- The positions that a swap enters have as much liquidity as those it leaves. -/
def SwapBalanced (d : Deployment) (s : State) (key : PoolKey) (zeroForOne : Bool)
    (amountIn : Int) : Prop :=
  ∀ pool ∈ readPool s key, ∀ tick ∈ (reachedTick d pool zeroForOne amountIn).toOption,
    (ranges key).entered s.positions pool.currentTick tick =
      (ranges key).entered s.positions tick pool.currentTick

/-- What a call has to meet to keep `LiquidityInv`. -/
def CallOk (d : Deployment) (s : State) : Call → Prop
  | .addLiquidity _ key offer _ _ => DepositFits d s key offer
  | .swap _ tokenIn tokenOut amountIn _ =>
    SwapBalanced d s (swapKey tokenIn tokenOut) (decide (tokenIn < tokenOut)) amountIn
  | _ => True

/-- The condition on a call of a run, read in the state before it. -/
def StepOk (e : Event Env Call Reply State) : Prop := CallOk e.env.toDeployment e.before e.call

instance (d : Deployment) (s : State) (key : PoolKey) (offer : Offer) :
    Decidable (DepositFits d s key offer) := by
  unfold DepositFits; infer_instance

instance (d : Deployment) (s : State) (key : PoolKey) (zeroForOne : Bool) (amountIn : Int) :
    Decidable (SwapBalanced d s key zeroForOne amountIn) := by
  unfold SwapBalanced; infer_instance

instance (d : Deployment) (s : State) (call : Call) : Decidable (CallOk d s call) := by
  induction call using Call.casesOn <;> unfold CallOk <;> infer_instance

instance (e : Event Env Call Reply State) : Decidable (StepOk e) :=
  inferInstanceAs (Decidable (CallOk _ _ _))

/-! ## One write -/

theorem covers_iff_inRange (key : PoolKey) (pool : PoolState) (p : LpPosition) :
    (ranges key).Covers p pool.currentTick ↔ pool.inRange p.tickLower p.tickUpper = true := by
  simp [Ranges.Covers, ranges, PoolState.inRange]

theorem share_of_ne {key : PoolKey} {p : LpPosition} (h : p.poolKey ≠ key) (tick : Int) :
    (ranges key).share p tick = 0 := by
  have hw : (ranges key).weight p = 0 := if_neg h
  unfold Ranges.share
  rw [hw, ite_self]

theorem share_inRange {key : PoolKey} {pool : PoolState} {p : LpPosition} (hk : p.poolKey = key)
    (h : pool.inRange p.tickLower p.tickUpper = true) :
    (ranges key).share p pool.currentTick = p.liquidity := by
  unfold Ranges.share
  rw [if_pos ((covers_iff_inRange _ _ _).mpr h)]
  exact if_pos hk

theorem share_not_inRange {pool : PoolState} {p : LpPosition}
    (h : pool.inRange p.tickLower p.tickUpper = false) (key : PoolKey) :
    (ranges key).share p pool.currentTick = 0 := by
  unfold Ranges.share
  rw [if_neg]
  rw [covers_iff_inRange, h]
  exact Bool.false_ne_true

theorem share_nonneg {p : LpPosition} (h : 0 < p.liquidity) (key : PoolKey) (tick : Int) :
    0 ≤ (ranges key).share p tick := by
  have hw : 0 ≤ (ranges key).weight p := by
    show 0 ≤ if p.poolKey = key then p.liquidity else 0
    split <;> omega
  unfold Ranges.share
  split
  · exact hw
  · exact le_refl 0

theorem share_le_liquidityAt {s : State} (h : Wf s) {id : Nat} {p : LpPosition}
    (hp : readPosition s id = some p) (key : PoolKey) (tick : Int) :
    (ranges key).share p tick ≤ liquidityAt s key tick :=
  Store.le_total (f := fun _ p => (ranges key).share p tick)
    (fun id p hp => share_nonneg (h.position id p hp).2.2.1 key tick) hp

/-- The shares after a part of a position was stored, or all of it removed. -/
theorem depth_restPositions {s : State} {old p : LpPosition}
    (h : s.positions.lookup p.id = some old) (key : PoolKey) (tick : Int) :
    (ranges key).depth (restPositions s p) tick =
      liquidityAt s key tick - (ranges key).share old tick + (ranges key).share p tick := by
  unfold restPositions
  split
  · next h0 =>
    have hw : (ranges key).weight p = 0 := by
      show (if p.poolKey = key then p.liquidity else 0) = 0
      rw [h0, ite_self]
    have hshare : (ranges key).share p tick = 0 := by
      unfold Ranges.share
      rw [hw, ite_self]
    rw [Ranges.depth_erase h, hshare, add_zero]
    rfl
  · exact Ranges.depth_insert_old h p tick

/-- A call that writes one pool and leaves the shares in the other pools. -/
theorem liquidityInv_update {s s' : State} {key : PoolKey} {pool : PoolState} (h : LiquidityInv s)
    (hp : s'.pools = s.pools.insert key pool)
    (hother : ∀ k, k ≠ key → ∀ tick, liquidityAt s' k tick = liquidityAt s k tick) :
    LiquidityInv s' ↔ pool.liquidity = liquidityAt s' key pool.currentTick := by
  have hread := readPool_of_insert hp
  constructor
  · intro h'
    exact h' key pool (by rw [hread, if_pos rfl])
  · intro heq k p hr
    rw [hread] at hr
    split at hr
    · next hk => cases hr; rw [hk]; exact heq
    · next hk => rw [hother k hk]; exact h k p hr

/-! ## The calls -/

theorem Wf.fresh {s : State} (h : Wf s) : s.positions.lookup (s.positionCount + 1) = none := by
  cases hp : s.positions.lookup (s.positionCount + 1) with
  | none => rfl
  | some p =>
    obtain ⟨-, hle, -⟩ := h.position _ p hp
    omega

/-- A condition on what a state holds and a quote gives, when both are known. -/
theorem forall_quote {α β : Type} {o : Option α} {a : α} {f : α → Result β} {b : β}
    (ho : o = some a) (hf : f a = .ok b) {P : α → β → Prop} :
    (∀ x ∈ o, ∀ y ∈ (f x).toOption, P x y) ↔ P a b := by
  rw [ho]
  constructor
  · intro h
    exact h a rfl b (by rw [hf]; rfl)
  · intro h x hx y hy
    cases hx
    rw [hf] at hy
    cases hy
    exact h

section Calls

variable {env : Env} {s s' : State}

/-- A pool that did not exist has no positions. -/
theorem createPool_inv {caller : Address} {key : PoolKey} {feeTier : Nat} {price : Int} (hw : Wf s)
    (h : LiquidityInv s) (hx : createPool env s caller key feeTier price = .ok s') :
    LiquidityInv s' := by
  obtain ⟨-, -, hnone, rfl⟩ := createPool_ok hx
  refine Iff.mpr (liquidityInv_update h rfl fun _ _ _ => rfl) ?_
  show 0 = (ranges key).depth s.positions _
  symm
  apply Store.total_zero
  intro id p hp
  obtain ⟨-, -, -, pool, hpool⟩ := hw.position id p hp
  apply share_of_ne
  rintro rfl
  rw [hnone] at hpool
  cases hpool

/-- A deposit keeps the equation unless the sum wraps around. -/
theorem addLiquidity_inv {caller : Address} {key : PoolKey} {offer : Offer} {minA minB : Int}
    {r : AddLiquidityResult} (hw : Wf s) (h : LiquidityInv s)
    (hx : addLiquidity env s caller key offer minA minB = .ok (r, s')) :
    LiquidityInv s' ↔ DepositFits env.toDeployment s key offer := by
  obtain ⟨-, pool, deposit, t₁, t₂, pool₁, insideA, insideB, reserveA, reserveB, pool₂, owners, hp,
    hq, -, -, hact, -, -, hlock, -, rfl⟩ := addLiquidity_ok hx
  obtain ⟨ra, rb, -, -, rfl⟩ := lockReserve_ok hlock
  have hinv := h key pool hp
  have hpos := quoteDeposit_pos hq
  have hlow := (inI128_iff.mp (hw.pool key pool hp).2.2).1
  have hfits : DepositFits env.toDeployment s key offer ↔
      (pool.inRange offer.tickLower offer.tickUpper = true →
        pool.liquidity + deposit.liquidity ≤ i128Max) := forall_quote hp hq
  have hnew := fun k tick => Ranges.depth_insert_new (w := ranges k) hw.fresh
    (newPosition env s caller key offer deposit.liquidity insideA insideB) tick
  have hother : ∀ k, k ≠ key → ∀ tick,
      (ranges k).depth (s.positions.insert (s.positionCount + 1)
        (newPosition env s caller key offer deposit.liquidity insideA insideB)) tick =
        liquidityAt s k tick := by
    intro k hk tick
    rw [hnew, share_of_ne (fun heq => hk heq.symm), add_zero]
    rfl
  rw [liquidityInv_update h rfl hother, hfits]
  show pool₁.liquidity = (ranges key).depth _ pool₁.currentTick ↔ _
  rw [hnew]
  obtain ⟨active, ⟨hr, total, htot, rfl⟩ | ⟨hr, rfl⟩⟩ := activate_ok hact
  · have hshare : (ranges key).share (newPosition env s caller key offer deposit.liquidity insideA
        insideB) pool.currentTick = deposit.liquidity := share_inRange rfl hr
    show total = liquidityAt s key pool.currentTick + (ranges key).share _ pool.currentTick ↔ _
    rw [hshare, ← hinv]
    constructor
    · intro heq _
      rw [← heq]
      exact (inI128_iff.mp (i128_inI128 htot)).2
    · intro hle
      have hle := hle hr
      exact i128_exact htot (inI128_iff.mpr ⟨by omega, hle⟩)
  · have hshare : (ranges key).share (newPosition env s caller key offer deposit.liquidity insideA
        insideB) pool.currentTick = 0 := share_not_inRange hr key
    show pool.liquidity = liquidityAt s key pool.currentTick + (ranges key).share _ pool.currentTick
      ↔ _
    rw [hshare, add_zero]
    constructor
    · intro _ hin
      rw [hr] at hin
      cases hin
    · intro _
      exact hinv

/-- Leaving takes as much from the pool as from the positions. -/
theorem removeLiquidity_inv {caller : Address} {positionId : Nat} {x minA minB : Int}
    {r : RemoveLiquidityResult} (hw : Wf s) (h : LiquidityInv s)
    (hx : removeLiquidity env s caller positionId x minA minB = .ok (r, s')) : LiquidityInv s' := by
  obtain ⟨-, old, pool, insideA, insideB, position, outA, outB, hedgeA, hedgeB, pool₁, sumA, sumB,
    pool₂, t₁, t₂, owners, hpos, hx0, hxle, hp, -, hacc, -, -, hunlock, -, -, hde, -, -, -, rfl⟩ :=
    removeLiquidity_ok hx
  obtain ⟨ra, rb, -, -, rfl⟩ := unlockReserve_ok hunlock
  obtain ⟨owedA, owedB, -, -, rfl⟩ := accruePositionFees_ok hacc
  have hinv := h old.poolKey pool hp
  have hid : old.id = positionId := (hw.position positionId old hpos).1
  generalize hrest : ({ old with
    tokensOwedA := owedA, tokensOwedB := owedB, feeGrowthInsideALast := insideA
    feeGrowthInsideBLast := insideB, liquidity := old.liquidity - x } : LpPosition) = rest
  have hkey : rest.poolKey = old.poolKey := by rw [← hrest]
  have hliq : rest.liquidity = old.liquidity - x := by rw [← hrest]
  have hrange : pool.inRange rest.tickLower rest.tickUpper =
      pool.inRange old.tickLower old.tickUpper := by rw [← hrest]
  have hold : s.positions.lookup rest.id = some old := by
    rw [← hrest]
    show s.positions.lookup old.id = some old
    rw [hid]
    exact hpos
  have hother : ∀ k, k ≠ old.poolKey → ∀ tick,
      (ranges k).depth (restPositions s rest) tick = liquidityAt s k tick := by
    intro k hk tick
    rw [depth_restPositions hold, share_of_ne (fun heq => hk heq.symm),
      share_of_ne (fun heq => hk (heq.symm.trans hkey))]
    omega
  refine Iff.mpr (liquidityInv_update h rfl hother) ?_
  show pool₂.liquidity = (ranges old.poolKey).depth (restPositions s rest) pool₂.currentTick
  rw [depth_restPositions hold]
  obtain ⟨hr, total, active, htot, rfl⟩ | ⟨hr, rfl⟩ := deactivate_ok hde
  · have hshare : (ranges old.poolKey).share old pool.currentTick = old.liquidity :=
      share_inRange rfl hr
    have hshare' : (ranges old.poolKey).share rest pool.currentTick = rest.liquidity :=
      share_inRange hkey (hrange.trans hr)
    have hle := share_le_liquidityAt hw hpos old.poolKey pool.currentTick
    have hhigh := (inI128_iff.mp (hw.pool _ pool hp).2.2).2
    have htot : total = pool.liquidity - x :=
      i128_exact htot (inI128_iff.mpr ⟨by omega, by omega⟩)
    show max total 0 = liquidityAt s old.poolKey pool.currentTick - _ + _
    rw [hshare, hshare', hliq, htot]
    omega
  · have hshare : (ranges old.poolKey).share old pool.currentTick = 0 := share_not_inRange hr _
    have hshare' : (ranges old.poolKey).share rest pool.currentTick = 0 :=
      share_not_inRange (hrange.trans hr) _
    show pool.liquidity = liquidityAt s old.poolKey pool.currentTick - _ + _
    rw [hshare, hshare']
    omega

/-- Collecting fees does not touch liquidity. -/
theorem collectFees_inv {caller : Address} {positionId : Nat} {owed : Int × Int} (hw : Wf s)
    (h : LiquidityInv s) (hx : collectFees env s caller positionId = .ok (owed, s')) :
    LiquidityInv s' := by
  obtain ⟨-, old, pool, insideA, insideB, position, t₁, t₂, hpos, hp, -, hacc, -, -, -, -, rfl⟩ :=
    collectFees_ok hx
  obtain ⟨owedA, owedB, -, -, rfl⟩ := accruePositionFees_ok hacc
  have hid : old.id = positionId := (hw.position positionId old hpos).1
  have hold : s.positions.lookup old.id = some old := by rw [hid]; exact hpos
  intro k p hr
  show p.liquidity = (ranges k).depth (s.positions.insert old.id _) p.currentTick
  rw [Ranges.depth_insert_old hold]
  show p.liquidity = liquidityAt s k p.currentTick - (ranges k).share old p.currentTick +
    (ranges k).share old p.currentTick
  rw [sub_add_cancel]
  exact h k p hr

/-- A swap keeps the equation exactly when it enters as much liquidity as it leaves. -/
theorem swap_inv {caller tokenIn tokenOut : Address} {amountIn minOut : Int} {r : SwapResult}
    (h : LiquidityInv s) (hx : swap env s caller tokenIn tokenOut amountIn minOut = .ok (r, s')) :
    LiquidityInv s' ↔ SwapBalanced env.toDeployment s (swapKey tokenIn tokenOut)
      (decide (tokenIn < tokenOut)) amountIn := by
  obtain ⟨-, -, pool, step, growthA, growthB, s₁, volume, t₁, t₂, fees, samples, hp, -, hq, -, -, -,
    -, -, -, rfl⟩ := swap_ok hx
  have hbal : SwapBalanced env.toDeployment s (swapKey tokenIn tokenOut)
      (decide (tokenIn < tokenOut)) amountIn ↔
      (ranges (swapKey tokenIn tokenOut)).entered s.positions pool.currentTick
          (sqrtPriceToTick step.newSqrtPrice) =
        (ranges (swapKey tokenIn tokenOut)).entered s.positions (sqrtPriceToTick step.newSqrtPrice)
          pool.currentTick := by
    have hr : reachedTick env.toDeployment pool (decide (tokenIn < tokenOut)) amountIn =
        .ok (sqrtPriceToTick step.newSqrtPrice) := by
      unfold reachedTick
      rw [hq]
      rfl
    exact forall_quote hp hr
  refine Iff.trans (liquidityInv_update h rfl fun _ _ _ => rfl) (Iff.trans ?_ hbal.symm)
  show pool.liquidity = (ranges _).depth s.positions (sqrtPriceToTick step.newSqrtPrice) ↔ _
  have hinv := h _ pool hp
  rw [Ranges.depth_move s.positions pool.currentTick]
  unfold liquidityAt at hinv
  rw [← hinv]
  omega

end Calls

/-! ## Runs -/

theorem liquidityInv_idle {call : Call} {s s' : State} (hi : Idle call s s') (h : LiquidityInv s) :
    LiquidityInv s' := by
  unfold LiquidityInv readPool liquidityAt
  rw [hi.pools, hi.positions]
  exact h

theorem liquidityInv_step {env : Env} {call : Call} {r : Reply} {s s' : State} (hw : Wf s)
    (h : LiquidityInv s) (hx : exec env call s = .ok (r, s')) :
    LiquidityInv s' ↔ CallOk env.toDeployment s call := by
  cases call with
  | createPool caller key feeTier price =>
    exact iff_of_true (createPool_inv hw h (done_ok.mp hx).1) trivial
  | addLiquidity caller key offer minA minB =>
    obtain ⟨a, hx, -⟩ := reply_ok.mp hx
    exact addLiquidity_inv hw h hx
  | removeLiquidity caller positionId x minA minB =>
    obtain ⟨a, hx, -⟩ := reply_ok.mp hx
    exact iff_of_true (removeLiquidity_inv hw h hx) trivial
  | collectFees caller positionId =>
    obtain ⟨a, hx, -⟩ := reply_ok.mp hx
    exact iff_of_true (collectFees_inv hw h hx) trivial
  | swap caller tokenIn tokenOut amountIn minOut =>
    obtain ⟨a, hx, -⟩ := reply_ok.mp hx
    exact swap_inv h hx
  | updateDynamicFee key =>
    obtain ⟨n, hx, -⟩ := reply_ok.mp hx
    obtain ⟨pool, hp, -, rfl⟩ := updateDynamicFee_ok hx
    refine iff_of_true (Iff.mpr (liquidityInv_update h rfl fun _ _ _ => rfl) ?_) trivial
    exact h key pool hp
  | init | pause | unpause | proposeUpgrade | approveUpgrade | executeUpgrade | rejectUpgrade
  | cancelUpgrade | token => exact iff_of_true (liquidityInv_idle (exec_idle rfl hx) h) trivial

/-- **Active liquidity.**  Along a run every pool trades with the liquidity of the positions
in range exactly when every call meets its condition: no swap enters more or less liquidity
than it leaves. -/
theorem active_liquidity_iff {d : Deployment} {tr : Trace} {s : State} (h : Run (machine d) tr s) :
    (∀ e ∈ tr, LiquidityInv e.after) ↔ ∀ e ∈ tr, StepOk e := by
  refine h.forall_after_iff ?_ ?_
  · rintro s ⟨tokens, rfl⟩ key pool hr
    cases hr
  · intro tr env call r s s' hr _ hinv hx
    exact liquidityInv_step (wf_run hr) hinv hx

/-! ## A run that crosses an end of a position -/

/-- Contract 0, administrator 9; calls are signed by `signers`. -/
def callAt (t : Nat) (signers : List Address) : Env := ⟨⟨0, true⟩, t, 0, signers⟩

/-- The pool of tokens 5 and 6. -/
def poolOf56 : PoolKey := ⟨5, 6⟩

/-- Users 1 and 2 hold both tokens; the pool opens at price 1 with a fee of 30 bps. -/
def openPool : List (Env × Call) :=
  [(callAt 0 [], .token (.mint 5 1 10000000)), (callAt 0 [], .token (.mint 6 1 10000000)),
    (callAt 0 [], .token (.mint 5 2 10000000)), (callAt 0 [], .token (.mint 6 2 10000000)),
    (callAt 0 [9], .init 9 [] 9 ⟨1000, 1000, 60⟩),
    (callAt 1 [9], .createPool 9 poolOf56 30 (2 ^ 64))]

/-- User 1 deposits into `[-512, 512)`. -/
def deposit512 : Env × Call :=
  (callAt 2 [1], .addLiquidity 1 poolOf56 ⟨-512, 512, 1000000, 1000000⟩ 0 0)

/-- Below tick 0 only the first of two positions is in range, but after a swap to tick -1 the
pool still trades with the liquidity of both. -/
theorem stale_liquidity :
    ∃ (tr : Trace) (s : State), Run (machine ⟨0, true⟩) tr s ∧ ¬ LiquidityInv s := by
  have hinit : (machine ⟨0, true⟩).init { tokens := .empty } := ⟨_, rfl⟩
  obtain ⟨tr, s, hrun, hok⟩ := Machine.exists_run_of_replay hinit
    (openPool ++ [deposit512,
      (callAt 3 [1], .addLiquidity 1 poolOf56 ⟨0, 512, 1000000, 1000000⟩ 0 0),
      (callAt 4 [2], .swap 2 5 6 100000 0)])
    (fun _ s => ((readPool s poolOf56).map fun pool =>
        (pool.currentTick, pool.liquidity, liquidityAt s poolOf56 (-1))) =
      some (-1, 79133158, 39566579)) (by decide) (by decide) (by decide)
  refine ⟨tr, s, hrun, ?_⟩
  intro hinv
  obtain ⟨pool, hp, heq⟩ := Option.map_eq_some_iff.mp (of_decide_eq_true hok)
  obtain ⟨htick, hliq, hat⟩ : pool.currentTick = -1 ∧ pool.liquidity = 79133158 ∧
      liquidityAt s poolOf56 (-1) = 39566579 := by simpa using heq
  have h := hinv poolOf56 pool hp
  rw [htick, hliq, hat] at h
  omega

/-- Two swaps inside the range of the only position. -/
theorem active_liquidity_one_position :
    ∃ (tr : Trace) (s : State), Run (machine ⟨0, true⟩) tr s ∧
      (readPool s poolOf56).isSome = true ∧ ∀ e ∈ tr, LiquidityInv e.after := by
  have hinit : (machine ⟨0, true⟩).init { tokens := .empty } := ⟨_, rfl⟩
  obtain ⟨tr, s, hrun, hok⟩ := Machine.exists_run_of_replay hinit
    (openPool ++ [deposit512, (callAt 3 [2], .swap 2 5 6 100000 0),
      (callAt 4 [2], .swap 2 6 5 100000 0)])
    (fun tr s => (readPool s poolOf56).isSome = true ∧ ∀ e ∈ tr, StepOk e)
    (by decide) (by decide) (by decide)
  obtain ⟨hpool, hall⟩ := of_decide_eq_true hok
  exact ⟨tr, s, hrun, hpool, (active_liquidity_iff hrun).mpr hall⟩

end Stellara.Amm
