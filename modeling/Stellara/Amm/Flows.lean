import Stellara.Amm.Payouts

/-!
# What calls move into and out of a pool (`contracts/amm/src/lib.rs`)

`moved` is what a call transfers into the contract for a pool, by token; what it transfers
out is negative.  The contract's balances move by exactly that (`balance_moved`), so the
sum over the calls of a run, `holdings`, is what the contract holds for the pool.
-/

namespace Stellara.Amm

open Outcome

/-- The pool that a call is about and the amounts of its tokens that enter the contract. -/
def moved (e : Event Env Call Reply State) : Option (PoolKey × Int × Int) :=
  match e.call, e.ret with
  | .addLiquidity _ key _ _ _, .added r => some (key, max r.amountA 0, max r.amountB 0)
  | .removeLiquidity _ positionId _ _ _, .removed r =>
    (readPosition e.before positionId).map fun p => (p.poolKey, -max r.amountA 0, -max r.amountB 0)
  | .collectFees _ positionId, .collected owed =>
    (readPosition e.before positionId).map fun p => (p.poolKey, -max owed.1 0, -max owed.2 0)
  | .swap _ tokenIn tokenOut _ _, .swapped r =>
    some (swapKey tokenIn tokenOut,
      if tokenIn < tokenOut then (r.amountIn, -r.amountOut) else (-r.amountOut, r.amountIn))
  | _, _ => none

/-- What a call moves into a pool of one of its tokens. -/
def flow (key : PoolKey) (isA : Bool) (e : Event Env Call Reply State) : Int :=
  match moved e with
  | some (k, amounts) => if k = key then side isA amounts else 0
  | none => 0

/-- The tokens in the contract that are attributable to a pool. -/
def holdings (key : PoolKey) (isA : Bool) (tr : Trace) : Int := tally (flow key isA) tr

/-- What a call moves into the contract of a token. -/
def received (token : Address) (e : Event Env Call Reply State) : Int :=
  match moved e with
  | some (key, amountA, amountB) =>
    (if token = key.tokenA then amountA else 0) + (if token = key.tokenB then amountB else 0)
  | none => 0

theorem flow_of_moved {key k : PoolKey} {isA : Bool} {e : Event Env Call Reply State}
    {amounts : Int × Int} (h : moved e = some (k, amounts)) :
    flow key isA e = if k = key then side isA amounts else 0 := by
  unfold flow
  rw [h]

theorem flow_of_none {key : PoolKey} {isA : Bool} {e : Event Env Call Reply State}
    (h : moved e = none) : flow key isA e = 0 := by
  unfold flow
  rw [h]

/-! ## The token contracts -/

theorem balance_payIfPositive {L L' : Tokens} {token src dst : Address} {amount : Int}
    (h : (payIfPositive L token src dst amount) = .ok L') (t a : Address) :
    L'.balance t a = L.balance t a - (if t = token ∧ a = src then max amount 0 else 0) +
      (if t = token ∧ a = dst then max amount 0 else 0) := by
  unfold payIfPositive at h
  split at h
  · next hpos =>
    rw [tokens_transfer_eq_ok] at h
    rw [Ledger.balance_transfer h, max_eq_left hpos.le]
  · next hneg =>
    cases h
    rw [max_eq_right (not_lt.mp hneg)]
    split <;> split <;> omega

/-- Paying both tokens to the contract. -/
theorem balance_payIn {L L₁ L₂ : Tokens} {key : PoolKey} {caller self : Address} {amountA amountB : Int}
    (hne : caller ≠ self) (h₁ : payIfPositive L key.tokenA caller self amountA = .ok L₁)
    (h₂ : payIfPositive L₁ key.tokenB caller self amountB = .ok L₂) (token : Address) :
    L₂.balance token self = L.balance token self + ((if token = key.tokenA then max amountA 0 else 0) +
      (if token = key.tokenB then max amountB 0 else 0)) := by
  have hne : self ≠ caller := hne.symm
  have hb₁ := balance_payIfPositive h₁ token self
  have hb₂ := balance_payIfPositive h₂ token self
  simp only [hne, and_false, if_false, and_true] at hb₁ hb₂
  omega

/-- Paying both tokens out of the contract. -/
theorem balance_payOut {L L₁ L₂ : Tokens} {tokenA tokenB caller self : Address}
    {amountA amountB : Int} (hne : caller ≠ self)
    (h₁ : payIfPositive L tokenA self caller amountA = .ok L₁)
    (h₂ : payIfPositive L₁ tokenB self caller amountB = .ok L₂) (token : Address) :
    L₂.balance token self = L.balance token self + ((if token = tokenA then -max amountA 0 else 0) +
      (if token = tokenB then -max amountB 0 else 0)) := by
  have hne : self ≠ caller := hne.symm
  have hb₁ := balance_payIfPositive h₁ token self
  have hb₂ := balance_payIfPositive h₂ token self
  simp only [hne, and_false, if_false, and_true] at hb₁ hb₂
  rw [hb₂, hb₁]
  split <;> split <;> omega

/-- A swap moves its two amounts between the caller and the contract. -/
theorem balance_swap {L L₁ L₂ : Tokens} {tokenIn tokenOut caller self : Address}
    {amountIn amountOut : Int} (hne : caller ≠ self)
    (h₁ : Ledger.transfer i128Max L tokenIn caller self amountIn = some L₁)
    (h₂ : Ledger.transfer i128Max L₁ tokenOut self caller amountOut = some L₂) (token : Address) :
    L₂.balance token self = L.balance token self + ((if token = tokenIn then amountIn else 0) +
      (if token = tokenOut then -amountOut else 0)) := by
  have hne : self ≠ caller := hne.symm
  have hb₁ := Ledger.balance_transfer h₁ token self
  have hb₂ := Ledger.balance_transfer h₂ token self
  simp only [hne, and_false, if_false, and_true] at hb₁ hb₂
  rw [hb₂, hb₁]
  split <;> split <;> omega

theorem received_of_moved {token : Address} {e : Event Env Call Reply State} {key : PoolKey}
    {a b : Int} (h : moved e = some (key, a, b)) :
    received token e = (if token = key.tokenA then a else 0) + (if token = key.tokenB then b else 0) := by
  unfold received
  rw [h]

/-- **The contract's balances** move by what the calls report. -/
theorem balance_moved {d : Deployment} {env : Env} {call : Call} {r : Reply} {s s' : State} (hw : Wf s)
    (hv : env.Of d) (hc : ∀ c, call ≠ .token c) (hx : exec env call s = .ok (r, s'))
    (token : Address) : s'.tokens.balance token d.self =
      s.tokens.balance token d.self + received token ⟨env, call, r, s, s'⟩ := by
  obtain ⟨rfl, -⟩ := id hv
  cases call with
  | createPool caller key feeTier price =>
    obtain ⟨hcall, rfl⟩ := done_ok.mp hx
    obtain ⟨-, -, -, rfl⟩ := createPool_ok hcall
    exact (add_zero _).symm
  | addLiquidity caller key offer minA minB =>
    obtain ⟨a, hcall, rfl⟩ := reply_ok.mp hx
    obtain ⟨hs, pool, deposit, t₁, t₂, pool₁, insideA, insideB, reserveA, reserveB, pool₂, owners,
      -, -, h₁, h₂, -, -, -, -, rfl, rfl⟩ := addLiquidity_ok hcall
    exact balance_payIn (hv.ne_self hs) h₁ h₂ token
  | removeLiquidity caller positionId x minA minB =>
    obtain ⟨a, hcall, rfl⟩ := reply_ok.mp hx
    obtain ⟨hs, old, pool, insideA, insideB, position, outA, outB, hedgeA, hedgeB, pool₁, sumA, sumB,
      pool₂, t₁, t₂, owners, hpos, -, -, hp, -, -, -, -, hunlock, -, -, hde, h₁, h₂, rfl, rfl⟩ :=
      removeLiquidity_ok hcall
    obtain ⟨ra, rb, -, -, rfl⟩ := unlockReserve_ok hunlock
    obtain ⟨htokA, htokB, -⟩ := hw.pool _ pool hp
    obtain ⟨hA, hB⟩ := deactivate_tokens hde
    have hb := balance_payOut (hv.ne_self hs) h₁ h₂ token
    rw [hA, hB] at hb
    rw [htokA, htokB] at hb
    refine hb.trans (congrArg _ (Eq.symm (received_of_moved ?_)))
    show (readPosition s positionId).map _ = _
    rw [hpos]
    rfl
  | collectFees caller positionId =>
    obtain ⟨⟨owedA, owedB⟩, hcall, rfl⟩ := reply_ok.mp hx
    obtain ⟨hs, old, pool, insideA, insideB, position, t₁, t₂, hpos, hp, -, -, -, -, h₁, h₂, rfl⟩ :=
      collectFees_ok hcall
    obtain ⟨htokA, htokB, -⟩ := hw.pool _ pool hp
    have hb := balance_payOut (hv.ne_self hs) h₁ h₂ token
    rw [htokA, htokB] at hb
    refine hb.trans (congrArg _ (Eq.symm (received_of_moved ?_)))
    show (readPosition s positionId).map _ = _
    rw [hpos]
    rfl
  | swap caller tokenIn tokenOut amountIn minOut =>
    obtain ⟨a, hcall, rfl⟩ := reply_ok.mp hx
    obtain ⟨hs, -, pool, step, growthA, growthB, s₁, volume, t₁, t₂, fees, samples, -, -, -, -, -, -,
      h₁, h₂, rfl, rfl⟩ := swap_ok hcall
    have hb := balance_swap (hv.ne_self hs) h₁ h₂ token
    refine hb.trans ?_
    by_cases hlt : tokenIn < tokenOut
    · simp only [received, moved, swapKey, if_pos hlt]
    · simp only [received, moved, swapKey, if_neg hlt]
      omega
  | updateDynamicFee key =>
    obtain ⟨n, hcall, rfl⟩ := reply_ok.mp hx
    obtain ⟨pool, -, -, rfl⟩ := updateDynamicFee_ok hcall
    exact (add_zero _).symm
  | init | pause | unpause | proposeUpgrade | approveUpgrade | executeUpgrade | rejectUpgrade
  | cancelUpgrade | token =>
    have htokens := (exec_idle rfl hx).tokens hc
    rw [htokens]
    exact (add_zero _).symm

end Stellara.Amm
