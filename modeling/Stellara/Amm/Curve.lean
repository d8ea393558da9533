import Mathlib.Data.Rat.Defs
import Mathlib.Data.Rat.Cast.Defs
import Mathlib.Algebra.Order.Field.Rat
import Mathlib.Tactic.FieldSimp
import Mathlib.Tactic.Linarith
import Mathlib.Tactic.GCongr
import Mathlib.Tactic.NormNum
import Mathlib.Tactic.Ring
import Stellara.Amm.Steps

/-!
# The swap step against the exact curve (`contracts/amm/src/pool.rs`)

In exact arithmetic a unit of liquidity is worth `Q / p` of token A and `p / Q` of token B
at the price `p` (up to a constant), so a move of the price changes what the pool owes by
`moveWorth`.  The code divides with rounding and clamps its products.

A sale of token A that does not reach the target is priced at the target all the same: the
product `current_sqrt_price * Q64` is clamped for every price above the target of a tick
(`sellStep_price`).
-/

namespace Stellara.Amm

open Outcome

/-! ## Rounding -/

theorem saturate_nonneg {x : Int} (h : 0 ≤ x) : 0 ≤ Checked.saturate 128 x := by
  unfold Checked.saturate
  omega

theorem saturate_le {x : Int} (h : 0 ≤ x) : Checked.saturate 128 x ≤ x := by
  unfold Checked.saturate
  omega

theorem saturate_le_max (x : Int) : Checked.saturate 128 x ≤ i128Max := by
  unfold Checked.saturate i128Max
  omega

/-- A clamped quotient is at most the exact one. -/
theorem tdiv_le_div {x y : Int} {q : ℚ} (hx : 0 ≤ x) (hy : 0 < y) (h : (x : ℚ) ≤ q) :
    ((x.tdiv y : Int) : ℚ) ≤ q / y := by
  have hy' : (0 : ℚ) < y := by exact_mod_cast hy
  rw [le_div_iff₀ hy']
  have hmul : x.tdiv y * y ≤ x := by
    rw [Int.tdiv_eq_ediv_of_nonneg hx]
    exact Int.ediv_mul_le x hy.ne'
  have hcast : ((x.tdiv y : Int) : ℚ) * y ≤ x := by exact_mod_cast hmul
  exact hcast.trans h

/-! ## The tick table -/

def minSqrtPrice : Int := 12247334978884438016
def maxSqrtPrice : Int := 27784196929994764288

/-- The entries are 512 ticks apart and increase. -/
theorem tickSqrtTable_segment : ∀ i < 32, ∀ a ∈ tickSqrtTable[i]?, ∀ b ∈ tickSqrtTable[i + 1]?,
    a.1 = minTick + 512 * (i : Nat) ∧ b.1 = a.1 + 512 ∧ minSqrtPrice ≤ a.2 ∧ a.2 ≤ b.2 ∧
      b.2 ≤ maxSqrtPrice := by
  decide

theorem tickToSqrtPrice_bounds {tick p : Int} (h : tickToSqrtPrice tick = .ok p) :
    minSqrtPrice ≤ p ∧ p ≤ maxSqrtPrice := by
  simp only [tickToSqrtPrice, bind_eq_ok, require_eq_ok, exists_unit_and, ofOption_eq_ok,
    pure_eq_ok] at h
  obtain ⟨⟨hlo, hhi⟩, ⟨t0, s0⟩, h0, ⟨t1, s1⟩, h1, rfl⟩ := h
  have hlen : tickSqrtTable.length - 2 = 31 := rfl
  rw [hlen] at h0 h1
  generalize hi : min ((tick - minTick).tdiv 512).toNat 31 = i at h0 h1
  obtain ⟨ht0, ht1, hs0, hs, hs1⟩ := tickSqrtTable_segment i (by omega) _ h0 _ h1
  dsimp only at ht0 ht1 hs0 hs hs1 ⊢
  have hquot : (tick - minTick).tdiv 512 = (tick - minTick) / 512 :=
    Int.tdiv_eq_ediv_of_nonneg (by omega)
  rw [hquot] at hi
  have hle : t0 ≤ tick := by omega
  have hge : tick ≤ t1 := by unfold minTick maxTick at *; omega
  have hden : t1 - t0 = 512 := by omega
  rw [hden, Int.tdiv_eq_ediv_of_nonneg (mul_nonneg (by omega) (by omega))]
  have hmul : (s1 - s0) * (tick - t0) ≤ (s1 - s0) * 512 :=
    mul_le_mul_of_nonneg_left (by omega) (by omega)
  have hmul0 : 0 ≤ (s1 - s0) * (tick - t0) := mul_nonneg (by omega) (by omega)
  omega

/-! ## Where a step ends -/

/-- The price a step reaches and the input it charges. -/
def stepTo (currentSqrtPrice targetSqrtPrice liquidity amountAfterFee : Int) : Int × Int :=
  if targetSqrtPrice < currentSqrtPrice then
    sellStep currentSqrtPrice targetSqrtPrice liquidity amountAfterFee
  else buyStep currentSqrtPrice targetSqrtPrice liquidity amountAfterFee

section Step

variable {current target liquidity amount : Int}

/-- **A sale of token A ends at the target**, whatever the amount. -/
theorem sellStep_price (htarget : minSqrtPrice ≤ target) (hfall : target < current)
    (hamount : 0 ≤ amount) : (sellStep current target liquidity amount).1 = target := by
  unfold sellStep
  simp only
  split
  · rfl
  · have hterm : 0 ≤ (saturatingMul amount current).tdiv (max liquidity 1) :=
      Int.tdiv_nonneg (saturate_nonneg (mul_nonneg hamount (by unfold minSqrtPrice at *; omega)))
        (by omega)
    generalize (saturatingMul amount current).tdiv (max liquidity 1) = term at hterm
    have hden : q64 ≤ max (saturatingAdd term q64) 1 := by
      unfold saturatingAdd Checked.saturate q64
      omega
    have hnum : 0 ≤ saturatingMul current q64 :=
      saturate_nonneg (mul_nonneg (by unfold minSqrtPrice at *; omega) (by unfold q64; omega))
    have hcap : saturatingMul current q64 ≤ i128Max := saturate_le_max _
    -- the product is clamped, so the quotient is below the price of every tick
    have hquot : (saturatingMul current q64).tdiv (max (saturatingAdd term q64) 1) < 2 ^ 63 := by
      rw [Int.tdiv_eq_ediv_of_nonneg hnum]
      apply Int.ediv_lt_of_lt_mul (by omega)
      unfold i128Max q64 at *
      omega
    show max _ target = target
    unfold minSqrtPrice at htarget
    omega

theorem buyStep_price (hrise : current ≤ target) (htarget : target ≤ maxSqrtPrice)
    (hamount : 0 ≤ amount) : current ≤ (buyStep current target liquidity amount).1 ∧
      (buyStep current target liquidity amount).1 ≤ target := by
  unfold buyStep
  simp only
  split
  · exact ⟨hrise, le_refl _⟩
  · have hmoved : 0 ≤ (saturatingMul amount q64).tdiv (max liquidity 1) :=
      Int.tdiv_nonneg (saturate_nonneg (mul_nonneg hamount (by unfold q64; omega))) (by omega)
    generalize (saturatingMul amount q64).tdiv (max liquidity 1) = moved at hmoved
    show current ≤ min (saturatingAdd current moved) target ∧ _ ≤ target
    unfold saturatingAdd Checked.saturate maxSqrtPrice at *
    omega

end Step

/-! ## The worth of a move -/

/-- What a unit of liquidity is worth in one token at a price, up to a constant. -/
def unitWorth (isA : Bool) (sqrtPrice : Int) : ℚ :=
  if isA then (q64 : ℚ) / sqrtPrice else (sqrtPrice : ℚ) / q64

/-- By how much a move of the price changes the worth of the liquidity in one token. -/
def moveWorth (isA : Bool) (liquidity currentSqrtPrice newSqrtPrice : Int) : ℚ :=
  liquidity * (unitWorth isA newSqrtPrice - unitWorth isA currentSqrtPrice)

/-- The output of a step from one price to another. -/
def stepOut (targetSqrtPrice currentSqrtPrice newSqrtPrice liquidity : Int) : Int :=
  if targetSqrtPrice < currentSqrtPrice then sellOut currentSqrtPrice newSqrtPrice liquidity
  else buyOut currentSqrtPrice newSqrtPrice liquidity

/-- The input that takes the price to the target. -/
def maxIn (currentSqrtPrice targetSqrtPrice liquidity : Int) : Int :=
  if targetSqrtPrice < currentSqrtPrice then sellMaxIn currentSqrtPrice targetSqrtPrice liquidity
  else buyMaxIn currentSqrtPrice targetSqrtPrice liquidity

/-- A sale of token A brings all that takes the price to the target, and where a swap goes to
the target that is the exact input rounded down. -/
def MaxInExact (currentSqrtPrice targetSqrtPrice liquidity amountAfterFee : Int) : Prop :=
  (targetSqrtPrice < currentSqrtPrice →
    maxIn currentSqrtPrice targetSqrtPrice liquidity ≤ amountAfterFee) ∧
  (maxIn currentSqrtPrice targetSqrtPrice liquidity ≤ amountAfterFee →
    moveWorth (targetSqrtPrice < currentSqrtPrice) liquidity currentSqrtPrice targetSqrtPrice <
      maxIn currentSqrtPrice targetSqrtPrice liquidity + 1)

instance (current target liquidity amount : Int) :
    Decidable (MaxInExact current target liquidity amount) :=
  inferInstanceAs (Decidable (_ ∧ _))

section Worth

variable {current target new liquidity amount : Int}

theorem q64_pos : (0 : ℚ) < q64 := by
  unfold q64
  norm_num

/-- A clamped product and its quotient are at most the exact ones. -/
theorem mulDiv_le {x y z : Int} {q : ℚ} (hx : 0 ≤ x) (hy : 0 ≤ y) (hz : 0 < z) (h : (x : ℚ) ≤ q) :
    0 ≤ (saturatingMul x y).tdiv z ∧ (((saturatingMul x y).tdiv z : Int) : ℚ) ≤ q * y / z := by
  have hxy : 0 ≤ x * y := mul_nonneg hx hy
  have hy' : (0 : ℚ) ≤ y := by exact_mod_cast hy
  refine ⟨Int.tdiv_nonneg (saturate_nonneg hxy) hz.le, tdiv_le_div (saturate_nonneg hxy) hz ?_⟩
  have hsat : ((saturatingMul x y : Int) : ℚ) ≤ ((x * y : Int) : ℚ) := by
    exact_mod_cast saturate_le hxy
  calc ((saturatingMul x y : Int) : ℚ)
      ≤ ((x * y : Int) : ℚ) := hsat
    _ = x * y := by push_cast; rfl
    _ ≤ q * y := mul_le_mul_of_nonneg_right h hy'

/-- Token B paid for a fall of the price is at most what the move is worth. -/
theorem sellOut_le (hL : 0 ≤ liquidity) (hfall : new ≤ current) :
    (sellOut current new liquidity : ℚ) ≤ -moveWorth false liquidity current new := by
  have h := (mulDiv_le hL (sub_nonneg.mpr hfall) (z := q64) (by decide) (le_refl _)).2
  have heq : -moveWorth false liquidity current new =
      (liquidity : ℚ) * ((current - new : Int) : ℚ) / (q64 : Int) := by
    simp only [moveWorth, unitWorth, Bool.false_eq_true, if_false]
    push_cast
    ring
  rw [heq]
  exact h

/-- Token A paid for a rise of the price is at most what the move is worth. -/
theorem buyOut_le (hL : 0 ≤ liquidity) (hpos : 0 < current) (hrise : current ≤ new) :
    (buyOut current new liquidity : ℚ) ≤ -moveWorth true liquidity current new := by
  have hc : (0 : ℚ) < current := by exact_mod_cast hpos
  have hn : (0 : ℚ) < new := by exact_mod_cast hpos.trans_le hrise
  obtain ⟨h0, hstep⟩ := mulDiv_le hL (sub_nonneg.mpr hrise) hpos (le_refl _)
  have h := (mulDiv_le h0 (y := q64) (by decide) (hpos.trans_le hrise) hstep).2
  have heq : -moveWorth true liquidity current new =
      (liquidity : ℚ) * ((new - current : Int) : ℚ) / current * (q64 : Int) / new := by
    simp only [moveWorth, unitWorth, if_true]
    push_cast
    field_simp
    ring
  rw [heq]
  unfold buyOut
  rw [if_neg (by omega)]
  exact h

/-- Token B charged for a rise of the price that stops before the target. -/
theorem buyStep_charge (hL : 0 < liquidity) (hpos : 0 < current) (hamount : 0 ≤ amount)
    (hpart : amount < buyMaxIn current target liquidity) :
    moveWorth false liquidity current (buyStep current target liquidity amount).1 ≤
      (buyStep current target liquidity amount).2 := by
  have hstep : buyStep current target liquidity amount =
      (min (saturatingAdd current ((saturatingMul amount q64).tdiv (max liquidity 1))) target,
        amount) := if_neg (not_le.mpr hpart)
  obtain ⟨hmoved0, hmoved⟩ := mulDiv_le hamount (y := q64) (by decide) hL (le_refl _)
  have hmax : max liquidity 1 = liquidity := by omega
  rw [hstep, hmax]
  generalize (saturatingMul amount q64).tdiv liquidity = moved at hmoved0 hmoved
  have hL' : (0 : ℚ) < liquidity := by exact_mod_cast hL
  have hnew : min (saturatingAdd current moved) target - current ≤ moved := by
    have hle : saturatingAdd current moved ≤ current + moved := saturate_le (by omega)
    omega
  generalize min (saturatingAdd current moved) target = new at hnew
  have hnew : (new : ℚ) - current ≤ moved := by exact_mod_cast hnew
  have hworth : moveWorth false liquidity current new = liquidity * ((new : ℚ) - current) / q64 := by
    simp only [moveWorth, unitWorth, Bool.false_eq_true, if_false]
    ring
  show moveWorth false liquidity current new ≤ amount
  rw [hworth, div_le_iff₀ q64_pos]
  calc (liquidity : ℚ) * ((new : ℚ) - current)
      ≤ liquidity * (amount * (q64 : Int) / liquidity) := by
        exact mul_le_mul_of_nonneg_left (hnew.trans hmoved) hL'.le
    _ = amount * q64 := by field_simp

/-- Where the price stays, nothing is paid. -/
theorem stepOut_self (target current liquidity : Int) : stepOut target current current liquidity = 0 := by
  have hsat : Checked.saturate 128 0 = 0 := by decide
  unfold stepOut
  split
  · simp [sellOut, saturatingMul, hsat]
  · simp [buyOut, saturatingMul, hsat]

/-- With enough input the price goes to the target. -/
theorem stepTo_full (h : maxIn current target liquidity ≤ amount) :
    stepTo current target liquidity amount = (target, maxIn current target liquidity) := by
  unfold maxIn at h ⊢
  unfold stepTo
  by_cases hfall : target < current
  · rw [if_pos hfall] at h
    rw [if_pos hfall, if_pos hfall]
    exact if_pos h
  · rw [if_neg hfall] at h
    rw [if_neg hfall, if_neg hfall]
    exact if_pos h

/-- **The step against the curve.**  When `MaxInExact` holds, the input is at least the worth
of the move, or in a full step less than one unit below it, and the output is at most the
worth in the other token. -/
theorem stepTo_priced (hpos : 0 < current) (htarget : target ≤ maxSqrtPrice) (hL : 0 < liquidity)
    (hamount : 0 ≤ amount) (hmax : MaxInExact current target liquidity amount) {new charged : Int}
    (hstep : stepTo current target liquidity amount = (new, charged)) :
    (moveWorth (target < current) liquidity current new ≤ charged ∨
      maxIn current target liquidity ≤ amount ∧
        moveWorth (target < current) liquidity current new < charged + 1) ∧
    (stepOut target current new liquidity : ℚ) ≤
      -moveWorth (!decide (target < current)) liquidity current new := by
  obtain ⟨hsell, hexact⟩ := hmax
  by_cases hfall : target < current
  · have hfull := hsell hfall
    obtain ⟨rfl, rfl⟩ := Prod.mk.inj ((stepTo_full hfull).symm.trans hstep)
    refine ⟨.inr ⟨hfull, hexact hfull⟩, ?_⟩
    unfold stepOut
    rw [if_pos hfall, decide_eq_true hfall]
    exact sellOut_le hL.le hfall.le
  · have hbuy : stepTo current target liquidity amount = buyStep current target liquidity amount :=
      if_neg hfall
    have hge : current ≤ (buyStep current target liquidity amount).1 :=
      (buyStep_price (not_lt.mp hfall) htarget hamount).1
    rw [← hbuy, hstep] at hge
    constructor
    · by_cases hfull : maxIn current target liquidity ≤ amount
      · obtain ⟨rfl, rfl⟩ := Prod.mk.inj ((stepTo_full hfull).symm.trans hstep)
        exact .inr ⟨hfull, hexact hfull⟩
      · unfold maxIn at hfull
        rw [if_neg hfall] at hfull
        have hcharge := buyStep_charge hL hpos hamount (not_le.mp hfull)
        rw [← hbuy, hstep] at hcharge
        rw [decide_eq_false hfall]
        exact .inl hcharge
    · unfold stepOut
      rw [if_neg hfall, decide_eq_false hfall]
      exact buyOut_le hL.le hpos hge

end Worth

/-! ## The quote of a swap -/

/-- The price reached stays positive. -/
theorem stepTo_pos {current target amount : Int} (hpos : 0 < current)
    (hlo : minSqrtPrice ≤ target) (hhi : target ≤ maxSqrtPrice) (hamount : 0 ≤ amount)
    (liquidity : Int) :
    0 < (stepTo current target liquidity amount).1 := by
  unfold stepTo
  split
  · next hfall =>
    rw [sellStep_price hlo hfall hamount]
    unfold minSqrtPrice at hlo
    omega
  · next hrise =>
    have hge : current ≤ (buyStep current target liquidity amount).1 :=
      (buyStep_price (not_lt.mp hrise) hhi hamount).1
    exact hpos.trans_le hge

/-- What a swap without a fee is quoted. -/
theorem quoteSwap_ok {d : Deployment} {pool : PoolState} {zeroForOne : Bool} {amountIn : Int}
    {step : SwapStep} (h : quoteSwap d pool zeroForOne amountIn = .ok step) (hpos : 0 < amountIn)
    (hbps : 0 < pool.dynamicFeeBps) (hfee : amountIn * pool.dynamicFeeBps < 10000) :
    ∃ target, tickToSqrtPrice (targetTick pool zeroForOne) = .ok target ∧
      stepTo pool.sqrtPrice target pool.liquidity amountIn = (step.newSqrtPrice, step.amountIn) ∧
      step.amountOut = stepOut target pool.sqrtPrice step.newSqrtPrice pool.liquidity ∧
      step.feePaid = 0 := by
  have hfee0 : 0 ≤ amountIn * pool.dynamicFeeBps := mul_nonneg hpos.le (by omega)
  have hle : amountIn * 1 ≤ amountIn * pool.dynamicFeeBps :=
    mul_le_mul_of_nonneg_left (by omega) hpos.le
  simp only [quoteSwap, computeSwapStep, bind_eq_ok] at h
  obtain ⟨target, ht, scaled, hscaled, after, hafter, h⟩ := h
  have hscaled : scaled = amountIn * pool.dynamicFeeBps :=
    i128_exact hscaled (inI128_iff.mpr ⟨by omega, by unfold i128Max; omega⟩)
  have hpaid : scaled.tdiv 10000 = 0 := by
    rw [hscaled]
    exact Int.tdiv_eq_zero_of_lt hfee0 hfee
  rw [hpaid, sub_zero] at hafter
  have hafter : after = amountIn :=
    i128_exact hafter (inI128_iff.mpr ⟨by omega, by unfold i128Max; omega⟩)
  have hmax : max after 0 = amountIn := by omega
  rw [hpaid, hmax] at h
  refine ⟨target, ht, ?_⟩
  unfold stepTo stepOut
  by_cases hfall : target < pool.sqrtPrice
  · rw [if_pos hfall] at h ⊢
    cases h
    exact ⟨rfl, (if_pos hfall).symm, rfl⟩
  · rw [if_neg hfall] at h ⊢
    cases h
    exact ⟨rfl, (if_neg hfall).symm, rfl⟩

end Stellara.Amm
