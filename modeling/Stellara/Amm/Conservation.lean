import Stellara.Amm.Curve

/-!
# What a swap step conserves (`contracts/amm/src/pool.rs`)

On the exact curve the input `a` moves the price from `c` to `curvePrice` and pays
`curveOut`.  The step of the code charges an `a` that it rounds down, moves to a price of
its own and pays an output that it rounds down as well:

    exact input of the move  =  charged  +  chargeLacks / (c·e)   or  / Q
    exact output of the move =  paid     +  outputLacks / Q       or  / (c·e)

so the output is within the curve exactly if what the output lacks makes up for what the
charge lacks (`MadeUp`).  A partial purchase of token A always does.
-/

namespace Stellara.Amm

open Outcome

/-! ## The exact curve -/

/-- What a unit of liquidity is worth in one token at an exact price, up to a constant. -/
def worthAt (isA : Bool) (p : ℚ) : ℚ := if isA then (q64 : ℚ) / p else p / q64

/-- The price that `amount` of token A (if `sellsA`) or of token B leads to. -/
def curvePrice (sellsA : Bool) (liquidity sqrtPrice : Int) (amount : ℚ) : ℚ :=
  if sellsA then q64 * liquidity * sqrtPrice / (liquidity * q64 + amount * sqrtPrice)
  else sqrtPrice + amount * q64 / liquidity

/-- The output of the constant-liquidity curve for the input `amount`. -/
def curveOut (sellsA : Bool) (liquidity sqrtPrice : Int) (amount : ℚ) : ℚ :=
  liquidity * (worthAt (!sellsA) sqrtPrice -
    worthAt (!sellsA) (curvePrice sellsA liquidity sqrtPrice amount))

section Exact

variable {liquidity current : Int} {amount : ℚ}

theorem curveOut_zero (hL : 0 < liquidity) (hc : 0 < current) (sellsA : Bool) :
    curveOut sellsA liquidity current 0 = 0 := by
  have hL' : (0 : ℚ) < liquidity := by exact_mod_cast hL
  have hc' : (0 : ℚ) < current := by exact_mod_cast hc
  have hq := q64_pos
  cases sellsA with
  | true =>
    simp only [curveOut, worthAt, curvePrice, Bool.not_true, Bool.false_eq_true, if_false, if_true]
    field_simp
    ring
  | false =>
    simp only [curveOut, worthAt, curvePrice, Bool.not_false, Bool.false_eq_true, if_false, if_true]
    field_simp
    ring

end Exact

/-! ## Charge and output of a move -/

/-- By how much the charge `amount` is below the exact input of a move to `new`, times the
product of the prices in a sale of token A and times `Q` otherwise. -/
def chargeLacks (sellsA : Bool) (liquidity current new amount : Int) : Int :=
  if sellsA then liquidity * (current - new) * q64 - amount * current * new
  else liquidity * (new - current) - amount * q64

/-- By how much the output is below the exact one, times `Q` in a sale of token A and
times the product of the prices otherwise. -/
def outputLacks (sellsA : Bool) (liquidity current new : Int) : Int :=
  if sellsA then liquidity * (current - new) - sellOut current new liquidity * q64
  else liquidity * (new - current) * q64 - buyOut current new liquidity * current * new

/-- What the output of a move lacks makes up for what the charge lacks. -/
def MadeUp (sellsA : Bool) (liquidity current new amount : Int) : Prop :=
  if sellsA then
    liquidity * chargeLacks true liquidity current new amount ≤
      (liquidity * q64 + amount * current) * outputLacks true liquidity current new
  else
    liquidity * current * q64 * chargeLacks false liquidity current new amount ≤
      (liquidity * current + amount * q64) * outputLacks false liquidity current new

instance (sellsA : Bool) (liquidity current new amount : Int) :
    Decidable (MadeUp sellsA liquidity current new amount) := by
  unfold MadeUp
  infer_instance

/-- The output of a move from `current` to `new`. -/
def moveOut (sellsA : Bool) (liquidity current new : Int) : Int :=
  if sellsA then sellOut current new liquidity else buyOut current new liquidity

section Move

variable {liquidity current new amount : Int}

theorem covered_sell_iff (hL : 0 < liquidity) (hc : 0 < current) (ha : 0 ≤ amount) (out : Int) :
    (out : ℚ) ≤ curveOut true liquidity current amount ↔
      liquidity * liquidity * current * q64 ≤
        (liquidity * q64 + amount * current) * (liquidity * current - out * q64) := by
  have hL' : (0 : ℚ) < liquidity := by exact_mod_cast hL
  have hc' : (0 : ℚ) < current := by exact_mod_cast hc
  have ha' : (0 : ℚ) ≤ amount := by exact_mod_cast ha
  have hq := q64_pos
  have hden : (0 : ℚ) < liquidity * q64 + amount * current := by positivity
  have hout : curveOut true liquidity current amount =
      (liquidity * current * (liquidity * q64 + amount * current) -
        liquidity * liquidity * current * q64) /
        (q64 * (liquidity * q64 + amount * current)) := by
    simp only [curveOut, worthAt, curvePrice, Bool.not_true, Bool.false_eq_true, if_false, if_true]
    field_simp
  rw [hout, le_div_iff₀ (mul_pos hq hden)]
  constructor
  · intro h
    have hint : (liquidity : ℚ) * liquidity * current * q64 ≤
        (liquidity * q64 + amount * current) * (liquidity * current - out * q64) := by
      linarith
    exact_mod_cast hint
  · intro h
    have hint : (liquidity : ℚ) * liquidity * current * q64 ≤
        (liquidity * q64 + amount * current) * (liquidity * current - out * q64) := by
      exact_mod_cast h
    linarith

theorem covered_buy_iff (hL : 0 < liquidity) (hc : 0 < current) (ha : 0 ≤ amount) (out : Int) :
    (out : ℚ) ≤ curveOut false liquidity current amount ↔
      liquidity * liquidity * current * q64 ≤
        (liquidity * current + amount * q64) * (liquidity * q64 - out * current) := by
  have hL' : (0 : ℚ) < liquidity := by exact_mod_cast hL
  have hc' : (0 : ℚ) < current := by exact_mod_cast hc
  have ha' : (0 : ℚ) ≤ amount := by exact_mod_cast ha
  have hq := q64_pos
  have hden : (0 : ℚ) < liquidity * current + amount * q64 := by positivity
  have hout : curveOut false liquidity current amount =
      (liquidity * q64 * (liquidity * current + amount * q64) -
        liquidity * liquidity * current * q64) /
        (current * (liquidity * current + amount * q64)) := by
    simp only [curveOut, worthAt, curvePrice, Bool.not_false, Bool.false_eq_true, if_false, if_true]
    field_simp
  rw [hout, le_div_iff₀ (mul_pos hc' hden)]
  constructor
  · intro h
    have hint : (liquidity : ℚ) * liquidity * current * q64 ≤
        (liquidity * current + amount * q64) * (liquidity * q64 - out * current) := by
      linarith
    exact_mod_cast hint
  · intro h
    have hint : (liquidity : ℚ) * liquidity * current * q64 ≤
        (liquidity * current + amount * q64) * (liquidity * q64 - out * current) := by
      exact_mod_cast h
    linarith

/-- **The exact condition** for the output of a move to be within the curve. -/
theorem covered_iff (hL : 0 < liquidity) (hc : 0 < current) (hn : 0 < new) (ha : 0 ≤ amount)
    (sellsA : Bool) :
    (moveOut sellsA liquidity current new : ℚ) ≤ curveOut sellsA liquidity current amount ↔
      MadeUp sellsA liquidity current new amount := by
  cases sellsA with
  | true =>
    rw [covered_sell_iff hL hc ha]
    simp only [MadeUp, moveOut, chargeLacks, outputLacks, if_true]
    generalize sellOut current new liquidity = out
    constructor
    · intro h
      linarith
    · intro h
      linarith
  | false =>
    rw [covered_buy_iff hL hc ha]
    simp only [MadeUp, moveOut, chargeLacks, outputLacks, Bool.false_eq_true, if_false]
    generalize buyOut current new liquidity = out
    -- both sides of the product inequality are multiplied by the new price
    constructor
    · intro h
      have hmul := mul_le_mul_of_nonneg_right h hn.le
      linarith
    · intro h
      refine le_of_mul_le_mul_right ?_ hn
      linarith

/-- A charge that lacks nothing needs nothing to make up for it. -/
theorem madeUp_of_paid {sellsA : Bool} (hL : 0 < liquidity) (hc : 0 < current) (ha : 0 ≤ amount)
    (hout : 0 ≤ outputLacks sellsA liquidity current new)
    (hpaid : chargeLacks sellsA liquidity current new amount ≤ 0) :
    MadeUp sellsA liquidity current new amount := by
  have hq : (0 : Int) < q64 := by decide
  cases sellsA with
  | true =>
    have hleft := mul_nonpos_of_nonneg_of_nonpos hL.le hpaid
    have hw : 0 ≤ liquidity * q64 + amount * current := by positivity
    exact hleft.trans (mul_nonneg hw hout)
  | false =>
    have hleft := mul_nonpos_of_nonneg_of_nonpos (by positivity : 0 ≤ liquidity * current * q64) hpaid
    have hw : 0 ≤ liquidity * current + amount * q64 := by positivity
    exact hleft.trans (mul_nonneg hw hout)

end Move

/-! ## The inputs of a step -/

/-- What `compute_swap_step` is given: prices and a liquidity that are positive, an input
that is not negative, all of them `i128`. -/
structure StepInput where
  currentSqrtPrice : Int
  targetSqrtPrice : Int
  liquidity : Int
  amountInRemaining : Int
  feeBps : Nat
  current_pos : 0 < currentSqrtPrice
  current_le : currentSqrtPrice ≤ i128Max
  target_pos : 0 < targetSqrtPrice
  target_le : targetSqrtPrice ≤ i128Max
  liquidity_pos : 0 < liquidity
  remaining_nonneg : 0 ≤ amountInRemaining
  remaining_le : amountInRemaining ≤ i128Max

namespace StepInput

variable (x : StepInput)

def exec (d : Deployment) : Result SwapStep :=
  computeSwapStep d x.currentSqrtPrice x.targetSqrtPrice x.liquidity x.amountInRemaining x.feeBps

/-- The price falls: token A is sold. -/
def sellsA : Bool := x.targetSqrtPrice < x.currentSqrtPrice

/-- The input that is left after the fee. -/
def NetInput (d : Deployment) (n : Int) : Prop :=
  ∃ scaled after, (d.i128 (x.amountInRemaining * x.feeBps) : Result Int) = .ok scaled ∧
    (d.i128 (x.amountInRemaining - scaled.tdiv 10000) : Result Int) = .ok after ∧ n = max after 0

/-- The fee is not above the input that it is deducted from. -/
def FeeWithin (d : Deployment) : Prop :=
  ∃ scaled, (d.i128 (x.amountInRemaining * x.feeBps) : Result Int) = .ok scaled ∧
    scaled < 10000 * (x.amountInRemaining + 1)

/-- The price at which a sale of token A ends that does not bring enough for the target. -/
def saleEnd (n : Int) : Int :=
  max ((saturatingMul x.currentSqrtPrice q64).tdiv
    (max (saturatingAdd ((saturatingMul n x.currentSqrtPrice).tdiv (max x.liquidity 1)) q64) 1))
    x.targetSqrtPrice

/-- `P` of the price and the charge of the step for the net input `n`, where rounding can be
in the trader's favour: everywhere but in a partial purchase of token A. -/
def AtEnd (P : Int → Int → Prop) (n : Int) : Prop :=
  if x.targetSqrtPrice < x.currentSqrtPrice then
    if sellMaxIn x.currentSqrtPrice x.targetSqrtPrice x.liquidity ≤ n then
      P x.targetSqrtPrice (sellMaxIn x.currentSqrtPrice x.targetSqrtPrice x.liquidity)
    else P (x.saleEnd n) n
  else buyMaxIn x.currentSqrtPrice x.targetSqrtPrice x.liquidity ≤ n →
    P x.targetSqrtPrice (buyMaxIn x.currentSqrtPrice x.targetSqrtPrice x.liquidity)

/-- The rounding of the charge is made up for by the rounding of the output. -/
def Fair (n : Int) : Prop := x.AtEnd (MadeUp x.sellsA x.liquidity x.currentSqrtPrice) n

/-- The charge is not below the exact input of the move. -/
def Paid (n : Int) : Prop :=
  x.AtEnd (fun new amount => chargeLacks x.sellsA x.liquidity x.currentSqrtPrice new amount ≤ 0) n

instance (P : Int → Int → Prop) [∀ new amount, Decidable (P new amount)] (n : Int) :
    Decidable (x.AtEnd P n) := by
  unfold AtEnd
  infer_instance

instance (n : Int) : Decidable (x.Paid n) := inferInstanceAs (Decidable (x.AtEnd _ n))

instance (n : Int) : Decidable (x.Fair n) := inferInstanceAs (Decidable (x.AtEnd _ n))

end StepInput

/-! ## Where a step ends and what it charges -/

section Step

variable {current target liquidity amount : Int}

theorem q64_pos_int : (0 : Int) < q64 := by decide

theorem saturatingMul_nonneg {x y : Int} (hx : 0 ≤ x) (hy : 0 ≤ y) : 0 ≤ saturatingMul x y :=
  saturate_nonneg (mul_nonneg hx hy)

theorem sellMaxIn_nonneg (hc : 0 < current) (ht : 0 < target) (hL : 0 < liquidity)
    (hfall : target < current) : 0 ≤ sellMaxIn current target liquidity := by
  unfold sellMaxIn
  rw [if_neg (by omega)]
  have hstep : 0 ≤ (saturatingMul liquidity (current - target)).tdiv current :=
    Int.tdiv_nonneg (saturatingMul_nonneg hL.le (by omega)) hc.le
  exact Int.tdiv_nonneg (saturatingMul_nonneg hstep q64_pos_int.le) ht.le

theorem buyMaxIn_nonneg (hL : 0 < liquidity) (hrise : current ≤ target) :
    0 ≤ buyMaxIn current target liquidity :=
  Int.tdiv_nonneg (saturatingMul_nonneg hL.le (by omega)) q64_pos_int.le

/-- A sale that stops before the target ends between the two prices. -/
theorem saleEnd_between (x : StepInput) (hfall : x.targetSqrtPrice < x.currentSqrtPrice)
    (ha : 0 ≤ amount) :
    x.targetSqrtPrice ≤ x.saleEnd amount ∧ x.saleEnd amount ≤ x.currentSqrtPrice := by
  have hc := x.current_pos
  have hterm : 0 ≤ (saturatingMul amount x.currentSqrtPrice).tdiv (max x.liquidity 1) :=
    Int.tdiv_nonneg (saturatingMul_nonneg ha hc.le) (by omega)
  unfold StepInput.saleEnd
  generalize (saturatingMul amount x.currentSqrtPrice).tdiv (max x.liquidity 1) = term at hterm
  have hden : q64 ≤ max (saturatingAdd term q64) 1 := by
    unfold saturatingAdd Checked.saturate q64
    omega
  have hnum : saturatingMul x.currentSqrtPrice q64 ≤ x.currentSqrtPrice * q64 :=
    saturate_le (mul_nonneg hc.le q64_pos_int.le)
  have hquot : (saturatingMul x.currentSqrtPrice q64).tdiv (max (saturatingAdd term q64) 1) ≤
      x.currentSqrtPrice := by
    rw [Int.tdiv_eq_ediv_of_nonneg (saturatingMul_nonneg hc.le q64_pos_int.le)]
    refine Int.ediv_le_of_le_mul (q64_pos_int.trans_le hden) ?_
    calc saturatingMul x.currentSqrtPrice q64
        ≤ x.currentSqrtPrice * q64 := hnum
      _ ≤ x.currentSqrtPrice * max (saturatingAdd term q64) 1 :=
        mul_le_mul_of_nonneg_left hden hc.le
  exact ⟨le_max_right _ _, max_le hquot hfall.le⟩

/-- A purchase ends between the two prices. -/
theorem buyStep_between (hrise : current ≤ target) (htarget : target ≤ i128Max)
    (ha : 0 ≤ amount) : current ≤ (buyStep current target liquidity amount).1 ∧
      (buyStep current target liquidity amount).1 ≤ target := by
  unfold buyStep
  simp only
  split
  · exact ⟨hrise, le_refl _⟩
  · have hmoved : 0 ≤ (saturatingMul amount q64).tdiv (max liquidity 1) :=
      Int.tdiv_nonneg (saturatingMul_nonneg ha q64_pos_int.le) (by omega)
    generalize (saturatingMul amount q64).tdiv (max liquidity 1) = moved at hmoved
    show current ≤ min (saturatingAdd current moved) target ∧ _ ≤ target
    unfold saturatingAdd Checked.saturate i128Max at *
    omega

/-- A purchase that stops before the target charges no less than the exact input. -/
theorem buyStep_paid (hL : 0 < liquidity) (hc : 0 < current) (ha : 0 ≤ amount)
    (hpart : amount < buyMaxIn current target liquidity) :
    chargeLacks false liquidity current (buyStep current target liquidity amount).1
      (buyStep current target liquidity amount).2 ≤ 0 := by
  have hworth := buyStep_charge hL hc ha hpart
  generalize buyStep current target liquidity amount = r at hworth
  have heq : moveWorth false liquidity current r.1 = liquidity * ((r.1 : ℚ) - current) / q64 := by
    simp only [moveWorth, unitWorth, Bool.false_eq_true, if_false]
    ring
  rw [heq, div_le_iff₀ q64_pos] at hworth
  have hint : liquidity * (r.1 - current) ≤ r.2 * q64 := by exact_mod_cast hworth
  simp only [chargeLacks, Bool.false_eq_true, if_false]
  omega

theorem moveOut_nonneg {new : Int} (sellsA : Bool) (hL : 0 < liquidity) (hc : 0 < current)
    (hn : 0 < new) (hmove : if sellsA then new ≤ current else current ≤ new) :
    0 ≤ moveOut sellsA liquidity current new := by
  cases sellsA with
  | true =>
    have hle : new ≤ current := hmove
    exact Int.tdiv_nonneg (saturatingMul_nonneg hL.le (by omega)) q64_pos_int.le
  | false =>
    have hle : current ≤ new := hmove
    show 0 ≤ buyOut current new liquidity
    unfold buyOut
    rw [if_neg (by omega)]
    have hstep : 0 ≤ (saturatingMul liquidity (new - current)).tdiv current :=
      Int.tdiv_nonneg (saturatingMul_nonneg hL.le (by omega)) hc.le
    exact Int.tdiv_nonneg (saturatingMul_nonneg hstep q64_pos_int.le) hn.le

/-- The output of a move is within the exact one. -/
theorem moveOut_le {new : Int} (sellsA : Bool) (hL : 0 < liquidity) (hc : 0 < current)
    (hmove : if sellsA then new ≤ current else current ≤ new) :
    (moveOut sellsA liquidity current new : ℚ) ≤ -moveWorth (!sellsA) liquidity current new := by
  cases sellsA with
  | true => exact sellOut_le hL.le hmove
  | false => exact buyOut_le hL.le hc hmove

theorem outputLacks_nonneg {new : Int} (sellsA : Bool) (hL : 0 < liquidity) (hc : 0 < current)
    (hn : 0 < new) (hmove : if sellsA then new ≤ current else current ≤ new) :
    0 ≤ outputLacks sellsA liquidity current new := by
  have hc' : (0 : ℚ) < current := by exact_mod_cast hc
  have hn' : (0 : ℚ) < new := by exact_mod_cast hn
  have hle := moveOut_le sellsA hL hc hmove
  cases sellsA with
  | true =>
    have heq : -moveWorth false liquidity current new =
        liquidity * ((current : ℚ) - new) / q64 := by
      simp only [moveWorth, unitWorth, Bool.false_eq_true, if_false]
      ring
    rw [show (!true) = false from rfl, heq, le_div_iff₀ q64_pos] at hle
    have hint : sellOut current new liquidity * q64 ≤ liquidity * (current - new) := by
      exact_mod_cast hle
    simp only [outputLacks, if_true]
    omega
  | false =>
    have heq : -moveWorth true liquidity current new =
        liquidity * ((new : ℚ) - current) * q64 / (current * new) := by
      simp only [moveWorth, unitWorth, if_true]
      field_simp
      ring
    rw [show (!false) = true from rfl, heq, le_div_iff₀ (mul_pos hc' hn')] at hle
    have hint : buyOut current new liquidity * (current * new) ≤
        liquidity * (new - current) * q64 := by
      exact_mod_cast hle
    simp only [outputLacks, Bool.false_eq_true, if_false]
    linarith

end Step

namespace StepInput

variable {x : StepInput} {n : Int}

/-- The price that the step reaches with the net input `n`, and the charge. -/
def reached (x : StepInput) (n : Int) : Int × Int :=
  stepTo x.currentSqrtPrice x.targetSqrtPrice x.liquidity n

/-- The four ways a step ends. -/
theorem reached_cases (x : StepInput) (n : Int) :
    (x.sellsA = true ∧ x.targetSqrtPrice < x.currentSqrtPrice ∧
      ((sellMaxIn x.currentSqrtPrice x.targetSqrtPrice x.liquidity ≤ n ∧ x.reached n =
          (x.targetSqrtPrice, sellMaxIn x.currentSqrtPrice x.targetSqrtPrice x.liquidity)) ∨
        (n < sellMaxIn x.currentSqrtPrice x.targetSqrtPrice x.liquidity ∧
          x.reached n = (x.saleEnd n, n)))) ∨
    (x.sellsA = false ∧ x.currentSqrtPrice ≤ x.targetSqrtPrice ∧
      x.reached n = buyStep x.currentSqrtPrice x.targetSqrtPrice x.liquidity n ∧
      ((buyMaxIn x.currentSqrtPrice x.targetSqrtPrice x.liquidity ≤ n ∧ x.reached n =
          (x.targetSqrtPrice, buyMaxIn x.currentSqrtPrice x.targetSqrtPrice x.liquidity)) ∨
        (n < buyMaxIn x.currentSqrtPrice x.targetSqrtPrice x.liquidity ∧ (x.reached n).2 = n))) := by
  unfold reached stepTo sellsA
  by_cases hfall : x.targetSqrtPrice < x.currentSqrtPrice
  · refine .inl ⟨decide_eq_true hfall, hfall, ?_⟩
    rw [if_pos hfall]
    by_cases hfull : sellMaxIn x.currentSqrtPrice x.targetSqrtPrice x.liquidity ≤ n
    · exact .inl ⟨hfull, if_pos hfull⟩
    · exact .inr ⟨not_le.mp hfull, if_neg hfull⟩
  · refine .inr ⟨decide_eq_false hfall, not_lt.mp hfall, if_neg hfall, ?_⟩
    rw [if_neg hfall]
    by_cases hfull : buyMaxIn x.currentSqrtPrice x.targetSqrtPrice x.liquidity ≤ n
    · exact .inl ⟨hfull, if_pos hfull⟩
    · exact .inr ⟨not_le.mp hfull, congrArg Prod.snd (if_neg hfull)⟩

/-- The new price lies between the two prices. -/
theorem reached_between (hn : 0 ≤ n) :
    if x.sellsA then x.targetSqrtPrice ≤ (x.reached n).1 ∧ (x.reached n).1 ≤ x.currentSqrtPrice
    else x.currentSqrtPrice ≤ (x.reached n).1 ∧ (x.reached n).1 ≤ x.targetSqrtPrice := by
  rcases x.reached_cases n with ⟨hs, hfall, ⟨-, hr⟩ | ⟨-, hr⟩⟩ | ⟨hs, hrise, hr, -⟩
  · rw [hs, hr]
    exact ⟨le_refl _, hfall.le⟩
  · rw [hs, hr]
    exact saleEnd_between x hfall hn
  · rw [hs, hr]
    exact buyStep_between hrise x.target_le hn

theorem reached_pos (hn : 0 ≤ n) : 0 < (x.reached n).1 := by
  have hb := reached_between (x := x) hn
  have hc := x.current_pos
  have ht := x.target_pos
  cases hs : x.sellsA with
  | true =>
    rw [hs] at hb
    exact ht.trans_le hb.1
  | false =>
    rw [hs] at hb
    exact hc.trans_le hb.1

/-- The price moves down in a sale of token A, and up otherwise. -/
theorem reached_moves (hn : 0 ≤ n) :
    if x.sellsA then (x.reached n).1 ≤ x.currentSqrtPrice
    else x.currentSqrtPrice ≤ (x.reached n).1 := by
  have hb := reached_between (x := x) hn
  cases hs : x.sellsA with
  | true =>
    rw [hs] at hb
    exact hb.2
  | false =>
    rw [hs] at hb
    exact hb.1

/-- The charge is within the net input. -/
theorem reached_charge (hn : 0 ≤ n) : 0 ≤ (x.reached n).2 ∧ (x.reached n).2 ≤ n := by
  rcases x.reached_cases n with ⟨-, hfall, ⟨hle, hr⟩ | ⟨-, hr⟩⟩ |
      ⟨-, hrise, -, ⟨hle, hr⟩ | ⟨-, hr⟩⟩
  · rw [hr]
    exact ⟨sellMaxIn_nonneg x.current_pos x.target_pos x.liquidity_pos hfall, hle⟩
  · rw [hr]
    exact ⟨hn, le_refl _⟩
  · rw [hr]
    exact ⟨buyMaxIn_nonneg x.liquidity_pos hrise, hle⟩
  · rw [hr]
    exact ⟨hn, le_refl _⟩

/-- A condition that a partial purchase always meets is one on the price and the charge. -/
theorem atEnd_iff {P : Int → Int → Prop}
    (hpart : x.sellsA = false →
      n < buyMaxIn x.currentSqrtPrice x.targetSqrtPrice x.liquidity →
      P (x.reached n).1 (x.reached n).2) :
    x.AtEnd P n ↔ P (x.reached n).1 (x.reached n).2 := by
  unfold AtEnd
  rcases x.reached_cases n with ⟨-, hfall, ⟨hle, hr⟩ | ⟨hlt, hr⟩⟩ |
      ⟨hs, hrise, -, ⟨hle, hr⟩ | ⟨hlt, -⟩⟩
  · rw [if_pos hfall, if_pos hle, hr]
  · rw [if_pos hfall, if_neg (not_le.mpr hlt), hr]
  · rw [if_neg (not_lt.mpr hrise), hr]
    exact ⟨fun h => h hle, fun h _ => h⟩
  · rw [if_neg (not_lt.mpr hrise)]
    exact ⟨fun _ => hpart hs hlt, fun _ hle => absurd hle (not_le.mpr hlt)⟩

/-- A partial purchase charges at least the exact input. -/
theorem partial_paid (hn : 0 ≤ n) (hs : x.sellsA = false)
    (hlt : n < buyMaxIn x.currentSqrtPrice x.targetSqrtPrice x.liquidity) :
    chargeLacks x.sellsA x.liquidity x.currentSqrtPrice (x.reached n).1 (x.reached n).2 ≤ 0 := by
  rcases x.reached_cases n with ⟨hs', -⟩ | ⟨-, -, hr, -⟩
  · rw [hs] at hs'
    cases hs'
  · rw [hs, hr]
    exact buyStep_paid x.liquidity_pos x.current_pos hn hlt

theorem paid_iff (hn : 0 ≤ n) :
    x.Paid n ↔
      chargeLacks x.sellsA x.liquidity x.currentSqrtPrice (x.reached n).1 (x.reached n).2 ≤ 0 :=
  atEnd_iff fun hs hlt => partial_paid hn hs hlt

theorem madeUp_of_lacks (hn : 0 ≤ n)
    (h : chargeLacks x.sellsA x.liquidity x.currentSqrtPrice (x.reached n).1 (x.reached n).2 ≤ 0) :
    MadeUp x.sellsA x.liquidity x.currentSqrtPrice (x.reached n).1 (x.reached n).2 :=
  madeUp_of_paid x.liquidity_pos x.current_pos (reached_charge hn).1
    (outputLacks_nonneg x.sellsA x.liquidity_pos x.current_pos (reached_pos hn) (reached_moves hn)) h

theorem fair_iff (hn : 0 ≤ n) :
    x.Fair n ↔ MadeUp x.sellsA x.liquidity x.currentSqrtPrice (x.reached n).1 (x.reached n).2 :=
  atEnd_iff fun hs hlt => madeUp_of_lacks hn (partial_paid hn hs hlt)

/-- A charge that covers the move is fair. -/
theorem Paid.fair (h : x.Paid n) (hn : 0 ≤ n) : x.Fair n :=
  (fair_iff hn).mpr (madeUp_of_lacks hn ((paid_iff hn).mp h))

/-- What the step returns. -/
theorem exec_ok {d : Deployment} {step : SwapStep} (h : x.exec d = .ok step) :
    ∃ n, x.NetInput d n ∧ 0 ≤ n ∧ step.newSqrtPrice = (x.reached n).1 ∧
      step.amountIn = (x.reached n).2 ∧
      step.amountOut = moveOut x.sellsA x.liquidity x.currentSqrtPrice step.newSqrtPrice ∧
      ∃ scaled, (d.i128 (x.amountInRemaining * x.feeBps) : Result Int) = .ok scaled ∧
        step.feePaid = scaled.tdiv 10000 := by
  simp only [exec, computeSwapStep, bind_eq_ok] at h
  obtain ⟨scaled, hscaled, after, hafter, h⟩ := h
  refine ⟨max after 0, ⟨scaled, after, hscaled, hafter, rfl⟩, le_max_right _ _, ?_⟩
  unfold reached stepTo sellsA moveOut
  by_cases hfall : x.targetSqrtPrice < x.currentSqrtPrice
  · rw [if_pos hfall] at h ⊢
    cases h
    exact ⟨rfl, rfl, (if_pos (decide_eq_true hfall)).symm, scaled, hscaled, rfl⟩
  · rw [if_neg hfall] at h ⊢
    cases h
    exact ⟨rfl, rfl, (if_neg (by simpa using hfall)).symm, scaled, hscaled, rfl⟩

end StepInput

/-! ## One step -/

namespace StepInput

/-- **Value conservation of one step**: the output is within the exact curve, both between
the two prices and for the net input charged, and the step charges no more than it is given. -/
structure Conserves (x : StepInput) (step : SwapStep) : Prop where
  moved : (step.amountOut : ℚ) ≤
    -moveWorth (!x.sellsA) x.liquidity x.currentSqrtPrice step.newSqrtPrice
  covered : (step.amountOut : ℚ) ≤
    curveOut x.sellsA x.liquidity x.currentSqrtPrice step.amountIn
  charged : step.amountIn + step.feePaid ≤ x.amountInRemaining
  between : min x.currentSqrtPrice x.targetSqrtPrice ≤ step.newSqrtPrice ∧
    step.newSqrtPrice ≤ max x.currentSqrtPrice x.targetSqrtPrice
  free : step.amountIn = 0 → step.amountOut = 0

variable {x : StepInput} {d : Deployment} {step : SwapStep}

/-- The fee is within the input exactly if the charge and the fee are. -/
theorem charged_iff {scaled after amountIn : Int}
    (hscaled : (d.i128 (x.amountInRemaining * x.feeBps) : Result Int) = .ok scaled)
    (hafter : (d.i128 (x.amountInRemaining - scaled.tdiv 10000) : Result Int) = .ok after)
    (h0 : 0 ≤ amountIn) (hle : amountIn ≤ max after 0) :
    amountIn + scaled.tdiv 10000 ≤ x.amountInRemaining ↔
      scaled < 10000 * (x.amountInRemaining + 1) := by
  have hr0 := x.remaining_nonneg
  have hr := x.remaining_le
  have hbound := inI128_iff.mp (i128_inI128 hscaled)
  unfold i128Max at hr hbound
  by_cases hneg : scaled < 0
  · have hfee : scaled.tdiv 10000 = -((-scaled) / 10000) := by
      rw [← Int.tdiv_eq_ediv_of_nonneg (by omega), Int.neg_tdiv, neg_neg]
    rw [hfee] at hafter ⊢
    -- a negative fee, of a product that has wrapped around, may make the difference wrap too
    rcases i128_sum_cases hafter (by omega) (by omega) with ⟨-, rfl⟩ | ⟨hout, rfl⟩
    · omega
    · omega
  · rw [Int.tdiv_eq_ediv_of_nonneg (by omega)] at hafter ⊢
    have hexact : after = x.amountInRemaining - scaled / 10000 :=
      i128_exact hafter (inI128_iff.mpr ⟨by omega, by unfold i128Max; omega⟩)
    omega

/-- **Exactly when a step conserves value**: the fee is within the input, and the rounding
of the output makes up for that of the charge. -/
theorem conserves_iff (h : x.exec d = .ok step) :
    x.Conserves step ↔ x.FeeWithin d ∧ ∃ n, x.NetInput d n ∧ x.Fair n := by
  obtain ⟨n, hnet, hn, hnew, hin, hout, scaled, hscaled, hfee⟩ := exec_ok h
  obtain ⟨scaled', after, hscaled', hafter, rfl⟩ := hnet
  cases hscaled.symm.trans hscaled'
  have hnetInput : x.NetInput d (max after 0) := ⟨scaled, after, hscaled, hafter, rfl⟩
  have hmoves := reached_moves (x := x) hn
  have hpos := reached_pos (x := x) hn
  obtain ⟨hin0, hinle⟩ := reached_charge (x := x) hn
  have hcharged : step.amountIn + step.feePaid ≤ x.amountInRemaining ↔ x.FeeWithin d := by
    rw [hin, hfee, charged_iff hscaled hafter hin0 hinle]
    constructor
    · exact fun hlt => ⟨scaled, hscaled, hlt⟩
    · rintro ⟨scaled', hs, hlt⟩
      cases hscaled.symm.trans hs
      exact hlt
  have hcovered : (step.amountOut : ℚ) ≤
      curveOut x.sellsA x.liquidity x.currentSqrtPrice step.amountIn ↔ x.Fair (max after 0) := by
    rw [fair_iff hn, hout, hnew, hin]
    exact covered_iff x.liquidity_pos x.current_pos hpos hin0 x.sellsA
  constructor
  · intro hcons
    exact ⟨hcharged.mp hcons.charged, _, hnetInput, hcovered.mp hcons.covered⟩
  · rintro ⟨hwithin, n', ⟨scaled', after', hs, ha, rfl⟩, hfair⟩
    cases hscaled.symm.trans hs
    cases hafter.symm.trans ha
    have hcov := hcovered.mpr hfair
    refine ⟨?_, hcov, hcharged.mpr hwithin, ?_, fun hzero => ?_⟩
    · rw [hout, hnew]
      exact moveOut_le x.sellsA x.liquidity_pos x.current_pos hmoves
    · rw [hnew]
      have hb := reached_between (x := x) hn
      cases hsells : x.sellsA with
      | true =>
        rw [hsells] at hb
        exact ⟨min_le_of_right_le hb.1, le_max_of_le_left hb.2⟩
      | false =>
        rw [hsells] at hb
        exact ⟨min_le_of_left_le hb.1, le_max_of_le_right hb.2⟩
    · rw [hzero, Int.cast_zero, curveOut_zero x.liquidity_pos x.current_pos] at hcov
      have hle : step.amountOut ≤ 0 := by exact_mod_cast hcov
      have hge : 0 ≤ step.amountOut := by
        rw [hout, hnew]
        exact moveOut_nonneg x.sellsA x.liquidity_pos x.current_pos hpos hmoves
      omega

end StepInput

/-! ## Steps one after the other -/

/-- Accepted steps at one liquidity, each from the price that the one before has reached:
from the price `p` to the last one. -/
inductive Swaps (d : Deployment) (liquidity : Int) : Int → List (StepInput × SwapStep) → Int → Prop
  | done {p : Int} : Swaps d liquidity p [] p
  | step {x : StepInput} {step : SwapStep} {l : List (StepInput × SwapStep)} {q : Int}
      (hL : x.liquidity = liquidity) (hx : x.exec d = .ok step)
      (h : Swaps d liquidity step.newSqrtPrice l q) :
      Swaps d liquidity x.currentSqrtPrice ((x, step) :: l) q

/-- The trader's gain in one token, the fee not deducted. -/
def gain (isA : Bool) (e : StepInput × SwapStep) : Int :=
  if e.1.sellsA = isA then -e.2.amountIn else e.2.amountOut

/-- A step that is paid for gives the trader no more of either token than the move is worth. -/
theorem gain_le {d : Deployment} {x : StepInput} {step : SwapStep} (h : x.exec d = .ok step)
    (hpaid : ∀ n, x.NetInput d n → x.Paid n) (isA : Bool) :
    (gain isA (x, step) : ℚ) ≤ -moveWorth isA x.liquidity x.currentSqrtPrice step.newSqrtPrice := by
  obtain ⟨n, hnet, hn, hnew, hin, hout, -⟩ := StepInput.exec_ok h
  have hmoves := StepInput.reached_moves (x := x) hn
  have hpos := StepInput.reached_pos (x := x) hn
  have hlacks := (StepInput.paid_iff hn).mp (hpaid n hnet)
  unfold gain
  by_cases hside : x.sellsA = isA
  · subst hside
    rw [if_pos rfl, hnew, hin]
    have hc' : (0 : ℚ) < x.currentSqrtPrice := by exact_mod_cast x.current_pos
    have hn' : (0 : ℚ) < (x.reached n).1 := by exact_mod_cast hpos
    have hq := q64_pos
    push_cast
    rw [neg_le_neg_iff]
    generalize x.reached n = r at hlacks hn'
    cases hsells : x.sellsA with
    | true =>
      rw [hsells] at hlacks
      simp only [chargeLacks, if_true] at hlacks
      have heq : moveWorth true x.liquidity x.currentSqrtPrice r.1 =
          x.liquidity * ((x.currentSqrtPrice : ℚ) - r.1) * q64 / (x.currentSqrtPrice * r.1) := by
        simp only [moveWorth, unitWorth, if_true]
        field_simp
      have hint : x.liquidity * (x.currentSqrtPrice - r.1) * q64 ≤
          r.2 * (x.currentSqrtPrice * r.1) := by linarith
      rw [heq, div_le_iff₀ (mul_pos hc' hn')]
      exact_mod_cast hint
    | false =>
      rw [hsells] at hlacks
      simp only [chargeLacks, Bool.false_eq_true, if_false] at hlacks
      have heq : moveWorth false x.liquidity x.currentSqrtPrice r.1 =
          x.liquidity * ((r.1 : ℚ) - x.currentSqrtPrice) / q64 := by
        simp only [moveWorth, unitWorth, Bool.false_eq_true, if_false]
        ring
      have hint : x.liquidity * (r.1 - x.currentSqrtPrice) ≤ r.2 * q64 := by linarith
      rw [heq, div_le_iff₀ hq]
      exact_mod_cast hint
  · have hother : isA = !x.sellsA := by
      cases isA <;> cases hs : x.sellsA <;> simp_all
    rw [if_neg hside, hother, hout, hnew]
    exact moveOut_le x.sellsA x.liquidity_pos x.current_pos hmoves

theorem moveWorth_trans (isA : Bool) (liquidity p q r : Int) :
    moveWorth isA liquidity p q + moveWorth isA liquidity q r = moveWorth isA liquidity p r := by
  unfold moveWorth
  ring

theorem moveWorth_self (isA : Bool) (liquidity p : Int) : moveWorth isA liquidity p p = 0 := by
  unfold moveWorth
  ring

/-- **The gain over a path** of steps that are paid for is within the worth of the path. -/
theorem Swaps.gain_le {d : Deployment} {liquidity p q : Int} {l : List (StepInput × SwapStep)}
    (h : Swaps d liquidity p l q) (hpaid : ∀ e ∈ l, ∀ n, e.1.NetInput d n → e.1.Paid n)
    (isA : Bool) : (((l.map (gain isA)).sum : Int) : ℚ) ≤ -moveWorth isA liquidity p q := by
  induction h with
  | done =>
    rw [moveWorth_self]
    simp
  | @step x step l q hL hx h ih =>
    have hhead := Stellara.Amm.gain_le hx (hpaid _ List.mem_cons_self) isA
    have htail := ih fun e he => hpaid e (List.mem_cons_of_mem _ he)
    have htrans := moveWorth_trans isA liquidity x.currentSqrtPrice step.newSqrtPrice q
    rw [hL] at hhead
    rw [List.map_cons, List.sum_cons, Int.cast_add]
    linarith

/-! ## Conservation -/

namespace StepInput

variable {x : StepInput} (d : Deployment)

/-- Without a fee all of the input is swapped. -/
theorem netInput_feeless (h : x.feeBps = 0) (n : Int) :
    x.NetInput d n ↔ n = x.amountInRemaining := by
  have hr0 := x.remaining_nonneg
  have hzero : (d.i128 (x.amountInRemaining * x.feeBps) : Result Int) = .ok 0 := by
    rw [h, Int.natCast_zero, mul_zero]
    exact i128_of_in d (by decide)
  have hrest : (d.i128 (x.amountInRemaining - (0 : Int).tdiv 10000) : Result Int) =
      .ok x.amountInRemaining := by
    rw [Int.zero_tdiv, sub_zero]
    exact i128_of_in d (inI128_iff.mpr ⟨by omega, x.remaining_le⟩)
  constructor
  · rintro ⟨scaled, after, hs, ha, rfl⟩
    cases hzero.symm.trans hs
    cases hrest.symm.trans ha
    omega
  · rintro rfl
    exact ⟨0, x.amountInRemaining, hzero, hrest, by omega⟩

theorem feeWithin_feeless (h : x.feeBps = 0) : x.FeeWithin d := by
  have hr0 := x.remaining_nonneg
  refine ⟨0, ?_, by omega⟩
  rw [h, Int.natCast_zero, mul_zero]
  exact i128_of_in d (by decide)

end StepInput

/-- A step without a fee. -/
def feeless (c t liquidity amount : Int) (hc : 0 < c ∧ c ≤ i128Max) (ht : 0 < t ∧ t ≤ i128Max)
    (hL : 0 < liquidity) (ha : 0 ≤ amount ∧ amount ≤ i128Max) : StepInput :=
  ⟨c, t, liquidity, amount, 0, hc.1, hc.2, ht.1, ht.2, hL, ha.1, ha.2⟩

end Stellara.Amm
