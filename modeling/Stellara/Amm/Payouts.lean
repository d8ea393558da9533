import Stellara.Lib.Ranges
import Stellara.Amm.Curve

/-!
# What closing positions pays (`contracts/amm/src/lib.rs`, `remove_liquidity`)

`closing` is what all live positions of a pool would be paid at a price, `exactValue` what
they are worth in exact arithmetic, and `dust` what rounding withholds from them.  A position
is paid at least as much at once as in parts, as long as no product is clamped
(`payout_split`).
-/

namespace Stellara.Amm

open Outcome

/-- The amount of one of the two tokens. -/
def side (isA : Bool) (amounts : Int × Int) : Int := if isA then amounts.1 else amounts.2

/-- What removing the liquidity from the range pays at a price. -/
def payout (d : Deployment) (tickLower tickUpper liquidity : Int) (isA : Bool) (sqrtPrice : Int) :
    Int :=
  match rangeAmounts d tickLower tickUpper liquidity sqrtPrice with
  | .ok amounts => max (side isA amounts) 0
  | .error _ => 0

theorem payout_of_ok {d : Deployment} {tickLower tickUpper liquidity sqrtPrice : Int}
    {amounts : Int × Int} (h : rangeAmounts d tickLower tickUpper liquidity sqrtPrice = .ok amounts)
    (isA : Bool) : payout d tickLower tickUpper liquidity isA sqrtPrice = max (side isA amounts) 0 := by
  unfold payout
  rw [h]

/-- A deposit is charged what removing it at once would pay. -/
theorem quoteDeposit_amounts {d : Deployment} {pool : PoolState} {offer : Offer} {deposit : Deposit}
    (h : quoteDeposit d pool offer = .ok deposit) :
    rangeAmounts d offer.tickLower offer.tickUpper deposit.liquidity pool.sqrtPrice =
      .ok (deposit.amountA, deposit.amountB) := by
  simp only [quoteDeposit, bind_eq_ok, require_eq_ok, exists_unit_and, pure_eq_ok] at h
  obtain ⟨lower, hl, upper, hu, liquidity, -, -, ⟨amountA, amountB⟩, hamounts, rfl⟩ := h
  simp only [rangeAmounts, hl, hu, ok_bind]
  exact hamounts

/-! ## Removing in parts -/

/-- No product in the amounts of the liquidity is clamped or overflows. -/
def UnclampedAmounts (liquidity sqrtPriceLower sqrtPriceUpper sqCur : Int) : Prop :=
  liquidity * (sqrtPriceUpper - sqCur) ≤ i128Max ∧
    (liquidity * (sqrtPriceUpper - sqCur)).tdiv (max sqrtPriceUpper 1) * q64 ≤ i128Max ∧
    liquidity * (sqCur - sqrtPriceLower) ≤ i128Max

/-- No product in what the position is paid at the price is clamped or overflows. -/
def Unclamped (p : LpPosition) (sqrtPrice : Int) : Prop :=
  ∀ lower ∈ (tickToSqrtPrice p.tickLower).toOption, ∀ upper ∈ (tickToSqrtPrice p.tickUpper).toOption,
    UnclampedAmounts p.liquidity lower upper (clampPrice lower upper sqrtPrice)

instance (liquidity lower upper sqCur : Int) :
    Decidable (UnclampedAmounts liquidity lower upper sqCur) :=
  inferInstanceAs (Decidable (_ ∧ _))

instance (p : LpPosition) (sqrtPrice : Int) : Decidable (Unclamped p sqrtPrice) := by
  unfold Unclamped; infer_instance

theorem tdiv_add_le {x y m : Int} (hx : 0 ≤ x) (hy : 0 ≤ y) (hm : 0 < m) :
    x.tdiv m + y.tdiv m ≤ (x + y).tdiv m := by
  rw [Int.tdiv_eq_ediv_of_nonneg hx, Int.tdiv_eq_ediv_of_nonneg hy,
    Int.tdiv_eq_ediv_of_nonneg (add_nonneg hx hy)]
  apply Int.le_ediv_of_mul_le hm
  have h1 := Int.ediv_mul_le x hm.ne'
  have h2 := Int.ediv_mul_le y hm.ne'
  rw [add_mul]
  omega

theorem saturate_of_le {x : Int} (h0 : 0 ≤ x) (h : x ≤ i128Max) : Checked.saturate 128 x = x :=
  saturate_of_in (inI128_iff.mpr ⟨by omega, h⟩)

section Parts

variable {x y lower upper sqCur : Int}

/-- Token A of two parts is at most that of the whole. -/
theorem amountAFor_add (hx : 0 ≤ x) (hy : 0 ≤ y)
    (h1 : (x + y) * (upper - sqCur) ≤ i128Max)
    (h2 : ((x + y) * (upper - sqCur)).tdiv (max upper 1) * q64 ≤ i128Max) :
    amountAFor x upper sqCur + amountAFor y upper sqCur ≤ amountAFor (x + y) upper sqCur := by
  unfold amountAFor
  split
  · next hlt =>
    have hxd : 0 ≤ x * (upper - sqCur) := mul_nonneg hx (by omega)
    have hyd : 0 ≤ y * (upper - sqCur) := mul_nonneg hy (by omega)
    have hsum : (x + y) * (upper - sqCur) = x * (upper - sqCur) + y * (upper - sqCur) :=
      add_mul x y _
    rw [hsum] at h1 h2
    have hdiv := tdiv_add_le hxd hyd (m := max upper 1) (by omega)
    have hx1 := Int.tdiv_nonneg hxd (b := max upper 1) (by omega)
    have hy1 := Int.tdiv_nonneg hyd (b := max upper 1) (by omega)
    dsimp only [saturatingMul]
    rw [hsum, saturate_of_le hxd (by omega), saturate_of_le hyd (by omega),
      saturate_of_le (add_nonneg hxd hyd) h1]
    generalize (x * (upper - sqCur)).tdiv (max upper 1) = u at *
    generalize (y * (upper - sqCur)).tdiv (max upper 1) = v at *
    generalize (x * (upper - sqCur) + y * (upper - sqCur)).tdiv (max upper 1) = w at *
    unfold q64 at *
    rw [saturate_of_le (by omega) (by omega), saturate_of_le (by omega) (by omega),
      saturate_of_le (by omega) h2]
    have hpart := tdiv_add_le (x := u * 2 ^ 64) (y := v * 2 ^ 64) (m := max sqCur 1) (by omega)
      (by omega) (by omega)
    have hmono : (u * 2 ^ 64 + v * 2 ^ 64).tdiv (max sqCur 1) ≤ (w * 2 ^ 64).tdiv (max sqCur 1) :=
      Int.tdiv_le_tdiv (by omega) (by omega)
    omega
  · omega

theorem amountAFor_nonneg (hx : 0 ≤ x) (upper sqCur : Int) : 0 ≤ amountAFor x upper sqCur := by
  unfold amountAFor
  split
  · have h1 : 0 ≤ (saturatingMul x (upper - sqCur)).tdiv (max upper 1) :=
      Int.tdiv_nonneg (saturate_nonneg (mul_nonneg hx (by omega))) (by omega)
    exact Int.tdiv_nonneg (saturate_nonneg (mul_nonneg h1 (by decide))) (by omega)
  · exact le_refl 0

/-- Token B of a liquidity whose product does not overflow. -/
theorem amountBFor_eq (d : Deployment) (hx : 0 ≤ x) (h : x * (sqCur - lower) ≤ i128Max) :
    amountBFor d x lower sqCur =
      .ok (if lower < sqCur then (x * (sqCur - lower)).tdiv q64 else 0) := by
  unfold amountBFor
  split
  · next hlt =>
    have h0 : 0 ≤ x * (sqCur - lower) := mul_nonneg hx (by omega)
    rw [i128_of_in d (inI128_iff.mpr ⟨by omega, h⟩)]
    rfl
  · rfl

theorem amountsForLiquidity_eq (d : Deployment) {sqrtPrice : Int} (hx : 0 ≤ x)
    (h : x * (clampPrice lower upper sqrtPrice - lower) ≤ i128Max) :
    amountsForLiquidity d x lower upper sqrtPrice =
      .ok (amountAFor x upper (clampPrice lower upper sqrtPrice),
        if lower < clampPrice lower upper sqrtPrice then
          (x * (clampPrice lower upper sqrtPrice - lower)).tdiv q64 else 0) := by
  simp only [amountsForLiquidity, amountBFor_eq d hx h]
  rfl

end Parts

theorem rangeAmounts_ok {d : Deployment} {tickLower tickUpper liquidity sqrtPrice : Int}
    {amounts : Int × Int} (h : rangeAmounts d tickLower tickUpper liquidity sqrtPrice = .ok amounts) :
    ∃ lower upper, tickToSqrtPrice tickLower = .ok lower ∧ tickToSqrtPrice tickUpper = .ok upper ∧
      ∀ x, rangeAmounts d tickLower tickUpper x sqrtPrice =
        amountsForLiquidity d x lower upper sqrtPrice := by
  simp only [rangeAmounts, bind_eq_ok] at h
  obtain ⟨lower, hl, upper, hu, -⟩ := h
  refine ⟨lower, upper, hl, hu, fun x => ?_⟩
  unfold rangeAmounts
  rw [hl, hu]
  rfl

/-- **Removing in parts** pays no more than removing at once. -/
theorem payout_split {d : Deployment} {p : LpPosition} {x sqrtPrice : Int} {outs : Int × Int}
    (hun : Unclamped p sqrtPrice) (hx0 : 0 < x) (hx : x ≤ p.liquidity)
    (hout : rangeAmounts d p.tickLower p.tickUpper x sqrtPrice = .ok outs) (isA : Bool) :
    max (side isA outs) 0 + payout d p.tickLower p.tickUpper (p.liquidity - x) isA sqrtPrice ≤
      payout d p.tickLower p.tickUpper p.liquidity isA sqrtPrice := by
  obtain ⟨lower, upper, hl, hu, hamounts⟩ := rangeAmounts_ok hout
  obtain ⟨hA1, hA2, hB⟩ := hun lower (by rw [hl]; rfl) upper (by rw [hu]; rfl)
  obtain ⟨y, hy⟩ : ∃ y, p.liquidity = x + y := ⟨p.liquidity - x, by omega⟩
  have hy0 : 0 ≤ y := by omega
  have hrest : p.liquidity - x = y := by omega
  rw [hrest]
  rw [hy] at hA1 hA2 hB ⊢
  have hBx : x * (clampPrice lower upper sqrtPrice - lower) ≤ i128Max ∧
      y * (clampPrice lower upper sqrtPrice - lower) ≤ i128Max := by
    have hmax : 0 ≤ i128Max := by decide
    rcases le_total lower (clampPrice lower upper sqrtPrice) with hle | hle
    · have h1 := mul_nonneg hx0.le (sub_nonneg.mpr hle)
      have h2 := mul_nonneg hy0 (sub_nonneg.mpr hle)
      rw [add_mul] at hB
      omega
    · have h1 := mul_nonpos_of_nonneg_of_nonpos hx0.le (sub_nonpos.mpr hle)
      have h2 := mul_nonpos_of_nonneg_of_nonpos hy0 (sub_nonpos.mpr hle)
      omega
  have hox := (hamounts x).trans (amountsForLiquidity_eq d hx0.le hBx.1)
  have hoy := (hamounts y).trans (amountsForLiquidity_eq d hy0 hBx.2)
  have hoxy := (hamounts (x + y)).trans (amountsForLiquidity_eq d (add_nonneg hx0.le hy0) hB)
  obtain rfl := Except.ok.inj (hout.symm.trans hox)
  rw [payout_of_ok hoy, payout_of_ok hoxy]
  generalize clampPrice lower upper sqrtPrice = c at *
  cases isA with
  | true =>
    have hadd := amountAFor_add hx0.le hy0 hA1 hA2
    have h1 := amountAFor_nonneg hx0.le upper c
    have h2 := amountAFor_nonneg hy0 upper c
    show max (amountAFor x upper c) 0 + max (amountAFor y upper c) 0 ≤
      max (amountAFor (x + y) upper c) 0
    omega
  | false =>
    show max (if lower < c then (x * (c - lower)).tdiv q64 else 0) 0 +
        max (if lower < c then (y * (c - lower)).tdiv q64 else 0) 0 ≤
      max (if lower < c then ((x + y) * (c - lower)).tdiv q64 else 0) 0
    split
    · have h1 : 0 ≤ x * (c - lower) := mul_nonneg hx0.le (by omega)
      have h2 : 0 ≤ y * (c - lower) := mul_nonneg hy0 (by omega)
      have hadd := tdiv_add_le h1 h2 (m := q64) (by decide)
      have h1 := Int.tdiv_nonneg h1 (b := q64) (by decide)
      have h2 := Int.tdiv_nonneg h2 (b := q64) (by decide)
      rw [add_mul]
      omega
    · omega

theorem tdiv_inI128 {x m : Int} (h : InI128 x) (hm : 0 < m) : InI128 (x.tdiv m) := by
  obtain ⟨hlo, hhi⟩ := inI128_iff.mp h
  apply inI128_iff.mpr
  rcases le_total 0 x with hx | hx
  · have h0 := Int.tdiv_nonneg hx hm.le
    have hle := Int.tdiv_le_self m hx
    omega
  · have hle := Int.tdiv_le_self m (neg_nonneg.mpr hx)
    have h0 := Int.tdiv_nonneg (neg_nonneg.mpr hx) hm.le
    rw [Int.neg_tdiv] at hle h0
    unfold i128Max at *
    omega

/-- What a position is worth fits the type of the amounts. -/
theorem amountsForLiquidity_inI128 {d : Deployment} {x lower upper sqrtPrice : Int}
    {amounts : Int × Int} (h : amountsForLiquidity d x lower upper sqrtPrice = .ok amounts) :
    InI128 amounts.1 ∧ InI128 amounts.2 := by
  have hzero : InI128 0 := by decide
  have hsat : ∀ y, InI128 (Checked.saturate 128 y) := by
    intro y
    unfold Checked.saturate
    exact inI128_iff.mpr ⟨by omega, by unfold i128Max; omega⟩
  simp only [amountsForLiquidity, bind_eq_ok, pure_eq_ok] at h
  obtain ⟨b, hb, rfl⟩ := h
  constructor
  · show InI128 (amountAFor x upper _)
    unfold amountAFor
    split
    · exact tdiv_inI128 (hsat _) (by omega)
    · exact hzero
  · unfold amountBFor at hb
    split at hb
    · simp only [bind_eq_ok, pure_eq_ok] at hb
      obtain ⟨scaled, hscaled, rfl⟩ := hb
      exact tdiv_inI128 (i128_inI128 hscaled) (by decide)
    · cases hb
      exact hzero

theorem payout_zero (d : Deployment) (tickLower tickUpper : Int) (isA : Bool) (sqrtPrice : Int) :
    payout d tickLower tickUpper 0 isA sqrtPrice = 0 := by
  cases h : rangeAmounts d tickLower tickUpper 0 sqrtPrice with
  | error e =>
    unfold payout
    rw [h]
  | ok amounts =>
    obtain ⟨lower, upper, -, -, hamounts⟩ := rangeAmounts_ok h
    have hprod : 0 * (clampPrice lower upper sqrtPrice - lower) ≤ i128Max := by
      rw [zero_mul]
      decide
    have hzero := amountsForLiquidity_eq d (le_refl 0) hprod
    obtain rfl := Except.ok.inj (h.symm.trans ((hamounts 0).trans hzero))
    rw [payout_of_ok h]
    have hA : amountAFor 0 upper (clampPrice lower upper sqrtPrice) = 0 := by
      have hsat : Checked.saturate 128 0 = 0 := by decide
      simp [amountAFor, saturatingMul, hsat]
    cases isA with
    | true => simp [side, hA]
    | false => simp [side]

/-! ## The positions of a pool -/

/-- What a position of the pool is paid when it is closed at a price. -/
def closePosition (d : Deployment) (key : PoolKey) (isA : Bool) (sqrtPrice : Int) (p : LpPosition) :
    Int :=
  if p.poolKey = key then payout d p.tickLower p.tickUpper p.liquidity isA sqrtPrice else 0

/-- What closing all live positions of a pool pays at a price. -/
def closing (d : Deployment) (positions : Store Nat LpPosition) (key : PoolKey) (isA : Bool)
    (sqrtPrice : Int) : Int :=
  Store.total (fun _ p => closePosition d key isA sqrtPrice p) positions

/-- The price at a tick, zero for a tick out of range. -/
def sqrtAt (tick : Int) : Int := (tickToSqrtPrice tick).toOption.getD 0

/-- The positions of a pool as ranges of prices. -/
def priceRanges (key : PoolKey) : Ranges LpPosition Int ℚ where
  lower p := sqrtAt p.tickLower
  upper p := sqrtAt p.tickUpper
  weight p := if p.poolKey = key then p.liquidity else 0

/-- What the positions of a pool are worth in one token in exact arithmetic: token A from the
price up to the end of the range, token B from its start up to the price. -/
def exactValue (positions : Store Nat LpPosition) (key : PoolKey) (isA : Bool) (sqrtPrice : Int) :
    ℚ :=
  (priceRanges key).value (unitWorth isA)
    (fun p => unitWorth isA (sqrtAt (if isA then p.tickUpper else p.tickLower))) positions sqrtPrice

/-- What rounding withholds from the positions of a pool. -/
def dust (d : Deployment) (positions : Store Nat LpPosition) (key : PoolKey) (isA : Bool)
    (sqrtPrice : Int) : ℚ :=
  exactValue positions key isA sqrtPrice - closing d positions key isA sqrtPrice

/-- The price moves inside the ranges of the positions that trade: no range of the pool ends
on the way, and the pool has the liquidity of the positions whose range spans the move. -/
def InBand (positions : Store Nat LpPosition) (key : PoolKey) (pool : PoolState)
    (newSqrtPrice : Int) : Prop :=
  (∀ e ∈ positions.entries, e.2.poolKey = key →
    ¬ Ranges.Inside pool.sqrtPrice newSqrtPrice (sqrtAt e.2.tickLower) ∧
      ¬ Ranges.Inside pool.sqrtPrice newSqrtPrice (sqrtAt e.2.tickUpper)) ∧
  (pool.liquidity : ℚ) = (priceRanges key).spanning positions pool.sqrtPrice newSqrtPrice

instance (positions : Store Nat LpPosition) (key : PoolKey) (pool : PoolState)
    (newSqrtPrice : Int) : Decidable (InBand positions key pool newSqrtPrice) :=
  inferInstanceAs (Decidable (_ ∧ _))

section Band

variable {d : Deployment} {positions : Store Nat LpPosition} {key : PoolKey} {pool : PoolState}
  {new : Int}

/-- Inside the ranges the worth of the positions moves with the price. -/
theorem exactValue_move (h : InBand positions key pool new) (isA : Bool) :
    exactValue positions key isA new - exactValue positions key isA pool.sqrtPrice =
      moveWorth isA pool.liquidity pool.sqrtPrice new := by
  obtain ⟨hends, hactive⟩ := h
  unfold exactValue moveWorth
  rw [hactive]
  apply Ranges.value_move
  intro id p hp hw
  have hkey : p.poolKey = key := by
    by_contra hne
    exact hw (if_neg hne)
  exact hends ⟨id, p⟩ (AList.mem_lookup_iff.1 hp) hkey

/-- Closing changes by the worth of the move and the change of the dust. -/
theorem closing_move (d : Deployment) (h : InBand positions key pool new) (isA : Bool) :
    (closing d positions key isA new : ℚ) = closing d positions key isA pool.sqrtPrice +
      moveWorth isA pool.liquidity pool.sqrtPrice new +
      (dust d positions key isA pool.sqrtPrice - dust d positions key isA new) := by
  have hmove := exactValue_move h isA
  unfold dust
  linarith

theorem inBand_liquidity (hpos : ∀ id p, positions.lookup id = some p → 0 < p.liquidity)
    (h : InBand positions key pool new) : 0 ≤ pool.liquidity := by
  have hspan : 0 ≤ (priceRanges key).spanning positions pool.sqrtPrice new := by
    apply Store.total_nonneg
    intro id p hp
    have hweight : (0 : ℚ) ≤ (priceRanges key).weight p := by
      show (0 : ℚ) ≤ if p.poolKey = key then (p.liquidity : ℚ) else 0
      split
      · exact_mod_cast (hpos id p hp).le
      · exact le_refl 0
    split
    · exact hweight
    · exact le_refl 0
  rw [← h.2] at hspan
  exact_mod_cast hspan

end Band

/-! ## Closing after one write -/

section Write

variable {d : Deployment} {s : State} {key : PoolKey} {isA : Bool} {sqrtPrice : Int}

theorem closing_insert_new {id : Nat} (h : s.positions.lookup id = none) (p : LpPosition) :
    closing d (s.positions.insert id p) key isA sqrtPrice =
      closing d s.positions key isA sqrtPrice + closePosition d key isA sqrtPrice p := by
  unfold closing
  rw [Store.total_insert, Store.old_of_lookup_none h, sub_zero]

theorem closing_insert_old {id : Nat} {old : LpPosition} (h : s.positions.lookup id = some old)
    (p : LpPosition) :
    closing d (s.positions.insert id p) key isA sqrtPrice =
      closing d s.positions key isA sqrtPrice - closePosition d key isA sqrtPrice old +
        closePosition d key isA sqrtPrice p := by
  unfold closing
  rw [Store.total_insert, Store.old_of_lookup h]

/-- Closing after a part of a position was stored, or all of it removed. -/
theorem closing_restPositions {old p : LpPosition} (h : s.positions.lookup p.id = some old) :
    closing d (restPositions s p) key isA sqrtPrice =
      closing d s.positions key isA sqrtPrice - closePosition d key isA sqrtPrice old +
        closePosition d key isA sqrtPrice p := by
  unfold restPositions
  split
  · next h0 =>
    have hzero : closePosition d key isA sqrtPrice p = 0 := by
      unfold closePosition
      rw [h0, payout_zero, ite_self]
    unfold closing
    rw [Store.total_erase, Store.old_of_lookup h, hzero, add_zero]
  · exact closing_insert_old h p

end Write

end Stellara.Amm
