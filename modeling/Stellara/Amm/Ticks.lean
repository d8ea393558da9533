import Mathlib.Order.Bounds.Basic
import Stellara.Amm.Curve

/-!
# Ticks and prices (`contracts/amm/src/pool.rs`)

The steps between the entries of the tick table are multiples of the 512 ticks between them, so
the interpolation is exact and `sqrt_price_to_tick` inverts `tick_to_sqrt_price`
(`sqrtPriceToTick_of_tick`); of a price between two ticks it is the lower one
(`ticks_correspond`).  It is monotone, so a swap step moves the tick by at most one
(`quoteSwap_tick`).
-/

namespace Stellara.Amm

open Outcome

/-! ## Segments of the table -/

/-- `a` and `b` are the entries `i` and `i + 1` of the table. -/
def Segment (i : Nat) (a b : Int × Int) : Prop :=
  tickSqrtTable[i]? = some a ∧ tickSqrtTable[i + 1]? = some b

/-- By how much the price rises from one tick of a segment to the next. -/
def slope (a b : Int × Int) : Int := (b.2 - a.2) / 512

theorem tickSqrtTable_sorted : tickSqrtTable.Pairwise fun a b => a.1 < b.1 ∧ a.2 < b.2 := by
  decide

theorem tickSqrtTable_slope : ∀ i < 32, ∀ a ∈ tickSqrtTable[i]?, ∀ b ∈ tickSqrtTable[i + 1]?,
    b.1 = a.1 + 512 ∧ b.2 = a.2 + 512 * slope a b ∧ 0 < slope a b ∧ minTick ≤ a.1 ∧
      b.1 ≤ maxTick ∧ (b.1 = maxTick → b.2 = maxSqrtPrice) := by
  decide

section Segments

variable {i j : Nat} {a b a' b' : Int × Int}

theorem Segment.lt (h : Segment i a b) : i < 32 := by
  obtain ⟨hi, -⟩ := List.getElem?_eq_some_iff.mp h.2
  have hlen : tickSqrtTable.length = 33 := rfl
  omega

/-- What the numbers of a segment are. -/
theorem Segment.step (h : Segment i a b) : b.1 = a.1 + 512 ∧ b.2 = a.2 + 512 * slope a b ∧
    0 < slope a b ∧ minTick ≤ a.1 ∧ b.1 ≤ maxTick ∧ (b.1 = maxTick → b.2 = maxSqrtPrice) :=
  tickSqrtTable_slope i h.lt a h.1 b h.2

theorem entry_le (ha : tickSqrtTable[i]? = some a) (hb : tickSqrtTable[j]? = some b) (h : i ≤ j) :
    a.1 ≤ b.1 ∧ a.2 ≤ b.2 := by
  obtain ⟨hi, rfl⟩ := List.getElem?_eq_some_iff.mp ha
  obtain ⟨hj, rfl⟩ := List.getElem?_eq_some_iff.mp hb
  rcases Nat.lt_or_eq_of_le h with hlt | rfl
  · obtain ⟨h1, h2⟩ := List.pairwise_iff_getElem.mp tickSqrtTable_sorted i j hi hj hlt
    exact ⟨h1.le, h2.le⟩
  · exact ⟨le_refl _, le_refl _⟩

/-- An earlier segment ends before a later one begins. -/
theorem Segment.before (h : Segment i a b) (h' : Segment j a' b') (hij : i < j) :
    b.1 ≤ a'.1 ∧ b.2 ≤ a'.2 :=
  entry_le h.2 h'.1 hij

theorem Segment.unique (h : Segment i a b) (h' : Segment i a' b') : a' = a ∧ b' = b :=
  ⟨Option.some.inj (h'.1.symm.trans h.1), Option.some.inj (h'.2.symm.trans h.2)⟩

end Segments

/-! ## From prices to ticks -/

/-- The search finds a segment that holds the price, or every segment that begins at or below
the price ends there too. -/
theorem segmentTick_cases (p : Int) (l : List (Int × Int)) :
    (∃ i a b, l[i]? = some a ∧ l[i + 1]? = some b ∧ a.2 ≤ p ∧ p < b.2 ∧
      segmentTick p l = some (a.1 + ((p - a.2) * 512).tdiv (max (b.2 - a.2) 1))) ∨
    (segmentTick p l = none ∧
      ∀ i a b, l[i]? = some a → l[i + 1]? = some b → a.2 ≤ p → b.2 ≤ p) := by
  induction l with
  | nil => exact .inr ⟨rfl, fun i a b ha => by cases ha⟩
  | cons e l ih =>
    cases l with
    | nil =>
      refine .inr ⟨rfl, ?_⟩
      intro i a b _ hb
      cases hb
    | cons e' l =>
      by_cases hseg : e.2 ≤ p ∧ p < e'.2
      · exact .inl ⟨0, e, e', rfl, rfl, hseg.1, hseg.2, if_pos hseg⟩
      · have hnext : segmentTick p (e :: e' :: l) = segmentTick p (e' :: l) := if_neg hseg
        rw [hnext]
        obtain ⟨i, a, b, ha, hb, hin⟩ | ⟨hnone, hall⟩ := ih
        · exact .inl ⟨i + 1, a, b, ha, hb, hin⟩
        · refine .inr ⟨hnone, ?_⟩
          intro i a b ha hb hle
          cases i with
          | zero =>
            cases ha
            cases hb
            by_contra hlt
            exact hseg ⟨hle, not_le.mp hlt⟩
          | succ i => exact hall i a b ha hb hle

/-- Where the price is in the table. -/
theorem sqrtPriceToTick_cases (p : Int) :
    (p < minSqrtPrice ∧ sqrtPriceToTick p = minTick) ∨
    (maxSqrtPrice ≤ p ∧ sqrtPriceToTick p = maxTick) ∨
    ∃ i a b, Segment i a b ∧ a.2 ≤ p ∧ p < b.2 ∧
      sqrtPriceToTick p = a.1 + (p - a.2) / slope a b := by
  obtain ⟨i, a, b, ha, hb, hlo, hhi, heq⟩ | ⟨hnone, hall⟩ := segmentTick_cases p tickSqrtTable
  · have hseg : Segment i a b := ⟨ha, hb⟩
    obtain ⟨-, hstep, hpos, -⟩ := hseg.step
    refine .inr (.inr ⟨i, a, b, hseg, hlo, hhi, ?_⟩)
    have hmax : max (b.2 - a.2) 1 = slope a b * 512 := by omega
    unfold sqrtPriceToTick
    rw [heq, hmax, Option.getD_some, Int.tdiv_eq_ediv_of_nonneg (by omega),
      Int.mul_ediv_mul_of_pos_left _ _ (by decide)]
  · have htick : sqrtPriceToTick p = if p ≤ minSqrtPrice then minTick else maxTick := by
      unfold sqrtPriceToTick
      rw [hnone]
      rfl
    rw [htick]
    by_cases hlow : minSqrtPrice ≤ p
    · -- from one entry to the next, the price is at or above all of them
      have hentry : ∀ i ≤ 32, ∀ e, tickSqrtTable[i]? = some e → e.2 ≤ p := by
        intro i hi
        induction i with
        | zero =>
          intro e he
          cases he
          exact hlow
        | succ i ih =>
          intro e he
          have hlen : i < tickSqrtTable.length := by
            have : tickSqrtTable.length = 33 := rfl
            omega
          exact hall i _ e (List.getElem?_eq_getElem hlen) he
            (ih (by omega) _ (List.getElem?_eq_getElem hlen))
      have hmax : maxSqrtPrice ≤ p := hentry 32 (le_refl _) _ rfl
      refine .inr (.inl ⟨hmax, if_neg ?_⟩)
      unfold minSqrtPrice maxSqrtPrice at *
      omega
    · exact .inl ⟨not_le.mp hlow, if_pos (not_le.mp hlow).le⟩

/-- A tick of a segment, from a price in it. -/
theorem Segment.tick_bounds {i : Nat} {a b : Int × Int} {p : Int} (h : Segment i a b)
    (hlo : a.2 ≤ p) (hhi : p < b.2) : a.1 ≤ a.1 + (p - a.2) / slope a b ∧
      a.1 + (p - a.2) / slope a b < b.1 := by
  obtain ⟨htick, hstep, hpos, -⟩ := h.step
  have h0 : 0 ≤ (p - a.2) / slope a b := Int.ediv_nonneg (by omega) hpos.le
  have h512 : (p - a.2) / slope a b < 512 := Int.ediv_lt_of_lt_mul hpos (by omega)
  omega

theorem sqrtPriceToTick_bounds (p : Int) :
    minTick ≤ sqrtPriceToTick p ∧ sqrtPriceToTick p ≤ maxTick := by
  have hle : minTick ≤ maxTick := by decide
  obtain ⟨-, h⟩ | ⟨-, h⟩ | ⟨i, a, b, hseg, hlo, hhi, h⟩ := sqrtPriceToTick_cases p
  · omega
  · omega
  · have hb := hseg.tick_bounds hlo hhi
    have hs := hseg.step
    omega

theorem sqrtPriceToTick_mono {p q : Int} (h : p ≤ q) : sqrtPriceToTick p ≤ sqrtPriceToTick q := by
  have hp := sqrtPriceToTick_bounds p
  have hq := sqrtPriceToTick_bounds q
  obtain ⟨-, hp'⟩ | ⟨hmax, hp'⟩ | ⟨i, a, b, hseg, hlo, hhi, hp'⟩ := sqrtPriceToTick_cases p
  · omega
  · obtain ⟨hlt, -⟩ | ⟨-, hq'⟩ | ⟨j, a', b', hseg', hlo', hhi', -⟩ := sqrtPriceToTick_cases q
    · unfold minSqrtPrice maxSqrtPrice at *
      omega
    · omega
    · have hend : b'.2 ≤ maxSqrtPrice := by
        have hlast : tickSqrtTable[32]? = some (maxTick, maxSqrtPrice) := rfl
        exact (entry_le hseg'.2 hlast (by have := hseg'.lt; omega)).2
      omega
  · obtain ⟨hlt, -⟩ | ⟨-, hq'⟩ | ⟨j, a', b', hseg', hlo', hhi', hq'⟩ := sqrtPriceToTick_cases q
    · have hstart : minSqrtPrice ≤ a.2 := by
        have hfirst : tickSqrtTable[0]? = some (minTick, minSqrtPrice) := rfl
        exact (entry_le hfirst hseg.1 (Nat.zero_le _)).2
      omega
    · omega
    · have hb := hseg.tick_bounds hlo hhi
      have hb' := hseg'.tick_bounds hlo' hhi'
      rcases Nat.lt_trichotomy i j with hij | rfl | hij
      · have := hseg.before hseg' hij
        omega
      · obtain ⟨rfl, rfl⟩ := hseg.unique hseg'
        have hdiv : (p - a'.2) / slope a' b' ≤ (q - a'.2) / slope a' b' :=
          Int.ediv_le_ediv hseg.step.2.2.1 (by omega)
        omega
      · have := hseg'.before hseg hij
        omega

/-! ## From ticks to prices and back -/

/-- The price of a tick is on the line through its segment. -/
theorem tickToSqrtPrice_segment {tick p : Int} (h : tickToSqrtPrice tick = .ok p) :
    ∃ i a b, Segment i a b ∧ a.1 ≤ tick ∧ (tick < b.1 ∨ tick = maxTick ∧ b.1 = maxTick) ∧
      p = a.2 + slope a b * (tick - a.1) := by
  simp only [tickToSqrtPrice, bind_eq_ok, require_eq_ok, exists_unit_and, ofOption_eq_ok,
    pure_eq_ok] at h
  obtain ⟨⟨hlo, hhi⟩, a, ha, b, hb, rfl⟩ := h
  have hlen : tickSqrtTable.length - 2 = 31 := rfl
  rw [hlen] at ha hb
  generalize hi : min ((tick - minTick).tdiv 512).toNat 31 = i at ha hb
  have hseg : Segment i a b := ⟨ha, hb⟩
  obtain ⟨htick, hstep, hpos, -⟩ := hseg.step
  have hstart : a.1 = minTick + 512 * (i : Nat) := (tickSqrtTable_segment i hseg.lt a ha b hb).1
  have hquot : (tick - minTick).tdiv 512 = (tick - minTick) / 512 :=
    Int.tdiv_eq_ediv_of_nonneg (by omega)
  rw [hquot] at hi
  have hle : a.1 ≤ tick := by omega
  refine ⟨i, a, b, hseg, hle, ?_, ?_⟩
  · unfold minTick maxTick at *
    omega
  · have hden : b.1 - a.1 = 512 := by omega
    have hrise : (b.2 - a.2) * (tick - a.1) = slope a b * (tick - a.1) * 512 := by
      have : b.2 - a.2 = slope a b * 512 := by omega
      rw [this]
      ring
    show a.2 + ((b.2 - a.2) * (tick - a.1)).tdiv (b.1 - a.1) = _
    rw [hden, hrise, Int.mul_tdiv_cancel _ (by decide)]

/-- **`sqrt_price_to_tick` recovers a tick from its price.** -/
theorem sqrtPriceToTick_of_tick {tick p : Int} (h : tickToSqrtPrice tick = .ok p) :
    sqrtPriceToTick p = tick := by
  obtain ⟨i, a, b, hseg, hle, hend, rfl⟩ := tickToSqrtPrice_segment h
  obtain ⟨htick, hstep, hpos, -, hb, hmax⟩ := hseg.step
  have hlow : 0 ≤ slope a b * (tick - a.1) := mul_nonneg hpos.le (by omega)
  rcases hend with hlt | ⟨rfl, hb⟩
  · have hhigh : slope a b * (tick - a.1) < slope a b * 512 :=
      mul_lt_mul_of_pos_left (by omega) hpos
    have hstart : minSqrtPrice ≤ a.2 := by
      have hfirst : tickSqrtTable[0]? = some (minTick, minSqrtPrice) := rfl
      exact (entry_le hfirst hseg.1 (Nat.zero_le _)).2
    have hlast : b.2 ≤ maxSqrtPrice := by
      have hlast : tickSqrtTable[32]? = some (maxTick, maxSqrtPrice) := rfl
      exact (entry_le hseg.2 hlast (by have := hseg.lt; omega)).2
    obtain ⟨hlt', -⟩ | ⟨hmax', -⟩ | ⟨j, a', b', hseg', hlo, hhi, heq⟩ :=
      sqrtPriceToTick_cases (a.2 + slope a b * (tick - a.1))
    · omega
    · omega
    · rw [heq]
      rcases Nat.lt_trichotomy i j with hij | rfl | hij
      · have := hseg.before hseg' hij
        omega
      · obtain ⟨rfl, rfl⟩ := hseg.unique hseg'
        rw [add_sub_cancel_left, Int.mul_ediv_cancel_left _ hpos.ne']
        omega
      · have := hseg'.before hseg hij
        omega
  · have htop : a.2 + slope a b * (maxTick - a.1) = maxSqrtPrice := by
      rw [← hmax hb, hstep, ← hb, htick]
      ring
    rw [htop]
    decide

/-- Every supported tick has a price. -/
theorem tickToSqrtPrice_ok {tick : Int} (hlo : minTick ≤ tick) (hhi : tick ≤ maxTick) :
    ∃ p, tickToSqrtPrice tick = .ok p := by
  have hlen : tickSqrtTable.length = 33 := rfl
  unfold tickToSqrtPrice
  rw [require_pos _ ⟨hlo, hhi⟩, hlen]
  generalize hi : min ((tick - minTick).tdiv 512).toNat (33 - 2) = i
  obtain ⟨a, ha⟩ : ∃ a, tickSqrtTable[i]? = some a := ⟨_, List.getElem?_eq_getElem (by omega)⟩
  obtain ⟨b, hb⟩ : ∃ b, tickSqrtTable[i + 1]? = some b :=
    ⟨_, List.getElem?_eq_getElem (by omega)⟩
  simp only [ok_bind, ha, hb, ofOption]
  exact ⟨_, rfl⟩

/-- A price of the table's range is not below the price of its tick. -/
theorem tickPrice_le {p : Int} (hlo : minSqrtPrice ≤ p) :
    ∃ q, tickToSqrtPrice (sqrtPriceToTick p) = .ok q ∧ q ≤ p := by
  obtain ⟨hmin, hmax⟩ := sqrtPriceToTick_bounds p
  obtain ⟨q, hq⟩ := tickToSqrtPrice_ok hmin hmax
  refine ⟨q, hq, ?_⟩
  obtain ⟨hlt, -⟩ | ⟨hge, -⟩ | ⟨i, a, b, hseg, ha, hb, htick⟩ := sqrtPriceToTick_cases p
  · omega
  · exact (tickToSqrtPrice_bounds hq).2.trans hge
  · obtain ⟨j, a', b', hseg', hle, hend, rfl⟩ := tickToSqrtPrice_segment hq
    have hin := hseg.tick_bounds ha hb
    have hpos := hseg.step.2.2.1
    rw [← htick] at hin
    have hlast := hseg.step.2.2.2.2.1
    have hij : i = j := by
      rcases Nat.lt_trichotomy i j with hij | hij | hij
      · have := hseg.before hseg' hij
        omega
      · exact hij
      · have := hseg'.before hseg hij
        omega
    subst hij
    obtain ⟨rfl, rfl⟩ := hseg.unique hseg'
    rw [htick, add_sub_cancel_left]
    have hmul := Int.mul_ediv_self_le (x := p - a'.2) hpos.ne'
    omega

/-- A higher tick has a higher price. -/
theorem tickToSqrtPrice_strictMono {t t' p p' : Int} (h : tickToSqrtPrice t = .ok p)
    (h' : tickToSqrtPrice t' = .ok p') (hlt : t < t') : p < p' := by
  by_contra hge
  have hmono := sqrtPriceToTick_mono (not_lt.mp hge)
  rw [sqrtPriceToTick_of_tick h, sqrtPriceToTick_of_tick h'] at hmono
  omega

/-- **Ticks and prices.**  From the lowest supported tick to the highest one the price rises
strictly, and the tick of a price between theirs is the greatest one that is not above the price;
so a tick is found again from its price. -/
theorem ticks_correspond :
    (∀ t, minTick ≤ t → t ≤ maxTick → ∃ p, tickToSqrtPrice t = .ok p) ∧
    (∀ t t' p p', tickToSqrtPrice t = .ok p → tickToSqrtPrice t' = .ok p' → t < t' → p < p') ∧
    (∀ low high p, tickToSqrtPrice minTick = .ok low → tickToSqrtPrice maxTick = .ok high →
      low ≤ p → p ≤ high →
        IsGreatest {t | ∃ q, tickToSqrtPrice t = .ok q ∧ q ≤ p} (sqrtPriceToTick p)) ∧
    ∀ t p, tickToSqrtPrice t = .ok p → sqrtPriceToTick p = t := by
  refine ⟨fun t => tickToSqrtPrice_ok, fun t t' p p' => tickToSqrtPrice_strictMono, ?_,
    fun t p => sqrtPriceToTick_of_tick⟩
  intro low high p hlow _ hlo _
  have hmin : minSqrtPrice ≤ p := (tickToSqrtPrice_bounds hlow).1.trans hlo
  refine ⟨tickPrice_le hmin, ?_⟩
  rintro t ⟨q, hq, hle⟩
  rw [← sqrtPriceToTick_of_tick hq]
  exact sqrtPriceToTick_mono hle

/-! ## Where a swap ends -/

theorem quoteSwap_step {d : Deployment} {pool : PoolState} {zeroForOne : Bool} {amountIn : Int}
    {step : SwapStep} (h : quoteSwap d pool zeroForOne amountIn = .ok step) :
    ∃ target scaledFee rest, tickToSqrtPrice (targetTick pool zeroForOne) = .ok target ∧
      (d.i128 (amountIn * pool.dynamicFeeBps) : Result Int) = .ok scaledFee ∧
      step.feePaid = scaledFee.tdiv 10000 ∧
      step.newSqrtPrice = (stepTo pool.sqrtPrice target pool.liquidity (max rest 0)).1 := by
  simp only [quoteSwap, computeSwapStep, bind_eq_ok] at h
  obtain ⟨target, ht, scaledFee, hfee, rest, -, h⟩ := h
  refine ⟨target, scaledFee, rest, ht, hfee, ?_⟩
  unfold stepTo
  by_cases hfall : target < pool.sqrtPrice
  · rw [if_pos hfall] at h ⊢
    cases h
    exact ⟨rfl, rfl⟩
  · rw [if_neg hfall] at h ⊢
    cases h
    exact ⟨rfl, rfl⟩

/-- **A swap moves the tick by at most one**, down for a sale of token A and up for a purchase. -/
theorem quoteSwap_tick {d : Deployment} {pool : PoolState} {zeroForOne : Bool} {amountIn : Int}
    {step : SwapStep} (htick : pool.currentTick = sqrtPriceToTick pool.sqrtPrice)
    (h : quoteSwap d pool zeroForOne amountIn = .ok step)
    (hmoved : sqrtPriceToTick step.newSqrtPrice ≠ pool.currentTick) :
    sqrtPriceToTick step.newSqrtPrice = targetTick pool zeroForOne ∧
      targetTick pool zeroForOne =
        if zeroForOne then pool.currentTick - 1 else pool.currentTick + 1 := by
  obtain ⟨target, -, rest, ht, -, -, hprice⟩ := quoteSwap_step h
  obtain ⟨hlo, hhi⟩ := tickToSqrtPrice_bounds ht
  have hback := sqrtPriceToTick_of_tick ht
  have hbounds := sqrtPriceToTick_bounds pool.sqrtPrice
  rw [← htick] at hbounds
  have hnext : (if zeroForOne then pool.currentTick - 1 else pool.currentTick + 1) =
      pool.currentTick - 1 ∨
      (if zeroForOne then pool.currentTick - 1 else pool.currentTick + 1) = pool.currentTick + 1 := by
    cases zeroForOne
    · exact .inr rfl
    · exact .inl rfl
  have hclamp : targetTick pool zeroForOne =
      min (max (if zeroForOne then pool.currentTick - 1 else pool.currentTick + 1) minTick) maxTick :=
    rfl
  generalize (if zeroForOne then pool.currentTick - 1 else pool.currentTick + 1) = next at *
  have hends : minTick < maxTick := by decide
  have hrest : 0 ≤ max rest 0 := le_max_right _ _
  generalize max rest 0 = amount at hprice hrest
  unfold stepTo at hprice
  split at hprice
  · next hfall =>
    rw [sellStep_price hlo hfall hrest] at hprice
    have hle := sqrtPriceToTick_mono hfall.le
    rw [hprice, hback] at hmoved
    rw [hback, ← htick] at hle
    rw [hprice]
    exact ⟨hback, by omega⟩
  · next hrise =>
    obtain ⟨hge, hle⟩ := buyStep_price (not_lt.mp hrise) hhi hrest
    rw [← hprice] at hge hle
    have hge := sqrtPriceToTick_mono hge
    have hle := sqrtPriceToTick_mono hle
    rw [← htick] at hge
    rw [hback] at hle
    omega

end Stellara.Amm
