import Stellara.Amm.Prices
import Mathlib.Algebra.Order.BigOperators.Group.List
import Mathlib.Tactic.NormNum.NatSqrt

/-!
# The dynamic fee (`contracts/amm/src/fees.rs`)

A swap records the price it finds for the present hour.  The fee of a pool is its tier and a
premium, a tenth of the volatility of the last 24 hours' samples and at most 50:

    mean       = sum / count
    variance   = (Σ (x - mean)²) / count
    volatility = isqrt variance * 10000 / mean                       (volatilityBps)

`isqrt` is Newton's iteration from above; below `i128::MAX` no sum of it overflows (`isqrt_eq`).
The mean is at least one and no deviation exceeds the sum of the samples, so the volatility is
far below `2 ^ 32` and the cast keeps it.  Two things go wrong: in the first 23 hours of the
clock the window does not reach back 24 hours and takes the sample of hour 0 for each hour that
is missing, and the sum of the squared deviations of prices as far apart as the table allows
does not fit in `i128` (`feeExact_iff`).
-/

namespace Stellara.Amm

open Outcome

/-! ## Newton's square root -/

section Isqrt

variable {n x r : Int}

/-- The next iterate is not below the root. -/
theorem le_newton (hx : 0 < x) (hr : r * r ≤ n) : r ≤ (x + n / x) / 2 := by
  have hsq : (2 * r - x) * x ≤ n := by
    have : 0 ≤ (r - x) * (r - x) := mul_self_nonneg _
    calc (2 * r - x) * x = r * r - (r - x) * (r - x) := by ring
      _ ≤ n := by omega
  have hdiv : 2 * r - x ≤ n / x := (Int.le_ediv_iff_mul_le hx).mpr hsq
  omega

/-- An iterate that is not followed by a smaller one is not above the root. -/
theorem sq_le_of_le_newton (hx : 0 < x) (h : x ≤ (x + n / x) / 2) : x * x ≤ n := by
  rw [← Int.le_ediv_iff_mul_le hx]
  omega

/-- An iterate and its quotient add up to at most one more than the number. -/
theorem add_ediv_le (hx : 1 ≤ x) (hn : x ≤ n) : x + n / x ≤ n + 1 := by
  have hq : x * (n / x) ≤ n := Int.mul_ediv_self_le (by omega)
  have hq1 : 1 ≤ n / x := (Int.le_ediv_iff_mul_le (by omega)).mpr (by omega)
  have : 0 ≤ (x - 1) * (n / x - 1) := mul_nonneg (by omega) (by omega)
  have : (x - 1) * (n / x - 1) = x * (n / x) - x - n / x + 1 := by ring
  omega

/-- The iterates stay between the root and the number, and `y` is the one after `x`. -/
structure Iterates (n : Int) (p : Int × Int) : Prop where
  pos : 0 < p.1
  le : p.1 ≤ n
  root_le : (Nat.sqrt n.toNat : Int) ≤ p.1
  next : p.2 = (p.1 + n / p.1) / 2

theorem sqrt_mul_self_le (h : 0 ≤ n) : (Nat.sqrt n.toNat : Int) * Nat.sqrt n.toNat ≤ n := by
  have := Nat.sqrt_le n.toNat
  zify at this
  rwa [Int.toNat_of_nonneg h] at this

theorem isqrtStep_eq (d : Deployment) (hn : 0 < n) (hmax : n < i128Max) {x y : Int}
    (h : Iterates n (x, y)) :
    isqrtStep d n (x, y) = .ok (if y < x then some (y, (y + n / y) / 2) else none) := by
  obtain ⟨hpos, hle, hroot, hnext⟩ := h
  simp only at hpos hle hroot hnext
  simp only [isqrtStep]
  by_cases hlt : y < x
  · have hy : 1 ≤ y := by
      have h1 : (1 : Int) * 1 ≤ n := by omega
      rw [hnext]
      exact le_newton hpos h1
    have hsum := add_ediv_le hy (show y ≤ n by omega)
    have hq : 0 ≤ n / y := Int.ediv_nonneg hn.le (by omega)
    rw [if_pos hlt, if_pos hlt, divI128_of_nonneg hn.le hmax.le (by omega), ok_bind,
      i128_of_in d (inI128_iff.mpr ⟨by omega, by omega⟩), ok_bind,
      Int.tdiv_eq_ediv_of_nonneg (by omega)]
    rfl
  · rw [if_neg hlt, if_neg hlt]

theorem iterates_step (hn : 0 < n) {x y : Int} (h : Iterates n (x, y)) (hlt : y < x) :
    Iterates n (y, (y + n / y) / 2) := by
  obtain ⟨hpos, hle, hroot, hnext⟩ := h
  simp only at hpos hle hroot hnext
  have hy : 1 ≤ y := by
    rw [hnext]
    exact le_newton hpos (by omega)
  refine ⟨by show 0 < y; omega, by show y ≤ n; omega, ?_, rfl⟩
  show _ ≤ y
  rw [hnext]
  exact le_newton hpos (sqrt_mul_self_le hn.le)

/-- **The square root**, in either build. -/
theorem isqrt_eq (d : Deployment) (h0 : 0 ≤ n) (hmax : n < i128Max) :
    isqrt d n = .ok (Nat.sqrt n.toNat : Int) := by
  unfold isqrt
  by_cases hzero : n ≤ 0
  · obtain rfl : n = 0 := by omega
    rfl
  have hn : 0 < n := by omega
  have hstart : Iterates n (n, (n + 1) / 2) := by
    refine ⟨hn, le_refl _, ?_, ?_⟩
    · have := Nat.sqrt_le_self n.toNat
      show (Nat.sqrt n.toNat : Int) ≤ n
      omega
    · show (n + 1) / 2 = (n + n / n) / 2
      rw [Int.ediv_self hn.ne']
  rw [if_neg hzero, i128_of_in d (inI128_iff.mpr ⟨by omega, by omega⟩), ok_bind,
    Int.tdiv_eq_ediv_of_nonneg (by omega)]
  have hinv : ∀ p q, Iterates n p → isqrtStep d n p = .ok (some q) →
      Iterates n q ∧ q.1.toNat < p.1.toNat := by
    rintro ⟨x, y⟩ q hp hq
    rw [isqrtStep_eq d hn hmax hp] at hq
    split at hq
    next hlt =>
      obtain rfl := Option.some.inj (Except.ok.inj hq)
      have hq := iterates_step hn hp hlt
      have hpos := hq.pos
      refine ⟨hq, ?_⟩
      show y.toNat < x.toNat
      have : 0 < y := hpos
      omega
    · cases Except.ok.inj hq
  have hbody : ∀ p, Iterates n p → ∃ o, isqrtStep d n p = .ok o :=
    fun p hp => ⟨_, isqrtStep_eq d hn hmax hp⟩
  obtain ⟨⟨x, y⟩, hrun⟩ :
      ∃ p, Loop.run (.panic "out of fuel") (isqrtStep d n) (n.toNat + 1) (n, (n + 1) / 2) = .ok p :=
    Loop.run_ok hbody hinv hstart (Nat.lt_succ_self n.toNat)
  obtain ⟨hend, hstop⟩ := Loop.run_invariant (fun p q hp hq => (hinv p q hp hq).1) hstart hrun
  rw [hrun, ok_bind]
  -- the loop stops at an iterate that is not followed by a smaller one
  have hle : x ≤ y := by
    rw [isqrtStep_eq d hn hmax hend] at hstop
    split at hstop
    · cases Except.ok.inj hstop
    · omega
  obtain ⟨hpos, -, hroot, hnext⟩ := hend
  simp only at hpos hroot hnext
  rw [hnext] at hle
  have hsq := sq_le_of_le_newton hpos hle
  have hx : x.toNat ≤ Nat.sqrt n.toNat := by
    rw [Nat.le_sqrt]
    zify
    rw [Int.toNat_of_nonneg hpos.le, Int.toNat_of_nonneg h0]
    exact hsq
  show Except.ok x = _
  rw [show x = (Nat.sqrt n.toNat : Int) by omega]

/-- **The integer square root.**  The loop ends at the root, and nothing in it leaves `i128`: in a
build with overflow checks that would have been a panic. -/
theorem isqrt_root (h0 : 0 ≤ n) (hmax : n < i128Max) :
    ∃ r, (∀ d, isqrt d n = .ok r) ∧ r * r ≤ n ∧ n < (r + 1) * (r + 1) := by
  refine ⟨Nat.sqrt n.toNat, fun d => isqrt_eq d h0 hmax, sqrt_mul_self_le h0, ?_⟩
  have hlt := Nat.lt_succ_sqrt n.toNat
  zify at hlt
  rwa [Int.toNat_of_nonneg h0] at hlt

/-- The largest number it is for. -/
theorem isqrt_root_largest :
    ∃ r, (∀ d, isqrt d (i128Max - 1) = .ok r) ∧ r * r ≤ i128Max - 1 ∧
      i128Max - 1 < (r + 1) * (r + 1) :=
  isqrt_root (by decide) (by decide)

end Isqrt

/-! ## Volatility -/

/-- `mean_price`. -/
def meanPrice (xs : List Int) : Int := xs.sum / xs.length

/-- The sum of the squared deviations from the mean. -/
def deviations (xs : List Int) : Int :=
  (xs.map fun x => (x - meanPrice xs) * (x - meanPrice xs)).sum

/-- The module's formula. -/
def volatilityBps (xs : List Int) : Int :=
  Nat.sqrt (deviations xs / xs.length).toNat * 10000 / meanPrice xs

section Sums

variable {d : Deployment} {xs : List Int} {acc y : Int}

/-- A sum that fits is computed, in either build. -/
theorem sumI128_from (h : ∀ x ∈ xs, 0 ≤ x) (h0 : 0 ≤ acc) (hmax : acc + xs.sum ≤ i128Max) :
    xs.foldlM (fun sum x => d.i128 (sum + x)) acc = (.ok (acc + xs.sum) : Result Int) := by
  induction xs generalizing acc with
  | nil => simp [pure, Except.pure]
  | cons x xs ih =>
    rw [List.forall_mem_cons] at h
    rw [List.sum_cons] at hmax ⊢
    have hrest : 0 ≤ xs.sum := List.sum_nonneg h.2
    have hx := h.1
    rw [List.foldlM_cons, i128_of_in d (inI128_iff.mpr ⟨by omega, by omega⟩), ok_bind,
      ih h.2 (by omega) (by omega), add_assoc]

theorem sumI128_ok (h : ∀ x ∈ xs, 0 ≤ x) (hmax : xs.sum ≤ i128Max) :
    sumI128 d xs = .ok xs.sum := by
  unfold sumI128
  rw [sumI128_from h (le_refl 0) (by omega), zero_add]

/-- With overflow checks a sum that is computed fits. -/
theorem sumI128_checked (hc : d.overflowChecks = true) (h0 : acc ≤ i128Max)
    (h : xs.foldlM (fun sum x => d.i128 (sum + x)) acc = (.ok y : Result Int)) :
    y = acc + xs.sum ∧ acc + xs.sum ≤ i128Max := by
  induction xs generalizing acc with
  | nil =>
    rw [List.foldlM_nil, pure_eq_ok] at h
    rw [List.sum_nil, add_zero]
    exact ⟨h.symm, h0⟩
  | cons x xs ih =>
    rw [List.foldlM_cons, bind_eq_ok] at h
    obtain ⟨z, hz, h⟩ := h
    have hin := inI128_iff.mp (i128_inI128 hz)
    rw [i128_checked hc hz] at hin h
    obtain ⟨hy, hmax⟩ := ih hin.2 h
    rw [List.sum_cons, ← add_assoc]
    exact ⟨hy, hmax⟩

/-- The squares, where they fit. -/
theorem squares_ok {m : Int} (h : ∀ x ∈ xs, InI128 (x - m) ∧ InI128 ((x - m) * (x - m))) :
    xs.mapM (squaredDeviation d m) = .ok (xs.map fun x => (x - m) * (x - m)) := by
  induction xs with
  | nil => rfl
  | cons x xs ih =>
    rw [List.forall_mem_cons] at h
    have hx : squaredDeviation d m x = .ok ((x - m) * (x - m)) := by
      unfold squaredDeviation
      rw [i128_of_in d h.1.1, ok_bind, i128_of_in d h.1.2]
    rw [List.mapM_cons, hx, ok_bind, ih h.2, ok_bind]
    rfl

theorem squares_checked {m : Int} {ys : List Int} (hc : d.overflowChecks = true)
    (h : xs.mapM (squaredDeviation d m) = .ok ys) : ys = xs.map fun x => (x - m) * (x - m) := by
  induction xs generalizing ys with
  | nil =>
    rw [List.mapM_nil, pure_eq_ok] at h
    exact h.symm
  | cons x xs ih =>
    rw [List.mapM_cons] at h
    simp only [bind_eq_ok, pure_eq_ok, squaredDeviation] at h
    obtain ⟨y, ⟨diff, hdiff, hy⟩, rest, hrest, rfl⟩ := h
    rw [List.map_cons, ← ih hrest, i128_checked hc hy, i128_checked hc hdiff]

end Sums

section Samples

variable {xs : List Int}

theorem deviations_nonneg (xs : List Int) : 0 ≤ deviations xs := by
  apply List.sum_nonneg
  intro y hy
  obtain ⟨x, _, rfl⟩ := List.mem_map.mp hy
  exact mul_self_nonneg _

/-- Each squared deviation is at most their sum. -/
theorem sq_le_deviations {x : Int} (hx : x ∈ xs) :
    (x - meanPrice xs) * (x - meanPrice xs) ≤ deviations xs := by
  apply List.single_le_sum
  · intro y hy
    obtain ⟨x, _, rfl⟩ := List.mem_map.mp hy
    exact mul_self_nonneg _
  · exact List.mem_map_of_mem hx

/-- A number is not above its square. -/
theorem inI128_of_sq_le {x : Int} (h : x * x ≤ i128Max) : InI128 x := by
  unfold i128Max at h
  rw [inI128_iff]
  unfold i128Max
  constructor
  · by_contra hlt
    nlinarith
  · by_contra hlt
    nlinarith

/-- One sample does not vary. -/
theorem volatilityBps_of_short (h : xs.length < 2) : volatilityBps xs = 0 := by
  match xs with
  | [] => rfl
  | [x] => simp [volatilityBps, deviations, meanPrice]
  | _ :: _ :: _ => simp only [List.length_cons] at h; omega

theorem deviations_of_short (h : xs.length < 2) : deviations xs = 0 := by
  match xs with
  | [] => rfl
  | [x] => simp [deviations, meanPrice]
  | _ :: _ :: _ => simp only [List.length_cons] at h; omega

/-- The mean of positive samples. -/
theorem meanPrice_pos (hne : xs ≠ []) (h : ∀ x ∈ xs, 0 < x) : 1 ≤ meanPrice xs := by
  have hlen : 0 < (xs.length : Int) := by exact_mod_cast List.length_pos_iff.mpr hne
  have hsum : xs.length • (1 : Int) ≤ xs.sum := List.card_nsmul_le_sum xs 1 h
  rw [nsmul_eq_mul, mul_one] at hsum
  unfold meanPrice
  rw [Int.le_ediv_iff_mul_le hlen]
  omega

/-- No sample is above twice the mean times their number. -/
theorem sample_le {x : Int} (h : ∀ x ∈ xs, 0 < x) (hx : x ∈ xs) :
    x ≤ 2 * xs.length * meanPrice xs := by
  have hne : xs ≠ [] := List.ne_nil_of_mem hx
  have hlen : 0 < (xs.length : Int) := by exact_mod_cast List.length_pos_iff.mpr hne
  have hmean := meanPrice_pos hne h
  have hsum : x ≤ xs.sum := List.single_le_sum (fun y hy => (h y hy).le) x hx
  have hdiv : xs.sum < xs.length * meanPrice xs + xs.length := by
    unfold meanPrice
    exact Int.lt_mul_ediv_self_add hlen
  have hone : (xs.length : Int) * 1 ≤ xs.length * meanPrice xs :=
    mul_le_mul_of_nonneg_left hmean hlen.le
  have htwo : 2 * (xs.length : Int) * meanPrice xs =
      xs.length * meanPrice xs + xs.length * meanPrice xs := by ring
  omega

/-- The root of the variance is within the same bound. -/
theorem sqrt_variance_le (h : ∀ x ∈ xs, 0 < x) :
    (Nat.sqrt (deviations xs / xs.length).toNat : Int) ≤ 2 * xs.length * meanPrice xs := by
  by_cases hne : xs = []
  · rw [hne]
    decide
  have hlen : 0 < (xs.length : Int) := by exact_mod_cast List.length_pos_iff.mpr hne
  have hmean := meanPrice_pos hne h
  have hbound : meanPrice xs ≤ 2 * xs.length * meanPrice xs :=
    le_mul_of_one_le_left (by omega) (by omega)
  generalize hb : 2 * (xs.length : Int) * meanPrice xs = b at hbound
  have hsq : ∀ y ∈ xs.map fun x => (x - meanPrice xs) * (x - meanPrice xs), y ≤ b * b := by
    intro y hy
    obtain ⟨x, hx, rfl⟩ := List.mem_map.mp hy
    have hpos := h x hx
    have hle := sample_le h hx
    rw [hb] at hle
    apply abs_le_iff_mul_self_le.mp
    rw [abs_le, abs_of_nonneg (by omega : 0 ≤ b)]
    omega
  have hsum : deviations xs ≤ xs.length * (b * b) := by
    have := List.sum_le_card_nsmul _ _ hsq
    rwa [List.length_map, nsmul_eq_mul] at this
  have hvar : deviations xs / xs.length ≤ b * b := by
    apply Int.ediv_le_of_le_mul hlen
    rwa [mul_comm]
  have hvar0 : 0 ≤ deviations xs / xs.length := Int.ediv_nonneg (deviations_nonneg xs) hlen.le
  have hroot := sqrt_mul_self_le hvar0
  apply abs_le_of_sq_le_sq' _ (by omega : 0 ≤ b) |>.2
  rw [pow_two, pow_two]
  omega

/-- The volatility is at most 20000 for each sample. -/
theorem volatilityBps_le (h : ∀ x ∈ xs, 0 < x) :
    0 ≤ volatilityBps xs ∧ volatilityBps xs ≤ 20000 * xs.length := by
  by_cases hne : xs = []
  · rw [hne]
    decide
  have hlen : 0 < (xs.length : Int) := by exact_mod_cast List.length_pos_iff.mpr hne
  have hmean := meanPrice_pos hne h
  have hroot := sqrt_variance_le h
  have hmul : (Nat.sqrt (deviations xs / xs.length).toNat : Int) * 10000 ≤
      20000 * xs.length * meanPrice xs := by
    calc (Nat.sqrt (deviations xs / xs.length).toNat : Int) * 10000
        ≤ 2 * xs.length * meanPrice xs * 10000 := by omega
      _ = 20000 * xs.length * meanPrice xs := by ring
  unfold volatilityBps
  constructor
  · exact Int.ediv_nonneg (by omega) (by omega)
  · exact Int.ediv_le_of_le_mul (by omega) hmul

end Samples

/-! ## The fee -/

section Fee

variable {d : Deployment} {env : Env} {s : State} {key : PoolKey} {xs : List Int}

/-- The premium where the squared deviations fit, in either build. -/
theorem volatilityPremium_ok (hpos : ∀ x ∈ xs, 0 < x) (htwo : 2 ≤ xs.length)
    (hlen : xs.length ≤ 24) (hmax : deviations xs ≤ i128Max) :
    volatilityPremium d xs (meanPrice xs) = .ok (min ((volatilityBps xs).toNat / 10) 50) := by
  have hne : xs ≠ [] := List.ne_nil_of_length_pos (by omega)
  have hmean := meanPrice_pos hne hpos
  have hdev := deviations_nonneg xs
  have hsquares : xs.mapM (squaredDeviation d (meanPrice xs)) =
      .ok (xs.map fun x => (x - meanPrice xs) * (x - meanPrice xs)) := by
    apply squares_ok
    intro x hx
    have hle := (sq_le_deviations hx).trans hmax
    have h0 : 0 ≤ (x - meanPrice xs) * (x - meanPrice xs) := mul_self_nonneg _
    exact ⟨inI128_of_sq_le hle, inI128_iff.mpr ⟨by omega, hle⟩⟩
  have hsum : sumI128 d (xs.map fun x => (x - meanPrice xs) * (x - meanPrice xs)) =
      .ok (deviations xs) := by
    apply sumI128_ok
    · intro y hy
      obtain ⟨x, _, rfl⟩ := List.mem_map.mp hy
      exact mul_self_nonneg _
    · exact hmax
  -- there are two samples at least, so the variance is below the largest value
  have hvar0 : 0 ≤ deviations xs / xs.length := Int.ediv_nonneg hdev (by omega)
  have hvar : deviations xs / xs.length < i128Max := by
    apply Int.ediv_lt_of_lt_mul (by omega)
    unfold i128Max at hmax ⊢
    omega
  have hroot := sqrt_mul_self_le hvar0
  have hscaled : InI128 ((Nat.sqrt (deviations xs / xs.length).toNat : Int) * 10000) := by
    have hr0 : (0 : Int) ≤ Nat.sqrt (deviations xs / xs.length).toNat := Int.natCast_nonneg _
    generalize (Nat.sqrt (deviations xs / xs.length).toNat : Int) = r at hroot hr0
    have hr : r < 2 ^ 64 := by
      unfold i128Max at hvar
      by_contra hge
      have : (2 : Int) ^ 64 * 2 ^ 64 ≤ r * r :=
        mul_le_mul (by omega) (by omega) (by norm_num) hr0
      omega
    rw [inI128_iff]
    unfold i128Max
    omega
  obtain ⟨hvol0, hvol⟩ := volatilityBps_le hpos
  have hcast : (volatilityBps xs % 2 ^ 32).toNat = (volatilityBps xs).toNat := by
    rw [Int.emod_eq_of_lt hvol0 (by omega)]
  unfold volatilityPremium
  rw [hsquares, ok_bind, hsum, ok_bind, Int.tdiv_eq_ediv_of_nonneg hdev, isqrt_eq d hvar0 hvar,
    ok_bind, i128_of_in d hscaled, ok_bind, max_eq_left hmean,
    Int.tdiv_eq_ediv_of_nonneg (by positivity)]
  show Except.ok (min ((volatilityBps xs % 2 ^ 32).toNat / 10) 50) = _
  rw [hcast]

/-- With overflow checks there is a premium only where the squared deviations fit. -/
theorem fits_of_volatilityPremium (hc : d.overflowChecks = true) {n : Nat}
    (h : volatilityPremium d xs (meanPrice xs) = .ok n) : deviations xs ≤ i128Max := by
  simp only [volatilityPremium, bind_eq_ok] at h
  obtain ⟨squares, hsquares, sum, hsum, -⟩ := h
  rw [squares_checked hc hsquares] at hsum
  have := (sumI128_checked hc zero_le_i128Max hsum).2
  rwa [zero_add] at this

theorem length_recentSamples : (recentSamples env s key).length ≤ 24 := by
  unfold recentSamples
  have := List.length_filterMap_le
    (fun i => readPriceSample s key (env.timestamp / oraclePeriodSecs - i)) (List.range 24)
  rwa [List.length_range] at this

theorem sample_of_recent (h : PricesInv s) :
    ∀ x ∈ recentSamples env s key, 0 < x ∧ x ≤ maxSqrtPrice := by
  intro x hx
  obtain ⟨i, _, hi⟩ := List.mem_filterMap.mp hx
  exact h.sample _ _ _ hi

/-- The sum of the samples always fits. -/
theorem sum_recentSamples (h : PricesInv s) :
    sumI128 d (recentSamples env s key) = .ok (recentSamples env s key).sum := by
  have hlen : (recentSamples env s key).length ≤ 24 := length_recentSamples
  apply sumI128_ok
  · exact fun x hx => (sample_of_recent h x hx).1.le
  · have := List.sum_le_card_nsmul (recentSamples env s key) maxSqrtPrice
      fun x hx => (sample_of_recent h x hx).2
    rw [nsmul_eq_mul] at this
    unfold maxSqrtPrice at this
    unfold i128Max
    omega

/-- **The fee** of the samples that the window finds. -/
theorem computeDynamicFee_iff (h : PricesInv s) (baseFee : Nat) :
    (∀ checks, computeDynamicFee { env with overflowChecks := checks } s key baseFee =
        .ok (baseFee + min ((volatilityBps (recentSamples env s key)).toNat / 10) 50)) ↔
      deviations (recentSamples env s key) ≤ i128Max := by
  have hpos : ∀ x ∈ recentSamples env s key, 0 < x := fun x hx => (sample_of_recent h x hx).1
  have hfee : ∀ checks, computeDynamicFee { env with overflowChecks := checks } s key baseFee =
      if (recentSamples env s key).length < 2 then .ok baseFee
      else (do
        let premium ← volatilityPremium ⟨env.self, checks⟩ (recentSamples env s key)
          (meanPrice (recentSamples env s key))
        pure (baseFee + premium)) := by
    intro checks
    simp only [computeDynamicFee]
    rw [show recentSamples { env with overflowChecks := checks } s key = recentSamples env s key
      from rfl, sum_recentSamples h, ok_bind]
    split
    · rfl
    next hlen =>
      have hne : recentSamples env s key ≠ [] := List.ne_nil_of_length_pos (by omega)
      have hmean := meanPrice_pos hne hpos
      have hsum : 0 ≤ (recentSamples env s key).sum :=
        List.sum_nonneg fun x hx => (hpos x hx).le
      rw [Int.tdiv_eq_ediv_of_nonneg hsum]
      exact if_neg (by unfold meanPrice at hmean; omega)
  by_cases hshort : (recentSamples env s key).length < 2
  · rw [deviations_of_short hshort, volatilityBps_of_short hshort]
    refine ⟨fun _ => zero_le_i128Max, fun _ checks => ?_⟩
    rw [hfee, if_pos hshort]
    rfl
  · constructor
    · intro hall
      have hchecked := hall true
      rw [hfee, if_neg hshort, bind_eq_ok] at hchecked
      obtain ⟨premium, hpremium, -⟩ := hchecked
      exact fits_of_volatilityPremium rfl hpremium
    · intro hmax checks
      rw [hfee, if_neg hshort,
        volatilityPremium_ok hpos (by omega) length_recentSamples hmax]
      rfl

/-! ## The window -/

/-- The samples of the periods that the window covers, each once. -/
def windowSamples (env : Env) (s : State) (key : PoolKey) : List Int :=
  (List.range (min 24 (env.timestamp / oraclePeriodSecs + 1))).filterMap fun i =>
    readPriceSample s key (env.timestamp / oraclePeriodSecs - i)

/-- Where the window reaches back beyond hour 0, the code takes the sample of hour 0 again. -/
theorem recentSamples_eq_iff (env : Env) (s : State) (key : PoolKey) :
    recentSamples env s key = windowSamples env s key ↔
      23 ≤ env.timestamp / oraclePeriodSecs ∨ readPriceSample s key 0 = none := by
  unfold recentSamples windowSamples
  generalize env.timestamp / oraclePeriodSecs = period
  by_cases hlong : 23 ≤ period
  · rw [show min 24 (period + 1) = 24 by omega]
    simp [hlong]
  · have hrange : List.range 24 =
        List.range (period + 1) ++ (List.range (23 - period)).map (period + 1 + ·) := by
      rw [← List.range_add, show period + 1 + (23 - period) = 24 by omega]
    rw [show min 24 (period + 1) = period + 1 by omega, hrange, List.filterMap_append,
      List.append_right_eq_self, List.filterMap_map, List.filterMap_eq_nil_iff]
    constructor
    · intro h
      have hfirst : readPriceSample s key (period - (period + 1 + 0)) = none :=
        h 0 (List.mem_range.mpr (by omega))
      rw [show period - (period + 1 + 0) = 0 by omega] at hfirst
      exact .inr hfirst
    · rintro (h | h) i _
      · omega
      · show readPriceSample s key (period - (period + 1 + i)) = none
        rw [show period - (period + 1 + i) = 0 by omega]
        exact h

end Fee

/-- The fee that the formula promises, over each sample of the last 24 hours once: both builds
compute it, so no sum overflows, and the cast keeps the volatility. -/
structure FeeExact (env : Env) (s : State) (key : PoolKey) (baseFee : Nat) : Prop where
  once : recentSamples env s key = windowSamples env s key
  fee : ∀ checks, computeDynamicFee { env with overflowChecks := checks } s key baseFee =
    .ok (baseFee + min ((volatilityBps (windowSamples env s key)).toNat / 10) 50)
  cast : 0 ≤ volatilityBps (windowSamples env s key) ∧
    volatilityBps (windowSamples env s key) < 2 ^ 32

/-- **The dynamic fee.**  In every state of a run and at every time, exactly if the window does
not reach back beyond a sampled hour 0 and the squared deviations fit. -/
theorem feeExact_iff {d : Deployment} {tr : Trace} {s : State} (h : Run (machine d) tr s)
    (env : Env) (key : PoolKey) (pool : PoolState) (_ : readPool s key = some pool) :
    FeeExact env s key pool.feeTier ↔
      (23 ≤ env.timestamp / oraclePeriodSecs ∨ readPriceSample s key 0 = none) ∧
        deviations (windowSamples env s key) ≤ i128Max := by
  have hprices := prices_run h
  rw [← recentSamples_eq_iff]
  constructor
  · rintro ⟨honce, hfee, -⟩
    refine ⟨honce, ?_⟩
    rw [← honce] at hfee ⊢
    exact (computeDynamicFee_iff hprices pool.feeTier).mp hfee
  · rintro ⟨honce, hmax⟩
    rw [← honce] at hmax
    have hpos : ∀ x ∈ recentSamples env s key, 0 < x := fun x hx => (sample_of_recent hprices x hx).1
    have hlen : (recentSamples env s key).length ≤ 24 := length_recentSamples
    obtain ⟨hvol0, hvol⟩ := volatilityBps_le hpos
    refine ⟨honce, ?_, ?_⟩
    · rw [← honce]
      exact (computeDynamicFee_iff hprices pool.feeTier).mpr hmax
    · rw [← honce]
      exact ⟨hvol0, by omega⟩

/-- User 1 deposits a million of token 5 into `[-8192, 0)` of a pool that opens at `price`. -/
def openAt (t : Nat) (price : Int) : List (Env × Call) :=
  openPool.take 5 ++ [(callAt t [], .token (.mint 5 0 (10 ^ 30))),
    (callAt t [9], .createPool 9 poolOf56 30 price),
    (callAt t [1], .addLiquidity 1 poolOf56 ⟨-8192, 0, 1000000, 0⟩ 0 0)]

/-- Two samples, in the hours 50 and 51. -/
theorem feeExact_two_hours :
    ∃ (tr : Trace) (s : State), Run (machine ⟨0, true⟩) tr s ∧
      (windowSamples (callAt (51 * 3600) []) s poolOf56).length = 2 ∧
      FeeExact (callAt (51 * 3600) []) s poolOf56 30 := by
  have hinit : (machine ⟨0, true⟩).init { tokens := .empty } := ⟨_, rfl⟩
  obtain ⟨tr, s, hrun, hok⟩ := Machine.exists_run_of_replay hinit
    (openAt (50 * 3600) (12 * 10 ^ 18) ++ [(callAt (50 * 3600) [2], .swap 2 6 5 1000000 0),
      (callAt (51 * 3600) [2], .swap 2 6 5 1000 0)])
    (fun _ s => (readPool s poolOf56).map PoolState.feeTier = some 30 ∧
      (windowSamples (callAt (51 * 3600) []) s poolOf56).length = 2 ∧
      deviations (windowSamples (callAt (51 * 3600) []) s poolOf56) ≤ i128Max)
    (by decide) (by decide) (by decide)
  obtain ⟨hpool, hlen, hmax⟩ := of_decide_eq_true hok
  obtain ⟨pool, hp, htier⟩ := Option.map_eq_some_iff.mp hpool
  refine ⟨tr, s, hrun, hlen, ?_⟩
  rw [← htier]
  exact (feeExact_iff hrun (callAt (51 * 3600) []) poolOf56 pool hp).mpr ⟨.inl (by decide), hmax⟩

/-- **Two ways to miss the fee.**  In hour 1 the sample of hour 0 counts 23 times: the fee is 34
for a volatility of 102.  Five samples between 1 and the lowest tick's price: the squared
deviations do not fit, so one build fails and the other drops the whole premium of 50. -/
theorem fee_missed :
    (∃ (tr : Trace) (s : State), Run (machine ⟨0, true⟩) tr s ∧
      computeDynamicFee (callAt 3600 []) s poolOf56 30 = .ok 34 ∧
      volatilityBps (windowSamples (callAt 3600 []) s poolOf56) = 102 ∧
      ¬ FeeExact (callAt 3600 []) s poolOf56 30) ∧
    ∃ (tr : Trace) (s : State), Run (machine ⟨0, true⟩) tr s ∧
      computeDynamicFee (callAt (104 * 3600) []) s poolOf56 30 =
        .error (.panic "i128 overflow") ∧
      computeDynamicFee ⟨⟨0, false⟩, 104 * 3600, 0, []⟩ s poolOf56 30 = .ok 30 ∧
      volatilityBps (windowSamples (callAt (104 * 3600) []) s poolOf56) = 8164 ∧
      ¬ FeeExact (callAt (104 * 3600) []) s poolOf56 30 := by
  have hinit : (machine ⟨0, true⟩).init { tokens := .empty } := ⟨_, rfl⟩
  constructor
  · obtain ⟨tr, s, hrun, hok⟩ := Machine.exists_run_of_replay hinit
      (openAt 1 (12 * 10 ^ 18) ++ [(callAt 3 [2], .swap 2 6 5 1000000 0),
        (callAt 3600 [2], .swap 2 6 5 1000 0)])
      (fun _ s => (computeDynamicFee (callAt 3600 []) s poolOf56 30).toOption = some 34 ∧
        windowSamples (callAt 3600 []) s poolOf56 = [12247955219834651828, 12 * 10 ^ 18] ∧
        (recentSamples (callAt 3600 []) s poolOf56).length = 24)
      (by decide) (by decide) (by decide)
    obtain ⟨hfee, hwindow, hrecent⟩ := of_decide_eq_true hok
    refine ⟨tr, s, hrun, eq_ok_of_toOption hfee, ?_, ?_⟩
    · rw [hwindow]
      simp [volatilityBps, deviations, meanPrice]
      norm_num
    · rintro ⟨honce, -, -⟩
      rw [honce, hwindow] at hrecent
      cases hrecent
  · obtain ⟨tr, s, hrun, hok⟩ := Machine.exists_run_of_replay hinit
      (openAt (100 * 3600) 1 ++ [(callAt (100 * 3600) [2], .swap 2 6 5 1 0),
        (callAt (101 * 3600) [2], .swap 2 6 5 2000000 0),
        (callAt (102 * 3600) [2], .swap 2 6 5 1 0), (callAt (103 * 3600) [2], .swap 2 6 5 1 0),
        (callAt (104 * 3600) [2], .swap 2 6 5 1 0)])
      (fun _ s => failsWith (computeDynamicFee (callAt (104 * 3600) []) s poolOf56 30)
          (.panic "i128 overflow") ∧
        (computeDynamicFee ⟨⟨0, false⟩, 104 * 3600, 0, []⟩ s poolOf56 30).toOption = some 30 ∧
        windowSamples (callAt (104 * 3600) []) s poolOf56 = [12247973894748826928,
          12247964557291739378, 12247955219834651828, 9337457087551, 1])
      (by decide) (by decide) (by decide)
    obtain ⟨hfail, hfee, hwindow⟩ := of_decide_eq_true hok
    have hfail := eq_of_failsWith hfail
    refine ⟨tr, s, hrun, hfail, eq_ok_of_toOption hfee, ?_, ?_⟩
    · rw [hwindow]
      simp [volatilityBps, deviations, meanPrice]
      norm_num
    · rintro ⟨-, hexact, -⟩
      have hchecked := hexact true
      have hfail' : computeDynamicFee { callAt (104 * 3600) [] with overflowChecks := true } s
          poolOf56 30 = .error (.panic "i128 overflow") := hfail
      rw [hfail'] at hchecked
      cases hchecked

end Stellara.Amm
