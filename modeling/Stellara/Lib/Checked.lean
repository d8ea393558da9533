import Mathlib.Tactic.Common
import Mathlib.Data.Int.ModEq
import Mathlib.Tactic.Positivity

/-!
# Fixed-width integers as checked `Int`s

A `w`-bit machine integer is an `Int` in the range of the type.  An operation computes
the exact integer first and `signed` / `unsigned` then brings it back into the range:
with overflow checks a value outside it is a fault (`none`), without them it wraps
around modulo `2 ^ w`.  `saturate` clamps instead.

    InInt w x    → signed c w x = some x                     (signed_of_inInt)
    signed c w x = some y → InInt w y                        (signed_inInt)
    unsigned c w x = some n → n < 2 ^ w ∧ n ≡ x [ZMOD 2 ^ w] (unsigned_lt, unsigned_modEq)

A sum that is brought back after every step is brought back once (`unsigned_bind_add`).
-/

namespace Checked

/-- `x` fits a signed `w`-bit integer. -/
def InInt (w : Nat) (x : Int) : Prop := -2 ^ (w - 1) ≤ x ∧ x < 2 ^ (w - 1)

instance (w : Nat) (x : Int) : Decidable (InInt w x) :=
  inferInstanceAs (Decidable (_ ∧ _))

/-- `x` fits an unsigned `w`-bit integer. -/
def InNat (w : Nat) (x : Int) : Prop := 0 ≤ x ∧ x < 2 ^ w

instance (w : Nat) (x : Int) : Decidable (InNat w x) :=
  inferInstanceAs (Decidable (_ ∧ _))

/-- The signed `w`-bit result of an operation whose exact value is `x`. -/
def signed (checks : Bool) (w : Nat) (x : Int) : Option Int :=
  if InInt w x then some x else if checks then none else some (x.bmod (2 ^ w))

/-- The unsigned `w`-bit result of an operation whose exact value is `x`. -/
def unsigned (checks : Bool) (w : Nat) (x : Int) : Option Nat :=
  if InNat w x then some x.toNat else if checks then none else some (x % 2 ^ w).toNat

/-- The value of the signed `w`-bit range closest to `x`. -/
def saturate (w : Nat) (x : Int) : Int := max (-2 ^ (w - 1)) (min (2 ^ (w - 1) - 1) x)

variable {checks : Bool} {w : Nat} {x y : Int}

theorem signed_of_inInt (h : InInt w x) : signed checks w x = some x := if_pos h

theorem unsigned_of_inNat (h : InNat w x) : unsigned checks w x = some x.toNat := if_pos h

/-- The two ways an operation can succeed. -/
theorem signed_cases (h : signed checks w x = some y) :
    (InInt w x ∧ y = x) ∨ (¬ InInt w x ∧ checks = false ∧ y = x.bmod (2 ^ w)) := by
  unfold signed at h
  split at h
  · next hx => exact .inl ⟨hx, (Option.some.inj h).symm⟩
  · next hx =>
    split at h
    · cases h
    · next hc => exact .inr ⟨hx, by simpa using hc, (Option.some.inj h).symm⟩

theorem unsigned_cases {n : Nat} (h : unsigned checks w x = some n) :
    (InNat w x ∧ (n : Int) = x) ∨ (¬ InNat w x ∧ checks = false ∧ n = (x % 2 ^ w).toNat) := by
  unfold unsigned at h
  split at h
  · next hx =>
    refine .inl ⟨hx, ?_⟩
    rw [← Option.some.inj h, Int.toNat_of_nonneg hx.1]
  · next hx =>
    split at h
    · cases h
    · next hc => exact .inr ⟨hx, by simpa using hc, (Option.some.inj h).symm⟩

/-- A result that stayed in range is the exact value. -/
theorem signed_exact (h : signed checks w x = some y) (hx : InInt w x) : y = x := by
  rw [signed_of_inInt hx] at h
  exact (Option.some.inj h).symm

theorem bmod_inInt (hw : 0 < w) (x : Int) : InInt w (x.bmod (2 ^ w)) := by
  obtain ⟨n, rfl⟩ : ∃ n, w = n + 1 := ⟨w - 1, by omega⟩
  have hpos : 0 < 2 ^ (n + 1) := Nat.two_pow_pos _
  have hlo := Int.le_bmod (x := x) hpos
  have hhi := Int.bmod_lt (x := x) hpos
  have hhalf : ((2 : Int) ^ (n + 1)) = 2 * 2 ^ n := by rw [pow_succ, mul_comm]
  push_cast at hlo hhi
  simp only [InInt, Nat.add_sub_cancel]
  omega

/-- The result is a value of the type. -/
theorem signed_inInt (hw : 0 < w) (h : signed checks w x = some y) : InInt w y := by
  rcases signed_cases h with ⟨hx, rfl⟩ | ⟨_, _, rfl⟩
  · exact hx
  · exact bmod_inInt hw x

/-- The result fits. -/
theorem unsigned_lt {n : Nat} (h : unsigned checks w x = some n) : n < 2 ^ w := by
  have hpos : (0 : Int) < 2 ^ w := by positivity
  rcases unsigned_cases h with ⟨hx, hn⟩ | ⟨_, _, rfl⟩
  · have := hx.2
    rw [← hn] at this
    exact_mod_cast this
  · have h1 := Int.emod_lt_of_pos x hpos
    have h0 := Int.emod_nonneg x hpos.ne'
    rw [← Int.toNat_of_nonneg h0] at h1
    exact_mod_cast h1

/-- The result agrees with the exact value modulo `2 ^ w`. -/
theorem unsigned_modEq {n : Nat} (h : unsigned checks w x = some n) :
    (n : Int) ≡ x [ZMOD 2 ^ w] := by
  have hpos : (0 : Int) < 2 ^ w := by positivity
  rcases unsigned_cases h with ⟨_, hn⟩ | ⟨_, _, rfl⟩
  · rw [hn]
  · rw [Int.toNat_of_nonneg (Int.emod_nonneg x hpos.ne')]
    exact Int.mod_modEq x _

/-- A wrapped result never exceeds an exact value that is not negative. -/
theorem unsigned_le {n : Nat} (h : unsigned checks w x = some n) (h0 : 0 ≤ x) : (n : Int) ≤ x := by
  rcases unsigned_cases h with ⟨_, hn⟩ | ⟨_, _, rfl⟩
  · exact hn.le
  · rw [Int.toNat_of_nonneg (Int.emod_nonneg x (by positivity))]
    have hq : 0 ≤ 2 ^ w * (x / 2 ^ w) := mul_nonneg (by positivity) (Int.ediv_nonneg h0 (by positivity))
    have := Int.emod_add_mul_ediv x (2 ^ w)
    omega

/-- Without checks the result is the remainder. -/
theorem unsigned_unchecked : unsigned false w x = some (x % 2 ^ w).toNat := by
  unfold unsigned
  split
  · next h => rw [Int.emod_eq_of_lt h.1 h.2]
  · rfl

/-- **Sums, one step at a time**: of numbers that are not negative, a sum that is brought back
into the range before the next number is added comes out as the whole sum brought back once. -/
theorem unsigned_bind_add (h0 : 0 ≤ x) (hy : 0 ≤ y) :
    ((unsigned checks w x).bind fun n => unsigned checks w (n + y)) =
      unsigned checks w (x + y) := by
  cases checks with
  | true =>
    by_cases hx : InNat w x
    · rw [unsigned_of_inNat hx, Option.bind_some, Int.toNat_of_nonneg h0]
    · have hsum : ¬ InNat w (x + y) := fun h => hx ⟨h0, by have := h.2; omega⟩
      unfold unsigned
      rw [if_neg hx, if_neg hsum]
      rfl
  | false =>
    have hmod : 0 ≤ x % 2 ^ w := Int.emod_nonneg x (by positivity)
    rw [unsigned_unchecked, Option.bind_some, unsigned_unchecked, unsigned_unchecked,
      Int.toNat_of_nonneg hmod, Int.emod_add_emod]

/-- What fits once fits for every smaller number. -/
theorem unsigned_mono {n : Nat} (h : unsigned checks w x = some n) (h0 : 0 ≤ y) (hy : y ≤ x) :
    ∃ k, unsigned checks w y = some k := by
  cases checks with
  | true =>
    rcases unsigned_cases h with ⟨hx, -⟩ | ⟨-, hc, -⟩
    · exact ⟨_, unsigned_of_inNat ⟨h0, by have := hx.2; omega⟩⟩
    · cases hc
  | false => exact ⟨_, unsigned_unchecked⟩

end Checked
