import Mathlib.Algebra.BigOperators.Group.List.Basic
import Mathlib.Algebra.Order.BigOperators.Group.List
import Mathlib.Algebra.Order.Group.Int
import Mathlib.Order.Basic
import Mathlib.Tactic.Abel
import Mathlib.Tactic.Common

/-!
# Sums over ranges, from counters at their ends

A total grows while a position moves over a linear order; every growth belongs to the point at
which the position was.  What belongs to a range is not stored: each boundary has a counter of
the growth on its far side, seen from the position, and a move that passes a boundary flips
its counter.

    below (grow m x) t = below m t + (if m.current < t then x else 0)    (below_grow)
    below (cross m b c) t = below m t                                    (below_cross)

So `inside lower upper` is the sum of the growths that belong to the range (`Records.inside_eq`),
when a boundary is flipped against the total that holds at the moment it is passed.
-/

/-- A total, the part of it on the far side of each boundary, and the position. -/
structure RangeMeter (τ M : Type) where
  total : M
  outside : τ → M
  current : τ

namespace RangeMeter

variable {τ M : Type} [LinearOrder τ] [AddCommGroup M]

/-- The growth at points below the boundary. -/
def below (m : RangeMeter τ M) (t : τ) : M :=
  if t ≤ m.current then m.outside t else m.total - m.outside t

/-- The growth at the points of `[lower, upper)`. -/
def inside (m : RangeMeter τ M) (lower upper : τ) : M := m.below upper - m.below lower

/-- The total grows at the position. -/
def grow (m : RangeMeter τ M) (x : M) : RangeMeter τ M := { m with total := m.total + x }

/-- The position moves to `c` and passes the boundary `b`. -/
def cross (m : RangeMeter τ M) (b c : τ) : RangeMeter τ M :=
  { m with outside := Function.update m.outside b (m.total - m.outside b), current := c }

/-- The sum of the growths that belong to `[lower, upper)`. -/
def sumIn (lower upper : τ) (history : List (τ × M)) : M :=
  ((history.filter fun g => lower ≤ g.1 ∧ g.1 < upper).map Prod.snd).sum

/-- The sum of the growths below a boundary. -/
def sumBelow (t : τ) (history : List (τ × M)) : M :=
  ((history.filter fun g => g.1 < t).map Prod.snd).sum

/-- The meter has recorded the growths of the history, newest first. -/
structure Records (m : RangeMeter τ M) (history : List (τ × M)) : Prop where
  total : m.total = (history.map Prod.snd).sum
  below : ∀ t, m.below t = sumBelow t history

variable {m : RangeMeter τ M} {history : List (τ × M)}

theorem below_grow (m : RangeMeter τ M) (x : M) (t : τ) :
    (m.grow x).below t = m.below t + if m.current < t then x else 0 := by
  unfold below grow
  by_cases h : t ≤ m.current
  · rw [if_pos h, if_pos h, if_neg (not_lt.mpr h), add_zero]
  · rw [if_neg h, if_neg h, if_pos (not_le.mp h)]
    exact (sub_add_eq_add_sub _ _ _).symm

/-- Passing exactly the boundary that is flipped keeps what is below every boundary. -/
theorem below_cross {b c : τ} (hb : b ≤ c ↔ ¬ b ≤ m.current)
    (hother : ∀ t, t ≠ b → (t ≤ c ↔ t ≤ m.current)) (t : τ) :
    (m.cross b c).below t = m.below t := by
  unfold below cross
  by_cases ht : t = b
  · subst ht
    show (if t ≤ c then Function.update m.outside t _ t else
      m.total - Function.update m.outside t _ t) = _
    rw [Function.update_self]
    by_cases h : t ≤ m.current
    · rw [if_pos h, if_neg (fun hc => hb.mp hc h)]
      abel
    · rw [if_neg h, if_pos (hb.mpr h)]
  · show (if t ≤ c then Function.update m.outside b _ t else
      m.total - Function.update m.outside b _ t) = _
    rw [Function.update_of_ne ht]
    by_cases h : t ≤ m.current
    · rw [if_pos h, if_pos ((hother t ht).mpr h)]
    · rw [if_neg h, if_neg (fun hc => h ((hother t ht).mp hc))]

/-! ## Histories -/

@[simp] theorem sumIn_nil (lower upper : τ) : sumIn lower upper ([] : List (τ × M)) = 0 := rfl

theorem sumBelow_cons (t : τ) (g : τ × M) (history : List (τ × M)) :
    sumBelow t (g :: history) = sumBelow t history + if g.1 < t then g.2 else 0 := by
  unfold sumBelow
  rw [List.filter_cons]
  by_cases h : g.1 < t
  · rw [if_pos (decide_eq_true h), if_pos h, List.map_cons, List.sum_cons, add_comm]
  · rw [if_neg (by simpa using h), if_neg h, add_zero]

theorem sumIn_cons (lower upper : τ) (g : τ × M) (history : List (τ × M)) :
    sumIn lower upper (g :: history) =
      (if lower ≤ g.1 ∧ g.1 < upper then g.2 else 0) + sumIn lower upper history := by
  unfold sumIn
  rw [List.filter_cons]
  by_cases h : lower ≤ g.1 ∧ g.1 < upper
  · rw [if_pos (decide_eq_true h), if_pos h, List.map_cons, List.sum_cons]
  · rw [if_neg (by simpa using h), if_neg h, zero_add]

theorem sumIn_append (lower upper : τ) (h₁ h₂ : List (τ × M)) :
    sumIn lower upper (h₁ ++ h₂) = sumIn lower upper h₁ + sumIn lower upper h₂ := by
  unfold sumIn
  rw [List.filter_append, List.map_append, List.sum_append]

/-- A range holds what is below its upper end and not below its lower one. -/
theorem sumIn_eq_sub {lower upper : τ} (h : lower ≤ upper) (history : List (τ × M)) :
    sumIn lower upper history = sumBelow upper history - sumBelow lower history := by
  induction history with
  | nil =>
    show (0 : M) = 0 - 0
    abel
  | cons g history ih =>
    rw [sumIn_cons, sumBelow_cons, sumBelow_cons, ih]
    by_cases hl : g.1 < lower
    · rw [if_neg (fun hin => absurd hl (not_lt.mpr hin.1)), if_pos (hl.trans_le h), if_pos hl]
      abel
    · by_cases hu : g.1 < upper
      · rw [if_pos ⟨not_lt.mp hl, hu⟩, if_pos hu, if_neg hl]
        abel
      · rw [if_neg (fun hin => hu hin.2), if_neg hu, if_neg hl]
        abel

/-! ## Recording -/

theorem Records.inside_eq (h : m.Records history) {lower upper : τ} (hle : lower ≤ upper) :
    m.inside lower upper = sumIn lower upper history := by
  unfold inside
  rw [h.below, h.below, sumIn_eq_sub hle]

/-- A meter at which nothing was ever counted. -/
theorem records_nil {m : RangeMeter τ M} (ht : m.total = 0) (ho : ∀ t, m.outside t = 0) :
    m.Records [] where
  total := ht
  below t := by
    unfold RangeMeter.below
    rw [ht, ho, sub_zero, ite_self]
    rfl

theorem Records.grow (h : m.Records history) (x : M) :
    (m.grow x).Records ((m.current, x) :: history) where
  total := by
    show m.total + x = _
    rw [List.map_cons, List.sum_cons, h.total, add_comm]
  below t := by
    rw [below_grow, h.below, sumBelow_cons]

theorem Records.cross (h : m.Records history) {b c : τ} (hb : b ≤ c ↔ ¬ b ≤ m.current)
    (hother : ∀ t, t ≠ b → (t ≤ c ↔ t ≤ m.current)) : (m.cross b c).Records history where
  total := h.total
  below t := by rw [below_cross hb hother, h.below]

section Ordered

variable {history : List (τ × Int)}

/-- What is below a boundary is not negative and at most the total. -/
theorem sumBelow_bounds (hpos : ∀ g ∈ history, 0 ≤ g.2) (t : τ) :
    0 ≤ sumBelow t history ∧ sumBelow t history ≤ (history.map Prod.snd).sum := by
  induction history with
  | nil => exact ⟨le_refl 0, le_refl 0⟩
  | cons g history ih =>
    obtain ⟨h0, hle⟩ := ih fun g hg => hpos g (List.mem_cons_of_mem _ hg)
    have hg := hpos g List.mem_cons_self
    rw [sumBelow_cons, List.map_cons, List.sum_cons]
    split <;> omega

theorem sumIn_nonneg (hpos : ∀ g ∈ history, 0 ≤ g.2) (lower upper : τ) :
    0 ≤ sumIn lower upper history := by
  induction history with
  | nil => exact le_refl 0
  | cons g history ih =>
    have h0 := ih fun g hg => hpos g (List.mem_cons_of_mem _ hg)
    have hg := hpos g List.mem_cons_self
    rw [sumIn_cons]
    split <;> omega

end Ordered

end RangeMeter
