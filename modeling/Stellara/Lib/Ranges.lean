import Stellara.Lib.Store
import Mathlib.Tactic.Ring

/-!
# Weighted ranges

Values that each cover a half-open range `[lower, upper)` of a linear order, with a
weight.  The depth of a store at a point is the weight of the values that cover the point.
Moving the point changes the depth by what is entered less what is left:

    depth s t' = depth s t + entered s t t' - entered s t' t        (depth_move)

A value can also be worth its weight times the growth of a function `g` from a base to the
point, clamped to the range.  While no end of a range is passed, only the values that span
the move change, and all by the same growth:

    value s t' - value s t = spanning s t t' * (g t' - g t)         (value_move)
-/

/-- How a value covers a range, and with which weight. -/
structure Ranges (ν τ M : Type) where
  lower : ν → τ
  upper : ν → τ
  weight : ν → M

namespace Ranges

variable {κ ν τ M : Type} [DecidableEq κ] [LinearOrder τ] [AddCommGroup M]
variable (w : Ranges ν τ M)

/-- The range of the value contains the point. -/
def Covers (v : ν) (t : τ) : Prop := w.lower v ≤ t ∧ t < w.upper v

instance (v : ν) (t : τ) : Decidable (w.Covers v t) := inferInstanceAs (Decidable (_ ∧ _))

/-- What a value contributes at a point. -/
def share (v : ν) (t : τ) : M := if w.Covers v t then w.weight v else 0

/-- The weight of the values that cover the point. -/
def depth (s : Store κ ν) (t : τ) : M := Store.total (fun _ v => w.share v t) s

/-- The weight of the values that cover `t'` and not `t`. -/
def entered (s : Store κ ν) (t t' : τ) : M :=
  Store.total (fun _ v => if w.Covers v t' ∧ ¬ w.Covers v t then w.weight v else 0) s

variable {w}

/-- A value under an unused key adds its share. -/
theorem depth_insert_new {s : Store κ ν} {k : κ} (h : s.lookup k = none) (v : ν) (t : τ) :
    w.depth (s.insert k v) t = w.depth s t + w.share v t := by
  unfold depth
  rw [Store.total_insert, Store.old_of_lookup_none h, sub_zero]

/-- A value that is written again moves the depth by the difference of the shares. -/
theorem depth_insert_old {s : Store κ ν} {k : κ} {v : ν} (h : s.lookup k = some v) (v' : ν) (t : τ) :
    w.depth (s.insert k v') t = w.depth s t - w.share v t + w.share v' t := by
  unfold depth
  rw [Store.total_insert, Store.old_of_lookup h]

theorem depth_erase {s : Store κ ν} {k : κ} {v : ν} (h : s.lookup k = some v) (t : τ) :
    w.depth (s.erase k) t = w.depth s t - w.share v t := by
  unfold depth
  rw [Store.total_erase, Store.old_of_lookup h]

/-- **Moving the point.** -/
theorem depth_move (s : Store κ ν) (t t' : τ) :
    w.depth s t' = w.depth s t + w.entered s t t' - w.entered s t' t := by
  have h : w.depth s t' + w.entered s t' t = w.depth s t + w.entered s t t' := by
    unfold depth entered
    rw [← Store.total_add, ← Store.total_add]
    apply Store.total_congr
    intro k v _
    by_cases h : w.Covers v t <;> by_cases h' : w.Covers v t' <;> simp [share, h, h']
  exact eq_sub_of_add_eq h

omit [AddCommGroup M] in
/-! ## Worth -/

section Value

variable {R : Type} [CommRing R] (w : Ranges ν τ R)

/-- The point, moved into the range of the value. -/
def clamp (v : ν) (t : τ) : τ := min (max t (w.lower v)) (w.upper v)

/-- The range of the value holds both points. -/
def Spans (v : ν) (t t' : τ) : Prop := w.lower v ≤ min t t' ∧ max t t' ≤ w.upper v

instance (v : ν) (t t' : τ) : Decidable (w.Spans v t t') := inferInstanceAs (Decidable (_ ∧ _))

/-- The weight of the values that span the move. -/
def spanning (s : Store κ ν) (t t' : τ) : R :=
  Store.total (fun _ v => if w.Spans v t t' then w.weight v else 0) s

/-- What the values are worth at a point. -/
def value (g : τ → R) (base : ν → R) (s : Store κ ν) (t : τ) : R :=
  Store.total (fun _ v => w.weight v * (g (w.clamp v t) - base v)) s

/-- The end of a range lies strictly between the two points. -/
def Inside (t t' b : τ) : Prop := min t t' < b ∧ b < max t t'

instance (t t' b : τ) : Decidable (Inside t t' b) := inferInstanceAs (Decidable (_ ∧ _))

variable {w}

omit [CommRing R] in
theorem clamp_of_spans {v : ν} {t t' : τ} (h : w.Spans v t t') :
    w.clamp v t = t ∧ w.clamp v t' = t' := by
  obtain ⟨hl, hu⟩ := h
  obtain ⟨hl, hl'⟩ := le_min_iff.mp hl
  obtain ⟨hu, hu'⟩ := max_le_iff.mp hu
  unfold clamp
  rw [max_eq_left hl, max_eq_left hl', min_eq_left hu, min_eq_left hu']
  exact ⟨rfl, rfl⟩

omit [CommRing R] in
/-- A range that does not span the move and has no end inside it lies beyond it. -/
theorem clamp_of_not_spans {v : ν} {t t' : τ} (h : ¬ w.Spans v t t')
    (hl : ¬ Inside t t' (w.lower v)) (hu : ¬ Inside t t' (w.upper v)) :
    w.clamp v t = w.clamp v t' := by
  unfold clamp
  by_cases hlow : w.lower v ≤ min t t'
  · have hup : w.upper v ≤ min t t' :=
      not_lt.mp fun hlt => hu ⟨hlt, not_le.mp fun hle => h ⟨hlow, hle⟩⟩
    obtain ⟨ht, ht'⟩ := le_min_iff.mp hup
    rw [min_eq_right (ht.trans (le_max_left _ _)), min_eq_right (ht'.trans (le_max_left _ _))]
  · have hge : max t t' ≤ w.lower v := not_lt.mp fun hlt => hl ⟨not_le.mp hlow, hlt⟩
    obtain ⟨ht, ht'⟩ := max_le_iff.mp hge
    rw [max_eq_right ht, max_eq_right ht']

/-- **Moving the point inside the ranges.** -/
theorem value_move {g : τ → R} {base : ν → R} {s : Store κ ν} {t t' : τ}
    (h : ∀ k v, s.lookup k = some v → w.weight v ≠ 0 →
      ¬ Inside t t' (w.lower v) ∧ ¬ Inside t t' (w.upper v)) :
    w.value g base s t' - w.value g base s t = w.spanning s t t' * (g t' - g t) := by
  have hsum : w.value g base s t' = w.value g base s t + w.spanning s t t' * (g t' - g t) := by
    unfold value spanning
    rw [← Store.total_mul, ← Store.total_add]
    apply Store.total_congr
    intro k v hv
    by_cases h0 : w.weight v = 0
    · simp [h0]
    by_cases hs : w.Spans v t t'
    · obtain ⟨h1, h2⟩ := clamp_of_spans hs
      rw [if_pos hs, h1, h2]
      ring
    · obtain ⟨hl, hu⟩ := h k v hv h0
      rw [if_neg hs, clamp_of_not_spans hs hl hu]
      ring
  rw [hsum]
  ring

end Value

end Ranges
