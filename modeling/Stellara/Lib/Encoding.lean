import Mathlib.Data.List.Basic

/-!
# Codes that delimit themselves

A value is written as a list of symbols, and what is written after it does not change how it is
read:

    enc a ++ u = enc b ++ v  →  a = b ∧ u = v                              (SelfDelimiting)

so a record written field by field determines its fields.
-/

variable {α β : Type}

/-- The code of a value shows where it ends. -/
def SelfDelimiting (enc : α → List β) : Prop :=
  ∀ a b u v, enc a ++ u = enc b ++ v → a = b ∧ u = v

theorem SelfDelimiting.injective {enc : α → List β} (h : SelfDelimiting enc) :
    Function.Injective enc := by
  intro a b hab
  exact (h a b [] [] (by rw [hab])).1

/-- Texts of such codes. -/
theorem SelfDelimiting.flatMap_injective {enc : α → List β} (h : SelfDelimiting enc)
    (hne : ∀ a, enc a ≠ []) : Function.Injective (List.flatMap enc) := by
  intro xs ys hxy
  induction xs generalizing ys with
  | nil =>
    cases ys with
    | nil => rfl
    | cons y ys => exact absurd (List.append_eq_nil_iff.mp hxy.symm).1 (hne y)
  | cons x xs ih =>
    cases ys with
    | nil => exact absurd (List.append_eq_nil_iff.mp hxy).1 (hne x)
    | cons y ys =>
      obtain ⟨rfl, hrest⟩ := h x y _ _ hxy
      rw [ih hrest]

/-- A number in unary, with a stop. -/
theorem replicate_stop_inj {one stop : β} (hne : one ≠ stop) {u v : List β} :
    ∀ {m n : Nat}, List.replicate m one ++ stop :: u = List.replicate n one ++ stop :: v →
      m = n ∧ u = v
  | 0, 0, h => ⟨rfl, (List.cons.inj h).2⟩
  | 0, _ + 1, h => absurd (List.cons.inj h).1.symm hne
  | _ + 1, 0, h => absurd (List.cons.inj h).1 hne
  | m + 1, n + 1, h => by
    obtain ⟨hmn, huv⟩ := replicate_stop_inj hne (List.cons.inj h).2
    exact ⟨congrArg Nat.succ hmn, huv⟩
