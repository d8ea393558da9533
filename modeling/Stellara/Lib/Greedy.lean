import Mathlib.Data.List.Sort

/-!
# Greedy allocation

A demand is served by suppliers in the order of a list, each delivering what it has until the
demand is met (`allocate`).

* `allocate_exhausts`: in a sorted list, a supplier delivers only when everyone who comes
  strictly before has delivered everything.
* `insertionSort_eq_cons`: taking the least element off a list again and again is sorting it, so
  an allocator that looks for the best supplier each time serves the sorted list.
-/

namespace Greedy

variable {α : Type} {supply : α → Int} {demand : Int} {l : List α} {a b : α} {x : Int}

/-- What each supplier delivers until the demand is met. -/
def allocate (supply : α → Int) : Int → List α → List (α × Int)
  | _, [] => []
  | demand, a :: l =>
    if demand ≤ 0 then []
    else (a, min demand (supply a)) :: allocate supply (demand - min demand (supply a)) l

theorem allocate_of_met (h : demand ≤ 0) : allocate supply demand l = [] := by
  cases l with
  | nil => rfl
  | cons a l => exact if_pos h

theorem allocate_cons (h : 0 < demand) : allocate supply demand (a :: l) =
    (a, min demand (supply a)) :: allocate supply (demand - min demand (supply a)) l :=
  if_neg (by omega)

theorem mem_of_allocate (h : (a, x) ∈ allocate supply demand l) : a ∈ l := by
  induction l generalizing demand with
  | nil => cases h
  | cons c l ih =>
    by_cases hd : demand ≤ 0
    · rw [allocate_of_met hd] at h
      cases h
    · rw [allocate_cons (by omega)] at h
      rcases List.mem_cons.mp h with heq | h
      · exact List.mem_cons.mpr (.inl (Prod.mk.inj heq).1)
      · exact List.mem_cons_of_mem _ (ih h)

/-- **Priority**: whoever delivers comes after suppliers that have delivered everything. -/
theorem allocate_exhausts {r : α → α → Prop} (hsorted : l.Pairwise r)
    (h : (a, x) ∈ allocate supply demand l) (hb : b ∈ l) (hne : b ≠ a) (hnot : ¬ r a b) :
    (b, supply b) ∈ allocate supply demand l := by
  induction l generalizing demand with
  | nil => cases h
  | cons c l ih =>
    rw [List.pairwise_cons] at hsorted
    by_cases hd : demand ≤ 0
    · rw [allocate_of_met hd] at h
      cases h
    · rw [allocate_cons (by omega)] at h ⊢
      rcases List.mem_cons.mp h with heq | h
      · -- the first one delivers, so `b` comes after it
        obtain ⟨rfl, -⟩ := Prod.mk.inj heq
        have hin := (List.mem_cons.mp hb).resolve_left hne
        exact absurd (hsorted.1 b hin) hnot
      · -- something is left for the others, so the first one has delivered everything
        have hleft : 0 < demand - min demand (supply c) := by
          by_contra hmet
          rw [allocate_of_met (by omega)] at h
          cases h
        rcases List.mem_cons.mp hb with rfl | hb
        · have hall : min demand (supply b) = supply b := by omega
          rw [hall]
          exact List.mem_cons_self
        · exact List.mem_cons_of_mem _ (ih hsorted.2 h hb)

/-- **Selection is sorting**: the least element heads the sorted list, and the others, in
whatever order they are found, make the rest. -/
theorem insertionSort_eq_cons {r : α → α → Prop} [DecidableRel r] [Std.Total r] [IsTrans α r]
    {k : List α} (hanti : ∀ a ∈ l, ∀ b ∈ l, r a b → r b a → a = b) (hnodup : l.Nodup)
    (hnodup' : k.Nodup) (ha : a ∈ l) (hleast : ∀ b ∈ l, r a b)
    (hrest : ∀ b, b ∈ k ↔ b ∈ l ∧ b ≠ a) : l.insertionSort r = a :: k.insertionSort r := by
  have hmem : ∀ b, b ∈ a :: k.insertionSort r ↔ b ∈ l := by
    intro b
    rw [List.mem_cons, List.mem_insertionSort, hrest]
    constructor
    · rintro (rfl | h)
      · exact ha
      · exact h.1
    · intro hb
      by_cases heq : b = a
      · exact .inl heq
      · exact .inr ⟨hb, heq⟩
  have hperm : (l.insertionSort r).Perm (a :: k.insertionSort r) := by
    refine (List.perm_ext_iff_of_nodup ?_ ?_).mpr fun b => ?_
    · exact (List.perm_insertionSort r l).nodup_iff.mpr hnodup
    · refine List.nodup_cons.mpr ⟨fun h => ?_, (List.perm_insertionSort r k).nodup_iff.mpr hnodup'⟩
      exact ((hrest a).mp ((List.mem_insertionSort r).mp h)).2 rfl
    · rw [hmem, List.mem_insertionSort]
  refine hperm.eq_of_pairwise (fun b c hb hc => ?_) (List.pairwise_insertionSort r l) ?_
  · exact hanti b ((List.mem_insertionSort r).mp hb) c ((hmem c).mp hc)
  · refine List.pairwise_cons.mpr ⟨fun b hb => ?_, List.pairwise_insertionSort r k⟩
    exact hleast b ((hrest b).mp ((List.mem_insertionSort r).mp hb)).1

end Greedy
