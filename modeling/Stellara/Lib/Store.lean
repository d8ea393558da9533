import Mathlib.Data.List.AList
import Mathlib.Algebra.BigOperators.Group.List.Basic
import Mathlib.Algebra.BigOperators.Ring.List
import Mathlib.Algebra.Order.BigOperators.Group.List
import Mathlib.Algebra.Order.Group.Unbundled.Basic
import Mathlib.Tactic.Abel
import Mathlib.Tactic.Zify

/-!
# Keyed storage and sums over it

A key-value store is Mathlib's `AList`: a finite list of entries no two of which have
the same key.  Reading, writing and removing a key are `AList.lookup`, `AList.insert`
and `AList.erase`.  This file adds the total of a quantity over all entries and how
one write moves it:

    total f (s.insert k v) = total f s - old f s k + f k v          (total_insert)
    total f (s.erase k)    = total f s - old f s k                  (total_erase)

where `old f s k` is what the entry at `k` contributed before.  `count p s` is how many
entries meet `p`, which is a total of ones.
-/

/-- A finite map from keys to values. -/
abbrev Store (κ ν : Type) : Type := AList fun _ : κ => ν

namespace Store

variable {κ ν : Type} [DecidableEq κ]

/-- Reading after a write, as one equation. -/
theorem lookup_insert_eq (s : Store κ ν) (k k' : κ) (v : ν) :
    (s.insert k v).lookup k' = if k' = k then some v else s.lookup k' := by
  by_cases h : k' = k
  · subst h; rw [if_pos rfl, AList.lookup_insert]
  · rw [if_neg h, AList.lookup_insert_ne h]

/-- Reading after a removal, as one equation. -/
theorem lookup_erase_eq (s : Store κ ν) (k k' : κ) :
    (s.erase k).lookup k' = if k' = k then none else s.lookup k' := by
  by_cases h : k' = k
  · subst h; rw [if_pos rfl, AList.lookup_erase]
  · rw [if_neg h, AList.lookup_erase_ne h]

/-- Nothing is stored in the empty store. -/
theorem lookup_empty_ne {k : κ} {v : ν} : (∅ : Store κ ν).lookup k ≠ some v := by
  rw [AList.lookup_empty]
  exact nofun

/-- A condition on what is stored at a key, if something is, can be checked. -/
instance decidableForallSome {α : Type} (o : Option α) (P : α → Prop) [DecidablePred P] :
    Decidable (∀ a, o = some a → P a) :=
  match o with
  | none => isTrue (by intro a h; cases h)
  | some a => decidable_of_iff (P a) ⟨fun h _ hb => Option.some.inj hb ▸ h, fun h => h a rfl⟩

/-! ## Totals -/

section Total

variable {M : Type} [AddCommGroup M]

/-- The sum of `f` over the entries of `s`. -/
def total (f : κ → ν → M) (s : Store κ ν) : M :=
  (s.entries.map fun e => f e.1 e.2).sum

/-- What the entry at `k` contributes to `total f s` (nothing when there is none). -/
def old (f : κ → ν → M) (s : Store κ ν) (k : κ) : M :=
  ((s.lookup k).map (f k)).getD 0

omit [DecidableEq κ] in
@[simp] theorem total_empty (f : κ → ν → M) : total f (∅ : Store κ ν) = 0 := rfl

theorem old_of_lookup {f : κ → ν → M} {s : Store κ ν} {k : κ} {v : ν}
    (h : s.lookup k = some v) : old f s k = f k v := by
  simp [old, h]

theorem old_of_lookup_none {f : κ → ν → M} {s : Store κ ν} {k : κ}
    (h : s.lookup k = none) : old f s k = 0 := by
  simp [old, h]

/-- Taking the entry at `k` out of a list of entries with distinct keys. -/
theorem sum_kerase (f : κ → ν → M) (k : κ) (l : List (Sigma fun _ : κ => ν))
    (hl : l.NodupKeys) :
    ((l.kerase k).map fun e => f e.1 e.2).sum + ((l.dlookup k).map (f k)).getD 0 =
      (l.map fun e => f e.1 e.2).sum := by
  induction l with
  | nil => simp
  | cons e l ih =>
    obtain ⟨k', v⟩ := e
    by_cases h : k = k'
    · subst h
      have hd : List.dlookup k ((⟨k, v⟩ : Sigma fun _ : κ => ν) :: l) = some v :=
        List.dlookup_cons_eq l k v
      have he : List.kerase k ((⟨k, v⟩ : Sigma fun _ : κ => ν) :: l) = l := List.kerase_cons_eq rfl
      rw [hd, he, List.map_cons, List.sum_cons, add_comm]
      rfl
    · have hd : List.dlookup k ((⟨k', v⟩ : Sigma fun _ : κ => ν) :: l) = List.dlookup k l :=
        List.dlookup_cons_ne l ⟨k', v⟩ h
      rw [hd, List.kerase_cons_ne h, List.map_cons, List.map_cons, List.sum_cons, List.sum_cons,
        add_assoc, ih (List.nodupKeys_cons.mp hl).2]

theorem total_erase (f : κ → ν → M) (s : Store κ ν) (k : κ) :
    total f (s.erase k) = total f s - old f s k := by
  have h := sum_kerase f k s.entries s.nodupKeys
  exact eq_sub_of_add_eq h

theorem total_insert (f : κ → ν → M) (s : Store κ ν) (k : κ) (v : ν) :
    total f (s.insert k v) = total f s - old f s k + f k v := by
  have h : total f (s.insert k v) = f k v + total f (s.erase k) := by
    unfold total
    rw [AList.entries_insert, List.map_cons, List.sum_cons]
    rfl
  rw [h, total_erase, add_comm]

theorem total_congr {f g : κ → ν → M} {s : Store κ ν}
    (h : ∀ k v, s.lookup k = some v → f k v = g k v) : total f s = total g s := by
  unfold total
  congr 1
  apply List.map_congr_left
  rintro ⟨k, v⟩ he
  exact h k v (AList.mem_lookup_iff.2 he)

omit [DecidableEq κ] in
theorem total_add (f g : κ → ν → M) (s : Store κ ν) :
    total (fun k v => f k v + g k v) s = total f s + total g s := by
  unfold total
  exact List.sum_map_add

theorem total_zero {f : κ → ν → M} {s : Store κ ν}
    (h : ∀ k v, s.lookup k = some v → f k v = 0) : total f s = 0 := by
  rw [total_congr (g := fun _ _ => 0) h]
  simp [total]

end Total

omit [DecidableEq κ] in
theorem total_mul {R : Type} [Ring R] (f : κ → ν → R) (s : Store κ ν) (c : R) :
    total (fun k v => f k v * c) s = total f s * c :=
  List.sum_map_mul_right ..

/-! ## Totals of non-negative quantities -/

section Ordered

variable {M : Type} [AddCommGroup M] [PartialOrder M] [IsOrderedAddMonoid M]

theorem total_nonneg {f : κ → ν → M} {s : Store κ ν}
    (h : ∀ k v, s.lookup k = some v → 0 ≤ f k v) : 0 ≤ total f s := by
  apply List.sum_nonneg
  intro x hx
  obtain ⟨⟨k, v⟩, he, rfl⟩ := List.mem_map.mp hx
  exact h k v (AList.mem_lookup_iff.2 he)

/-- One entry is at most the total when no entry is negative. -/
theorem le_total {f : κ → ν → M} {s : Store κ ν}
    (h : ∀ k v, s.lookup k = some v → 0 ≤ f k v) {k : κ} {v : ν} (hk : s.lookup k = some v) :
    f k v ≤ total f s := by
  have hrest : 0 ≤ total f (s.erase k) := by
    apply total_nonneg
    intro k' v' hv
    rw [lookup_erase_eq] at hv
    split at hv
    · cases hv
    · exact h k' v' hv
  rw [total_erase, old_of_lookup hk] at hrest
  exact sub_nonneg.mp hrest

end Ordered

/-! ## Counting entries -/

section Count

/-- How many entries of `s` meet `p`. -/
def count (p : κ → ν → Bool) (s : Store κ ν) : Nat := s.entries.countP fun e => p e.1 e.2

omit [DecidableEq κ] in
@[simp] theorem count_empty (p : κ → ν → Bool) : count p (∅ : Store κ ν) = 0 := rfl

omit [DecidableEq κ] in
theorem count_eq_total (p : κ → ν → Bool) (s : Store κ ν) :
    (count p s : Int) = total (fun k v => if p k v then (1 : Int) else 0) s := by
  unfold count total
  induction s.entries with
  | nil => rfl
  | cons e l ih =>
    rw [List.countP_cons, List.map_cons, List.sum_cons, ← ih]
    push_cast
    rw [add_comm]

/-- Writing an entry that was not there. -/
theorem count_insert_new {s : Store κ ν} {k : κ} (p : κ → ν → Bool) (v : ν)
    (h : s.lookup k = none) : count p (s.insert k v) = count p s + if p k v then 1 else 0 := by
  have ht := total_insert (fun k v => if p k v then (1 : Int) else 0) s k v
  rw [old_of_lookup_none h, ← count_eq_total, ← count_eq_total] at ht
  zify
  rw [ht, sub_zero]

/-- Replacing an entry. -/
theorem count_insert_over {s : Store κ ν} {k : κ} {v : ν} (p : κ → ν → Bool) (v' : ν)
    (h : s.lookup k = some v) :
    count p (s.insert k v') + (if p k v then 1 else 0) = count p s + if p k v' then 1 else 0 := by
  have ht := total_insert (fun k v => if p k v then (1 : Int) else 0) s k v'
  rw [old_of_lookup h, ← count_eq_total, ← count_eq_total] at ht
  zify
  rw [ht]
  abel

theorem count_pos {p : κ → ν → Bool} {s : Store κ ν} {k : κ} {v : ν} (h : s.lookup k = some v)
    (hp : p k v = true) : 0 < count p s :=
  List.countP_pos_iff.mpr ⟨⟨k, v⟩, AList.mem_lookup_iff.mp h, hp⟩

end Count

end Store
