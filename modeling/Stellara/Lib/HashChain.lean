import Mathlib.Data.List.Basic
import Mathlib.Data.List.Forall2
import Mathlib.Data.List.Nodup

/-!
# Chains of digests

Every entry of a chain names the digest of the entry before it.  Where the digests of a chain are
all different, whatever is put together from its entries and is a chain as well is a beginning of it:

    Linked prev next start ys → (start :: ys.map next).Nodup → Linked prev' next' start xs →
      (∀ x ∈ xs, ∃ y ∈ ys, R x y) → ∃ n, List.Forall₂ R xs (ys.take n)          (Linked.beginning)
-/

variable {α β δ : Type}

/-- The first entry names `start`, and each later one the digest of the entry before it. -/
def Linked (prev next : α → δ) : δ → List α → Prop
  | _, [] => True
  | start, x :: rest => prev x = start ∧ Linked prev next (next x) rest

namespace Linked

section Entries

variable {prev next : α → δ} {start : δ} {xs : List α}

/-- What the entry at `i` names. -/
theorem getElem? (h : Linked prev next start xs) {i : Nat} {x : α} (hi : xs[i]? = some x) :
    (start :: xs.map next)[i]? = some (prev x) := by
  induction xs generalizing start i with
  | nil => cases hi
  | cons y rest ih =>
    cases i with
    | zero =>
      cases hi
      rw [List.getElem?_cons_zero, h.1]
    | succ i => exact ih h.2 hi

theorem append_singleton (h : Linked prev next start xs) {x : α}
    (hx : prev x = (xs.getLast?.map next).getD start) : Linked prev next start (xs ++ [x]) := by
  induction xs generalizing start with
  | nil => exact ⟨hx, trivial⟩
  | cons y rest ih =>
    refine ⟨h.1, ih h.2 ?_⟩
    rw [hx]
    cases rest with
    | nil => rfl
    | cons z rest =>
      rw [List.getLast?_cons_cons, List.getLast?_eq_some_getLast (List.cons_ne_nil z rest)]
      rfl

theorem map_iff {f : β → α} {ys : List β} :
    Linked prev next start (ys.map f) ↔
      Linked (fun y => prev (f y)) (fun y => next (f y)) start ys := by
  induction ys generalizing start with
  | nil => exact Iff.rfl
  | cons y rest ih => exact and_congr_right fun _ => ih

end Entries

variable {prev next : β → δ} {prev' next' : α → δ} {start : δ} {xs : List α} {ys : List β}
  {R : α → β → Prop}

theorem drop_of_mem (hys : Linked prev next start ys) (hunique : (start :: ys.map next).Nodup)
    (hR : ∀ x y, R x y → prev' x = prev y ∧ next' x = next y) (hmem : ∀ x ∈ xs, ∃ y ∈ ys, R x y)
    {k : Nat} {d : δ} (hd : (start :: ys.map next)[k]? = some d) (hxs : Linked prev' next' d xs) :
    ∃ n, List.Forall₂ R xs ((ys.drop k).take n) := by
  induction xs generalizing k d with
  | nil => exact ⟨0, .nil⟩
  | cons x rest ih =>
    obtain ⟨y, hy, hxy⟩ := hmem x List.mem_cons_self
    obtain ⟨hprev, hnext⟩ := hR x y hxy
    obtain ⟨i, hi⟩ := List.getElem?_of_mem hy
    -- only one entry names the digest
    have hik : i = k := by
      refine (List.getElem?_inj (List.getElem?_eq_some_iff.mp (hys.getElem? hi)).1 hunique).mp ?_
      rw [hys.getElem? hi, hd, ← hprev, hxs.1]
    subst hik
    obtain ⟨n, hn⟩ := ih (fun x hx => hmem x (List.mem_cons_of_mem _ hx)) (k := i + 1)
      (d := next' x) (by rw [List.getElem?_cons_succ, List.getElem?_map, hi, hnext]; rfl) hxs.2
    refine ⟨n + 1, ?_⟩
    rw [List.drop_eq_getElem_cons (List.getElem?_eq_some_iff.mp hi).1, List.take_succ_cons,
      (List.getElem?_eq_some_iff.mp hi).2]
    exact .cons hxy hn

/-- **A chain of entries of a chain** is a beginning of it. -/
theorem beginning (hys : Linked prev next start ys) (hunique : (start :: ys.map next).Nodup)
    (hR : ∀ x y, R x y → prev' x = prev y ∧ next' x = next y) (hmem : ∀ x ∈ xs, ∃ y ∈ ys, R x y)
    (hxs : Linked prev' next' start xs) : ∃ n, List.Forall₂ R xs (ys.take n) := by
  simpa using drop_of_mem hys hunique hR hmem (k := 0) rfl hxs

end Linked
