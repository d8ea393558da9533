import Mathlib.Logic.Relation
import Mathlib.Data.Option.Basic

/-!
# Walking up a parent function

`next : α → Option α` sends a node to its parent, if it has one.  `search p next n a`
looks for a node with `p` among `a` and its ancestors, visits at most `n` of them and
gives up (`none`) when it would have to visit one more.  The parent function may have
cycles; the search never follows it for longer than `n` steps.

    search p next n a = some true   →  an ancestor of `a` has `p`       (reaches_of_search)
    search p next n a = some false  →  no ancestor of `a` has `p`       (not_reaches_of_search)
    search p next n a = none        ↔  `a` has `n` proper ancestors and none of the first `n`
                                       nodes has `p`                    (search_eq_none_iff)
-/

namespace Ancestry

variable {α : Type} {p : α → Bool} {next : α → Option α}

/-- The ancestor `k` steps above `a`. -/
def up (next : α → Option α) : Nat → α → Option α
  | 0, a => some a
  | k + 1, a => (next a).bind (up next k)

/-- Some node with `p` is reached from `a` along parents, `a` itself included. -/
def Reaches (p : α → Bool) (next : α → Option α) (a : α) : Prop :=
  ∃ b, Relation.ReflTransGen (fun x y => next x = some y) a b ∧ p b = true

/-- Look for a node with `p`, visiting at most `n` nodes. -/
def search (p : α → Bool) (next : α → Option α) : Nat → α → Option Bool
  | 0, _ => none
  | n + 1, a =>
    if p a then some true
    else
      match next a with
      | some b => search p next n b
      | none => some false

/-- The search gives up: `n` proper ancestors, and the first `n` nodes are without `p`. -/
def TooLong (p : α → Bool) (next : α → Option α) (n : Nat) (a : α) : Prop :=
  (∃ b, up next n a = some b) ∧ ∀ k < n, ∀ b, up next k a = some b → p b = false

theorem reaches_self {a : α} (h : p a = true) : Reaches p next a := ⟨a, .refl, h⟩

theorem Reaches.step {a b : α} (hab : next a = some b) (h : Reaches p next b) :
    Reaches p next a := by
  obtain ⟨c, hc, hp⟩ := h
  exact ⟨c, .head hab hc, hp⟩

/-- Without `p` at the node itself the parent decides. -/
theorem reaches_iff_parent {a : α} (ha : p a = false) :
    Reaches p next a ↔ ∃ b, next a = some b ∧ Reaches p next b := by
  constructor
  · rintro ⟨c, hc, hp⟩
    rcases Relation.ReflTransGen.cases_head hc with rfl | ⟨b, hab, hbc⟩
    · rw [ha] at hp; cases hp
    · exact ⟨b, hab, c, hbc, hp⟩
  · rintro ⟨b, hab, hb⟩
    exact hb.step hab

/-- **What the search answers**, by induction on the number of nodes left. -/
theorem search_spec (n : Nat) (a : α) :
    (search p next n a = some true → Reaches p next a) ∧
    (search p next n a = some false → ¬ Reaches p next a) := by
  induction n generalizing a with
  | zero => simp [search]
  | succ n ih =>
    by_cases ha : p a = true
    · simp [search, ha, reaches_self ha]
    · have ha' : p a = false := by simpa using ha
      rw [reaches_iff_parent ha']
      cases hb : next a with
      | none => simp [search, ha', hb]
      | some b => simpa [search, ha', hb] using ih b

theorem reaches_of_search {n : Nat} {a : α} (h : search p next n a = some true) :
    Reaches p next a := (search_spec n a).1 h

theorem not_reaches_of_search {n : Nat} {a : α} (h : search p next n a = some false) :
    ¬ Reaches p next a := (search_spec n a).2 h

theorem tooLong_succ_iff {n : Nat} {a : α} :
    TooLong p next (n + 1) a ↔ p a = false ∧ ∃ b, next a = some b ∧ TooLong p next n b := by
  unfold TooLong
  constructor
  · rintro ⟨⟨c, hc⟩, hall⟩
    have ha := hall 0 (by omega) a rfl
    cases hb : next a with
    | none => simp [up, hb] at hc
    | some b =>
      refine ⟨ha, b, rfl, ⟨c, by simpa [up, hb] using hc⟩, ?_⟩
      intro k hk x hx
      exact hall (k + 1) (by omega) x (by simpa [up, hb] using hx)
  · rintro ⟨ha, b, hb, ⟨c, hc⟩, hall⟩
    refine ⟨⟨c, by simpa [up, hb] using hc⟩, ?_⟩
    intro k hk x hx
    cases k with
    | zero => cases hx; exact ha
    | succ k => exact hall k (by omega) x (by simpa [up, hb] using hx)

/-- **When the search gives up.** -/
theorem search_eq_none_iff (n : Nat) (a : α) :
    search p next n a = none ↔ TooLong p next n a := by
  induction n generalizing a with
  | zero => simp [search, TooLong, up]
  | succ n ih =>
    rw [tooLong_succ_iff]
    by_cases ha : p a = true
    · simp [search, ha]
    · have ha' : p a = false := by simpa using ha
      cases hb : next a with
      | none => simp [search, ha', hb]
      | some b => simpa [search, ha', hb] using ih b

end Ancestry
