import Mathlib.Algebra.Group.Nat.Defs
import Mathlib.Data.List.Forall2
import Mathlib.Data.Nat.Log
import Mathlib.Tactic.Common

/-!
# Merkle trees over a list

A level of the tree is a list; the next one combines neighbours, and an unpaired last node
with itself:

    levelUp [a, b, c] = [node a b, node c c]

`root` goes up until one node is left, `path` collects the siblings on the way of one index,
and `recompute` goes up from a leaf by a path alone.  `node` is free (`Free`) where it is
injective and no leaf is a node.

* `recompute_path`: a path whose every node has a sibling leads to the root.
* `recompute_path_iff`: with a free `node` no other path does.
* `root_eq_iff`: with a free `node` two lists have one root when they are completed to the
  same list.  Completing (`complete`) repeats the last `2 ^ k` entries on each level `k` that
  has an odd number of nodes, and is itself the root of a tree, the one that concatenates
  (`root_append`).
-/

namespace Merkle

variable {α β : Type}

/-! ## Algorithm -/

/-- One level up. -/
def levelUp (node : α → α → α) : List α → List α
  | [] => []
  | [a] => [node a a]
  | a :: b :: rest => node a b :: levelUp node rest

theorem length_levelUp (node : α → α → α) (l : List α) :
    (levelUp node l).length = (l.length + 1) / 2 := by
  induction l using levelUp.induct with
  | case1 => simp [levelUp]
  | case2 a => simp [levelUp]
  | case3 a b rest ih =>
    simp only [levelUp, List.length_cons, ih]
    omega

/-- `while level.len() > 1 { .. }`, then the node that is left. -/
def root (node : α → α → α) (level : List α) : Option α :=
  if 1 < level.length then root node (levelUp node level) else level.head?
termination_by level.length
decreasing_by rw [length_levelUp]; omega

/-- The sibling of a node, where it has one. -/
def sibling (level : List α) (index : Nat) : Option α :=
  if index % 2 = 0 then level[index + 1]? else level[index - 1]?

/-- The siblings met on the way up from `index`. -/
def path (node : α → α → α) (level : List α) (index : Nat) : List α :=
  if 1 < level.length then
    (sibling level index).toList ++ path node (levelUp node level) (index / 2)
  else []
termination_by level.length
decreasing_by rw [length_levelUp]; omega

/-- Up from a leaf: an even node is the left one of its pair. -/
def recompute (node : α → α → α) : α → List α → Nat → α
  | hash, [], _ => hash
  | hash, s :: proof, index =>
    recompute node (if index % 2 = 0 then node hash s else node s hash) proof (index / 2)

/-- On level `k`, where nodes stand for `2 ^ k` entries: repeat what the last node stands for
if their number is odd. -/
def stretch (k : Nat) (l : List α) : List α :=
  if l.length / 2 ^ k % 2 = 1 then l ++ l.drop (l.length - 2 ^ k) else l

/-- The entries that the leaves under the root stand for. -/
def complete (l : List α) : List α :=
  (List.range (Nat.clog 2 l.length)).foldl (fun l k => stretch k l) l

/-- On no level with more than one node is the node above `i` the unpaired last one of `n`
leaves. -/
def HasSiblings (n i : Nat) : Prop :=
  ∀ k, 2 ^ k < n → i / 2 ^ k % 2 = 1 ∨ (i / 2 ^ k + 1) * 2 ^ k < n

/-! ## Completeness of the paths -/

section Paths

variable {node : α → α → α} {l : List α} {i : Nat}

theorem root_levelUp (h : 1 < l.length) : root node l = root node (levelUp node l) := by
  rw [root, if_pos h]

theorem root_of_le (h : l.length ≤ 1) : root node l = l.head? := by
  rw [root, if_neg (by omega)]

theorem path_levelUp (h : 1 < l.length) :
    path node l i = (sibling l i).toList ++ path node (levelUp node l) (i / 2) := by
  rw [path, if_pos h]

theorem path_of_le (h : l.length ≤ 1) : path node l i = [] := by
  rw [path, if_neg (by omega)]

theorem getElem?_levelUp (node : α → α → α) (l : List α) (j : Nat) :
    (levelUp node l)[j]? = l[2 * j]?.map fun a => node a (l[2 * j + 1]?.getD a) := by
  induction l using levelUp.induct generalizing j with
  | case1 => simp [levelUp]
  | case2 a =>
    cases j with
    | zero => rfl
    | succ j => simp [levelUp, show 2 * (j + 1) = 2 * j + 1 + 1 by omega]
  | case3 a b rest ih =>
    cases j with
    | zero => rfl
    | succ j => simp [levelUp, ih, show 2 * (j + 1) = 2 * j + 1 + 1 by omega]

/-- The bottom level and the levels above it. -/
theorem hasSiblings_iff {n : Nat} (h : 1 < n) :
    HasSiblings n i ↔ (i % 2 = 1 ∨ i + 1 < n) ∧ HasSiblings ((n + 1) / 2) (i / 2) := by
  have shift : ∀ k, i / 2 ^ (k + 1) = i / 2 / 2 ^ k := fun k => by
    rw [Nat.div_div_eq_div_mul, Nat.pow_succ']
  constructor
  · intro hs
    refine ⟨by simpa using hs 0 (by simpa using h), fun k hk => ?_⟩
    have := hs (k + 1) (by rw [Nat.pow_succ]; omega)
    rw [shift] at this
    refine this.imp_right fun hlt => ?_
    rw [Nat.pow_succ, ← Nat.mul_assoc] at hlt
    omega
  · rintro ⟨h0, hs⟩ k hk
    cases k with
    | zero => simpa using h0
    | succ k =>
      rw [shift]
      refine (hs k (by rw [Nat.pow_succ] at hk; omega)).imp_right fun hlt => ?_
      rw [Nat.pow_succ, ← Nat.mul_assoc]
      omega

theorem hasSiblings_of_le {n : Nat} (h : n ≤ 1) : HasSiblings n i := by
  intro k hk
  have := Nat.one_le_two_pow (n := k)
  omega

theorem hasSiblings_iff_forall_lt {n : Nat} :
    HasSiblings n i ↔ ∀ k < n, 2 ^ k < n → i / 2 ^ k % 2 = 1 ∨ (i / 2 ^ k + 1) * 2 ^ k < n :=
  ⟨fun h k _ => h k, fun h k hk => h k (Nat.lt_trans Nat.lt_two_pow_self hk) hk⟩

instance (n : Nat) : Decidable (HasSiblings n i) := decidable_of_iff' _ hasSiblings_iff_forall_lt

/-- A node with its sibling gives the node above them. -/
theorem step_eq {d s : α} (hd : l[i]? = some d) (hs : sibling l i = some s) :
    (levelUp node l)[i / 2]? = some (if i % 2 = 0 then node d s else node s d) := by
  rw [getElem?_levelUp]
  unfold sibling at hs
  split at hs
  next he =>
    rw [show 2 * (i / 2) = i by omega, hd, hs, if_pos he]
    rfl
  next he =>
    rw [show 2 * (i / 2) = i - 1 by omega, hs, show i - 1 + 1 = i by omega, hd, if_neg he]
    rfl

theorem sibling_isSome (hi : i < l.length) :
    (sibling l i).isSome ↔ i % 2 = 1 ∨ i + 1 < l.length := by
  unfold sibling
  split
  · simp
    omega
  · simp
    omega

/-- **Completeness**: with a sibling on every level the path leads to the root. -/
theorem recompute_path {d : α} (hd : l[i]? = some d) (hs : HasSiblings l.length i) :
    root node l = some (recompute node d (path node l i) i) := by
  induction l using root.induct node generalizing i d with
  | case1 l hlen ih =>
    have hi : i < l.length := by
      by_contra h
      rw [List.getElem?_eq_none (by omega)] at hd
      cases hd
    obtain ⟨h0, hup⟩ := (hasSiblings_iff hlen).mp hs
    obtain ⟨s, hsib⟩ := Option.isSome_iff_exists.mp ((sibling_isSome hi).mpr h0)
    rw [root_levelUp hlen, path_levelUp hlen, hsib]
    exact ih (step_eq hd hsib) (by rwa [length_levelUp])
  | case2 l hlen =>
    have hi : i = 0 := by
      by_contra h
      rw [List.getElem?_eq_none (by omega)] at hd
      cases hd
    subst hi
    rw [root_of_le (by omega), path_of_le (by omega)]
    simpa [recompute, List.head?_eq_getElem?] using hd

/-- A path has an entry for every level exactly where no node on it is unpaired. -/
theorem length_path (hi : i < l.length) :
    (path node l i).length ≤ Nat.clog 2 l.length ∧
      ((path node l i).length = Nat.clog 2 l.length ↔ HasSiblings l.length i) := by
  induction l using root.induct node generalizing i with
  | case1 l hlen ih =>
    have ih := @ih (i / 2) (by rw [length_levelUp]; omega)
    have hlog : Nat.clog 2 l.length = Nat.clog 2 ((l.length + 1) / 2) + 1 :=
      Nat.clog_of_two_le (by omega) hlen
    rw [length_levelUp] at ih
    have hsib := sibling_isSome hi
    rw [path_levelUp hlen, List.length_append, hlog, hasSiblings_iff hlen, ← ih.2, ← hsib]
    cases sibling l i with
    | none => simp; omega
    | some s => simp; omega
  | case2 l hlen =>
    rw [path_of_le (by omega), Nat.clog_of_right_le_one (by omega)]
    simp [hasSiblings_of_le (show l.length ≤ 1 by omega)]

end Paths

/-! ## Completed lists -/

theorem stretch_map (f : α → β) (k : Nat) (l : List α) :
    stretch k (l.map f) = (stretch k l).map f := by
  unfold stretch
  rw [List.length_map]
  split
  · rw [List.map_append, List.map_drop]
  · rfl

theorem complete_map (f : α → β) (l : List α) : complete (l.map f) = (complete l).map f := by
  unfold complete
  rw [List.length_map]
  induction List.range (Nat.clog 2 l.length) generalizing l with
  | nil => rfl
  | cons k ks ih => rw [List.foldl_cons, List.foldl_cons, stretch_map, ih]

/-- Going up in blocks of equal length repeats the last block of an odd number. -/
theorem flatten_levelUp {w : Nat} {bs : List (List α)} (hw : ∀ b ∈ bs, b.length = w) :
    (levelUp List.append bs).flatten =
      if bs.length % 2 = 1 then bs.flatten ++ bs.flatten.drop (bs.flatten.length - w)
      else bs.flatten := by
  induction bs using levelUp.induct with
  | case1 => rfl
  | case2 b => simp [levelUp, hw b (by simp)]
  | case3 a b rest ih =>
    have ih := ih fun c hc => hw c (by simp [hc])
    simp only [levelUp, List.flatten_cons, List.length_cons, ih]
    by_cases hodd : rest.length % 2 = 1
    · have hle : w ≤ rest.flatten.length := by
        cases rest with
        | nil => simp at hodd
        | cons c rest =>
          have := hw c (by simp)
          simp only [List.flatten_cons, List.length_append]
          omega
      have hdrop : (a ++ (b ++ rest.flatten)).drop ((a ++ (b ++ rest.flatten)).length - w) =
          rest.flatten.drop (rest.flatten.length - w) := by
        rw [← List.append_assoc, List.drop_append, List.drop_eq_nil_of_le, List.nil_append]
        · congr 1
          simp only [List.length_append]
          omega
        · simp only [List.length_append]
          omega
      rw [if_pos hodd, if_pos (by omega), hdrop]
      simp
    · rw [if_neg hodd, if_neg (by omega)]
      simp

theorem length_levelUp_append {w : Nat} {bs : List (List α)} (hw : ∀ b ∈ bs, b.length = w) :
    ∀ b ∈ levelUp List.append bs, b.length = 2 * w := by
  induction bs using levelUp.induct with
  | case1 => intro b hb; cases hb
  | case2 a =>
    intro b hb
    have ha := hw a (by simp)
    simp only [levelUp, List.mem_singleton] at hb
    rw [hb, List.append_eq, List.length_append]
    omega
  | case3 a a' rest ih =>
    intro b hb
    have ha := hw a (by simp)
    have ha' := hw a' (by simp)
    rcases List.mem_cons.mp hb with rfl | hb
    · rw [List.append_eq, List.length_append]
      omega
    · exact ih (fun c hc => hw c (by simp [hc])) b hb

theorem length_flatten_of {w : Nat} {bs : List (List α)} (hw : ∀ b ∈ bs, b.length = w) :
    bs.flatten.length = bs.length * w := by
  induction bs with
  | nil => simp
  | cons b bs ih =>
    rw [List.flatten_cons, List.length_append, ih fun c hc => hw c (by simp [hc]),
      hw b (by simp), List.length_cons, Nat.succ_mul, Nat.add_comm]

/-- One level up is one stretch of the entries. -/
theorem flatten_levelUp_eq_stretch {k : Nat} {bs : List (List α)}
    (hw : ∀ b ∈ bs, b.length = 2 ^ k) :
    (levelUp List.append bs).flatten = stretch k bs.flatten := by
  rw [flatten_levelUp hw, stretch, length_flatten_of hw,
    Nat.mul_div_cancel _ (Nat.two_pow_pos k)]

theorem root_append_blocks {k : Nat} {bs : List (List α)} (hw : ∀ b ∈ bs, b.length = 2 ^ k)
    (hne : bs ≠ []) :
    root List.append bs =
      some ((List.range' k (Nat.clog 2 bs.length)).foldl (fun l k => stretch k l) bs.flatten) := by
  induction bs using root.induct List.append generalizing k with
  | case1 bs hlen ih =>
    have hne' : levelUp List.append bs ≠ [] := by
      intro h
      have := length_levelUp List.append bs
      rw [h, List.length_nil] at this
      omega
    have hw' : ∀ b ∈ levelUp List.append bs, b.length = 2 ^ (k + 1) := by
      rw [Nat.pow_succ']
      exact length_levelUp_append hw
    have hlog : Nat.clog 2 bs.length = Nat.clog 2 ((bs.length + 1) / 2) + 1 :=
      Nat.clog_of_two_le (by omega) hlen
    rw [root_levelUp hlen, ih hw' hne', length_levelUp, flatten_levelUp_eq_stretch hw, hlog,
      List.range'_succ, List.foldl_cons]
  | case2 bs hlen =>
    obtain ⟨b, rfl⟩ : ∃ b, bs = [b] := List.length_eq_one_iff.mp (by
      have := List.length_pos_iff.mpr hne
      omega)
    rw [root_of_le (by simp), List.length_singleton, Nat.clog_of_right_le_one (by omega)]
    simp

/-- **Completing is going up** with lists joined instead of digests combined. -/
theorem root_append {l : List α} (hne : l ≠ []) :
    root List.append (l.map fun a => [a]) = some (complete l) := by
  have hw : ∀ b ∈ l.map fun a => [a], b.length = 2 ^ 0 := by
    intro b hb
    obtain ⟨a, _, rfl⟩ := List.mem_map.mp hb
    rfl
  have hflat : (l.map fun a => [a]).flatten = l := by
    rw [← List.flatMap_def, List.flatMap_singleton']
  rw [root_append_blocks hw (by simpa using hne), List.length_map, hflat, complete,
    List.range_eq_range']

/-! ## Binding -/

/-- `node` is injective and makes no leaf. -/
structure Free (node : α → α → α) (IsLeaf : α → Prop) : Prop where
  node_inj : ∀ {a b c d}, node a b = node c d → a = c ∧ b = d
  leaf_ne : ∀ {a b c}, IsLeaf a → a ≠ node b c

/-- `d` is the top of a tree of height `k`, all of whose leaves are on one level and read
`xs` from left to right. -/
inductive Spans (node : α → α → α) (IsLeaf : α → Prop) : Nat → List α → α → Prop
  | leaf {d} : IsLeaf d → Spans node IsLeaf 0 [d] d
  | node {k xs ys a b} : Spans node IsLeaf k xs a → Spans node IsLeaf k ys b →
      Spans node IsLeaf (k + 1) (xs ++ ys) (node a b)

/-- Some leaf is `k` levels below `d`. -/
inductive Reaches (node : α → α → α) (IsLeaf : α → Prop) : Nat → α → Prop
  | leaf {d} : IsLeaf d → Reaches node IsLeaf 0 d
  | left {k a b} : Reaches node IsLeaf k a → Reaches node IsLeaf (k + 1) (node a b)
  | right {k a b} : Reaches node IsLeaf k b → Reaches node IsLeaf (k + 1) (node a b)

section Binding

variable {node : α → α → α} {IsLeaf : α → Prop}

theorem Spans.length {k : Nat} {xs : List α} {d : α} (h : Spans node IsLeaf k xs d) :
    xs.length = 2 ^ k := by
  induction h with
  | leaf _ => rfl
  | node _ _ iha ihb => rw [List.length_append, iha, ihb, Nat.pow_succ, Nat.mul_two]

/-- The leaves determine the top. -/
theorem Spans.unique {k : Nat} {xs : List α} {a b : α} (ha : Spans node IsLeaf k xs a)
    (hb : Spans node IsLeaf k xs b) : a = b := by
  induction ha generalizing b with
  | leaf _ =>
    cases hb with
    | leaf _ => rfl
  | @node k xs ys a₁ a₂ h₁ h₂ ih₁ ih₂ =>
    generalize hzs : xs ++ ys = zs at hb
    cases hb with
    | @node _ xs' ys' b₁ b₂ g₁ g₂ =>
      obtain ⟨rfl, rfl⟩ := List.append_inj hzs (by rw [h₁.length, g₁.length])
      rw [ih₁ g₁, ih₂ g₂]

/-- The top determines the leaves. -/
theorem Spans.inj (hf : Free node IsLeaf) {j k : Nat} {xs ys : List α} {d : α}
    (hx : Spans node IsLeaf j xs d) (hy : Spans node IsLeaf k ys d) : j = k ∧ xs = ys := by
  induction hx generalizing k ys with
  | leaf hd =>
    cases hy with
    | leaf _ => exact ⟨rfl, rfl⟩
    | node _ _ => exact absurd rfl (hf.leaf_ne hd)
  | @node j xs₁ xs₂ a b h₁ h₂ ih₁ ih₂ =>
    generalize hc : node a b = c at hy
    cases hy with
    | leaf hd => exact absurd hc.symm (hf.leaf_ne hd)
    | node g₁ g₂ =>
      obtain ⟨rfl, rfl⟩ := hf.node_inj hc
      obtain ⟨rfl, rfl⟩ := ih₁ g₁
      obtain ⟨-, rfl⟩ := ih₂ g₂
      exact ⟨rfl, rfl⟩

/-- All leaves under a level's node are equally far below it. -/
theorem Reaches.eq (hf : Free node IsLeaf) {j k : Nat} {xs : List α} {d : α}
    (hr : Reaches node IsLeaf j d) (hs : Spans node IsLeaf k xs d) : j = k := by
  induction hr generalizing k xs with
  | leaf hd =>
    cases hs with
    | leaf _ => rfl
    | node _ _ => exact absurd rfl (hf.leaf_ne hd)
  | @left j a b h ih =>
    generalize hc : node a b = c at hs
    cases hs with
    | leaf hd => exact absurd hc.symm (hf.leaf_ne hd)
    | node g₁ g₂ =>
      obtain ⟨rfl, rfl⟩ := hf.node_inj hc
      rw [ih g₁]
  | @right j a b h ih =>
    generalize hc : node a b = c at hs
    cases hs with
    | leaf hd => exact absurd hc.symm (hf.leaf_ne hd)
    | node g₁ g₂ =>
      obtain ⟨rfl, rfl⟩ := hf.node_inj hc
      rw [ih g₂]

/-- Every entry of a proof takes the leaf one level further down. -/
theorem reaches_recompute {j i : Nat} {d : α} {proof : List α} (h : Reaches node IsLeaf j d) :
    Reaches node IsLeaf (j + proof.length) (recompute node d proof i) := by
  induction proof generalizing j i d with
  | nil => exact h
  | cons s proof ih =>
    rw [List.length_cons, ← Nat.add_assoc, Nat.add_right_comm]
    apply ih
    split
    · exact .left h
    · exact .right h

/-- The step: tops of one height are combined to tops of the next. -/
theorem spans_levelUp {k : Nat} {bs : List (List α)} {ds : List α}
    (h : List.Forall₂ (Spans node IsLeaf k) bs ds) :
    List.Forall₂ (Spans node IsLeaf (k + 1)) (levelUp List.append bs) (levelUp node ds) := by
  induction bs using levelUp.induct generalizing ds with
  | case1 =>
    cases h
    exact .nil
  | case2 b =>
    obtain ⟨d, rest, hb, hrest, rfl⟩ := List.forall₂_cons_left_iff.mp h
    rw [List.forall₂_nil_left_iff.mp hrest]
    exact .cons (.node hb hb) .nil
  | case3 b b' rest ih =>
    obtain ⟨d, ds, hb, h', rfl⟩ := List.forall₂_cons_left_iff.mp h
    obtain ⟨d', rest', hb', hrest, rfl⟩ := List.forall₂_cons_left_iff.mp h'
    exact .cons (.node hb hb') (ih hrest)

theorem spans_root_blocks {k : Nat} {bs : List (List α)} {ds : List α}
    (h : List.Forall₂ (Spans node IsLeaf k) bs ds) (hne : bs ≠ []) :
    ∃ xs d, root List.append bs = some xs ∧ root node ds = some d ∧
      Spans node IsLeaf (k + Nat.clog 2 bs.length) xs d := by
  induction bs using root.induct List.append generalizing k ds with
  | case1 bs hlen ih =>
    have hne' : levelUp List.append bs ≠ [] := by
      intro h
      have := length_levelUp List.append bs
      rw [h, List.length_nil] at this
      omega
    obtain ⟨xs, d, hxs, hd, hs⟩ := ih (spans_levelUp h) hne'
    have hlog : Nat.clog 2 bs.length = Nat.clog 2 ((bs.length + 1) / 2) + 1 :=
      Nat.clog_of_two_le (by omega) hlen
    refine ⟨xs, d, by rw [root_levelUp hlen, hxs], ?_, ?_⟩
    · rw [root_levelUp (by rw [← h.length_eq]; exact hlen), hd]
    · rw [hlog, ← Nat.add_assoc, Nat.add_right_comm, ← length_levelUp]
      exact hs
  | case2 bs hlen =>
    obtain ⟨b, rfl⟩ : ∃ b, bs = [b] := List.length_eq_one_iff.mp (by
      have := List.length_pos_iff.mpr hne
      omega)
    obtain ⟨d, rest, hb, hrest, rfl⟩ := List.forall₂_cons_left_iff.mp h
    rw [List.forall₂_nil_left_iff.mp hrest]
    refine ⟨b, d, by rw [root_of_le (by simp)]; rfl, by rw [root_of_le (by simp)]; rfl, ?_⟩
    rw [List.length_singleton, Nat.clog_of_right_le_one (by omega)]
    exact hb

/-- The root spans the completed list. -/
theorem spans_root {l : List α} (hleaf : ∀ d ∈ l, IsLeaf d) (hne : l ≠ []) :
    ∃ d, root node l = some d ∧ Spans node IsLeaf (Nat.clog 2 l.length) (complete l) d := by
  have h : List.Forall₂ (Spans node IsLeaf 0) (l.map fun a => [a]) l := by
    rw [List.forall₂_map_left_iff, List.forall₂_same]
    exact fun d hd => .leaf (hleaf d hd)
  obtain ⟨xs, d, hxs, hd, hs⟩ := spans_root_blocks h (by simpa using hne)
  rw [root_append hne] at hxs
  rw [List.length_map, Nat.zero_add, ← Option.some.inj hxs] at hs
  exact ⟨d, hd, hs⟩

/-- **Soundness**: a node without a sibling on the way leaves the path too short to reach the
root. -/
theorem recompute_path_iff (hf : Free node IsLeaf) {l : List α} {i : Nat} {d : α}
    (hleaf : ∀ d ∈ l, IsLeaf d) (hd : l[i]? = some d) :
    root node l = some (recompute node d (path node l i) i) ↔ HasSiblings l.length i := by
  constructor
  · intro h
    have hi : i < l.length := (List.getElem?_eq_some_iff.mp hd).1
    obtain ⟨r, hr, hs⟩ := @spans_root _ node _ _ hleaf (List.ne_nil_of_length_pos (by omega))
    rw [hr] at h
    have hreach : Reaches node IsLeaf (0 + (path node l i).length) r := by
      rw [Option.some.inj h]
      exact reaches_recompute (.leaf (hleaf d (List.mem_of_getElem? hd)))
    have hlen := hreach.eq hf hs
    rw [Nat.zero_add] at hlen
    exact (length_path hi).2.mp hlen
  · exact recompute_path hd

/-- **Binding**: a root commits to the completed list, and to no more. -/
theorem root_eq_iff (hf : Free node IsLeaf) {l₁ l₂ : List α} (h₁ : ∀ d ∈ l₁, IsLeaf d)
    (h₂ : ∀ d ∈ l₂, IsLeaf d) (hne₁ : l₁ ≠ []) (hne₂ : l₂ ≠ []) :
    root node l₁ = root node l₂ ↔ complete l₁ = complete l₂ := by
  obtain ⟨r₁, hr₁, hs₁⟩ := @spans_root _ node _ _ h₁ hne₁
  obtain ⟨r₂, hr₂, hs₂⟩ := @spans_root _ node _ _ h₂ hne₂
  rw [hr₁, hr₂, Option.some.injEq]
  constructor
  · rintro rfl
    exact (hs₁.inj hf hs₂).2
  · intro h
    have hlog : Nat.clog 2 l₁.length = Nat.clog 2 l₂.length := by
      apply Nat.pow_right_injective (Nat.le_refl 2)
      show 2 ^ _ = 2 ^ _
      rw [← hs₁.length, ← hs₂.length, h]
    rw [h, hlog] at hs₁
    exact hs₁.unique hs₂

end Binding

end Merkle
