import Mathlib.Data.List.Nodup

/-!
# Tables

A table is a list of rows.  `updateWhere p f` is `UPDATE … WHERE p`; what it keeps of each row it
keeps of the table (`map_updateWhere`).  In a table whose rows have distinct keys, removing or
replacing the row of a key changes a count by what this row contributed (`countP_remove`,
`countP_replace`).
-/

variable {ρ κ : Type}

/-- `UPDATE … WHERE p`. -/
def updateWhere (p : ρ → Bool) (f : ρ → ρ) (rows : List ρ) : List ρ :=
  rows.map fun row => if p row then f row else row

theorem countP_updateWhere {p q : ρ → Bool} {f : ρ → ρ} {rows : List ρ} :
    (updateWhere p f rows).countP q = rows.countP fun row => q (if p row then f row else row) :=
  List.countP_map

theorem map_updateWhere {p : ρ → Bool} {f : ρ → ρ} {g : ρ → κ} {rows : List ρ}
    (h : ∀ row ∈ rows, p row → g (f row) = g row) : (updateWhere p f rows).map g = rows.map g := by
  unfold updateWhere
  rw [List.map_map]
  refine List.map_congr_left fun row hrow => ?_
  show g (if p row then f row else row) = g row
  split
  · next hp => exact h row hrow hp
  · rfl

theorem updateWhere_of_none {p : ρ → Bool} {f : ρ → ρ} {rows : List ρ}
    (h : ∀ row ∈ rows, p row = false) : updateWhere p f rows = rows := by
  have hmap : updateWhere p f rows = rows.map id := by
    refine List.map_congr_left fun row hrow => ?_
    rw [if_neg (by rw [h row hrow]; exact nofun)]
    rfl
  rw [hmap, List.map_id]

/-- Where `q` is kept, a part of the table is updated as the table is. -/
theorem filter_updateWhere {p q : ρ → Bool} {f : ρ → ρ} {rows : List ρ}
    (h : ∀ row ∈ rows, p row → q (f row) = q row) :
    (updateWhere p f rows).filter q = updateWhere p f (rows.filter q) := by
  unfold updateWhere
  rw [List.filter_map]
  refine congrArg (List.map _) (List.filter_congr fun row hrow => ?_)
  show q (if p row then f row else row) = q row
  split
  · next hp => exact h row hrow hp
  · rfl

/-- A row is set. -/
theorem countP_set {rows : List ρ} {i : Nat} {row : ρ} (h : rows[i]? = some row) (new : ρ)
    (q : ρ → Bool) :
    (rows.set i new).countP q + (if q row then 1 else 0) =
      rows.countP q + if q new then 1 else 0 := by
  induction rows generalizing i with
  | nil => cases h
  | cons x rows ih =>
    cases i with
    | zero =>
      cases h
      rw [List.set_cons_zero, List.countP_cons, List.countP_cons]
      omega
    | succ i =>
      have := ih (i := i) h
      rw [List.set_cons_succ, List.countP_cons, List.countP_cons]
      omega

variable [DecidableEq κ] {key : ρ → κ} {row : ρ} {rows : List ρ}

/-- The row of a key is removed. -/
theorem countP_remove (hnodup : (rows.map key).Nodup) (hrow : row ∈ rows) (q : ρ → Bool) :
    (rows.filter fun x => key x ≠ key row).countP q + (if q row then 1 else 0) = rows.countP q := by
  induction rows with
  | nil => cases hrow
  | cons x rows ih =>
    rw [List.map_cons, List.nodup_cons] at hnodup
    rcases List.mem_cons.mp hrow with rfl | hrow
    · -- no other row has the key
      have hrest : (rows.filter fun y => key y ≠ key row) = rows :=
        List.filter_eq_self.mpr fun y hy => decide_eq_true fun heq =>
          hnodup.1 (heq ▸ List.mem_map_of_mem hy)
      rw [List.filter_cons_of_neg (by simp), hrest, List.countP_cons]
    · have hne : key x ≠ key row := fun heq => hnodup.1 (heq ▸ List.mem_map_of_mem hrow)
      rw [List.filter_cons_of_pos (by simpa using hne), List.countP_cons, List.countP_cons]
      have := ih hnodup.2 hrow
      omega

/-- The row of a key is replaced. -/
theorem countP_replace (hnodup : (rows.map key).Nodup) (hrow : row ∈ rows) (new : ρ)
    (q : ρ → Bool) :
    (updateWhere (fun x => key x = key row) (fun _ => new) rows).countP q + (if q row then 1 else 0) =
      rows.countP q + if q new then 1 else 0 := by
  induction rows with
  | nil => cases hrow
  | cons x rows ih =>
    rw [List.map_cons, List.nodup_cons] at hnodup
    have hcons : updateWhere (fun x => key x = key row) (fun _ => new) (x :: rows) =
        (if key x = key row then new else x) ::
          updateWhere (fun x => key x = key row) (fun _ => new) rows := by
      simp [updateWhere]
    rw [hcons, List.countP_cons, List.countP_cons]
    rcases List.mem_cons.mp hrow with rfl | hrow
    · have hrest : updateWhere (fun y => decide (key y = key row)) (fun _ => new) rows = rows :=
        updateWhere_of_none fun y hy => decide_eq_false fun heq =>
          hnodup.1 (heq ▸ List.mem_map_of_mem hy)
      rw [if_pos rfl, hrest]
      omega
    · have hne : key x ≠ key row := fun heq => hnodup.1 (heq ▸ List.mem_map_of_mem hrow)
      rw [if_neg hne]
      have := ih hnodup.2 hrow
      omega
