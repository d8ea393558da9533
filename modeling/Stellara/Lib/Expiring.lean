import Stellara.Lib.Store

/-!
# Stores whose entries expire

A value may have a time from which it counts as gone.  What is read at a time is what is stored
and has not expired by then:

    read now (s.insert k ⟨v, none⟩) k = some v
    read now (s.insert k ⟨v, some t⟩) k = some v  ↔  now < t

As time passes there is only less to read (`read_of_le`).
-/

/-- A value, and the time from which it is gone, if there is one. -/
structure Expiring (ν : Type) where
  value : ν
  expiresAt : Option Int
deriving DecidableEq, Repr

namespace Expiring

variable {κ ν : Type} [DecidableEq κ]

def Live (now : Int) (e : Expiring ν) : Bool := e.expiresAt.all fun t => now < t

theorem live_of_le {now later : Int} {e : Expiring ν} (hle : now ≤ later)
    (h : e.Live later = true) : e.Live now = true := by
  unfold Live at h ⊢
  cases ht : e.expiresAt with
  | none => rfl
  | some t =>
    rw [ht, Option.all_some, decide_eq_true_eq] at h
    rw [Option.all_some, decide_eq_true_eq]
    omega

/-- What is stored under a key and has not expired. -/
def read (now : Int) (s : Store κ (Expiring ν)) (k : κ) : Option ν :=
  ((s.lookup k).filter fun e => e.Live now).map (·.value)

variable {now : Int} {s : Store κ (Expiring ν)} {k k' : κ} {v : ν}

theorem read_eq_some : read now s k = some v ↔
    ∃ e, s.lookup k = some e ∧ e.Live now = true ∧ e.value = v := by
  unfold read
  rw [Option.map_eq_some_iff]
  constructor
  · rintro ⟨e, he, rfl⟩
    obtain ⟨he, hlive⟩ := Option.filter_eq_some_iff.mp he
    exact ⟨e, he, hlive, rfl⟩
  · rintro ⟨e, he, hlive, rfl⟩
    exact ⟨e, Option.filter_eq_some_iff.mpr ⟨he, hlive⟩, rfl⟩

theorem read_congr {s' : Store κ (Expiring ν)} (h : s.lookup k = s'.lookup k) :
    read now s k = read now s' k := by
  unfold read
  rw [h]

theorem read_insert {e : Expiring ν} : read now (s.insert k e) k' =
    if k' = k then if e.Live now then some e.value else none else read now s k' := by
  unfold read
  rw [Store.lookup_insert_eq]
  split
  · rw [Option.filter_some]
    split <;> rfl
  · rfl

theorem read_erase : read now (s.erase k) k' = if k' = k then none else read now s k' := by
  unfold read
  rw [Store.lookup_erase_eq]
  split <;> rfl

/-- As time passes, entries go. -/
theorem read_of_le {later : Int} (hle : now ≤ later) (h : read later s k = some v) :
    read now s k = some v := by
  obtain ⟨e, he, hlive, hv⟩ := read_eq_some.mp h
  exact read_eq_some.mpr ⟨e, he, live_of_le hle hlive, hv⟩

end Expiring
