import Mathlib.Data.Set.Insert
import Mathlib.Order.Lattice

/-!
# Crossing quotes

A limit-order book, seen as the set of its quotes: instrument, side and price.  Two
quotes cross when they are of one instrument, on different sides, and the buyer pays at
least what the seller asks.  A book is uncrossed when no two of its quotes cross:

    every bid of an instrument is below every ask of it              (uncrossed_iff)

Taking quotes out keeps a book uncrossed (`Uncrossed.mono`); putting one in does when it
crosses none of those that are there (`Uncrossed.insert`).
-/

/-- An offer to trade. -/
structure Quote (ι π : Type) where
  instrument : ι
  isBuy : Bool
  price : π

namespace Quote

variable {ι π : Type} [LinearOrder π]

/-- The two offers can be executed against each other. -/
def Crosses (q r : Quote ι π) : Prop :=
  q.instrument = r.instrument ∧
    (q.isBuy = true ∧ r.isBuy = false ∧ r.price ≤ q.price ∨
      q.isBuy = false ∧ r.isBuy = true ∧ q.price ≤ r.price)

theorem Crosses.symm {q r : Quote ι π} (h : Crosses q r) : Crosses r q := by
  obtain ⟨hi, ⟨hq, hr, hp⟩ | ⟨hq, hr, hp⟩⟩ := h
  · exact ⟨hi.symm, .inr ⟨hr, hq, hp⟩⟩
  · exact ⟨hi.symm, .inl ⟨hr, hq, hp⟩⟩

theorem not_crosses_self (q : Quote ι π) : ¬ Crosses q q := by
  rintro ⟨-, ⟨h, h', -⟩ | ⟨h, h', -⟩⟩ <;> rw [h] at h' <;> cases h'

/-- No two quotes of the book cross. -/
def Uncrossed (Q : Set (Quote ι π)) : Prop := ∀ q ∈ Q, ∀ r ∈ Q, ¬ Crosses q r

theorem Uncrossed.mono {Q R : Set (Quote ι π)} (h : Uncrossed Q) (hs : R ⊆ Q) : Uncrossed R :=
  fun q hq r hr => h q (hs hq) r (hs hr)

theorem Uncrossed.insert {Q : Set (Quote ι π)} {q : Quote ι π} (h : Uncrossed Q)
    (hq : ∀ r ∈ Q, ¬ Crosses q r) : Uncrossed (insert q Q) := by
  intro a ha b hb
  rcases Set.mem_insert_iff.mp ha with ha | ha <;> rcases Set.mem_insert_iff.mp hb with hb | hb
  · rw [ha, hb]; exact not_crosses_self q
  · rw [ha]; exact hq b hb
  · rw [hb]; exact fun hc => hq a ha hc.symm
  · exact h a ha b hb

theorem uncrossed_iff {Q : Set (Quote ι π)} :
    Uncrossed Q ↔ ∀ bid ∈ Q, ∀ ask ∈ Q, bid.isBuy = true → ask.isBuy = false →
      bid.instrument = ask.instrument → bid.price < ask.price := by
  constructor
  · intro h bid hbid ask hask hb ha hi
    by_contra hp
    exact h bid hbid ask hask ⟨hi, .inl ⟨hb, ha, not_lt.mp hp⟩⟩
  · rintro h q hq r hr ⟨hi, ⟨hqb, hrb, hp⟩ | ⟨hqb, hrb, hp⟩⟩
    · exact absurd (h q hq r hr hqb hrb hi) (not_lt.mpr hp)
    · exact absurd (h r hr q hq hrb hqb hi.symm) (not_lt.mpr hp)

end Quote
