import Stellara.Lib.Store

/-!
# Token ledgers

`Ledger τ α` holds the balances of the holders `α` in the tokens `τ`; no balance is
negative.  `transfer` is the standard token's: it fails on a negative amount, on an
amount the sender does not have, and when the receiver's balance would exceed `cap`
(the largest value of the token's integer type).  Every proof about token flow uses one
equation (`balance_transfer`):

    balance after = balance before - (sent) + (received)
-/

/-- Balances of holders `α` in tokens `τ`. -/
structure Ledger (τ α : Type) [DecidableEq τ] [DecidableEq α] where
  entries : Store (τ × α) Int
  nonneg : ∀ k v, entries.lookup k = some v → 0 ≤ v

namespace Ledger

variable {τ α : Type} [DecidableEq τ] [DecidableEq α]

/-- The balance of `a` in token `t`; a holder without an entry has nothing. -/
def balance (L : Ledger τ α) (t : τ) (a : α) : Int := (L.entries.lookup (t, a)).getD 0

theorem balance_nonneg (L : Ledger τ α) (t : τ) (a : α) : 0 ≤ L.balance t a := by
  unfold balance
  cases h : L.entries.lookup (t, a) with
  | none => simp
  | some v => exact L.nonneg _ v h

/-- Set one balance. -/
def setBalance (L : Ledger τ α) (t : τ) (a : α) (x : Int) (h : 0 ≤ x) : Ledger τ α where
  entries := L.entries.insert (t, a) x
  nonneg := by
    intro k v hv
    rw [Store.lookup_insert_eq] at hv
    split at hv
    · cases hv; exact h
    · exact L.nonneg k v hv

theorem balance_setBalance (L : Ledger τ α) (t t' : τ) (a a' : α) (x : Int) (h : 0 ≤ x) :
    (L.setBalance t a x h).balance t' a' = if t' = t ∧ a' = a then x else L.balance t' a' := by
  unfold balance setBalance
  rw [Store.lookup_insert_eq]
  by_cases hk : t' = t ∧ a' = a
  · obtain ⟨rfl, rfl⟩ := hk; simp
  · rw [if_neg hk, if_neg (by rintro ⟨⟩; exact hk ⟨rfl, rfl⟩)]

/-- No balances at all. -/
def empty : Ledger τ α where
  entries := ∅
  nonneg := by intro k v hv; rw [AList.lookup_empty] at hv; cases hv

instance : Inhabited (Ledger τ α) := ⟨empty⟩

/-- Create `x` of token `t` for `a`. -/
def mint (cap : Int) (L : Ledger τ α) (t : τ) (a : α) (x : Int) : Option (Ledger τ α) :=
  if h : 0 ≤ x ∧ L.balance t a + x ≤ cap then
    some (L.setBalance t a (L.balance t a + x) (by have := L.balance_nonneg t a; omega))
  else none

/-- Move `x` of token `t` from `src` to `dst`. -/
def transfer (cap : Int) (L : Ledger τ α) (t : τ) (src dst : α) (x : Int) : Option (Ledger τ α) :=
  if h : 0 ≤ x ∧ x ≤ L.balance t src then
    (L.setBalance t src (L.balance t src - x) (by omega)).mint cap t dst x
  else none

variable {cap x : Int} {L L' : Ledger τ α} {t : τ} {src dst : α}

theorem balance_mint (h : L.mint cap t dst x = some L') (t' : τ) (a : α) :
    L'.balance t' a = L.balance t' a + (if t' = t ∧ a = dst then x else 0) := by
  unfold mint at h
  split at h
  · cases h
    rw [balance_setBalance]
    split
    · next hk => obtain ⟨rfl, rfl⟩ := hk; rfl
    · omega
  · cases h

theorem mint_nonneg (h : L.mint cap t dst x = some L') : 0 ≤ x := by
  unfold mint at h
  split at h
  · next hx => exact hx.1
  · cases h

/-- **The token equation.** -/
theorem balance_transfer (h : L.transfer cap t src dst x = some L') (t' : τ) (a : α) :
    L'.balance t' a = L.balance t' a - (if t' = t ∧ a = src then x else 0)
      + (if t' = t ∧ a = dst then x else 0) := by
  unfold transfer at h
  split at h
  · rw [balance_mint h, balance_setBalance]
    split
    · next hk => obtain ⟨rfl, rfl⟩ := hk; rfl
    · omega
  · cases h

/-- Destroy `x` of token `t` that `a` holds. -/
def burn (L : Ledger τ α) (t : τ) (a : α) (x : Int) : Option (Ledger τ α) :=
  if h : 0 ≤ x ∧ x ≤ L.balance t a then some (L.setBalance t a (L.balance t a - x) (by omega))
  else none

/-- What a successful transfer shows about its amount. -/
theorem transfer_bounds (h : L.transfer cap t src dst x = some L') :
    0 ≤ x ∧ x ≤ L.balance t src := by
  unfold transfer at h
  split at h
  · next hx => exact hx
  · cases h

theorem mint_le_cap (h : L.mint cap t dst x = some L') : L'.balance t dst ≤ cap := by
  unfold mint at h
  split at h
  · next hx =>
    cases h
    rw [balance_setBalance, if_pos ⟨rfl, rfl⟩]
    exact hx.2
  · cases h

/-- The receiver's balance fits the token's integer type. -/
theorem transfer_le_cap (h : L.transfer cap t src dst x = some L') : L'.balance t dst ≤ cap := by
  unfold transfer at h
  split at h
  · exact mint_le_cap h
  · cases h

/-- Funds and room are all a transfer to another holder needs. -/
theorem transfer_isSome (h0 : 0 ≤ x) (hx : x ≤ L.balance t src) (hne : dst ≠ src)
    (hcap : L.balance t dst + x ≤ cap) : (L.transfer cap t src dst x).isSome := by
  unfold transfer
  rw [dif_pos ⟨h0, hx⟩]
  unfold mint
  rw [dif_pos]
  · rfl
  · rw [balance_setBalance, if_neg (fun h => hne h.2)]
    exact ⟨h0, hcap⟩

end Ledger
