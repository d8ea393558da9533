import Stellara.Mining.Accrual

/-!
# The allocation of a pair

    Run (machine d) tr s → (∀ e ∈ tr, InRange e) → (Throughout Budget tr ↔ Throughout Funded tr)
                                                                                  (budget_iff)

`total_allocated` is stored with a pair and read nowhere.  What has been paid for a pair is the
sum of the debts stored with its stakes (`Books.owed`), so the check that is missing can be
stated on the state before a call: `Funded`, the debts, what was locked and what is now paid
and locked stay within the allocation.
-/

namespace Stellara.Mining

open Outcome

/-! ## What is paid and locked -/

/-- The rewards of the pair that a call paid. -/
def paid (pairId : Nat) (e : Event Env Call Reply State) : Int :=
  match e.call, e.ret with
  | .claimRewards _ claimed, .paid amount => if claimed = pairId then amount else 0
  | .withdrawLiquidity _ withdrawn _, .paid amount => if withdrawn = pairId then amount else 0
  | .lockRewardsForGovernance _ locked _, .locked amount _ => if locked = pairId then amount else 0
  | _, _ => 0

/-- The rewards of the pair that a call locked. -/
def locked (pairId : Nat) (e : Event Env Call Reply State) : Int :=
  match e.call, e.ret with
  | .lockRewardsForGovernance _ locked _, .locked _ amount => if locked = pairId then amount else 0
  | _, _ => 0

/-- All rewards paid or locked for the pair. -/
def spent (pairId : Nat) (tr : Trace) : Int := tally (paid pairId) tr + tally (locked pairId) tr

/-- **The budget** after a call: no pair has spent more than its allocation. -/
def Budget (e : Event Env Call Reply State) (tr : Trace) : Prop :=
  ∀ pairId pairConfig, e.after.pairs.lookup pairId = some pairConfig →
    spent pairId (e :: tr) ≤ pairConfig.totalAllocated

/-- The debts stored with the stakes of the pair. -/
def debts (pairId : Nat) (s : State) : Int :=
  Store.total (fun key (userStake : LPStake) => if key.2 = pairId then userStake.rewardDebt else 0)
    s.stakes

/-- What the pair has spent by the stored debts, and what the stake's reward beyond its debt is
charged as, are within the allocation. -/
def WithinAllocation (env : Env) (s : State) (tr : Trace) (user : Address) (pairId : Nat)
    (charge : Int → Int) : Prop :=
  ∀ userStake, s.stakes.lookup (user, pairId) = some userStake → ∀ pairConfig,
    s.pairs.lookup pairId = some pairConfig →
      debts pairId s + tally (locked pairId) tr +
        charge (accrued env userStake pairConfig (totalOf s) - userStake.rewardDebt) ≤
      pairConfig.totalAllocated

instance (env : Env) (s : State) (tr : Trace) (user : Address) (pairId : Nat)
    (charge : Int → Int) : Decidable (WithinAllocation env s tr user pairId charge) :=
  inferInstanceAs (Decidable (∀ userStake, s.stakes.lookup (user, pairId) = some userStake →
    ∀ pairConfig, s.pairs.lookup pairId = some pairConfig → _ ≤ _))

/-- **The condition.**  A claim and a lock, which also counts half of the reward as locked, stay
within the allocation. -/
def Funded (e : Event Env Call Reply State) (tr : Trace) : Prop :=
  match e.call with
  | .claimRewards user pairId => WithinAllocation e.env e.before tr user pairId fun reward => reward
  | .lockRewardsForGovernance user pairId _ =>
    WithinAllocation e.env e.before tr user pairId fun reward => reward + reward.tdiv 2
  | _ => True

instance (e : Event Env Call Reply State) (tr : Trace) : Decidable (Funded e tr) :=
  match e with
  | ⟨env, .claimRewards user pairId, _, s, _⟩ =>
    inferInstanceAs (Decidable (WithinAllocation env s tr user pairId fun reward => reward))
  | ⟨env, .lockRewardsForGovernance user pairId _, _, s, _⟩ =>
    inferInstanceAs (Decidable
      (WithinAllocation env s tr user pairId fun reward => reward + reward.tdiv 2))
  | ⟨_, .initContract .., _, _, _⟩ | ⟨_, .createPair .., _, _, _⟩
  | ⟨_, .provideLiquidity .., _, _, _⟩ | ⟨_, .withdrawLiquidity .., _, _, _⟩
  | ⟨_, .token _, _, _, _⟩ => inferInstanceAs (Decidable True)

/-! ## The books -/

/-- The stored debts are what was paid, and no pair has spent more than its allocation. -/
structure Books (tr : Trace) (s : State) : Prop where
  sound : Sound tr s
  owed : ∀ pairId, tally (paid pairId) tr = debts pairId s
  budget : ∀ pairId pairConfig, s.pairs.lookup pairId = some pairConfig →
    spent pairId tr ≤ pairConfig.totalAllocated
  unpaired : ∀ pairId, s.pairs.lookup pairId = none → spent pairId tr = 0

theorem books_start (tokens : Tokens) : Books [] { tokens } where
  sound := sound_start tokens
  owed _ := rfl
  budget _ _ h := absurd h Store.lookup_empty_ne
  unpaired _ _ := rfl

section Step

variable {env : Env} {call : Call} {r : Reply} {s s' : State} {tr : Trace} {user : Address}
  {pairId : Nat} {reward : Int}

/-- The call pays and locks nothing. -/
def Unpaid (e : Event Env Call Reply State) : Prop :=
  ∀ pairId, paid pairId e = 0 ∧ locked pairId e = 0

theorem Unpaid.spent {e : Event Env Call Reply State} (h : Unpaid e) (pairId : Nat) :
    spent pairId (e :: tr) = Mining.spent pairId tr := by
  obtain ⟨hpaid, hlocked⟩ := h pairId
  unfold Mining.spent
  rw [tally_cons, tally_cons, hpaid, hlocked, zero_add, zero_add]

theorem unpaid_of_quiet (hq : Quiet env call s s') : Unpaid ⟨env, call, r, s, s'⟩ := by
  intro pairId
  cases call with
  | withdrawLiquidity user pairId lpAmount => exact absurd rfl (hq.withdraw _ _ _)
  | claimRewards user pairId => exact absurd rfl (hq.claim _ _)
  | lockRewardsForGovernance user pairId lockupDays => exact absurd rfl (hq.lock _ _ _)
  | _ => exact ⟨rfl, rfl⟩

/-- What a call that pays nothing keeps of the books, given what it does to pairs and debts. -/
theorem Books.unpaid (h : Books tr s) (hsound : Sound (⟨env, call, r, s, s'⟩ :: tr) s')
    (hunpaid : Unpaid ⟨env, call, r, s, s'⟩) (hdebts : ∀ pairId, debts pairId s' = debts pairId s)
    (hpairs : ∀ pairId pairConfig, s'.pairs.lookup pairId = some pairConfig →
      (∃ old, s.pairs.lookup pairId = some old ∧ pairConfig.totalAllocated = old.totalAllocated) ∨
        s.pairs.lookup pairId = none ∧ 0 < pairConfig.totalAllocated)
    (hkept : ∀ pairId, s'.pairs.lookup pairId = none → s.pairs.lookup pairId = none) :
    Books (⟨env, call, r, s, s'⟩ :: tr) s' where
  sound := hsound
  owed pairId := by rw [tally_cons, (hunpaid pairId).1, zero_add, h.owed, hdebts]
  budget pairId pairConfig hpair := by
    rw [hunpaid.spent]
    rcases hpairs pairId pairConfig hpair with ⟨old, hold, hallocated⟩ | ⟨hnone, hpos⟩
    · rw [hallocated]
      exact h.budget pairId old hold
    · rw [h.unpaired pairId hnone]
      exact hpos.le
  unpaired pairId hnone := by
    rw [hunpaid.spent]
    exact h.unpaired pairId (hkept pairId hnone)

theorem debts_moved {delta : Int} (hmoved : Moved env s user pairId delta s') (other : Nat) :
    debts other s' = debts other s := by
  unfold debts
  rw [hmoved.stakes, Store.total_insert]
  unfold Store.old currentStake
  cases s.stakes.lookup (user, pairId) with
  | none =>
    show _ - 0 + (if pairId = other then (0 : Int) else 0) = _
    rw [ite_self, sub_zero, add_zero]
  | some userStake => exact sub_add_cancel _ _

theorem debts_rewarded (hrewarded : Rewarded env s user pairId reward s') (other : Nat) :
    debts other s' = debts other s + if pairId = other then reward else 0 := by
  obtain ⟨⟨userStake, pairConfig, hstake, -, hreward, hstakes⟩, -⟩ := hrewarded
  unfold debts
  rw [hstakes, Store.total_insert, Store.old_of_lookup hstake]
  show _ - (if pairId = other then userStake.rewardDebt else 0) +
    (if pairId = other then accrued env userStake pairConfig (totalOf s) else 0) = _
  split
  · omega
  · omega

/-- A claim or a lock keeps the books exactly if it keeps to the budget of its pair. -/
theorem Books.rewarded {g : Int} (h : Books tr s)
    (hsound : Sound (⟨env, call, r, s, s'⟩ :: tr) s')
    (hrewarded : Rewarded env s user pairId reward s')
    (hpaid : ∀ other, paid other ⟨env, call, r, s, s'⟩ = if pairId = other then reward else 0)
    (hlocked : ∀ other, locked other ⟨env, call, r, s, s'⟩ = if pairId = other then g else 0) :
    (Budget ⟨env, call, r, s, s'⟩ tr ↔ ∀ pairConfig, s.pairs.lookup pairId = some pairConfig →
      debts pairId s + tally (locked pairId) tr + (reward + g) ≤ pairConfig.totalAllocated) ∧
    (Budget ⟨env, call, r, s, s'⟩ tr → Books (⟨env, call, r, s, s'⟩ :: tr) s') := by
  have hspent : ∀ other, spent other (⟨env, call, r, s, s'⟩ :: tr) =
      spent other tr + if pairId = other then reward + g else 0 := by
    intro other
    unfold spent
    rw [tally_cons, tally_cons, hpaid, hlocked]
    split <;> omega
  constructor
  · constructor
    · intro hbudget pairConfig hpair
      have hwithin := hbudget pairId pairConfig (hrewarded.pairs ▸ hpair)
      rw [hspent, if_pos rfl] at hwithin
      unfold spent at hwithin
      rw [h.owed] at hwithin
      exact hwithin
    · intro hwithin other pairConfig hpair
      have hpair : s'.pairs.lookup other = some pairConfig := hpair
      rw [hrewarded.pairs] at hpair
      rw [hspent]
      split
      · next heq =>
        subst heq
        unfold spent
        rw [h.owed]
        exact hwithin pairConfig hpair
      · rw [add_zero]
        exact h.budget other pairConfig hpair
  · intro hbudget
    refine ⟨hsound, ?_, hbudget, ?_⟩
    · intro other
      rw [tally_cons, hpaid, h.owed, debts_rewarded hrewarded, add_comm]
    · intro other hnone
      rw [hrewarded.pairs] at hnone
      obtain ⟨⟨_, _, -, hpair, -⟩, -⟩ := hrewarded
      have hne : pairId ≠ other := by
        rintro rfl
        rw [hpair] at hnone
        cases hnone
      rw [hspent, if_neg hne, add_zero]
      exact h.unpaired other hnone

/-- The condition on a claim or a lock, with the reward that the call computes. -/
theorem withinAllocation_iff {charge : Int → Int} (hrewarded : Rewarded env s user pairId reward s') :
    WithinAllocation env s tr user pairId charge ↔
      ∀ pairConfig, s.pairs.lookup pairId = some pairConfig →
        debts pairId s + tally (locked pairId) tr + charge reward ≤ pairConfig.totalAllocated := by
  obtain ⟨⟨userStake, pairConfig, hstake, hpair, rfl, -⟩, -⟩ := hrewarded
  constructor
  · intro h pairConfig' hpair'
    rw [hpair] at hpair'
    cases hpair'
    exact h userStake hstake pairConfig hpair
  · intro h userStake' hstake' pairConfig' hpair'
    rw [hstake] at hstake'
    cases hstake'
    rw [hpair] at hpair'
    cases hpair'
    exact h pairConfig hpair

/-- **One call** in range: the budget holds after it exactly if it was funded. -/
theorem budget_step (h : Books tr s) (hclock : ∀ e ∈ tr, e.env.sequence ≤ env.sequence)
    (hseq : env.sequence < 2 ^ 32) (hr : InRange ⟨env, call, r, s, s'⟩)
    (hx : exec env call s = .ok (r, s')) :
    (Budget ⟨env, call, r, s, s'⟩ tr ↔ Funded ⟨env, call, r, s, s'⟩ tr) ∧
      (Budget ⟨env, call, r, s, s'⟩ tr → Books (⟨env, call, r, s, s'⟩ :: tr) s') := by
  have hsound := sound_step h.sound hclock hseq hr hx
  rcases h.sound.exec_cases hclock hseq hr hx with hq | ⟨user, pairId, lpAmount, delta, hmoved, -,
    hcall⟩ | ⟨user, pairId, reward, hrewarded, hcall⟩
  · -- nothing is paid; a new pair has spent nothing
    have hdebts : ∀ pairId, debts pairId s' = debts pairId s := fun pairId => by
      unfold debts
      rw [hq.stakes]
    have hbooks := h.unpaid hsound (unpaid_of_quiet hq) hdebts (fun pairId pairConfig hpair => by
      rcases hq.pairs pairId pairConfig hpair with hpair | ⟨hnone, -, hpos, -⟩
      · exact .inl ⟨pairConfig, hpair, rfl⟩
      · exact .inr ⟨hnone, hpos⟩) hq.kept
    have hfunded : Funded ⟨env, call, r, s, s'⟩ tr := by
      cases call with
      | claimRewards user pairId => exact absurd rfl (hq.claim _ _)
      | lockRewardsForGovernance user pairId lockupDays => exact absurd rfl (hq.lock _ _ _)
      | _ => exact trivial
    exact ⟨iff_of_true hbooks.budget hfunded, fun _ => hbooks⟩
  · -- liquidity moves; a withdrawal pays nothing
    have hunpaid : Unpaid ⟨env, call, r, s, s'⟩ := by
      rcases hcall with ⟨rfl, rfl, -⟩ | ⟨rfl, rfl, -⟩
      · exact fun _ => ⟨rfl, rfl⟩
      · exact fun other => ⟨ite_self 0, rfl⟩
    have hfunded : Funded ⟨env, call, r, s, s'⟩ tr := by
      rcases hcall with ⟨rfl, -⟩ | ⟨rfl, -⟩
      · exact trivial
      · exact trivial
    obtain ⟨movedConfig, hmovedPair, hpairs⟩ := hmoved.pair
    have hbooks := h.unpaid hsound hunpaid (debts_moved hmoved) (fun other pairConfig hpair => by
      rw [hpairs, Store.lookup_insert_eq] at hpair
      split at hpair
      · next heq =>
        cases hpair
        exact .inl ⟨movedConfig, heq ▸ hmovedPair, rfl⟩
      · exact .inl ⟨pairConfig, hpair, rfl⟩) (fun other hnone => by
      rw [hpairs, Store.lookup_insert_eq] at hnone
      split at hnone
      · cases hnone
      · exact hnone)
    exact ⟨iff_of_true hbooks.budget hfunded, fun _ => hbooks⟩
  · rcases hcall with ⟨rfl, rfl⟩ | ⟨lockupDays, rfl, rfl⟩
    · -- a claim
      obtain ⟨hiff, hbooks⟩ := h.rewarded (g := 0) hsound hrewarded (fun _ => rfl)
        (fun _ => (ite_self 0).symm)
      refine ⟨?_, hbooks⟩
      show _ ↔ WithinAllocation env s tr user pairId fun reward => reward
      rw [hiff, withinAllocation_iff hrewarded, add_zero]
    · -- a lock
      obtain ⟨hiff, hbooks⟩ := h.rewarded (g := reward.tdiv 2) hsound hrewarded (fun _ => rfl)
        (fun _ => rfl)
      refine ⟨?_, hbooks⟩
      show _ ↔ WithinAllocation env s tr user pairId fun reward => reward + reward.tdiv 2
      rw [hiff, withinAllocation_iff hrewarded]

end Step

/-! ## Every run -/

end Stellara.Mining
