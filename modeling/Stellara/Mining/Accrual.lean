import Stellara.Mining.Model

/-!
# What is accrued

`accrued` is the exact share of a stake in the pair's emissions since its last update.  As long
as the arithmetic stays in range (`InRange`), the pending reward is what is accrued less the
debt (`calculatePendingReward_eq`), and the total staked is the sum of the stakes (`Sound`,
`sound`).
-/

namespace Stellara.Mining

open Outcome

/-! ## Exact rewards -/

/-- The stake's balance times the emissions since the pair's last update. -/
def weighted (env : Env) (userStake : LPStake) (pairConfig : PairConfig) : Int :=
  userStake.lpBalance * pairConfig.emissionsPerBlock *
    ((env.sequence : Int) - pairConfig.lastUpdateBlock)

/-- The whole reward units accrued since the pair's last update. -/
def accrued (env : Env) (userStake : LPStake) (pairConfig : PairConfig) (totalStaked : Int) : Int :=
  weighted env userStake pairConfig / totalStaked

/-- No product of the reward's computation leaves the type. -/
def FitsAt (env : Env) (userStake : LPStake) (pairConfig : PairConfig) (totalStaked : Int) : Prop :=
  userStake.lpBalance * pairConfig.emissionsPerBlock ≤ i128Max ∧
    weighted env userStake pairConfig ≤ i128Max ∧
    accrued env userStake pairConfig totalStaked * 100 ≤ i128Max

instance (env : Env) (userStake : LPStake) (pairConfig : PairConfig) (totalStaked : Int) :
    Decidable (FitsAt env userStake pairConfig totalStaked) :=
  inferInstanceAs (Decidable (_ ∧ _))

/-- For no stake. -/
def Fits (env : Env) (s : State) (totalStaked : Int) : Prop :=
  ∀ entry ∈ s.stakes.entries, ∀ pairConfig, s.pairs.lookup entry.1.2 = some pairConfig →
    FitsAt env entry.2 pairConfig totalStaked

instance (env : Env) (s : State) (totalStaked : Int) : Decidable (Fits env s totalStaked) :=
  inferInstanceAs (Decidable (∀ entry ∈ s.stakes.entries, ∀ pairConfig,
    s.pairs.lookup entry.1.2 = some pairConfig → FitsAt env entry.2 pairConfig totalStaked))

/-- The total staked, 0 before anything is. -/
def totalOf (s : State) : Int := s.totalLpStaked.getD 0

/-- The total staked after a provision or a withdrawal. -/
def Call.newTotal (call : Call) (s : State) : Int :=
  match call with
  | .provideLiquidity _ _ lpAmount => totalOf s + lpAmount
  | .withdrawLiquidity _ _ lpAmount => totalOf s - lpAmount
  | _ => totalOf s

/-- The rewards computed at the time of the call are in range, before and after it, and so is
the total staked. -/
def InRange (e : Event Env Call Reply State) : Prop :=
  Fits e.env e.before (totalOf e.before) ∧ Fits e.env e.before (e.call.newTotal e.before) ∧
    e.call.newTotal e.before ≤ i128Max

instance (e : Event Env Call Reply State) : Decidable (InRange e) :=
  inferInstanceAs (Decidable (_ ∧ _ ∧ _))

/-- What holds of a stake and its pair at the time of a call. -/
structure StakeOk (env : Env) (userStake : LPStake) (pairConfig : PairConfig) : Prop where
  balance : 0 ≤ userStake.lpBalance
  debt : 0 ≤ userStake.rewardDebt
  debtMax : userStake.rewardDebt ≤ i128Max
  tier : userStake.bonusMultiplierTier = 0
  emissions : 0 < pairConfig.emissionsPerBlock
  updated : pairConfig.lastUpdateBlock ≤ env.sequence
  sequence : env.sequence < 2 ^ 32

section Exact

variable {env : Env} {userStake : LPStake} {pairConfig : PairConfig} {totalStaked : Int}

theorem weighted_nonneg (h : StakeOk env userStake pairConfig) :
    0 ≤ weighted env userStake pairConfig := by
  have hblocks : (pairConfig.lastUpdateBlock : Int) ≤ env.sequence := by exact_mod_cast h.updated
  exact mul_nonneg (mul_nonneg h.balance h.emissions.le) (by omega)

theorem accrued_nonneg (h : StakeOk env userStake pairConfig) (ht : 0 ≤ totalStaked) :
    0 ≤ accrued env userStake pairConfig totalStaked :=
  Int.ediv_nonneg (weighted_nonneg h) ht

/-- The more is staked, the less a stake has accrued. -/
theorem accrued_anti {totalStaked' : Int} (h : StakeOk env userStake pairConfig)
    (ht : 0 < totalStaked) (hle : totalStaked ≤ totalStaked') :
    accrued env userStake pairConfig totalStaked' ≤
      accrued env userStake pairConfig totalStaked := by
  have hq0 : 0 ≤ accrued env userStake pairConfig totalStaked' := accrued_nonneg h (by omega)
  refine (Int.le_ediv_iff_mul_le ht).mpr ?_
  calc accrued env userStake pairConfig totalStaked' * totalStaked
      ≤ accrued env userStake pairConfig totalStaked' * totalStaked' :=
        mul_le_mul_of_nonneg_left hle hq0
    _ ≤ weighted env userStake pairConfig := Int.ediv_mul_le _ (by omega)

/-- In range the pending reward is what is accrued less the debt. -/
theorem pendingOf_eq (h : StakeOk env userStake pairConfig) (ht : 0 ≤ totalStaked)
    (hfit : FitsAt env userStake pairConfig totalStaked) :
    pendingOf env userStake pairConfig totalStaked =
      .ok (if totalStaked = 0 ∨ userStake.lpBalance = 0 then 0
        else accrued env userStake pairConfig totalStaked - userStake.rewardDebt) := by
  unfold pendingOf
  split
  · rfl
  next hne =>
  rw [not_or] at hne
  obtain ⟨hper, hscaled, hboosted⟩ := hfit
  have hblocks : (pairConfig.lastUpdateBlock : Int) ≤ env.sequence := by exact_mod_cast h.updated
  have hseq := h.sequence
  have hper0 : 0 ≤ userStake.lpBalance * pairConfig.emissionsPerBlock :=
    mul_nonneg h.balance h.emissions.le
  have hw0 := weighted_nonneg h
  have ha0 := accrued_nonneg h ht
  have hmax : i128Max = 2 ^ 127 - 1 := rfl
  have hdebt := h.debt
  have hdebtMax := h.debtMax
  rw [u64_of_in env (by omega) (by omega), ok_bind, Int.toNat_of_nonneg (by omega)]
  rw [env_i128_of_in env (inI128_iff.mpr ⟨by omega, hper⟩), ok_bind]
  show ((env.i128 (weighted env userStake pairConfig)) >>= _) = _
  rw [env_i128_of_in env (inI128_iff.mpr ⟨by omega, hscaled⟩), ok_bind,
    divI128_of_nonneg hw0 hscaled (by omega), ok_bind, h.tier]
  show ((env.i128 (accrued env userStake pairConfig totalStaked * 100)) >>= _) = _
  rw [env_i128_of_in env (inI128_iff.mpr ⟨by omega, hboosted⟩), ok_bind,
    divI128_of_nonneg (by omega) hboosted (by omega), ok_bind, Int.mul_ediv_cancel _ (by omega)]
  exact env_i128_of_in env (inI128_iff.mpr ⟨by omega, by omega⟩)

end Exact

/-! ## The books -/

/-- What the calls so far leave behind, as long as they were in range. -/
structure Sound (tr : Trace) (s : State) : Prop where
  stake : ∀ user pairId userStake, s.stakes.lookup (user, pairId) = some userStake →
    0 ≤ userStake.lpBalance ∧ 0 ≤ userStake.rewardDebt ∧ userStake.rewardDebt ≤ i128Max ∧
      userStake.bonusMultiplierTier = 0
  emissions : ∀ pairId pairConfig, s.pairs.lookup pairId = some pairConfig →
    0 < pairConfig.emissionsPerBlock
  updated : ∀ n, (∀ e ∈ tr, e.env.sequence ≤ n) → ∀ pairId pairConfig,
    s.pairs.lookup pairId = some pairConfig → pairConfig.lastUpdateBlock ≤ n
  total : Store.total (fun _ (userStake : LPStake) => userStake.lpBalance) s.stakes = totalOf s
  totalMax : totalOf s ≤ i128Max
  fresh : s.config = none → s.stakes = ∅
  started : s.config ≠ none → s.totalLpStaked ≠ none

theorem sound_start (tokens : Tokens) : Sound [] { tokens } where
  stake _ _ _ h := absurd h Store.lookup_empty_ne
  emissions _ _ h := absurd h Store.lookup_empty_ne
  updated _ _ _ _ h := absurd h Store.lookup_empty_ne
  total := rfl
  totalMax := zero_le_i128Max
  fresh _ := rfl
  started h := absurd rfl h

section Books

variable {env : Env} {call : Call} {r : Reply} {s s' : State} {tr : Trace} {user : Address}
  {pairId : Nat} {userStake : LPStake} {pairConfig : PairConfig}

theorem Sound.stakeOk (h : Sound tr s) (hclock : ∀ e ∈ tr, e.env.sequence ≤ env.sequence)
    (hseq : env.sequence < 2 ^ 32) (hstake : s.stakes.lookup (user, pairId) = some userStake)
    (hpair : s.pairs.lookup pairId = some pairConfig) : StakeOk env userStake pairConfig := by
  obtain ⟨hbalance, hdebt, hdebtMax, htier⟩ := h.stake user pairId userStake hstake
  exact ⟨hbalance, hdebt, hdebtMax, htier, h.emissions pairId pairConfig hpair,
    h.updated env.sequence hclock pairId pairConfig hpair, hseq⟩

/-- One stake is part of the total. -/
theorem Sound.le_total (h : Sound tr s) (hstake : s.stakes.lookup (user, pairId) = some userStake) :
    userStake.lpBalance ≤ totalOf s := by
  rw [← h.total]
  exact Store.le_total (f := fun _ (userStake : LPStake) => userStake.lpBalance)
    (fun key userStake hk => (h.stake key.1 key.2 userStake hk).1) hstake

theorem Sound.total_nonneg (h : Sound tr s) : 0 ≤ totalOf s := by
  rw [← h.total]
  exact Store.total_nonneg fun key userStake hk => (h.stake key.1 key.2 userStake hk).1

/-- With a stake there is a stored total. -/
theorem Sound.getD_total (h : Sound tr s)
    (hstake : s.stakes.lookup (user, pairId) = some userStake) :
    s.totalLpStaked.getD 1 = totalOf s := by
  have hconfig : s.config ≠ none := by
    intro hnone
    rw [h.fresh hnone, AList.lookup_empty] at hstake
    cases hstake
  obtain ⟨total, htotal⟩ := Option.ne_none_iff_exists'.mp (h.started hconfig)
  unfold totalOf
  rw [htotal]
  rfl

theorem Fits.at {totalStaked : Int} (h : Fits env s totalStaked)
    (hstake : s.stakes.lookup (user, pairId) = some userStake)
    (hpair : s.pairs.lookup pairId = some pairConfig) :
    FitsAt env userStake pairConfig totalStaked :=
  h ⟨(user, pairId), userStake⟩ (AList.mem_lookup_iff.mp hstake) pairConfig hpair

/-- **In range the pending reward is exact.** -/
theorem Sound.pending (h : Sound tr s) (hclock : ∀ e ∈ tr, e.env.sequence ≤ env.sequence)
    (hseq : env.sequence < 2 ^ 32) (hstake : s.stakes.lookup (user, pairId) = some userStake)
    (hpair : s.pairs.lookup pairId = some pairConfig)
    (hfit : FitsAt env userStake pairConfig (totalOf s)) :
    calculatePendingReward env s user pairId =
      .ok (if totalOf s = 0 ∨ userStake.lpBalance = 0 then 0
        else accrued env userStake pairConfig (totalOf s) - userStake.rewardDebt) := by
  unfold calculatePendingReward
  rw [hstake, hpair, h.getD_total hstake]
  exact pendingOf_eq (h.stakeOk hclock hseq hstake hpair) h.total_nonneg hfit

/-! ## One call in range -/

/-- The user's stake in the pair and the total have moved by `delta`, and the pair's last update
is now. -/
structure Moved (env : Env) (s : State) (user : Address) (pairId : Nat) (delta : Int)
    (s' : State) : Prop where
  pair : ∃ pairConfig, s.pairs.lookup pairId = some pairConfig ∧
    s'.pairs = s.pairs.insert pairId { pairConfig with lastUpdateBlock := env.sequence }
  stakes : s'.stakes = s.stakes.insert (user, pairId) { currentStake env s user pairId with
    lpBalance := (currentStake env s user pairId).lpBalance + delta }
  balance : 0 ≤ (currentStake env s user pairId).lpBalance + delta
  total : s'.totalLpStaked = some (totalOf s + delta)
  config : s'.config = s.config
  configured : s.config ≠ none

/-- The user was paid what was accrued beyond the debt, which is now all of it. -/
structure Rewarded (env : Env) (s : State) (user : Address) (pairId : Nat) (reward : Int)
    (s' : State) : Prop where
  stake : ∃ userStake pairConfig, s.stakes.lookup (user, pairId) = some userStake ∧
    s.pairs.lookup pairId = some pairConfig ∧
    reward = accrued env userStake pairConfig (totalOf s) - userStake.rewardDebt ∧
    s'.stakes = s.stakes.insert (user, pairId)
      { userStake with rewardDebt := accrued env userStake pairConfig (totalOf s) }
  positive : 0 < reward
  pairs : s'.pairs = s.pairs
  total : s'.totalLpStaked = s.totalLpStaked
  config : s'.config = s.config

theorem Sound.current (h : Sound tr s) (env : Env) (user : Address) (pairId : Nat) :
    0 ≤ (currentStake env s user pairId).lpBalance ∧
      (currentStake env s user pairId).lpBalance ≤ totalOf s ∧
      0 ≤ (currentStake env s user pairId).rewardDebt ∧
      (currentStake env s user pairId).rewardDebt ≤ i128Max ∧
      (currentStake env s user pairId).bonusMultiplierTier = 0 := by
  unfold currentStake
  cases hstake : s.stakes.lookup (user, pairId) with
  | none => exact ⟨le_rfl, h.total_nonneg, le_rfl, zero_le_i128Max, rfl⟩
  | some userStake =>
    obtain ⟨hbalance, hdebt, hdebtMax, htier⟩ := h.stake user pairId userStake hstake
    exact ⟨hbalance, h.le_total hstake, hdebt, hdebtMax, htier⟩

theorem Sound.provide {lpAmount : Int} (h : Sound tr s)
    (hmax : totalOf s + lpAmount ≤ i128Max)
    (hx : provideLiquidity env s user pairId lpAmount = .ok s') :
    0 < lpAmount ∧ Moved env s user pairId lpAmount s' := by
  obtain ⟨config, pairConfig, tokens, lpBalance, total, hconfig, hpos, hpair, hlp, htotal, rfl⟩ :=
    provideLiquidity_ok hx
  obtain ⟨hbalance, hle, -⟩ := h.current env user pairId
  have hmin : (0 : Int) ≤ 2 ^ 127 := by decide
  obtain rfl := i128_exact hlp (inI128_iff.mpr ⟨by omega, by omega⟩)
  obtain rfl := i128_exact htotal (inI128_iff.mpr ⟨by unfold totalOf at hle; omega, hmax⟩)
  exact ⟨hpos, ⟨⟨pairConfig, hpair, rfl⟩, rfl, by omega, rfl, rfl, by rw [hconfig]; exact nofun⟩⟩

/-- After the update there is nothing to pay. -/
theorem Sound.refreshed_pending (h : Sound tr s)
    (hclock : ∀ e ∈ tr, e.env.sequence ≤ env.sequence) (hseq : env.sequence < 2 ^ 32)
    (hstake : s.stakes.lookup (user, pairId) = some userStake)
    (hpair : s.pairs.lookup pairId = some pairConfig)
    (hfit : userStake.lpBalance * pairConfig.emissionsPerBlock ≤ i128Max) :
    calculatePendingReward env (refreshed env s pairId pairConfig) user pairId =
      .ok (if totalOf s = 0 ∨ userStake.lpBalance = 0 then 0 else -userStake.rewardDebt) := by
  obtain ⟨hbalance, hdebt, hdebtMax, htier, hemissions, -, -⟩ := h.stakeOk hclock hseq hstake hpair
  have hok : StakeOk env userStake { pairConfig with lastUpdateBlock := env.sequence } :=
    ⟨hbalance, hdebt, hdebtMax, htier, hemissions, le_rfl, hseq⟩
  have hzero : weighted env userStake { pairConfig with lastUpdateBlock := env.sequence } = 0 := by
    unfold weighted
    rw [sub_self, mul_zero]
  have haccrued : accrued env userStake { pairConfig with lastUpdateBlock := env.sequence }
      (totalOf s) = 0 := by
    unfold accrued
    rw [hzero, Int.zero_ediv]
  unfold calculatePendingReward refreshed
  rw [hstake, AList.lookup_insert]
  show pendingOf env userStake _ (s.totalLpStaked.getD 1) = _
  rw [h.getD_total hstake, pendingOf_eq hok h.total_nonneg
    ⟨hfit, by rw [hzero]; exact zero_le_i128Max, by rw [haccrued]; exact zero_le_i128Max⟩,
    haccrued, zero_sub]

theorem Sound.withdraw {lpAmount paid : Int} (h : Sound tr s)
    (hclock : ∀ e ∈ tr, e.env.sequence ≤ env.sequence) (hseq : env.sequence < 2 ^ 32)
    (hfits : Fits env s (totalOf s))
    (hx : withdrawLiquidity env s user pairId lpAmount = .ok (paid, s')) :
    0 < lpAmount ∧ paid = 0 ∧ Moved env s user pairId (-lpAmount) s' := by
  obtain ⟨config, userStake, pairConfig, pendingReward, s1, tokens, lpBalance, total, hconfig, hpos,
    hstake, hle, hpair, hpending, hclaim, hlp, htotal, rfl⟩ := withdrawLiquidity_ok hx
  rw [h.refreshed_pending hclock hseq hstake hpair (hfits.at hstake hpair).1] at hpending
  obtain ⟨hbalance, hdebt, -, -⟩ := h.stake user pairId userStake hstake
  have hnonpos : pendingReward ≤ 0 := by
    have heq := Except.ok.inj hpending
    split at heq <;> omega
  obtain ⟨rfl, rfl⟩ := claimRewardsInternal_nonpos hnonpos hclaim
  have hcurrent : currentStake env s user pairId = userStake := by
    unfold currentStake
    rw [hstake]
    rfl
  have hmax : i128Max = 2 ^ 127 - 1 := rfl
  have htotalMax := h.totalMax
  have htotalLe := h.le_total hstake
  obtain rfl := i128_exact hlp (inI128_iff.mpr ⟨by omega, by omega⟩)
  have htotal : (env.i128 (totalOf s - lpAmount) : Result Int) = .ok total := htotal
  obtain rfl := i128_exact htotal (inI128_iff.mpr ⟨by omega, by omega⟩)
  refine ⟨hpos, rfl, ⟨⟨pairConfig, hpair, rfl⟩, ?_, ?_, rfl, rfl, by rw [hconfig]; exact nofun⟩⟩
  · rw [hcurrent]
    rfl
  · rw [hcurrent]
    omega

/-- A claim, on its own or with half of it locked. -/
theorem Sound.claim {pendingReward paid : Int} {locked : Store Address Int} (h : Sound tr s)
    (hclock : ∀ e ∈ tr, e.env.sequence ≤ env.sequence) (hseq : env.sequence < 2 ^ 32)
    (hfits : Fits env s (totalOf s))
    (hpending : calculatePendingReward env s user pairId = .ok pendingReward)
    (hpos : 0 < pendingReward)
    (hx : claimRewardsInternal env { s with lockedRewards := locked } user pairId pendingReward =
      .ok (paid, s')) :
    paid = pendingReward ∧ Rewarded env s user pairId pendingReward s' := by
  obtain ⟨userStake, tokens, rewardDebt, hstake, hdebt, hpaid, rfl⟩ := claimRewardsInternal_ok hpos hx
  have hstake : s.stakes.lookup (user, pairId) = some userStake := hstake
  obtain ⟨pairConfig, hpair⟩ : ∃ pairConfig, s.pairs.lookup pairId = some pairConfig := by
    simp only [calculatePendingReward, bind_eq_ok, ofOption_eq_ok] at hpending
    obtain ⟨_, -, pairConfig, hpair, -⟩ := hpending
    exact ⟨pairConfig, hpair⟩
  have hfit := hfits.at hstake hpair
  have hok := h.stakeOk hclock hseq hstake hpair
  have ha0 := accrued_nonneg hok h.total_nonneg
  rw [h.pending hclock hseq hstake hpair hfit] at hpending
  have heq := Except.ok.inj hpending
  split at heq
  · omega
  obtain ⟨-, -, hboosted⟩ := hfit
  have hsum : userStake.rewardDebt + pendingReward =
      accrued env userStake pairConfig (totalOf s) := by omega
  rw [hsum] at hdebt
  obtain rfl := i128_exact hdebt (inI128_iff.mpr ⟨by omega, by omega⟩)
  exact ⟨hpaid, ⟨⟨userStake, pairConfig, hstake, hpair, heq.symm, rfl⟩, hpos, rfl, rfl, rfl⟩⟩

/-- The call moves no liquidity and no reward; it may add a pair. -/
structure Quiet (env : Env) (call : Call) (s s' : State) : Prop where
  provide : ∀ user pairId lpAmount, call ≠ .provideLiquidity user pairId lpAmount
  withdraw : ∀ user pairId lpAmount, call ≠ .withdrawLiquidity user pairId lpAmount
  claim : ∀ user pairId, call ≠ .claimRewards user pairId
  lock : ∀ user pairId lockupDays, call ≠ .lockRewardsForGovernance user pairId lockupDays
  stakes : s'.stakes = s.stakes
  total : totalOf s' = totalOf s
  pairs : ∀ pairId pairConfig, s'.pairs.lookup pairId = some pairConfig →
    s.pairs.lookup pairId = some pairConfig ∨
      s.pairs.lookup pairId = none ∧ 0 < pairConfig.emissionsPerBlock ∧
        0 < pairConfig.totalAllocated ∧ pairConfig.lastUpdateBlock = env.sequence
  kept : ∀ pairId, s'.pairs.lookup pairId = none → s.pairs.lookup pairId = none
  fresh : s'.config = none → s.config = none
  started : s'.config ≠ none → s'.totalLpStaked ≠ none

/-- **Every committed call in range**, in three kinds. -/
theorem Sound.exec_cases (h : Sound tr s) (hclock : ∀ e ∈ tr, e.env.sequence ≤ env.sequence)
    (hseq : env.sequence < 2 ^ 32) (hr : InRange ⟨env, call, r, s, s'⟩)
    (hx : exec env call s = .ok (r, s')) :
    Quiet env call s s' ∨
    (∃ user pairId lpAmount delta, Moved env s user pairId delta s' ∧ 0 < lpAmount ∧
      (call = .provideLiquidity user pairId lpAmount ∧ r = .done ∧ delta = lpAmount ∨
        call = .withdrawLiquidity user pairId lpAmount ∧ r = .paid 0 ∧ delta = -lpAmount)) ∨
    (∃ user pairId reward, Rewarded env s user pairId reward s' ∧
      (call = .claimRewards user pairId ∧ r = .paid reward ∨
        ∃ lockupDays, call = .lockRewardsForGovernance user pairId lockupDays ∧
          r = .locked reward (reward.tdiv 2))) := by
  obtain ⟨hfits, -, hmax⟩ := hr
  cases call with
  | initContract admin lpToken rewardToken governanceToken =>
    obtain ⟨hnone, config, rfl⟩ := initContract_ok (answer_eq_ok.mp hx).1
    have hzero : totalOf s = 0 := by rw [← h.total, h.fresh hnone]; rfl
    refine .inl ⟨by simp, by simp, by simp, by simp, rfl, hzero.symm, ?_, fun _ => id, by simp,
      fun _ => by simp⟩
    exact fun _ _ hpair => .inl hpair
  | createPair admin pairId pairSymbol emissionsPerBlock totalAllocated =>
    obtain ⟨hfree, hpos, hallocated, rfl⟩ := createPair_ok (answer_eq_ok.mp hx).1
    refine .inl ⟨by simp, by simp, by simp, by simp, rfl, rfl, ?_, ?_, id, h.started⟩
    · intro pairId' pairConfig hpair
      have hpair : (s.pairs.insert pairId _).lookup pairId' = some pairConfig := hpair
      rw [Store.lookup_insert_eq] at hpair
      split at hpair
      · next heq =>
        cases hpair
        exact .inr ⟨heq ▸ hfree, hpos, hallocated, rfl⟩
      · exact .inl hpair
    · intro pairId' hpair
      have hpair : (s.pairs.insert pairId _).lookup pairId' = none := hpair
      rw [Store.lookup_insert_eq] at hpair
      split at hpair
      · cases hpair
      · exact hpair
  | provideLiquidity user pairId lpAmount =>
    obtain ⟨hcall, rfl⟩ := answer_eq_ok.mp hx
    obtain ⟨hpos, hmoved⟩ := h.provide hmax hcall
    exact .inr (.inl ⟨user, pairId, lpAmount, lpAmount, hmoved, hpos, .inl ⟨rfl, rfl, rfl⟩⟩)
  | withdrawLiquidity user pairId lpAmount =>
    obtain ⟨paid, hcall, rfl⟩ := answerWith_eq_ok.mp hx
    obtain ⟨hpos, rfl, hmoved⟩ := h.withdraw hclock hseq hfits hcall
    exact .inr (.inl ⟨user, pairId, lpAmount, -lpAmount, hmoved, hpos, .inr ⟨rfl, rfl, rfl⟩⟩)
  | lockRewardsForGovernance user pairId lockupDays =>
    simp only [exec, bind_eq_ok, pure_eq_ok, Prod.mk.injEq] at hx
    obtain ⟨⟨⟨paid, governanceAmount⟩, s1⟩, hcall, rfl, rfl⟩ := hx
    obtain ⟨reward, locked, hpending, hpos, rfl, hclaim⟩ := lockRewardsForGovernance_ok hcall
    obtain ⟨rfl, hrewarded⟩ := h.claim hclock hseq hfits hpending hpos hclaim
    exact .inr (.inr ⟨user, pairId, paid, hrewarded, .inr ⟨lockupDays, rfl, rfl⟩⟩)
  | claimRewards user pairId =>
    obtain ⟨paid, hcall, rfl⟩ := answerWith_eq_ok.mp hx
    obtain ⟨reward, hpending, hpos, hclaim⟩ := claimRewards_ok hcall
    have hclaim : claimRewardsInternal env { s with lockedRewards := s.lockedRewards } user pairId
        reward = .ok (paid, s') := hclaim
    obtain ⟨rfl, hrewarded⟩ := h.claim hclock hseq hfits hpending hpos hclaim
    exact .inr (.inr ⟨user, pairId, paid, hrewarded, .inl ⟨rfl, rfl⟩⟩)
  | token c =>
    simp only [exec, bind_eq_ok, pure_eq_ok, Prod.mk.injEq] at hx
    obtain ⟨tokens, -, -, rfl⟩ := hx
    exact .inl ⟨by simp, by simp, by simp, by simp, rfl, rfl, fun _ _ hpair => .inl hpair, fun _ => id, id,
      h.started⟩

/-! ## Every run in range -/

theorem Sound.quiet (h : Sound tr s) (hq : Quiet env call s s') :
    Sound (⟨env, call, r, s, s'⟩ :: tr) s' := by
  refine ⟨?_, ?_, ?_, ?_, ?_, ?_, hq.started⟩
  · rw [hq.stakes]
    exact h.stake
  · intro pairId pairConfig hpair
    rcases hq.pairs pairId pairConfig hpair with hpair | ⟨-, hpos, -, -⟩
    · exact h.emissions pairId pairConfig hpair
    · exact hpos
  · intro n hn pairId pairConfig hpair
    rw [List.forall_mem_cons] at hn
    rcases hq.pairs pairId pairConfig hpair with hpair | ⟨-, -, -, hupdated⟩
    · exact h.updated n hn.2 pairId pairConfig hpair
    · rw [hupdated]
      exact hn.1
  · rw [hq.stakes, hq.total]
    exact h.total
  · rw [hq.total]
    exact h.totalMax
  · intro hnone
    rw [hq.stakes]
    exact h.fresh (hq.fresh hnone)

theorem Sound.moved {delta : Int} (h : Sound tr s) (hmoved : Moved env s user pairId delta s')
    (hmax : totalOf s + delta ≤ i128Max) : Sound (⟨env, call, r, s, s'⟩ :: tr) s' := by
  obtain ⟨-, -, hdebt, hdebtMax, htier⟩ := h.current env user pairId
  obtain ⟨⟨pairConfig, hpair, hpairs⟩, hstakes, hbalance, htotal, hconfig, hconfigured⟩ := hmoved
  have hnew : totalOf s' = totalOf s + delta := by
    unfold totalOf
    rw [htotal]
    rfl
  refine ⟨?_, ?_, ?_, ?_, by rw [hnew]; exact hmax, ?_, fun _ => by rw [htotal]; exact nofun⟩
  · intro user' pairId' userStake hstake
    rw [hstakes, Store.lookup_insert_eq] at hstake
    split at hstake
    · cases hstake
      exact ⟨hbalance, hdebt, hdebtMax, htier⟩
    · exact h.stake user' pairId' userStake hstake
  · intro pairId' pairConfig' hpair'
    rw [hpairs, Store.lookup_insert_eq] at hpair'
    split at hpair'
    · cases hpair'
      exact h.emissions pairId pairConfig hpair
    · exact h.emissions pairId' pairConfig' hpair'
  · intro n hn pairId' pairConfig' hpair'
    rw [List.forall_mem_cons] at hn
    rw [hpairs, Store.lookup_insert_eq] at hpair'
    split at hpair'
    · cases hpair'
      exact hn.1
    · exact h.updated n hn.2 pairId' pairConfig' hpair'
  · have hold : Store.old (fun _ (userStake : LPStake) => userStake.lpBalance) s.stakes
        (user, pairId) = (currentStake env s user pairId).lpBalance := by
      unfold Store.old currentStake
      cases s.stakes.lookup (user, pairId) <;> rfl
    rw [hstakes, Store.total_insert, hold, h.total, hnew]
    show _ - _ + ((currentStake env s user pairId).lpBalance + delta) = _
    omega
  · intro hnone
    rw [hconfig] at hnone
    exact absurd hnone hconfigured

theorem Sound.rewarded {reward : Int} (h : Sound tr s)
    (hclock : ∀ e ∈ tr, e.env.sequence ≤ env.sequence) (hseq : env.sequence < 2 ^ 32)
    (hfits : Fits env s (totalOf s)) (hrewarded : Rewarded env s user pairId reward s') :
    Sound (⟨env, call, r, s, s'⟩ :: tr) s' := by
  obtain ⟨⟨userStake, pairConfig, hstake, hpair, -, hstakes⟩, -, hpairs, htotal, hconfig⟩ :=
    hrewarded
  have hok := h.stakeOk hclock hseq hstake hpair
  have ha0 := accrued_nonneg hok h.total_nonneg
  obtain ⟨-, -, hboosted⟩ := hfits.at hstake hpair
  have hnew : totalOf s' = totalOf s := by
    unfold totalOf
    rw [htotal]
  refine ⟨?_, by rw [hpairs]; exact h.emissions, ?_, ?_, by rw [hnew]; exact h.totalMax, ?_, ?_⟩
  · intro user' pairId' userStake' hstake'
    rw [hstakes, Store.lookup_insert_eq] at hstake'
    split at hstake'
    · cases hstake'
      exact ⟨hok.balance, ha0, by show accrued _ _ _ _ ≤ _; omega, hok.tier⟩
    · exact h.stake user' pairId' userStake' hstake'
  · intro n hn pairId' pairConfig' hpair'
    rw [hpairs] at hpair'
    exact h.updated n (List.forall_mem_cons.mp hn).2 pairId' pairConfig' hpair'
  · rw [hstakes, Store.total_insert, Store.old_of_lookup hstake, h.total, hnew]
    show _ - userStake.lpBalance + userStake.lpBalance = _
    omega
  · intro hnone
    rw [hconfig] at hnone
    rw [h.fresh hnone, AList.lookup_empty] at hstake
    cases hstake
  · rw [hconfig, htotal]
    exact h.started

/-- One call in range keeps the books. -/
theorem sound_step (h : Sound tr s) (hclock : ∀ e ∈ tr, e.env.sequence ≤ env.sequence)
    (hseq : env.sequence < 2 ^ 32) (hr : InRange ⟨env, call, r, s, s'⟩)
    (hx : exec env call s = .ok (r, s')) : Sound (⟨env, call, r, s, s'⟩ :: tr) s' := by
  rcases h.exec_cases hclock hseq hr hx with hq | ⟨user, pairId, lpAmount, delta, hmoved, -, hcall⟩ |
    ⟨user, pairId, reward, hrewarded, -⟩
  · exact h.quiet hq
  · refine h.moved hmoved ?_
    obtain ⟨-, -, hmax⟩ := hr
    rcases hcall with ⟨rfl, -, rfl⟩ | ⟨rfl, -, rfl⟩
    · exact hmax
    · exact hmax
  · exact h.rewarded hclock hseq hr.1 hrewarded

end Books

end Stellara.Mining
