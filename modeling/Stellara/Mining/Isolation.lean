import Stellara.Mining.Accrual

/-!
# Rewards of the others

    Run (machine d) tr s → (∀ e ∈ tr, InRange e) → ((∀ e ∈ tr, Isolated e) ↔ ∀ e ∈ tr, Kept e)
                                                                               (isolation_iff)

`Isolated`: a provision or a withdrawal leaves the pending rewards of all other users at least
what they were.  It does so exactly if no other user of the pair has accrued anything since
the pair's last update, and a provision leaves what is accrued in other pairs as it was
(`Kept`): the call moves the pair's last update to now without keeping what was accrued, and
the total that every pair's rewards are divided by is that of all pairs.
-/

namespace Stellara.Mining

open Outcome

/-- The call moves liquidity of the user in the pair. -/
def Call.Moves (call : Call) (user : Address) (pairId : Nat) : Prop :=
  ∃ lpAmount, call = .provideLiquidity user pairId lpAmount ∨
    call = .withdrawLiquidity user pairId lpAmount

/-- **Isolation** of a call: nobody else's pending rewards go down. -/
def Isolated (e : Event Env Call Reply State) : Prop :=
  ∀ mover movedPair, e.call.Moves mover movedPair → ∀ user pairId before, user ≠ mover →
    calculatePendingReward e.env e.before user pairId = .ok before →
    ∃ after, calculatePendingReward e.env e.after user pairId = .ok after ∧ before ≤ after

/-- `P` holds of the pair, the stake and the pair's configuration of every other user. -/
def Others (s : State) (user : Address) (P : Nat → LPStake → PairConfig → Prop) : Prop :=
  ∀ entry ∈ s.stakes.entries, entry.1.1 ≠ user → ∀ pairConfig,
    s.pairs.lookup entry.1.2 = some pairConfig → P entry.1.2 entry.2 pairConfig

instance (s : State) (user : Address) (P : Nat → LPStake → PairConfig → Prop)
    [∀ pairId userStake pairConfig, Decidable (P pairId userStake pairConfig)] :
    Decidable (Others s user P) :=
  inferInstanceAs (Decidable (∀ entry ∈ s.stakes.entries, entry.1.1 ≠ user → ∀ pairConfig,
    s.pairs.lookup entry.1.2 = some pairConfig → P entry.1.2 entry.2 pairConfig))

/-- A provision to `movedPair` keeps what another user's stake has accrued: nothing there, and
elsewhere as much as with the larger total. -/
def ProvisionKeeps (env : Env) (total lpAmount : Int) (movedPair pairId : Nat)
    (userStake : LPStake) (pairConfig : PairConfig) : Prop :=
  if pairId = movedPair then accrued env userStake pairConfig total = 0
  else accrued env userStake pairConfig (total + lpAmount) = accrued env userStake pairConfig total

instance (env : Env) (total lpAmount : Int) (movedPair pairId : Nat) (userStake : LPStake)
    (pairConfig : PairConfig) :
    Decidable (ProvisionKeeps env total lpAmount movedPair pairId userStake pairConfig) :=
  inferInstanceAs (Decidable (if pairId = movedPair then accrued env userStake pairConfig total = 0
    else accrued env userStake pairConfig (total + lpAmount) =
      accrued env userStake pairConfig total))

/-- A withdrawal from `movedPair` does: nothing was accrued there. -/
def WithdrawalKeeps (env : Env) (total : Int) (movedPair pairId : Nat) (userStake : LPStake)
    (pairConfig : PairConfig) : Prop :=
  pairId = movedPair → accrued env userStake pairConfig total = 0

instance (env : Env) (total : Int) (movedPair pairId : Nat) (userStake : LPStake)
    (pairConfig : PairConfig) :
    Decidable (WithdrawalKeeps env total movedPair pairId userStake pairConfig) :=
  inferInstanceAs (Decidable (pairId = movedPair → accrued env userStake pairConfig total = 0))

/-- **The condition.**  The others of the pair have accrued nothing, and a provision does not
change what is accrued elsewhere. -/
def Kept (e : Event Env Call Reply State) : Prop :=
  match e.call with
  | .provideLiquidity user movedPair lpAmount =>
    Others e.before user (ProvisionKeeps e.env (totalOf e.before) lpAmount movedPair)
  | .withdrawLiquidity user movedPair _ =>
    Others e.before user (WithdrawalKeeps e.env (totalOf e.before) movedPair)
  | _ => True

instance (e : Event Env Call Reply State) : Decidable (Kept e) :=
  match e with
  | ⟨env, .provideLiquidity user movedPair lpAmount, _, s, _⟩ =>
    inferInstanceAs (Decidable (Others s user (ProvisionKeeps env (totalOf s) lpAmount movedPair)))
  | ⟨env, .withdrawLiquidity user movedPair _, _, s, _⟩ =>
    inferInstanceAs (Decidable (Others s user (WithdrawalKeeps env (totalOf s) movedPair)))
  | ⟨_, .initContract .., _, _, _⟩ | ⟨_, .createPair .., _, _, _⟩
  | ⟨_, .lockRewardsForGovernance .., _, _, _⟩ | ⟨_, .claimRewards .., _, _, _⟩
  | ⟨_, .token _, _, _, _⟩ => inferInstanceAs (Decidable True)

/-- The pair after a call that moves liquidity in `movedPair`. -/
def pairAfter (env : Env) (movedPair pairId : Nat) (pairConfig : PairConfig) : PairConfig :=
  if pairId = movedPair then { pairConfig with lastUpdateBlock := env.sequence } else pairConfig

section Step

variable {env : Env} {call : Call} {r : Reply} {s s' : State} {tr : Trace} {user mover : Address}
  {pairId movedPair : Nat} {userStake : LPStake} {pairConfig : PairConfig} {delta : Int}

theorem accrued_of_empty {totalStaked : Int} (h : userStake.lpBalance = 0) :
    accrued env userStake pairConfig totalStaked = 0 := by
  unfold accrued weighted
  rw [h, zero_mul, zero_mul, Int.zero_ediv]

theorem accrued_refreshed {totalStaked : Int} :
    accrued env userStake { pairConfig with lastUpdateBlock := env.sequence } totalStaked = 0 := by
  unfold accrued weighted
  rw [sub_self, mul_zero, Int.zero_ediv]

/-- Another user's stake and pair after the call. -/
theorem Moved.others (hmoved : Moved env s mover movedPair delta s') (hne : user ≠ mover)
    (hstake : s.stakes.lookup (user, pairId) = some userStake)
    (hpair : s.pairs.lookup pairId = some pairConfig) :
    s'.stakes.lookup (user, pairId) = some userStake ∧
      s'.pairs.lookup pairId = some (pairAfter env movedPair pairId pairConfig) := by
  obtain ⟨⟨movedConfig, hmovedPair, hpairs⟩, hstakes, -⟩ := hmoved
  constructor
  · rw [hstakes, Store.lookup_insert_eq, if_neg (fun heq => hne (Prod.mk.inj heq).1)]
    exact hstake
  · rw [hpairs, Store.lookup_insert_eq]
    unfold pairAfter
    split
    · next heq =>
      subst heq
      rw [hpair] at hmovedPair
      cases hmovedPair
      rfl
    · exact hpair

theorem fitsAt_pairAfter {totalStaked : Int}
    (hfit : FitsAt env userStake pairConfig totalStaked) :
    FitsAt env userStake (pairAfter env movedPair pairId pairConfig) totalStaked := by
  unfold pairAfter
  split
  · refine ⟨hfit.1, ?_, ?_⟩
    · unfold weighted
      rw [sub_self, mul_zero]
      exact zero_le_i128Max
    · rw [accrued_refreshed, zero_mul]
      exact zero_le_i128Max
  · exact hfit

/-- Another user's pending rewards before and after the call: they do not go down exactly if
what is accrued does not. -/
theorem Sound.pending_others (h : Sound tr s) (hclock : ∀ e ∈ tr, e.env.sequence ≤ env.sequence)
    (hseq : env.sequence < 2 ^ 32) (hr : InRange ⟨env, call, r, s, s'⟩)
    (hafter : Sound (⟨env, call, r, s, s'⟩ :: tr) s')
    (hmoved : Moved env s mover movedPair delta s')
    (hnew : call.newTotal s = totalOf s') (hne : user ≠ mover)
    (hstake : s.stakes.lookup (user, pairId) = some userStake)
    (hpair : s.pairs.lookup pairId = some pairConfig) :
    ∃ before after, calculatePendingReward env s user pairId = .ok before ∧
      calculatePendingReward env s' user pairId = .ok after ∧
      (before ≤ after ↔ accrued env userStake pairConfig (totalOf s) ≤
        accrued env userStake (pairAfter env movedPair pairId pairConfig) (totalOf s')) := by
  obtain ⟨hfits, hfits', -⟩ := hr
  have hfits' : Fits env s (call.newTotal s) := hfits'
  rw [hnew] at hfits'
  obtain ⟨hstake', hpair'⟩ := hmoved.others hne hstake hpair
  have hclock' : ∀ e ∈ (⟨env, call, r, s, s'⟩ :: tr : Trace), e.env.sequence ≤ env.sequence :=
    List.forall_mem_cons.mpr ⟨le_rfl, hclock⟩
  refine ⟨_, _, h.pending hclock hseq hstake hpair (hfits.at hstake hpair),
    hafter.pending hclock' hseq hstake' hpair' (fitsAt_pairAfter (hfits'.at hstake hpair)), ?_⟩
  by_cases hempty : userStake.lpBalance = 0
  · rw [if_pos (.inr hempty), if_pos (.inr hempty), accrued_of_empty hempty,
      accrued_of_empty hempty]
  · have hbalance := (h.stake user pairId userStake hstake).1
    have hle := h.le_total hstake
    have hle' := hafter.le_total hstake'
    rw [if_neg (by omega), if_neg (by omega)]
    omega

/-- **One call** in range that moves liquidity is isolated exactly if it keeps what is accrued. -/
theorem isolated_moved_iff (h : Sound tr s) (hclock : ∀ e ∈ tr, e.env.sequence ≤ env.sequence)
    (hseq : env.sequence < 2 ^ 32) (hr : InRange ⟨env, call, r, s, s'⟩)
    (hafter : Sound (⟨env, call, r, s, s'⟩ :: tr) s')
    (hmoved : Moved env s mover movedPair delta s') (hnew : call.newTotal s = totalOf s')
    (hmoves : ∀ user pairId, call.Moves user pairId ↔ user = mover ∧ pairId = movedPair) :
    Isolated ⟨env, call, r, s, s'⟩ ↔
      Others s mover fun pairId userStake pairConfig =>
        accrued env userStake pairConfig (totalOf s) ≤
          accrued env userStake (pairAfter env movedPair pairId pairConfig) (totalOf s') := by
  constructor
  · rintro hisolated ⟨⟨user, pairId⟩, userStake⟩ hentry hne pairConfig hpair
    have hstake := AList.mem_lookup_iff.mpr hentry
    obtain ⟨before, after, hbefore, hafter', hiff⟩ :=
      h.pending_others hclock hseq hr hafter hmoved hnew hne hstake hpair
    obtain ⟨after', hok, hle⟩ :=
      hisolated mover movedPair ((hmoves _ _).mpr ⟨rfl, rfl⟩) user pairId before hne hbefore
    have hok : calculatePendingReward env s' user pairId = .ok after' := hok
    rw [hafter'] at hok
    cases hok
    exact hiff.mp hle
  · intro hothers mover' movedPair' hm user pairId before hne hbefore
    obtain ⟨rfl, rfl⟩ := (hmoves _ _).mp hm
    obtain ⟨userStake, hstake, pairConfig, hpair⟩ : ∃ userStake,
        s.stakes.lookup (user, pairId) = some userStake ∧ ∃ pairConfig,
          s.pairs.lookup pairId = some pairConfig := by
      simp only [calculatePendingReward, bind_eq_ok, ofOption_eq_ok] at hbefore
      obtain ⟨userStake, hstake, pairConfig, hpair, -⟩ := hbefore
      exact ⟨userStake, hstake, pairConfig, hpair⟩
    obtain ⟨before', after, hbefore', hafter', hiff⟩ :=
      h.pending_others hclock hseq hr hafter hmoved hnew hne hstake hpair
    have hbefore : calculatePendingReward env s user pairId = .ok before := hbefore
    rw [hbefore'] at hbefore
    cases hbefore
    refine ⟨after, hafter', hiff.mpr ?_⟩
    exact hothers ⟨(user, pairId), userStake⟩ (AList.mem_lookup_iff.mp hstake) hne pairConfig hpair

/-- `Others`, compared stake by stake. -/
theorem others_congr {P Q : Nat → LPStake → PairConfig → Prop}
    (h : ∀ user pairId userStake pairConfig, user ≠ mover →
      s.stakes.lookup (user, pairId) = some userStake → s.pairs.lookup pairId = some pairConfig →
      (P pairId userStake pairConfig ↔ Q pairId userStake pairConfig)) :
    Others s mover P ↔ Others s mover Q :=
  forall_congr' fun entry => forall_congr' fun hentry => forall_congr' fun hne =>
    forall_congr' fun pairConfig => forall_congr' fun hpair =>
      h entry.1.1 entry.1.2 entry.2 pairConfig hne (AList.mem_lookup_iff.mpr hentry) hpair

/-- In a call that moves nothing there is nothing to keep. -/
theorem isolated_of_still (h : ∀ user pairId, ¬ call.Moves user pairId) :
    Isolated ⟨env, call, r, s, s'⟩ :=
  fun mover movedPair hm => absurd hm (h mover movedPair)

/-- A stake that is part of the smaller total has accrued the more there. -/
theorem accrued_le {total total' : Int} (hok : StakeOk env userStake pairConfig)
    (hin : userStake.lpBalance ≤ total) (hle : total ≤ total') :
    accrued env userStake pairConfig total' ≤ accrued env userStake pairConfig total := by
  by_cases hempty : userStake.lpBalance = 0
  · rw [accrued_of_empty hempty, accrued_of_empty hempty]
  · have hbalance := hok.balance
    exact accrued_anti hok (by omega) hle

/-- A provision: in its pair nothing is left of what was accrued, elsewhere the larger total can
only take away. -/
theorem provisionKeeps_iff {total lpAmount : Int} (hok : StakeOk env userStake pairConfig)
    (ht : 0 ≤ total) (hin : userStake.lpBalance ≤ total) (hamount : 0 ≤ lpAmount) :
    accrued env userStake pairConfig total ≤
        accrued env userStake (pairAfter env movedPair pairId pairConfig) (total + lpAmount) ↔
      ProvisionKeeps env total lpAmount movedPair pairId userStake pairConfig := by
  have ha0 := accrued_nonneg hok ht
  unfold ProvisionKeeps pairAfter
  split
  · rw [accrued_refreshed]
    omega
  · have hanti := accrued_le hok hin (Int.le_add_of_nonneg_right hamount)
    omega

/-- A withdrawal: in its pair nothing is left either, elsewhere the smaller total can only add. -/
theorem withdrawalKeeps_iff {total total' : Int} (hok : StakeOk env userStake pairConfig)
    (ht : 0 ≤ total) (hin : userStake.lpBalance ≤ total') (hle : total' ≤ total) :
    accrued env userStake pairConfig total ≤
        accrued env userStake (pairAfter env movedPair pairId pairConfig) total' ↔
      WithdrawalKeeps env total movedPair pairId userStake pairConfig := by
  have ha0 := accrued_nonneg hok ht
  unfold WithdrawalKeeps pairAfter
  split
  · next heq =>
    rw [accrued_refreshed]
    constructor
    · intro hle _
      omega
    · intro hzero
      exact (hzero heq).le
  · next hother =>
    exact iff_of_true (accrued_le hok hin hle) (fun heq => absurd heq hother)

/-- **One call** in range is isolated exactly if it keeps what is accrued. -/
theorem isolated_iff (h : Sound tr s) (hclock : ∀ e ∈ tr, e.env.sequence ≤ env.sequence)
    (hseq : env.sequence < 2 ^ 32) (hr : InRange ⟨env, call, r, s, s'⟩)
    (hx : exec env call s = .ok (r, s')) :
    Isolated ⟨env, call, r, s, s'⟩ ↔ Kept ⟨env, call, r, s, s'⟩ := by
  have hafter := sound_step h hclock hseq hr hx
  rcases h.exec_cases hclock hseq hr hx with hq | ⟨mover, movedPair, lpAmount, delta, hmoved, hpos,
    hcall⟩ | ⟨mover, movedPair, reward, -, hcall⟩
  · -- nothing moves
    have hkept : Kept ⟨env, call, r, s, s'⟩ := by
      cases call with
      | provideLiquidity user pairId lpAmount => exact absurd rfl (hq.provide _ _ _)
      | withdrawLiquidity user pairId lpAmount => exact absurd rfl (hq.withdraw _ _ _)
      | _ => exact trivial
    refine iff_of_true (isolated_of_still ?_) hkept
    rintro user pairId ⟨lpAmount, hc | hc⟩
    · exact hq.provide _ _ _ hc
    · exact hq.withdraw _ _ _ hc
  · have htotal : totalOf s' = totalOf s + delta := by
      unfold totalOf
      rw [hmoved.total]
      rfl
    have hle := hafter.total_nonneg
    rcases hcall with ⟨rfl, rfl, rfl⟩ | ⟨rfl, rfl, rfl⟩
    · -- a provision
      show _ ↔ Others s mover (ProvisionKeeps env (totalOf s) delta movedPair)
      rw [isolated_moved_iff h hclock hseq hr hafter hmoved htotal.symm
        (fun user pairId => by simp [Call.Moves, and_comm, eq_comm])]
      refine others_congr fun user pairId userStake pairConfig _ hstake hpair => ?_
      rw [htotal]
      exact provisionKeeps_iff (h.stakeOk hclock hseq hstake hpair) h.total_nonneg
        (h.le_total hstake) (by omega)
    · -- a withdrawal
      show _ ↔ Others s mover (WithdrawalKeeps env (totalOf s) movedPair)
      rw [isolated_moved_iff h hclock hseq hr hafter hmoved htotal.symm
        (fun user pairId => by simp [Call.Moves, and_comm, eq_comm])]
      refine others_congr fun user pairId userStake pairConfig hne hstake hpair => ?_
      exact withdrawalKeeps_iff (h.stakeOk hclock hseq hstake hpair) h.total_nonneg
        (hafter.le_total (hmoved.others hne hstake hpair).1) (by omega)
  · -- rewards
    have hkept : Kept ⟨env, call, r, s, s'⟩ := by
      rcases hcall with ⟨rfl, -⟩ | ⟨_, rfl, -⟩
      · exact trivial
      · exact trivial
    refine iff_of_true (isolated_of_still ?_) hkept
    rintro user pairId ⟨lpAmount, hc⟩
    rcases hcall with ⟨rfl, -⟩ | ⟨_, rfl, -⟩
    · rcases hc with hc | hc <;> cases hc
    · rcases hc with hc | hc <;> cases hc

end Step

/-! ## Every run -/

/-- **Isolation.**  Along a run whose arithmetic stays in range, every provision and withdrawal
is isolated if and only if every one keeps what the others have accrued. -/
theorem isolation_iff {d : Deployment} {tr : Trace} {s : State} (h : Run (machine d) tr s)
    (hr : ∀ e ∈ tr, InRange e) : (∀ e ∈ tr, Isolated e) ↔ ∀ e ∈ tr, Kept e := by
  rw [← throughout_const, ← throughout_const]
  refine h.throughout_iff_of (I := Sound) hr ?_ ?_
  · intro s hs
    have hs : s = { tokens := s.tokens } := hs
    rw [hs]
    exact sound_start s.tokens
  · intro tr env call r s s' _ hv hclock hsound hx hrange
    exact ⟨isolated_iff hsound hclock hv.2 hrange hx,
      fun _ => sound_step hsound hclock hv.2 hrange hx⟩

/-- User 1 has 100 pending when user 2 provides liquidity to the same pair, and nothing after. -/
theorem rewards_forfeited :
    ∃ (tr : Trace) (s : State), Run (machine ⟨0, true⟩) tr s ∧ ¬ ∀ e ∈ tr, Isolated e := by
  have hinit : (machine ⟨0, true⟩).init { tokens := .empty } := rfl
  obtain ⟨tr, s, hrun, hok⟩ := Machine.exists_run_of_replay hinit
    (opened ++ [(callAt 1 [1], .provideLiquidity 1 1 100),
      (callAt 11 [2], .provideLiquidity 2 1 100)])
    (fun tr _ => tr.head?.map (fun e => (e.call, (calculatePendingReward e.env e.before 1 1).toOption,
      (calculatePendingReward e.env e.after 1 1).toOption)) =
        some (.provideLiquidity 2 1 100, some 100, some 0))
    (by decide) (by decide) (by decide)
  have hlast := of_decide_eq_true hok
  refine ⟨tr, s, hrun, fun hall => ?_⟩
  cases tr with
  | nil => cases hlast
  | cons e tr =>
    simp only [List.head?_cons, Option.map_some, Option.some.injEq, Prod.mk.injEq] at hlast
    obtain ⟨hcall, hbefore, hafter⟩ := hlast
    obtain ⟨after, hok, hle⟩ := hall e List.mem_cons_self 2 1 ⟨100, .inl hcall⟩ 1 1 100 (by decide)
      (eq_ok_of_toOption hbefore)
    rw [eq_ok_of_toOption hafter] at hok
    cases hok
    omega

/-- Two users provide in one block and claim later; nobody loses anything. -/
theorem isolation_two :
    ∃ (tr : Trace) (s : State), Run (machine ⟨0, true⟩) tr s ∧ tr.length = 9 ∧
      ∀ e ∈ tr, Isolated e := by
  have hinit : (machine ⟨0, true⟩).init { tokens := .empty } := rfl
  obtain ⟨tr, s, hrun, hok⟩ := Machine.exists_run_of_replay hinit
    (opened ++ [(callAt 1 [1], .provideLiquidity 1 1 100), (callAt 1 [2], .provideLiquidity 2 1 300),
      (callAt 11 [1], .claimRewards 1 1), (callAt 11 [2], .claimRewards 2 1)])
    (fun tr _ => tr.length = 9 ∧ (∀ e ∈ tr, InRange e) ∧ ∀ e ∈ tr, Kept e)
    (by decide) (by decide) (by decide)
  obtain ⟨hlength, hrange, hkept⟩ := of_decide_eq_true hok
  exact ⟨tr, s, hrun, hlength, (isolation_iff hrun hrange).mpr hkept⟩

end Stellara.Mining
