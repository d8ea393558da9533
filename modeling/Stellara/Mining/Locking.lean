import Stellara.Mining.Model

/-!
# Locked rewards

Half of a reward is recorded as locked, and all of it is paid out:

    lock_rewards_for_governance   pending 100: locked + 50, transferred 100

So what a lock pays and records is what was pending only if the half is nothing, which is so for
a pending reward of 1 (`lock_conserves_iff`).  What is locked stays locked: no other call changes it
(`lockedRewards_kept`).
-/

namespace Stellara.Mining

open Outcome

/-! ## What is claimed of a lock -/

def lockedOf (s : State) (user : Address) : Int := (s.lockedRewards.lookup user).getD 0

/-- What the user holds of the reward token. -/
def rewardBalance (s : State) (user : Address) : Int :=
  (s.config.map fun config => s.tokens.balance config.rewardToken user).getD 0

/-- What the call transferred to the user. -/
def transferred (user : Address) (e : Event Env Call Reply State) : Int :=
  rewardBalance e.after user - rewardBalance e.before user

/-- The call takes from what the user has locked, and does not lock. -/
def Unlocks (user : Address) (e : Event Env Call Reply State) : Prop :=
  (∀ pairId lockupDays, e.call ≠ .lockRewardsForGovernance user pairId lockupDays) ∧
    lockedOf e.after user < lockedOf e.before user

/-- **Conservation** by the lock `e`, which the calls `later` follow: what is transferred and what
is recorded as locked add up to what was pending, and an unlock pays what it takes. -/
structure Conserves (user : Address) (pairId : Nat) (later : Trace)
    (e : Event Env Call Reply State) : Prop where
  split : getPendingRewards e.env e.before user pairId =
    .ok (transferred user e + (lockedOf e.after user - lockedOf e.before user))
  unlocked : ∀ e' ∈ later, Unlocks user e' →
    transferred user e' = lockedOf e'.before user - lockedOf e'.after user

/-! ## The calls -/

section Calls

variable {env : Env} {call : Call} {r : Reply} {s s' : State} {user : Address} {pairId : Nat}

/-- What a lock finds and leaves. -/
theorem exec_lock {lockupDays : Nat}
    (hx : exec env (.lockRewardsForGovernance user pairId lockupDays) s = .ok (r, s')) :
    user ∈ env.signers ∧ ∃ config pendingReward locked, s.config = some config ∧
      calculatePendingReward env s user pairId = .ok pendingReward ∧ 0 < pendingReward ∧
      (env.i128 (lockedOf s user + pendingReward.tdiv 2) : Result Int) = .ok locked ∧
      Ledger.transfer i128Max s.tokens config.rewardToken env.self user pendingReward =
        some s'.tokens ∧
      s'.config = s.config ∧ s'.lockedRewards = s.lockedRewards.insert user locked := by
  simp only [exec, lockRewardsForGovernance, requireInitialized, bind_eq_ok, require_eq_ok,
    requireAuth_eq_ok, exists_unit_and, ofOption_eq_ok, pure_eq_ok, Prod.mk.injEq] at hx
  obtain ⟨-, ⟨hsigned, config, hconfig, -, pendingReward, hpending, hpos, locked, hlocked,
    ⟨paid, s1⟩, hclaim, rfl⟩, -, rfl⟩ := hx
  unfold claimRewardsInternal at hclaim
  rw [if_neg (by omega)] at hclaim
  simp only [requireInitialized, bind_eq_ok, require_eq_ok, exists_unit_and, ofOption_eq_ok,
    tokens_transfer_eq_ok, pure_eq_ok, Prod.mk.injEq] at hclaim
  obtain ⟨config', hconfig', -, tokens, htransfer, userStake, -, rewardDebt, -, -, rfl⟩ := hclaim
  rw [hconfig] at hconfig'
  cases hconfig'
  exact ⟨hsigned, config, pendingReward, locked, hconfig, hpending, hpos, hlocked, htransfer, rfl,
    rfl⟩

theorem claimRewardsInternal_locked {pendingReward paid : Int}
    (h : claimRewardsInternal env s user pairId pendingReward = .ok (paid, s')) :
    s'.lockedRewards = s.lockedRewards := by
  rcases lt_or_ge 0 pendingReward with hpos | hle
  · obtain ⟨userStake, tokens, rewardDebt, -, -, -, rfl⟩ := claimRewardsInternal_ok hpos h
    rfl
  · rw [(claimRewardsInternal_nonpos hle h).2]

/-- **Nothing else locks or unlocks.** -/
theorem lockedRewards_kept (hx : exec env call s = .ok (r, s'))
    (hcall : ∀ user pairId lockupDays, call ≠ .lockRewardsForGovernance user pairId lockupDays) :
    s'.lockedRewards = s.lockedRewards := by
  cases call with
  | initContract admin lpToken rewardToken governanceToken =>
    obtain ⟨-, config, rfl⟩ := initContract_ok (answer_eq_ok.mp hx).1
    rfl
  | createPair admin pairId pairSymbol emissionsPerBlock totalAllocated =>
    obtain ⟨-, -, -, rfl⟩ := createPair_ok (answer_eq_ok.mp hx).1
    rfl
  | provideLiquidity user pairId lpAmount =>
    obtain ⟨config, pairConfig, tokens, lpBalance, total, -, -, -, -, -, rfl⟩ :=
      provideLiquidity_ok (answer_eq_ok.mp hx).1
    rfl
  | withdrawLiquidity user pairId lpAmount =>
    obtain ⟨paid, hx, -⟩ := answerWith_eq_ok.mp hx
    obtain ⟨config, userStake, pairConfig, pendingReward, s1, tokens, lpBalance, total, -, -, -, -,
      -, -, hclaim, -, -, rfl⟩ := withdrawLiquidity_ok hx
    have hkept := claimRewardsInternal_locked hclaim
    exact hkept
  | lockRewardsForGovernance user pairId lockupDays =>
    exact absurd rfl (hcall user pairId lockupDays)
  | claimRewards user pairId =>
    obtain ⟨paid, hx, -⟩ := answerWith_eq_ok.mp hx
    obtain ⟨pendingReward, -, -, hclaim⟩ := claimRewards_ok hx
    exact claimRewardsInternal_locked hclaim
  | token c =>
    simp only [exec, bind_eq_ok, pure_eq_ok, Prod.mk.injEq] at hx
    obtain ⟨tokens, -, -, rfl⟩ := hx
    rfl

theorem pendingOf_inI128 {userStake : LPStake} {pairConfig : PairConfig} {totalStaked x : Int}
    (h : pendingOf env userStake pairConfig totalStaked = .ok x) : InI128 x := by
  unfold pendingOf at h
  split at h
  · obtain rfl := pure_eq_ok.mp h
    exact ⟨by decide, by decide⟩
  · simp only [bind_eq_ok] at h
    obtain ⟨_, -, _, -, _, -, _, -, _, -, _, -, _, -, hx⟩ := h
    exact i128_inI128 hx

theorem calculatePendingReward_inI128 {x : Int}
    (h : calculatePendingReward env s user pairId = .ok x) : InI128 x := by
  simp only [calculatePendingReward, bind_eq_ok] at h
  obtain ⟨userStake, -, pairConfig, -, hx⟩ := h
  exact pendingOf_inI128 hx

theorem not_unlocks (hx : exec env call s = .ok (r, s')) : ¬ Unlocks user ⟨env, call, r, s, s'⟩ := by
  rintro ⟨hother, hlt⟩
  refine hlt.ne ?_
  by_cases hlock : ∃ user' pairId lockupDays, call = .lockRewardsForGovernance user' pairId lockupDays
  · obtain ⟨user', pairId, lockupDays, rfl⟩ := hlock
    have hne : user ≠ user' := by
      rintro rfl
      exact hother pairId lockupDays rfl
    obtain ⟨-, config, pendingReward, locked, -, -, -, -, -, -, heq⟩ := exec_lock hx
    show (s'.lockedRewards.lookup user).getD 0 = _
    rw [heq, AList.lookup_insert_ne hne]
    rfl
  · have hkept := lockedRewards_kept hx fun user pairId lockupDays heq =>
      hlock ⟨user, pairId, lockupDays, heq⟩
    show (s'.lockedRewards.lookup user).getD 0 = _
    rw [hkept]
    rfl

end Calls

/-! ## Runs -/

/-- What is recorded as locked is a value of the type. -/
theorem lockedOf_inI128 {d : Deployment} {tr : Trace} {s : State} (h : Run (machine d) tr s)
    (user : Address) : InI128 (lockedOf s user) := by
  refine h.invariant (I := fun s => ∀ user, InI128 (lockedOf s user)) ?_ ?_ user
  · intro s hs user
    have hs : s = { tokens := s.tokens } := hs
    rw [hs]
    have hzero : InI128 0 := ⟨by decide, by decide⟩
    exact hzero
  · intro env call r s s' _ hbefore hx user
    by_cases hlock : ∃ user pairId lockupDays, call = .lockRewardsForGovernance user pairId lockupDays
    · obtain ⟨user', pairId, lockupDays, rfl⟩ := hlock
      obtain ⟨-, config, pendingReward, locked, -, -, -, hlocked, -, -, heq⟩ := exec_lock hx
      unfold lockedOf
      rw [heq, Store.lookup_insert_eq]
      split
      · exact i128_inI128 hlocked
      · exact hbefore user
    · have hkept := lockedRewards_kept hx fun user pairId lockupDays heq =>
        hlock ⟨user, pairId, lockupDays, heq⟩
      unfold lockedOf
      rw [hkept]
      exact hbefore user

/-- Recording half of `x` leaves what was recorded exactly if the half is nothing. -/
theorem locked_same_iff {env : Env} {l x y : Int} (hl : InI128 l) (hx : InI128 x) (hpos : 0 < x)
    (h : (env.i128 (l + x.tdiv 2) : Result Int) = .ok y) : y = l ↔ x = 1 := by
  have hhalf : x.tdiv 2 = x / 2 := Int.tdiv_eq_ediv_of_nonneg hpos.le
  rw [hhalf] at h
  obtain ⟨-, hmax⟩ := inI128_iff.mp hx
  unfold i128Max at hmax
  constructor
  · intro hsame
    have hwrapped := i128_eq_asI128 h
    unfold asI128 at hwrapped
    rw [Int.bmod_def] at hwrapped
    obtain ⟨h0, h1⟩ := inI128_iff.mp hl
    unfold i128Max at h1
    omega
  · rintro rfl
    have hzero : l + 1 / 2 = l := by omega
    rw [hzero] at h
    exact i128_exact h hl

/-- **Conservation of a locked reward** holds of exactly those accepted locks that find a pending
reward of 1. -/
theorem lock_conserves_iff {d : Deployment} {tr later : Trace} {s : State}
    {e : Event Env Call Reply State} {user : Address} {pairId lockupDays : Nat}
    (h : Run (machine d) (later ++ e :: tr) s)
    (hcall : e.call = .lockRewardsForGovernance user pairId lockupDays) :
    Conserves user pairId later e ↔ getPendingRewards e.env e.before user pairId = .ok 1 := by
  obtain ⟨env, call, r, s1, s2⟩ := e
  obtain rfl : call = _ := hcall
  obtain ⟨tr', hrun, hv, hx⟩ := h.of_mem (List.mem_append_right later List.mem_cons_self)
  have hx : exec env (.lockRewardsForGovernance user pairId lockupDays) s1 = .ok (r, s2) := hx
  obtain ⟨hsigned, config, pendingReward, locked, hconfig, hpending, hpos, hlocked, htransfer,
    hconfig', hlocked'⟩ := exec_lock hx
  have hget : getPendingRewards env s1 user pairId = .ok pendingReward := by
    unfold getPendingRewards requireInitialized
    rw [hconfig]
    exact hpending
  -- all of the reward reaches the user
  have htransferred : transferred user ⟨env, .lockRewardsForGovernance user pairId lockupDays, r, s1,
      s2⟩ = pendingReward := by
    have hbalance := Ledger.balance_transfer htransfer config.rewardToken user
    have hne : user ≠ env.self := hv.1.ne_self hsigned
    rw [if_neg (fun hself => hne hself.2), if_pos ⟨rfl, rfl⟩] at hbalance
    show rewardBalance s2 user - rewardBalance s1 user = pendingReward
    unfold rewardBalance
    rw [hconfig', hconfig]
    show s2.tokens.balance _ user - s1.tokens.balance _ user = _
    omega
  have hafter : lockedOf s2 user = locked := by
    unfold lockedOf
    rw [hlocked', AList.lookup_insert]
    rfl
  have hsame : locked = lockedOf s1 user ↔ pendingReward = 1 :=
    locked_same_iff (lockedOf_inI128 hrun user) (calculatePendingReward_inI128 hpending) hpos hlocked
  -- the second half of the claim is about no call
  have hunlocked : ∀ e' ∈ later, Unlocks user e' →
      transferred user e' = lockedOf e'.before user - lockedOf e'.after user := by
    intro e' he' hunlocks
    obtain ⟨-, -, -, hx'⟩ := h.of_mem (List.mem_append_left _ he')
    exact absurd hunlocks (not_unlocks hx')
  calc Conserves user pairId later ⟨env, .lockRewardsForGovernance user pairId lockupDays, r, s1, s2⟩
    _ ↔ getPendingRewards env s1 user pairId =
        .ok (transferred user ⟨env, .lockRewardsForGovernance user pairId lockupDays, r, s1, s2⟩ +
          (lockedOf s2 user - lockedOf s1 user)) :=
      ⟨fun hconserves => hconserves.split, fun hsplit => ⟨hsplit, hunlocked⟩⟩
    _ ↔ pendingReward = pendingReward + (locked - lockedOf s1 user) := by
      rw [hget, Except.ok.injEq, htransferred, hafter]
    _ ↔ pendingReward = 1 := by
      rw [← hsame]
      omega
    _ ↔ getPendingRewards env s1 user pairId = .ok 1 := by
      rw [hget, Except.ok.injEq]

/-- Users 1 and 2 provide 100 and `other`, and user 1 locks in the given block. -/
def locking (other : Int) (block : Nat) : List (Env × Call) :=
  opened ++ [(callAt 1 [1], .provideLiquidity 1 1 100), (callAt 1 [2], .provideLiquidity 2 1 other),
    (callAt block [1], .lockRewardsForGovernance 1 1 30)]

/-- One block, of whose rewards a tenth is 1. -/
theorem lock_conserves_one :
    ∃ (tr : Trace) (s : State) (e : Event Env Call Reply State), Run (machine ⟨0, true⟩) (e :: tr) s ∧
      e.call = .lockRewardsForGovernance 1 1 30 ∧ Conserves 1 1 [] e := by
  have hinit : (machine ⟨0, true⟩).init { tokens := .empty } := rfl
  obtain ⟨tr, s, hrun, hok⟩ := Machine.exists_run_of_replay hinit (locking 900 2)
    (fun tr _ => tr.head?.any fun e => e.call = .lockRewardsForGovernance 1 1 30 ∧
      (getPendingRewards e.env e.before 1 1).toOption = some 1)
    (by decide) (by decide) (by decide)
  obtain ⟨e, he, hok⟩ := (Option.any_eq_true _ _).mp hok
  obtain ⟨tr, rfl⟩ := List.head?_eq_some_iff.mp he
  obtain ⟨hcall, hpending⟩ := of_decide_eq_true hok
  have hlast : Run (machine ⟨0, true⟩) ([] ++ e :: tr) s := hrun
  exact ⟨tr, s, e, hrun, hcall, (lock_conserves_iff hlast hcall).mpr (eq_ok_of_toOption hpending)⟩

/-- **Of 50 pending rewards 75 are given out**: all are transferred, and half are recorded as well. -/
theorem half_given_twice :
    ¬ ∀ (d : Deployment) (tr later : Trace) (s : State) (e : Event Env Call Reply State)
      (user : Address) (pairId lockupDays : Nat), Run (machine d) (later ++ e :: tr) s →
      e.call = .lockRewardsForGovernance user pairId lockupDays → Conserves user pairId later e := by
  intro hclaim
  have hinit : (machine ⟨0, true⟩).init { tokens := .empty } := rfl
  obtain ⟨tr, s, hrun, hok⟩ := Machine.exists_run_of_replay hinit (locking 100 11)
    (fun tr _ => tr.head?.any fun e => e.call = .lockRewardsForGovernance 1 1 30 ∧
      (getPendingRewards e.env e.before 1 1).toOption = some 50 ∧
      transferred 1 e = 50 ∧ lockedOf e.after 1 - lockedOf e.before 1 = 25)
    (by decide) (by decide) (by decide)
  obtain ⟨e, he, hok⟩ := (Option.any_eq_true _ _).mp hok
  obtain ⟨tr, rfl⟩ := List.head?_eq_some_iff.mp he
  obtain ⟨hcall, hpending, hpaid, hlocked⟩ := of_decide_eq_true hok
  have hsplit := (hclaim _ tr [] s e 1 1 30 hrun hcall).split
  rw [eq_ok_of_toOption hpending, hpaid, hlocked] at hsplit
  cases hsplit

end Stellara.Mining
