import Stellara.Staking.Solvency

/-!
# What a stake accrues

A stake accrues its amount times the rate of its pool times the seconds since the last claim,
over ten thousand times the seconds of a year.  `calculate_rewards` multiplies in `i128` first
and divides then, so it has this value wherever the product fits (`calculateRewards_fits`).

`claim` and `compound` hand the accrued reward over before they restart the time, and `unstake`
pays it out before it drops the stake.  `stake` restarts the time and hands over nothing: a
call that adds to a stake keeps what had accrued only where that was less than one unit
(`staking_more_iff`).

The runs here are those of any two tokens, with any payments into the contract.
-/

namespace Stellara.Staking

open Outcome

/-- Runs with any tokens. -/
def openMachine (d : Deployment) : Machine Env Call Reply (Fault ContractError) State where
  init s := s.config = none ∧ s.stakes = ∅
  valid env _ := env.Of d ∧ env.timestamp < 2 ^ 64
  clock env := env.timestamp
  exec env call s := exec env call s

instance (d : Deployment) (env : Env) (call : Call) : Decidable ((openMachine d).valid env call) :=
  inferInstanceAs (Decidable (_ ∧ _))

/-- Amount times rate times seconds, at time `t`. -/
def UserStake.product (st : UserStake) (pool : PoolConfig) (t : Nat) : Int :=
  st.amount * pool.apyBps * (t - st.lastClaimTimestamp)

/-- The divisor of the product. -/
def divisor : Int := 10000 * secondsInYear

/-- The product of the user's stake; without a stake nothing accrues. -/
def stakedProduct (s : State) (user : Address) (t : Nat) : Int :=
  match s.stakes.lookup user, s.config with
  | some st, some config =>
    match config.pools[st.poolId]? with
    | some pool => st.product pool t
    | none => 0
  | _, _ => 0

/-- The reward the user has accrued at time `t`. -/
def accrued (s : State) (user : Address) (t : Nat) : Int := (stakedProduct s user t).tdiv divisor

/-! ## The reward calculation -/

theorem divisor_pos : 0 < divisor := by decide

/-- A factor of a product that fits. -/
theorem inI128_of_mul {x n : Int} (hn : 1 ≤ n) (h : InI128 (x * n)) : InI128 x := by
  rw [inI128_iff] at h ⊢
  constructor
  · by_cases hx : 0 ≤ x
    · unfold i128Max at h
      omega
    · have : x * n ≤ x * 1 := mul_le_mul_of_nonpos_left hn (by omega)
      omega
  · by_cases hx : 0 ≤ x
    · have : x * 1 ≤ x * n := mul_le_mul_of_nonneg_left hn hx
      omega
    · have := zero_le_i128Max
      omega

section Rewards

variable {env : Env} {s : State} {st : UserStake} {config : Config} {pool : PoolConfig}

theorem calculateRewards_eq (hc : s.config = some config)
    (hp : config.pools[st.poolId]? = some pool) (hlast : st.lastClaimTimestamp ≤ env.timestamp)
    (ht : env.timestamp < 2 ^ 64) :
    calculateRewards env s st =
      if env.timestamp = st.lastClaimTimestamp then .ok 0
      else (do
        let yearly ← env.i128 (st.amount * pool.apyBps)
        let scaled ← env.i128 (yearly * (env.timestamp - st.lastClaimTimestamp))
        pure (scaled.tdiv divisor)) := by
  have helapsed : ((env.timestamp : Int) - st.lastClaimTimestamp).toNat =
      env.timestamp - st.lastClaimTimestamp := by omega
  unfold calculateRewards
  simp only [hc, hp, ofOption, ok_bind]
  rw [u64_of_in env (by omega) (by omega), ok_bind, helapsed]
  by_cases he : env.timestamp = st.lastClaimTimestamp
  · rw [if_pos he, if_pos (by omega)]
    rfl
  · rw [if_neg he, if_neg (by omega), Int.natCast_sub hlast]
    rfl

/-- **The reward** where the product fits, in either build. -/
theorem calculateRewards_fits (hc : s.config = some config)
    (hp : config.pools[st.poolId]? = some pool) (hlast : st.lastClaimTimestamp ≤ env.timestamp)
    (ht : env.timestamp < 2 ^ 64) (hfit : InI128 (st.product pool env.timestamp)) :
    calculateRewards env s st = .ok ((st.product pool env.timestamp).tdiv divisor) := by
  rw [calculateRewards_eq hc hp hlast ht]
  unfold UserStake.product at hfit ⊢
  by_cases he : env.timestamp = st.lastClaimTimestamp
  · rw [if_pos he, he]
    simp
  · have hyearly := inI128_of_mul (by omega) hfit
    rw [if_neg he, env_i128_of_in env hyearly, ok_bind, env_i128_of_in env hfit]
    rfl

/-- With overflow checks there is a reward only where the product fits. -/
theorem fits_of_calculateRewards (hc : s.config = some config)
    (hp : config.pools[st.poolId]? = some pool) (hlast : st.lastClaimTimestamp ≤ env.timestamp)
    (ht : env.timestamp < 2 ^ 64) (hchecks : env.overflowChecks = true) {r : Int}
    (h : calculateRewards env s st = .ok r) : InI128 (st.product pool env.timestamp) := by
  rw [calculateRewards_eq hc hp hlast ht] at h
  unfold UserStake.product
  by_cases he : env.timestamp = st.lastClaimTimestamp
  · rw [he, sub_self, mul_zero]
    decide
  · rw [if_neg he] at h
    simp only [bind_eq_ok, pure_eq_ok] at h
    obtain ⟨yearly, hy, scaled, hs, -⟩ := h
    have hin := i128_inI128 hs
    rw [i128_checked hchecks hs, i128_checked hchecks hy] at hin
    exact hin

end Rewards

/-! ## What holds of every stake -/

/-- The pools are the default ones, and every stake was last written by a call of the run. -/
structure Accruing (tr : Trace) (s : State) : Prop where
  pools : ∀ c, s.config = some c → c.pools = defaultPools
  configured : ∀ user st, s.stakes.lookup user = some st → ∃ c, s.config = some c
  poolId_lt : ∀ user st, s.stakes.lookup user = some st → st.poolId < defaultPools.length
  written : ∀ user st, s.stakes.lookup user = some st →
    ∃ e ∈ tr, e.env.timestamp = st.lastClaimTimestamp

theorem Accruing.insert {tr : Trace} {s s' : State} {e : Event Env Call Reply State}
    {user : Address} {st : UserStake} (h : Accruing tr s) (hc : s'.config = s.config)
    (hs : s'.stakes = s.stakes.insert user st) (hconf : ∃ c, s.config = some c)
    (hpool : st.poolId < defaultPools.length) (hlast : e.env.timestamp = st.lastClaimTimestamp) :
    Accruing (e :: tr) s' := by
  constructor
  · rw [hc]
    exact h.pools
  · intro u v _
    rw [hc]
    exact hconf
  · intro u v hv
    rw [hs, Store.lookup_insert_eq] at hv
    split at hv
    · cases hv; exact hpool
    · exact h.poolId_lt u v hv
  · intro u v hv
    rw [hs, Store.lookup_insert_eq] at hv
    split at hv
    · cases hv; exact ⟨e, List.mem_cons_self, hlast⟩
    · obtain ⟨e', he', ht⟩ := h.written u v hv
      exact ⟨e', List.mem_cons_of_mem _ he', ht⟩

/-- A call that writes no stake. -/
theorem Accruing.keep {tr : Trace} {s s' : State} {e : Event Env Call Reply State}
    (h : Accruing tr s) (hc : s'.config = s.config)
    (hs : ∀ u v, s'.stakes.lookup u = some v → s.stakes.lookup u = some v) :
    Accruing (e :: tr) s' := by
  refine ⟨by rw [hc]; exact h.pools, fun u v hv => ?_, fun u v hv => h.poolId_lt u v (hs u v hv),
    fun u v hv => ?_⟩
  · rw [hc]
    exact h.configured u v (hs u v hv)
  · obtain ⟨e', he', ht⟩ := h.written u v (hs u v hv)
    exact ⟨e', List.mem_cons_of_mem _ he', ht⟩

theorem accruing_step {d : Deployment} {tr : Trace} {env : Env} {call : Call} {r : Reply}
    {s s' : State} (hi : Accruing tr s) (hx : (openMachine d).exec env call s = .ok (r, s')) :
    Accruing (⟨env, call, r, s, s'⟩ :: tr) s' := by
  cases call with
  | initializeContract admin st rt =>
    obtain ⟨hnone, rfl⟩ := initializeContract_ok (answer_eq_ok.mp hx).1
    have hempty : ∀ u v, s.stakes.lookup u ≠ some v := by
      intro u v hv
      obtain ⟨c, hc⟩ := hi.configured u v hv
      rw [hnone] at hc
      cases hc
    refine ⟨fun c hc => by cases hc; rfl, fun u v hv => absurd hv (hempty u v),
      fun u v hv => absurd hv (hempty u v), fun u v hv => absurd hv (hempty u v)⟩
  | stake user amount poolId =>
    obtain ⟨h1, -⟩ := answer_eq_ok.mp hx
    obtain ⟨c, tokens, x, hc, -, -, hpool, -, -, rfl⟩ := stake_ok h1
    rw [hi.pools c hc] at hpool
    exact hi.insert rfl rfl ⟨c, hc⟩ hpool rfl
  | claim user =>
    obtain ⟨reward, h1, -⟩ := answerWith_eq_ok.mp hx
    obtain ⟨c, st, tokens, hc, hst, -, -, -, rfl⟩ := claim_ok h1
    exact hi.insert rfl rfl ⟨c, hc⟩ (hi.poolId_lt user st hst) rfl
  | unstake user =>
    obtain ⟨principal, reward, h1, -⟩ := exec_unstake_ok hx
    obtain ⟨c, st, t1, t2, -, -, -, -, -, rfl⟩ := unstake_ok h1
    refine hi.keep rfl fun u v hv => ?_
    rw [Store.lookup_erase_eq] at hv
    split at hv
    · cases hv
    · exact hv
  | compound user =>
    obtain ⟨reward, h1, -⟩ := answerWith_eq_ok.mp hx
    obtain ⟨st, x, hst, -, -, rfl⟩ := compound_ok h1
    exact hi.insert rfl rfl (hi.configured user st hst) (hi.poolId_lt user st hst) rfl
  | token c =>
    simp only [openMachine, exec, bind_eq_ok, pure_eq_ok, Prod.mk.injEq] at hx
    obtain ⟨tokens, -, -, rfl⟩ := hx
    exact hi.keep rfl fun _ _ hv => hv

theorem accruing {d : Deployment} {tr : Trace} {s : State} (h : Run (openMachine d) tr s) :
    Accruing tr s := by
  refine h.invariant_trace ?_ ?_
  · rintro s ⟨h1, h2⟩
    have hempty : ∀ u v, s.stakes.lookup u ≠ some v := by
      intro u v hv
      rw [h2] at hv
      cases hv
    have hnone : ∀ c, s.config ≠ some c := by
      intro c hc
      rw [h1] at hc
      cases hc
    exact ⟨fun c hc => absurd hc (hnone c), fun u v hv => absurd hv (hempty u v),
      fun u v hv => absurd hv (hempty u v), fun u v hv => absurd hv (hempty u v)⟩
  · intro tr env call r s s' _ _ hi hx
    exact accruing_step hi hx

/-- The pool of a stake pays a rate, and the stake's time is not later than now. -/
theorem Accruing.stake {tr : Trace} {s : State} (h : Accruing tr s) {user : Address}
    {st : UserStake} (hst : s.stakes.lookup user = some st) {t : Nat}
    (ht : ∀ e ∈ tr, e.env.timestamp ≤ t) :
    ∃ c pool, s.config = some c ∧ c.pools[st.poolId]? = some pool ∧ 0 < pool.apyBps ∧
      st.lastClaimTimestamp ≤ t := by
  obtain ⟨c, hc⟩ := h.configured user st hst
  obtain ⟨e, he, hlast⟩ := h.written user st hst
  have hlt := h.poolId_lt user st hst
  have hrates : ∀ pool ∈ defaultPools, 0 < pool.apyBps := by decide
  refine ⟨c, defaultPools[st.poolId], hc, ?_, hrates _ (List.getElem_mem hlt), ?_⟩
  · rw [h.pools c hc]
    exact List.getElem?_eq_getElem hlt
  · rw [← hlast]
    exact ht e he

/-! ## Adding to a stake -/

section Adding

variable {env : Env} {s s' : State} {user : Address} {amount : Int} {poolId : Nat}

theorem stakedProduct_of {st : UserStake} {config : Config} {pool : PoolConfig} {t : Nat}
    (hst : s.stakes.lookup user = some st) (hc : s.config = some config)
    (hp : config.pools[st.poolId]? = some pool) :
    stakedProduct s user t = st.product pool t := by
  unfold stakedProduct
  simp only [hst, hc, hp]

theorem stakedProduct_of_none (h : s.stakes.lookup user = none) {t : Nat} :
    stakedProduct s user t = 0 := by
  unfold stakedProduct
  simp only [h]

/-- What `get_pending_rewards` returns is what has accrued, where the product fits. -/
theorem getPendingRewards_eq {tr : Trace} (h : Accruing tr s)
    (hafter : ∀ e ∈ tr, e.env.timestamp ≤ env.timestamp) (ht : env.timestamp < 2 ^ 64)
    (hfit : InI128 (stakedProduct s user env.timestamp)) :
    getPendingRewards env s user = .ok (accrued s user env.timestamp) := by
  unfold getPendingRewards accrued
  cases hst : s.stakes.lookup user with
  | none =>
    rw [stakedProduct_of_none hst]
    rfl
  | some st =>
    obtain ⟨c, pool, hc, hp, -, hlast⟩ := h.stake hst hafter
    rw [stakedProduct_of hst hc hp] at hfit ⊢
    simp only [calculateRewards_fits hc hp hlast ht hfit, unwrapOr]

theorem signer_of_stake (h : stake env s user amount poolId = .ok s') : user ∈ env.signers := by
  obtain ⟨c, tokens, x, -, hs, -⟩ := stake_ok h
  exact hs

/-- Right after a call of `stake` nothing is pending. -/
theorem pending_after_stake (h : stake env s user amount poolId = .ok s') :
    getPendingRewards env s' user = .ok 0 := by
  obtain ⟨c, tokens, x, hc, -, -, hpool, -, -, rfl⟩ := stake_ok h
  unfold getPendingRewards
  simp only [Store.lookup_insert_eq, if_true]
  have hzero : calculateRewards env
      { s with tokens, stakes := s.stakes.insert user ⟨x, poolId, env.timestamp, env.timestamp⟩ }
      ⟨x, poolId, env.timestamp, env.timestamp⟩ = .ok 0 := by
    have helapsed : (env.u64 ((env.timestamp : Int) - env.timestamp) : Result Nat) = .ok 0 := by
      rw [sub_self]
      exact u64_of_in env (le_refl _) (by norm_num)
    unfold calculateRewards
    simp only [hc, ofOption, ok_bind, List.getElem?_eq_getElem hpool, helapsed]
    rfl
  rw [hzero]
  rfl

/-- The user's balance of the reward token. -/
def rewardBalance (s : State) (user : Address) : Int :=
  match s.config with
  | some c => s.tokens.balance c.rewardToken user
  | none => 0

/-- What a call paid the user of the reward token. -/
def received (s s' : State) (user : Address) : Int :=
  max 0 (rewardBalance s' user - rewardBalance s user)

/-- `stake` pays nothing. -/
theorem received_stake (hne : user ≠ env.self) (h : stake env s user amount poolId = .ok s') :
    received s s' user = 0 := by
  obtain ⟨c, tokens, x, hc, -, hpos, -, ht, -, rfl⟩ := stake_ok h
  have hbal := Ledger.balance_transfer ht c.rewardToken user
  have hself : ¬ (c.rewardToken = c.stakingToken ∧ user = env.self) := fun h => hne h.2
  rw [if_neg hself] at hbal
  unfold received rewardBalance
  simp only [hc]
  split at hbal <;> omega

/-- What had accrued before the call is pending after it or was paid in it. -/
def Kept (env : Env) (user : Address) (s s' : State) : Prop :=
  ∃ pending, getPendingRewards env s' user = .ok pending ∧
    accrued s user env.timestamp ≤ pending + received s s' user

theorem accrued_le_zero_iff {x : Int} : x.tdiv divisor ≤ 0 ↔ x < divisor := by
  have hdiv := divisor_pos
  by_cases hx : 0 ≤ x
  · rw [Int.tdiv_eq_ediv_of_nonneg hx]
    constructor
    · intro h
      by_contra hlt
      have := (Int.le_ediv_iff_mul_le hdiv).mpr (by omega : 1 * divisor ≤ x)
      omega
    · intro h
      rw [Int.ediv_eq_zero_of_lt hx h]
  · constructor
    · intro _
      omega
    · intro _
      have := Int.tdiv_nonneg (a := -x) (b := divisor) (by omega) (by omega)
      rw [Int.neg_tdiv] at this
      omega

theorem kept_iff (hne : user ≠ env.self) (h : stake env s user amount poolId = .ok s') :
    Kept env user s s' ↔ stakedProduct s user env.timestamp < divisor := by
  rw [← accrued_le_zero_iff]
  unfold Kept
  rw [pending_after_stake h, received_stake hne h]
  constructor
  · rintro ⟨pending, hp, hle⟩
    obtain rfl := Except.ok.inj hp
    exact hle
  · intro hle
    exact ⟨0, rfl, hle⟩

end Adding

/-- **Staking more.**  In every run, a call that adds to a stake keeps what had accrued exactly
when that was less than one unit; where the product fits, it is what `get_pending_rewards`
returned. -/
theorem staking_more_iff {d : Deployment} {tr : Trace} {s : State} (h : Run (openMachine d) tr s)
    (e : Event Env Call Reply State) (he : e ∈ tr) (user : Address) (amount : Int) (poolId : Nat)
    (hcall : e.call = .stake user amount poolId) :
    (InI128 (stakedProduct e.before user e.env.timestamp) →
      getPendingRewards e.env e.before user = .ok (accrued e.before user e.env.timestamp)) ∧
    (Kept e.env user e.before e.after ↔
      stakedProduct e.before user e.env.timestamp < divisor) := by
  obtain ⟨tr', hr, ⟨hof, ht⟩, hafter, hx⟩ := h.of_mem_after he
  rw [hcall] at hx
  obtain ⟨hstake, -⟩ := answer_eq_ok.mp hx
  have hs := signer_of_stake hstake
  exact ⟨getPendingRewards_eq (accruing hr) hafter ht, kept_iff (hof.ne_self hs) hstake⟩

/-- A stake of 1000 at 15 percent. -/
def oneStake : List (Env × Call) :=
  [(callAt 0 [], .token (.mint 5 1 1001)), (callAt 0 [], .initializeContract 9 5 6),
    (callAt 0 [1], .stake 1 1000 2)]

/-- Adding one unit to it after 180 days drops a pending reward of 73. -/
theorem staking_more_forfeits :
    ∃ (tr : Trace) (s : State), Run (openMachine ⟨0, true⟩) tr s ∧ ∃ e ∈ tr,
      e.call = .stake 1 1 2 ∧ getPendingRewards e.env e.before 1 = .ok 73 ∧
      getPendingRewards e.env e.after 1 = .ok 0 ∧ ¬ Kept e.env 1 e.before e.after := by
  have hinit : (openMachine ⟨0, true⟩).init { tokens := .empty } := ⟨rfl, rfl⟩
  obtain ⟨tr, s, hrun, hok⟩ := Machine.exists_run_of_replay hinit
    (oneStake ++ [(callAt (180 * day) [1], .stake 1 1 2)])
    (fun tr _ => tr.any fun e => e.call = .stake 1 1 2 ∧
      (getPendingRewards e.env e.before 1).toOption = some 73 ∧
      (getPendingRewards e.env e.after 1).toOption = some 0 ∧
      0 + received e.before e.after 1 < accrued e.before 1 e.env.timestamp)
    (by decide) (by decide) (by decide)
  obtain ⟨e, he, hbad⟩ := List.any_eq_true.mp hok
  obtain ⟨hcall, hbefore, hafter, hlost⟩ := of_decide_eq_true hbad
  have hzero := eq_ok_of_toOption hafter
  refine ⟨tr, s, hrun, e, he, hcall, eq_ok_of_toOption hbefore, hzero, ?_⟩
  rintro ⟨pending, hp, hle⟩
  rw [hzero] at hp
  obtain rfl := Except.ok.inj hp
  omega

/-- After one hour nothing has accrued yet. -/
theorem staking_more_at_once :
    ∃ (tr : Trace) (s : State), Run (openMachine ⟨0, true⟩) tr s ∧ ∃ e ∈ tr,
      e.call = .stake 1 1 2 ∧ Kept e.env 1 e.before e.after := by
  have hinit : (openMachine ⟨0, true⟩).init { tokens := .empty } := ⟨rfl, rfl⟩
  obtain ⟨tr, s, hrun, hok⟩ := Machine.exists_run_of_replay hinit
    (oneStake ++ [(callAt 3600 [1], .stake 1 1 2)])
    (fun tr _ => tr.any fun e => e.call = .stake 1 1 2 ∧
      stakedProduct e.before 1 e.env.timestamp < divisor)
    (by decide) (by decide) (by decide)
  obtain ⟨e, he, hsmall⟩ := List.any_eq_true.mp hok
  obtain ⟨hcall, hsmall⟩ := of_decide_eq_true hsmall
  exact ⟨tr, s, hrun, e, he, hcall,
    (staking_more_iff hrun e he 1 1 2 hcall).2.mpr hsmall⟩

end Stellara.Staking
