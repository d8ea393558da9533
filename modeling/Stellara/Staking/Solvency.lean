import Stellara.Staking.Model

/-!
# Who funds the rewards

One balance backs the recorded stakes and pays the rewards, and nothing but stakes
enters it.  Over a whole run the books are (`staking_books`)

    balance + rewards paid + rewards compounded = recorded stakes + penalties kept

so the balance covers the stakes exactly as long as the penalties of early leavers
cover all rewards; `unstake_starves` is a run where they do not.
-/

namespace Stellara.Staking

open Outcome

abbrev Trace : Type := List (Event Env Call Reply State)

/-! ## What the books add up -/

/-- The recorded stake of a user (0 without a record). -/
def stakedAmount (s : State) (user : Address) : Int :=
  Store.old (fun _ (st : UserStake) => st.amount) s.stakes user

/-- The sum of all users' recorded stakes. -/
def stakedTotal (s : State) : Int := Store.total (fun _ (st : UserStake) => st.amount) s.stakes

/-- What the contract holds of the staked token. -/
def contractBalance (d : Deployment) (s : State) : Int :=
  match s.config with
  | some config => s.tokens.balance config.stakingToken d.self
  | none => 0

/-- Reward tokens that a call paid to the user. -/
def rewardPaid (e : Event Env Call Reply State) : Int :=
  match e.call, e.ret with
  | .claim _, .reward amount => amount
  | .unstake _, .unstaked _ reward => max reward 0
  | _, _ => 0

/-- Rewards that a call added to the recorded stake. -/
def compounded (e : Event Env Call Reply State) : Int :=
  match e.call, e.ret with
  | .compound _, .reward amount => amount
  | _, _ => 0

/-- The part of the recorded stake that an `unstake` did not return. -/
def penalty (e : Event Env Call Reply State) : Int :=
  match e.call, e.ret with
  | .unstake user, .unstaked principal _ => stakedAmount e.before user - principal
  | _, _ => 0

/-- The credited stake fits an `i128`; it always does with overflow checks. -/
def Exact (e : Event Env Call Reply State) : Prop :=
  match e.call, e.ret with
  | .stake user amount _, _ => InI128 (stakedAmount e.before user + amount)
  | .compound user, .reward amount => InI128 (stakedAmount e.before user + amount)
  | _, _ => True

theorem currentStake_amount (env : Env) (s : State) (user : Address) (poolId : Nat) :
    (currentStake env s user poolId).amount = stakedAmount s user := by
  unfold currentStake stakedAmount Store.old
  cases s.stakes.lookup user <;> rfl

theorem stakedAmount_of_lookup {s : State} {user : Address} {st : UserStake}
    (h : s.stakes.lookup user = some st) : stakedAmount s user = st.amount :=
  Store.old_of_lookup h

/-! ## What each operation does -/

section Operations

variable {env : Env} {s s' : State} {user : Address} {poolId : Nat} {amount reward principal : Int}

theorem initializeContract_ok {admin stakingToken rewardToken : Address}
    (h : initializeContract s admin stakingToken rewardToken = .ok s') :
    s.config = none ∧
      s' = { s with config := some ⟨admin, stakingToken, rewardToken, defaultPools⟩ } := by
  simp only [initializeContract, bind_eq_ok, require_eq_ok, exists_unit_and, pure_eq_ok] at h
  exact ⟨h.1, h.2.symm⟩

theorem stake_ok (h : stake env s user amount poolId = .ok s') :
    ∃ c tokens x, s.config = some c ∧ user ∈ env.signers ∧ 0 < amount ∧
      poolId < c.pools.length ∧
      Ledger.transfer i128Max s.tokens c.stakingToken user env.self amount = some tokens ∧
      (env.i128 (stakedAmount s user + amount) : Result Int) = .ok x ∧
      s' = { s with tokens
                    stakes := s.stakes.insert user ⟨x, poolId, env.timestamp, env.timestamp⟩ } := by
  simp only [stake, bind_eq_ok, require_eq_ok, requireAuth_eq_ok, exists_unit_and, ofOption_eq_ok,
    tokens_transfer_eq_ok, pure_eq_ok, currentStake_amount] at h
  obtain ⟨hs, ha, c, hc, hp, tokens, ht, x, hx, rfl⟩ := h
  exact ⟨c, tokens, x, hc, hs, ha, hp, ht, hx, rfl⟩

theorem claim_ok (h : claim env s user = .ok (reward, s')) :
    ∃ c st tokens, s.config = some c ∧ s.stakes.lookup user = some st ∧ user ∈ env.signers ∧
      0 < reward ∧
      Ledger.transfer i128Max s.tokens c.rewardToken env.self user reward = some tokens ∧
      s' = { s with tokens, stakes := s.stakes.insert user (st.claimedAt env) } := by
  simp only [claim, bind_eq_ok, require_eq_ok, requireAuth_eq_ok, exists_unit_and, ofOption_eq_ok,
    tokens_transfer_eq_ok, pure_eq_ok, Prod.mk.injEq] at h
  obtain ⟨hs, st, hst, x, -, hx, c, hc, tokens, ht, rfl, rfl⟩ := h
  exact ⟨c, st, tokens, hc, hst, hs, hx, ht, rfl⟩

theorem unstake_ok (h : unstake env s user = .ok ((principal, reward), s')) :
    ∃ c st t1 t2, s.config = some c ∧ s.stakes.lookup user = some st ∧ user ∈ env.signers ∧
      (payReward s.tokens c.rewardToken env.self user reward) = .ok t1 ∧
      Ledger.transfer i128Max t1 c.stakingToken env.self user principal = some t2 ∧
      s' = { s with tokens := t2, stakes := s.stakes.erase user } := by
  simp only [unstake, bind_eq_ok, requireAuth_eq_ok, exists_unit_and, ofOption_eq_ok,
    tokens_transfer_eq_ok, pure_eq_ok, Prod.mk.injEq] at h
  obtain ⟨hs, st, hst, c, hc, pool, -, p, -, x, -, t1, h1, t2, h2, ⟨rfl, rfl⟩, rfl⟩ := h
  exact ⟨c, st, t1, t2, hc, hst, hs, h1, h2, rfl⟩

theorem exec_unstake_ok {r : Reply} (h : exec env (.unstake user) s = .ok (r, s')) :
    ∃ principal reward, unstake env s user = .ok ((principal, reward), s') ∧
      r = .unstaked principal reward := by
  simp only [exec, bind_eq_ok, pure_eq_ok, Prod.mk.injEq] at h
  obtain ⟨⟨⟨principal, reward⟩, _⟩, hcall, rfl, rfl⟩ := h
  exact ⟨principal, reward, hcall, rfl⟩

theorem compound_ok (h : compound env s user = .ok (reward, s')) :
    ∃ st x, s.stakes.lookup user = some st ∧ 0 < reward ∧
      (env.i128 (stakedAmount s user + reward) : Result Int) = .ok x ∧
      s' = { s with stakes := s.stakes.insert user ({ st with amount := x }.claimedAt env) } := by
  simp only [compound, bind_eq_ok, require_eq_ok, requireAuth_eq_ok, exists_unit_and,
    ofOption_eq_ok, pure_eq_ok, Prod.mk.injEq] at h
  obtain ⟨-, st, hst, x, -, hx, c, -, -, y, hy, rfl, rfl⟩ := h
  exact ⟨st, y, hst, hx, by rw [stakedAmount_of_lookup hst]; exact hy, rfl⟩

/-- Writing a stake moves the total by the change of that user's stake. -/
theorem stakedTotal_insert {st : UserStake} (h : s'.stakes = s.stakes.insert user st) :
    stakedTotal s' = stakedTotal s - stakedAmount s user + st.amount := by
  unfold stakedTotal
  rw [h, Store.total_insert]
  rfl

theorem stakedTotal_erase (h : s'.stakes = s.stakes.erase user) :
    stakedTotal s' = stakedTotal s - stakedAmount s user := by
  unfold stakedTotal
  rw [h, Store.total_erase]
  rfl

/-- A payment out of the contract. -/
theorem balance_pay {t : Address} {L L' : Tokens} (hne : user ≠ env.self)
    (h : Ledger.transfer i128Max L t env.self user amount = some L') :
    L'.balance t env.self = L.balance t env.self - amount := by
  rw [Ledger.balance_transfer h, if_pos ⟨rfl, rfl⟩, if_neg (fun h => hne h.2.symm)]
  omega

/-- A payment into the contract. -/
theorem balance_receive {t : Address} {L L' : Tokens} (hne : user ≠ env.self)
    (h : Ledger.transfer i128Max L t user env.self amount = some L') :
    L'.balance t env.self = L.balance t env.self + amount := by
  rw [Ledger.balance_transfer h, if_neg (fun h => hne h.2.symm), if_pos ⟨rfl, rfl⟩]
  omega

theorem balance_payReward {t : Address} {L L' : Tokens} (hne : user ≠ env.self)
    (h : payReward L t env.self user amount = .ok L') :
    L'.balance t env.self = L.balance t env.self - max amount 0 := by
  unfold payReward at h
  split at h
  · rw [balance_pay hne (tokens_transfer_eq_ok.mp h)]; omega
  · cases h; omega

/-- Token calls that do not pay the contract leave its balance alone. -/
theorem balance_token {d : Deployment} {t : Address} {L L' : Tokens} {c : TokenCall}
    (hv : env.Of d) (hs : (Call.token c).SameToken env.self)
    (h : (c.exec env L : Result Tokens) = .ok L') : L'.balance t env.self = L.balance t env.self := by
  cases c with
  | transfer tk src dst x =>
    simp only [TokenCall.exec, bind_eq_ok, requireAuth_eq_ok, exists_unit_and,
      tokens_transfer_eq_ok] at h
    have hsrc := hv.ne_self h.1
    rw [Ledger.balance_transfer h.2, if_neg (fun h => hsrc h.2.symm), if_neg (fun h => hs h.2.symm)]
    omega
  | mint tk dst x =>
    rw [Ledger.balance_mint (ofOption_eq_ok.mp h), if_neg (fun h => hs h.2.symm)]
    omega

end Operations

/-! ## The books over a run -/

/-- What the configuration promises in every reachable state. -/
structure Configured (d : Deployment) (s : State) : Prop where
  before : s.config = none → s.stakes = ∅ ∧ ∀ t, s.tokens.balance t d.self = 0
  sameToken : ∀ c, s.config = some c → c.stakingToken = c.rewardToken

theorem configured_step {d : Deployment} {env : Env} {call : Call} {r : Reply} {s s' : State}
    (hv : (machine d).valid env call) (hi : Configured d s)
    (hx : (machine d).exec env call s = .ok (r, s')) : Configured d s' := by
  obtain ⟨hof, hsame⟩ := hv
  cases call with
  | initializeContract admin st rt =>
    obtain ⟨-, rfl⟩ := initializeContract_ok (answer_eq_ok.mp hx).1
    exact ⟨fun h => (by cases h), fun c hc => (by cases hc; exact hsame)⟩
  | stake user amount poolId =>
    obtain ⟨h1, -⟩ := answer_eq_ok.mp hx
    obtain ⟨c, tokens, x, hc, -, -, -, -, -, rfl⟩ := stake_ok h1
    exact ⟨fun h => (by rw [hc] at h; cases h), hi.sameToken⟩
  | claim user =>
    obtain ⟨reward, h1, -⟩ := answerWith_eq_ok.mp hx
    obtain ⟨c, st, tokens, hc, -, -, -, -, rfl⟩ := claim_ok h1
    exact ⟨fun h => (by rw [hc] at h; cases h), hi.sameToken⟩
  | unstake user =>
    obtain ⟨principal, reward, h1, -⟩ := exec_unstake_ok hx
    obtain ⟨c, st, t1, t2, hc, -, -, -, -, rfl⟩ := unstake_ok h1
    exact ⟨fun h => (by rw [hc] at h; cases h), hi.sameToken⟩
  | compound user =>
    obtain ⟨reward, h1, -⟩ := answerWith_eq_ok.mp hx
    obtain ⟨st, x, hst, -, -, rfl⟩ := compound_ok h1
    refine ⟨fun h => ?_, hi.sameToken⟩
    rw [(hi.before h).1] at hst
    cases hst
  | token c =>
    simp only [machine, exec, bind_eq_ok, pure_eq_ok, Prod.mk.injEq] at hx
    obtain ⟨tokens, h1, -, rfl⟩ := hx
    obtain ⟨rfl, hs⟩ := hof
    exact ⟨fun h => ⟨(hi.before h).1, fun t => (balance_token ⟨rfl, hs⟩ hsame h1).trans
      ((hi.before h).2 t)⟩, hi.sameToken⟩

theorem configured {d : Deployment} {tr : Trace} {s : State} (h : Run (machine d) tr s) :
    Configured d s := by
  refine h.invariant ?_ ?_
  · rintro s ⟨h1, h2, h3⟩
    exact ⟨fun _ => ⟨h2, h3⟩, fun c hc => by rw [h1] at hc; cases hc⟩
  · intro env call r s s' hv hi hx
    exact configured_step hv hi hx

/-- The surplus of the balance over the recorded stakes. -/
def surplus (d : Deployment) (s : State) : Int := contractBalance d s - stakedTotal s

theorem contractBalance_of {d : Deployment} {s : State} {c : Config} (h : s.config = some c) :
    contractBalance d s = s.tokens.balance c.stakingToken d.self := by
  unfold contractBalance; rw [h]

/-- **One call.**  The surplus loses the rewards and gains the penalty. -/
theorem surplus_step {d : Deployment} {env : Env} {call : Call} {r : Reply} {s s' : State}
    (hv : (machine d).valid env call) (hi : Configured d s)
    (hx : (machine d).exec env call s = .ok (r, s')) (he : Exact ⟨env, call, r, s, s'⟩) :
    surplus d s' = surplus d s +
      (penalty ⟨env, call, r, s, s'⟩ - rewardPaid ⟨env, call, r, s, s'⟩
        - compounded ⟨env, call, r, s, s'⟩) := by
  obtain ⟨⟨rfl, hsig⟩, hsame⟩ := hv
  have hne : ∀ user ∈ env.signers, user ≠ env.self := fun user h => Env.Of.ne_self ⟨rfl, hsig⟩ h
  unfold surplus
  cases call with
  | initializeContract admin st rt =>
    obtain ⟨hcall, rfl⟩ := answer_eq_ok.mp hx
    obtain ⟨hnone, rfl⟩ := initializeContract_ok hcall
    obtain ⟨-, hzero⟩ := hi.before hnone
    simp [contractBalance, hnone, hzero, stakedTotal, penalty, rewardPaid, compounded]
  | stake user amount poolId =>
    obtain ⟨h1, rfl⟩ := answer_eq_ok.mp hx
    obtain ⟨c, tokens, x, hc, hs, -, -, ht, hsum, hs'⟩ := stake_ok h1
    have hbal := balance_receive (hne _ hs) ht
    have hx := i128_exact hsum he
    have htot := stakedTotal_insert (congrArg State.stakes hs')
    rw [contractBalance_of hc, contractBalance_of (c := c) (by rw [hs']; exact hc), htot, hs']
    simp only [penalty, rewardPaid, compounded] at *
    omega
  | claim user =>
    obtain ⟨reward, h1, rfl⟩ := answerWith_eq_ok.mp hx
    obtain ⟨c, st, tokens, hc, hst, hs, -, ht, hs'⟩ := claim_ok h1
    rw [← hi.sameToken c hc] at ht
    have hbal := balance_pay (hne _ hs) ht
    have htot := stakedTotal_insert (congrArg State.stakes hs')
    have hamt := stakedAmount_of_lookup hst
    rw [contractBalance_of hc, contractBalance_of (c := c) (by rw [hs']; exact hc), htot, hs']
    simp only [penalty, rewardPaid, compounded, UserStake.claimedAt] at *
    omega
  | unstake user =>
    obtain ⟨principal, reward, h1, rfl⟩ := exec_unstake_ok hx
    obtain ⟨c, st, t1, t2, hc, hst, hs, hr, hp, hs'⟩ := unstake_ok h1
    rw [← hi.sameToken c hc] at hr
    have hbal1 := balance_payReward (hne _ hs) hr
    have hbal2 := balance_pay (hne _ hs) hp
    have htot := stakedTotal_erase (congrArg State.stakes hs')
    rw [contractBalance_of hc, contractBalance_of (c := c) (by rw [hs']; exact hc), htot, hs']
    simp only [penalty, rewardPaid, compounded] at *
    omega
  | compound user =>
    obtain ⟨reward, h1, rfl⟩ := answerWith_eq_ok.mp hx
    obtain ⟨st, x, hst, -, hsum, hs'⟩ := compound_ok h1
    have hx := i128_exact hsum he
    have htot := stakedTotal_insert (congrArg State.stakes hs')
    have hbal : contractBalance env.toDeployment s' = contractBalance env.toDeployment s := by
      rw [hs']; rfl
    rw [hbal, htot]
    simp only [penalty, rewardPaid, compounded, UserStake.claimedAt] at *
    omega
  | token c =>
    simp only [machine, exec, bind_eq_ok, pure_eq_ok, Prod.mk.injEq] at hx
    obtain ⟨tokens, h1, rfl, rfl⟩ := hx
    have hbal : contractBalance env.toDeployment { s with tokens := tokens } =
        contractBalance env.toDeployment s := by
      unfold contractBalance
      cases s.config with
      | none => rfl
      | some config => exact balance_token ⟨rfl, hsig⟩ hsame h1
    rw [hbal]
    simp [stakedTotal, penalty, rewardPaid, compounded]

/-- With overflow checks every committed call is exact. -/
theorem exact_of_checks {d : Deployment} {env : Env} {call : Call} {r : Reply} {s s' : State}
    (hc : env.overflowChecks = true) (hx : (machine d).exec env call s = .ok (r, s')) :
    Exact ⟨env, call, r, s, s'⟩ := by
  cases call with
  | stake user amount poolId =>
    obtain ⟨h1, rfl⟩ := answer_eq_ok.mp hx
    obtain ⟨c, tokens, x, -, -, -, -, -, hsum, -⟩ := stake_ok h1
    show InI128 (stakedAmount s user + amount)
    rw [← i128_checked hc hsum]
    exact i128_inI128 hsum
  | compound user =>
    obtain ⟨reward, h1, rfl⟩ := answerWith_eq_ok.mp hx
    obtain ⟨st, x, -, -, hsum, -⟩ := compound_ok h1
    show InI128 (stakedAmount s user + reward)
    rw [← i128_checked hc hsum]
    exact i128_inI128 hsum
  | _ => trivial

theorem exact_run {d : Deployment} {tr : Trace} {s : State} (h : Run (machine d) tr s)
    (hx : d.overflowChecks = true ∨ ∀ e ∈ tr, Exact e) : ∀ e ∈ tr, Exact e := by
  rcases hx with hc | hx
  · intro e he
    obtain ⟨_, -, ⟨⟨hof, -⟩, -⟩, hx⟩ := h.of_mem he
    exact exact_of_checks (by rw [hof]; exact hc) hx
  · exact hx

/-! ## Withdrawing after the lock-up -/

theorem payReward_succeeds {L : Tokens} {t src dst : Address} {x : Int} (hne : dst ≠ src)
    (hfunds : max x 0 ≤ L.balance t src) (hroom : L.balance t dst + max x 0 ≤ i128Max) :
    ∃ L', payReward L t src dst x = .ok L' ∧
      L'.balance t src = L.balance t src - max x 0 ∧
      L'.balance t dst = L.balance t dst + max x 0 := by
  unfold payReward
  split
  · next hx =>
    have hsome : (Ledger.transfer i128Max L t src dst x).isSome :=
      Ledger.transfer_isSome (by omega) (by omega) hne (by omega)
    obtain ⟨L', hL⟩ := Option.isSome_iff_exists.mp hsome
    refine ⟨L', tokens_transfer_eq_ok.mpr hL, ?_, ?_⟩
    · rw [Ledger.balance_transfer hL, if_pos ⟨rfl, rfl⟩, if_neg (fun h => hne h.2.symm)]; omega
    · rw [Ledger.balance_transfer hL, if_neg (fun h => hne h.2), if_pos ⟨rfl, rfl⟩]; omega
  · exact ⟨L, rfl, by omega, by omega⟩

/-- After the lock-up nothing is held back. -/
theorem principalToReturn_unlocked {env : Env} {pool : PoolConfig} {st : UserStake}
    (hlock : st.startTimestamp + pool.lockupSeconds ≤ env.timestamp)
    (htime : env.timestamp < 2 ^ 64) : principalToReturn env pool st = .ok st.amount := by
  have hin : Checked.InNat 64 ((env.timestamp : Int) - st.startTimestamp) := by
    unfold Checked.InNat; omega
  unfold principalToReturn Env.u64
  rw [Checked.unsigned_of_inNat hin]
  simp only [ofOption, ok_bind]
  rw [if_neg (by omega)]
  rfl

/-- A stake whose principal and pending reward the contract holds is paid in full. -/
theorem unstake_full {env : Env} {s : State} {user : Address} {st : UserStake} {c : Config}
    {pool : PoolConfig} {reward : Int} (hs : user ∈ env.signers) (hne : user ≠ env.self)
    (hc : s.config = some c) (htok : c.stakingToken = c.rewardToken)
    (hst : s.stakes.lookup user = some st) (hpool : c.pools[st.poolId]? = some pool)
    (hpos : 0 ≤ st.amount) (hlock : st.startTimestamp + pool.lockupSeconds ≤ env.timestamp)
    (htime : env.timestamp < 2 ^ 64) (hr : getPendingRewards env s user = .ok reward)
    (hfunds : st.amount + max reward 0 ≤ s.tokens.balance c.stakingToken env.self)
    (hroom : s.tokens.balance c.stakingToken user + st.amount + max reward 0 ≤ i128Max) :
    ∃ s', unstake env s user = .ok ((st.amount, reward), s') := by
  obtain ⟨L1, hpay, hself, huser⟩ : ∃ L', payReward s.tokens c.stakingToken env.self user reward =
      .ok L' ∧ _ ∧ _ := payReward_succeeds hne (by omega) (by omega)
  have hsome : (Ledger.transfer i128Max L1 c.stakingToken env.self user st.amount).isSome :=
    Ledger.transfer_isSome hpos (by omega) hne (by omega)
  obtain ⟨L2, hL2⟩ := Option.isSome_iff_exists.mp hsome
  refine ⟨{ s with tokens := L2, stakes := s.stakes.erase user }, ?_⟩
  have hpend : unwrapOr 0 (calculateRewards env s st) = .ok reward := by
    unfold getPendingRewards at hr; rw [hst] at hr; exact hr
  have hL2' := (tokens_transfer_eq_ok (ε := ContractError)).mpr hL2
  have hauth : (env.requireAuth user : Result Unit) = .ok () := requireAuth_eq_ok.mpr hs
  unfold unstake
  rw [hauth, hst, hc]
  simp only [ok_bind, ofOption]
  rw [hpool]
  simp only [ok_bind]
  rw [principalToReturn_unlocked hlock htime, hpend, ← htok]
  simp only [ok_bind]
  rw [hpay]
  simp only [ok_bind]
  rw [hL2']
  rfl

/-- No recorded stake is empty. -/
def Positive (s : State) : Prop := ∀ user st, s.stakes.lookup user = some st → 0 < st.amount

theorem positive_insert {s s' : State} {user : Address} {st : UserStake} (h : Positive s)
    (hs : s'.stakes = s.stakes.insert user st) (hst : 0 < st.amount) : Positive s' := by
  intro u v hv
  rw [hs, Store.lookup_insert_eq] at hv
  split at hv
  · cases hv; exact hst
  · exact h u v hv

theorem stakedAmount_nonneg {s : State} (h : Positive s) (user : Address) :
    0 ≤ stakedAmount s user := by
  cases hst : s.stakes.lookup user with
  | none => unfold stakedAmount; rw [Store.old_of_lookup_none hst]
  | some st => rw [stakedAmount_of_lookup hst]; exact (h user st hst).le

theorem positive_step {d : Deployment} {env : Env} {call : Call} {r : Reply} {s s' : State}
    (hi : Positive s) (hx : (machine d).exec env call s = .ok (r, s'))
    (he : Exact ⟨env, call, r, s, s'⟩) : Positive s' := by
  cases call with
  | initializeContract admin st rt =>
    obtain ⟨-, rfl⟩ := initializeContract_ok (answer_eq_ok.mp hx).1
    exact hi
  | stake user amount poolId =>
    obtain ⟨h1, -⟩ := answer_eq_ok.mp hx
    obtain ⟨c, tokens, x, -, -, hpos, -, -, hsum, rfl⟩ := stake_ok h1
    have hx := i128_exact hsum he
    have hold := stakedAmount_nonneg hi user
    exact positive_insert hi rfl (by show 0 < x; omega)
  | claim user =>
    obtain ⟨reward, h1, -⟩ := answerWith_eq_ok.mp hx
    obtain ⟨c, st, tokens, -, hst, -, -, -, rfl⟩ := claim_ok h1
    exact positive_insert hi rfl (hi user st hst)
  | unstake user =>
    obtain ⟨principal, reward, h1, -⟩ := exec_unstake_ok hx
    obtain ⟨c, st, t1, t2, -, -, -, -, -, rfl⟩ := unstake_ok h1
    intro u v hv
    rw [Store.lookup_erase_eq] at hv
    split at hv
    · cases hv
    · exact hi u v hv
  | compound user =>
    obtain ⟨reward, h1, rfl⟩ := answerWith_eq_ok.mp hx
    obtain ⟨st, x, -, hpos, hsum, rfl⟩ := compound_ok h1
    have hx := i128_exact hsum he
    have hold := stakedAmount_nonneg hi user
    exact positive_insert hi rfl (by show 0 < x; omega)
  | token c =>
    simp only [machine, exec, bind_eq_ok, pure_eq_ok, Prod.mk.injEq] at hx
    obtain ⟨tokens, -, -, rfl⟩ := hx
    exact hi

theorem positive {d : Deployment} {tr : Trace} {s : State} (h : Run (machine d) tr s)
    (hx : ∀ e ∈ tr, Exact e) : Positive s := by
  refine h.invariant_trace (I := fun tr s => (∀ e ∈ tr, Exact e) → Positive s) ?_ ?_ hx
  · rintro s ⟨-, h2, -⟩ -
    intro u v hv
    rw [h2] at hv
    cases hv
  · intro tr env call r s s' _ _ ih hstep hex
    rw [List.forall_mem_cons] at hex
    exact positive_step (ih hex.2) hstep hex.1

/-! ## The books -/

/-- **The staking books.**  The contract's balance, the rewards it paid and the rewards
it compounded add up to the recorded stakes and the penalties it kept.  So the balance
covers all recorded stakes exactly when the penalties cover the rewards, and a user
whose principal and pending reward it covers gets the full principal after the lock-up. -/
theorem staking_books {d : Deployment} {tr : Trace} {s : State} (h : Run (machine d) tr s)
    (hx : d.overflowChecks = true ∨ ∀ e ∈ tr, Exact e) :
    contractBalance d s + tally rewardPaid tr + tally compounded tr =
      stakedTotal s + tally penalty tr ∧
    (stakedTotal s ≤ contractBalance d s ↔
      tally rewardPaid tr + tally compounded tr ≤ tally penalty tr) ∧
    ∀ env user st c pool reward, env.Of d → user ∈ env.signers →
      s.stakes.lookup user = some st → s.config = some c → c.pools[st.poolId]? = some pool →
      st.startTimestamp + pool.lockupSeconds ≤ env.timestamp → env.timestamp < 2 ^ 64 →
      getPendingRewards env s user = .ok reward →
      st.amount + max reward 0 ≤ contractBalance d s →
      s.tokens.balance c.stakingToken user + st.amount + max reward 0 ≤ i128Max →
      ∃ s', unstake env s user = .ok ((st.amount, reward), s') := by
  have hexact := exact_run h hx
  have hbooks : surplus d s = tally (fun e => penalty e - rewardPaid e - compounded e) tr := by
    refine h.conservation hexact ?_ ?_
    · rintro s ⟨h1, h2, -⟩
      simp [surplus, contractBalance, stakedTotal, h1, h2]
    · intro tr env call r s s' hr hv hstep he
      exact surplus_step hv (configured hr) hstep he
  rw [tally_sub, tally_sub] at hbooks
  unfold surplus at hbooks
  refine ⟨by omega, by omega, ?_⟩
  intro env user st c pool reward hof hs hst hc hpool hlock htime hr hfunds hroom
  have hself := hof.1
  rw [contractBalance_of hc, ← hself] at hfunds
  exact unstake_full hs (hof.ne_self hs) hc ((configured h).sameToken c hc) hst hpool
    (positive h hexact user st hst).le hlock htime hr hfunds hroom

/-- Contract 0, token 5, administrator 9; calls are signed by `signers`. -/
def callAt (t : Nat) (signers : List Address) : Env := ⟨⟨0, true⟩, t, 0, signers⟩

/-- Two users stake 1000 each. -/
def twoStakes : List (Env × Call) :=
  [(callAt 0 [], .token (.mint 5 1 1000)), (callAt 0 [], .token (.mint 5 2 1000)),
    (callAt 0 [], .initializeContract 9 5 5), (callAt 0 [1], .stake 1 1000 2),
    (callAt 0 [2], .stake 2 1000 2)]

/-- The first of two users leaves after 180 days with 73 of reward; the balance is then
below the stake of the second, whose `unstake` fails. -/
theorem unstake_starves :
    ∃ (tr : Trace) (s : State), Run (machine ⟨0, true⟩) tr s ∧
      contractBalance ⟨0, true⟩ s < stakedTotal s ∧
      ∀ x, unstake (callAt (180 * day) [2]) s 2 ≠ .ok x := by
  have hinit : (machine ⟨0, true⟩).init { tokens := .empty } := ⟨rfl, rfl, fun _ => rfl⟩
  obtain ⟨tr, s, hrun, hok⟩ := Machine.exists_run_of_replay hinit
    (twoStakes ++ [(callAt (180 * day) [1], .unstake 1)])
    (fun _ s => contractBalance ⟨0, true⟩ s < stakedTotal s ∧
      (unstake (callAt (180 * day) [2]) s 2).isOk = false) (by decide) (by decide) (by decide)
  obtain ⟨hlt, hfail⟩ := of_decide_eq_true hok
  refine ⟨tr, s, hrun, hlt, ?_⟩
  intro x hx
  rw [hx] at hfail
  cases hfail

/-- The books of a run in which the second user compounds. -/
theorem staking_books_compounded :
    ∃ (tr : Trace) (s : State), Run (machine ⟨0, true⟩) tr s ∧ tally compounded tr = 73 ∧
      contractBalance ⟨0, true⟩ s + tally rewardPaid tr + tally compounded tr =
        stakedTotal s + tally penalty tr := by
  have hinit : (machine ⟨0, true⟩).init { tokens := .empty } := ⟨rfl, rfl, fun _ => rfl⟩
  obtain ⟨tr, s, hrun, hok⟩ := Machine.exists_run_of_replay hinit
    (twoStakes ++ [(callAt (10 * day) [1], .unstake 1), (callAt (180 * day) [2], .compound 2)])
    (fun tr _ => tally compounded tr = 73) (by decide) (by decide) (by decide)
  exact ⟨tr, s, hrun, of_decide_eq_true hok, (staking_books hrun (.inl rfl)).1⟩

end Stellara.Staking
