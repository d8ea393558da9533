import Stellara.Insurance.PoolSafety
import Stellara.Lib.Rollback

/-!
# A trigger call after the end of the window

`check_trigger` expires a policy whose window has ended, and then returns an error:

    check_trigger   do_expire_policy, Err(PolicyExpired)   the host drops the expiry
    expire_policy   do_expire_policy, Ok                   the host keeps it

`checkTriggerWriting` is `check_trigger` with everything that it writes, and `checkTrigger` is
what the host makes of it (`rollback_checkTrigger`).  So no trigger call ever expires a policy
(`expiry_dropped`).
-/

namespace Stellara.Insurance

open Outcome Writing

/-! ## The call with its writes -/

/-- `check_trigger`, in the order of the source. -/
def checkTriggerWriting (env : Env) (fetch : Fetch) (policyId : Nat) :
    Writing (Fault InsuranceError) State Bool := do
  lift (requireInitialized (← get))
  let policy ← lift (ofOption (getPolicy (← get) policyId) (.err .policyNotFound))
  lift (require (policy.status = .active) (.err .policyNotActive))
  if policy.endTime < env.timestamp then do
    modify fun s => doExpirePolicy s policy
    throw (.err .policyExpired)
  else do
    let oracleConfig ← lift (ofOption (← get).oracleConfig (.err .notInitialized))
    let oracleValue ← lift (ofOption (fetch oracleConfig.sources policy.oracleFeed
      oracleConfig.maxStaleness oracleConfig.minSources) (.err .oracleFailure))
    if policy.triggerCondition.met oracleValue policy.triggerThreshold then do
      let poolToken ← lift (ofOption (← get).poolToken (.err .notInitialized))
      let tokens ← lift ((← get).tokens.transfer poolToken env.self policy.policyholder
        policy.coverageAmount)
      modify fun s => { s with tokens }
      let totalPayouts ← lift (env.i128 ((← get).pool.totalPayouts + policy.coverageAmount))
      modify fun s => release { s with pool := { s.pool with
        totalLiquidity := saturatingSub s.pool.totalLiquidity policy.coverageAmount
        totalPayouts } } policy .claimed
      pure true
    else pure false

section Call

variable {env : Env} {s : State} {fetch : Fetch} {policyId : Nat} {policy : InsurancePolicy}

/-- What the host makes of the call is the call of the machine. -/
theorem rollback_checkTrigger :
    rollback (checkTriggerWriting env fetch policyId) s = checkTrigger env s fetch policyId := by
  unfold checkTriggerWriting checkTrigger
  simp only [rollback_bind, rollback_get, rollback_lift, ok_bind, bind_assoc]
  refine bind_congr fun _ => bind_congr fun policy => bind_congr fun _ => ?_
  by_cases hend : policy.endTime < env.timestamp
  · rw [if_pos hend, require_neg _ (by omega)]
    rfl
  · rw [if_neg hend, require_pos _ (by omega)]
    simp only [rollback_bind, rollback_get, rollback_lift, ok_bind, bind_assoc]
    refine bind_congr fun config => bind_congr fun value => ?_
    by_cases hmet : policy.triggerCondition.met value policy.triggerThreshold = true
    · rw [if_pos hmet, if_pos hmet]
      unfold payPolicy
      simp only [rollback_bind, rollback_get, rollback_lift, rollback_modify, rollback_pure, ok_bind,
        bind_assoc]
      rfl
    · rw [if_neg hmet, if_neg hmet]
      rfl

/-- **Once the window has ended** the call writes the expiry, and fails. -/
theorem checkTriggerWriting_ended (fetch : Fetch) (hi : s.initialized = true)
    (hpolicy : getPolicy s policyId = some policy) (hactive : policy.status = .active)
    (hend : policy.endTime < env.timestamp) :
    (checkTriggerWriting env fetch policyId).written s =
      (.error (.err .policyExpired), doExpirePolicy s policy) := by
  have hinit : requireInitialized s = .ok () := require_pos _ hi
  unfold checkTriggerWriting
  rw [written_bind_ok written_get, written_bind_ok (written_lift hinit),
    written_bind_ok written_get, written_bind_ok (written_lift (ofOption_eq_ok.mpr hpolicy)),
    written_bind_ok (written_lift (require_pos _ hactive)), if_pos hend]
  rfl

theorem expirePolicy_ended (hi : s.initialized = true)
    (hpolicy : getPolicy s policyId = some policy) (hactive : policy.status = .active)
    (hend : policy.endTime < env.timestamp) :
    expirePolicy env s policyId = .ok (doExpirePolicy s policy) := by
  simp only [expirePolicy, requireInitialized, bind_eq_ok, require_eq_ok, exists_unit_and,
    ofOption_eq_ok, pure_eq_ok]
  exact ⟨hi, policy, hpolicy, hactive, hend, rfl⟩

end Call

/-! ## What is claimed of the call -/

/-- From `s` to `s'` the policy has expired and its reservation was released, exactly as
`expire_policy` does it. -/
structure ExpiredFrom (env : Env) (policyId : Nat) (policy : InsurancePolicy) (s s' : State) :
    Prop where
  status : ∃ policy', getPolicy s' policyId = some policy' ∧ policy'.status = .expired
  released : s'.pool.reservedLiquidity = s.pool.reservedLiquidity - policy.coverageAmount
  same : expirePolicy env s policyId = .ok s'

section Expiry

variable {d : Deployment} {tr : Trace} {env : Env} {s : State} {fetch : Fetch} {policyId : Nat}
  {policy : InsurancePolicy}

theorem expiredFrom_doExpirePolicy (h : Books d s) (hpolicy : getPolicy s policyId = some policy)
    (hactive : policy.status = .active) (hend : policy.endTime < env.timestamp) :
    ExpiredFrom env policyId policy s (doExpirePolicy s policy) := by
  obtain ⟨hkey, -, hpos⟩ := h.policy policyId policy hpolicy
  obtain ⟨index, heq⟩ := release_eq s policy .expired
  refine ⟨⟨{ policy with status := .expired }, ?_, rfl⟩, ?_,
    expirePolicy_ended (h.initialized hpolicy) hpolicy hactive hend⟩
  · unfold doExpirePolicy getPolicy
    rw [heq, hkey]
    exact AList.lookup_insert _
  · unfold doExpirePolicy
    rw [heq]
    exact saturatingSub_exact (h.covered.trans h.bounded) hpos.le (h.active_le hpolicy hactive).1

/-- The host drops what the call wrote. -/
theorem settled_checkTrigger (h : Books d s) (hpolicy : getPolicy s policyId = some policy)
    (hactive : policy.status = .active) (hend : policy.endTime < env.timestamp) :
    (machine d).settled env (.checkTrigger fetch policyId) s = s := by
  have hfails : (machine d).exec env (.checkTrigger fetch policyId) s =
      .error (.err .policyExpired) := by
    show (checkTrigger env s fetch policyId >>= _) = _
    rw [← rollback_checkTrigger]
    unfold rollback
    rw [checkTriggerWriting_ended fetch (h.initialized hpolicy) hpolicy hactive hend]
    rfl
  exact Machine.settled_of_error hfails

theorem not_expiredFrom_self (hpolicy : getPolicy s policyId = some policy)
    (hactive : policy.status = .active) : ¬ ExpiredFrom env policyId policy s s := by
  intro hexpired
  obtain ⟨policy', hpolicy', hstatus⟩ := hexpired.status
  rw [hpolicy] at hpolicy'
  cases hpolicy'
  rw [hactive] at hstatus
  cases hstatus

/-- **No trigger call expires a policy.**  In every reachable state, what the call writes is the
expiry of the policy, and what the host leaves of it is nothing. -/
theorem expiry_dropped (h : Run (machine d) tr s) (hpolicy : getPolicy s policyId = some policy)
    (hactive : policy.status = .active) (hend : policy.endTime < env.timestamp) :
    (∃ s', (checkTriggerWriting env fetch policyId).written s = (.error (.err .policyExpired), s') ∧
      ExpiredFrom env policyId policy s s') ∧
    (machine d).settled env (.checkTrigger fetch policyId) s = s ∧
    ¬ ExpiredFrom env policyId policy s ((machine d).settled env (.checkTrigger fetch policyId) s) := by
  have hbooks := books_run h
  have hsettled : (machine d).settled env (.checkTrigger fetch policyId) s = s :=
    settled_checkTrigger hbooks hpolicy hactive hend
  refine ⟨⟨doExpirePolicy s policy, ?_, ?_⟩, hsettled, ?_⟩
  · exact checkTriggerWriting_ended fetch (hbooks.initialized hpolicy) hpolicy hactive hend
  · exact expiredFrom_doExpirePolicy hbooks hpolicy hactive hend
  · rw [hsettled]
    exact not_expiredFrom_self hpolicy hactive

end Expiry

/-! ## Runs -/

/-- A policy over 400, which covers the time from 10 to 86410. -/
def policySold : List (Env × Call) :=
  [(callAt 0 [], .token (.mint 5 1 1000)), (callAt 0 [], .token (.mint 5 2 100)),
    (callAt 0 [9], .init 9 5 [7] 3600 1), (callAt 0 [1], .depositLiquidity 1 1000),
    (callAt 10 [2], .createPolicy 2 (rainTerms 400 40))]

theorem policySold_run : ∃ (tr : Trace) (s : State) (policy : InsurancePolicy),
    Run (machine ⟨0, true⟩) tr s ∧ (∀ e ∈ tr, e.env.timestamp ≤ 10) ∧
      getPolicy s 1 = some policy ∧ policy.status = .active ∧ policy.endTime = 86410 := by
  have hinit : (machine ⟨0, true⟩).init { tokens := .empty } := ⟨_, rfl⟩
  obtain ⟨tr, s, hrun, hok⟩ := Machine.exists_run_of_replay hinit policySold
    (fun tr s => decide (∀ e ∈ tr, e.env.timestamp ≤ 10) && (getPolicy s 1).any fun policy =>
      policy.status = .active ∧ policy.endTime = 86410) (by decide) (by decide) (by decide)
  obtain ⟨htimes, hok⟩ := Bool.and_eq_true_iff.mp hok
  obtain ⟨policy, hpolicy, hok⟩ := (Option.any_eq_true _ _).mp hok
  obtain ⟨hactive, hend⟩ := of_decide_eq_true hok
  exact ⟨tr, s, policy, hrun, of_decide_eq_true htimes, hpolicy, hactive, hend⟩

/-- A day later, whatever the oracle says. -/
theorem expiry_dropped_late : ∃ (tr : Trace) (s : State) (policy : InsurancePolicy),
    Run (machine ⟨0, true⟩) tr s ∧ getPolicy s 1 = some policy ∧ policy.status = .active ∧
      ∀ fetch, (machine ⟨0, true⟩).settled (callAt 90000 []) (.checkTrigger fetch 1) s = s := by
  obtain ⟨tr, s, policy, hrun, -, hpolicy, hactive, hend⟩ := policySold_run
  have hended : policy.endTime < (callAt 90000 []).timestamp := by
    rw [hend]
    decide
  exact ⟨tr, s, policy, hrun, hpolicy, hactive, fun _ =>
    (expiry_dropped hrun hpolicy hactive hended).2.1⟩

/-- **The policy stays active** after a trigger call a day later. -/
theorem trigger_leaves_active :
    ¬ ∀ (d : Deployment) (tr : Trace) (s : State) (env : Env) (fetch : Fetch) (policyId : Nat)
      (policy : InsurancePolicy), Run (machine d) tr s → env.Of d →
      (∀ e ∈ tr, e.env.timestamp ≤ env.timestamp) → getPolicy s policyId = some policy →
      policy.status = .active → policy.endTime < env.timestamp →
      ExpiredFrom env policyId policy s
        ((machine d).settled env (.checkTrigger fetch policyId) s) := by
  intro hclaim
  obtain ⟨tr, s, policy, hrun, htimes, hpolicy, hactive, hend⟩ := policySold_run
  have hended : policy.endTime < (callAt 90000 []).timestamp := by
    rw [hend]
    decide
  have hlater : ∀ e ∈ tr, e.env.timestamp ≤ (callAt 90000 []).timestamp := fun e he =>
    (htimes e he).trans (by decide)
  have hexpired := hclaim _ tr s (callAt 90000 []) (fun _ _ _ _ => none) 1 policy hrun (by decide)
    hlater hpolicy hactive hended
  rw [settled_checkTrigger (books_run hrun) hpolicy hactive hended] at hexpired
  exact not_expiredFrom_self hpolicy hactive hexpired

end Stellara.Insurance
