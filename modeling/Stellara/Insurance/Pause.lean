import Stellara.Insurance.PoolSafety

/-!
# What a paused contract still does

    Run (machine d) tr s → ((∀ e ∈ tr, PauseHolds e) ↔ ∀ e ∈ tr, Gated e)            (pause_iff)

`PauseHolds`: a call without the administrator's signature that finds the contract paused leaves
the pool and the status of every policy as they are.  Deposits, withdrawals, new policies and
cancellations are refused then.  `check_trigger` and `expire_policy` do not look at the flag, so
`Gated` excludes what they would change: an expiry, and a trigger whose reading meets the policy's
condition.
-/

namespace Stellara.Insurance

open Outcome

/-! ## The property and its condition -/

/-- The pool and the status of every policy are the same in both states. -/
def Unchanged (s s' : State) : Prop :=
  s'.pool = s.pool ∧
    ∀ id, (getPolicy s' id).map InsurancePolicy.status = (getPolicy s id).map InsurancePolicy.status

/-- The administrator has signed the call. -/
def ByAdmin (e : Event Env Call Reply State) : Prop :=
  ∃ admin, e.before.admin = some admin ∧ admin ∈ e.env.signers

/-- **Pausing** stops the call, if it is not the administrator's. -/
def PauseHolds (e : Event Env Call Reply State) : Prop :=
  e.before.paused = true → ¬ ByAdmin e → Unchanged e.before e.after

/-- What the oracles answer meets the condition of the policy. -/
def Triggered (s : State) (fetch : Fetch) (policyId : Nat) : Prop :=
  ∃ policy oracleConfig oracleValue, getPolicy s policyId = some policy ∧
    s.oracleConfig = some oracleConfig ∧
    fetch oracleConfig.sources policy.oracleFeed oracleConfig.maxStaleness
      oracleConfig.minSources = some oracleValue ∧
    policy.triggerCondition.met oracleValue policy.triggerThreshold = true

/-- The call takes one of the two paths that change policies and have no gate. -/
def Call.Ungated (s : State) : Call → Prop
  | .checkTrigger fetch policyId => Triggered s fetch policyId
  | .expirePolicy _ => True
  | _ => False

/-- **The condition.**  Nobody but the administrator takes them during a pause. -/
def Gated (e : Event Env Call Reply State) : Prop :=
  e.before.paused = true → ¬ ByAdmin e → ¬ e.call.Ungated e.before

/-! ## The two paths -/

section Paths

variable {d : Deployment} {env : Env} {s s' : State}

/-- A policy that ends is not what it was. -/
theorem release_changed {s0 : State} {id : Nat} {policy : InsurancePolicy} {status : PolicyStatus}
    (h : Books d s) (hr : getPolicy s id = some policy) (ha : policy.status = .active)
    (hst : status ≠ .active) : ¬ Unchanged s (release s0 policy status) := by
  rintro ⟨-, hsame⟩
  have hkey := (h.policy id policy hr).1
  obtain ⟨index, heq⟩ := release_eq s0 policy status
  have hnew : getPolicy (release s0 policy status) id = some { policy with status } := by
    rw [heq]
    show (s0.policies.insert policy.id { policy with status }).lookup id = _
    rw [hkey, AList.lookup_insert]
  have hid := hsame id
  rw [hnew, hr] at hid
  exact hst ((Option.some.inj hid).trans ha)

theorem expire_changed {policyId : Nat} (h : Books d s)
    (hx : expirePolicy env s policyId = .ok s') : ¬ Unchanged s s' := by
  obtain ⟨policy, hr, ha, rfl⟩ := expirePolicy_ok hx
  exact release_changed h hr ha (by decide)

/-- A trigger call pays if the condition is met, and else does nothing. -/
theorem checkTrigger_triggered {fetch : Fetch} {policyId : Nat} {b : Bool}
    (hx : checkTrigger env s fetch policyId = .ok (b, s')) :
    ∃ policy, getPolicy s policyId = some policy ∧ policy.status = .active ∧
      (Triggered s fetch policyId ∧ payPolicy env s policy = .ok s' ∨
        ¬ Triggered s fetch policyId ∧ s' = s) := by
  simp only [checkTrigger, requireInitialized, bind_eq_ok, require_eq_ok, exists_unit_and,
    ofOption_eq_ok] at hx
  obtain ⟨-, policy, hr, hst, -, config, hconfig, value, hvalue, hx⟩ := hx
  refine ⟨policy, hr, hst, ?_⟩
  split at hx
  · next hmet =>
    simp only [bind_eq_ok, pure_eq_ok, Prod.mk.injEq] at hx
    obtain ⟨s1, hpay, -, rfl⟩ := hx
    exact .inl ⟨⟨policy, config, value, hr, hconfig, hvalue, hmet⟩, hpay⟩
  · next hmiss =>
    cases hx
    refine .inr ⟨?_, rfl⟩
    -- policy, configuration and reading are the ones the call has looked at
    rintro ⟨policy', config', value', hr', hconfig', hvalue', hmet⟩
    rw [hr] at hr'
    cases hr'
    rw [hconfig] at hconfig'
    cases hconfig'
    rw [hvalue] at hvalue'
    cases hvalue'
    exact hmiss hmet

theorem checkTrigger_unchanged_iff {fetch : Fetch} {policyId : Nat} {b : Bool} (h : Books d s)
    (hx : checkTrigger env s fetch policyId = .ok (b, s')) :
    Unchanged s s' ↔ ¬ Triggered s fetch policyId := by
  obtain ⟨policy, hr, ha, ⟨hmet, hpay⟩ | ⟨hmiss, rfl⟩⟩ := checkTrigger_triggered hx
  · obtain ⟨token, tokens, total, -, -, rfl⟩ := payPolicy_ok hpay
    exact ⟨fun hsame => absurd hsame (release_changed h hr ha (by decide)), fun hn => absurd hmet hn⟩
  · exact ⟨fun _ => hmiss, fun _ => ⟨rfl, fun _ => rfl⟩⟩

end Paths

/-! ## Every call -/

/-- Only an initialized contract is paused. -/
theorem paused_initialized {d : Deployment} {tr : Trace} {s : State} (h : Run (machine d) tr s) :
    s.paused = true → s.initialized = true := by
  refine h.invariant (I := fun s => s.paused = true → s.initialized = true) ?_ ?_
  · rintro s ⟨tokens, rfl⟩ hp
    cases hp
  · intro env call r s s' _ hi hx
    cases call with
    | init admin poolToken sources staleness minSources =>
      obtain ⟨-, rfl⟩ := init_ok (done_ok.mp hx).1
      exact fun _ => rfl
    | updateOracleConfig admin sources staleness minSources =>
      obtain rfl := updateOracleConfig_ok (done_ok.mp hx).1
      exact hi
    | pause admin =>
      obtain ⟨hinit, rfl⟩ := pause_ok (done_ok.mp hx).1
      exact fun _ => hinit
    | unpause admin =>
      obtain rfl := unpause_ok (done_ok.mp hx).1
      intro hp
      cases hp
    | depositLiquidity provider amount =>
      obtain ⟨hinit, -, -, token, tokens, index, total, -, -, -, rfl⟩ :=
        depositLiquidity_ok (done_ok.mp hx).1
      exact fun _ => hinit
    | withdrawLiquidity provider amount =>
      obtain ⟨hinit, -, -, token, tokens, index, total, -, -, -, rfl⟩ :=
        withdrawLiquidity_ok (done_ok.mp hx).1
      exact fun _ => hinit
    | createPolicy policyholder terms =>
      obtain ⟨n, hx, -⟩ := answerWith_eq_ok.mp hx
      obtain ⟨hinit, -, -, -, -, token, tokens, endTime, total, reserved, premiums, index, -, -, -,
        -, rfl⟩ := createPolicy_ok hx
      exact fun _ => hinit
    | cancelPolicy policyholder policyId =>
      obtain ⟨policy, -, -, rfl⟩ := cancelPolicy_ok (done_ok.mp hx).1
      obtain ⟨index, heq⟩ := release_eq s policy .cancelled
      rw [heq]
      exact hi
    | checkTrigger fetch policyId =>
      obtain ⟨b, hx, -⟩ := answerWith_eq_ok.mp hx
      obtain ⟨policy, -, -, -, ⟨-, rfl⟩ | ⟨-, hpay⟩⟩ := checkTrigger_ok hx
      · exact hi
      · obtain ⟨token, tokens, total, -, -, rfl⟩ := payPolicy_ok hpay
        obtain ⟨index, heq⟩ := release_eq { s with tokens, pool := { s.pool with
          totalLiquidity := saturatingSub s.pool.totalLiquidity policy.coverageAmount
          totalPayouts := total } } policy .claimed
        rw [heq]
        exact hi
    | expirePolicy policyId =>
      obtain ⟨policy, -, -, rfl⟩ := expirePolicy_ok (done_ok.mp hx).1
      obtain ⟨index, heq⟩ := release_eq s policy .expired
      rw [heq]
      exact hi
    | token c =>
      obtain ⟨hx, -⟩ := done_ok.mp hx
      simp only [bind_eq_ok, pure_eq_ok] at hx
      obtain ⟨tokens, -, rfl⟩ := hx
      exact hi

/-- A call that finds the contract paused changes something exactly on an ungated path. -/
theorem unchanged_iff {d : Deployment} {env : Env} {call : Call} {r : Reply} {s s' : State}
    (h : Books d s) (hi : s.initialized = true) (hp : s.paused = true)
    (hx : exec env call s = .ok (r, s')) : Unchanged s s' ↔ ¬ call.Ungated s := by
  have hsame : ∀ {s1 : State}, s1.pool = s.pool → s1.policies = s.policies → Unchanged s s1 := by
    intro s1 hpool hpolicies
    refine ⟨hpool, fun id => ?_⟩
    unfold getPolicy
    rw [hpolicies]
  cases call with
  | init admin poolToken sources staleness minSources =>
    obtain ⟨hfresh, -⟩ := init_ok (done_ok.mp hx).1
    rw [hi] at hfresh
    cases hfresh
  | updateOracleConfig admin sources staleness minSources =>
    obtain rfl := updateOracleConfig_ok (done_ok.mp hx).1
    exact iff_of_true (hsame rfl rfl) id
  | pause admin =>
    obtain ⟨-, rfl⟩ := pause_ok (done_ok.mp hx).1
    exact iff_of_true (hsame rfl rfl) id
  | unpause admin =>
    obtain rfl := unpause_ok (done_ok.mp hx).1
    exact iff_of_true (hsame rfl rfl) id
  | depositLiquidity provider amount =>
    obtain ⟨hx, -⟩ := done_ok.mp hx
    simp only [depositLiquidity, requireNotPaused, bind_eq_ok, require_eq_ok, exists_unit_and] at hx
    rw [hp] at hx
    cases hx.1
  | withdrawLiquidity provider amount =>
    obtain ⟨hx, -⟩ := done_ok.mp hx
    simp only [withdrawLiquidity, requireNotPaused, bind_eq_ok, require_eq_ok,
      exists_unit_and] at hx
    rw [hp] at hx
    cases hx.1
  | createPolicy policyholder terms =>
    simp only [exec, createPolicy, requireNotPaused, bind_eq_ok, require_eq_ok,
      exists_unit_and] at hx
    obtain ⟨_, hx, -⟩ := hx
    rw [hp] at hx
    cases hx.1
  | cancelPolicy policyholder policyId =>
    obtain ⟨hx, -⟩ := done_ok.mp hx
    simp only [cancelPolicy, requireNotPaused, bind_eq_ok, require_eq_ok, exists_unit_and] at hx
    rw [hp] at hx
    cases hx.1
  | checkTrigger fetch policyId =>
    obtain ⟨b, hx, -⟩ := answerWith_eq_ok.mp hx
    exact checkTrigger_unchanged_iff h hx
  | expirePolicy policyId =>
    exact iff_of_false (expire_changed h (done_ok.mp hx).1) (fun hn => hn trivial)
  | token c =>
    obtain ⟨hx, -⟩ := done_ok.mp hx
    simp only [bind_eq_ok, pure_eq_ok] at hx
    obtain ⟨tokens, -, rfl⟩ := hx
    exact iff_of_true (hsame rfl rfl) id

/-- **Pause completeness.**  In every run, no call without the administrator's signature that
finds the contract paused changes the pool or the status of a policy, exactly if none of them is
an expiry or a trigger whose reading meets the policy's condition. -/
theorem pause_iff {d : Deployment} {tr : Trace} {s : State} (h : Run (machine d) tr s) :
    (∀ e ∈ tr, PauseHolds e) ↔ ∀ e ∈ tr, Gated e := by
  refine forall₂_congr fun e he => ?_
  obtain ⟨tr', hrun, hv, hx⟩ := h.of_mem he
  refine forall_congr' fun hp => imp_congr_right fun _ => ?_
  exact unchanged_iff (books_run hrun) (paused_initialized hrun hp) hp hx

/-- A policy over 400 is sold, the contract paused, and then rain of `reading` reported. -/
def rainWhilePaused (reading : Int) : List (Env × Call) :=
  [(callAt 0 [], .token (.mint 5 1 1000)), (callAt 0 [], .token (.mint 5 2 100)),
    (callAt 0 [9], .init 9 5 [7] 3600 1), (callAt 0 [1], .depositLiquidity 1 1000),
    (callAt 10 [2], .createPolicy 2 (rainTerms 400 40)), (callAt 20 [9], .pause 9),
    (callAt 30 [], .checkTrigger (fun _ _ _ _ => some reading) 1)]

/-- A reading of 150 is below the threshold: nothing happens. -/
theorem pause_iff_dry :
    ∃ (tr : Trace) (s : State), Run (machine ⟨0, true⟩) tr s ∧ s.paused = true ∧
      tr.length = 7 ∧ ((∀ e ∈ tr, PauseHolds e) ↔ ∀ e ∈ tr, Gated e) := by
  have hinit : (machine ⟨0, true⟩).init { tokens := .empty } := ⟨_, rfl⟩
  obtain ⟨tr, s, hrun, hok⟩ := Machine.exists_run_of_replay hinit (rainWhilePaused 150)
    (fun tr s => s.paused = true ∧ tr.length = 7) (by decide) (by decide) (by decide)
  obtain ⟨hpaused, hlength⟩ := of_decide_eq_true hok
  exact ⟨tr, s, hrun, hpaused, hlength, pause_iff hrun⟩

/-- The last call is unsigned, finds the contract paused, and lowers the liquidity. -/
def drains : Trace → Bool
  | e :: _ => e.before.paused && e.env.signers.isEmpty &&
      e.after.pool.totalLiquidity < e.before.pool.totalLiquidity
  | [] => false

/-- **A payout during a pause**: after a reading of 250 anybody may take it. -/
theorem pause_iff_payout :
    ¬ ∀ (d : Deployment) (tr : Trace) (s : State), Run (machine d) tr s →
      ∀ e ∈ tr, PauseHolds e := by
  intro hclaim
  have hinit : (machine ⟨0, true⟩).init { tokens := .empty } := ⟨_, rfl⟩
  obtain ⟨tr, s, hrun, hok⟩ := Machine.exists_run_of_replay hinit (rainWhilePaused 250)
    (fun tr _ => drains tr) (by decide) (by decide) (by decide)
  match tr with
  | [] => cases hok
  | e :: tr =>
    simp only [drains, Bool.and_eq_true, List.isEmpty_iff, decide_eq_true_eq] at hok
    obtain ⟨⟨hpaused, hsigners⟩, hlt⟩ := hok
    have hnobody : ¬ ByAdmin e := by
      rintro ⟨admin, -, hsigned⟩
      rw [hsigners] at hsigned
      cases hsigned
    have hpool := (hclaim _ _ _ hrun e List.mem_cons_self hpaused hnobody).1
    rw [hpool] at hlt
    omega

end Stellara.Insurance
