import Stellara.Insurance.Books

/-!
# The insurance pool is solvent, and pays each policy once

`Books` holds in every reachable state (`books_run`).  Along a run

* the total liquidity is what came in less what went out (`totalLiquidity_run`),
* a policy that has been paid is stored as claimed, and is not paid again (`paid_run`),
* every payout falls into the window of its policy (`windowed_run`): the window was opened
  by an earlier call.

`pool_solvent` collects the results.
-/

namespace Stellara.Insurance

open Outcome

/-! ## What the calls of a run moved -/

def deposited (e : Event Env Call Reply State) : Int :=
  match e.call with
  | .depositLiquidity _ amount => amount
  | _ => 0

def withdrawn (e : Event Env Call Reply State) : Int :=
  match e.call with
  | .withdrawLiquidity _ amount => amount
  | _ => 0

def premiums (e : Event Env Call Reply State) : Int :=
  match e.call with
  | .createPolicy _ terms => terms.premiumAmount
  | _ => 0

/-- The id of the policy that the call paid out. -/
def payout (e : Event Env Call Reply State) : Option Nat :=
  match e.call, e.ret with
  | .checkTrigger _ policyId, .triggered true => some policyId
  | _, _ => none

/-- The coverage of the policy that the call paid out. -/
def paidOut (e : Event Env Call Reply State) : Int :=
  (((payout e).bind (getPolicy e.before)).map InsurancePolicy.coverageAmount).getD 0

/-- How often the policy was paid out. -/
def payouts (id : Nat) (tr : Trace) : Nat := tr.countP fun e => payout e = some id

/-- **The total** moves by what the call moved. -/
theorem totalLiquidity_step {d : Deployment} {env : Env} {call : Call} {r : Reply} {s s' : State}
    (hv : env.Of d) (h : Books d s) (hx : exec env call s = .ok (r, s')) :
    s'.pool.totalLiquidity = s.pool.totalLiquidity +
      (deposited ⟨env, call, r, s, s'⟩ + premiums ⟨env, call, r, s, s'⟩ -
        withdrawn ⟨env, call, r, s, s'⟩ - paidOut ⟨env, call, r, s, s'⟩) := by
  cases call with
  | init admin poolToken sources staleness minSources =>
    obtain ⟨hi, rfl⟩ := init_ok (done_ok.mp hx).1
    rw [(h.fresh hi).2]
    rfl
  | updateOracleConfig admin sources staleness minSources =>
    obtain rfl := updateOracleConfig_ok (done_ok.mp hx).1
    simp [deposited, premiums, withdrawn, paidOut, payout]
  | pause admin =>
    obtain ⟨-, rfl⟩ := pause_ok (done_ok.mp hx).1
    simp [deposited, premiums, withdrawn, paidOut, payout]
  | unpause admin =>
    obtain rfl := unpause_ok (done_ok.mp hx).1
    simp [deposited, premiums, withdrawn, paidOut, payout]
  | depositLiquidity provider amount =>
    rw [(h.deposit hv (done_ok.mp hx).1).2]
    simp [deposited, premiums, withdrawn, paidOut, payout]
  | withdrawLiquidity provider amount =>
    rw [(h.withdraw hv (done_ok.mp hx).1).2]
    simp [deposited, premiums, withdrawn, paidOut, payout, sub_eq_add_neg]
  | createPolicy policyholder terms =>
    simp only [exec, bind_eq_ok, pure_eq_ok, Prod.mk.injEq] at hx
    obtain ⟨⟨n, s1⟩, hx, -, rfl⟩ := hx
    rw [(h.create hv hx).2]
    simp [deposited, premiums, withdrawn, paidOut, payout]
  | cancelPolicy policyholder policyId =>
    obtain ⟨policy, -, -, rfl⟩ := cancelPolicy_ok (done_ok.mp hx).1
    obtain ⟨index, heq⟩ := release_eq s policy .cancelled
    rw [heq]
    simp [deposited, premiums, withdrawn, paidOut, payout]
  | checkTrigger fetch policyId =>
    simp only [exec, bind_eq_ok, pure_eq_ok, Prod.mk.injEq] at hx
    obtain ⟨⟨b, s1⟩, hx, rfl, rfl⟩ := hx
    obtain ⟨policy, hr, ha, -, ⟨rfl, rfl⟩ | ⟨rfl, hpay⟩⟩ := checkTrigger_ok hx
    · simp [deposited, premiums, withdrawn, paidOut, payout]
    · rw [(h.pay hv.1 hr ha hpay).2]
      simp [deposited, premiums, withdrawn, paidOut, payout, hr, sub_eq_add_neg]
  | expirePolicy policyId =>
    obtain ⟨policy, -, -, rfl⟩ := expirePolicy_ok (done_ok.mp hx).1
    obtain ⟨index, heq⟩ := release_eq s policy .expired
    rw [heq]
    simp [deposited, premiums, withdrawn, paidOut, payout]
  | token c =>
    obtain ⟨hx, -⟩ := done_ok.mp hx
    simp only [bind_eq_ok, pure_eq_ok] at hx
    obtain ⟨tokens, -, rfl⟩ := hx
    simp [deposited, premiums, withdrawn, paidOut, payout]

theorem totalLiquidity_run {d : Deployment} {tr : Trace} {s : State} (h : Run (machine d) tr s) :
    s.pool.totalLiquidity = tally deposited tr + tally premiums tr - tally withdrawn tr -
      tally paidOut tr := by
  have htally := h.conservation (Q := fun s => s.pool.totalLiquidity)
    (f := fun e => deposited e + premiums e - withdrawn e - paidOut e) (P := fun _ => True)
    (fun _ _ => trivial) ?_ ?_
  · rw [htally, tally_sub, tally_sub, tally_add]
  · rintro s ⟨tokens, rfl⟩
    rfl
  · intro tr env call r s s' hr hv hx _
    exact totalLiquidity_step hv (books_run hr) hx

/-! ## The life of a policy -/

/-- What a call does to the stored policies; `paid` is the policy it pays out. -/
inductive PolicyStep (env : Env) (s s' : State) : (paid : Option Nat) → Prop
  | same (h : s'.policies = s.policies) : PolicyStep env s s' none
  | created {policy : InsurancePolicy} (hnew : getPolicy s policy.id = none)
      (hst : policy.status = .active) (hs : policy.startTime = env.timestamp)
      (h : s'.policies = s.policies.insert policy.id policy) : PolicyStep env s s' none
  | ended {policy : InsurancePolicy} {status : PolicyStatus}
      (hr : getPolicy s policy.id = some policy) (ha : policy.status = .active)
      (h : s'.policies = s.policies.insert policy.id { policy with status }) :
      PolicyStep env s s' none
  | paid {policy : InsurancePolicy} (hr : getPolicy s policy.id = some policy)
      (ha : policy.status = .active) (he : env.timestamp ≤ policy.endTime)
      (h : s'.policies = s.policies.insert policy.id { policy with status := .claimed }) :
      PolicyStep env s s' (some policy.id)

theorem exec_policyStep {d : Deployment} {env : Env} {call : Call} {r : Reply} {s s' : State}
    (h : Books d s) (hx : exec env call s = .ok (r, s')) :
    PolicyStep env s s' (payout ⟨env, call, r, s, s'⟩) := by
  have hended : ∀ {id : Nat} {policy : InsurancePolicy} {status : PolicyStatus},
      getPolicy s id = some policy → policy.status = .active →
      PolicyStep env s (release s policy status) none := by
    intro id policy status hr ha
    obtain ⟨index, heq⟩ := release_eq s policy status
    rw [heq]
    exact .ended (by rw [(h.policy id policy hr).1]; exact hr) ha rfl
  cases call with
  | init admin poolToken sources staleness minSources =>
    obtain ⟨-, rfl⟩ := init_ok (done_ok.mp hx).1
    exact .same rfl
  | updateOracleConfig admin sources staleness minSources =>
    obtain rfl := updateOracleConfig_ok (done_ok.mp hx).1
    exact .same rfl
  | pause admin =>
    obtain ⟨-, rfl⟩ := pause_ok (done_ok.mp hx).1
    exact .same rfl
  | unpause admin =>
    obtain rfl := unpause_ok (done_ok.mp hx).1
    exact .same rfl
  | depositLiquidity provider amount =>
    obtain ⟨-, -, -, token, tokens, index, total, -, -, -, rfl⟩ :=
      depositLiquidity_ok (done_ok.mp hx).1
    exact .same rfl
  | withdrawLiquidity provider amount =>
    obtain ⟨-, -, -, token, tokens, index, total, -, -, -, rfl⟩ :=
      withdrawLiquidity_ok (done_ok.mp hx).1
    exact .same rfl
  | createPolicy policyholder terms =>
    simp only [exec, bind_eq_ok, pure_eq_ok, Prod.mk.injEq] at hx
    obtain ⟨⟨n, s1⟩, hx, -, rfl⟩ := hx
    obtain ⟨-, -, -, -, -, token, tokens, endTime, total, reserved, premiums, index, -, -, -, -,
      rfl⟩ := createPolicy_ok hx
    have hnew : getPolicy s (newPolicy env (s.policyCounter + 1) policyholder terms endTime).id =
        none := by
      show getPolicy s (s.policyCounter + 1) = none
      cases hr : getPolicy s (s.policyCounter + 1) with
      | none => rfl
      | some p => have := (h.policy _ p hr).2.1; omega
    exact .created hnew rfl rfl rfl
  | cancelPolicy policyholder policyId =>
    obtain ⟨policy, hr, ha, rfl⟩ := cancelPolicy_ok (done_ok.mp hx).1
    exact hended hr ha
  | checkTrigger fetch policyId =>
    simp only [exec, bind_eq_ok, pure_eq_ok, Prod.mk.injEq] at hx
    obtain ⟨⟨b, s1⟩, hx, rfl, rfl⟩ := hx
    obtain ⟨policy, hr, ha, hle, ⟨rfl, rfl⟩ | ⟨rfl, hpay⟩⟩ := checkTrigger_ok hx
    · exact .same rfl
    · obtain ⟨token, tokens, total, -, -, rfl⟩ := payPolicy_ok hpay
      obtain ⟨index, heq⟩ := release_eq { s with tokens, pool := { s.pool with
        totalLiquidity := saturatingSub s.pool.totalLiquidity policy.coverageAmount
        totalPayouts := total } } policy .claimed
      have hkey := (h.policy policyId policy hr).1
      subst hkey
      rw [heq]
      exact .paid hr ha hle rfl
  | expirePolicy policyId =>
    obtain ⟨policy, hr, ha, rfl⟩ := expirePolicy_ok (done_ok.mp hx).1
    exact hended hr ha
  | token c =>
    obtain ⟨hx, -⟩ := done_ok.mp hx
    simp only [bind_eq_ok, pure_eq_ok] at hx
    obtain ⟨tokens, -, rfl⟩ := hx
    exact .same rfl

/-- The policy is stored as paid. -/
def Claimed (s : State) (id : Nat) : Prop :=
  ∃ policy, getPolicy s id = some policy ∧ policy.status = .claimed

/-- A call leaves claimed policies claimed, and pays only a policy that is not. -/
theorem PolicyStep.claimed {env : Env} {s s' : State} {paid : Option Nat}
    (h : PolicyStep env s s' paid) (id : Nat) :
    (Claimed s id → Claimed s' id) ∧ (paid = some id → ¬ Claimed s id ∧ Claimed s' id) := by
  cases h with
  | same h =>
    unfold Claimed getPolicy
    rw [h]
    exact ⟨fun hc => hc, fun hn => by cases hn⟩
  | @created policy hnew hst hs h =>
    refine ⟨?_, fun hn => by cases hn⟩
    rintro ⟨p, hr, hc⟩
    have hne : id ≠ policy.id := by
      rintro rfl
      rw [hnew] at hr
      cases hr
    exact ⟨p, by unfold getPolicy; rw [h, Store.lookup_insert_eq, if_neg hne]; exact hr, hc⟩
  | @ended policy status hr ha h =>
    refine ⟨?_, fun hn => by cases hn⟩
    rintro ⟨p, hp, hc⟩
    have hne : id ≠ policy.id := by
      rintro rfl
      rw [hr] at hp
      cases hp
      rw [ha] at hc
      cases hc
    exact ⟨p, by unfold getPolicy; rw [h, Store.lookup_insert_eq, if_neg hne]; exact hp, hc⟩
  | @paid policy hr ha _ h =>
    have hnow : Claimed s' policy.id :=
      ⟨_, by unfold getPolicy; rw [h, Store.lookup_insert_eq, if_pos rfl], rfl⟩
    have hbefore : ¬ Claimed s policy.id := by
      rintro ⟨p, hp, hc⟩
      rw [hr] at hp
      cases hp
      rw [ha] at hc
      cases hc
    constructor
    · rintro ⟨p, hp, hc⟩
      by_cases heq : id = policy.id
      · rw [heq]; exact hnow
      · exact ⟨p, by unfold getPolicy; rw [h, Store.lookup_insert_eq, if_neg heq]; exact hp, hc⟩
    · intro heq
      cases heq
      exact ⟨hbefore, hnow⟩

/-- **A paid policy** was paid once and is stored as claimed. -/
theorem paid_run {d : Deployment} {tr : Trace} {s : State} (h : Run (machine d) tr s) (id : Nat) :
    payouts id tr = 0 ∨ payouts id tr = 1 ∧ Claimed s id := by
  induction h with
  | start => exact .inl rfl
  | @commit tr s s' env call r h hv _ hx ih =>
    obtain ⟨hkeep, hpay⟩ := (exec_policyStep (books_run h) hx).claimed id
    unfold payouts at ih ⊢
    rw [List.countP_cons]
    by_cases hp : payout ⟨env, call, r, s, s'⟩ = some id
    · obtain ⟨hbefore, hnow⟩ := hpay hp
      rw [if_pos (decide_eq_true hp)]
      rcases ih with h0 | ⟨-, hc⟩
      · exact .inr ⟨by omega, hnow⟩
      · exact absurd hc hbefore
    · rw [if_neg (by simpa using hp)]
      rcases ih with h0 | ⟨h1, hc⟩
      · exact .inl (by omega)
      · exact .inr ⟨by omega, hkeep hc⟩

/-- Every stored policy was created by a call of the run. -/
theorem started_run {d : Deployment} {tr : Trace} {s : State} (h : Run (machine d) tr s) :
    ∀ id policy, getPolicy s id = some policy → ∃ e ∈ tr, policy.startTime = e.env.timestamp := by
  induction h with
  | start h =>
    obtain ⟨tokens, rfl⟩ := h
    intro id policy hr
    cases hr
  | @commit tr s s' env call r h hv _ hx ih =>
    intro id policy hr
    have hold : ∀ id p, getPolicy s id = some p → p.startTime = policy.startTime →
        ∃ e ∈ (⟨env, call, r, s, s'⟩ :: tr : Trace), policy.startTime = e.env.timestamp := by
      intro id p hp hs
      obtain ⟨e, he, ht⟩ := ih id p hp
      exact ⟨e, List.mem_cons_of_mem _ he, by rw [← hs]; exact ht⟩
    have hstep := exec_policyStep (books_run h) hx
    generalize payout ⟨env, call, r, s, s'⟩ = paid at hstep
    unfold getPolicy at hr
    cases hstep with
    | same h => rw [h] at hr; exact hold id policy hr rfl
    | created _ _ hs h =>
      rw [h, Store.lookup_insert_eq] at hr
      split at hr
      · cases hr; exact ⟨_, List.mem_cons_self, hs⟩
      · exact hold id policy hr rfl
    | @ended p _ hp _ h =>
      rw [h, Store.lookup_insert_eq] at hr
      split at hr
      · cases hr; exact hold p.id p hp rfl
      · exact hold id policy hr rfl
    | @paid p hp _ _ h =>
      rw [h, Store.lookup_insert_eq] at hr
      split at hr
      · cases hr; exact hold p.id p hp rfl
      · exact hold id policy hr rfl

/-- The call pays no policy, or an active one inside its window. -/
def Windowed (e : Event Env Call Reply State) : Prop :=
  ∀ id, payout e = some id → ∃ policy, getPolicy e.before id = some policy ∧
    policy.status = .active ∧ policy.startTime ≤ e.env.timestamp ∧ e.env.timestamp ≤ policy.endTime

/-- **Every payout** is inside the policy's window. -/
theorem windowed_run {d : Deployment} {tr : Trace} {s : State} (h : Run (machine d) tr s) :
    ∀ e ∈ tr, Windowed e := by
  induction h with
  | start => intro e he; cases he
  | @commit tr s s' env call r h hv hc hx ih =>
    rw [List.forall_mem_cons]
    refine ⟨?_, ih⟩
    intro id hp
    have hstep := exec_policyStep (books_run h) hx
    rw [hp] at hstep
    cases hstep with
    | @paid policy hr ha he _ =>
      obtain ⟨e, hmem, hs⟩ := started_run h _ policy hr
      refine ⟨policy, hr, ha, ?_, he⟩
      rw [hs]
      exact hc e hmem

/-! ## Solvency -/

/-- **The insurance pool is solvent.**  In every reachable state the reservation is the
coverage of the active policies and their number is counted; the total liquidity is
deposits plus premiums minus withdrawals minus payouts and covers the reservation; and the
contract holds tokens for the payout of every active policy.  A policy is paid at most
once, only while it is active and only inside its window. -/
theorem pool_solvent {d : Deployment} {tr : Trace} {s : State} (h : Run (machine d) tr s) :
    s.pool.reservedLiquidity = activeCoverage s ∧
    (s.pool.activePolicies : Int) = activeCount s ∧
    s.pool.totalLiquidity = tally deposited tr + tally premiums tr - tally withdrawn tr -
      tally paidOut tr ∧
    s.pool.reservedLiquidity ≤ s.pool.totalLiquidity ∧
    (s.initialized = true → ∃ token, s.poolToken = some token ∧
      activeCoverage s ≤ s.tokens.balance token d.self) ∧
    (∀ id, payouts id tr ≤ 1) ∧
    ∀ e ∈ tr, ∀ id, payout e = some id → ∃ policy, getPolicy e.before id = some policy ∧
      policy.status = .active ∧ policy.startTime ≤ e.env.timestamp ∧
      e.env.timestamp ≤ policy.endTime := by
  have hb := books_run h
  refine ⟨hb.reserved, hb.count, totalLiquidity_run h, hb.covered, ?_, ?_, windowed_run h⟩
  · intro hi
    obtain ⟨token, ht, hle⟩ := hb.funded hi
    exact ⟨token, ht, hb.reserved ▸ hb.covered.trans hle⟩
  · intro id
    rcases paid_run h id with h0 | ⟨h1, -⟩ <;> omega

/-- Contract 0, token 5, administrator 9; calls are signed by `signers`. -/
def callAt (t : Nat) (signers : List Address) : Env := ⟨⟨0, true⟩, t, 0, signers⟩

/-- Rain above 200 pays `coverage`, for a day. -/
def rainTerms (coverage premium : Int) : PolicyTerms :=
  ⟨.weather, "RAINFALL", 200, .greaterThan, coverage, premium, 86400⟩

/-- Two policies over one deposit; the first is triggered by a reading of 250. -/
theorem pool_solvent_one_payout :
    ∃ (tr : Trace) (s : State), Run (machine ⟨0, true⟩) tr s ∧ payouts 1 tr = 1 ∧
      activeCoverage s = 300 ∧ s.pool.reservedLiquidity = 300 ∧
      s.pool.totalLiquidity = tally deposited tr + tally premiums tr - tally withdrawn tr -
        tally paidOut tr ∧ ∀ id, payouts id tr ≤ 1 := by
  have hinit : (machine ⟨0, true⟩).init { tokens := .empty } := ⟨_, rfl⟩
  obtain ⟨tr, s, hrun, hok⟩ := Machine.exists_run_of_replay hinit
    [(callAt 0 [], .token (.mint 5 1 1000)), (callAt 0 [], .token (.mint 5 2 100)),
      (callAt 0 [9], .init 9 5 [7] 3600 1), (callAt 0 [1], .depositLiquidity 1 1000),
      (callAt 10 [2], .createPolicy 2 (rainTerms 400 40)),
      (callAt 20 [2], .createPolicy 2 (rainTerms 300 30)),
      (callAt 30 [], .checkTrigger (fun _ _ _ _ => some 250) 1)]
    (fun tr s => payouts 1 tr = 1 ∧ activeCoverage s = 300) (by decide) (by decide) (by decide)
  obtain ⟨hpaid, hactive⟩ := of_decide_eq_true hok
  obtain ⟨hres, -, htotal, -, -, honce, -⟩ := pool_solvent hrun
  exact ⟨tr, s, hrun, hpaid, hactive, hres.trans hactive, htotal, honce⟩

end Stellara.Insurance
