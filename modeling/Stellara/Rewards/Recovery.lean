import Stellara.Rewards.Model

/-!
# Recovering from a pause

The circuit breaker pauses the contract when redemptions reach a threshold, and
`set_cb_pause_level` is meant to lift the pause.  The breaker asks the ACL whether the
administrator may do so (`GovernanceManager::require_role`), and nothing in this contract ever
writes the ACL: `initialize` records the role in the older `roles` map instead.

`recovery_never`: in no reachable state can the administrator set the level, and a contract
that has paused itself stays paused for ever.
-/

namespace Stellara.Rewards

open Outcome

/-- The administrator can set every pause level. -/
def Recoverable (s : State) : Prop :=
  ∀ env admin level, s.admin = some admin → admin ∈ env.signers →
    ∃ s', setCbPauseLevel env s admin level = .ok s' ∧ s'.cb.state.pauseLevel = level

/-- The runs that go on from `s`. -/
def continuing (d : Deployment) (s : State) : Machine Env Call Reply (Fault ContractError) State :=
  { machine d with init := fun s₀ => s₀ = s }

/-- Whatever is done from `s` on, the contract is fully paused and redeems nothing. -/
def PausedForEver (d : Deployment) (s : State) : Prop :=
  ∀ tr s', Run (continuing d s) tr s' → s'.cb.state.pauseLevel = .full ∧
    ∀ env user transactionHash x, redeemBadge env s' user transactionHash ≠ .ok x

/-! ## Nobody has a role -/

theorem requireRole_empty {ε : Type} (address : Address) (role : Governance.GovernanceRole) :
    (Governance.requireRole {} address role : Except (Fault ε) Unit) =
      .error (.panic "UNAUTHORIZED") := by
  have hroles : Acl.getUserRoles {} address = [] := by
    unfold Acl.getUserRoles
    rw [show ({} : Acl.State).userRoles.lookup address = none from AList.lookup_empty address]
    rfl
  have hno : (Acl.hasPermission {} address role.permission : Except (Fault ε) Bool) = .ok false := by
    unfold Acl.hasPermission
    rw [hroles]
    rfl
  unfold Governance.requireRole Acl.requirePermission
  rw [hno]
  rfl

section Step

variable {d : Deployment} {env : Env} {call : Call} {r : Reply} {s s' : State}

/-- Nobody has been given a role, and without an administrator there are no badges and no
pause. -/
structure Ungoverned (s : State) : Prop where
  acl : s.acl = {}
  unused : s.admin = none → s.cb.state.pauseLevel = .none ∧ ∀ user, s.badges.lookup user = none

theorem ungoverned_start : Ungoverned {} where
  acl := rfl
  unused _ := ⟨rfl, fun user => AList.lookup_empty user⟩

/-- The circuit breaker takes no orders. -/
theorem breakerCall_refused (h : Ungoverned s) {admin : Address} (hadmin : s.admin = some admin)
    (hsigned : admin ∈ env.signers) (f : CircuitBreaker.State → CircuitBreaker.State) :
    breakerCall env s admin f = .error (.panic "UNAUTHORIZED") := by
  unfold breakerCall requireAdmin Env.requireAuth
  rw [require_pos _ hsigned, ok_bind, hadmin, h.acl, requireRole_empty]
  show (require (admin = admin) _ >>= _) = _
  rw [require_pos _ rfl]
  rfl

theorem breakerCall_never (h : Ungoverned s) {admin : Address}
    {f : CircuitBreaker.State → CircuitBreaker.State} : breakerCall env s admin f ≠ .ok s' := by
  intro hx
  obtain ⟨hrole, -⟩ := breakerCall_ok hx
  rw [h.acl, requireRole_empty] at hrole
  cases hrole

theorem redeemBadge_paused (h : s.cb.state.pauseLevel = .full) {user : Address}
    {transactionHash : String} {x : Nat × State} : redeemBadge env s user transactionHash ≠ .ok x := by
  intro hx
  simp only [redeemBadge, CircuitBreaker.requireNotPaused, bind_eq_ok, require_eq_ok,
    exists_unit_and] at hx
  exact hx.2.1.1 h

/-- A contract that somebody administers is not initialised again. -/
theorem Ungoverned.of_admin (hacl : s.acl = {}) {admin : Address} (hadmin : s.admin = some admin) :
    Ungoverned s :=
  ⟨hacl, fun hnone => by rw [hadmin] at hnone; cases hnone⟩

/-- A call gives nobody a role, and a pause is not lifted. -/
theorem ungoverned_step (h : Ungoverned s) (hx : exec env call s = .ok (r, s')) :
    Ungoverned s' ∧ (s.cb.state.pauseLevel = .full → s'.cb.state.pauseLevel = .full) := by
  cases call with
  | initContract admin cbConfig =>
    obtain ⟨hnone, rfl⟩ := initContract_ok (done_ok.mp hx).1
    refine ⟨.of_admin h.acl rfl, fun hfull => ?_⟩
    rw [(h.unused hnone).1] at hfull
    cases hfull
  | createBadgeType admin badgeType name discountBps maxRedemptions validityDuration =>
    obtain ⟨_, _, rfl⟩ := createBadgeType_ok (done_ok.mp hx).1
    exact ⟨⟨h.acl, h.unused⟩, id⟩
  | mintBadge admin user badgeType =>
    have hcall := (done_ok.mp hx).1
    have hadmin : s.admin = some admin := by
      simp only [mintBadge, bind_eq_ok] at hcall
      obtain ⟨u, hadmin, -⟩ := hcall
      exact requireAdmin_ok hadmin
    obtain ⟨_, _, _, -, -, -, rfl⟩ := mintBadge_ok hcall
    exact ⟨.of_admin h.acl hadmin, id⟩
  | revokeBadge admin user =>
    obtain ⟨badge, hbadge, rfl⟩ := revokeBadge_ok (done_ok.mp hx).1
    refine ⟨⟨h.acl, fun hnone => ?_⟩, id⟩
    rw [(h.unused hnone).2 user] at hbadge
    cases hbadge
  | setCbPauseLevel admin level => exact absurd (done_ok.mp hx).1 (breakerCall_never h)
  | pauseCbFunction admin funcName => exact absurd (done_ok.mp hx).1 (breakerCall_never h)
  | unpauseCbFunction admin funcName => exact absurd (done_ok.mp hx).1 (breakerCall_never h)
  | redeemBadge user transactionHash =>
    obtain ⟨bps, hcall, -⟩ := discount_ok.mp hx
    have hlift : s.cb.state.pauseLevel ≠ .full := fun hfull => redeemBadge_paused hfull hcall
    obtain ⟨badge, record, cb, -, hbadge, -, rfl⟩ := redeemBadge_ok hcall
    refine ⟨⟨h.acl, fun hnone => ?_⟩, fun hfull => absurd hfull hlift⟩
    rw [(h.unused hnone).2 user] at hbadge
    cases hbadge

end Step

/-! ## Every run -/

variable {d : Deployment} {tr : Trace} {s : State}

theorem ungoverned_run (h : Run (machine d) tr s) : Ungoverned s := by
  refine h.invariant ?_ fun env call r s s' _ hI hx => (ungoverned_step hI hx).1
  rintro s rfl
  exact ungoverned_start

/-- A pause outlasts every run that goes on from it. -/
theorem pausedForEver_of_full (h : Ungoverned s) (hfull : s.cb.state.pauseLevel = .full) :
    PausedForEver d s := by
  intro tr s' hrun
  have hlast : Ungoverned s' ∧ s'.cb.state.pauseLevel = .full := by
    refine hrun.invariant (I := fun s => Ungoverned s ∧ s.cb.state.pauseLevel = .full) ?_ ?_
    · rintro s₀ rfl
      exact ⟨h, hfull⟩
    · intro env call r s s' _ hI hx
      obtain ⟨hgov, hkept⟩ := ungoverned_step hI.1 hx
      exact ⟨hgov, hkept hI.2⟩
  exact ⟨hlast.2, fun env user transactionHash x => redeemBadge_paused hlast.2⟩

/-- **No recovery.**  In every reachable state of an initialised contract each of the
administrator's calls to set the pause level is refused; once the contract is fully paused it
stays so. -/
theorem recovery_never (h : Run (machine d) tr s) {admin : Address} (hadmin : s.admin = some admin) :
    (∀ env level, admin ∈ env.signers →
      setCbPauseLevel env s admin level = .error (.panic "UNAUTHORIZED")) ∧
    ¬ Recoverable s ∧ (s.cb.state.pauseLevel = .full → PausedForEver d s) := by
  have hgov := ungoverned_run h
  have hrefused : ∀ env level, admin ∈ env.signers →
      setCbPauseLevel env s admin level = .error (.panic "UNAUTHORIZED") :=
    fun env level hsigned => breakerCall_refused hgov hadmin hsigned _
  refine ⟨hrefused, fun hrec => ?_, pausedForEver_of_full hgov⟩
  obtain ⟨s', hx, -⟩ := hrec ⟨d, 0, 0, [admin]⟩ admin .none hadmin List.mem_cons_self
  rw [hrefused _ _ List.mem_cons_self] at hx
  cases hx

/-- Administrator 9 has set the breaker to trip at the first redemption; user 1 redeems a
badge. -/
def tripped : List (Env × Call) :=
  [(⟨⟨0, true⟩, 0, 0, [9]⟩, .initContract 9 ⟨1000, 1, 3600⟩),
    (⟨⟨0, true⟩, 1, 0, [9]⟩, .createBadgeType 9 1 "Bronze" 500 3 0),
    (⟨⟨0, true⟩, 2, 0, [9]⟩, .mintBadge 9 1 1), (⟨⟨0, true⟩, 3, 0, [1]⟩, .redeemBadge 1 "tx-1")]

/-- One redemption pauses the contract, the administrator cannot lift the pause, and nobody
ever redeems a badge again. -/
theorem paused_for_ever :
    ∃ (tr : Trace) (s : State), Run (machine ⟨0, true⟩) tr s ∧ s.admin = some 9 ∧
      ¬ Recoverable s ∧ PausedForEver ⟨0, true⟩ s := by
  obtain ⟨tr, s, hrun, hok⟩ := Machine.exists_run_of_replay (m := machine ⟨0, true⟩) rfl tripped
    (fun _ s => s.admin = some 9 ∧ s.cb.state.pauseLevel = .full ∧
      failsWith (setCbPauseLevel ⟨⟨0, true⟩, 4, 0, [9]⟩ s 9 .none) (.panic "UNAUTHORIZED"))
    (by decide) (by decide) (by decide)
  obtain ⟨hadmin, hfull, hfails⟩ := of_decide_eq_true hok
  refine ⟨tr, s, hrun, hadmin, fun hrec => ?_, pausedForEver_of_full (ungoverned_run hrun) hfull⟩
  obtain ⟨s', hx, -⟩ := hrec ⟨⟨0, true⟩, 4, 0, [9]⟩ 9 .none hadmin List.mem_cons_self
  rw [eq_of_failsWith hfails] at hx
  cases hx

/-- Just after `initialize` the administrator's call is refused already. -/
theorem recovery_never_initialised :
    ∃ (tr : Trace) (s : State), Run (machine ⟨0, true⟩) tr s ∧ s.admin = some 9 ∧
      setCbPauseLevel ⟨⟨0, true⟩, 4, 0, [9]⟩ s 9 .none = .error (.panic "UNAUTHORIZED") := by
  obtain ⟨tr, s, hrun, hok⟩ := Machine.exists_run_of_replay (m := machine ⟨0, true⟩) rfl
    [(⟨⟨0, true⟩, 0, 0, [9]⟩, .initContract 9 ⟨1000, 1, 3600⟩)]
    (fun _ s => s.admin = some 9) (by decide) (by decide) (by decide)
  have hadmin : s.admin = some 9 := of_decide_eq_true hok
  exact ⟨tr, s, hrun, hadmin, (recovery_never hrun hadmin).1 _ _ List.mem_cons_self⟩

end Stellara.Rewards
