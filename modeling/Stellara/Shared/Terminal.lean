import Stellara.Shared.GovernanceSafety

/-!
# What is final about a terminal proposal

`approve_proposal`, `reject_proposal` and `execute_proposal` each ask for one stored status that
is not terminal.  `cancel_proposal` asks for a proposal that has not been executed, and so takes
a rejected one as well:

    rejected  ⟶  cancelled          by a holder of "propose", nothing else         (terminal_final)

The count of approvals is final, and so are `cancelled` and `executed`.
-/

namespace Stellara.Governance

open Outcome Acl

/-- The proposal is over: rejected, cancelled or executed. -/
def ProposalStatus.Terminal : ProposalStatus → Prop
  | .pending | .approved => False
  | .rejected | .executed | .cancelled => True

instance : DecidablePred ProposalStatus.Terminal := fun st => by
  cases st <;> unfold ProposalStatus.Terminal <;> infer_instance

/-- The one change of a terminal status that there is. -/
def Overwritten (p p' : UpgradeProposal) : Prop :=
  p.status = .rejected ∧ p'.status = .cancelled

/-- `p'` has the approvals of the terminal proposal `p`, and its status unless `p` was
rejected and is cancelled now. -/
def Settled (p p' : UpgradeProposal) : Prop :=
  p'.approvalsCount = p.approvalsCount ∧ (p'.status = p.status ∨ Overwritten p p')

/-- What one call may do to it: with the permission of the proposers, that change too. -/
def Kept (s : State) (call : Call) (pid : Nat) (p p' : UpgradeProposal) : Prop :=
  p'.approvalsCount = p.approvalsCount ∧ (p'.status = p.status ∨
    Overwritten p p' ∧ ∃ admin, call = .cancel pid admin ∧
      (requirePermission s.acl admin permissionPropose : Result Unit) = .ok ())

theorem Settled.refl (p : UpgradeProposal) : Settled p p := ⟨rfl, .inl rfl⟩

theorem Settled.terminal {p p' : UpgradeProposal} (h : Settled p p') (ht : p.status.Terminal) :
    p'.status.Terminal := by
  rcases h.2 with hst | ⟨-, hst⟩
  · rwa [hst]
  · rw [hst]; trivial

theorem Settled.trans {p q r : UpgradeProposal} (h : Settled p q) (h' : Settled q r) :
    Settled p r := by
  refine ⟨h'.1.trans h.1, ?_⟩
  rcases h.2 with hst | ⟨hrej, hcan⟩
  · unfold Overwritten
    rw [← hst]
    exact h'.2
  · rcases h'.2 with hst' | ⟨hrej', -⟩
    · exact .inr ⟨hrej, hst'.trans hcan⟩
    · rw [hcan] at hrej'; cases hrej'

/-- A cancellation asks for the permission of the proposers. -/
theorem cancel_permission {env : Env} {pid : Nat} {admin : Address} {s s' : State} {r : Reply}
    (h : exec env (.cancel pid admin) s = .ok (r, s')) :
    (requirePermission s.acl admin permissionPropose : Result Unit) = .ok () := by
  simp only [exec, cancelProposal, bind_eq_ok] at h
  obtain ⟨_, ⟨_, hperm, -⟩, -⟩ := h
  exact hperm

/-- **One call** keeps a terminal proposal, but for the cancellation of a rejected one. -/
theorem terminal_step {tr : Trace} {env : Env} {call : Call} {r : Reply} {s s' : State} {pid : Nat}
    {p : UpgradeProposal} (hi : Inv tr s) (hx : exec env call s = .ok (r, s'))
    (hp : s.props.lookup pid = some p) (ht : p.status.Terminal) :
    ∃ p', s'.props.lookup pid = some p' ∧ Kept s call pid p p' := by
  have hsame : s'.props.lookup pid = some p →
      ∃ p', s'.props.lookup pid = some p' ∧ Kept s call pid p p' :=
    fun hp' => ⟨p, hp', rfl, .inl rfl⟩
  -- a call that asks for a pending or an approved proposal is about another one
  have hother : ∀ {pid' q}, s.props.lookup pid' = some q → ¬ q.status.Terminal → pid' ≠ pid := by
    rintro pid' q hq hnt rfl
    rw [hp] at hq
    cases hq
    exact hnt ht
  rcases exec_cases hx with ⟨args, t, -, -, -, -, -, hs⟩ | ⟨pid', a, q, -, hq, hst, -, -, hs⟩ |
      ⟨pid', x, q, -, hq, hst, -, hs⟩ | ⟨pid', x, q, st, hcase, hq, hs⟩ | ⟨c, acl, -, hs⟩
  · have hne : pid ≠ s.propCnt + 1 := by
      rintro rfl
      have := hi.fresh _ (AList.lookup_isSome.mp (by rw [hp]; rfl))
      omega
    apply hsame
    rw [hs, AList.lookup_insert_ne hne, hp]
  · have hne := hother hq (by rw [hst]; exact id)
    apply hsame
    rw [hs, AList.lookup_insert_ne hne.symm, hp]
  · have hne := hother hq (by rw [hst]; exact id)
    apply hsame
    rw [hs, AList.lookup_insert_ne hne.symm, hp]
  · rcases hcase with ⟨-, hst, -⟩ | ⟨hcall, hex, rfl⟩
    · have hne := hother hq (by rw [hst]; exact id)
      apply hsame
      rw [hs, AList.lookup_insert_ne hne.symm, hp]
    · by_cases hpid : pid = pid'
      · subst hpid
        rw [hp] at hq
        cases hq
        refine ⟨{ p with status := .cancelled }, ?_, rfl, ?_⟩
        · rw [hs, AList.lookup_insert]
        · -- executed proposals are refused, cancelled ones stay what they are
          match hst : p.status with
          | .pending | .approved => rw [hst] at ht; cases ht
          | .executed =>
            have := (hi.stored _ _ hp).executed.mpr hst
            rw [hex] at this
            cases this
          | .cancelled => exact .inl rfl
          | .rejected =>
            subst hcall
            exact .inr ⟨⟨hst, rfl⟩, x, rfl, cancel_permission hx⟩
      · apply hsame
        rw [hs, AList.lookup_insert_ne hpid, hp]
  · apply hsame
    rw [hs, hp]

/-- What was terminal after some call of the run is settled in the state reached. -/
theorem settled_run {d : Deployment} {tr : Trace} {s : State} (h : Run (machine d) tr s) :
    ∀ e ∈ tr, ∀ pid p, e.after.props.lookup pid = some p → p.status.Terminal →
      ∃ p', s.props.lookup pid = some p' ∧ Settled p p' := by
  induction h with
  | start _ => intro e he; cases he
  | commit h _ _ hx ih =>
    intro e he pid p hp ht
    rcases List.mem_cons.mp he with rfl | he
    · exact ⟨p, hp, .refl p⟩
    · obtain ⟨q, hq, hpq⟩ := ih e he pid p hp ht
      obtain ⟨p', hp', hcount, hst⟩ := terminal_step (inv_run h) hx hq (hpq.terminal ht)
      refine ⟨p', hp', hpq.trans ⟨hcount, ?_⟩⟩
      rcases hst with hst | ⟨hover, -⟩
      · exact .inl hst
      · exact .inr hover

/-- **Terminal proposals.**  In every run, a call made on a proposal that is rejected, cancelled
or executed keeps its status and its count of approvals, except that a holder of "propose" can
cancel a rejected one; and what was terminal after any call still has that status and that count
at the end, but for the same exception. -/
theorem terminal_final {d : Deployment} {tr : Trace} {s : State} (h : Run (machine d) tr s) :
    (∀ e ∈ tr, ∀ pid p, e.before.props.lookup pid = some p → p.status.Terminal →
      ∃ p', e.after.props.lookup pid = some p' ∧ Kept e.before e.call pid p p') ∧
    ∀ e ∈ tr, ∀ pid p, e.after.props.lookup pid = some p → p.status.Terminal →
      ∃ p', s.props.lookup pid = some p' ∧ Settled p p' := by
  refine ⟨fun e he pid p hp ht => ?_, settled_run h⟩
  obtain ⟨tr', hrun, -, hx⟩ := h.of_mem he
  exact terminal_step (inv_run hrun) hx hp ht

/-- The one approver rejects proposal 1, and the admin cancels it. -/
def rejectedThenCancelled : List (Env × Call) :=
  let env (t : Nat) : Env := ⟨⟨0, true⟩, t, 0, []⟩
  [(env 10, .propose ⟨1, "hash", 7, "desc", 1, [2], 0⟩), (env 20, .reject 1 2),
    (env 30, .cancel 1 1)]

/-- The last call finds the proposal `before` and leaves it `after`. -/
def lastMoves (before after : ProposalStatus) : Trace → Bool
  | e :: _ => (e.before.props.lookup 1).map (·.status) = some before &&
      (e.after.props.lookup 1).map (·.status) = some after
  | [] => false

theorem terminal_final_cancelled_after_reject :
    ∃ (tr : Trace) (s : State), Run (machine ⟨0, true⟩) tr s ∧
      ∃ e ∈ tr, ∃ p, e.before.props.lookup 1 = some p ∧ p.status.Terminal ∧
        ∃ p', e.after.props.lookup 1 = some p' ∧ Kept e.before e.call 1 p p' := by
  have hinit : (machine ⟨0, true⟩).init { acl := initGovernanceRoles {} 1 [2] 4 } := ⟨rfl, rfl, rfl⟩
  obtain ⟨tr, s, hrun, hok⟩ := Machine.exists_run_of_replay hinit rejectedThenCancelled
    (fun tr _ => tr.any fun e => (e.before.props.lookup 1).any fun p => p.status.Terminal)
    (by decide) (by decide) (by decide)
  obtain ⟨e, he, hany⟩ := List.any_eq_true.mp hok
  obtain ⟨p, hp, ht⟩ := (Option.any_eq_true _ _).mp hany
  exact ⟨tr, s, hrun, e, he, p, hp, of_decide_eq_true ht,
    (terminal_final hrun).1 e he 1 p hp (of_decide_eq_true ht)⟩

/-- **A terminal status changes**: the rejected proposal is cancelled. -/
theorem terminal_final_overwritten :
    ¬ ∀ (d : Deployment) (tr : Trace) (s : State), Run (machine d) tr s →
      ∀ e ∈ tr, ∀ pid p, e.before.props.lookup pid = some p → p.status.Terminal →
        ∃ p', e.after.props.lookup pid = some p' ∧ p'.status = p.status ∧
          p'.approvalsCount = p.approvalsCount := by
  intro hclaim
  have hinit : (machine ⟨0, true⟩).init { acl := initGovernanceRoles {} 1 [2] 4 } := ⟨rfl, rfl, rfl⟩
  obtain ⟨tr, s, hrun, hok⟩ := Machine.exists_run_of_replay hinit rejectedThenCancelled
    (fun tr _ => lastMoves .rejected .cancelled tr) (by decide) (by decide) (by decide)
  match tr with
  | [] => cases hok
  | e :: tr =>
    obtain ⟨hbefore, hafter⟩ := (Bool.and_eq_true _ _).mp hok
    obtain ⟨p, hp, hst⟩ := Option.map_eq_some_iff.mp (of_decide_eq_true hbefore)
    obtain ⟨p', hp', hst', -⟩ :=
      hclaim _ _ _ hrun e List.mem_cons_self 1 p hp (by rw [hst]; trivial)
    have hcan := of_decide_eq_true hafter
    rw [hp', Option.map_some, hst', hst] at hcan
    cases hcan

end Stellara.Governance
