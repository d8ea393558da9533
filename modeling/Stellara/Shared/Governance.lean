import Stellara.Shared.Acl

/-!
# Upgrade governance (`shared/src/governance.rs`)

A proposal names its approvers and how many of them must approve.  Listed approvers
approve it one by one until the threshold makes it `approved`; after the timelock anyone
may execute it.  Until it is executed it can be rejected (while pending) or cancelled.

`exec` is the manager as a machine of its own: any caller, any order, with the roles
being changed by the embedding contract in between.
-/

namespace Stellara.Governance

open Outcome Acl

inductive ProposalStatus
  | pending
  | approved
  | rejected
  | executed
  | cancelled
deriving DecidableEq, Repr

structure UpgradeProposal where
  id : Nat
  proposer : Address
  newContractHash : Symbol
  targetContract : Address
  description : Symbol
  approvalThreshold : Nat
  approvers : List Address
  approvalsCount : Nat
  status : ProposalStatus
  createdAt : Nat
  executionTime : Nat
  executed : Bool
deriving DecidableEq, Repr

inductive GovernanceError
  | unauthorized
  | invalidProposal
  | insufficientApprovals
  | timelockNotExpired
  | proposalNotApproved
  | invalidThreshold
  | duplicateApproval
  | proposalNotFound
deriving DecidableEq, Repr

/-- `prop_cnt`, `props` and `apprv`, next to the roles.  A missing `props` map and a
missing entry of it are the same error, so the map starts empty. -/
structure State where
  acl : Acl.State := {}
  propCnt : Nat := 0
  props : Store Nat UpgradeProposal := ∅
  apprv : Store (Nat × Address) Bool := ∅

abbrev Result (α : Type) : Type := Except (Fault GovernanceError) α

def initGovernanceRoles (acl : Acl.State) (admin : Address) (approvers : List Address)
    (executor : Address) : Acl.State :=
  let acl := createRole (createRole (createRole acl roleAdmin) roleApprover) roleExecutor
  let acl := assignRole acl admin roleAdmin
  let acl := approvers.foldl (fun acl approver => assignRole acl approver roleApprover) acl
  let acl := assignRole acl executor roleExecutor
  let acl := assignPermission acl roleAdmin permissionPropose
  let acl := assignPermission acl roleAdmin permissionMgrAcl
  let acl := assignPermission acl roleAdmin permissionPause
  let acl := assignPermission acl roleAdmin permissionUnpause
  let acl := assignPermission acl roleApprover permissionApprove
  assignPermission acl roleExecutor permissionExecute

/-- The roles of the older interface. -/
inductive GovernanceRole
  | admin
  | approver
  | executor
deriving DecidableEq, Repr

def GovernanceRole.permission : GovernanceRole → Symbol
  | .admin => permissionPropose
  | .approver => permissionApprove
  | .executor => permissionExecute

/-- A role is looked up as a permission of the ACL. -/
def requireRole {ε : Type} (acl : Acl.State) (address : Address) (role : GovernanceRole) :
    Except (Fault ε) Unit :=
  requirePermission acl address role.permission

def proposeUpgrade (env : Env) (s : State) (proposer : Address)
    (newContractHash : Symbol) (targetContract : Address) (description : Symbol)
    (approvalThreshold : Nat) (approvers : List Address) (timelockDelay : Nat) :
    Result (Nat × State) := do
  requirePermission s.acl proposer permissionPropose
  require (approvalThreshold ≠ 0 ∧ approvalThreshold ≤ approvers.length) (.err .invalidThreshold)
  let nextId := s.propCnt + 1
  let executionTime ← env.u64 (env.timestamp + timelockDelay)
  let proposal : UpgradeProposal :=
    { id := nextId, proposer, newContractHash, targetContract, description, approvalThreshold,
      approvers, approvalsCount := 0, status := .pending, createdAt := env.timestamp,
      executionTime, executed := false }
  pure (nextId, { s with props := s.props.insert nextId proposal, propCnt := nextId })

def getProposal (s : State) (proposalId : Nat) : Result UpgradeProposal :=
  ofOption (s.props.lookup proposalId) (.err .proposalNotFound)

/-- The proposal after one more approval. -/
def UpgradeProposal.addApproval (p : UpgradeProposal) : UpgradeProposal :=
  { p with approvalsCount := p.approvalsCount + 1
           status := if p.approvalThreshold ≤ p.approvalsCount + 1 then .approved else p.status }

def approveProposal (s : State) (proposalId : Nat) (approver : Address) : Result State := do
  requirePermission s.acl approver permissionApprove
  let proposal ← getProposal s proposalId
  require (proposal.status = .pending) (.err .invalidProposal)
  require (approver ∈ proposal.approvers) (.err .unauthorized)
  require (s.apprv.lookup (proposalId, approver) = none) (.err .duplicateApproval)
  pure { s with apprv := s.apprv.insert (proposalId, approver) true
                props := s.props.insert proposalId proposal.addApproval }

/-- Any address may execute; the executor's role is not checked. -/
def executeProposal (env : Env) (s : State) (proposalId : Nat) (_executor : Address) :
    Result State := do
  let proposal ← getProposal s proposalId
  require (proposal.status = .approved) (.err .proposalNotApproved)
  require (proposal.executionTime ≤ env.timestamp) (.err .timelockNotExpired)
  pure { s with props := s.props.insert proposalId
                  { proposal with executed := true, status := .executed } }

def rejectProposal (s : State) (proposalId : Nat) (rejector : Address) : Result State := do
  requirePermission s.acl rejector permissionApprove
  let proposal ← getProposal s proposalId
  require (proposal.status = .pending) (.err .invalidProposal)
  pure { s with props := s.props.insert proposalId { proposal with status := .rejected } }

/-- Only an executed proposal cannot be cancelled. -/
def cancelProposal (s : State) (proposalId : Nat) (admin : Address) : Result State := do
  requirePermission s.acl admin permissionPropose
  let proposal ← getProposal s proposalId
  require (proposal.executed = false) (.err .invalidProposal)
  pure { s with props := s.props.insert proposalId { proposal with status := .cancelled } }

/-! ## The manager as a machine -/

/-- The arguments of `propose_upgrade`. -/
structure Proposal where
  proposer : Address
  newContractHash : Symbol
  targetContract : Address
  description : Symbol
  approvalThreshold : Nat
  approvers : List Address
  timelockDelay : Nat
deriving DecidableEq, Repr

inductive Call
  | propose (p : Proposal)
  | approve (proposalId : Nat) (approver : Address)
  | execute (proposalId : Nat) (executor : Address)
  | reject (proposalId : Nat) (rejector : Address)
  | cancel (proposalId : Nat) (admin : Address)
  /-- the embedding contract changes roles -/
  | roles (c : Acl.Call)
deriving DecidableEq, Repr

/-- What a call returns: the new proposal's id, or nothing. -/
inductive Reply
  | proposal (id : Nat)
  | done
deriving DecidableEq, Repr

def exec (env : Env) : Call → State → Result (Reply × State)
  | .propose p, s => do
    let (id, s) ← proposeUpgrade env s p.proposer p.newContractHash p.targetContract p.description
      p.approvalThreshold p.approvers p.timelockDelay
    pure (.proposal id, s)
  | .approve proposalId approver, s => do
    pure (.done, ← approveProposal s proposalId approver)
  | .execute proposalId executor, s => do
    pure (.done, ← executeProposal env s proposalId executor)
  | .reject proposalId rejector, s => do
    pure (.done, ← rejectProposal s proposalId rejector)
  | .cancel proposalId admin, s => do
    pure (.done, ← cancelProposal s proposalId admin)
  | .roles c, s => do
    pure (.done, { s with acl := ← c.exec s.acl })

/-- Runs start with no proposals and any roles; every call may come from anyone. -/
def machine (d : Deployment) : Machine Env Call Reply (Fault GovernanceError) State where
  init s := s.propCnt = 0 ∧ s.props = ∅ ∧ s.apprv = ∅
  valid env _ := env.Of d
  clock env := env.timestamp
  exec env call s := exec env call s

instance (d : Deployment) (env : Env) (call : Call) : Decidable ((machine d).valid env call) :=
  inferInstanceAs (Decidable (env.Of d))

/-! ## What one call can do -/

/-- An execution looks at the stored status and time, and at nothing else. -/
theorem execute_ok {env : Env} {pid : Nat} {executor : Address} {s s' : State} {r : Reply}
    (h : exec env (.execute pid executor) s = .ok (r, s')) :
    ∃ p, s.props.lookup pid = some p ∧ p.status = .approved ∧ p.executionTime ≤ env.timestamp ∧
      s' = { s with props := s.props.insert pid { p with executed := true, status := .executed } } := by
  simp only [exec, executeProposal, getProposal, bind_eq_ok, require_eq_ok, exists_unit_and,
    ofOption_eq_ok, pure_eq_ok, Prod.mk.injEq] at h
  obtain ⟨s1, ⟨p, hp, hst, ht, rfl⟩, -, rfl⟩ := h
  exact ⟨p, hp, hst, ht, rfl⟩

/-- Every committed call in five cases: it creates the next proposal, records one
approval, moves one stored proposal to an end state, or leaves the proposals alone. -/
theorem exec_cases {env : Env} {call : Call} {s s' : State} {r : Reply}
    (h : exec env call s = .ok (r, s')) :
    (∃ p t, call = .propose p ∧ r = .proposal (s.propCnt + 1) ∧
      p.approvalThreshold ≠ 0 ∧ p.approvalThreshold ≤ p.approvers.length ∧
      (env.u64 (env.timestamp + p.timelockDelay) : Result Nat) = .ok t ∧
      s' = { s with
        props := s.props.insert (s.propCnt + 1)
          ⟨s.propCnt + 1, p.proposer, p.newContractHash, p.targetContract, p.description,
            p.approvalThreshold, p.approvers, 0, .pending, env.timestamp, t, false⟩
        propCnt := s.propCnt + 1 }) ∨
    (∃ pid a p, call = .approve pid a ∧ s.props.lookup pid = some p ∧ p.status = .pending ∧
      a ∈ p.approvers ∧ s.apprv.lookup (pid, a) = none ∧
      s' = { s with apprv := s.apprv.insert (pid, a) true
                    props := s.props.insert pid p.addApproval }) ∨
    (∃ pid x p, call = .execute pid x ∧ s.props.lookup pid = some p ∧ p.status = .approved ∧
      p.executionTime ≤ env.timestamp ∧
      s' = { s with props := s.props.insert pid { p with executed := true, status := .executed } }) ∨
    (∃ pid x p st, (call = .reject pid x ∧ p.status = .pending ∧ st = .rejected ∨
        call = .cancel pid x ∧ p.executed = false ∧ st = .cancelled) ∧
      s.props.lookup pid = some p ∧
      s' = { s with props := s.props.insert pid { p with status := st } }) ∨
    (∃ c acl, call = .roles c ∧ s' = { s with acl := acl }) := by
  cases call with
  | propose p =>
    simp only [exec, proposeUpgrade, bind_eq_ok, require_eq_ok, exists_unit_and, pure_eq_ok] at h
    obtain ⟨⟨id, s1⟩, ⟨-, ⟨h0, hn⟩, t, ht, hp⟩, hr⟩ := h
    obtain ⟨rfl, rfl⟩ := Prod.mk.inj hp
    obtain ⟨rfl, rfl⟩ := Prod.mk.inj hr
    exact .inl ⟨p, t, rfl, rfl, h0, hn, ht, rfl⟩
  | approve pid a =>
    simp only [exec, approveProposal, getProposal, bind_eq_ok, require_eq_ok, exists_unit_and,
      ofOption_eq_ok, pure_eq_ok, Prod.mk.injEq] at h
    obtain ⟨s1, ⟨-, p, hp, hst, ha, hd, rfl⟩, -, rfl⟩ := h
    exact .inr (.inl ⟨pid, a, p, rfl, hp, hst, ha, hd, rfl⟩)
  | execute pid x =>
    obtain ⟨p, hp, hst, ht, hs⟩ := execute_ok h
    exact .inr (.inr (.inl ⟨pid, x, p, rfl, hp, hst, ht, hs⟩))
  | reject pid x =>
    simp only [exec, rejectProposal, getProposal, bind_eq_ok, require_eq_ok, exists_unit_and,
      ofOption_eq_ok, pure_eq_ok, Prod.mk.injEq] at h
    obtain ⟨s1, ⟨-, p, hp, hst, rfl⟩, -, rfl⟩ := h
    exact .inr (.inr (.inr (.inl ⟨pid, x, p, .rejected, .inl ⟨rfl, hst, rfl⟩, hp, rfl⟩)))
  | cancel pid x =>
    simp only [exec, cancelProposal, getProposal, bind_eq_ok, require_eq_ok, exists_unit_and,
      ofOption_eq_ok, pure_eq_ok, Prod.mk.injEq] at h
    obtain ⟨s1, ⟨-, p, hp, hst, rfl⟩, -, rfl⟩ := h
    exact .inr (.inr (.inr (.inl ⟨pid, x, p, .cancelled, .inr ⟨rfl, hst, rfl⟩, hp, rfl⟩)))
  | roles c =>
    simp only [exec, bind_eq_ok, pure_eq_ok, Prod.mk.injEq] at h
    obtain ⟨acl, -, -, rfl⟩ := h
    exact .inr (.inr (.inr (.inr ⟨c, acl, rfl, rfl⟩)))

end Stellara.Governance
