import Mathlib.Tactic.Common

/-!
# The states of a workflow and of its steps

`WorkflowStateMachineService` holds two tables of the transitions it allows, and the predicates
the other services ask it.  A transition that is not in the table is answered with an error, but
nothing makes a service ask.
-/

namespace Stellara.WorkflowEngine

inductive WorkflowState
  | pending
  | running
  | completed
  | failed
  | cancelled
  | compensating
  | compensated
  deriving DecidableEq

inductive StepState
  | pending
  | running
  | completed
  | failed
  | skipped
  | compensating
  | compensated
  deriving DecidableEq

def WorkflowState.value : WorkflowState → String
  | .pending => "pending"
  | .running => "running"
  | .completed => "completed"
  | .failed => "failed"
  | .cancelled => "cancelled"
  | .compensating => "compensating"
  | .compensated => "compensated"

def StepState.value : StepState → String
  | .pending => "pending"
  | .running => "running"
  | .completed => "completed"
  | .failed => "failed"
  | .skipped => "skipped"
  | .compensating => "compensating"
  | .compensated => "compensated"

def workflowTransitions : WorkflowState → List WorkflowState
  | .pending => [.running, .cancelled]
  | .running => [.completed, .failed, .cancelled, .compensating]
  | .completed => [.compensating]
  | .failed => [.running, .cancelled, .compensating]
  | .cancelled => [.compensating]
  | .compensating => [.compensated, .failed]
  | .compensated => []

def stepTransitions : StepState → List StepState
  | .pending => [.running, .skipped]
  | .running => [.completed, .failed, .skipped]
  | .completed => [.compensating]
  | .failed => [.running, .skipped, .compensating]
  | .skipped => [.compensating]
  | .compensating => [.compensated, .failed]
  | .compensated => []

def canTransitionWorkflow (current next : WorkflowState) : Prop :=
  next ∈ workflowTransitions current

instance (current next : WorkflowState) : Decidable (canTransitionWorkflow current next) :=
  inferInstanceAs (Decidable (next ∈ workflowTransitions current))

def canTransitionStep (current next : StepState) : Prop := next ∈ stepTransitions current

instance (current next : StepState) : Decidable (canTransitionStep current next) :=
  inferInstanceAs (Decidable (next ∈ stepTransitions current))

def transitionWorkflow (current next : WorkflowState) : Except String Unit :=
  if canTransitionWorkflow current next then .ok ()
  else .error s!"Invalid workflow state transition from {current.value} to {next.value}"

def transitionStep (current next : StepState) : Except String Unit :=
  if canTransitionStep current next then .ok ()
  else .error s!"Invalid step state transition from {current.value} to {next.value}"

def isWorkflowRecoverable (state : WorkflowState) : Prop := state = .failed

instance : DecidablePred isWorkflowRecoverable := fun state =>
  inferInstanceAs (Decidable (state = .failed))

def canWorkflowCompensate (state : WorkflowState) : Prop :=
  state ∈ [.completed, .failed, WorkflowState.cancelled]

instance : DecidablePred canWorkflowCompensate := fun state =>
  inferInstanceAs (Decidable (state ∈ [.completed, .failed, WorkflowState.cancelled]))

def shouldRetry (state : StepState) (retryCount maxRetries : Nat) : Prop :=
  state = .failed ∧ retryCount < maxRetries

instance (state : StepState) (retryCount maxRetries : Nat) :
    Decidable (shouldRetry state retryCount maxRetries) :=
  inferInstanceAs (Decidable (state = .failed ∧ retryCount < maxRetries))

end Stellara.WorkflowEngine
