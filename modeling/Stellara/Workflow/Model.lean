import Stellara.Lib.Async
import Stellara.Lib.Store
import Stellara.Workflow.StateMachine
import Mathlib.Data.List.Sort

/-!
# The workflow services

`WorkflowExecutionService`, `CompensationService` and `RecoveryService` on the tables of
workflows and steps.  An operation reads an entity, changes it and saves it whole; a read or a
save is one request, which the repository answers or rejects.  Between two requests of one
operation any other may run.

A save of a workflow whose steps were loaded with it saves these too (the relation cascades).

Of the rows only what the services read back is here: the dates other than `updatedAt`, the
reasons of failures, the inputs and the outputs are left out.
-/

namespace Stellara.WorkflowEngine

/-- A row of `workflows`, which is stored under its id. -/
structure Workflow where
  type : String
  state : WorkflowState
  currentStepIndex : Nat
  retryCount : Nat
  requiresCompensation : Bool
  isCompensated : Bool
  updatedAt : Int
  deriving DecidableEq

/-- A row of `workflow_steps`, which is stored under its id. -/
structure WorkflowStep where
  workflowId : Nat
  stepName : String
  stepIndex : Nat
  state : StepState
  retryCount : Nat
  maxRetries : Nat
  requiresCompensation : Bool
  isCompensated : Bool
  isIdempotent : Bool
  updatedAt : Int
  deriving DecidableEq

/-- A step as an operation holds it.  `seen` is no field of the source: it is the state the row
had when this entity was read or last saved. -/
structure StepEntity extends WorkflowStep where
  id : Nat
  seen : StepState

/-- A workflow as an operation holds it, with its steps if they were asked for. -/
structure WorkflowEntity extends Workflow where
  id : Nat
  seen : WorkflowState
  steps : Option (List StepEntity)

structure StepDefinition where
  timeout : Option Int

structure WorkflowDefinition where
  steps : List StepDefinition
  timeout : Option Int

/-- The definitions that were registered, by type. -/
abbrev Definitions : Type := String → Option WorkflowDefinition

/-- What an operation throws: an `Error`, or the `WorkflowTimeoutError` of the executor. -/
inductive Error
  | error (message : String)
  | timeout (message : String)
  deriving DecidableEq

/-- How the function of a step ends. -/
inductive StepResult
  | returns
  | throws (message : String)
  | exceedsTimeout
  deriving DecidableEq

/-! ## Requests and their answers -/

inductive Request
  | findWorkflow (id : Nat) (steps : Bool)
  | findRunningWorkflows
  | findSteps (workflowId : Nat)
  | findStuckSteps (cutoffTime : Int)
  | saveWorkflow (workflow : WorkflowEntity)
  | saveStep (step : StepEntity)
  | execute (workflowId stepIndex : Nat) (stepName : String) (timeoutMs : Option Int)
  | delay
  | now

def Answer : Request → Type
  | .findWorkflow _ _ => Except Error (Option WorkflowEntity)
  | .findRunningWorkflows => Except Error (List WorkflowEntity)
  | .findSteps _ => Except Error (List StepEntity)
  | .findStuckSteps _ => Except Error (List (StepEntity × WorkflowEntity))
  | .saveWorkflow _ | .saveStep _ | .execute _ _ _ _ => Except Error Unit
  | .delay => Unit
  | .now => Int

/-- What reached the outside, or the table of steps by a save of the step itself. -/
inductive Effect
  | executed (workflowId stepIndex : Nat) (timeoutMs : Option Int) (result : StepResult)
  | saved (id : Nat) (step : WorkflowStep)
  deriving DecidableEq

/-- The tables, and what happened, newest first. -/
structure World where
  workflows : Store Nat Workflow
  steps : Store Nat WorkflowStep
  log : List Effect

/-- The circumstances of an answer: the time, whether the repository rejects, and how the
function of a step ends. -/
structure Outside where
  now : Int
  rejects : Option String
  result : StepResult

namespace World

def loadStep (id : Nat) (row : WorkflowStep) : StepEntity := { row with id, seen := row.state }

/-- The steps of a workflow, in the order of the table. -/
def stepsOf (w : World) (id : Nat) : List StepEntity :=
  (w.steps.entries.filter fun e => e.2.workflowId = id).map fun e => loadStep e.1 e.2

def load (w : World) (steps : Bool) (id : Nat) (row : Workflow) : WorkflowEntity :=
  { row with id, seen := row.state, steps := if steps then some (w.stepsOf id) else none }

def putStep (now : Int) (w : World) (step : StepEntity) : World :=
  { w with steps := w.steps.insert step.id { step.toWorkflowStep with updatedAt := now } }

/-- A save of a workflow, which cascades to the steps it was loaded with. -/
def putWorkflow (now : Int) (w : World) (workflow : WorkflowEntity) : World :=
  (workflow.steps.getD []).foldl (putStep now)
    { w with
      workflows := w.workflows.insert workflow.id { workflow.toWorkflow with updatedAt := now } }

def findRunning (w : World) : List WorkflowEntity :=
  (w.workflows.entries.filter fun e => e.2.state = .running).map fun e => w.load true e.1 e.2

def findStuck (w : World) (cutoffTime : Int) : List (StepEntity × WorkflowEntity) :=
  (w.steps.entries.filter fun e => e.2.state = .running ∧ e.2.updatedAt < cutoffTime).filterMap
    fun e => (w.workflows.lookup e.2.workflowId).map fun workflow =>
      (loadStep e.1 e.2, w.load false e.2.workflowId workflow)

end World

/-- Steps by their index, ascending. -/
def ascending (steps : List StepEntity) : List StepEntity :=
  steps.insertionSort fun a b => a.stepIndex ≤ b.stepIndex

/-- Steps by their index, descending. -/
def descending (steps : List StepEntity) : List StepEntity :=
  steps.insertionSort fun a b => b.stepIndex ≤ a.stepIndex

/-- A repository answers, or rejects and changes nothing. -/
def repository {α : Type} (c : Outside) (w : World) (x : α) (w' : World) :
    Except Error α × World :=
  match c.rejects with
  | some message => (.error (.error message), w)
  | none => (.ok x, w')

/-- Only a repository rejects. -/
def unrejected {α : Type} (c : Outside) (o : Option α) : Option α :=
  match c.rejects with
  | some _ => none
  | none => o

/-- The answer to a request.  A step without a timeout cannot exceed it. -/
def answer (c : Outside) (w : World) : (a : Request) → Option (Answer a × World)
  | .findWorkflow id steps =>
    some (repository c w ((w.workflows.lookup id).map (w.load steps id)) w)
  | .findRunningWorkflows => some (repository c w w.findRunning w)
  | .findSteps id => some (repository c w (ascending (w.stepsOf id)) w)
  | .findStuckSteps cutoffTime => some (repository c w (w.findStuck cutoffTime) w)
  | .saveWorkflow workflow => some (repository c w () (w.putWorkflow c.now workflow))
  | .saveStep step =>
    let w' := w.putStep c.now step
    some (repository c w () { w' with log := .saved step.id step.toWorkflowStep :: w'.log })
  | .execute id stepIndex stepName timeoutMs =>
    let w' := { w with log := .executed id stepIndex timeoutMs c.result :: w.log }
    unrejected c <|
      match c.result with
      | .returns => some (.ok (), w')
      | .throws message => some (.error (.error message), w')
      | .exceedsTimeout =>
        match timeoutMs with
        | some ms =>
          if 0 < ms then
            some (.error (.timeout s!"Step {stepName} exceeded timeout of {ms}ms"), w')
          else none
        | none => none
  | .delay => unrejected c (some ((), w))
  | .now => unrejected c (some (c.now, w))

/-! ## What the services share -/

/-- An operation on an entity. -/
abbrev On (τ α : Type) : Type := Block Request Answer Error τ α

open Block

def saveStep : On StepEntity Unit := do
  let step ← get
  request (.saveStep step) id
  set { step with seen := step.state }

def saveWorkflow : On WorkflowEntity Unit := do
  let workflow ← get
  request (.saveWorkflow workflow) id
  -- the steps it was loaded with are saved as well
  set { workflow with
    seen := workflow.state
    steps := workflow.steps.map (·.map fun step => { step with seen := step.state }) }

/-- `Date.now()`. -/
def dateNow {τ : Type} : On τ Int := request .now fun now : Int => .ok now

/-- A timer that runs off. -/
def setTimeout {τ : Type} : On τ Unit := request .delay fun _ => .ok ()

/-- The first loaded step with `p`, if there is one, as an object that the workflow refers to. -/
def onStep (p : StepEntity → Bool) (m : On StepEntity Unit) : On WorkflowEntity Unit :=
  zoom (fun workflow => (workflow.steps.getD []).find? p)
    (fun step workflow => { workflow with
      steps := workflow.steps.map (·.map fun s => if s.id = step.id then step else s) }) m

/-- `findOne`, or the error that there is no such workflow. -/
def findWorkflow (id : Nat) (steps : Bool) : On Unit WorkflowEntity := do
  match ← request (.findWorkflow id steps) fun r => r with
  | none => throw (.error s!"Workflow not found: {id}")
  | some workflow => pure workflow

/-! ## CompensationService -/

def compensateStep : On StepEntity Unit := do
  let step ← get
  match transitionStep step.state .compensating with
  | .error e => throw (.error s!"Cannot start step compensation: {e}")
  | .ok () =>
    modify fun step => { step with state := .compensating }
    saveStep
    tryCatch
      (do
        -- the compensation itself is simulated
        setTimeout
        modify fun step => { step with state := .compensated, isCompensated := true }
        saveStep)
      fun error => do
        modify fun step => { step with state := .failed }
        saveStep
        throw error

def compensateEach : List Nat → On WorkflowEntity Unit
  | [] => pure ()
  | id :: rest => do
    onStep (fun step => step.id = id) compensateStep
    compensateEach rest

/-- The steps to compensate, in reverse order. -/
def stepsToCompensate (steps : List StepEntity) : List StepEntity :=
  descending (steps.filter fun step => step.state = .completed ∧ step.requiresCompensation)

/-- The part of `compensateWorkflow` after its checks. -/
def runCompensation : On WorkflowEntity Unit := do
  modify fun workflow => { workflow with state := .compensating, requiresCompensation := true }
  saveWorkflow
  tryCatch
    (do
      let workflow ← get
      compensateEach ((stepsToCompensate (workflow.steps.getD [])).map fun step => step.id)
      modify fun workflow => { workflow with state := .compensated, isCompensated := true }
      saveWorkflow)
    fun error => do
      modify fun workflow => { workflow with state := .failed }
      saveWorkflow
      throw error

def compensateWorkflow (workflowId : Nat) : On Unit Unit := do
  let workflow ← findWorkflow workflowId true
  if ¬ canWorkflowCompensate workflow.state then
    throw (.error
      s!"Workflow {workflowId} cannot be compensated in state: {workflow.state.value}")
  else
    match transitionWorkflow workflow.state .compensating with
    | .error e => throw (.error s!"Cannot start compensation: {e}")
    | .ok () => call runCompensation workflow

/-! ## WorkflowExecutionService -/

/-- `stepDefinition.timeout ?? workflowTimeout`, which fails when there is no definition. -/
def stepTimeout (stepDefinition : Option StepDefinition) (workflowTimeout : Option Int) :
    Except Error (Option Int) :=
  match stepDefinition with
  | none => .error (.error "Cannot read properties of undefined (reading 'timeout')")
  | some definition => .ok (definition.timeout <|> workflowTimeout)

/-- One attempt at a step; `retry` is the attempt after it. -/
def attemptStep (workflowId : Nat) (stepDefinition : Option StepDefinition)
    (workflowTimeout : Option Int) (retry : On StepEntity Unit) : On StepEntity Unit := do
  let step ← get
  match transitionStep step.state .running with
  | .error e => throw (.error s!"Cannot execute step: {e}")
  | .ok () =>
    modify fun step => { step with state := .running }
    saveStep
    tryCatch
      (do
        -- an idempotent step is saved with its key
        if step.isIdempotent then saveStep else pure ()
        match stepTimeout stepDefinition workflowTimeout with
        | .error e => throw e
        | .ok timeoutMs =>
          request (.execute workflowId step.stepIndex step.stepName timeoutMs) id
          modify fun step => { step with state := .completed }
          saveStep)
      fun
      | .timeout message => do
        modify fun step => { step with state := .failed, retryCount := step.retryCount + 1 }
        saveStep
        call (compensateWorkflow workflowId) ()
        throw (.timeout message)
      | .error message => do
        modify fun step => { step with state := .failed, retryCount := step.retryCount + 1 }
        let step ← get
        if shouldRetry .failed step.retryCount step.maxRetries then
          saveStep
          setTimeout
          retry
        else
          saveStep
          throw (.error
            s!"Step {step.stepName} failed after {step.retryCount} retries: {message}")

/-- The attempts of a step, of which at most `attempts` are retried.  A retry is not given the
timeout of the workflow. -/
def executeAttempts (workflowId : Nat) (stepDefinition : Option StepDefinition) :
    Nat → Option Int → On StepEntity Unit
  | 0, workflowTimeout => attemptStep workflowId stepDefinition workflowTimeout (pure ())
  | attempts + 1, workflowTimeout =>
    attemptStep workflowId stepDefinition workflowTimeout
      (executeAttempts workflowId stepDefinition attempts none)

def executeStep (workflowId : Nat) (stepDefinition : Option StepDefinition)
    (workflowTimeout : Option Int) : On StepEntity Unit := do
  let step ← get
  executeAttempts workflowId stepDefinition (step.maxRetries - step.retryCount) workflowTimeout

/-! ## The attempts are enough -/

theorem saveStep_anything {Q : Unit → StepEntity → Unit → Prop} {E : Error → StepEntity → Unit → Prop}
    {x : StepEntity} (hQ : Q () { x with seen := x.state } ()) (hE : ∀ e, E e x ()) :
    wp Async.anything saveStep Q E x () := by
  refine wp_bind.mpr (wp_get.mpr (wp_bind.mpr (wp_request.mpr ⟨trivial, ?_⟩)))
  rintro (e | u) -
  · exact hE e
  · exact hQ

/-- An attempt goes on to the next one only with one more retry counted, and while retries are
left. -/
theorem attemptStep_congr {workflowId : Nat} {stepDefinition : Option StepDefinition}
    {workflowTimeout : Option Int} {retry retry' : On StepEntity Unit} {step : StepEntity}
    (h : ∀ y : StepEntity, y.retryCount = step.retryCount + 1 → y.maxRetries = step.maxRetries →
      y.retryCount < y.maxRetries → retry y = retry' y) :
    attemptStep workflowId stepDefinition workflowTimeout retry step =
      attemptStep workflowId stepDefinition workflowTimeout retry' step := by
  unfold attemptStep
  refine Block.bind_congr (wp_get.mpr ?_)
  cases transitionStep step.state .running with
  | error e => rfl
  | ok u =>
    refine Block.bind_congr (wp_modify.mpr ?_)
    refine Block.bind_congr (saveStep_anything ?_ fun _ => trivial)
    refine Block.tryCatch_congr ?_
    -- whatever is thrown, the counts are as before
    refine Block.wp_mono (fun _ _ _ _ => trivial) ?_ (?_ : wp Async.anything _ (fun _ _ _ => True)
      (fun _ y _ => y.retryCount = step.retryCount ∧ y.maxRetries = step.maxRetries) _ ())
    · rintro (message | message) y - ⟨hcount, hmax⟩
      · refine Block.bind_congr (wp_modify.mpr ?_)
        refine Block.bind_congr (wp_get.mpr ?_)
        dsimp only
        split
        · next hretry =>
          refine Block.bind_congr (saveStep_anything ?_ fun _ => trivial)
          refine Block.bind_congr ⟨trivial, fun _ _ => ?_⟩
          refine h _ ?_ hmax hretry.2
          show y.retryCount + 1 = step.retryCount + 1
          rw [hcount]
        · rfl
      · rfl
    · have hrun : ∀ y : StepEntity, y.retryCount = step.retryCount → y.maxRetries = step.maxRetries →
          wp Async.anything (match stepTimeout stepDefinition workflowTimeout with
            | .error e => throw e
            | .ok timeoutMs => do
              request (.execute workflowId step.stepIndex step.stepName timeoutMs) fun r => r
              modify fun step => { step with state := .completed }
              saveStep : On StepEntity Unit)
            (fun _ _ _ => True)
            (fun _ y _ => y.retryCount = step.retryCount ∧ y.maxRetries = step.maxRetries) y () := by
        intro y hcount hmax
        split
        · exact ⟨hcount, hmax⟩
        · rw [wp_bind]
          refine ⟨trivial, fun r _ => ?_⟩
          cases r with
          | error e => exact ⟨hcount, hmax⟩
          | ok _ =>
            show wp Async.anything _ _ _ y ()
            rw [wp_bind, wp_modify]
            exact saveStep_anything trivial fun _ => ⟨hcount, hmax⟩
      dsimp only
      split
      · rw [wp_bind]
        exact saveStep_anything (hrun _ rfl rfl) fun _ => ⟨rfl, rfl⟩
      · exact hrun _ rfl rfl

/-- **`executeStep` retries by calling itself**, without the timeout of the workflow. -/
theorem executeStep_eq (workflowId : Nat) (stepDefinition : Option StepDefinition)
    (workflowTimeout : Option Int) :
    executeStep workflowId stepDefinition workflowTimeout =
      attemptStep workflowId stepDefinition workflowTimeout
        (executeStep workflowId stepDefinition none) := by
  funext step
  show executeAttempts workflowId stepDefinition (step.maxRetries - step.retryCount)
    workflowTimeout step = _
  cases hleft : step.maxRetries - step.retryCount with
  | zero =>
    refine attemptStep_congr fun y hcount hmax hlt => ?_
    omega
  | succ attempts =>
    refine attemptStep_congr fun y hcount hmax _ => ?_
    have hy : y.maxRetries - y.retryCount = attempts := by omega
    show _ = executeAttempts workflowId stepDefinition (y.maxRetries - y.retryCount) none y
    rw [hy]

/-! ## The workflow -/

def executeEach (definition : WorkflowDefinition) : List StepEntity → On WorkflowEntity Unit
  | [] => pure ()
  | step :: rest => do
    modify fun workflow => { workflow with currentStepIndex := step.stepIndex }
    saveWorkflow
    let workflow ← get
    call (executeStep workflow.id definition.steps[step.stepIndex]? definition.timeout) step
    executeEach definition rest

def executeSteps (definition : WorkflowDefinition) : On WorkflowEntity Unit := do
  let workflow ← get
  let steps ← request (.findSteps workflow.id) id
  executeEach definition steps

def executeWorkflow (definitions : Definitions) : On WorkflowEntity Unit := do
  let workflow ← get
  match definitions workflow.type with
  | none => throw (.error s!"Workflow definition not found for type: {workflow.type}")
  | some definition =>
    match transitionWorkflow workflow.state .running with
    | .error e => throw (.error s!"Cannot start workflow: {e}")
    | .ok () =>
      modify fun workflow => { workflow with state := .running }
      saveWorkflow
      tryCatch
        (do
          executeSteps definition
          modify fun workflow => { workflow with state := .completed }
          saveWorkflow)
        fun
        | .timeout _ => pure ()
        | .error message => do
          modify fun workflow => { workflow with state := .failed }
          saveWorkflow
          throw (.error message)

def retryWorkflow (definitions : Definitions) (workflowId : Nat) : On Unit Unit := do
  let workflow ← findWorkflow workflowId true
  if ¬ isWorkflowRecoverable workflow.state then
    throw (.error s!"Workflow {workflowId} is not in a recoverable state")
  else
    call (do
      modify fun workflow =>
        { workflow with state := .running, retryCount := workflow.retryCount + 1 }
      saveWorkflow
      onStep (fun step => step.state = .failed) do
        modify fun step => { step with state := .pending }
        saveStep
      executeWorkflow definitions) workflow

def cancelWorkflow (workflowId : Nat) : On Unit Unit := do
  let workflow ← findWorkflow workflowId false
  match transitionWorkflow workflow.state .cancelled with
  | .error e => throw (.error s!"Cannot cancel workflow: {e}")
  | .ok () =>
    call (do
      modify fun workflow => { workflow with state := .cancelled }
      saveWorkflow) workflow

/-! ## RecoveryService -/

/-- The completed step with the greatest index. -/
def lastCompletedStep (steps : List StepEntity) : Option StepEntity :=
  (steps.filter fun step => step.state = .completed).foldl
    (fun latest step =>
      match latest with
      | none => some step
      | some last => if last.stepIndex < step.stepIndex then some step else some last) none

def recoverWorkflow (definitions : Definitions) : On WorkflowEntity Unit := do
  let now ← dateNow
  let workflow ← get
  let steps := workflow.steps.getD []
  -- five minutes
  if now - workflow.updatedAt < 5 * 60 * 1000 then pure ()
  else if steps.any fun step => step.state = StepState.failed then
    modify fun workflow => { workflow with state := .failed }
    saveWorkflow
  else
    match lastCompletedStep steps with
    | some step => modify fun workflow => { workflow with currentStepIndex := step.stepIndex + 1 }
    | none => modify fun workflow => { workflow with currentStepIndex := 0 }
    executeWorkflow definitions

/-- What one workflow throws is logged. -/
def recoverEach (definitions : Definitions) : List WorkflowEntity → On Unit Unit
  | [] => pure ()
  | workflow :: rest => do
    tryCatch (call (recoverWorkflow definitions) workflow) fun _ => pure ()
    recoverEach definitions rest

def recoverOrphanedWorkflows (definitions : Definitions) : On Unit Unit := do
  let orphanedWorkflows ← request .findRunningWorkflows id
  recoverEach definitions orphanedWorkflows

def recoverStuckStep (step : StepEntity) (workflow : WorkflowEntity) : On Unit Unit := do
  if workflow.state ≠ .running then pure ()
  else
    let step := { step with state := .failed, retryCount := step.retryCount + 1 }
    if shouldRetry .failed step.retryCount step.maxRetries then pure ()
    else call (do
      modify fun workflow => { workflow with state := .failed }
      saveWorkflow) workflow
    call saveStep step

def recoverStuckEach : List (StepEntity × WorkflowEntity) → On Unit Unit
  | [] => pure ()
  | (step, workflow) :: rest => do
    tryCatch (recoverStuckStep step workflow) fun _ => pure ()
    recoverStuckEach rest

def recoverStuckSteps : On Unit Unit := do
  let now ← dateNow
  -- ten minutes
  let stuckSteps ← request (.findStuckSteps (now - 10 * 60 * 1000)) id
  recoverStuckEach stuckSteps

end Stellara.WorkflowEngine
