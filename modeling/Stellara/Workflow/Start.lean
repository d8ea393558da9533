import Stellara.Lib.Protocol
import Stellara.Workflow.Model

/-!
# Starting a workflow

`WorkflowExecutionService.startWorkflow`, with the lock in Redis that is meant to keep duplicates
out.  The call that has the lock creates the workflow with its steps and executes it; a call that
does not get it waits for the row to appear.

    no row   →   SET NX   →   row, steps, execution   →   DEL
    no row   →   (refused)   →   row?  100 ms  row?  100 ms  …   for 5 s

The repository rejects a second row with the same `idempotencyKey`.  A lock does not expire here,
and a timer does not run off early.  The `idempotencyKey` that `generateWorkflowIdempotencyKey`
gives for the arguments of a call comes with the call.
-/

namespace Stellara.WorkflowEngine

open Async (attempt)
open Block

/-! ## What is registered -/

/-- A step of a registered definition; `compensates` says that it has a `compensate`. -/
structure RegisteredStep extends StepDefinition where
  name : String
  compensates : Bool
  isIdempotent : Bool
  maxRetries : Option Nat

structure RegisteredWorkflow where
  steps : List RegisteredStep
  timeout : Option Int
  requiresCompensation : Option Bool

def RegisteredWorkflow.definition (registered : RegisteredWorkflow) : WorkflowDefinition :=
  { steps := registered.steps.map fun step => step.toStepDefinition, timeout := registered.timeout }

/-- `workflowDefinitions`. -/
abbrev Registry : Type := String → Option RegisteredWorkflow

def Registry.definitions (registry : Registry) : Definitions := fun type =>
  (registry type).map RegisteredWorkflow.definition

/-- A new row of `workflows`. -/
def RegisteredWorkflow.create (registered : RegisteredWorkflow) (type : String) : Workflow :=
  { type, state := .pending, currentStepIndex := 0, retryCount := 0
    requiresCompensation := registered.requiresCompensation.getD false, isCompensated := false
    updatedAt := 0 }

/-- A new row of `workflow_steps`.  Zero `maxRetries` are taken for none given. -/
def RegisteredStep.create (workflowId stepIndex : Nat) (step : RegisteredStep) : WorkflowStep :=
  { workflowId, stepName := step.name, stepIndex, state := .pending, retryCount := 0
    maxRetries := if step.maxRetries.getD 0 = 0 then 3 else step.maxRetries.getD 0
    requiresCompensation := step.compensates, isCompensated := false
    isIdempotent := step.isIdempotent, updatedAt := 0 }

/-! ## World -/

/-- The tables, with the column `idempotencyKey` of each workflow and the ids that are given
next, and the locks in Redis. -/
structure StartWorld where
  tables : World
  keys : Store Nat String
  workflowIds : Nat
  stepIds : Nat
  locks : Store String Nat
  tokens : Nat

/-- `delay` carries the time at which it was last known to be, and is answered with the time it
is then. -/
inductive StartRequest
  | findByKey (idempotencyKey : String)
  | randomUUID
  | setNX (lockKey : String) (token : Nat)
  | get (lockKey : String)
  | del (lockKey : String)
  | insertWorkflow (idempotencyKey : String) (row : Workflow)
  | insertSteps (rows : List WorkflowStep)
  | dateNow
  | delay (since ms : Int)
  | tables (a : Request)

abbrev StartAnswer : StartRequest → Type
  | .findByKey _ => Except Error (Option WorkflowEntity)
  | .randomUUID => Nat
  | .setNX _ _ => Except Error Bool
  | .get _ => Except Error (Option Nat)
  | .del _ | .insertSteps _ => Except Error Unit
  | .insertWorkflow _ _ => Except Error WorkflowEntity
  | .dateNow | .delay _ _ => Int
  | .tables a => Answer a

namespace StartWorld

/-- The workflow with the key, if there is one. -/
def withKey (w : StartWorld) (idempotencyKey : String) : Option Nat :=
  (w.keys.entries.find? fun e => e.2 = idempotencyKey).map Sigma.fst

def loadByKey (w : StartWorld) (idempotencyKey : String) : Option WorkflowEntity := do
  let id ← w.withKey idempotencyKey
  let row ← w.tables.workflows.lookup id
  pure (w.tables.load true id row)

/-- The row, with the id that was given to it. -/
def insertWorkflow (now : Int) (w : StartWorld) (idempotencyKey : String) (row : Workflow) :
    StartWorld :=
  { w with
    tables := { w.tables with
      workflows := w.tables.workflows.insert w.workflowIds { row with updatedAt := now } }
    keys := w.keys.insert w.workflowIds idempotencyKey
    workflowIds := w.workflowIds + 1 }

def insertStep (now : Int) (w : StartWorld) (row : WorkflowStep) : StartWorld :=
  { w with
    tables := { w.tables with
      steps := w.tables.steps.insert w.stepIds { row with updatedAt := now } }
    stepIds := w.stepIds + 1 }

end StartWorld

/-- What is rejected. -/
def Outside.rejection (c : Outside) : Option Error := c.rejects.map Error.error

def answerStart (c : Outside) (w : StartWorld) : (a : StartRequest) → Option (StartAnswer a × StartWorld)
  | .findByKey idempotencyKey => some (attempt c.rejection (w.loadByKey idempotencyKey) w w)
  | .randomUUID => some (w.tokens, { w with tokens := w.tokens + 1 })
  | .setNX lockKey token =>
    match w.locks.lookup lockKey with
    | some _ => some (attempt c.rejection false w w)
    | none => some (attempt c.rejection true w { w with locks := w.locks.insert lockKey token })
  | .get lockKey => some (attempt c.rejection (w.locks.lookup lockKey) w w)
  | .del lockKey => some (attempt c.rejection () w { w with locks := w.locks.erase lockKey })
  | .insertWorkflow idempotencyKey row =>
    match w.withKey idempotencyKey with
    | some _ => some (.error (.error "duplicate key value violates unique constraint"), w)
    | none =>
      let w' := w.insertWorkflow c.now idempotencyKey row
      some (attempt c.rejection
        (World.load w'.tables false w.workflowIds { row with updatedAt := c.now }) w w')
  | .insertSteps rows => some (attempt c.rejection () w (rows.foldl (StartWorld.insertStep c.now) w))
  | .dateNow => some (c.now, w)
  | .delay since ms => if since + ms ≤ c.now then some (c.now, w) else none
  | .tables a => (answer c w.tables a).map fun (r, tables) => (r, { w with tables })

/-! ## The call -/

abbrev Starting (α : Type) : Type := Block StartRequest StartAnswer Error Unit α

/-- What the service asks of the tables. -/
abbrev onTables {τ α : Type} (m : On τ α) : Block StartRequest StartAnswer Error τ α :=
  m.embed StartRequest.tables fun _ r => r

def getWorkflowLockKey (idempotencyKey : String) : String := "workflow:lock:" ++ idempotencyKey

def acquireWorkflowLock (lockKey : String) (token : Nat) : Starting Bool :=
  request (.setNX lockKey token) fun r => r

def releaseWorkflowLock (lockKey : String) (token : Nat) : Starting Unit :=
  tryCatch (do
    let currentToken ← request (.get lockKey) fun r => r
    if currentToken = some token then request (.del lockKey) fun r => r else pure ())
    fun _ => pure ()

/-- The loop of `waitForWorkflow`, when it is `now`.  Every round takes `intervalMs` at least. -/
def waitLoop (idempotencyKey : String) (startedAt timeoutMs intervalMs : Int) :
    Nat → Int → Starting (Option WorkflowEntity)
  | 0, _ => pure none
  | rounds + 1, now => do
    if now - startedAt < timeoutMs then
      match ← request (.findByKey idempotencyKey) fun r => r with
      | some workflow => pure (some workflow)
      | none =>
        let now ← request (.delay now intervalMs) .ok
        waitLoop idempotencyKey startedAt timeoutMs intervalMs rounds now
    else pure none

/-- The rounds are enough: see `waitLoop_obeys`. -/
def waitForWorkflow (idempotencyKey : String) (timeoutMs intervalMs : Int) :
    Starting (Option WorkflowEntity) := do
  let startedAt ← request .dateNow .ok
  waitLoop idempotencyKey startedAt timeoutMs intervalMs ((timeoutMs / intervalMs).toNat + 1)
    startedAt

/-- The part of `startWorkflow` that runs under the lock. -/
def createAndExecute (registry : Registry) (registered : RegisteredWorkflow)
    (type idempotencyKey : String) : Starting WorkflowEntity := do
  let workflow ← request (.insertWorkflow idempotencyKey (registered.create type)) fun r => r
  request (.insertSteps
    (registered.steps.mapIdx fun index step => step.create workflow.id index)) fun r => r
  let savedWorkflow ← call (do
    onTables (executeWorkflow registry.definitions)
    get) workflow
  let found ← request (.tables (.findWorkflow savedWorkflow.id true)) fun r => r
  pure (found.getD savedWorkflow)

/-- A call of `startWorkflow`, with the key that it computes. -/
structure StartCall where
  type : String
  idempotencyKey : String
  deriving DecidableEq

def startWorkflow (registry : Registry) (op : StartCall) : Starting WorkflowEntity :=
  match registry op.type with
  | none => throw (.error s!"Workflow definition not found for type: {op.type}")
  | some registered => do
    match ← request (.findByKey op.idempotencyKey) fun r => r with
    | some existingWorkflow => pure existingWorkflow
    | none =>
      let lockKey := getWorkflowLockKey op.idempotencyKey
      let lockToken ← request .randomUUID .ok
      if ← acquireWorkflowLock lockKey lockToken then
        tryFinally (createAndExecute registry registered op.type op.idempotencyKey)
          (releaseWorkflowLock lockKey lockToken)
      else
        match ← waitForWorkflow op.idempotencyKey 5000 100 with
        | some lockedWorkflow => pure lockedWorkflow
        | none =>
          throw (.error
            s!"Workflow already being processed for idempotency key: {op.idempotencyKey}")

/-! ## The calls together -/

/-- No two rows have the same key, and all ids were given. -/
structure StartWorld.Wf (w : StartWorld) : Prop where
  unique : ∀ id id' key, w.keys.lookup id = some key → w.keys.lookup id' = some key → id = id'
  given : ∀ id key, w.keys.lookup id = some key → id < w.workflowIds
  rows : ∀ id key, w.keys.lookup id = some key → ∃ row, w.tables.workflows.lookup id = some row
  steps : ∀ k row, w.tables.steps.lookup k = some row → k < w.stepIds ∧ row.workflowId < w.workflowIds
  tokens : ∀ key token, w.locks.lookup key = some token → token < w.tokens

abbrev StartSystem : Type :=
  Async.System StartRequest StartAnswer (StartCall × Except Error WorkflowEntity) StartWorld

abbrev StartEvent : Type := Event Outside (Async.Move StartCall) Unit StartSystem

/-- All interleavings of calls of registered types. -/
def starting (registry : Registry) :
    Machine Outside (Async.Move StartCall) Unit Unit StartSystem :=
  Async.interleave (Async.labelled fun op => (startWorkflow registry op).program)
    (fun op => (registry op.type).isSome = true) answerStart StartWorld.Wf

end Stellara.WorkflowEngine
