import Stellara.Lib.Protocol
import Stellara.Workflow.Keys

/-!
# What a step is given

The part of `WorkflowExecutionService.executeStep` that prepares the input of a step and runs its
function.  `prepareStepInput` is an asynchronous function, which is called without `await`:

    const stepInput = this.prepareStepInput(workflow, step, stepDefinition);

so that the function of the step is given a promise, and the key of an idempotent step is made of
the text of a promise, which is `{}` (`input_never_merged`).  The promise itself settles as what is
meant (`prepareStepInput_settles`).
-/

namespace Stellara.StepInput

open Block
open IdempotencyService (Platform Record stableStringify Indistinct stableStringify_eq_iff)

variable {Number : Type}

/-- What is read of a workflow. -/
structure Workflow (Number : Type) where
  id : Nat
  idempotencyKey : String
  input : Record Number

/-- What is read of a step, and its key. -/
structure WorkflowStep (Number : Type) where
  stepName : String
  stepIndex : Nat
  isIdempotent : Bool
  idempotencyKey : Option String
  output : Option (Json Number)

/-! ## Preparing an input -/

/-- `stepRepository.find` for the steps of a workflow before an index, in their order. -/
inductive Find
  | previousSteps (workflowId stepIndex : Nat)

abbrev Found (Number : Type) (_ : Find) : Type := Except String (List (WorkflowStep Number))

variable (isZero : Number → Bool)

/-- A value counts as an output unless it is falsy. -/
def truthy : Json Number → Bool
  | .null => false
  | .bool b => b
  | .number n => !isZero n
  | .string s => s ≠ ""
  | .array _ | .object _ => true

/-- `stepInput[prevStep.stepName] = prevStep.output`, for all steps in their order. -/
def addOutputs (stepInput : Record Number) (previousSteps : List (WorkflowStep Number)) :
    Record Number :=
  previousSteps.foldl
    (fun stepInput prevStep =>
      setSome stepInput prevStep.stepName (prevStep.output.filter (truthy isZero)))
    stepInput

def prepareStepInput (workflow : Workflow Number) (step : WorkflowStep Number) :
    Block Find (Found Number) String Unit (Record Number) :=
  if 0 < step.stepIndex then do
    let previousSteps ← request (.previousSteps workflow.id step.stepIndex) id
    pure (addOutputs isZero workflow.input previousSteps)
  else pure workflow.input

/-! ## Running a step -/

/-- An object of its own properties, or a promise of one. -/
inductive Value (Number : Type)
  | object (members : Record Number)
  | promise (result : Async Find (Found Number) (Except String (Record Number)))

/-- The properties that `Object.keys` and `JSON.stringify` see. -/
def Value.properties : Value Number → Record Number
  | .object members => members
  | .promise _ => []

/-- The repository saves a step; the function of a step is run. -/
inductive Request (Number : Type)
  | saveStep (step : WorkflowStep Number)
  | execute (input : Value Number) (idempotencyKey : Option String)

def Answer : Request Number → Type
  | .saveStep _ => Except String Unit
  | .execute _ _ => Except String (Option (Json Number))

abbrev On (Number α : Type) : Type := Block (Request Number) Answer String Unit α

variable (P : Platform Number)

def generateStepIdempotencyKey (workflowIdempotencyKey stepName : String)
    (stepInput : Value Number) : String :=
  let keyData : Record Number :=
    [("workflowIdempotencyKey", .string workflowIdempotencyKey), ("stepName", .string stepName),
      ("stepInput", .string (stableStringify P stepInput.properties))]
  let hash := P.sha256 (stableStringify P keyData)
  "step:" ++ stepName ++ ":" ++ hash

/-- A call of an asynchronous function, which is not awaited. -/
def stepInput (workflow : Workflow Number) (step : WorkflowStep Number) : Value Number :=
  .promise (prepareStepInput isZero workflow step).program

/-- The `try` block of `executeStep`, with what `executeWithIdempotency` makes of it. -/
def runStep (workflow : Workflow Number) (step : WorkflowStep Number) :
    On Number (Option (Json Number)) :=
  let stepInput := stepInput isZero workflow step
  if step.isIdempotent then do
    let stepIdempotencyKey :=
      generateStepIdempotencyKey P workflow.idempotencyKey step.stepName stepInput
    request (.saveStep { step with idempotencyKey := some stepIdempotencyKey }) id
    request (.execute stepInput (some stepIdempotencyKey)) id
  else request (.execute stepInput none) id

/-! ## The promise -/

section Promise

variable {isZero} {workflow : Workflow Number} {step : WorkflowStep Number}
  {rows : List (WorkflowStep Number)}

/-- The output under a name: that of the last step with this name and an output. -/
def lastOutput (isZero : Number → Bool) (name : String) (rows : List (WorkflowStep Number)) :
    Option (Json Number) :=
  rows.reverse.findSome? fun row =>
    if row.stepName = name then row.output.filter (truthy isZero) else none

/-- **Later steps** override earlier ones and the input. -/
theorem lookup_addOutputs {input : Record Number} {name : String} (hname : name ≠ "__proto__") :
    (addOutputs isZero input rows).lookup name =
      (lastOutput isZero name rows).or (input.lookup name) := by
  unfold addOutputs lastOutput
  induction rows using List.reverseRecOn with
  | nil => rfl
  | append_singleton rows row ih =>
    rw [List.foldl_append, List.foldl_cons, List.foldl_nil, lookup_setSome, ih,
      List.reverse_append, List.reverse_singleton, List.singleton_append, List.findSome?_cons]
    by_cases hrow : row.stepName = name
    · rw [if_pos ⟨hrow.symm, hrow ▸ hname⟩, if_pos hrow]
      cases row.output.filter (truthy isZero) <;> rfl
    · rw [if_neg fun h => hrow h.1.symm, if_neg hrow]

/-- The repository answers with the rows of the steps before. -/
def answer (rows : List (WorkflowStep Number)) :
    Unit → Unit → (a : Find) → Option (Found Number a × Unit) :=
  fun _ _ _ => some (.ok rows, ())

/-- **What is promised** is the input with the outputs of the steps before. -/
theorem prepareStepInput_settles :
    Async.wp (Async.answering (answer rows)) (prepareStepInput isZero workflow step).program
      (fun r _ => r = .ok (addOutputs isZero workflow.input
        (if 0 < step.stepIndex then rows else []))) () := by
  refine wp_program.mpr ?_
  unfold prepareStepInput
  split
  · refine wp_bind.mpr ?_
    rintro c r s h
    cases h
    rfl
  · rfl

end Promise

/-! ## What the step gets -/

section Runs

variable {isZero} {P} {workflow workflow' : Workflow Number} {step step' : WorkflowStep Number}

/-- The key that an idempotent step is saved and run with. -/
def stepKey (isZero : Number → Bool) (P : Platform Number) (workflow : Workflow Number)
    (step : WorkflowStep Number) : String :=
  generateStepIdempotencyKey P workflow.idempotencyKey step.stepName
    (stepInput isZero workflow step)

/-- Nothing of the input is in a key. -/
theorem stepKey_eq_iff (hsha : Function.Injective P.sha256)
    (hname : step.stepName = step'.stepName) :
    stepKey isZero P workflow step = stepKey isZero P workflow' step' ↔
      workflow.idempotencyKey = workflow'.idempotencyKey := by
  unfold stepKey generateStepIdempotencyKey
  rw [hname]
  dsimp only
  rw [String.append_right_inj, hsha.eq_iff]
  constructor
  · intro h
    exact (stableStringify_eq_iff.mp h).string_eq "workflowIdempotencyKey" rfl rfl
  · intro h
    rw [h]
    rfl

/-- What the function of a step is given, and the key it is run with. -/
def Given (isZero : Number → Bool) (P : Platform Number) (workflow : Workflow Number)
    (step : WorkflowStep Number) (a : Request Number) : Prop :=
  ∀ input key, a = .execute input key →
    (∀ rows, input ≠ .object (addOutputs isZero workflow.input rows)) ∧
    key = if step.isIdempotent then some (stepKey isZero P workflow step) else none

/-- **No step is given an object.**  Whatever the repository and the function answer, what the
function of a step is given is not the input with the outputs of any steps, and the key of an
idempotent step depends on the workflow alone. -/
theorem input_never_merged (hsha : Function.Injective P.sha256)
    (hname : step.stepName = step'.stepName) :
    Keeps (Given isZero P workflow step) (runStep isZero P workflow step) (fun _ => True) ∧
    (stepKey isZero P workflow step = stepKey isZero P workflow' step' ↔
      workflow.idempotencyKey = workflow'.idempotencyKey) := by
  refine ⟨?_, stepKey_eq_iff hsha hname⟩
  unfold runStep
  dsimp only
  split
  · next hidempotent =>
    refine .bind (P := fun _ => True) (.request nofun fun _ _ _ => trivial) fun _ _ => ?_
    refine .request ?_ fun _ _ _ => trivial
    rintro _ _ ⟨⟩
    exact ⟨nofun, (if_pos hidempotent).symm⟩
  · next hidempotent =>
    refine .request ?_ fun _ _ _ => trivial
    rintro _ _ ⟨⟩
    exact ⟨nofun, (if_neg hidempotent).symm⟩

end Runs

/-! ## Examples -/

open IdempotencyService (trade textsOnly tradePlatform)

/-- A trade that was started with the key of its input. -/
def tradeWorkflow (amount digest : String) : Workflow Empty where
  id := 1
  idempotencyKey := "workflow:trade_execution:user123:" ++ digest
  input := trade amount

def submit : WorkflowStep Empty :=
  { stepName := "submit", stepIndex := 0, isIdempotent := true, idempotencyKey := none,
    output := none }

def ten : Workflow Empty :=
  tradeWorkflow "10" "4c51d110fcaee7e22d7a76a6fa178fe96c9779b6079098bd962f19bf246a5d37"

def twenty : Workflow Empty :=
  tradeWorkflow "20" "369cfffc2db9f997161016ab5a439ae17e7a3d72957b894f48fb0d8c20064bc4"

/-- What is hashed for the step. -/
def submitData (workflow : Workflow Empty) : String :=
  stableStringify ⟨textsOnly, id⟩ [("workflowIdempotencyKey", .string workflow.idempotencyKey),
    ("stepName", .string "submit"), ("stepInput", .string "\x7b\x7d")]

def submitPlatform : Platform Empty where
  format := textsOnly
  sha256 :=
    Equiv.swap (submitData ten)
        "2341b201001ce2f79bcf378ba030be8c8d8914f7a3511644fe7fb65ea1d4c920" ∘
      Equiv.swap (submitData twenty)
        "289a403fada5b411ec6a06a75af47bf5bbec23f2d57f25e79aa3d5defcb74161"

theorem input_never_merged_trade :
    Keeps (Given nofun submitPlatform ten submit) (runStep nofun submitPlatform ten submit)
        (fun _ => True) ∧
      (stepKey nofun submitPlatform ten submit = stepKey nofun submitPlatform twenty submit ↔
        ten.idempotencyKey = twenty.idempotencyKey) :=
  input_never_merged ((Equiv.injective _).comp (Equiv.injective _)) rfl

/-- The first step of a trade is not given the trade. -/
theorem trade_not_given :
    ¬ Keeps (fun a => ∀ input key, a = .execute input key → input = .object (trade "10"))
      (runStep nofun tradePlatform ten { submit with isIdempotent := false }) (fun _ => True) := by
  intro h
  have hinput := h.1 _ _ rfl
  cases hinput

end Stellara.StepInput
