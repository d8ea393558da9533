import Stellara.Workflow.Conformance

/-!
# Resuming a workflow

`retryWorkflow` saves the workflow as `running` and hands it to `executeWorkflow`, and
`recoverWorkflow` hands over a workflow that is `running` already.  But `executeWorkflow` asks
for the transition to `running`, and the table has none from `running`:

    failed   ⟶  running          retryWorkflow, saved
    running  ⟶  running          refused: "Cannot start workflow"

So neither executes a step, and the workflow stays `running` with nothing executing it
(`resume_strands`).
-/

namespace Stellara.WorkflowEngine

open Block
open Async (run under answering answering_pre wp_answering)

/-! ## What resuming is -/

/-- The steps that are not completed, in index order. -/
def remaining (w : World) (id : Nat) : List Nat :=
  ((ascending (w.stepsOf id)).filter fun step => step.state ≠ .completed).map fun step =>
    step.stepIndex

/-- The steps of the workflow that were executed, oldest first. -/
def executions (id : Nat) (log : List Effect) : List Nat :=
  log.reverse.filterMap fun effect =>
    match effect with
    | .executed workflowId stepIndex _ _ => if workflowId = id then some stepIndex else none
    | .saved _ _ => none

/-- A program resumes the workflow, under the circumstances with `fits`: when the steps return,
exactly the remaining ones are executed, in index order, and the workflow is completed; and in
no case is it left `running`. -/
structure Resumes (fits : Outside → Prop) (p : Async Request Answer (Except Error Unit)) (id : Nat)
    (w : World) : Prop where
  completes : ∀ cs r w', (∀ c ∈ cs, c.rejects = none ∧ c.result = .returns ∧ fits c) →
    run answer p cs w = some (r, w') →
      executions id w'.log = executions id w.log ++ remaining w id ∧
        storedState w' id = some .completed
  leaves : ∀ cs r w', (∀ c ∈ cs, c.rejects = none ∧ fits c) → run answer p cs w = some (r, w') →
    storedState w' id ≠ some .running

/-- The workflow has not been active for the five minutes of the recovery. -/
def Stale (row : Workflow) (c : Outside) : Prop := 5 * 60 * 1000 ≤ c.now - row.updatedAt

/-! ## Answers that are no rejections -/

/-- The rules of a repository that does not reject. -/
abbrev accepting : Async.Rules Request Answer World :=
  answering (under (fun c => c.rejects = none) answer)

theorem findWorkflow_accepted {id : Nat} {steps : Bool} {w : World} {row : Workflow}
    {Q : WorkflowEntity → Unit → World → Prop} {E : Error → Unit → World → Prop}
    (hrow : w.workflows.lookup id = some row) (hQ : Q (w.load steps id row) () w) :
    wp accepting (findWorkflow id steps) Q E () w := by
  simp only [findWorkflow, wp_bind]
  intro c r w' hx
  obtain ⟨hrej, hx⟩ := Async.under_eq_some.mp hx
  obtain ⟨rfl, rfl⟩ := repository_clear hrej (Option.some.inj hx)
  rw [hrow]
  exact hQ

theorem saveStep_accepted {x : StepEntity} {w : World} {Q : Unit → StepEntity → World → Prop}
    {E : Error → StepEntity → World → Prop}
    (hQ : ∀ now, Q () { x with seen := x.state }
      { w.putStep now x with log := .saved x.id x.toWorkflowStep :: w.log }) :
    wp accepting saveStep Q E x w := by
  simp only [saveStep, wp_bind, wp_get]
  intro c r w' hx
  obtain ⟨hrej, hx⟩ := Async.under_eq_some.mp hx
  obtain ⟨rfl, rfl⟩ := repository_clear hrej (Option.some.inj hx)
  exact hQ c.now

theorem saveWorkflow_accepted {x : WorkflowEntity} {w : World}
    {Q : Unit → WorkflowEntity → World → Prop} {E : Error → WorkflowEntity → World → Prop}
    (hQ : ∀ now (y : WorkflowEntity), y.toWorkflow = x.toWorkflow → y.id = x.id →
      Q () y (w.putWorkflow now x)) :
    wp accepting saveWorkflow Q E x w := by
  simp only [saveWorkflow, wp_bind, wp_get]
  intro c r w' hx
  obtain ⟨hrej, hx⟩ := Async.under_eq_some.mp hx
  obtain ⟨rfl, rfl⟩ := repository_clear hrej (Option.some.inj hx)
  exact hQ c.now _ rfl rfl

/-- The executor refuses a workflow that is `running`, whatever its definition. -/
theorem executeWorkflow_refuses {definitions : Definitions} {x : WorkflowEntity} {w : World}
    {Q : Unit → WorkflowEntity → World → Prop} {E : Error → WorkflowEntity → World → Prop}
    (hx : x.state = .running) (hE : ∀ e, E e x w) :
    wp accepting (executeWorkflow definitions) Q E x w := by
  have hnot : ¬ canTransitionWorkflow .running .running := by decide
  simp only [executeWorkflow, wp_bind, wp_get]
  split
  · exact hE _
  split
  · exact hE _
  next hok =>
  have := transitionWorkflow_ok hok
  rw [hx] at this
  exact absurd this hnot

/-! ## What is left behind -/

theorem executions_saved (id stepId : Nat) (row : WorkflowStep) (log : List Effect) :
    executions id (.saved stepId row :: log) = executions id log := by
  simp [executions]

/-- The workflow is stored as `running`, and none of its steps was executed. -/
def Stranded (id : Nat) (w w' : World) : Prop :=
  storedState w' id = some .running ∧ executions id w'.log = executions id w.log

theorem retryWorkflow_stranded {definitions : Definitions} {w : World} {id : Nat} {row : Workflow}
    (hrow : w.workflows.lookup id = some row) (hfailed : row.state = .failed) :
    wp accepting (retryWorkflow definitions id) (fun _ _ w' => Stranded id w w')
      (fun _ _ w' => Stranded id w w') () w := by
  simp only [retryWorkflow, wp_bind]
  refine findWorkflow_accepted hrow ?_
  split
  · next h => exact absurd hfailed h
  simp only [wp_call, wp_bind, wp_modify]
  refine saveWorkflow_accepted fun now y hy hid => ?_
  have hstored : Stranded id w (w.putWorkflow now { w.load true id row with
      state := .running, retryCount := row.retryCount + 1 }) := by
    refine ⟨?_, by rw [log_putWorkflow]⟩
    rw [storedState_putWorkflow]
    exact if_pos rfl
  have hrunning : y.state = .running := congrArg Workflow.state hy
  rw [wp_bind]
  unfold onStep
  rw [wp_zoom]
  split
  · -- the failed step is saved as pending first
    rw [wp_bind, wp_modify]
    refine saveStep_accepted fun now' => executeWorkflow_refuses hrunning fun _ => ?_
    exact ⟨hstored.1, (executions_saved _ _ _ _).trans hstored.2⟩
  · exact executeWorkflow_refuses hrunning fun _ => hstored

/-- One workflow of a recovery: of the one that is `running` without failed steps, nothing
changes. -/
theorem recoverWorkflow_stranded {definitions : Definitions} {w w' : World} {id : Nat}
    {x : WorkflowEntity} (h : Stranded id w w') (hx : x.state = .running)
    (hfailed : x.id = id → ∀ step ∈ x.steps.getD [], step.state ≠ .failed) :
    wp accepting (recoverWorkflow definitions) (fun _ _ w' => Stranded id w w')
      (fun _ _ w' => Stranded id w w') x w' := by
  simp only [recoverWorkflow, wp_bind]
  intro c r w'' hnow
  obtain ⟨-, hnow⟩ := Async.under_eq_some.mp hnow
  cases (unrejected_eq_some.mp hnow).2
  show wp accepting _ _ _ x w'
  rw [wp_bind, wp_get]
  split
  · exact h
  split
  · next hany =>
    have hne : x.id ≠ id := by
      intro heq
      obtain ⟨step, hstep, hstate⟩ := List.any_eq_true.mp hany
      exact hfailed heq step hstep (of_decide_eq_true hstate)
    rw [wp_bind, wp_modify]
    refine saveWorkflow_accepted fun now y _ _ => ?_
    refine ⟨?_, by rw [log_putWorkflow]; exact h.2⟩
    rw [storedState_putWorkflow, if_neg (Ne.symm hne)]
    exact h.1
  split <;>
  · rw [wp_bind, wp_modify]
    exact executeWorkflow_refuses hx fun _ => h

theorem recoverEach_stranded {definitions : Definitions} {w w' : World} {id : Nat}
    {workflows : List WorkflowEntity} (h : Stranded id w w')
    (hall : ∀ x ∈ workflows, x.state = .running ∧
      (x.id = id → ∀ step ∈ x.steps.getD [], step.state ≠ .failed)) :
    wp accepting (recoverEach definitions workflows) (fun _ _ w' => Stranded id w w')
      (fun _ _ w' => Stranded id w w') () w' := by
  induction workflows generalizing w' with
  | nil => exact h
  | cons x rest ih =>
    rw [List.forall_mem_cons] at hall
    simp only [recoverEach, wp_bind, wp_tryCatch, wp_call]
    exact wp_mono (fun _ _ _ h => ih h hall.2) (fun _ _ _ h => ih h hall.2)
      (recoverWorkflow_stranded h hall.1.1 hall.1.2)

theorem recoverOrphanedWorkflows_stranded {definitions : Definitions} {w : World} {id : Nat}
    {row : Workflow} (hrow : w.workflows.lookup id = some row) (hrunning : row.state = .running)
    (hfailed : ∀ step ∈ w.stepsOf id, step.state ≠ .failed) :
    wp accepting (recoverOrphanedWorkflows definitions) (fun _ _ w' => Stranded id w w')
      (fun _ _ w' => Stranded id w w') () w := by
  have hstored : Stranded id w w := by
    refine ⟨?_, rfl⟩
    unfold storedState
    rw [hrow, Option.map_some, hrunning]
  simp only [recoverOrphanedWorkflows, wp_bind]
  intro c r w' hx
  obtain ⟨hrej, hx⟩ := Async.under_eq_some.mp hx
  obtain ⟨rfl, rfl⟩ := repository_clear hrej (Option.some.inj hx)
  refine recoverEach_stranded hstored fun x hmem => ?_
  obtain ⟨e, he, rfl⟩ := List.mem_map.mp hmem
  refine ⟨of_decide_eq_true (List.mem_filter.mp he).2, ?_⟩
  rintro rfl
  exact hfailed

/-! ## Neither resumes -/

/-- However a program runs alone, it leaves the workflow stranded if nothing is rejected. -/
def Strands (p : Async Request Answer (Except Error Unit)) (id : Nat) (w : World) : Prop :=
  ∀ cs r w', (∀ c ∈ cs, c.rejects = none) → run answer p cs w = some (r, w') → Stranded id w w'

theorem strands_of_wp {p : Async Request Answer (Except Error Unit)} {w : World} {id : Nat}
    (hp : Async.wp accepting p (fun _ w' => Stranded id w w') w) : Strands p id w := by
  intro cs r w' hcs hrun
  refine wp_answering.mp hp cs r w' ?_
  rw [Async.run_under hcs]
  exact hrun

/-- A program that strands the workflow does not resume it. -/
theorem not_resumes {p : Async Request Answer (Except Error Unit)} {w : World} {id : Nat}
    {fits : Outside → Prop} {c : Outside} (hc : c.rejects = none ∧ c.result = .returns ∧ fits c)
    (hp : Strands p id w) : ¬ Resumes fits p id w := by
  intro h
  have hanswers : ∀ w a, (answer c w a).isSome := by
    intro w a
    cases a with
    | execute | delay | now => simp only [answer, unrejected, hc.1, hc.2.1, Option.isSome_some]
    | _ => rfl
  obtain ⟨n, r, w', hrun⟩ := Async.exists_run hanswers p w
  have hall : ∀ c' ∈ List.replicate n c, c'.rejects = none ∧ fits c' := by
    intro c' hc'
    rw [List.eq_of_mem_replicate hc']
    exact ⟨hc.1, hc.2.2⟩
  exact h.leaves _ r w' hall hrun (hp _ r w' (fun c' hc' => (hall c' hc').1) hrun).1

/-- **A failed workflow is not resumed by a retry, nor a stale one by the recovery**: where
nothing is rejected, no step is executed and the workflow is left `running`. -/
theorem resume_strands {definitions : Definitions} {w : World} {id : Nat} {row : Workflow}
    (hrow : w.workflows.lookup id = some row) :
    (row.state = .failed →
      Strands (retryWorkflow definitions id).program id w ∧
        ¬ Resumes (fun _ => True) (retryWorkflow definitions id).program id w) ∧
    (row.state = .running → (∀ step ∈ w.stepsOf id, step.state ≠ .failed) →
      Strands (recoverOrphanedWorkflows definitions).program id w ∧
        ¬ Resumes (Stale row) (recoverOrphanedWorkflows definitions).program id w) := by
  constructor
  · intro hfailed
    have hstrands : Strands (retryWorkflow definitions id).program id w :=
      strands_of_wp (wp_program.mpr (retryWorkflow_stranded hrow hfailed))
    exact ⟨hstrands, not_resumes (c := ⟨0, none, .returns⟩) ⟨rfl, rfl, trivial⟩ hstrands⟩
  · intro hrunning hfailed
    have hstrands : Strands (recoverOrphanedWorkflows definitions).program id w :=
      strands_of_wp (wp_program.mpr (recoverOrphanedWorkflows_stranded hrow hrunning hfailed))
    have hstale : Stale row ⟨row.updatedAt + 5 * 60 * 1000, none, .returns⟩ := by
      simp only [Stale]
      omega
    exact ⟨hstrands, not_resumes ⟨rfl, rfl, hstale⟩ hstrands⟩

/-! ### A workflow whose first step is completed -/

def firstDoneStep (index : Nat) (state : StepState) : WorkflowStep :=
  { workflowId := 0, stepName := "transfer", stepIndex := index, state, retryCount := 0
    maxRetries := 3, requiresCompensation := true, isCompensated := false, isIdempotent := false
    updatedAt := 0 }

def firstDone (state : WorkflowState) (second : StepState) : World :=
  { workflows := (∅ : Store Nat Workflow).insert 0 (oneStepRow state)
    steps := ((∅ : Store Nat WorkflowStep).insert 1 (firstDoneStep 1 second)).insert 0
      (firstDoneStep 0 .completed)
    log := [] }

def twoSteps : Definitions := fun _ => some { steps := [⟨none⟩, ⟨none⟩], timeout := none }

theorem resume_strands_first_done :
    (Strands (retryWorkflow twoSteps 0).program 0 (firstDone .failed .failed) ∧
      ¬ Resumes (fun _ => True) (retryWorkflow twoSteps 0).program 0 (firstDone .failed .failed)) ∧
    Strands (recoverOrphanedWorkflows twoSteps).program 0 (firstDone .running .pending) ∧
      ¬ Resumes (Stale (oneStepRow .running)) (recoverOrphanedWorkflows twoSteps).program 0
        (firstDone .running .pending) := by
  have hfailed : (firstDone .failed .failed).workflows.lookup 0 = some (oneStepRow .failed) := rfl
  have hrunning : (firstDone .running .pending).workflows.lookup 0 = some (oneStepRow .running) := rfl
  exact ⟨(resume_strands hfailed).1 rfl, (resume_strands hrunning).2 rfl (by decide)⟩

/-- The retry of a workflow whose second step failed, on which nothing is rejected: it is stored
as `running` afterwards, with the second step `pending`. -/
theorem resume_strands_retry :
    ¬ ∀ (definitions : Definitions) (w : World) (id : Nat) (row : Workflow),
      w.workflows.lookup id = some row → row.state = .failed →
        Resumes (fun _ => True) (retryWorkflow definitions id).program id w := by
  intro hall
  have h := hall twoSteps (firstDone .failed .failed) 0 (oneStepRow .failed) rfl rfl
  have hrun : (run answer (retryWorkflow twoSteps 0).program (List.replicate 3 undisturbed)
      (firstDone .failed .failed)).map (fun r => storedState r.2 0) = some (some .running) := by
    decide
  obtain ⟨⟨r, w'⟩, hrun, hstate⟩ := Option.map_eq_some_iff.mp hrun
  refine h.leaves _ r w' (fun c hc => ?_) hrun hstate
  rw [List.eq_of_mem_replicate hc]
  exact ⟨rfl, trivial⟩

end Stellara.WorkflowEngine
