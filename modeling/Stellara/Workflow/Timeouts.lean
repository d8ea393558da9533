import Stellara.Workflow.Compensation

/-!
# A step that exceeds its timeout

The executor answers a timeout by compensating the workflow that it is executing.  That workflow
is stored as `running`, in which state `canWorkflowCompensate` refuses:

    executeStep          timeout: step saved as failed, compensateWorkflow
    compensateWorkflow   "cannot be compensated in state: running"
    executeWorkflow      this is no WorkflowTimeoutError: workflow saved as failed

The error of the refusal takes the place of the timeout, so that the executor treats the workflow
as failed, and nothing is compensated (`timeout_leaves_failed`).  A rejection of the repository
changes what is thrown and stored, but does not get the workflow compensated either.
-/

namespace Stellara.WorkflowEngine

open Block
open Async (run flagged wp_answering)

/-! ## What is claimed of a timeout -/

/-- From `w` to `w'` the steps before step `k` returned, and step `k` exceeded its timeout. -/
def StepTimesOut (id k : Nat) (w w' : World) : Prop :=
  ∃ new, w'.log = new ++ w.log ∧
    (∀ j < k, ∃ timeoutMs, Effect.executed id j timeoutMs .returns ∈ new) ∧
    ∃ timeoutMs, Effect.executed id k timeoutMs .exceedsTimeout ∈ new

/-- The workflow is compensated: of the steps before step `k` those that require it, in reverse
order.  Step `k` is failed. -/
structure CompensatedBefore (id k : Nat) (w w' : World) : Prop where
  workflow : storedState w' id = some .compensated
  steps : compensations id w'.log = compensations id w.log ++
    (descending ((w.stepsOf id).filter fun step =>
      step.stepIndex < k ∧ step.requiresCompensation)).map fun step => step.stepIndex
  failed : ∀ step ∈ w'.stepsOf id, step.stepIndex = k → step.state = .failed

/-! ## While the workflow is running -/

/-- Steps of the workflow that exceeded their timeouts. -/
def timeouts (id : Nat) (log : List Effect) : Nat :=
  log.countP fun effect =>
    match effect with
    | .executed workflowId _ _ .exceedsTimeout => workflowId = id
    | _ => false

/-- The workflow is stored as `running`, and nothing was compensated since `w₀`. -/
structure Underway (id : Nat) (w₀ : World) (s : World × Bool) : Prop where
  state : storedState s.1 id = some .running
  uncompensated : compensations id s.1.log = compensations id w₀.log

/-- Unless something was rejected, no step has exceeded its timeout since `w₀`. -/
structure OnTime (id : Nat) (w₀ : World) (s : World × Bool) : Prop extends Underway id w₀ s where
  punctual : s.2 = true → timeouts id s.1.log = timeouts id w₀.log

/-- What `compensateWorkflow` throws. -/
def refusal (id : Nat) : String :=
  s!"Workflow {id} cannot be compensated in state: {WorkflowState.running.value}"

/-- A step threw: unless something was rejected, an `Error`, and the refusal if there was a
timeout. -/
structure Stopped (id : Nat) (w₀ : World) (s : World × Bool) (e : Error) : Prop
    extends Underway id w₀ s where
  error : s.2 = true → ∃ message, e = .error message ∧
    (timeouts id s.1.log = timeouts id w₀.log ∨ message = refusal id)

/-- What the handler of an attempt is given. -/
structure Thrown (id : Nat) (w₀ : World) (s : World × Bool) (e : Error) : Prop
    extends Underway id w₀ s where
  error : s.2 = true → (∃ message, e = .timeout message) ∨
    (∃ message, e = .error message) ∧ timeouts id s.1.log = timeouts id w₀.log

section Steps

variable {id : Nat} {w₀ w : World} {b : Bool}

theorem Underway.executed (h : Underway id w₀ (w, b)) (stepIndex : Nat) (timeoutMs : Option Int)
    (result : StepResult) :
    Underway id w₀ ({ w with log := .executed id stepIndex timeoutMs result :: w.log }, b) := by
  refine ⟨h.state, ?_⟩
  rw [← h.uncompensated]
  show compensations id (.executed id stepIndex timeoutMs result :: w.log) = _
  unfold compensations
  rw [List.reverse_cons, List.filterMap_append]
  exact List.append_nil _

theorem timeouts_executed {stepIndex : Nat} {timeoutMs : Option Int} {result : StepResult}
    (h : result ≠ .exceedsTimeout) (log : List Effect) :
    timeouts id (.executed id stepIndex timeoutMs result :: log) = timeouts id log := by
  cases result with
  | returns => simp [timeouts]
  | throws message => simp [timeouts]
  | exceedsTimeout => exact absurd rfl h

theorem saveStep_underway {x : StepEntity} {Q : Unit → StepEntity → World × Bool → Prop}
    {E : Error → StepEntity → World × Bool → Prop} (h : Underway id w₀ (w, b))
    (hx : x.state ≠ .compensated)
    (hQ : ∀ w', Underway id w₀ (w', b) → timeouts id w'.log = timeouts id w.log →
      Q () { x with seen := x.state } (w', b))
    (hE : ∀ e, Underway id w₀ (w, false) → E e x (w, false)) :
    wp tracked saveStep Q E x (w, b) := by
  refine saveStep_tracked (fun now => hQ _ ⟨(storedState_congr rfl).trans h.state, ?_⟩ ?_)
    fun e => hE e ⟨h.state, h.uncompensated⟩
  · show compensations id (.saved x.id x.toWorkflowStep :: w.log) = _
    rw [compensations_saved, if_neg fun hand => hx hand.2, List.append_nil]
    exact h.uncompensated
  · simp [timeouts]

/-- The function of a step ends in one of three ways. -/
theorem execute_tracked {τ : Type} {x : τ} {stepIndex : Nat} {stepName : String}
    {timeoutMs : Option Int} {Q : Unit → τ → World × Bool → Prop}
    {E : Error → τ → World × Bool → Prop}
    (hreturns : Q () x ({ w with log := .executed id stepIndex timeoutMs .returns :: w.log }, b))
    (hthrows : ∀ message, E (.error message) x
      ({ w with log := .executed id stepIndex timeoutMs (.throws message) :: w.log }, b))
    (hexceeds : ∀ message, E (.timeout message) x
      ({ w with log := .executed id stepIndex timeoutMs .exceedsTimeout :: w.log }, b)) :
    wp tracked (request (.execute id stepIndex stepName timeoutMs) fun r => r) Q E x (w, b) := by
  rintro c r ⟨w', b'⟩ hx
  obtain ⟨hx, hflag⟩ := Async.flagged_eq_some.mp hx
  dsimp only at hx hflag
  obtain ⟨hrej, hx⟩ := unrejected_eq_some.mp hx
  rw [hrej, Option.isNone_none, Bool.and_true] at hflag
  rw [hflag]
  cases hresult : c.result with
  | returns =>
    rw [hresult] at hx
    cases hx
    exact hreturns
  | throws message =>
    rw [hresult] at hx
    cases hx
    exact hthrows message
  | exceedsTimeout =>
    rw [hresult] at hx
    dsimp only at hx
    split at hx
    · split at hx
      · cases hx
        exact hexceeds _
      · cases hx
    · cases hx

/-- The workflow that is being executed cannot be compensated. -/
theorem compensateWorkflow_running (h : Underway id w₀ (w, b)) {τ : Type} {x : τ}
    {Q : Unit → τ → World × Bool → Prop} {E : Error → τ → World × Bool → Prop}
    (hE : E (.error (refusal id)) x (w, b)) (hrejected : ∀ e, E e x (w, false)) :
    wp tracked (call (compensateWorkflow id) ()) Q E x (w, b) := by
  obtain ⟨row, hrow, hstate⟩ := Option.map_eq_some_iff.mp h.state
  rw [wp_call]
  unfold compensateWorkflow
  refine wp_bind.mpr (findWorkflow_tracked (fun row' hrow' => ?_) (fun hnone => ?_) hrejected)
  · obtain rfl : row = row' := Option.some.inj (hrow.symm.trans hrow')
    have hcannot : ¬ canWorkflowCompensate row.state := by
      rw [hstate]
      decide
    split
    · show E (.error s!"Workflow {id} cannot be compensated in state: {row.state.value}") x (w, b)
      rw [hstate]
      exact hE
    · next hcan => exact absurd (not_not.mp hcan) hcannot
  · have hsome : w.workflows.lookup id = some row := hrow
    rw [hnone] at hsome
    cases hsome

theorem stepTimeout_error {stepDefinition : Option StepDefinition} {workflowTimeout : Option Int}
    {e : Error} (h : stepTimeout stepDefinition workflowTimeout = .error e) :
    ∃ message, e = .error message := by
  cases stepDefinition with
  | none =>
    cases h
    exact ⟨_, rfl⟩
  | some definition => cases h

/-- After a rejection nothing more is said of what is thrown. -/
theorem Underway.stopped (h : Underway id w₀ (w, false)) (e : Error) : Stopped id w₀ (w, false) e :=
  ⟨h, fun hfalse => by cases hfalse⟩

theorem Underway.thrown (h : Underway id w₀ (w, false)) (e : Error) : Thrown id w₀ (w, false) e :=
  ⟨h, fun hfalse => by cases hfalse⟩

/-- **One attempt**: it ends in time, or it stops. -/
theorem attemptStep_stops {stepDefinition : Option StepDefinition} {workflowTimeout : Option Int}
    {retry : On StepEntity Unit} {x : StepEntity} (h : OnTime id w₀ (w, b))
    (hretry : ∀ y w b, OnTime id w₀ (w, b) →
      wp tracked retry (fun _ _ s => OnTime id w₀ s) (fun e _ s => Stopped id w₀ s e) y (w, b)) :
    wp tracked (attemptStep id stepDefinition workflowTimeout retry)
      (fun _ _ s => OnTime id w₀ s) (fun e _ s => Stopped id w₀ s e) x (w, b) := by
  unfold attemptStep
  refine wp_bind.mpr (wp_get.mpr ?_)
  split
  · exact ⟨h.toUnderway, fun hb => ⟨_, rfl, .inl (h.punctual hb)⟩⟩
  refine wp_bind.mpr (wp_modify.mpr (wp_bind.mpr ?_))
  refine saveStep_underway h.toUnderway (by simp) (fun w' h' heq => ?_) fun e h => h.stopped e
  have hsaved : OnTime id w₀ (w', b) := ⟨h', fun hb => heq.trans (h.punctual hb)⟩
  refine wp_tryCatch.mpr (Block.wp_mono (E := fun e _ s => Thrown id w₀ s e) (fun _ _ _ h => h) ?_ ?_)
  · rintro (message | message) y ⟨w, b⟩ hthrown
    · -- `Error`: the step is tried again, or it has failed
      have htime : b = true → timeouts id w.log = timeouts id w₀.log := fun hb => by
        rcases hthrown.error hb with ⟨_, heq⟩ | ⟨-, htime⟩
        · cases heq
        · exact htime
      refine wp_bind.mpr (wp_modify.mpr (wp_bind.mpr (wp_get.mpr ?_)))
      dsimp only
      split
      · refine wp_bind.mpr (saveStep_underway hthrown.toUnderway (by simp) (fun w h heq => ?_)
          fun e h => h.stopped e)
        refine wp_bind.mpr (setTimeout_tracked (hretry _ w b ⟨h, fun hb => ?_⟩))
        exact heq.trans (htime hb)
      · refine wp_bind.mpr (saveStep_underway hthrown.toUnderway (by simp) (fun w h heq => ?_)
          fun e h => h.stopped e)
        exact ⟨h, fun hb => ⟨_, rfl, .inl (heq.trans (htime hb))⟩⟩
    · -- the timeout: the compensation is refused
      refine wp_bind.mpr (wp_modify.mpr (wp_bind.mpr ?_))
      refine saveStep_underway hthrown.toUnderway (by simp) (fun w h _ => ?_) fun e h => h.stopped e
      refine wp_bind.mpr (compensateWorkflow_running h ?_ fun e => ?_)
      · exact ⟨h, fun _ => ⟨_, rfl, .inr rfl⟩⟩
      · exact Underway.stopped ⟨h.state, h.uncompensated⟩ e
  · have hrun : ∀ timeoutMs y w b, OnTime id w₀ (w, b) →
        wp tracked (do
            request (.execute id x.stepIndex x.stepName timeoutMs) fun r => r
            modify fun step => { step with state := .completed }
            saveStep : On StepEntity Unit)
          (fun _ _ s => OnTime id w₀ s) (fun e _ s => Thrown id w₀ s e) y (w, b) := by
      intro timeoutMs y w b h
      refine wp_bind.mpr (execute_tracked ?_ (fun message => ?_) fun message => ?_)
      · refine wp_bind.mpr (wp_modify.mpr ?_)
        refine saveStep_underway (h.executed _ _ _) (by simp) (fun w h' heq => ⟨h', fun hb => ?_⟩)
          fun e h => h.thrown e
        exact heq.trans ((timeouts_executed (by simp) _).trans (h.punctual hb))
      · exact ⟨h.executed _ _ _, fun hb =>
          .inr ⟨⟨_, rfl⟩, (timeouts_executed (by simp) _).trans (h.punctual hb)⟩⟩
      · exact ⟨h.executed _ _ _, fun _ => .inl ⟨_, rfl⟩⟩
    -- an idempotent step is saved once more before it is executed
    cases hstepTimeout : stepTimeout stepDefinition workflowTimeout with
    | error e =>
      have hthrown : ∀ w, OnTime id w₀ (w, b) → Thrown id w₀ (w, b) e := fun w h =>
        ⟨h.toUnderway, fun hb => .inr ⟨stepTimeout_error hstepTimeout, h.punctual hb⟩⟩
      dsimp only
      split
      · exact wp_bind.mpr (saveStep_underway hsaved.toUnderway (by simp) (fun w h heq =>
          hthrown w ⟨h, fun hb => heq.trans (hsaved.punctual hb)⟩) fun e h => h.thrown e)
      · exact hthrown w' hsaved
    | ok timeoutMs =>
      dsimp only
      split
      · exact wp_bind.mpr (saveStep_underway hsaved.toUnderway (by simp) (fun w h heq =>
          hrun timeoutMs _ w b ⟨h, fun hb => heq.trans (hsaved.punctual hb)⟩) fun e h => h.thrown e)
      · exact hrun timeoutMs _ w' b hsaved

theorem executeStep_stops {stepDefinition : Option StepDefinition} {workflowTimeout : Option Int}
    {x : StepEntity} (h : OnTime id w₀ (w, b)) :
    wp tracked (executeStep id stepDefinition workflowTimeout)
      (fun _ _ s => OnTime id w₀ s) (fun e _ s => Stopped id w₀ s e) x (w, b) := by
  refine wp_bind.mpr (wp_get.mpr ?_)
  generalize x.maxRetries - x.retryCount = attempts
  induction attempts generalizing x w b workflowTimeout with
  | zero => exact attemptStep_stops h fun _ _ _ h => h
  | succ attempts ih => exact attemptStep_stops h fun _ _ _ h => ih h

end Steps

/-! ## The execution -/

section Execution

variable {id : Nat} {w₀ w : World} {b : Bool} {definitions : Definitions}

/-- The workflow as the executor holds it. -/
structure Current (id : Nat) (x : WorkflowEntity) : Prop where
  id : x.id = id
  state : x.state = .running

theorem saveWorkflow_underway {x : WorkflowEntity} {Q : Unit → WorkflowEntity → World × Bool → Prop}
    {E : Error → WorkflowEntity → World × Bool → Prop} (hx : Current id x)
    (hlog : compensations id w.log = compensations id w₀.log)
    (hQ : ∀ y w', Current id y → Underway id w₀ (w', b) → w'.log = w.log → Q () y (w', b))
    (hE : ∀ e, E e x (w, false)) : wp tracked saveWorkflow Q E x (w, b) := by
  refine saveWorkflow_tracked (fun now => hQ _ _ ⟨hx.id, hx.state⟩ ⟨?_, ?_⟩ ?_) hE
  · rw [storedState_putWorkflow, if_pos hx.id.symm, hx.state]
  · rw [log_putWorkflow, hlog]
  · exact log_putWorkflow now w x

/-- **The steps in order**: all end in time, or one stops. -/
theorem executeEach_stops {definition : WorkflowDefinition} {steps : List StepEntity}
    {x : WorkflowEntity} (hx : Current id x) (h : OnTime id w₀ (w, b)) :
    wp tracked (executeEach definition steps) (fun _ y s => Current id y ∧ OnTime id w₀ s)
      (fun e y s => Current id y ∧ Stopped id w₀ s e) x (w, b) := by
  induction steps generalizing x w b with
  | nil => exact ⟨hx, h⟩
  | cons step rest ih =>
    have hcurrent : Current id { x with currentStepIndex := step.stepIndex } := ⟨hx.id, hx.state⟩
    refine wp_bind.mpr (wp_modify.mpr (wp_bind.mpr ?_))
    refine saveWorkflow_underway hcurrent h.uncompensated (fun y w hy h' heq => ?_) fun e =>
      ⟨hcurrent, Underway.stopped ⟨h.state, h.uncompensated⟩ e⟩
    refine wp_bind.mpr (wp_get.mpr (wp_bind.mpr (wp_call.mpr ?_)))
    rw [hy.id]
    have hsaved : OnTime id w₀ (w, b) := ⟨h', fun hb => by
      show timeouts id w.log = _
      rw [heq]
      exact h.punctual hb⟩
    refine Block.wp_mono ?_ ?_ (executeStep_stops hsaved)
    · rintro - - ⟨w, b⟩ h
      exact ih hy h
    · exact fun e _ w hstopped => ⟨hy, hstopped⟩

/-- How an execution ends that some step exceeded its timeout in: nothing is compensated, and
unless something was rejected, the refused compensation has made it fail. -/
structure Concluded (id : Nat) (w : World) (r : Except Error Unit) (s : World × Bool) : Prop where
  uncompensated : compensations id s.1.log = compensations id w.log
  state : timeouts id s.1.log = timeouts id w.log ∨ storedState s.1 id ≠ some .compensated
  failed : s.2 = true → timeouts id s.1.log = timeouts id w.log ∨
    r = .error (.error (refusal id)) ∧ storedState s.1 id = some .failed

theorem concluded_start {r : Except Error Unit} : Concluded id w r (w, b) :=
  ⟨rfl, .inl rfl, fun _ => .inl rfl⟩

/-- The last save of the workflow, as `completed` or as `failed`. -/
theorem saveWorkflow_concluded {x : WorkflowEntity} {r : Except Error Unit}
    {Q : Unit → WorkflowEntity → World × Bool → Prop}
    {E : Error → WorkflowEntity → World × Bool → Prop} (h : Underway id w₀ (w, b)) (hx : x.id = id)
    (hstate : x.state ≠ .compensated)
    (hfailed : b = true → timeouts id w.log = timeouts id w₀.log ∨
      r = .error (.error (refusal id)) ∧ x.state = .failed)
    (hQ : ∀ y w', Concluded id w₀ r (w', b) → Q () y (w', b))
    (hE : ∀ e, (∀ r, Concluded id w₀ r (w, false)) → E e x (w, false)) :
    wp tracked saveWorkflow Q E x (w, b) := by
  refine saveWorkflow_tracked (fun now => hQ _ _ ⟨?_, .inr ?_, fun hb => ?_⟩) fun e => hE e fun r =>
    ⟨h.uncompensated, .inr ?_, fun hfalse => by cases hfalse⟩
  · rw [log_putWorkflow]
    exact h.uncompensated
  · rw [storedState_putWorkflow, if_pos hx.symm]
    exact fun heq => hstate (Option.some.inj heq)
  · rw [log_putWorkflow, storedState_putWorkflow, if_pos hx.symm]
    exact (hfailed hb).imp_right fun ⟨hr, hstate⟩ => ⟨hr, congrArg some hstate⟩
  · rw [h.state]
    decide

theorem executeWorkflow_concluded {x : WorkflowEntity} :
    wp tracked (executeWorkflow definitions) (fun u _ s => Concluded x.id w (.ok u) s)
      (fun e _ s => Concluded x.id w (.error e) s) x (w, b) := by
  unfold executeWorkflow
  refine wp_bind.mpr (wp_get.mpr ?_)
  split
  · exact concluded_start
  split
  · exact concluded_start
  have hcurrent : Current x.id { x with state := .running } := ⟨rfl, rfl⟩
  refine wp_bind.mpr (wp_modify.mpr (wp_bind.mpr ?_))
  refine saveWorkflow_underway hcurrent (Eq.refl (compensations x.id w.log)) (fun y w₁ hy h heq => ?_)
    fun _ => concluded_start
  have htime : OnTime x.id w (w₁, b) := ⟨h, fun _ => congrArg (timeouts x.id) heq⟩
  refine wp_tryCatch.mpr (Block.wp_mono (E := fun e y s => y.id = x.id ∧ Stopped x.id w s e)
    (fun _ _ _ h => h) ?_ ?_)
  · rintro (message | message) y ⟨w₂, b⟩ ⟨hy, h⟩
    · refine wp_bind.mpr (wp_modify.mpr (wp_bind.mpr ?_))
      refine saveWorkflow_concluded (r := .error (.error message)) h.toUnderway hy (by simp)
        (fun hb => ?_) (fun _ _ h => h) fun e h => h _
      obtain ⟨_, heq, htime | hrefused⟩ := h.error hb
      · exact .inl htime
      · rw [heq, hrefused]
        exact .inr ⟨rfl, rfl⟩
    · -- only after a rejection
      refine ⟨h.uncompensated, .inr ?_, fun hb => ?_⟩
      · rw [h.state]
        decide
      · obtain ⟨_, heq, -⟩ := h.error hb
        cases heq
  · refine wp_bind.mpr (wp_bind.mpr (wp_get.mpr (wp_bind.mpr ?_)))
    refine repository_tracked (fun c => rfl) (fun c => ?_) fun e =>
      ⟨hy.id, Underway.stopped ⟨h.state, h.uncompensated⟩ e⟩
    refine Block.wp_mono ?_ (fun e y s h => ⟨h.1.id, h.2⟩) (executeEach_stops hy htime)
    rintro - z ⟨w₂, b⟩ ⟨hz, h⟩
    refine wp_bind.mpr (wp_modify.mpr ?_)
    refine saveWorkflow_concluded (r := .ok ()) h.toUnderway hz.id (by simp)
      (fun hb => .inl (h.punctual hb)) (fun _ _ h => h) fun e _ => ?_
    exact ⟨hz.id, Underway.stopped ⟨h.state, h.uncompensated⟩ e⟩

theorem StepTimesOut.timeouts_lt {k : Nat} {w' : World} (h : StepTimesOut id k w w') :
    timeouts id w.log < timeouts id w'.log := by
  obtain ⟨new, hlog, -, timeoutMs, hmem⟩ := h
  have hpos : 0 < timeouts id new :=
    List.countP_pos_iff.mpr ⟨.executed id k timeoutMs .exceedsTimeout, hmem, decide_eq_true rfl⟩
  have happend : timeouts id w'.log = timeouts id new + timeouts id w.log := by
    rw [hlog]
    exact List.countP_append
  omega

/-- **After a timeout nothing is compensated**, whatever the definition of the workflow and
whichever step it was; and if nothing is rejected the workflow is failed. -/
theorem timeout_leaves_failed {x : WorkflowEntity} {k : Nat} {cs : List Outside}
    {r : Except Error Unit} {w' : World}
    (hrun : run answer (call (executeWorkflow definitions) x).program cs w = some (r, w'))
    (htimeout : StepTimesOut x.id k w w') :
    storedState w' x.id ≠ some .compensated ∧
      compensations x.id w'.log = compensations x.id w.log ∧ ¬ CompensatedBefore x.id k w w' ∧
      ((∀ c ∈ cs, c.rejects = none) →
        r = .error (.error (refusal x.id)) ∧ storedState w' x.id = some .failed) := by
  have hprogram : Async.wp tracked (call (executeWorkflow definitions) x).program
      (Concluded x.id w) (w, true) := wp_program.mpr (wp_call.mpr executeWorkflow_concluded)
  have hflagged : run (flagged (fun c => c.rejects.isNone) answer)
      (call (executeWorkflow definitions) x).program cs (w, true) =
        some (r, w', cs.all fun c => c.rejects.isNone) := by
    rw [Async.run_flagged, hrun, Option.map_some, Bool.true_and]
  have h := wp_answering.mp hprogram cs r _ hflagged
  have hlt := htimeout.timeouts_lt
  have hstate := h.state.resolve_left hlt.ne'
  exact ⟨hstate, h.uncompensated, fun hcompensated => hstate hcompensated.workflow, fun hcs =>
    (h.failed (all_isNone.mpr hcs)).resolve_left hlt.ne'⟩

end Execution

/-! ### A workflow whose second step is slow -/

def pendingStep (index : Nat) : WorkflowStep := { transferRow index with state := .pending }

def twoPending : World :=
  { workflows := (∅ : Store Nat Workflow).insert 0 (oneStepRow .pending)
    steps := ((∅ : Store Nat WorkflowStep).insert 0 (pendingStep 0)).insert 1 (pendingStep 1)
    log := [] }

/-- Each step has a second. -/
def limitedSteps : Definitions := fun _ =>
  some { steps := [⟨some 1000⟩, ⟨some 1000⟩], timeout := none }

/-- Nothing is rejected, and the ninth request is the execution of the second step. -/
def secondExceeds : List Outside :=
  List.replicate 8 undisturbed ++ { undisturbed with result := .exceedsTimeout } ::
    List.replicate 3 undisturbed

theorem twoPending_run : ∃ r w', run answer (call (executeWorkflow limitedSteps)
      (twoPending.load false 0 (oneStepRow .pending))).program secondExceeds twoPending = some (r, w') ∧
    StepTimesOut 0 1 twoPending w' ∧ storedState w' 0 = some .failed := by
  have hok : ((run answer (call (executeWorkflow limitedSteps)
      (twoPending.load false 0 (oneStepRow .pending))).program secondExceeds twoPending).any fun r =>
        Effect.executed 0 0 (some 1000) .returns ∈ r.2.log ∧
          Effect.executed 0 1 (some 1000) .exceedsTimeout ∈ r.2.log ∧
          storedState r.2 0 = some .failed) = true := by
    decide
  obtain ⟨⟨r, w'⟩, hrun, hok⟩ := (Option.any_eq_true _ _).mp hok
  obtain ⟨hfirst, hsecond, hstate⟩ := of_decide_eq_true hok
  refine ⟨r, w', hrun, ⟨w'.log, (List.append_nil _).symm, fun j hj => ?_, _, hsecond⟩, hstate⟩
  obtain rfl : j = 0 := by omega
  exact ⟨_, hfirst⟩

theorem timeout_leaves_failed_second :
    ∃ r w', run answer (call (executeWorkflow limitedSteps)
        (twoPending.load false 0 (oneStepRow .pending))).program secondExceeds twoPending = some (r, w') ∧
      storedState w' 0 = some .failed ∧ ¬ CompensatedBefore 0 1 twoPending w' := by
  obtain ⟨r, w', hrun, htimeout, -⟩ := twoPending_run
  obtain ⟨-, -, hnot, hfailed⟩ := timeout_leaves_failed hrun htimeout
  exact ⟨r, w', hrun, (hfailed (by decide)).2, hnot⟩

/-- The first step is completed and requires compensation, the second exceeds its timeout, and the
workflow is stored as failed. -/
theorem timeout_not_compensated :
    ¬ ∀ (definitions : Definitions) (w : World) (id : Nat) (row : Workflow) (k : Nat)
      (cs : List Outside) (r : Except Error Unit) (w' : World),
      w.workflows.lookup id = some row → row.state = .pending → (∀ c ∈ cs, c.rejects = none) →
      run answer (call (executeWorkflow definitions) (w.load false id row)).program cs w =
        some (r, w') →
      StepTimesOut id k w w' → CompensatedBefore id k w w' := by
  intro hclaim
  obtain ⟨r, w', hrun, htimeout, hstate⟩ := twoPending_run
  have hcompensated := (hclaim limitedSteps twoPending 0 (oneStepRow .pending) 1 secondExceeds r w' rfl
    rfl (by decide) hrun htimeout).workflow
  rw [hstate] at hcompensated
  cases hcompensated

end Stellara.WorkflowEngine
