import Stellara.Workflow.Model

/-!
# Stored states follow the tables

Every operation by itself follows `workflowTransitions` and `stepTransitions`, counted from the
state in which it read or last saved an entity, but for one save: `retryWorkflow` puts a failed
step back to `pending`.

    stored  =  seen   ⟶   state        a save that comes in time
    stored  ≠  seen   ⟶   state        a save over a change made in between

So the stored states follow the tables in every interleaving whose saves find the state that was
seen and reset no failed step (`state_conformance`).  A workflow cancelled while it runs is
completed all the same (`state_conformance_cancelled`).
-/

namespace Stellara.WorkflowEngine

open Block
open Async (Rules System Move keeping keeping_pre interleave interleave_keeps)

/-! ## What a request writes -/

def Request.workflowWrites : Request → List WorkflowEntity
  | .saveWorkflow workflow => [workflow]
  | _ => []

def Request.stepWrites : Request → List StepEntity
  | .saveWorkflow workflow => workflow.steps.getD []
  | .saveStep step => [step]
  | _ => []

/-- A failed step is put back to `pending`. -/
def StepEntity.Reset (step : StepEntity) : Prop := step.seen = .failed ∧ step.state = .pending

instance (step : StepEntity) : Decidable step.Reset :=
  inferInstanceAs (Decidable (step.seen = .failed ∧ step.state = .pending))

def WorkflowEntity.Follows (workflow : WorkflowEntity) : Prop :=
  workflow.state = workflow.seen ∨ canTransitionWorkflow workflow.seen workflow.state

def StepEntity.Follows (step : StepEntity) : Prop :=
  step.state = step.seen ∨ canTransitionStep step.seen step.state

def WorkflowEntity.StepsFollow (workflow : WorkflowEntity) : Prop :=
  ∀ step ∈ workflow.steps.getD [], step.Follows

/-- From the states that were seen, a save follows the tables or resets a failed step. -/
structure Conforms (a : Request) : Prop where
  workflow : ∀ x ∈ a.workflowWrites, x.Follows
  step : ∀ x ∈ a.stepWrites, x.Follows ∨ x.Reset

/-- A request that writes nothing. -/
theorem Conforms.silent {a : Request} (h : a.workflowWrites = []) (h' : a.stepWrites = []) :
    Conforms a := by
  constructor
  · rw [h]; exact fun _ hx => absurd hx List.not_mem_nil
  · rw [h']; exact fun _ hx => absurd hx List.not_mem_nil

/-- An entity as it was read. -/
def StepEntity.Read (step : StepEntity) : Prop := step.seen = step.state

def WorkflowEntity.StepsRead (workflow : WorkflowEntity) : Prop :=
  ∀ step ∈ workflow.steps.getD [], step.Read

structure WorkflowEntity.Read (workflow : WorkflowEntity) : Prop where
  state : workflow.seen = workflow.state
  steps : workflow.StepsRead

/-- What the answers to reads are. -/
def Loaded : (a : Request) → Answer a → Prop
  | .findWorkflow _ _, r => ∀ workflow, r = .ok (some workflow) → workflow.Read
  | .findRunningWorkflows, r =>
    ∀ workflows, r = .ok workflows → ∀ workflow ∈ workflows, workflow.Read ∧
      workflow.state = .running
  | .findSteps _, r => ∀ steps, r = .ok steps → ∀ step ∈ steps, step.Read
  | .findStuckSteps _, r =>
    ∀ pairs, r = .ok pairs → ∀ pair ∈ pairs, pair.1.Read ∧ pair.1.state = .running ∧ pair.2.Read
  | _, _ => True

theorem read_loadStep (id : Nat) (row : WorkflowStep) : (World.loadStep id row).Read := rfl

theorem read_stepsOf (w : World) (id : Nat) : ∀ step ∈ w.stepsOf id, step.Read := by
  intro step h
  obtain ⟨e, -, rfl⟩ := List.mem_map.mp h
  exact read_loadStep e.1 e.2

theorem read_load (w : World) (steps : Bool) (id : Nat) (row : Workflow) :
    (w.load steps id row).Read := by
  refine ⟨rfl, fun step h => ?_⟩
  cases steps with
  | true => exact read_stepsOf w id step h
  | false => cases h

theorem repository_ok {α : Type} {c : Outside} {w w' v : World} {x y : α}
    (h : repository c w x v = (.ok y, w')) : c.rejects = none ∧ y = x ∧ w' = v := by
  unfold repository at h
  split at h
  · cases h
  · next hrej => cases h; exact ⟨hrej, rfl, rfl⟩

theorem repository_clear {α : Type} {c : Outside} (hclear : c.rejects = none) {w v w' : World} {x : α}
    {r : Except Error α} (h : repository c w x v = (r, w')) : r = .ok x ∧ w' = v := by
  unfold repository at h
  rw [hclear] at h
  cases h
  exact ⟨rfl, rfl⟩

theorem unrejected_eq_some {α : Type} {c : Outside} {o : Option α} {x : α} :
    unrejected c o = some x ↔ c.rejects = none ∧ o = some x := by
  unfold unrejected
  split <;> simp_all

theorem answer_loaded {c : Outside} {w w' : World} {a : Request} {r : Answer a}
    (h : answer c w a = some (r, w')) : Loaded a r := by
  cases a with
  | findWorkflow id steps =>
    rintro workflow rfl
    obtain ⟨-, hx, -⟩ := repository_ok (Option.some.inj h)
    obtain ⟨row, -, rfl⟩ := Option.map_eq_some_iff.mp hx.symm
    exact read_load w steps id row
  | findRunningWorkflows =>
    rintro workflows rfl workflow hmem
    obtain ⟨-, rfl, -⟩ := repository_ok (Option.some.inj h)
    obtain ⟨e, he, rfl⟩ := List.mem_map.mp hmem
    exact ⟨read_load w true e.1 e.2, of_decide_eq_true (List.mem_filter.mp he).2⟩
  | findSteps id =>
    rintro steps rfl step hmem
    obtain ⟨-, rfl, -⟩ := repository_ok (Option.some.inj h)
    exact read_stepsOf w id step ((List.mem_insertionSort _).mp hmem)
  | findStuckSteps cutoffTime =>
    rintro pairs rfl pair hmem
    obtain ⟨-, rfl, -⟩ := repository_ok (Option.some.inj h)
    obtain ⟨e, he, hpair⟩ := List.mem_filterMap.mp hmem
    obtain ⟨workflow, -, rfl⟩ := Option.map_eq_some_iff.mp hpair
    have hrunning := (of_decide_eq_true (List.mem_filter.mp he).2).1
    exact ⟨read_loadStep e.1 e.2, hrunning, read_load w false _ workflow⟩
  | saveWorkflow _ | saveStep _ | execute _ _ _ _ | delay | now => trivial

/-! ## Every operation -/

/-- Requests that conform, relied-on answers that are as they were loaded. -/
abbrev conforming : Rules Request Answer Unit := keeping Conforms Loaded

/-- A block of an operation, of which nothing is asked in the end. -/
abbrev Safe {τ α : Type} (m : On τ α) (x : τ) : Prop :=
  wp conforming m (fun _ _ _ => True) (fun _ _ _ => True) x ()

section Operations

theorem Safe.mono {τ α : Type} {m : On τ α} {x : τ} {Q : α → τ → Unit → Prop}
    {E : Error → τ → Unit → Prop} (h : wp conforming m Q E x ()) : Safe m x :=
  wp_mono (fun _ _ _ _ => trivial) (fun _ _ _ _ => trivial) h

theorem mem_steps_map {steps : Option (List StepEntity)} {f : StepEntity → StepEntity}
    {step : StepEntity} (h : step ∈ (steps.map (·.map f)).getD []) :
    ∃ s ∈ steps.getD [], f s = step := by
  cases steps with
  | none => cases h
  | some l => exact List.mem_map.mp h

theorem saveStep_keeps {x : StepEntity} {Q : Unit → StepEntity → Unit → Prop}
    {E : Error → StepEntity → Unit → Prop} (hx : x.Follows ∨ x.Reset)
    (hQ : Q () { x with seen := x.state } ()) (hE : ∀ e, E e x ()) :
    wp conforming saveStep Q E x () := by
  simp only [saveStep, wp_bind, wp_get]
  refine ⟨⟨fun y hy => absurd hy List.not_mem_nil, fun y hy => ?_⟩, fun r _ => ?_⟩
  · rw [List.mem_singleton.mp hy]
    exact hx
  · cases r with
    | ok _ => exact hQ
    | error e => exact hE e

theorem saveWorkflow_keeps {x : WorkflowEntity} {Q : Unit → WorkflowEntity → Unit → Prop}
    {E : Error → WorkflowEntity → Unit → Prop} (hx : x.Follows)
    (hsteps : x.StepsFollow)
    (hQ : ∀ y : WorkflowEntity, y.Read → y.toWorkflow = x.toWorkflow → Q () y ())
    (hE : ∀ e, E e x ()) : wp conforming saveWorkflow Q E x () := by
  simp only [saveWorkflow, wp_bind, wp_get]
  refine ⟨⟨fun y hy => ?_, fun y hy => .inl (hsteps y hy)⟩, fun r _ => ?_⟩
  · rw [List.mem_singleton.mp hy]
    exact hx
  · cases r with
    | ok _ =>
      refine hQ _ ⟨rfl, fun step h => ?_⟩ rfl
      obtain ⟨s, -, rfl⟩ := mem_steps_map h
      rfl
    | error e => exact hE e

theorem setTimeout_keeps {τ : Type} {x : τ} {Q : Unit → τ → Unit → Prop}
    {E : Error → τ → Unit → Prop} (hQ : Q () x ()) : wp conforming setTimeout Q E x () :=
  ⟨.silent rfl rfl, fun _ _ => hQ⟩

theorem dateNow_keeps {τ : Type} {x : τ} {Q : Int → τ → Unit → Prop}
    {E : Error → τ → Unit → Prop} (hQ : ∀ now, Q now x ()) : wp conforming dateNow Q E x () :=
  ⟨.silent rfl rfl, fun now _ => hQ now⟩

theorem transitionStep_ok {s s' : StepState} {u : Unit} (h : transitionStep s s' = .ok u) :
    canTransitionStep s s' := by
  unfold transitionStep at h
  split at h
  · assumption
  · cases h

theorem transitionWorkflow_ok {s s' : WorkflowState} {u : Unit}
    (h : transitionWorkflow s s' = .ok u) : canTransitionWorkflow s s' := by
  unfold transitionWorkflow at h
  split at h
  · assumption
  · cases h

theorem StepEntity.Read.follows {x : StepEntity} (h : x.Read) : x.Follows := .inl h.symm

theorem WorkflowEntity.StepsRead.follow {x : WorkflowEntity} (h : x.StepsRead) : x.StepsFollow :=
  fun step hstep => (h step hstep).follows

/-- A block on one of the steps of a workflow, all of which have `F`. -/
theorem onStep_keeps {p : StepEntity → Bool} {m : On StepEntity Unit} {x : WorkflowEntity} {F : StepEntity → Prop}
    {Q : Unit → WorkflowEntity → Unit → Prop} {E : Error → WorkflowEntity → Unit → Prop}
    (hm : ∀ step ∈ x.steps.getD [], p step →
      wp conforming m (fun _ y _ => y.Read) (fun _ y _ => F y) step ())
    (hx : x.StepsRead) (hF : ∀ step ∈ x.steps.getD [], F step)
    (hQ : ∀ y : WorkflowEntity, y.toWorkflow = x.toWorkflow → y.seen = x.seen → y.StepsRead →
      Q () y ())
    (hE : ∀ e (y : WorkflowEntity), y.seen = x.seen → (∀ step ∈ y.steps.getD [], F step) →
      E e y ()) :
    wp conforming (onStep p m) Q E x () := by
  unfold onStep
  rw [wp_zoom]
  split
  · next step hfind =>
    have hput : ∀ {P : StepEntity → Prop} {y : StepEntity}, P y → (∀ s ∈ x.steps.getD [], P s) →
        ∀ s ∈ (x.steps.map (·.map fun s => if s.id = y.id then y else s)).getD [], P s := by
      intro P y hy hall s hs
      obtain ⟨s', hs', rfl⟩ := mem_steps_map hs
      split
      · exact hy
      · exact hall s' hs'
    have hstep := hm step (List.mem_of_find?_eq_some hfind) (List.find?_some hfind)
    refine wp_mono (fun _ y _ hy => ?_) (fun e y _ hy => ?_) hstep
    · exact hQ _ rfl rfl (hput hy hx)
    · exact hE e _ rfl (hput hy hF)
  · exact hQ x rfl rfl hx

/-- The compensation of a step leaves it as it was saved, or in a state it may be saved in. -/
theorem compensateStep_keeps {x : StepEntity} (hx : x.Read) :
    wp conforming compensateStep (fun _ y _ => y.Read) (fun _ y _ => y.Follows) x () := by
  simp only [compensateStep, wp_bind, wp_get]
  split
  · exact hx.follows
  · next hok =>
    have htrans := transitionStep_ok hok
    rw [← hx] at htrans
    simp only [wp_bind, wp_modify]
    refine saveStep_keeps (.inl (.inr htrans)) ?_ fun e => .inr htrans
    rw [wp_tryCatch, wp_bind]
    refine setTimeout_keeps ?_
    rw [wp_bind, wp_modify]
    -- the row is `compensating` now
    refine saveStep_keeps (.inl (.inr (show canTransitionStep .compensating .compensated by decide)))
      rfl fun e => ?_
    have hfailed : canTransitionStep .compensating .failed := by decide
    simp only [wp_bind, wp_modify]
    exact saveStep_keeps (.inl (.inr hfailed)) (.inl rfl) fun e => .inr hfailed

theorem compensateEach_keeps {ids : List Nat} {x : WorkflowEntity} (hx : x.StepsRead) :
    wp conforming (compensateEach ids)
      (fun _ y _ => y.toWorkflow = x.toWorkflow ∧ y.seen = x.seen ∧ y.StepsRead)
      (fun _ y _ => y.seen = x.seen ∧ y.StepsFollow) x () := by
  induction ids generalizing x with
  | nil => exact ⟨rfl, rfl, hx⟩
  | cons id ids ih =>
    simp only [compensateEach, wp_bind]
    refine onStep_keeps (fun step h _ => compensateStep_keeps (hx step h)) hx hx.follow ?_ ?_
    · intro y hrow hseen hy
      have := ih hy
      rwa [hrow, hseen] at this
    · exact fun e y hseen hy => ⟨hseen, hy⟩

theorem runCompensation_keeps {x : WorkflowEntity} (hx : x.Read)
    (hstart : canTransitionWorkflow x.state .compensating) : Safe runCompensation x := by
  have hfailed : canTransitionWorkflow .compensating .failed := by decide
  have hdone : canTransitionWorkflow .compensating .compensated := by decide
  rw [← hx.state] at hstart
  simp only [Safe, runCompensation, wp_bind, wp_modify]
  refine saveWorkflow_keeps (.inr hstart) hx.steps.follow ?_ fun _ => trivial
  intro y hy hrow
  have hseen : y.seen = .compensating := hy.state.trans (congrArg Workflow.state hrow)
  -- whatever is thrown, the row is still `compensating`
  have hcatch : ∀ z : WorkflowEntity, z.seen = .compensating → z.StepsFollow → ∀ error : Error,
      wp conforming (do
        modify fun workflow => { workflow with state := .failed }
        saveWorkflow
        throw error : On WorkflowEntity Unit) (fun _ _ _ => True) (fun _ _ _ => True) z () := by
    intro z hz hsteps error
    simp only [wp_bind, wp_modify]
    refine saveWorkflow_keeps (.inr ?_) hsteps (fun _ _ _ => trivial) fun _ => trivial
    show canTransitionWorkflow z.seen .failed
    rwa [hz]
  rw [wp_tryCatch, wp_bind, wp_get, wp_bind]
  refine wp_mono ?_ (fun e z _ h => hcatch z (h.1.trans hseen) h.2 e) (compensateEach_keeps hy.steps)
  rintro - z - ⟨-, hz, hsteps⟩
  simp only [wp_bind, wp_modify]
  have hzseen := hz.trans hseen
  refine saveWorkflow_keeps (.inr ?_) hsteps.follow (fun _ _ _ => trivial) fun e => ?_
  · show canTransitionWorkflow z.seen .compensated
    rwa [hzseen]
  · refine hcatch _ ?_ ?_ e
    · exact hzseen
    · exact hsteps.follow

theorem findWorkflow_keeps {id : Nat} {steps : Bool} {Q : WorkflowEntity → Unit → Unit → Prop}
    (hQ : ∀ workflow : WorkflowEntity, workflow.Read → Q workflow () ()) :
    wp conforming (findWorkflow id steps) Q (fun _ _ _ => True) () () := by
  simp only [findWorkflow, wp_bind]
  refine ⟨.silent rfl rfl, ?_⟩
  rintro (e | _ | workflow) hr
  · trivial
  · trivial
  · exact hQ workflow (hr workflow rfl)

theorem compensateWorkflow_keeps {id : Nat} : Safe (compensateWorkflow id) () := by
  simp only [Safe, compensateWorkflow, wp_bind]
  refine findWorkflow_keeps fun workflow hworkflow => ?_
  split
  · trivial
  · split
    · trivial
    · next hok =>
      rw [wp_call]
      exact runCompensation_keeps hworkflow (transitionWorkflow_ok hok)

theorem attemptStep_keeps {id : Nat} {definition : Option StepDefinition} {timeout : Option Int}
    {retry : On StepEntity Unit} {x : StepEntity} (hx : x.Read)
    (hretry : ∀ y : StepEntity, y.Read → Safe retry y) :
    Safe (attemptStep id definition timeout retry) x := by
  have hcompleted : canTransitionStep .running .completed := by decide
  have hfailed : canTransitionStep .running .failed := by decide
  simp only [Safe, attemptStep, wp_bind, wp_get]
  split
  · trivial
  next hok =>
  have hstart := transitionStep_ok hok
  rw [← hx] at hstart
  simp only [wp_bind, wp_modify]
  refine saveStep_keeps (.inl (.inr hstart)) ?_ fun _ => trivial
  -- whatever is thrown, the row is still `running`
  rw [wp_tryCatch]
  refine wp_mono (fun _ _ _ _ => trivial) ?_ (?_ : wp conforming _ (fun _ _ _ => True)
    (fun _ y _ => y.seen = .running) _ ())
  · rintro (message | message) y - hy
    · have hy' : canTransitionStep y.seen .failed := by rw [hy]; exact hfailed
      simp only [wp_bind, wp_modify, wp_get]
      split
      · rw [wp_bind]
        refine saveStep_keeps (.inl (.inr hy')) ?_ fun _ => trivial
        rw [wp_bind]
        exact setTimeout_keeps (hretry _ rfl)
      · rw [wp_bind]
        exact saveStep_keeps (.inl (.inr hy')) trivial fun _ => trivial
    · have hy' : canTransitionStep y.seen .failed := by rw [hy]; exact hfailed
      simp only [wp_bind, wp_modify]
      refine saveStep_keeps (.inl (.inr hy')) ?_ fun _ => trivial
      simp only [wp_bind, wp_call]
      exact Safe.mono compensateWorkflow_keeps
  · -- the step is executed, whether or not it was saved with a key before
    have hrun : ∀ (timeoutMs : Option Int) (y : StepEntity), y.seen = .running →
        wp conforming (do
            request (.execute id x.stepIndex x.stepName timeoutMs) fun r => r
            modify fun step => { step with state := .completed }
            saveStep : On StepEntity Unit)
          (fun _ _ _ => True) (fun _ y _ => y.seen = .running) y () := by
      intro timeoutMs y hy
      rw [wp_bind]
      refine ⟨.silent rfl rfl, fun r _ => ?_⟩
      cases r with
      | error e => exact hy
      | ok _ =>
        show wp conforming _ _ _ y ()
        rw [wp_bind, wp_modify]
        refine saveStep_keeps (.inl (.inr ?_)) trivial fun _ => hy
        show canTransitionStep y.seen .completed
        rw [hy]
        exact hcompleted
    cases stepTimeout definition timeout with
    | error e =>
      dsimp only
      split
      · rw [wp_bind]
        exact saveStep_keeps (.inl (.inl rfl)) rfl fun _ => rfl
      · exact rfl
    | ok timeoutMs =>
      dsimp only
      split
      · rw [wp_bind]
        exact saveStep_keeps (.inl (.inl rfl)) (hrun timeoutMs _ rfl) fun _ => rfl
      · exact hrun timeoutMs _ rfl

theorem executeAttempts_keeps {id : Nat} {definition : Option StepDefinition} {attempts : Nat}
    {timeout : Option Int} {x : StepEntity} (hx : x.Read) :
    Safe (executeAttempts id definition attempts timeout) x := by
  induction attempts generalizing timeout x with
  | zero => exact attemptStep_keeps hx fun _ _ => trivial
  | succ attempts ih => exact attemptStep_keeps hx fun _ hy => ih hy

theorem executeEach_keeps {definition : WorkflowDefinition} {steps : List StepEntity}
    {x : WorkflowEntity} (hx : x.Read) (hsteps : ∀ step ∈ steps, step.Read)
    (hrunning : x.state = .running) :
    wp conforming (executeEach definition steps)
      (fun _ y _ => y.Read ∧ y.state = .running)
      (fun _ y _ => y.seen = .running ∧ y.StepsFollow) x () := by
  induction steps generalizing x with
  | nil => exact ⟨hx, hrunning⟩
  | cons step steps ih =>
    rw [List.forall_mem_cons] at hsteps
    have hthrow : x.seen = .running ∧ x.StepsFollow :=
      ⟨hx.state.trans hrunning, hx.steps.follow⟩
    simp only [executeEach, wp_bind, wp_modify]
    refine saveWorkflow_keeps (.inl hx.state.symm) hx.steps.follow ?_ fun _ => hthrow
    intro y hy hrow
    have hyrunning : y.state = .running := (congrArg Workflow.state hrow).trans hrunning
    rw [wp_bind, wp_get, wp_bind, wp_call]
    refine wp_mono (fun _ _ _ _ => ih hy hsteps.2 hyrunning) (fun _ _ _ _ => ?_)
      (executeAttempts_keeps hsteps.1)
    exact ⟨hy.state.trans hyrunning, hy.steps.follow⟩

theorem executeWorkflow_keeps {definitions : Definitions} {x : WorkflowEntity} (hx : x.Read) :
    Safe (executeWorkflow definitions) x := by
  have hcompleted : canTransitionWorkflow .running .completed := by decide
  have hfailed : canTransitionWorkflow .running .failed := by decide
  simp only [Safe, executeWorkflow, wp_bind, wp_get]
  split
  · trivial
  split
  · trivial
  next definition _ _ hok =>
  have hstart := transitionWorkflow_ok hok
  rw [← hx.state] at hstart
  simp only [wp_bind, wp_modify]
  refine saveWorkflow_keeps (.inr hstart) hx.steps.follow ?_ fun _ => trivial
  intro y hy hrow
  have hrunning : y.state = .running := congrArg Workflow.state hrow
  -- whatever is thrown, the row is still `running`
  rw [wp_tryCatch]
  refine wp_mono (fun _ _ _ _ => trivial) ?_ (?_ : wp conforming _ (fun _ _ _ => True)
    (fun _ z _ => z.seen = .running ∧ z.StepsFollow) y ())
  · rintro (message | message) z - ⟨hz, hsteps⟩
    · simp only [wp_bind, wp_modify]
      refine saveWorkflow_keeps (.inr ?_) hsteps (fun _ _ _ => trivial) fun _ => trivial
      show canTransitionWorkflow z.seen .failed
      rw [hz]
      exact hfailed
    · trivial
  · have hthrow : y.seen = .running ∧ y.StepsFollow :=
      ⟨hy.state.trans hrunning, hy.steps.follow⟩
    simp only [wp_bind, executeSteps, wp_get]
    refine ⟨.silent rfl rfl, fun r hr => ?_⟩
    cases r with
    | error e => exact hthrow
    | ok steps =>
      refine wp_mono ?_ (fun _ _ _ h => h) (executeEach_keeps hy (hr steps rfl) hrunning)
      rintro - z - ⟨hz, hzrunning⟩
      have hzseen := hz.state.trans hzrunning
      rw [wp_bind, wp_modify]
      refine saveWorkflow_keeps (.inr ?_) hz.steps.follow (fun _ _ _ => trivial) fun _ => ?_
      · show canTransitionWorkflow z.seen .completed
        rw [hzseen]
        exact hcompleted
      · exact ⟨hzseen, hz.steps.follow⟩

theorem cancelWorkflow_keeps {id : Nat} : Safe (cancelWorkflow id) () := by
  simp only [Safe, cancelWorkflow, wp_bind]
  refine findWorkflow_keeps fun workflow hworkflow => ?_
  split
  · trivial
  next hok =>
  have hcancel := transitionWorkflow_ok hok
  rw [← hworkflow.state] at hcancel
  simp only [wp_call, wp_bind, wp_modify]
  exact saveWorkflow_keeps (.inr hcancel) hworkflow.steps.follow (fun _ _ _ => trivial)
    fun _ => trivial

/-- The one save of an operation that is in no table: the failed step is reset. -/
theorem retryWorkflow_keeps {definitions : Definitions} {id : Nat} :
    Safe (retryWorkflow definitions id) () := by
  have hrestart : canTransitionWorkflow .failed .running := by decide
  simp only [Safe, retryWorkflow, wp_bind]
  refine findWorkflow_keeps fun workflow hworkflow => ?_
  split
  · trivial
  next hrecoverable =>
  have hstate : workflow.state = .failed := not_not.mp hrecoverable
  simp only [wp_call, wp_bind, wp_modify]
  refine saveWorkflow_keeps (.inr ?_) hworkflow.steps.follow ?_ fun _ => trivial
  · show canTransitionWorkflow workflow.seen .running
    rw [hworkflow.state, hstate]
    exact hrestart
  intro y hy _
  rw [wp_bind]
  refine onStep_keeps ?_ hy.steps (fun _ _ => trivial) ?_ fun _ _ _ _ => trivial
  · intro step hstep hfailed
    have hreset : step.seen = .failed := (hy.steps step hstep).trans (of_decide_eq_true hfailed)
    rw [wp_bind, wp_modify]
    exact saveStep_keeps (.inr ⟨hreset, rfl⟩) rfl fun _ => trivial
  · intro z hrow hseen hz
    refine executeWorkflow_keeps ⟨?_, hz⟩
    rw [hseen, hrow]
    exact hy.state

theorem recoverWorkflow_keeps {definitions : Definitions} {x : WorkflowEntity} (hx : x.Read)
    (hrunning : x.state = .running) : Safe (recoverWorkflow definitions) x := by
  have hfailed : canTransitionWorkflow .running .failed := by decide
  simp only [Safe, recoverWorkflow, wp_bind]
  refine dateNow_keeps fun now => ?_
  rw [wp_bind, wp_get]
  split
  · trivial
  split
  · rw [wp_bind, wp_modify]
    refine saveWorkflow_keeps (.inr ?_) hx.steps.follow (fun _ _ _ => trivial) fun _ => trivial
    show canTransitionWorkflow x.seen .failed
    rw [hx.state, hrunning]
    exact hfailed
  split <;>
  · rw [wp_bind, wp_modify]
    exact executeWorkflow_keeps ⟨hx.state, hx.steps⟩

theorem recoverEach_keeps {definitions : Definitions} {workflows : List WorkflowEntity}
    (h : ∀ workflow ∈ workflows, workflow.Read ∧ workflow.state = .running) :
    Safe (recoverEach definitions workflows) () := by
  induction workflows with
  | nil => trivial
  | cons workflow rest ih =>
    rw [List.forall_mem_cons] at h
    simp only [Safe, recoverEach, wp_bind, wp_tryCatch, wp_call]
    exact wp_mono (fun _ _ _ _ => ih h.2) (fun _ _ _ _ => ih h.2)
      (recoverWorkflow_keeps h.1.1 h.1.2)

theorem recoverOrphanedWorkflows_keeps {definitions : Definitions} :
    Safe (recoverOrphanedWorkflows definitions) () := by
  simp only [Safe, recoverOrphanedWorkflows, wp_bind]
  refine ⟨.silent rfl rfl, fun r hr => ?_⟩
  cases r with
  | error e => trivial
  | ok workflows => exact recoverEach_keeps (hr workflows rfl)

theorem recoverStuckStep_keeps {step : StepEntity} {workflow : WorkflowEntity} (hstep : step.Read)
    (hrunning : step.state = .running) (hworkflow : workflow.Read) :
    Safe (recoverStuckStep step workflow) () := by
  have hfailed : canTransitionStep .running .failed := by decide
  have hworkflowFailed : canTransitionWorkflow .running .failed := by decide
  -- the step is saved as failed in the end
  have hsave : ∀ y : StepEntity, y.seen = step.seen → y.state = .failed → ∀ u : Unit,
      wp conforming (call saveStep y : On Unit Unit) (fun _ _ _ => True) (fun _ _ _ => True) u () := by
    intro y hseen hstate u
    rw [wp_call]
    refine saveStep_keeps (.inl (.inr ?_)) trivial fun _ => trivial
    rw [hseen, hstep, hrunning, hstate]
    exact hfailed
  unfold Safe recoverStuckStep
  split
  · trivial
  next hne =>
  have hseen : workflow.seen = .running := hworkflow.state.trans (not_not.mp hne)
  dsimp only
  split
  · exact hsave { step with state := .failed, retryCount := step.retryCount + 1 } rfl rfl ()
  · simp only [wp_bind, wp_call, wp_modify]
    refine saveWorkflow_keeps (.inr ?_) hworkflow.steps.follow (fun _ _ _ => ?_) fun _ => trivial
    · show canTransitionWorkflow workflow.seen .failed
      rw [hseen]
      exact hworkflowFailed
    · exact hsave { step with state := .failed, retryCount := step.retryCount + 1 } rfl rfl ()

theorem recoverStuckEach_keeps {pairs : List (StepEntity × WorkflowEntity)}
    (h : ∀ pair ∈ pairs, pair.1.Read ∧ pair.1.state = .running ∧ pair.2.Read) :
    Safe (recoverStuckEach pairs) () := by
  induction pairs with
  | nil => trivial
  | cons pair rest ih =>
    rw [List.forall_mem_cons] at h
    simp only [Safe, recoverStuckEach, wp_bind, wp_tryCatch]
    exact wp_mono (fun _ _ _ _ => ih h.2) (fun _ _ _ _ => ih h.2)
      (recoverStuckStep_keeps h.1.1 h.1.2.1 h.1.2.2)

theorem recoverStuckSteps_keeps : Safe recoverStuckSteps () := by
  simp only [Safe, recoverStuckSteps, wp_bind]
  refine dateNow_keeps fun now => ⟨.silent rfl rfl, fun r hr => ?_⟩
  cases r with
  | error e => trivial
  | ok pairs => exact recoverStuckEach_keeps (hr pairs rfl)

end Operations

/-! ## Interleavings -/

/-- What can be started on the workflows.  The executor is given an entity that was read; the
recoveries at startup, on schedule and by hand run the last two one after the other. -/
inductive Operation
  | executeWorkflow (workflow : WorkflowEntity)
  | cancelWorkflow (workflowId : Nat)
  | retryWorkflow (workflowId : Nat)
  | compensateWorkflow (workflowId : Nat)
  | recoverOrphanedWorkflows
  | recoverStuckSteps

def Operation.program (definitions : Definitions) :
    Operation → Async Request Answer (Except Error Unit)
  | .executeWorkflow workflow => Block.program (call (WorkflowEngine.executeWorkflow definitions) workflow)
  | .cancelWorkflow id => Block.program (WorkflowEngine.cancelWorkflow id)
  | .retryWorkflow id => Block.program (WorkflowEngine.retryWorkflow definitions id)
  | .compensateWorkflow id => Block.program (WorkflowEngine.compensateWorkflow id)
  | .recoverOrphanedWorkflows => Block.program (WorkflowEngine.recoverOrphanedWorkflows definitions)
  | .recoverStuckSteps => Block.program WorkflowEngine.recoverStuckSteps

def Operation.Valid : Operation → Prop
  | .executeWorkflow workflow => workflow.Read
  | _ => True

instance (workflow : WorkflowEntity) : Decidable workflow.Read :=
  decidable_of_iff (workflow.seen = workflow.state ∧
      ∀ step ∈ workflow.steps.getD [], step.seen = step.state)
    ⟨fun h => ⟨h.1, h.2⟩, fun h => ⟨h.state, h.steps⟩⟩

instance : DecidablePred Operation.Valid := fun op => by
  cases op <;> unfold Operation.Valid <;> infer_instance

/-- Any number of operations on the same tables, whatever is stored there. -/
abbrev machine (definitions : Definitions) :=
  interleave (Operation.program definitions) Operation.Valid answer fun _ => True

theorem valid_of_starts {definitions : Definitions} {calls : List (Outside × Move Operation)}
    (h : ∀ c ∈ calls, c.2.Starts Operation.Valid) :
    ∀ c ∈ calls, (machine definitions).valid c.1 c.2 := h

abbrev Trace : Type :=
  List (Event Outside (Move Operation) Unit (System Request Answer (Except Error Unit) World))

theorem program_keeps (definitions : Definitions) (op : Operation) (h : op.Valid) :
    Async.wp conforming (op.program definitions) (fun _ _ => True) () := by
  cases op with
  | executeWorkflow workflow => exact wp_program.mpr (wp_call.mpr (executeWorkflow_keeps h))
  | cancelWorkflow id => exact wp_program.mpr cancelWorkflow_keeps
  | retryWorkflow id => exact wp_program.mpr retryWorkflow_keeps
  | compensateWorkflow id => exact wp_program.mpr compensateWorkflow_keeps
  | recoverOrphanedWorkflows => exact wp_program.mpr recoverOrphanedWorkflows_keeps
  | recoverStuckSteps => exact wp_program.mpr recoverStuckSteps_keeps

/-! ### What a request does to the tables -/

/-- A row keeps its state, or gets that of an entity that was written. -/
structure Writes (a : Request) (w w' : World) : Prop where
  workflow : ∀ id row, w.workflows.lookup id = some row → ∃ row', w'.workflows.lookup id = some row' ∧
    (row'.state = row.state ∨ ∃ x ∈ a.workflowWrites, x.id = id ∧ row'.state = x.state)
  step : ∀ id row, w.steps.lookup id = some row → ∃ row', w'.steps.lookup id = some row' ∧
    (row'.state = row.state ∨ ∃ x ∈ a.stepWrites, x.id = id ∧ row'.state = x.state)

theorem Writes.same {a : Request} {w w' : World} (h : w'.workflows = w.workflows)
    (h' : w'.steps = w.steps) : Writes a w w' :=
  ⟨fun _ row hrow => ⟨row, h ▸ hrow, .inl rfl⟩, fun _ row hrow => ⟨row, h' ▸ hrow, .inl rfl⟩⟩

theorem foldl_putStep_workflows (now : Int) (steps : List StepEntity) (w : World) :
    (steps.foldl (World.putStep now) w).workflows = w.workflows := by
  induction steps generalizing w with
  | nil => rfl
  | cons step steps ih => exact ih _

theorem foldl_putStep_log (now : Int) (steps : List StepEntity) (w : World) :
    (steps.foldl (World.putStep now) w).log = w.log := by
  induction steps generalizing w with
  | nil => rfl
  | cons step steps ih => exact ih _

theorem foldl_putStep_steps (now : Int) (steps : List StepEntity) (w : World) (id : Nat)
    (row : WorkflowStep) (h : w.steps.lookup id = some row) :
    ∃ row', (steps.foldl (World.putStep now) w).steps.lookup id = some row' ∧
      (row'.state = row.state ∨ ∃ x ∈ steps, x.id = id ∧ row'.state = x.state) := by
  induction steps generalizing w row with
  | nil => exact ⟨row, h, .inl rfl⟩
  | cons step steps ih =>
    have hput : ∃ row₁, (w.putStep now step).steps.lookup id = some row₁ ∧
        (row₁.state = row.state ∨ step.id = id ∧ row₁.state = step.state) := by
      unfold World.putStep
      rw [Store.lookup_insert_eq]
      split
      · next heq => exact ⟨_, rfl, .inr ⟨heq.symm, rfl⟩⟩
      · exact ⟨row, h, .inl rfl⟩
    obtain ⟨row₁, h₁, hstate⟩ := hput
    obtain ⟨row', h', hlast⟩ := ih _ row₁ h₁
    refine ⟨row', h', ?_⟩
    rcases hlast with hlast | ⟨x, hx, hid, hlast⟩
    · rcases hstate with hstate | ⟨hid, hstate⟩
      · exact .inl (hlast.trans hstate)
      · exact .inr ⟨step, List.mem_cons_self, hid, hlast.trans hstate⟩
    · exact .inr ⟨x, List.mem_cons_of_mem _ hx, hid, hlast⟩

theorem writes_putStep (now : Int) (w : World) (step : StepEntity) (log : List Effect) :
    Writes (.saveStep step) w { w.putStep now step with log := log } :=
  ⟨fun _ row h => ⟨row, h, .inl rfl⟩, foldl_putStep_steps now [step] w⟩

theorem writes_putWorkflow (now : Int) (w : World) (workflow : WorkflowEntity) :
    Writes (.saveWorkflow workflow) w (w.putWorkflow now workflow) := by
  constructor
  · intro id row h
    unfold World.putWorkflow
    rw [foldl_putStep_workflows, Store.lookup_insert_eq]
    split
    · next heq => exact ⟨_, rfl, .inr ⟨workflow, List.mem_singleton_self _, heq.symm, rfl⟩⟩
    · exact ⟨row, h, .inl rfl⟩
  · intro id row h
    exact foldl_putStep_steps now _ _ id row h

def storedState (w : World) (id : Nat) : Option WorkflowState :=
  (w.workflows.lookup id).map Workflow.state

theorem storedState_congr {w w' : World} {id : Nat} (h : w'.workflows = w.workflows) :
    storedState w' id = storedState w id := by
  unfold storedState
  rw [h]

theorem log_putWorkflow (now : Int) (w : World) (x : WorkflowEntity) :
    (w.putWorkflow now x).log = w.log := foldl_putStep_log now _ _

theorem storedState_putWorkflow (now : Int) (w : World) (x : WorkflowEntity) (id : Nat) :
    storedState (w.putWorkflow now x) id = if id = x.id then some x.state else storedState w id := by
  unfold storedState World.putWorkflow
  rw [foldl_putStep_workflows, Store.lookup_insert_eq]
  split <;> rfl

theorem repository_world {α : Type} {c : Outside} {w v w' : World} {x : α} {r : Except Error α}
    (h : repository c w x v = (r, w')) : w' = w ∨ c.rejects = none ∧ w' = v := by
  unfold repository at h
  split at h
  · cases h; exact .inl rfl
  · next hrej => cases h; exact .inr ⟨hrej, rfl⟩

/-- A request that the repository rejects writes nothing. -/
theorem answer_writes {c : Outside} {w w' : World} {a : Request} {r : Answer a}
    (h : answer c w a = some (r, w')) :
    Writes a w w' ∧ (c.rejects = none ∨ w'.workflows = w.workflows ∧ w'.steps = w.steps) := by
  cases a with
  | findWorkflow _ _ | findRunningWorkflows | findSteps _ | findStuckSteps _ =>
    have hw : w' = w := (repository_world (Option.some.inj h)).elim id And.right
    subst hw
    exact ⟨.same rfl rfl, .inr ⟨rfl, rfl⟩⟩
  | saveWorkflow workflow =>
    rcases repository_world (Option.some.inj h) with rfl | ⟨hrej, rfl⟩
    · exact ⟨.same rfl rfl, .inr ⟨rfl, rfl⟩⟩
    · exact ⟨writes_putWorkflow _ _ _, .inl hrej⟩
  | saveStep step =>
    rcases repository_world (Option.some.inj h) with rfl | ⟨hrej, rfl⟩
    · exact ⟨.same rfl rfl, .inr ⟨rfl, rfl⟩⟩
    · exact ⟨writes_putStep _ _ _ _, .inl hrej⟩
  | execute id stepIndex stepName timeoutMs =>
    have hw : w'.workflows = w.workflows ∧ w'.steps = w.steps := by
      have h := (unrejected_eq_some.mp h).2
      split at h
      · cases h; exact ⟨rfl, rfl⟩
      · cases h; exact ⟨rfl, rfl⟩
      · split at h
        · split at h
          · cases h; exact ⟨rfl, rfl⟩
          · cases h
        · cases h
    exact ⟨.same hw.1 hw.2, .inr hw⟩
  | delay | now =>
    cases (unrejected_eq_some.mp h).2
    exact ⟨.same rfl rfl, .inr ⟨rfl, rfl⟩⟩

/-! ### Runs -/

/-- Every stored state is kept or changed as its table allows. -/
structure StatesFollow (w w' : World) : Prop where
  workflow : ∀ id row, w.workflows.lookup id = some row → ∃ row', w'.workflows.lookup id = some row' ∧
    (row'.state = row.state ∨ canTransitionWorkflow row.state row'.state)
  step : ∀ id row, w.steps.lookup id = some row → ∃ row', w'.steps.lookup id = some row' ∧
    (row'.state = row.state ∨ canTransitionStep row.state row'.state)

/-- No row that a save changes has another state than the one that was seen, and no failed step
is reset. -/
structure InTime (w : World) (a : Request) : Prop where
  workflow : ∀ x ∈ a.workflowWrites, ∀ row, w.workflows.lookup x.id = some row →
    row.state = x.state ∨ row.state = x.seen
  step : ∀ x ∈ a.stepWrites, ∀ row, w.steps.lookup x.id = some row →
    row.state = x.state ∨ row.state = x.seen ∧ ¬ x.Reset

instance (w : World) (a : Request) : Decidable (InTime w a) :=
  decidable_of_iff ((∀ x ∈ a.workflowWrites, ∀ row, w.workflows.lookup x.id = some row →
      row.state = x.state ∨ row.state = x.seen) ∧
    ∀ x ∈ a.stepWrites, ∀ row, w.steps.lookup x.id = some row →
      row.state = x.state ∨ row.state = x.seen ∧ ¬ x.Reset)
    ⟨fun h => ⟨h.1, h.2⟩, fun h => ⟨h.workflow, h.step⟩⟩

/-- Unless the repository rejects it, the request answered in this step is in time. -/
def SavesInTime (e : Event Outside (Move Operation) Unit
    (System Request Answer (Except Error Unit) World)) : Prop :=
  match e.call with
  | .start _ => True
  | .resume i => ∀ a, e.before.awaited i = some a → e.env.rejects = none → InTime e.before.world a

instance : DecidablePred SavesInTime := fun e => by
  unfold SavesInTime
  split <;> infer_instance

/-- One answer. -/
theorem statesFollow_of_writes {a : Request} {w w' : World} (ha : Conforms a) (ht : InTime w a)
    (h : Writes a w w') : StatesFollow w w' := by
  constructor
  · intro id row hrow
    obtain ⟨row', hrow', hstate⟩ := h.workflow id row hrow
    refine ⟨row', hrow', ?_⟩
    rcases hstate with hstate | ⟨x, hx, rfl, hstate⟩
    · exact .inl hstate
    · rcases ht.workflow x hx row hrow with hsame | hseen
      · exact .inl (hstate.trans hsame.symm)
      · rw [hstate, hseen]
        exact ha.workflow x hx
  · intro id row hrow
    obtain ⟨row', hrow', hstate⟩ := h.step id row hrow
    refine ⟨row', hrow', ?_⟩
    rcases hstate with hstate | ⟨x, hx, rfl, hstate⟩
    · exact .inl hstate
    · rcases ht.step x hx row hrow with hsame | ⟨hseen, hreset⟩
      · exact .inl (hstate.trans hsame.symm)
      · rw [hstate, hseen]
        exact (ha.step x hx).resolve_right hreset

theorem StatesFollow.same {w w' : World} (h : w'.workflows = w.workflows)
    (h' : w'.steps = w.steps) : StatesFollow w w' :=
  ⟨fun _ row hrow => ⟨row, h ▸ hrow, .inl rfl⟩, fun _ row hrow => ⟨row, h' ▸ hrow, .inl rfl⟩⟩

/-- A cancelled or compensated workflow does not become running, completed or failed. -/
theorem StatesFollow.final {w w' : World} (h : StatesFollow w w') {id : Nat} {row : Workflow}
    (hrow : w.workflows.lookup id = some row)
    (hstate : row.state = .cancelled ∨ row.state = .compensated) :
    ∃ row', w'.workflows.lookup id = some row' ∧
      row'.state ≠ .running ∧ row'.state ≠ .completed ∧ row'.state ≠ .failed := by
  obtain ⟨row', hrow', hnext⟩ := h.workflow id row hrow
  refine ⟨row', hrow', ?_⟩
  unfold canTransitionWorkflow at hnext
  rcases hstate with hstate | hstate <;> rw [hstate] at hnext <;> rcases hnext with hnext | hnext
  · rw [hnext]; decide
  · rw [List.mem_singleton.mp hnext]; decide
  · rw [hnext]; decide
  · cases hnext

/-- **Stored states follow the tables**, in every interleaving of the operations in which every
save is in time: no save changes a row that has another state than the saving operation saw, and
none puts a failed step back to `pending`. -/
theorem state_conformance {definitions : Definitions} {tr : Trace}
    {t : System Request Answer (Except Error Unit) World}
    (h : Run (machine definitions) tr t) (htime : ∀ e ∈ tr, SavesInTime e) :
    ∀ e ∈ tr, StatesFollow e.before.world e.after.world ∧
      ∀ id row, e.before.world.workflows.lookup id = some row →
        row.state = .cancelled ∨ row.state = .compensated →
        ∃ row', e.after.world.workflows.lookup id = some row' ∧
          row'.state ≠ .running ∧ row'.state ≠ .completed ∧ row'.state ≠ .failed := by
  intro e he
  suffices hfollow : StatesFollow e.before.world e.after.world from
    ⟨hfollow, fun _ _ hrow hstate => hfollow.final hrow hstate⟩
  cases hcall : e.call with
  | start op =>
    obtain ⟨-, -, -, hx⟩ := h.of_mem he
    rw [hcall] at hx
    rw [Async.exec_start hx]
    exact .same rfl rfl
  | resume i =>
    obtain ⟨a, r, hawait, ha, hr⟩ := interleave_keeps (program_keeps definitions)
      (fun _ _ _ _ _ hx => answer_loaded hx) h e he i hcall
    obtain ⟨hwrites, hrejects | ⟨hworkflows, hsteps⟩⟩ := answer_writes hr
    · have hin := htime e he
      simp only [SavesInTime, hcall] at hin
      exact statesFollow_of_writes ha (hin a hawait hrejects) hwrites
    · exact .same hworkflows hsteps

/-! ### A workflow of one step -/

def oneStep : Definitions := fun _ => some { steps := [⟨none⟩], timeout := none }

def oneStepRow (state : WorkflowState) : Workflow :=
  { type := "reward_grant", state, currentStepIndex := 0, retryCount := 0
    requiresCompensation := false, isCompensated := false, updatedAt := 0 }

def grantRow (state : StepState) : WorkflowStep :=
  { workflowId := 0, stepName := "grant", stepIndex := 0, state, retryCount := 0
    maxRetries := 3, requiresCompensation := false, isCompensated := false, isIdempotent := false
    updatedAt := 0 }

def oneStepWorld (state : WorkflowState) (step : StepState) : World :=
  { workflows := (∅ : Store Nat Workflow).insert 0 (oneStepRow state)
    steps := (∅ : Store Nat WorkflowStep).insert 0 (grantRow step), log := [] }

/-- The execution of the pending workflow, with the entity that was just saved. -/
def grantOperation : Operation :=
  .executeWorkflow ((oneStepWorld .pending .pending).load false 0 (oneStepRow .pending))

/-- The repository answers, and the step returns. -/
def undisturbed : Outside := { now := 0, rejects := none, result := .returns }

def uninterrupted : List (Outside × Move Operation) :=
  (undisturbed, .start grantOperation) :: List.replicate 7 (undisturbed, .resume 0)

/-- The workflow is cancelled while its step runs. -/
def cancelledMidway : List (Outside × Move Operation) :=
  (undisturbed, .start grantOperation) :: List.replicate 4 (undisturbed, .resume 0) ++
    (undisturbed, .start (.cancelWorkflow 0)) :: List.replicate 2 (undisturbed, .resume 1) ++
    List.replicate 3 (undisturbed, .resume 0)

theorem state_conformance_uninterrupted :
    ∃ (tr : Trace) (t : System Request Answer (Except Error Unit) World),
      Run (machine oneStep) tr t ∧ storedState t.world 0 = some .completed ∧
        ∀ e ∈ tr, StatesFollow e.before.world e.after.world ∧
          ∀ id row, e.before.world.workflows.lookup id = some row →
            row.state = .cancelled ∨ row.state = .compensated →
            ∃ row', e.after.world.workflows.lookup id = some row' ∧
              row'.state ≠ .running ∧ row'.state ≠ .completed ∧ row'.state ≠ .failed := by
  obtain ⟨tr, t, hrun, hok⟩ := Machine.exists_run_of_replay (m := machine oneStep)
    (s := ⟨oneStepWorld .pending .pending, []⟩) ⟨trivial, rfl⟩ uninterrupted
    (fun tr t => decide (storedState t.world 0 = some .completed ∧ ∀ e ∈ tr, SavesInTime e))
    (valid_of_starts (by decide)) (by decide) (by decide)
  obtain ⟨hstate, htime⟩ := of_decide_eq_true hok
  exact ⟨tr, t, hrun, hstate, state_conformance hrun htime⟩

/-- A cancelled workflow is completed. -/
theorem state_conformance_cancelled :
    ¬ ∀ (definitions : Definitions) (tr : Trace)
      (t : System Request Answer (Except Error Unit) World), Run (machine definitions) tr t →
        ∀ e ∈ tr, StatesFollow e.before.world e.after.world := by
  intro hall
  obtain ⟨tr, t, hrun, hok⟩ := Machine.exists_run_of_replay (m := machine oneStep)
    (s := ⟨oneStepWorld .pending .pending, []⟩) ⟨trivial, rfl⟩ cancelledMidway
    (fun tr _ => tr.any fun e => storedState e.before.world 0 = some .cancelled ∧
      storedState e.after.world 0 = some .completed)
    (valid_of_starts (by decide)) (by decide) (by decide)
  obtain ⟨e, he, hstates⟩ := List.any_eq_true.mp hok
  obtain ⟨hbefore, hafter⟩ := of_decide_eq_true hstates
  obtain ⟨row, hrow, hcancelled⟩ := Option.map_eq_some_iff.mp hbefore
  obtain ⟨row', hrow', hne⟩ := (hall oneStep tr t hrun e he).final hrow (.inl hcancelled)
  unfold storedState at hafter
  rw [hrow', Option.map_some, Option.some.injEq] at hafter
  exact hne.2.1 hafter

end Stellara.WorkflowEngine
