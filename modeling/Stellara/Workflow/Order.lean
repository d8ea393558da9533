import Stellara.Workflow.Attempts

/-!
# The order of the steps

`executeSteps` takes the steps by their index, and what a step throws ends the loop.  So at any
time the steps are split in three:

    returned, stored as completed     |   being tried   |     untouched

A step is left to the right only by its return, and from there on it is not touched again
(`Passed`).  Where the loop has stopped, the step in the middle has failed or was refused
(`Halted`).
-/

namespace Stellara.WorkflowEngine

open Block
open Async (run flagged asked)

/-! ## How far an execution has come -/

/-- How often the retries of a step are stored to have been counted. -/
def storedRetries (w : World) (id : Nat) : Option Nat :=
  (w.steps.lookup id).map WorkflowStep.retryCount

/-- Of the step `x`, with the effects `new` since it was loaded: it is executed within its retries,
and unless something was rejected they are counted. -/
structure Accounted (id : Nat) (definition : WorkflowDefinition) (x : StepEntity) (s : World × Bool)
    (new : List Effect) : Prop where
  count : (attempts id x.stepIndex new).length ≤ max 1 (x.maxRetries - x.retryCount)
  exact : s.2 = true → ∀ stepDefinition, definition.steps[x.stepIndex]? = some stepDefinition →
    (attempts id x.stepIndex new = [] ∨ Tried stepDefinition.timeout definition.timeout
      (x.maxRetries - x.retryCount) (attempts id x.stepIndex new)) ∧
    storedRetries s.1 x.id = some (x.retryCount + failures (attempts id x.stepIndex new))

/-- Since `w₀` only the steps `done` were saved and executed, with the effects `new`. -/
structure Reached (id : Nat) (definition : WorkflowDefinition) (w₀ : World) (done : List StepEntity)
    (s : World × Bool) (new : List Effect) : Prop where
  log : s.1.log = new ++ w₀.log
  own : ∀ effect ∈ new, ∃ x ∈ done, effect.Of id x
  others : ∀ k, (∀ x ∈ done, x.id ≠ k) → s.1.steps.lookup k = w₀.steps.lookup k
  accounted : ∀ x ∈ done, Accounted id definition x s new

/-- The step `x` is stored with the state. -/
def StoredAs (state : StepState) (x : StepEntity) (w : World) : Prop :=
  ∃ y, x.Kin y ∧ y.Stored w ∧ y.state = state

/-- The steps `done` have all returned. -/
structure Passed (id : Nat) (definition : WorkflowDefinition) (w₀ : World) (done : List StepEntity)
    (s : World × Bool) (new : List Effect) : Prop extends Reached id definition w₀ done s new where
  unsettled : ∀ effect ∈ new, ¬ effect.Final
  returned : ∀ x ∈ done, ∃ timeoutMs, Effect.executed id x.stepIndex timeoutMs .returns ∈ new
  completed : ∀ x ∈ done, StoredAs .completed x s.1

/-- One of the steps `done` has stopped the execution, unless something was rejected. -/
structure Halted (id : Nat) (definition : WorkflowDefinition) (w₀ : World) (done : List StepEntity)
    (s : World × Bool) (new : List Effect) : Prop extends Reached id definition w₀ done s new where
  stopped : s.2 = true → ∃ x ∈ done, StoredAs .failed x s.1 ∨ ¬ canTransitionStep x.state .running

section Reached

variable {id : Nat} {definition : WorkflowDefinition} {w₀ w : World} {b : Bool} {x : StepEntity}
  {done : List StepEntity} {s s' : World × Bool} {new new' : List Effect}

theorem Reached.start (id : Nat) (definition : WorkflowDefinition) (w : World) (b : Bool) :
    Reached id definition w [] (w, b) [] :=
  ⟨rfl, List.forall_mem_nil _, fun _ _ => rfl, List.forall_mem_nil _⟩

theorem Reached.reject (h : Reached id definition w₀ done (w, b) new) :
    Reached id definition w₀ done (w, false) new :=
  ⟨h.log, h.own, h.others, fun x hx => ⟨(h.accounted x hx).count, nofun⟩⟩

/-- What is not stored in the workflow itself is as before when it is saved without its steps. -/
theorem Reached.congr {w' : World} (h : Reached id definition w₀ done (w, b) new)
    (hsteps : w'.steps = w.steps) (hlog : w'.log = w.log) :
    Reached id definition w₀ done (w', b) new where
  log := hlog.trans h.log
  own := h.own
  others k hk := (congrArg (AList.lookup k) hsteps).trans (h.others k hk)
  accounted x hx := ⟨(h.accounted x hx).count, fun hb d hd => by
    obtain ⟨htried, hretries⟩ := (h.accounted x hx).exact hb d hd
    refine ⟨htried, ?_⟩
    show ((w'.steps.lookup x.id).map _) = _
    rw [hsteps]
    exact hretries⟩

theorem StoredAs.congr {state : StepState} {w' : World} (h : StoredAs state x w)
    (hlookup : w'.steps.lookup x.id = w.steps.lookup x.id) : StoredAs state x w' := by
  obtain ⟨y, hy, ⟨updatedAt, hrow⟩, hstate⟩ := h
  refine ⟨y, hy, ⟨updatedAt, ?_⟩, hstate⟩
  rw [hy.id] at hrow ⊢
  exact hlookup.trans hrow

/-- A step that has not been reached. -/
theorem Reached.attempts_eq_nil (h : Reached id definition w₀ done s new)
    (hx : ∀ y ∈ done, y.stepIndex ≠ x.stepIndex) : attempts id x.stepIndex new = [] := by
  refine List.filterMap_eq_nil_iff.mpr fun effect heffect => ?_
  obtain ⟨y, hy, hof⟩ := h.own effect heffect
  cases effect with
  | executed workflowId stepIndex timeoutMs result =>
    exact if_neg fun heq => hx y hy (hof.2.symm.trans heq.2)
  | saved stepId row => rfl

/-- **The next step**: those that were done are as they were. -/
theorem Reached.append (h : Reached id definition w₀ done s new)
    (hx : ∀ y ∈ done, y.id ≠ x.id ∧ y.stepIndex ≠ x.stepIndex) (htouches : Touches id x s s' new')
    (haccounted : Accounted id definition x s' new') :
    Reached id definition w₀ (done ++ [x]) s' (new' ++ new) where
  log := by rw [htouches.log, h.log, List.append_assoc]
  own effect heffect := by
    rcases List.mem_append.mp heffect with heffect | heffect
    · exact ⟨x, List.mem_append_right _ (List.mem_singleton_self x), htouches.own effect heffect⟩
    · obtain ⟨y, hy, hof⟩ := h.own effect heffect
      exact ⟨y, List.mem_append_left _ hy, hof⟩
  others k hk := by
    rw [htouches.others k (hk x (List.mem_append_right _ (List.mem_singleton_self x))).symm]
    exact h.others k fun y hy => hk y (List.mem_append_left _ hy)
  accounted y hy := by
    rcases List.mem_append.mp hy with hy | hy
    · have hattempts : attempts id y.stepIndex (new' ++ new) = attempts id y.stepIndex new := by
        rw [attempts_append, WorkflowEngine.attempts_eq_nil (hx y hy).2.symm htouches.own,
          List.nil_append]
      refine ⟨hattempts ▸ (h.accounted y hy).count, fun hb d hd => ?_⟩
      unfold storedRetries
      rw [hattempts, htouches.others y.id (hx y hy).1]
      exact (h.accounted y hy).exact (htouches.flag hb) d hd
    · obtain rfl := List.mem_singleton.mp hy
      have hattempts : attempts id y.stepIndex (new' ++ new) = attempts id y.stepIndex new' := by
        rw [attempts_append, h.attempts_eq_nil fun z hz => (hx z hz).2, List.append_nil]
      exact ⟨hattempts ▸ haccounted.count, hattempts ▸ haccounted.exact⟩

theorem Tries.accounted {y : StepEntity}
    (h : Tries id definition.steps[x.stepIndex]? definition.timeout x s s' y new)
    (hstored : s'.2 = true → y.Stored s'.1) : Accounted id definition x s' new where
  count := h.count
  exact hb d hd := by
    obtain ⟨htried, hcount⟩ := h.exact hb d hd
    obtain ⟨updatedAt, hrow⟩ := hstored hb
    refine ⟨.inr htried, ?_⟩
    unfold storedRetries
    rw [← h.kin.id, hrow, ← hcount]
    rfl

theorem Passed.append {y : StepEntity} (h : Passed id definition w₀ done s new)
    (hx : ∀ y ∈ done, y.id ≠ x.id ∧ y.stepIndex ≠ x.stepIndex)
    (hpasses : Passes id definition.steps[x.stepIndex]? definition.timeout x s s' y new') :
    Passed id definition w₀ (done ++ [x]) s' (new' ++ new) where
  toReached := h.toReached.append hx hpasses.toTouches
    (hpasses.toTries.accounted fun _ => hpasses.stored)
  unsettled effect heffect := (List.mem_append.mp heffect).elim (hpasses.unsettled effect)
    (h.unsettled effect)
  returned z hz := by
    rcases List.mem_append.mp hz with hz | hz
    · obtain ⟨timeoutMs, hmem⟩ := h.returned z hz
      exact ⟨timeoutMs, List.mem_append_right _ hmem⟩
    · obtain rfl := List.mem_singleton.mp hz
      obtain ⟨timeoutMs, hmem⟩ := hpasses.returned
      exact ⟨timeoutMs, List.mem_append_left _ hmem⟩
  completed z hz := by
    rcases List.mem_append.mp hz with hz | hz
    · exact (h.completed z hz).congr (hpasses.others z.id (hx z hz).1)
    · obtain rfl := List.mem_singleton.mp hz
      exact ⟨y, hpasses.kin, hpasses.stored, hpasses.completed⟩

theorem Passed.halt {y : StepEntity} (h : Passed id definition w₀ done s new)
    (hx : ∀ y ∈ done, y.id ≠ x.id ∧ y.stepIndex ≠ x.stepIndex)
    (hfails : Fails id definition.steps[x.stepIndex]? definition.timeout x s s' y new') :
    Halted id definition w₀ (done ++ [x]) s' (new' ++ new) where
  toReached := h.toReached.append hx hfails.toTouches (hfails.toTries.accounted hfails.stored)
  stopped hb := ⟨x, List.mem_append_right _ (List.mem_singleton_self x),
    .inl ⟨y, hfails.kin, hfails.stored hb, hfails.failed hb⟩⟩

/-- A step that is refused stops the execution and changes nothing. -/
theorem Passed.refuse (h : Passed id definition w₀ done s new)
    (hx : ∀ y ∈ done, y.id ≠ x.id ∧ y.stepIndex ≠ x.stepIndex)
    (hloaded : storedRetries w₀ x.id = some x.retryCount)
    (hrefused : ¬ canTransitionStep x.state .running) :
    Halted id definition w₀ (done ++ [x]) s new where
  toReached := h.toReached.append hx (Touches.refl id x s) ⟨Nat.zero_le _, fun _ _ _ => ⟨.inl rfl, by
    unfold storedRetries
    rw [h.others x.id fun y hy => (hx y hy).1]
    exact hloaded⟩⟩
  stopped _ := ⟨x, List.mem_append_right _ (List.mem_singleton_self x), .inr hrefused⟩

theorem Passed.reject (h : Passed id definition w₀ done (w, b) new) :
    Halted id definition w₀ done (w, false) new := ⟨h.toReached.reject, nofun⟩

end Reached

/-! ## The loop -/

/-- The steps of a workflow, as `executeSteps` finds them in `w`. -/
structure Listed (w : World) (steps : List StepEntity) : Prop where
  distinct : steps.Pairwise fun x y => x.id ≠ y.id ∧ x.stepIndex ≠ y.stepIndex
  loaded : ∀ x ∈ steps, storedRetries w x.id = some x.retryCount

/-- The workflow as the executor holds it: `running`, without its steps. -/
structure Held (id : Nat) (x : WorkflowEntity) : Prop extends Current id x where
  steps : x.steps = none

section Loop

variable {G : Nat → Nat → World × Bool → Prop} {id : Nat} {definition : WorkflowDefinition}
  {w₀ w : World} {b : Bool} {steps done rest : List StepEntity} {x : WorkflowEntity}
  {new : List Effect}

theorem putWorkflow_of_none (h : x.steps = none) (now : Int) (w : World) :
    (w.putWorkflow now x).steps = w.steps := by
  unfold World.putWorkflow
  rw [h]
  rfl

theorem saveWorkflow_held {Q : Unit → WorkflowEntity → World × Bool → Prop}
    {E : Error → WorkflowEntity → World × Bool → Prop} (hx : Held id x)
    (hQ : ∀ y w', Held id y → storedState w' id = some .running → w'.steps = w.steps →
      w'.log = w.log → Q () y (w', b))
    (hE : ∀ e, E e x (w, false)) : wp (watched G) saveWorkflow Q E x (w, b) := by
  refine saveWorkflow_watched (fun now => hQ _ _ ⟨⟨hx.id, hx.state⟩, ?_⟩ ?_
    (putWorkflow_of_none hx.steps now w) (log_putWorkflow now w x)) hE
  · rw [hx.steps]
    rfl
  · rw [storedState_putWorkflow, if_pos hx.id.symm, hx.state]

/-- **The steps in order**: all of them pass, or one of them halts the loop. -/
theorem executeEach_watched (hlisted : Listed w₀ steps)
    (hG : ∀ done y rest, steps = done ++ y :: rest → ∀ s new, Passed id definition w₀ done s new →
      ∀ s' new', Trying id y s s' new' → G id y.stepIndex s')
    (hsplit : steps = done ++ rest) (hx : Held id x) (hstate : storedState w id = some .running)
    (h : Passed id definition w₀ done (w, b) new) :
    wp (watched G) (executeEach definition rest)
      (fun _ y s => Held id y ∧ storedState s.1 id = some .running ∧
        ∃ new, Passed id definition w₀ steps s new)
      (fun _ y s => Held id y ∧ storedState s.1 id = some .running ∧
        ∃ done new, done ⊆ steps ∧ Halted id definition w₀ done s new) x (w, b) := by
  induction rest generalizing done x w b new with
  | nil =>
    rw [List.append_nil] at hsplit
    rw [hsplit]
    exact ⟨hx, hstate, new, h⟩
  | cons step rest ih =>
    have hheld : Held id { x with currentStepIndex := step.stepIndex } := ⟨⟨hx.id, hx.state⟩, hx.steps⟩
    have hdone : done ⊆ steps := hsplit ▸ List.subset_append_left _ _
    have hsplit' : steps = done ++ [step] ++ rest := hsplit.trans (List.append_cons done step rest)
    have hnext : done ++ [step] ⊆ steps := hsplit' ▸ List.subset_append_left _ _
    refine wp_bind.mpr (wp_modify.mpr (wp_bind.mpr ?_))
    refine saveWorkflow_held hheld ?_ fun e => ⟨hheld, hstate, done, new, hdone, h.reject⟩
    intro y w₁ hy hstate hsteps hlog
    have hpassed : Passed id definition w₀ done (w₁, b) new :=
      ⟨h.toReached.congr hsteps hlog, h.unsettled, h.returned, fun z hz =>
        (h.completed z hz).congr (congrArg (AList.lookup z.id) hsteps)⟩
    have hfresh : ∀ z ∈ done, z.id ≠ step.id ∧ z.stepIndex ≠ step.stepIndex := by
      have hdistinct := hlisted.distinct
      rw [hsplit, List.pairwise_append] at hdistinct
      exact fun z hz => hdistinct.2.2 z hz step List.mem_cons_self
    refine wp_bind.mpr (wp_get.mpr (wp_bind.mpr (wp_call.mpr ?_)))
    rw [hy.id]
    by_cases hok : canTransitionStep step.state .running
    · refine Block.wp_mono ?_ ?_ (executeStep_watched (hG done step rest hsplit _ _ hpassed) hstate hok)
      · rintro - z ⟨w₂, b₂⟩ ⟨new', hpasses⟩
        refine ih hsplit' hy ?_ (hpassed.append hfresh hpasses)
        exact (storedState_congr hpasses.workflows).trans hstate
      · rintro - z ⟨w₂, b₂⟩ ⟨new', hfails⟩
        exact ⟨hy, (storedState_congr hfails.workflows).trans hstate, _, _, hnext,
          hpassed.halt hfresh hfails⟩
    · rw [executeStep_eq]
      unfold attemptStep
      refine wp_bind.mpr (wp_get.mpr ?_)
      have hrefused : ∃ message, transitionStep step.state .running = .error message :=
        ⟨_, if_neg hok⟩
      obtain ⟨message, hmessage⟩ := hrefused
      rw [hmessage]
      exact ⟨hy, hstate, _, _, hnext, hpassed.refuse hfresh (hlisted.loaded step
        (hnext (List.mem_append_right _ (List.mem_singleton_self step)))) hok⟩

end Loop

/-! ## The execution -/

/-- An execution is over: of the steps that it found all are completed and so is the workflow, or
one has stopped it; unless something was rejected. -/
structure Executed (id : Nat) (definition : WorkflowDefinition) (w₀ : World)
    (steps : List StepEntity) (s : World × Bool) : Prop where
  reached : ∃ done new, done ⊆ steps ∧ Reached id definition w₀ done s new
  ends : s.2 = true →
    (storedState s.1 id = some .completed ∧ ∀ x ∈ steps, StoredAs .completed x s.1) ∨
    (storedState s.1 id ≠ some .completed ∧
      ∃ x ∈ steps, StoredAs .failed x s.1 ∨ ¬ canTransitionStep x.state .running)

section Execution

variable {G : Nat → Nat → World × Bool → Prop} {id : Nat} {definition : WorkflowDefinition}
  {definitions : Definitions} {w₀ w : World} {b : Bool} {steps done : List StepEntity}
  {x : WorkflowEntity} {new : List Effect}

theorem mem_ascending {y : StepEntity} {steps : List StepEntity} : y ∈ ascending steps ↔ y ∈ steps :=
  List.mem_insertionSort _

theorem storedRetries_of_mem {y : StepEntity} (h : y ∈ w.stepsOf id) :
    storedRetries w y.id = some y.retryCount := by
  obtain ⟨row, hrow, -, hy⟩ := mem_stepsOf.mp h
  unfold storedRetries
  rw [hrow, hy]
  rfl

theorem listed_ascending (h : Indexed w id) : Listed w (ascending (w.stepsOf id)) where
  distinct := by
    have hnodup : ((ascending (w.stepsOf id)).map StepEntity.id).Nodup :=
      ((List.perm_insertionSort _ _).map StepEntity.id).nodup_iff.mpr (nodup_stepsOf w id)
    refine (List.pairwise_map.mp hnodup).imp_of_mem fun {y z} hy hz hne => ⟨hne, fun heq => hne ?_⟩
    obtain ⟨row, hrow, hid, hrow'⟩ := mem_stepsOf.mp (mem_ascending.mp hy)
    obtain ⟨row₂, hrow₂, hid₂, hrow₂'⟩ := mem_stepsOf.mp (mem_ascending.mp hz)
    rw [hrow', hrow₂'] at heq
    exact h _ _ _ _ hrow hrow₂ hid hid₂ heq
  loaded _ hy := storedRetries_of_mem (mem_ascending.mp hy)

theorem Halted.executed (h : Halted id definition w₀ done (w, b) new) (hdone : done ⊆ steps)
    {w' : World} (hsteps : w'.steps = w.steps) (hlog : w'.log = w.log)
    (hstate : storedState w' id ≠ some .completed) : Executed id definition w₀ steps (w', b) where
  reached := ⟨done, new, hdone, h.toReached.congr hsteps hlog⟩
  ends hb := by
    obtain ⟨y, hy, hstopped⟩ := h.stopped hb
    exact .inr ⟨hstate, y, hdone hy, hstopped.imp_left fun h =>
      h.congr (congrArg (AList.lookup y.id) hsteps)⟩

/-- **The executor**, with a guard for the steps it executes. -/
theorem executeWorkflow_watched (hdefinition : definitions x.type = some definition)
    (hok : canTransitionWorkflow x.state .running) (hnone : x.steps = none)
    (hindexed : Indexed w x.id)
    (hG : ∀ done y rest, ascending (w.stepsOf x.id) = done ++ y :: rest →
      ∀ s new, Passed x.id definition w done s new →
        ∀ s' new', Trying x.id y s s' new' → G x.id y.stepIndex s') :
    wp (watched G) (executeWorkflow definitions)
      (fun _ _ s => Executed x.id definition w (ascending (w.stepsOf x.id)) s)
      (fun _ _ s => Executed x.id definition w (ascending (w.stepsOf x.id)) s) x (w, b) := by
  have htransition : transitionWorkflow x.state .running = .ok () := if_pos hok
  unfold executeWorkflow
  refine wp_bind.mpr (wp_get.mpr ?_)
  rw [hdefinition, htransition]
  refine wp_bind.mpr (wp_modify.mpr (wp_bind.mpr ?_))
  have hheld : Held x.id { x with state := .running } := ⟨⟨rfl, rfl⟩, hnone⟩
  refine saveWorkflow_held hheld ?_ fun e =>
    ⟨⟨[], [], List.nil_subset _, .start _ _ _ _⟩, nofun⟩
  intro y w₁ hy hstate hsteps hlog
  have hstart : Passed x.id definition w [] (w₁, b) [] :=
    ⟨(Reached.start _ _ w b).congr hsteps hlog, List.forall_mem_nil _, List.forall_mem_nil _,
      List.forall_mem_nil _⟩
  have hfound : w₁.stepsOf y.id = w.stepsOf x.id := by
    unfold World.stepsOf
    rw [hsteps, hy.id]
  refine wp_tryCatch.mpr (Block.wp_mono (E := fun _ y s => (y.id = x.id ∧ y.steps = none) ∧
    storedState s.1 x.id = some .running ∧ ∃ done new, done ⊆ ascending (w.stepsOf x.id) ∧
      Halted x.id definition w done s new) (fun _ _ _ h => h) ?_ ?_)
  · rintro (message | message) z ⟨w₂, b₂⟩ ⟨⟨hz, hnone⟩, hrunning, done, new, hdone, h⟩
    · refine wp_bind.mpr (wp_modify.mpr (wp_bind.mpr ?_))
      refine saveWorkflow_watched (fun now => ?_) fun e =>
        ⟨⟨done, new, hdone, h.toReached.reject⟩, nofun⟩
      refine h.executed hdone (putWorkflow_of_none (by exact hnone) now w₂) (log_putWorkflow now w₂ _) ?_
      rw [storedState_putWorkflow, if_pos hz.symm]
      exact fun heq => by cases heq
    · refine h.executed hdone rfl rfl ?_
      rw [hrunning]
      exact fun heq => by cases heq
  · refine wp_bind.mpr (wp_bind.mpr (wp_get.mpr (wp_bind.mpr ⟨trivial, ?_⟩)))
    refine repository_tracked (fun c => rfl) (fun c => ?_) fun e =>
      ⟨⟨hy.id, hy.steps⟩, hstate, [], [], List.nil_subset _, hstart.reject⟩
    rw [hfound]
    refine Block.wp_mono ?_ (fun _ z s h => ⟨⟨h.1.id, h.1.steps⟩, h.2⟩)
      (executeEach_watched (listed_ascending hindexed) hG rfl hy hstate hstart)
    rintro - z ⟨w₂, b₂⟩ ⟨hz, hrunning, new, h⟩
    refine wp_bind.mpr (wp_modify.mpr ?_)
    refine saveWorkflow_watched (fun now => ?_) fun e =>
      ⟨⟨hz.id, hz.steps⟩, hrunning, _, new, List.Subset.refl _, h.reject⟩
    have hsteps' := putWorkflow_of_none (x := { z with state := .completed }) hz.steps now w₂
    refine ⟨⟨_, new, List.Subset.refl _, h.toReached.congr hsteps' (log_putWorkflow now w₂ _)⟩,
      fun _ => .inl ⟨?_, fun y hy => (h.completed y hy).congr (congrArg (AList.lookup y.id) hsteps')⟩⟩
    rw [storedState_putWorkflow, if_pos hz.id.symm]

end Execution

/-! ## What holds when a step is executed -/

/-- Step `k` is executed in `w`, and `new` has happened since `w₀`: the steps before it have
returned and are stored as completed, and none has exceeded its timeout or failed with no retries
left. -/
structure MayStart (id : Nat) (w₀ : World) (k : Nat) (w : World) (new : List Effect) : Prop where
  log : w.log = new ++ w₀.log
  returned : ∀ x ∈ w₀.stepsOf id, x.stepIndex < k →
    ∃ timeoutMs, Effect.executed id x.stepIndex timeoutMs .returns ∈ new
  completed : ∀ x ∈ w₀.stepsOf id, x.stepIndex < k → stepState w x.id = some .completed
  unsettled : ∀ effect ∈ new, ¬ effect.Final

/-- Step `k` has not returned since. -/
def Unreturned (id k : Nat) (new : List Effect) : Prop :=
  ∀ timeoutMs, Effect.executed id k timeoutMs .returns ∉ new

section Order

variable {id : Nat} {definition : WorkflowDefinition} {definitions : Definitions} {w₀ w : World}
  {steps done rest : List StepEntity} {s s' : World × Bool} {new new' : List Effect} {y : StepEntity}

theorem StoredAs.exists_row {state : StepState} {x : StepEntity} (h : StoredAs state x w) :
    ∃ row, w.steps.lookup x.id = some row ∧ row.workflowId = x.workflowId ∧ row.state = state := by
  obtain ⟨y, hy, ⟨updatedAt, hrow⟩, hstate⟩ := h
  rw [hy.id] at hrow
  exact ⟨_, hrow, hy.workflowId, hstate⟩

/-- **The guard**: the steps before the one that is tried are those that passed. -/
theorem Passed.mayStart (hindexed : Indexed w₀ id)
    (hsplit : ascending (w₀.stepsOf id) = done ++ y :: rest)
    (h : Passed id definition w₀ done s new) (htrying : Trying id y s s' new') :
    MayStart id w₀ y.stepIndex s'.1 (new' ++ new) ∧
      (s'.2 = true → Unreturned id y.stepIndex (new' ++ new)) := by
  have hdistinct : ∀ z ∈ done, z.id ≠ y.id ∧ z.stepIndex ≠ y.stepIndex := by
    have hpairwise := (listed_ascending hindexed).distinct
    rw [hsplit, List.pairwise_append] at hpairwise
    exact fun z hz => hpairwise.2.2 z hz y List.mem_cons_self
  have hearlier : ∀ z ∈ w₀.stepsOf id, z.stepIndex < y.stepIndex → z ∈ done := by
    intro z hz hlt
    have hsorted : (ascending (w₀.stepsOf id)).Pairwise fun a b => a.stepIndex ≤ b.stepIndex :=
      List.pairwise_insertionSort _ _
    have hmem := mem_ascending.mpr hz
    rw [hsplit] at hsorted hmem
    rcases List.mem_append.mp hmem with hz | hz
    · exact hz
    · rcases List.mem_cons.mp hz with rfl | hz
      · exact absurd hlt (lt_irrefl _)
      · have hle := (List.pairwise_cons.mp (List.pairwise_append.mp hsorted).2.1).1 z hz
        exact absurd hlt (Nat.not_lt.mpr hle)
  refine ⟨⟨?_, fun z hz hlt => ?_, fun z hz hlt => ?_, fun effect heffect => ?_⟩,
    fun hb timeoutMs hmem => ?_⟩
  · rw [htrying.log, h.log, List.append_assoc]
  · obtain ⟨timeoutMs, hmem⟩ := h.returned z (hearlier z hz hlt)
    exact ⟨timeoutMs, List.mem_append_right _ hmem⟩
  · obtain ⟨row, hrow, -, hstate⟩ := (h.completed z (hearlier z hz hlt)).exists_row
    rw [← htrying.others z.id (hdistinct z (hearlier z hz hlt)).1] at hrow
    exact stepState_eq_some.mpr ⟨row, hrow, hstate⟩
  · exact (List.mem_append.mp heffect).elim (htrying.unsettled effect) (h.unsettled effect)
  · rcases List.mem_append.mp hmem with hmem | hmem
    · exact htrying.fruitless hb timeoutMs hmem
    · obtain ⟨z, hz, hof⟩ := h.own _ hmem
      exact (hdistinct z hz).2 hof.2.symm

/-- The workflow is completed exactly when all of its steps are. -/
theorem Executed.completed_iff
    (h : Executed id definition w₀ (ascending (w₀.stepsOf id)) (w, true))
    (hpending : ∀ x ∈ w₀.stepsOf id, x.state = .pending) :
    storedState w id = some .completed ↔ ∀ x ∈ w.stepsOf id, x.state = .completed := by
  obtain ⟨done, new, hdone, hreached⟩ := h.reached
  constructor
  · intro hstate x hx
    obtain ⟨-, hall⟩ := (h.ends rfl).resolve_right fun hnot => hnot.1 hstate
    obtain ⟨row, hrow, hid, hload⟩ := mem_stepsOf.mp hx
    by_cases hknown : ∃ z ∈ ascending (w₀.stepsOf id), z.id = x.id
    · obtain ⟨z, hz, heq⟩ := hknown
      obtain ⟨row', hrow', -, hstate'⟩ := (hall z hz).exists_row
      rw [heq, hrow] at hrow'
      cases hrow'
      rw [hload]
      exact hstate'
    · -- a row that is not of a listed step is as it was
      have hold : w₀.steps.lookup x.id = some row :=
        (hreached.others x.id fun z hz heq => hknown ⟨z, hdone hz, heq⟩).symm.trans hrow
      exact absurd ⟨x, mem_ascending.mpr (mem_stepsOf.mpr ⟨row, hold, hid, hload⟩), rfl⟩ hknown
  · intro hall
    rcases h.ends rfl with ⟨hstate, -⟩ | ⟨-, x, hx, hstopped⟩
    · exact hstate
    · have hx := mem_ascending.mp hx
      rcases hstopped with hfailed | hrefused
      · obtain ⟨row, hrow, hid, hstate⟩ := hfailed.exists_row
        obtain ⟨row₀, -, hid₀, hload⟩ := mem_stepsOf.mp hx
        have hworkflow : x.workflowId = id := by
          rw [hload]
          exact hid₀
        have hcompleted := hall (World.loadStep x.id row)
          (mem_stepsOf.mpr ⟨row, hrow, hid.trans hworkflow, rfl⟩)
        exact absurd (hstate.symm.trans hcompleted) (by decide)
      · rw [hpending x hx] at hrefused
        exact absurd (by decide) hrefused

/-- **Steps are executed in order, and a workflow ends as completed with its steps.**  That a step
is not executed again after it returned supposes that the repository rejects nothing: a step whose
completion cannot be saved is tried again. -/
theorem steps_in_order {x : WorkflowEntity} (hdefinition : definitions x.type = some definition)
    (hx : x.state = .pending) (hsteps : x.steps = none) (hindexed : Indexed w₀ x.id)
    (hpending : ∀ y ∈ w₀.stepsOf x.id, y.state = .pending) (cs : List Outside) :
    (∀ id k stepName timeoutMs w, (Request.execute id k stepName timeoutMs, w) ∈
        asked answer (call (executeWorkflow definitions) x).program cs w₀ →
      id = x.id ∧ ∃ new, MayStart x.id w₀ k w new ∧
        ((∀ c ∈ cs, c.rejects = none) → Unreturned x.id k new)) ∧
    ((∀ c ∈ cs, c.rejects = none) → ∀ r w,
      run answer (call (executeWorkflow definitions) x).program cs w₀ = some (r, w) →
        (storedState w x.id = some .completed ↔ ∀ y ∈ w.stepsOf x.id, y.state = .completed)) := by
  have hok : canTransitionWorkflow x.state .running := by
    rw [hx]
    decide
  have hprogram : Async.wp (watched fun id k s => id = x.id ∧ ∃ new, MayStart x.id w₀ k s.1 new ∧
      (s.2 = true → Unreturned x.id k new)) (call (executeWorkflow definitions) x).program
      (fun _ s => Executed x.id definition w₀ (ascending (w₀.stepsOf x.id)) s) (w₀, true) := by
    refine wp_program.mpr (wp_call.mpr (executeWorkflow_watched hdefinition hok hsteps hindexed ?_))
    intro done y rest hsplit s new h s' new' htrying
    exact ⟨rfl, _, h.mayStart hindexed hsplit htrying⟩
  obtain ⟨hasked, hrun⟩ := Async.wp_guarding hprogram cs
  constructor
  · intro id k stepName timeoutMs w hmem
    obtain ⟨b, hmem', hb⟩ := Async.exists_asked_flagged (P := fun c : Outside => c.rejects.isNone)
      (b := true) hmem
    obtain ⟨hid, new, hmay, hunreturned⟩ := hasked _ hmem'
    exact ⟨hid, new, hmay, fun hcs => hunreturned (hb rfl fun c hc => by rw [hcs c hc]; rfl)⟩
  · intro hcs r w hr
    refine (hrun r (w, true) ?_).completed_iff hpending
    rw [Async.run_flagged, hr, Option.map_some, Bool.true_and, all_isNone.mpr hcs]

end Order

/-! ### Two steps that return -/

theorem indexed_twoPending : Indexed twoPending 0 := indexed_two rfl fun _ => rfl

theorem steps_in_order_two :
    ∃ r w, run answer (call (executeWorkflow limitedSteps)
        (twoPending.load false 0 (oneStepRow .pending))).program (List.replicate 11 undisturbed)
        twoPending = some (r, w) ∧
      storedState w 0 = some .completed ∧ ∀ y ∈ w.stepsOf 0, y.state = .completed := by
  have hok : ((run answer (call (executeWorkflow limitedSteps)
      (twoPending.load false 0 (oneStepRow .pending))).program (List.replicate 11 undisturbed)
      twoPending).any fun r => storedState r.2 0 = some .completed) = true := by
    decide
  obtain ⟨⟨r, w⟩, hrun, hstate⟩ := (Option.any_eq_true _ _).mp hok
  have hstate := of_decide_eq_true hstate
  exact ⟨r, w, hrun, hstate, ((steps_in_order rfl rfl rfl indexed_twoPending (by decide) _).2 (by decide)
    r w hrun).mp hstate⟩

end Stellara.WorkflowEngine
