import Stellara.Lib.Asking
import Stellara.Workflow.Timeouts

/-!
# The attempts at a step

`executeStep` retries by calling itself, as long as retries are left.  It is given the timeout of
the workflow, and does not hand it on:

    executeStep(workflow, step, stepDefinition, workflowTimeout)       timeout ?? workflowTimeout
      executeStep(workflow, step, stepDefinition)                      timeout
        executeStep(workflow, step, stepDefinition)                    timeout

Here the step is followed from its first attempt to its last one, whatever the repository rejects.
A guard `G` says what is found wherever a step is executed, so that the same walk serves the
executor as a whole.
-/

namespace Stellara.WorkflowEngine

open Block
open Async (run flagged guarding)

/-! ## What is logged of a step -/

/-- An attempt at a step: the timeout it was given, and how it ended. -/
abbrev Attempt : Type := Option Int × StepResult

/-- The attempts at step `k` of a workflow, newest first. -/
def attempts (id k : Nat) (log : List Effect) : List Attempt :=
  log.filterMap fun effect =>
    match effect with
    | .executed workflowId stepIndex timeoutMs result =>
      if workflowId = id ∧ stepIndex = k then some (timeoutMs, result) else none
    | .saved _ _ => none

/-- How many attempts failed. -/
def failures (tries : List Attempt) : Nat := tries.countP fun attempt => attempt.2 ≠ .returns

/-- The attempts at a step whose own timeout is `own`, when the first of them is given `given` and
`left` retries are left.  A retry is given nothing. -/
inductive Tried (own : Option Int) : Option Int → Nat → List Attempt → Prop
  | last {given : Option Int} {left : Nat} {result : StepResult}
      (h : ∀ message, result = .throws message → left ≤ 1) :
      Tried own given left [(own <|> given, result)]
  | retried {given : Option Int} {left : Nat} {message : String} {later : List Attempt}
      (hleft : 0 < left) (h : Tried own none left later) :
      Tried own given (left + 1) (later ++ [(own <|> given, .throws message)])

/-- It is an effect of the step `x`. -/
def Effect.Of (id : Nat) (x : StepEntity) : Effect → Prop
  | .executed workflowId stepIndex _ _ => workflowId = id ∧ stepIndex = x.stepIndex
  | .saved k _ => k = x.id

/-- A step exceeded its timeout, or failed with no retries left. -/
def Effect.Final : Effect → Prop
  | .executed _ _ _ result => result = .exceedsTimeout
  | .saved _ row => row.state = .failed ∧ row.maxRetries ≤ row.retryCount

theorem attempts_append (id k : Nat) (log log' : List Effect) :
    attempts id k (log ++ log') = attempts id k log ++ attempts id k log' := List.filterMap_append

@[simp] theorem attempts_saved (id k stepId : Nat) (row : WorkflowStep) (log : List Effect) :
    attempts id k (.saved stepId row :: log) = attempts id k log := rfl

theorem attempts_executed (id k : Nat) (timeoutMs : Option Int) (result : StepResult)
    (log : List Effect) :
    attempts id k (.executed id k timeoutMs result :: log) =
      (timeoutMs, result) :: attempts id k log := by
  simp [attempts]

/-- The effects of another step are no attempts at this one. -/
theorem attempts_eq_nil {id k : Nat} {x : StepEntity} {log : List Effect} (hk : x.stepIndex ≠ k)
    (h : ∀ effect ∈ log, effect.Of id x) : attempts id k log = [] := by
  refine List.filterMap_eq_nil_iff.mpr fun effect heffect => ?_
  have hof := h effect heffect
  cases effect with
  | executed workflowId stepIndex timeoutMs result =>
    exact if_neg fun heq => hk (hof.2.symm.trans heq.2)
  | saved stepId row => rfl

theorem failures_append (tries tries' : List Attempt) :
    failures (tries ++ tries') = failures tries + failures tries' := List.countP_append

/-! ## The same step later -/

/-- `y` is the entity that `x` has become. -/
structure StepEntity.Kin (x y : StepEntity) : Prop where
  id : y.id = x.id
  workflowId : y.workflowId = x.workflowId
  stepIndex : y.stepIndex = x.stepIndex
  maxRetries : y.maxRetries = x.maxRetries

theorem StepEntity.Kin.trans {x y z : StepEntity} (h : x.Kin y) (h' : y.Kin z) : x.Kin z :=
  ⟨h'.id.trans h.id, h'.workflowId.trans h.workflowId, h'.stepIndex.trans h.stepIndex,
    h'.maxRetries.trans h.maxRetries⟩

/-- Its row is as the entity has it. -/
def StepEntity.Stored (x : StepEntity) (w : World) : Prop :=
  ∃ updatedAt, w.steps.lookup x.id = some { x.toWorkflowStep with updatedAt }

theorem stored_putStep (x : StepEntity) (now : Int) (w : World) (log : List Effect) :
    x.Stored { w.putStep now x with log := log } := by
  refine ⟨now, ?_⟩
  show (w.steps.insert x.id _).lookup x.id = _
  rw [AList.lookup_insert]

/-! ## What the attempts at one step change -/

/-- From `s` to `s'` only the step `x` is saved and executed, with the effects `new`. -/
structure Touches (id : Nat) (x : StepEntity) (s s' : World × Bool) (new : List Effect) : Prop where
  flag : s'.2 = true → s.2 = true
  workflows : s'.1.workflows = s.1.workflows
  others : ∀ k, k ≠ x.id → s'.1.steps.lookup k = s.1.steps.lookup k
  log : s'.1.log = new ++ s.1.log
  own : ∀ effect ∈ new, effect.Of id x

section Touches

variable {id : Nat} {x y z : StepEntity} {s s' : World × Bool} {w : World} {b : Bool}
  {new new' : List Effect}

theorem Touches.refl (id : Nat) (x : StepEntity) (s : World × Bool) : Touches id x s s [] :=
  ⟨fun h => h, rfl, fun _ _ => rfl, rfl, nofun⟩

theorem Touches.reject (h : Touches id x s (w, b) new) : Touches id x s (w, false) new :=
  { h with flag := nofun }

theorem Touches.save (h : Touches id x s (w, b) new) (hy : x.Kin y) (now : Int) :
    Touches id x s ({ w.putStep now y with log := .saved y.id y.toWorkflowStep :: w.log }, b)
      (.saved y.id y.toWorkflowStep :: new) where
  flag := h.flag
  workflows := h.workflows
  others k hk := by
    show (w.steps.insert y.id _).lookup k = _
    rw [AList.lookup_insert_ne (hy.id ▸ hk)]
    exact h.others k hk
  log := congrArg (List.cons _) h.log
  own := List.forall_mem_cons.mpr ⟨hy.id, h.own⟩

theorem Touches.execute (h : Touches id x s (w, b) new) (timeoutMs : Option Int)
    (result : StepResult) :
    Touches id x s ({ w with log := .executed id x.stepIndex timeoutMs result :: w.log }, b)
      (.executed id x.stepIndex timeoutMs result :: new) where
  flag := h.flag
  workflows := h.workflows
  others := h.others
  log := congrArg (List.cons _) h.log
  own := List.forall_mem_cons.mpr ⟨⟨rfl, rfl⟩, h.own⟩

theorem Effect.Of.of_kin {effect : Effect} (h : effect.Of id y) (hy : x.Kin y) : effect.Of id x := by
  cases effect with
  | executed workflowId stepIndex timeoutMs result => exact ⟨h.1, h.2.trans hy.stepIndex⟩
  | saved k row => exact Eq.trans h hy.id

theorem Touches.trans {s₁ : World × Bool} (h : Touches id x s s₁ new) (hy : x.Kin y)
    (h' : Touches id y s₁ s' new') : Touches id x s s' (new' ++ new) where
  flag hflag := h.flag (h'.flag hflag)
  workflows := h'.workflows.trans h.workflows
  others k hk := (h'.others k (hy.id ▸ hk)).trans (h.others k hk)
  log := by rw [h'.log, h.log, List.append_assoc]
  own effect heffect := (List.mem_append.mp heffect).elim (fun h => (h'.own _ h).of_kin hy)
    (h.own effect)

/-- The step is being tried: none of its effects is final, and unless something was rejected it
has not returned. -/
structure Trying (id : Nat) (x : StepEntity) (s s' : World × Bool) (new : List Effect) : Prop
    extends Touches id x s s' new where
  unsettled : ∀ effect ∈ new, ¬ effect.Final
  fruitless : s'.2 = true → ∀ timeoutMs, Effect.executed id x.stepIndex timeoutMs .returns ∉ new

theorem Trying.refl (id : Nat) (x : StepEntity) (s : World × Bool) : Trying id x s s [] :=
  ⟨.refl id x s, nofun, fun _ _ => nofun⟩

theorem Trying.save (h : Trying id x s (w, b) new) (hy : x.Kin y)
    (hstate : y.state = .failed → y.retryCount < y.maxRetries) (now : Int) :
    Trying id x s ({ w.putStep now y with log := .saved y.id y.toWorkflowStep :: w.log }, b)
      (.saved y.id y.toWorkflowStep :: new) where
  toTouches := h.toTouches.save hy now
  unsettled := List.forall_mem_cons.mpr
    ⟨fun hfinal => absurd (hstate hfinal.1) (Nat.not_lt.mpr hfinal.2), h.unsettled⟩
  fruitless hb timeoutMs hmem := by
    rcases List.mem_cons.mp hmem with heq | hmem
    · cases heq
    · exact h.fruitless hb timeoutMs hmem

theorem Trying.execute (h : Trying id x s (w, b) new) (timeoutMs : Option Int) (message : String) :
    Trying id x s ({ w with log := .executed id x.stepIndex timeoutMs (.throws message) :: w.log }, b)
      (.executed id x.stepIndex timeoutMs (.throws message) :: new) where
  toTouches := h.toTouches.execute timeoutMs _
  unsettled := List.forall_mem_cons.mpr ⟨nofun, h.unsettled⟩
  fruitless hb timeoutMs hmem := by
    rcases List.mem_cons.mp hmem with heq | hmem
    · cases heq
    · exact h.fruitless hb timeoutMs hmem

theorem Trying.trans {s₁ : World × Bool} (h : Trying id x s s₁ new) (hy : x.Kin y)
    (h' : Trying id y s₁ s' new') : Trying id x s s' (new' ++ new) where
  toTouches := h.toTouches.trans hy h'.toTouches
  unsettled effect heffect := (List.mem_append.mp heffect).elim (h'.unsettled effect)
    (h.unsettled effect)
  fruitless hflag timeoutMs hmem := (List.mem_append.mp hmem).elim
    (hy.stepIndex ▸ h'.fruitless hflag timeoutMs) (h.fruitless (h'.flag hflag) timeoutMs)

end Touches

/-! ## Where steps are executed -/

/-- A step of a workflow is executed only where `G` holds. -/
def Request.Guarded (G : Nat → Nat → World × Bool → Prop) : Request → World × Bool → Prop
  | .execute id stepIndex _ _, s => G id stepIndex s
  | _, _ => True

/-- The rules of a repository that may reject, with a guard for the executions. -/
abbrev watched (G : Nat → Nat → World × Bool → Prop) : Async.Rules Request Answer (World × Bool) :=
  guarding (flagged (fun c => c.rejects.isNone) answer) (Request.Guarded G)

section Watched

variable {G : Nat → Nat → World × Bool → Prop} {id : Nat} {w : World} {b : Bool} {τ : Type}

/-- A block that executes nothing needs no guard. -/
theorem watched_of_tracked {α : Type} {m : On τ α} {x : τ} {Q : α → τ → World × Bool → Prop}
    {E : Error → τ → World × Bool → Prop} {s : World × Bool}
    (hkeep : wp (Async.keeping (fun a => ∀ s, a.Guarded (fun _ _ _ => False) s) fun _ _ => True) m
      (fun _ _ _ => True) (fun _ _ _ => True) x ())
    (h : wp tracked m Q E x s) : wp (watched G) m Q E x s := by
  refine Block.wp_guarding_of_keeping (fun a s ha => ?_) hkeep h
  cases a with
  | execute id stepIndex stepName timeoutMs => exact (ha s).elim
  | _ => trivial

theorem saveStep_watched {x : StepEntity} {Q : Unit → StepEntity → World × Bool → Prop}
    {E : Error → StepEntity → World × Bool → Prop}
    (hQ : ∀ now, Q () { x with seen := x.state }
      ({ w.putStep now x with log := .saved x.id x.toWorkflowStep :: w.log }, b))
    (hE : ∀ e, E e x (w, false)) : wp (watched G) saveStep Q E x (w, b) :=
  watched_of_tracked ⟨fun _ => trivial, fun r _ => by cases r <;> trivial⟩ (saveStep_tracked hQ hE)

theorem saveWorkflow_watched {x : WorkflowEntity} {Q : Unit → WorkflowEntity → World × Bool → Prop}
    {E : Error → WorkflowEntity → World × Bool → Prop}
    (hQ : ∀ now, Q () { x with
      seen := x.state
      steps := x.steps.map (·.map fun step => { step with seen := step.state }) }
      (w.putWorkflow now x, b))
    (hE : ∀ e, E e x (w, false)) : wp (watched G) saveWorkflow Q E x (w, b) :=
  watched_of_tracked ⟨fun _ => trivial, fun r _ => by cases r <;> trivial⟩
    (saveWorkflow_tracked hQ hE)

theorem setTimeout_watched {x : τ} {Q : Unit → τ → World × Bool → Prop}
    {E : Error → τ → World × Bool → Prop} (hQ : Q () x (w, b)) :
    wp (watched G) setTimeout Q E x (w, b) :=
  watched_of_tracked ⟨fun _ => trivial, fun _ _ => trivial⟩ (setTimeout_tracked hQ)

theorem execute_watched {x : τ} {stepIndex : Nat} {stepName : String} {timeoutMs : Option Int}
    {Q : Unit → τ → World × Bool → Prop} {E : Error → τ → World × Bool → Prop}
    (hG : G id stepIndex (w, b))
    (hreturns : Q () x ({ w with log := .executed id stepIndex timeoutMs .returns :: w.log }, b))
    (hthrows : ∀ message, E (.error message) x
      ({ w with log := .executed id stepIndex timeoutMs (.throws message) :: w.log }, b))
    (hexceeds : ∀ message, E (.timeout message) x
      ({ w with log := .executed id stepIndex timeoutMs .exceedsTimeout :: w.log }, b)) :
    wp (watched G) (request (.execute id stepIndex stepName timeoutMs) fun r => r) Q E x (w, b) :=
  ⟨hG, execute_tracked hreturns hthrows hexceeds⟩

/-- The workflow that is being executed cannot be compensated. -/
theorem compensateWorkflow_watched (hstate : storedState w id = some .running) {x : τ}
    {Q : Unit → τ → World × Bool → Prop} {E : Error → τ → World × Bool → Prop}
    (hE : ∀ e, E e x (w, b)) (hrejected : ∀ e, E e x (w, false)) :
    wp (watched G) (call (compensateWorkflow id) ()) Q E x (w, b) := by
  obtain ⟨row, hrow, hrunning⟩ := Option.map_eq_some_iff.mp hstate
  have hfind : wp (watched G) (findWorkflow id true)
      (fun workflow _ s => workflow.state = .running ∧ s = (w, b)) (fun e _ s => E e x s) () (w, b) := by
    refine watched_of_tracked ⟨fun _ => trivial, fun r _ => ?_⟩
      (findWorkflow_tracked (fun row' hrow' => ?_) (fun _ => hE) hrejected)
    · rcases r with e | ⟨_ | workflow⟩ <;> trivial
    · obtain rfl : row = row' := Option.some.inj (hrow.symm.trans hrow')
      exact ⟨hrunning, rfl⟩
  refine wp_call.mpr (wp_bind.mpr (Block.wp_mono ?_ (fun _ _ _ h => h) hfind))
  rintro workflow - - ⟨hrunning, rfl⟩
  rw [if_pos (hrunning ▸ by decide)]
  exact hE _

end Watched

/-! ## One step, from its first attempt to its last -/

/-- From `s` to `s'` the step `x` was attempted, and has become `y`; the first attempt is given
`given`. -/
structure Tries (id : Nat) (stepDefinition : Option StepDefinition) (given : Option Int)
    (x : StepEntity) (s s' : World × Bool) (y : StepEntity) (new : List Effect) : Prop
    extends Touches id x s s' new where
  kin : x.Kin y
  count : (attempts id x.stepIndex new).length ≤ max 1 (x.maxRetries - x.retryCount)
  exact : s'.2 = true → ∀ definition, stepDefinition = some definition →
    Tried definition.timeout given (x.maxRetries - x.retryCount) (attempts id x.stepIndex new) ∧
      y.retryCount = x.retryCount + failures (attempts id x.stepIndex new)

/-- The step has returned. -/
structure Passes (id : Nat) (stepDefinition : Option StepDefinition) (given : Option Int)
    (x : StepEntity) (s s' : World × Bool) (y : StepEntity) (new : List Effect) : Prop
    extends Tries id stepDefinition given x s s' y new where
  unsettled : ∀ effect ∈ new, ¬ effect.Final
  returned : ∃ timeoutMs, Effect.executed id x.stepIndex timeoutMs .returns ∈ new
  stored : y.Stored s'.1
  completed : y.state = .completed

/-- The step is given up. -/
structure Fails (id : Nat) (stepDefinition : Option StepDefinition) (given : Option Int)
    (x : StepEntity) (s s' : World × Bool) (y : StepEntity) (new : List Effect) : Prop
    extends Tries id stepDefinition given x s s' y new where
  stored : s'.2 = true → y.Stored s'.1
  failed : s'.2 = true → y.state = .failed

/-- One attempt at the step `x` is over, with a result that has `P` if it was executed. -/
structure Once (id : Nat) (stepDefinition : Option StepDefinition) (given : Option Int)
    (x : StepEntity) (P : StepResult → Prop) (s' : World × Bool) (y : StepEntity)
    (new : List Effect) : Prop where
  kin : x.Kin y
  retryCount : y.retryCount = x.retryCount
  count : (attempts id x.stepIndex new).length ≤ 1
  exact : s'.2 = true → ∀ definition, stepDefinition = some definition →
    ∃ result, P result ∧
      attempts id x.stepIndex new = [(definition.timeout <|> given, result)]

section Step

variable {G : Nat → Nat → World × Bool → Prop} {id : Nat} {stepDefinition : Option StepDefinition}
  {given : Option Int} {x y z : StepEntity} {s s₁ s' : World × Bool} {w : World} {b : Bool}
  {new new' : List Effect}

/-- An attempt that is the last one. -/
theorem Once.tries {P : StepResult → Prop} (h : Once id stepDefinition given x P s₁ y new)
    (htouches : Touches id x s s' new') (hattempts : attempts id x.stepIndex new' =
      attempts id x.stepIndex new) (hflag : s'.2 = true → s₁.2 = true) (hz : y.Kin z)
    (hlast : ∀ message, P (.throws message) → x.maxRetries - x.retryCount ≤ 1)
    (hcount : ∀ result, P result →
      z.retryCount = x.retryCount + if result = .returns then 0 else 1) :
    Tries id stepDefinition given x s s' z new' where
  toTouches := htouches
  kin := h.kin.trans hz
  count := by
    rw [hattempts]
    exact h.count.trans (Nat.le_max_left 1 _)
  exact hb definition hdefinition := by
    obtain ⟨result, hP, heq⟩ := h.exact (hflag hb) definition hdefinition
    rw [hattempts, heq, hcount result hP]
    refine ⟨.last fun message hthrows => hlast message (hthrows ▸ hP), ?_⟩
    cases result <;> rfl

/-- An attempt that is retried. -/
theorem Once.retried {s₀ : World × Bool}
    (h : Once id stepDefinition given x (fun r => ∃ m, r = .throws m) s₀ y new)
    (htouches : Touches id x s s₁ new') (hattempts : attempts id x.stepIndex new' =
      attempts id x.stepIndex new) (hflag : s₁.2 = true → s₀.2 = true) {y' : StepEntity} (hy : x.Kin y')
    (hcount : y'.retryCount = x.retryCount + 1) (hleft : y'.retryCount < y'.maxRetries)
    {later : List Effect} (hlater : Tries id stepDefinition none y' s₁ s' z later) :
    Tries id stepDefinition given x s s' z (later ++ new') where
  toTouches := htouches.trans hy hlater.toTouches
  kin := hy.trans hlater.kin
  count := by
    have hlast := hlater.count
    have hfirst := h.count
    have hmax := hy.maxRetries
    rw [hy.stepIndex] at hlast
    rw [attempts_append, List.length_append, hattempts]
    omega
  exact hb definition hdefinition := by
    obtain ⟨result, ⟨message, rfl⟩, heq⟩ := h.exact (hflag (hlater.flag hb)) definition hdefinition
    obtain ⟨htried, hretries⟩ := hlater.exact hb definition hdefinition
    have hmax := hy.maxRetries
    have hone : x.maxRetries - x.retryCount = (y'.maxRetries - y'.retryCount) + 1 := by omega
    rw [hy.stepIndex] at htried hretries
    rw [attempts_append, hattempts, heq, hone, failures_append]
    refine ⟨.retried (by omega) htried, ?_⟩
    rw [hretries, hcount, Nat.add_assoc, Nat.add_comm 1]
    rfl

theorem Fails.of_rejected (h : Touches id x s (w, false) new) (hy : x.Kin y)
    (hcount : (attempts id x.stepIndex new).length ≤ 1) :
    Fails id stepDefinition given x s (w, false) y new :=
  ⟨⟨h, hy, hcount.trans (Nat.le_max_left 1 _), nofun⟩, nofun, nofun⟩

/-- What the handler of an attempt is given. -/
def Caught (id : Nat) (stepDefinition : Option StepDefinition) (given : Option Int) (x : StepEntity)
    (s : World × Bool) (e : Error) (s' : World × Bool) (y : StepEntity) (new : List Effect) : Prop :=
  match e with
  | .error _ => Trying id x s s' new ∧
      Once id stepDefinition given x (fun result => ∃ message, result = .throws message) s' y new
  | .timeout _ => Touches id x s s' new ∧
      Once id stepDefinition given x (fun result => result = .exceedsTimeout) s' y new

/-- The function of the step is executed, and the step saved as completed. -/
theorem execution_watched {definition : StepDefinition} (hstep : stepDefinition = some definition)
    (hG : ∀ s' new, Trying id x s s' new → G id x.stepIndex s') (h : Trying id x s (w, b) new)
    (hy : x.Kin y) (hcount : y.retryCount = x.retryCount)
    (hnone : attempts id x.stepIndex new = []) :
    wp (watched G) (do
        request (.execute id x.stepIndex x.stepName (definition.timeout <|> given)) fun r => r
        modify fun step => { step with state := .completed }
        saveStep : On StepEntity Unit)
      (fun _ z s' => ∃ new, Passes id stepDefinition given x s s' z new)
      (fun e z s' => ∃ new, Caught id stepDefinition given x s e s' z new) y (w, b) := by
  have hattempts : ∀ result, attempts id x.stepIndex
      (.executed id x.stepIndex (definition.timeout <|> given) result :: new) =
        [(definition.timeout <|> given, result)] := fun result => by
    rw [attempts_executed, hnone]
  have honce : ∀ (P : StepResult → Prop) result s', P result →
      Once id stepDefinition given x P s' y
        (.executed id x.stepIndex (definition.timeout <|> given) result :: new) :=
    fun P result s' hP => ⟨hy, hcount, (hattempts result ▸ Nat.le_refl 1), fun _ d hd => by
      cases hstep.symm.trans hd
      exact ⟨result, hP, hattempts result⟩⟩
  refine wp_bind.mpr (execute_watched (hG _ _ h) ?_ (fun message => ?_) fun message => ?_)
  · have htouches := h.toTouches.execute (definition.timeout <|> given) .returns
    have hunsettled : ∀ effect ∈ Effect.executed id x.stepIndex (definition.timeout <|> given)
        .returns :: new, ¬ effect.Final := List.forall_mem_cons.mpr ⟨nofun, h.unsettled⟩
    have hz : x.Kin { y with state := .completed } := ⟨hy.id, hy.workflowId, hy.stepIndex, hy.maxRetries⟩
    refine wp_bind.mpr (wp_modify.mpr (saveStep_watched (fun now => ?_) fun e => ?_))
    · refine ⟨_, ⟨(honce (fun result => result = .returns) .returns (w, b) rfl).tries
        (htouches.save hz now) rfl (fun hb => hb) ⟨rfl, rfl, rfl, rfl⟩ nofun fun result hresult => ?_,
        List.forall_mem_cons.mpr ⟨nofun, hunsettled⟩,
        ⟨_, List.mem_cons_of_mem _ List.mem_cons_self⟩, stored_putStep _ _ _ _, rfl⟩⟩
      rw [if_pos hresult]
      exact hcount
    · -- it has returned, but this could not be saved
      cases e with
      | error message =>
        exact ⟨_, ⟨htouches.reject, hunsettled, nofun⟩, hz, hcount, (hattempts _ ▸ Nat.le_refl 1), nofun⟩
      | timeout message =>
        exact ⟨_, htouches.reject, hz, hcount, (hattempts _ ▸ Nat.le_refl 1), nofun⟩
  · exact ⟨_, h.execute _ message, honce _ _ _ ⟨message, rfl⟩⟩
  · exact ⟨_, h.toTouches.execute _ _, honce _ _ _ rfl⟩

/-- After an `Error` the step is tried again, or it has failed. -/
theorem retryOrFail_watched {message : String} {retry : On StepEntity Unit}
    (hretry : ∀ y s₁ new, Trying id x s s₁ new → x.Kin y → y.state = .failed →
      y.retryCount = x.retryCount + 1 → y.retryCount < y.maxRetries →
      wp (watched G) retry (fun _ z s' => ∃ new, Passes id stepDefinition none y s₁ s' z new)
        (fun _ z s' => ∃ new, Fails id stepDefinition none y s₁ s' z new) y s₁)
    (h : Caught id stepDefinition given x s (.error message) (w, b) y new) :
    wp (watched G) (do
        modify fun step => { step with state := .failed, retryCount := step.retryCount + 1 }
        let step ← get
        if shouldRetry .failed step.retryCount step.maxRetries then
          saveStep
          setTimeout
          retry
        else
          saveStep
          throw (.error
            s!"Step {step.stepName} failed after {step.retryCount} retries: {message}") :
        On StepEntity Unit)
      (fun _ z s' => ∃ new, Passes id stepDefinition given x s s' z new)
      (fun _ z s' => ∃ new, Fails id stepDefinition given x s s' z new) y (w, b) := by
  obtain ⟨htrying, honce⟩ := h
  have hkin : x.Kin { y with state := .failed, retryCount := y.retryCount + 1 } :=
    ⟨honce.kin.id, honce.kin.workflowId, honce.kin.stepIndex, honce.kin.maxRetries⟩
  refine wp_bind.mpr (wp_modify.mpr (wp_bind.mpr (wp_get.mpr ?_)))
  split
  · next hleft =>
    refine wp_bind.mpr (saveStep_watched (fun now => ?_) fun e =>
      ⟨_, .of_rejected htrying.toTouches.reject hkin honce.count⟩)
    have hsaved := htrying.save hkin (fun _ => hleft.2) now
    have hcount : y.retryCount + 1 = x.retryCount + 1 := congrArg (· + 1) honce.retryCount
    have hkin' : x.Kin { y with state := .failed, retryCount := y.retryCount + 1, seen := .failed } :=
      ⟨hkin.id, hkin.workflowId, hkin.stepIndex, hkin.maxRetries⟩
    refine wp_bind.mpr (setTimeout_watched (Block.wp_mono ?_ ?_
      (hretry _ _ _ hsaved hkin' rfl hcount hleft.2)))
    · rintro - z s' ⟨later, hpasses⟩
      refine ⟨_, honce.retried hsaved.toTouches rfl (fun hb => hb) hkin' hcount hleft.2 hpasses.toTries,
        fun effect heffect => ?_, ?_, hpasses.stored, hpasses.completed⟩
      · exact (List.mem_append.mp heffect).elim (hpasses.unsettled effect) (hsaved.unsettled effect)
      · obtain ⟨timeoutMs, hreturned⟩ := hpasses.returned
        exact ⟨timeoutMs, List.mem_append_left _ (hkin.stepIndex ▸ hreturned)⟩
    · rintro - z s' ⟨later, hfails⟩
      exact ⟨_, honce.retried hsaved.toTouches rfl (fun hb => hb) hkin' hcount hleft.2 hfails.toTries,
        hfails.stored, hfails.failed⟩
  · next hleft =>
    refine wp_bind.mpr (saveStep_watched (fun now => ?_) fun e =>
      ⟨_, .of_rejected htrying.toTouches.reject hkin honce.count⟩)
    refine ⟨_, honce.tries (htrying.toTouches.save hkin now) rfl (fun hb => hb)
      ⟨rfl, rfl, rfl, rfl⟩ (fun _ _ => ?_) (fun result hresult => ?_), fun _ =>
        stored_putStep _ _ _ _, fun _ => rfl⟩
    · have hnot : ¬ y.retryCount + 1 < y.maxRetries := fun hlt => hleft ⟨rfl, hlt⟩
      rw [honce.retryCount, honce.kin.maxRetries] at hnot
      omega
    · obtain ⟨message, rfl⟩ := hresult
      exact congrArg (· + 1) honce.retryCount

/-- After a timeout the step has failed, and the compensation is refused. -/
theorem compensate_watched {message : String} (hstate : storedState s.1 id = some .running)
    (h : Caught id stepDefinition given x s (.timeout message) (w, b) y new) :
    wp (watched G) (do
        modify fun step => { step with state := .failed, retryCount := step.retryCount + 1 }
        saveStep
        call (compensateWorkflow id) ()
        throw (.timeout message) : On StepEntity Unit)
      (fun _ z s' => ∃ new, Passes id stepDefinition given x s s' z new)
      (fun _ z s' => ∃ new, Fails id stepDefinition given x s s' z new) y (w, b) := by
  obtain ⟨htouches, honce⟩ := h
  have hkin : x.Kin { y with state := .failed, retryCount := y.retryCount + 1 } :=
    ⟨honce.kin.id, honce.kin.workflowId, honce.kin.stepIndex, honce.kin.maxRetries⟩
  refine wp_bind.mpr (wp_modify.mpr (wp_bind.mpr (saveStep_watched (fun now => ?_) fun e =>
    ⟨_, .of_rejected htouches.reject hkin honce.count⟩)))
  have hsaved := htouches.save hkin now
  refine wp_bind.mpr (compensateWorkflow_watched ?_ (fun e => ?_) fun e =>
    ⟨_, .of_rejected hsaved.reject ⟨hkin.id, hkin.workflowId, hkin.stepIndex, hkin.maxRetries⟩
      honce.count⟩)
  · exact (storedState_congr hsaved.workflows).trans hstate
  · refine ⟨_, honce.tries hsaved rfl (fun hb => hb) ⟨rfl, rfl, rfl, rfl⟩ nofun
      (fun result hresult => ?_), fun _ => stored_putStep _ _ _ _, fun _ => rfl⟩
    rw [hresult]
    exact congrArg (· + 1) honce.retryCount

/-- **One attempt**: the step passes, or fails, or is left to the next attempt. -/
theorem attemptStep_watched {retry : On StepEntity Unit}
    (hG : ∀ s' new, Trying id x (w, b) s' new → G id x.stepIndex s')
    (hstate : storedState w id = some .running) (hok : canTransitionStep x.state .running)
    (hretry : ∀ y s₁ new, Trying id x (w, b) s₁ new → x.Kin y → y.state = .failed →
      y.retryCount = x.retryCount + 1 → y.retryCount < y.maxRetries →
      wp (watched G) retry (fun _ z s' => ∃ new, Passes id stepDefinition none y s₁ s' z new)
        (fun _ z s' => ∃ new, Fails id stepDefinition none y s₁ s' z new) y s₁) :
    wp (watched G) (attemptStep id stepDefinition given retry)
      (fun _ z s' => ∃ new, Passes id stepDefinition given x (w, b) s' z new)
      (fun _ z s' => ∃ new, Fails id stepDefinition given x (w, b) s' z new) x (w, b) := by
  have htransition : transitionStep x.state .running = .ok () := if_pos hok
  unfold attemptStep
  refine wp_bind.mpr (wp_get.mpr ?_)
  rw [htransition]
  refine wp_bind.mpr (wp_modify.mpr (wp_bind.mpr (saveStep_watched (fun now => ?_) fun e =>
    ⟨[], .of_rejected (Touches.refl id x (w, b)).reject ⟨rfl, rfl, rfl, rfl⟩ (Nat.zero_le _)⟩)))
  have hkin : ∀ state, x.Kin { x with state := .running, seen := state } := fun _ =>
    ⟨rfl, rfl, rfl, rfl⟩
  have hsaved : Trying id x (w, b) _ _ := (Trying.refl id x (w, b)).save (y := { x with
    state := .running }) ⟨rfl, rfl, rfl, rfl⟩ nofun now
  refine wp_tryCatch.mpr (Block.wp_mono
    (E := fun e y s' => ∃ new, Caught id stepDefinition given x (w, b) e s' y new)
    (fun _ _ _ h => h) ?_ ?_)
  · rintro (message | message) y ⟨w₁, b₁⟩ ⟨new, h⟩
    · exact retryOrFail_watched hretry h
    · exact compensate_watched hstate h
  have hagain := fun now' => hsaved.save (y := { x with state := .running, seen := .running })
    (hkin _) nofun now'
  have hrejected : ∀ e w₁ new, Trying id x (w, b) (w₁, b) new → attempts id x.stepIndex new = [] →
      ∃ new, Caught id stepDefinition given x (w, b) e (w₁, false)
        { x with state := .running, seen := .running } new := by
    intro e w₁ new h hnone
    have hle : (attempts id x.stepIndex new).length ≤ 1 := by
      rw [hnone]
      exact Nat.zero_le 1
    cases e with
    | error message => exact ⟨_, ⟨h.toTouches.reject, h.unsettled, nofun⟩, hkin _, rfl, hle, nofun⟩
    | timeout message => exact ⟨_, h.toTouches.reject, hkin _, rfl, hle, nofun⟩
  dsimp only
  cases hdefinition : stepDefinition with
  | none =>
    have hmissing : ∀ s' new message, Trying id x (w, b) s' new → attempts id x.stepIndex new = [] →
        ∃ new, Caught id none given x (w, b) (.error message) s'
          { x with state := .running, seen := .running } new := fun s' new message h hnone =>
      ⟨new, h, hkin _, rfl, hnone ▸ Nat.zero_le 1, fun _ _ => nofun⟩
    -- an idempotent step is saved once more
    split
    · exact wp_bind.mpr (saveStep_watched (fun now' => hmissing _ _ _ (hagain now') rfl)
        fun e => hdefinition ▸ hrejected e _ _ hsaved rfl)
    · exact hmissing _ _ _ hsaved rfl
  | some definition =>
    split
    · exact wp_bind.mpr (saveStep_watched (fun now' => execution_watched rfl hG (hagain now') (hkin _)
        rfl rfl) fun e => hdefinition ▸ hrejected e _ _ hsaved rfl)
    · exact execution_watched rfl hG hsaved (hkin _) rfl rfl

/-- **All attempts**: the step passes, or fails. -/
theorem executeStep_watched (hG : ∀ s' new, Trying id x (w, b) s' new → G id x.stepIndex s')
    (hstate : storedState w id = some .running) (hok : canTransitionStep x.state .running) :
    wp (watched G) (executeStep id stepDefinition given)
      (fun _ z s' => ∃ new, Passes id stepDefinition given x (w, b) s' z new)
      (fun _ z s' => ∃ new, Fails id stepDefinition given x (w, b) s' z new) x (w, b) := by
  refine wp_bind.mpr (wp_get.mpr ?_)
  generalize hleft : x.maxRetries - x.retryCount = left
  induction left generalizing x w b given with
  | zero =>
    refine attemptStep_watched hG hstate hok fun y s₁ new _ hy _ hcount hlt => ?_
    have hmax := hy.maxRetries
    omega
  | succ left ih =>
    refine attemptStep_watched hG hstate hok fun y s₁ new htrying hy hfailed hcount hlt => ?_
    have hmax := hy.maxRetries
    refine ih (fun s' new' h => ?_) ((storedState_congr htrying.workflows).trans hstate) ?_ (by omega)
    · rw [hy.stepIndex]
      exact hG s' _ (htrying.trans hy h)
    · rw [hfailed]
      decide

end Step

end Stellara.WorkflowEngine
