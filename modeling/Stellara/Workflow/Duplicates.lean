import Stellara.Workflow.Compensation
import Stellara.Workflow.Start

/-!
# Duplicate starts

Two calls with the same key find no row.  One takes the lock, creates the workflow, executes it
and gives the lock back; then the other takes the lock as well, and its row is rejected:

    call 1    row?   SET NX   row   steps   …   DEL
    call 2    row?                                    SET NX   row: unique constraint

The row is looked for before the lock is taken, and not again.  If no call takes the lock of a
key that has a row, and no step fails for good, all calls return the one workflow or have waited
for all of their time (`started_once`).
-/

namespace Stellara.WorkflowEngine

open Block
open Async (obeying Answered Apart interleave_obeys attempt attempt_cases)

/-! ## What is claimed of a run -/

/-- The workflow `id` was stored with the key at some time. -/
def EverStored (tr : List StartEvent) (key : String) (id : Nat) : Prop :=
  ∃ e ∈ tr, e.after.world.keys.lookup id = some key

/-- In this step call `i` executes a step of the workflow `id`. -/
def Executes (e : StartEvent) (i id : Nat) : Prop :=
  e.call = .resume i ∧ ∃ stepIndex stepName timeoutMs,
    e.before.awaited i = some (.tables (.execute id stepIndex stepName timeoutMs))

/-- By its readings of the clock, call `i` has waited for `ms`. -/
def Waited (tr : List StartEvent) (i : Nat) (ms : Int) : Prop :=
  ∃ e ∈ tr, ∃ e' ∈ tr, ∃ startedAt since interval now : Int,
    Answered answerStart e i .dateNow startedAt ∧
      Answered answerStart e' i (.delay since interval) now ∧ startedAt + ms ≤ now

/-- One row for each key, one call that executes it, and no call that fails without having waited
for all of its time. -/
structure StartedOnce (tr : List StartEvent) (t : StartSystem) : Prop where
  created : ∀ key id id', EverStored tr key id → EverStored tr key id' → id = id'
  executed : ∀ e ∈ tr, ∀ e' ∈ tr, ∀ i i' id, Executes e i id → Executes e' i' id → i = i'
  ends : ∀ i op r, t.tasks[i]? = some (.done (op, r)) →
    (∃ workflow, r = .ok workflow ∧
      t.world.keys.lookup workflow.id = some op.idempotencyKey) ∨
    ((∃ error, r = .error error) ∧ Waited tr i 5000)

/-- The lock of a key is not taken once the key has a row, a step that throws has retries left,
and no step exceeds its timeout.  The repository does not reject, and neither does Redis where
the lock is taken. -/
def StartsClear (c : Outside) (w : StartWorld) : StartRequest → Prop
  | .setNX lockKey _ =>
    c.rejects = none ∧
      (w.locks.lookup lockKey = none → ∀ e ∈ w.keys.entries, getWorkflowLockKey e.2 ≠ lockKey)
  | .tables (.execute id stepIndex _ _) =>
    match c.result with
    | .returns => True
    | .throws _ => ∀ step ∈ w.tables.stepsOf id, step.stepIndex = stepIndex →
        shouldRetry .failed (step.retryCount + 1) step.maxRetries
    | .exceedsTimeout => False
  | .findByKey _ | .insertWorkflow _ _ | .insertSteps _ | .tables _ => c.rejects = none
  | .randomUUID | .get _ | .del _ | .dateNow | .delay _ _ => True

instance (c : Outside) (w : StartWorld) : DecidablePred (StartsClear c w) := fun a => by
  induction a using StartRequest.casesOn with
  | tables a =>
    induction a using Request.casesOn with
    | execute id stepIndex stepName timeoutMs =>
      unfold StartsClear
      dsimp only
      induction c.result using StepResult.casesOn <;> dsimp only <;> infer_instance
    | _ => unfold StartsClear; infer_instance
  | _ => unfold StartsClear; infer_instance

abbrev StepStartsClear (e : StartEvent) : Prop := Async.Meets StartsClear e

namespace Duplicates

/-! ## The way of a call -/

/-- The work of the call that created the workflow.  `ids` are its steps, of which `current` was
saved last. -/
inductive Work
  | created
  | prepared
  | executing (ids : List Nat) (current : Option StepEntity)
  | deleting

inductive Stage
  | searching
  | drawing
  | locking (token : Nat)
  | refused
  | waiting (startedAt now : Int)
  | inserting (token : Nat)
  | found (id : Nat)
  | owning (token id : Nat) (work : Work)
  | released (id : Nat)

/-- `steps` is how many steps the definition has. -/
structure Point where
  key : String
  steps : Nat
  stage : Stage

def Work.asks (id : Nat) : Work → Request → Prop
  | .prepared, .saveWorkflow x => x.id = id ∧ x.steps = none
  | .prepared, .findSteps k => k = id
  | .executing _ _, .saveWorkflow x => x.id = id ∧ x.steps = none
  | .executing ids _, .saveStep x => x.id ∈ ids ∧ x.workflowId = id
  | .executing _ current, .execute k stepIndex _ _ =>
    k = id ∧ ∃ x, current = some x ∧ x.stepIndex = stepIndex
  | .executing _ _, .delay => True
  | .executing _ _, .findWorkflow k _ => k = id
  | _, _ => False

def asks (g : Point) : StartRequest → Prop
  | .findByKey key => key = g.key ∧
    (g.stage = .searching ∨ ∃ startedAt now, g.stage = .waiting startedAt now)
  | .randomUUID => g.stage = .drawing
  | .setNX lockKey token => lockKey = getWorkflowLockKey g.key ∧ g.stage = .locking token
  | .dateNow => g.stage = .refused
  | .delay since ms => ms = 100 ∧ ∃ startedAt, g.stage = .waiting startedAt since
  | .insertWorkflow key row => key = g.key ∧ row.state = .pending ∧
    ∃ token, g.stage = .inserting token
  | .insertSteps rows => ∃ token id, g.stage = .owning token id .created ∧
    ∀ row ∈ rows, row.workflowId = id ∧ row.state = .pending ∧ row.stepIndex < g.steps
  | .tables a => ∃ token id work, g.stage = .owning token id work ∧ work.asks id a
  | .get lockKey => lockKey = getWorkflowLockKey g.key ∧
    ∃ token id work, g.stage = .owning token id work
  | .del lockKey => lockKey = getWorkflowLockKey g.key ∧
    ∃ token id, g.stage = .owning token id .deleting

def Work.told (steps id : Nat) : Work → (a : Request) → Answer a → Prop
  | _, .saveWorkflow _, r => r = .ok ()
  | _, .saveStep _, r => r = .ok ()
  | _, .findSteps _, r => ∃ found, r = .ok found ∧
    ∀ x ∈ found, x.workflowId = id ∧ x.state = .pending ∧ x.stepIndex < steps
  | .executing _ current, .execute _ _ _ _, r => r = .ok () ∨
    ∃ message x, r = .error (.error message) ∧ current = some x ∧ x.retryCount + 1 < x.maxRetries
  | _, .findWorkflow _ _, r => ∃ found, r = .ok found ∧ ∀ x, found = some x → x.id = id
  | _, _, _ => True

def told (g : Point) : (a : StartRequest) → StartAnswer a → Prop
  | .findByKey _, r => ∃ found, r = .ok found
  | .setNX _ _, r => ∃ acquired, r = .ok acquired
  | .delay since ms, now => since + ms ≤ now
  | .insertWorkflow _ row, r => ∃ x : WorkflowEntity, r = .ok x ∧ x.type = row.type ∧
    x.state = .pending ∧ x.steps = none
  | .insertSteps _, r => r = .ok ()
  | .tables a, r =>
    match g.stage with
    | .owning _ id work => work.told g.steps id a r
    | _ => True
  | _, _ => True

def Work.next : Work → (a : Request) → Answer a → Work
  | .prepared, .findSteps _, .ok found => .executing (found.map StepEntity.id) none
  | .executing ids _, .saveStep x, _ => .executing ids (some x)
  | work, _, _ => work

def Stage.next (stage : Stage) : (a : StartRequest) → StartAnswer a → Stage
  | .findByKey _, .ok (some x) => .found x.id
  | .findByKey _, .ok none => if stage matches .searching then .drawing else stage
  | .randomUUID, token => .locking token
  | .setNX _ token, .ok acquired => if acquired then .inserting token else .refused
  | .dateNow, now => .waiting now now
  | .delay _ _, now =>
    match stage with
    | .waiting startedAt _ => .waiting startedAt now
    | _ => stage
  | .insertWorkflow _ _, .ok x =>
    match stage with
    | .inserting token => .owning token x.id .created
    | _ => stage
  | .insertSteps _, _ =>
    match stage with
    | .owning token id _ => .owning token id .prepared
    | _ => stage
  | .tables a, r =>
    match stage with
    | .owning token id work => .owning token id (work.next a r)
    | _ => stage
  | .get _, .ok currentToken =>
    match stage with
    | .owning token id _ =>
      if currentToken = some token then .owning token id .deleting else stage
    | _ => stage
  | .del _, .ok _ =>
    match stage with
    | .owning _ id _ => .released id
    | _ => stage
  | _, _ => stage

abbrev protocol : Protocol StartRequest StartAnswer Point :=
  ⟨asks, told, fun g a r => { g with stage := g.stage.next a r }⟩

def begin (registry : Registry) (op : StartCall) : Point :=
  ⟨op.idempotencyKey, ((registry op.type).elim 0 fun registered => registered.steps.length),
    .searching⟩

/-- The row that the call knows of. -/
def Stage.seen : Stage → Option Nat
  | .found id | .owning _ id _ | .released id => some id
  | _ => none

/-- The workflow that the call created. -/
def Stage.owned : Stage → Option Nat
  | .owning _ id _ | .released id => some id
  | _ => none

def Stage.token : Stage → Option Nat
  | .locking token | .inserting token | .owning token _ _ => some token
  | _ => none

/-- The token with which the call holds the lock. -/
def Stage.holds : Stage → Option Nat
  | .inserting token | .owning token _ _ => some token
  | _ => none

def End (x : StartCall × Except Error WorkflowEntity) (g : Point) : Prop :=
  g.key = x.1.idempotencyKey ∧
    ((∃ workflow, x.2 = .ok workflow ∧ g.stage.seen = some workflow.id) ∨
      ∃ error startedAt now, x.2 = .error error ∧ g.stage = .waiting startedAt now ∧
        startedAt + 5000 ≤ now)

/-! ## The execution by its creator -/

section Execution

variable {key : String} {steps token id : Nat}

/-- The creator at its work. -/
abbrev own (key : String) (steps token id : Nat) (work : Work) : Point :=
  ⟨key, steps, .owning token id work⟩

/-- What the protocol says of requests to the tables. -/
abbrev rules : Async.Rules Request Answer Point :=
  (obeying protocol).along StartRequest.tables fun _ r => r

/-- Nothing is thrown. -/
abbrev Never {ε τ : Type} (_ : ε) (_ : τ) (_ : Point) : Prop := False

/-- Of the steps `ids`, some are executed. -/
def Executing (key : String) (steps token id : Nat) (ids : List Nat) (g : Point) : Prop :=
  ∃ current, g = own key steps token id (.executing ids current)

theorem saveStep_obeys {ids : List Nat} {x : StepEntity} {g : Point}
    (hg : Executing key steps token id ids g) (hx : x.id ∈ ids) (hid : x.workflowId = id) :
    wp rules saveStep (fun _ y g' => y = { x with seen := x.state } ∧
      g' = own key steps token id (.executing ids (some x))) Never x g := by
  obtain ⟨current, rfl⟩ := hg
  refine wp_bind.mpr (wp_get.mpr (wp_bind.mpr ⟨⟨token, id, _, rfl, hx, hid⟩, ?_⟩))
  rintro r rfl
  exact ⟨rfl, rfl⟩

/-- A request to the tables. -/
theorem request_obeys {τ α : Type} (work : Work) {a : Request} {f : Answer a → Except Error α} {x : τ}
    {Q : α → τ → Point → Prop} (hasks : work.asks id a)
    (h : ∀ r, work.told steps id a r →
      Ends Q Never (f r, x) (own key steps token id (work.next a r))) :
    wp rules (request a f) Q Never x (own key steps token id work) :=
  ⟨⟨token, id, work, rfl, hasks⟩, h⟩

theorem saveWorkflow_obeys {x : WorkflowEntity} (work : Work)
    (hasks : work.asks id (.saveWorkflow x)) (hsteps : x.steps = none) :
    wp rules saveWorkflow (fun _ y g => y = { x with seen := x.state } ∧
      g = own key steps token id work) Never x (own key steps token id work) := by
  refine wp_bind.mpr (wp_get.mpr (wp_bind.mpr (request_obeys work hasks ?_)))
  intro r hr
  obtain rfl : r = .ok () := by cases work <;> exact hr
  refine ⟨?_, ?_⟩
  · rw [hsteps]
    rfl
  · cases work <;> rfl

/-- What an attempt leaves of a step. -/
structure Retried (x y : StepEntity) : Prop where
  id : y.id = x.id
  workflowId : y.workflowId = x.workflowId
  state : y.state = .failed
  retryCount : y.retryCount = x.retryCount + 1
  maxRetries : y.maxRetries = x.maxRetries

/-- A step that threw, with retries left. -/
structure Threw (key : String) (steps token : Nat) (ids : List Nat) (x : StepEntity) (e : Error)
    (y : StepEntity) (g : Point) : Prop where
  message : ∃ message, e = .error message
  id : y.id = x.id
  workflowId : y.workflowId = x.workflowId
  retryCount : y.retryCount = x.retryCount
  maxRetries : y.maxRetries = x.maxRetries
  left : x.retryCount + 1 < x.maxRetries
  executing : Executing key steps token x.workflowId ids g

theorem attemptStep_obeys {ids : List Nat} {x : StepEntity} {g : Point} {d : StepDefinition}
    {workflowTimeout : Option Int} {retry : On StepEntity Unit}
    (hg : Executing key steps token id ids g) (hx : x.id ∈ ids) (hid : x.workflowId = id)
    (hstate : x.state = .pending ∨ x.state = .failed)
    (hretry : ∀ y g, Retried x y → y.retryCount < y.maxRetries →
      Executing key steps token id ids g →
      wp rules retry (fun _ _ g => Executing key steps token id ids g) Never y g) :
    wp rules (attemptStep id (some d) workflowTimeout retry)
      (fun _ _ g => Executing key steps token id ids g) Never x g := by
  have hmay : transitionStep x.state .running = .ok () := by
    rcases hstate with hstate | hstate <;> rw [hstate] <;> rfl
  subst hid
  unfold attemptStep
  refine wp_bind.mpr (wp_get.mpr ?_)
  rw [hmay]
  refine wp_bind.mpr (wp_modify.mpr (wp_bind.mpr ?_))
  refine Block.wp_mono ?_ (fun _ _ _ h => h) (saveStep_obeys hg hx rfl)
  rintro - y g ⟨rfl, rfl⟩
  refine wp_tryCatch.mpr ?_
  -- the step as it is executed was saved last, idempotent or not
  have hrun : ∀ timeoutMs y current, y.id = x.id → y.workflowId = x.workflowId →
      y.retryCount = x.retryCount → y.maxRetries = x.maxRetries →
      current.stepIndex = x.stepIndex → current.retryCount = x.retryCount →
      current.maxRetries = x.maxRetries →
      wp rules (do
          request (.execute x.workflowId x.stepIndex x.stepName timeoutMs) fun r => r
          modify fun step => { step with state := .completed }
          saveStep : On StepEntity Unit)
        (fun _ _ g => Executing key steps token x.workflowId ids g) (Threw key steps token ids x) y
        (own key steps token x.workflowId (.executing ids (some current))) := by
    intro timeoutMs y current hyid hywf hycount hymax hindex hcount hmax
    refine wp_bind.mpr ⟨⟨token, _, _, rfl, rfl, current, rfl, hindex⟩, ?_⟩
    intro r hr
    obtain rfl | ⟨message, z, rfl, hz, hleft⟩ := hr
    · refine wp_bind.mpr (wp_modify.mpr ?_)
      refine Block.wp_mono ?_ (fun _ _ _ h => h.elim) (saveStep_obeys ⟨_, rfl⟩ (hyid ▸ hx) hywf)
      rintro - z g ⟨-, rfl⟩
      exact ⟨_, rfl⟩
    · cases hz
      rw [hcount, hmax] at hleft
      exact ⟨⟨message, rfl⟩, hyid, hywf, hycount, hymax, hleft, _, rfl⟩
  refine Block.wp_mono (E := Threw key steps token ids x) (fun _ _ _ h => h) ?_ ?_
  · rintro e z g ⟨⟨message, rfl⟩, hzid, hzwf, hzcount, hzmax, hleft, hg⟩
    refine wp_bind.mpr (wp_modify.mpr (wp_bind.mpr (wp_get.mpr ?_)))
    have hretries : shouldRetry .failed (z.retryCount + 1) z.maxRetries := ⟨rfl, by omega⟩
    dsimp only
    rw [if_pos hretries]
    refine wp_bind.mpr (Block.wp_mono ?_ (fun _ _ _ h => h) (saveStep_obeys hg (hzid ▸ hx) hzwf))
    rintro - y g ⟨rfl, rfl⟩
    refine wp_bind.mpr ⟨⟨token, _, _, rfl, trivial⟩, fun _ _ => ?_⟩
    refine hretry _ _ ⟨hzid, hzwf, rfl, ?_, hzmax⟩ hretries.2 ⟨_, rfl⟩
    show z.retryCount + 1 = x.retryCount + 1
    rw [hzcount]
  · dsimp only
    split
    · refine wp_bind.mpr (Block.wp_mono ?_ (fun _ _ _ h => h.elim) (saveStep_obeys ⟨_, rfl⟩ hx rfl))
      rintro - z g ⟨rfl, rfl⟩
      exact hrun _ _ _ rfl rfl rfl rfl rfl rfl rfl
    · exact hrun _ _ _ rfl rfl rfl rfl rfl rfl rfl

theorem executeStep_obeys {ids : List Nat} {x : StepEntity} {g : Point} {d : StepDefinition}
    {workflowTimeout : Option Int} (hg : Executing key steps token id ids g) (hx : x.id ∈ ids)
    (hid : x.workflowId = id) (hstate : x.state = .pending ∨ x.state = .failed) :
    wp rules (executeStep id (some d) workflowTimeout)
      (fun _ _ g => Executing key steps token id ids g) Never x g := by
  refine wp_bind.mpr (wp_get.mpr ?_)
  generalize hattempts : x.maxRetries - x.retryCount = attempts
  induction attempts generalizing x g workflowTimeout with
  | zero =>
    refine attemptStep_obeys hg hx hid hstate fun y g hy hleft _ => ?_
    have := hy.retryCount
    have := hy.maxRetries
    omega
  | succ attempts ih =>
    refine attemptStep_obeys hg hx hid hstate fun y g hy _ hg => ?_
    refine ih hg (hy.id ▸ hx) (hy.workflowId.trans hid) (.inr hy.state) ?_
    rw [hy.retryCount, hy.maxRetries]
    omega

/-- The workflow as its creator holds it. -/
structure Held (id : Nat) (x : WorkflowEntity) : Prop where
  id : x.id = id
  steps : x.steps = none

theorem executeEach_obeys {ids : List Nat} {definition : WorkflowDefinition}
    {found : List StepEntity} {x : WorkflowEntity} {g : Point} (hx : Held id x)
    (hg : Executing key steps token id ids g)
    (hfound : ∀ y ∈ found, y.id ∈ ids ∧ y.workflowId = id ∧ y.state = .pending ∧
      y.stepIndex < definition.steps.length) :
    wp rules (executeEach definition found)
      (fun _ x g => Held id x ∧ Executing key steps token id ids g) Never x g := by
  induction found generalizing x g with
  | nil => exact ⟨hx, hg⟩
  | cons step rest ih =>
    rw [List.forall_mem_cons] at hfound
    obtain ⟨⟨hmem, hwf, hstate, hindex⟩, hrest⟩ := hfound
    obtain ⟨current, rfl⟩ := hg
    refine wp_bind.mpr (wp_modify.mpr (wp_bind.mpr ?_))
    refine Block.wp_mono ?_ (fun _ _ _ h => h)
      (saveWorkflow_obeys (.executing ids current) ⟨hx.id, hx.steps⟩ hx.steps)
    rintro - y g ⟨rfl, rfl⟩
    refine wp_bind.mpr (wp_get.mpr (wp_bind.mpr (wp_call.mpr ?_)))
    obtain rfl : x.id = id := hx.id
    rw [List.getElem?_eq_getElem hindex]
    refine Block.wp_mono ?_ (fun _ _ _ h => h)
      (executeStep_obeys ⟨current, rfl⟩ hmem hwf (.inl hstate))
    rintro - - g hg
    exact ih ⟨rfl, hx.steps⟩ hg hrest

theorem executeWorkflow_obeys {registry : Registry} {registered : RegisteredWorkflow}
    {x : WorkflowEntity} (hx : Held id x) (hregistered : registry x.type = some registered)
    (hsteps : steps = registered.steps.length) (hstate : x.state = .pending) :
    wp rules (executeWorkflow registry.definitions)
      (fun _ x g => Held id x ∧ ∃ ids, Executing key steps token id ids g) Never x
      (own key steps token id .prepared) := by
  have hdefinition : registry.definitions x.type = some registered.definition := by
    unfold Registry.definitions
    rw [hregistered]
    rfl
  have hlength : registered.definition.steps.length = steps := by
    rw [hsteps]
    exact List.length_map _
  unfold executeWorkflow
  refine wp_bind.mpr (wp_get.mpr ?_)
  rw [hdefinition, hstate]
  refine wp_bind.mpr (wp_modify.mpr (wp_bind.mpr ?_))
  refine Block.wp_mono ?_ (fun _ _ _ h => h)
    (saveWorkflow_obeys .prepared ⟨hx.id, hx.steps⟩ hx.steps)
  rintro - y g ⟨rfl, rfl⟩
  refine wp_tryCatch.mpr (Block.wp_mono (E := Never) (fun _ _ _ h => h) (fun _ _ _ h => h.elim) ?_)
  refine wp_bind.mpr (wp_bind.mpr (wp_get.mpr (wp_bind.mpr ?_)))
  refine request_obeys .prepared hx.id ?_
  rintro r ⟨found, rfl, hfound⟩
  refine Block.wp_mono ?_ (fun _ _ _ h => h) (executeEach_obeys ⟨hx.id, hx.steps⟩
    (⟨none, rfl⟩ : Executing key steps token id (found.map StepEntity.id) _) ?_)
  · rintro - z g ⟨hz, current, rfl⟩
    refine wp_bind.mpr (wp_modify.mpr ?_)
    refine Block.wp_mono ?_ (fun _ _ _ h => h)
      (saveWorkflow_obeys (.executing _ current) ⟨hz.id, hz.steps⟩ hz.steps)
    rintro - y g ⟨rfl, rfl⟩
    exact ⟨⟨hz.id, hz.steps⟩, _, current, rfl⟩
  · intro y hy
    obtain ⟨hwf, hpending, hindex⟩ := hfound y hy
    exact ⟨List.mem_map_of_mem hy, hwf, hpending, hlength ▸ hindex⟩

end Execution

/-! ## The call -/

variable {key : String} {steps : Nat}

/-- The waiting ends with the row, or when its time is over; the rounds are enough for that. -/
theorem waitLoop_obeys {startedAt : Int} : ∀ {rounds : Nat} {now : Int},
    startedAt + 5000 ≤ now + 100 * rounds →
    wp (obeying protocol) (waitLoop key startedAt 5000 100 rounds now)
      (fun r _ g => g.key = key ∧ match r with
        | some x => g.stage = .found x.id
        | none => ∃ now, g.stage = .waiting startedAt now ∧ startedAt + 5000 ≤ now)
      Never () ⟨key, steps, .waiting startedAt now⟩
  | 0, now, hrounds => ⟨rfl, now, rfl, by omega⟩
  | rounds + 1, now, hrounds => by
    unfold waitLoop
    split
    · refine wp_bind.mpr ⟨⟨rfl, .inr ⟨startedAt, now, rfl⟩⟩, ?_⟩
      rintro r ⟨found, rfl⟩
      cases found with
      | some x => exact ⟨rfl, rfl⟩
      | none =>
        refine wp_bind.mpr ⟨⟨rfl, startedAt, rfl⟩, fun now' (hnow : now + 100 ≤ now') => ?_⟩
        exact waitLoop_obeys (by omega)
    · exact ⟨rfl, now, rfl, by omega⟩

theorem waitForWorkflow_obeys :
    wp (obeying protocol) (waitForWorkflow key 5000 100)
      (fun r _ g => g.key = key ∧ match r with
        | some x => g.stage = .found x.id
        | none => ∃ startedAt now, g.stage = .waiting startedAt now ∧ startedAt + 5000 ≤ now)
      Never () ⟨key, steps, .refused⟩ := by
  refine wp_bind.mpr ⟨rfl, fun (startedAt : Int) _ => ?_⟩
  have hrounds : startedAt + 5000 ≤ startedAt + 100 * (((5000 : Int) / 100).toNat + 1 : Nat) := by
    have hcast : ((((5000 : Int) / 100).toNat + 1 : Nat) : Int) = 51 := by rfl
    rw [hcast]
    omega
  refine Block.wp_mono ?_ (fun _ _ _ h => h) (waitLoop_obeys hrounds)
  rintro r - g ⟨hkey, hr⟩
  refine ⟨hkey, ?_⟩
  cases r with
  | some x => exact hr
  | none => exact ⟨startedAt, hr⟩

theorem createAndExecute_obeys {registry : Registry} {registered : RegisteredWorkflow} {type : String}
    {token : Nat} (hregistered : registry type = some registered)
    (hsteps : steps = registered.steps.length) :
    wp (obeying protocol) (createAndExecute registry registered type key)
      (fun x _ g => ∃ ids, Executing key steps token x.id ids g) Never ()
      ⟨key, steps, .inserting token⟩ := by
  refine wp_bind.mpr ⟨⟨rfl, rfl, token, rfl⟩, ?_⟩
  rintro r ⟨workflow, rfl, htype, hstate, hnone⟩
  refine wp_bind.mpr ⟨⟨token, workflow.id, rfl, ?_⟩, ?_⟩
  · intro row hrow
    obtain ⟨index, hlt, rfl⟩ := List.mem_mapIdx.mp hrow
    exact ⟨rfl, rfl, hsteps ▸ hlt⟩
  rintro r rfl
  refine wp_bind.mpr (wp_call.mpr (wp_bind.mpr (Block.wp_embed.mpr ?_)))
  refine Block.wp_mono ?_ (fun _ _ _ h => h)
    (executeWorkflow_obeys ⟨rfl, hnone⟩ (htype ▸ hregistered) hsteps hstate)
  rintro - saved g ⟨hsaved, ids, current, rfl⟩
  refine wp_bind.mpr ⟨⟨token, _, _, rfl, hsaved.id⟩, ?_⟩
  rintro r ⟨found, rfl, hfound⟩
  refine ⟨ids, current, ?_⟩
  have hid : (found.getD saved).id = workflow.id := by
    cases found with
    | none => exact hsaved.id
    | some x => exact hfound x rfl
  show own key steps token workflow.id (.executing ids current) = own key steps token _ _
  rw [hid]

/-- Giving the lock back fails silently. -/
theorem releaseWorkflowLock_obeys {token id : Nat} {ids : List Nat} {g : Point}
    (hg : Executing key steps token id ids g) :
    wp (obeying protocol) (releaseWorkflowLock (getWorkflowLockKey key) token)
      (fun _ _ g => g.key = key ∧ g.stage.seen = some id) Never () g := by
  obtain ⟨current, rfl⟩ := hg
  refine wp_tryCatch.mpr (wp_bind.mpr ⟨⟨rfl, token, id, _, rfl⟩, fun r _ => ?_⟩)
  cases r with
  | error e => exact ⟨rfl, rfl⟩
  | ok currentToken =>
    by_cases htoken : currentToken = some token
    · show wp (obeying protocol) (if currentToken = some token then _ else _) _ _ ()
        ⟨key, steps, if currentToken = some token then _ else _⟩
      rw [if_pos htoken, if_pos htoken]
      refine ⟨⟨rfl, token, id, rfl⟩, fun r _ => ?_⟩
      cases r with
      | error e => exact ⟨rfl, rfl⟩
      | ok _ => exact ⟨rfl, rfl⟩
    · show wp (obeying protocol) (if currentToken = some token then _ else _) _ _ ()
        ⟨key, steps, if currentToken = some token then _ else _⟩
      rw [if_neg htoken, if_neg htoken]
      exact ⟨rfl, rfl⟩

theorem startWorkflow_obeys {registry : Registry} {op : StartCall}
    (hop : (registry op.type).isSome = true) :
    Async.wp (obeying protocol)
      (Async.labelled (fun op => (startWorkflow registry op).program) op) End (begin registry op) := by
  obtain ⟨registered, hregistered⟩ := Option.isSome_iff_exists.mp hop
  have hbegin : begin registry op = ⟨op.idempotencyKey, registered.steps.length, .searching⟩ := by
    unfold begin
    rw [hregistered]
    rfl
  rw [hbegin, Async.wp_labelled]
  refine wp_program.mpr ?_
  unfold startWorkflow
  rw [hregistered]
  refine wp_bind.mpr ⟨⟨rfl, .inl rfl⟩, ?_⟩
  rintro r ⟨found, rfl⟩
  cases found with
  | some x => exact ⟨rfl, .inl ⟨x, rfl, rfl⟩⟩
  | none =>
    refine wp_bind.mpr ⟨rfl, fun token _ => wp_bind.mpr ⟨⟨rfl, rfl⟩, ?_⟩⟩
    rintro r ⟨acquired, rfl⟩
    cases acquired with
    | true =>
      refine wp_tryFinally.mpr (Block.wp_mono ?_ (fun _ _ _ h => h.elim)
        (createAndExecute_obeys hregistered rfl))
      rintro workflow - g ⟨ids, hg⟩
      refine Block.wp_mono ?_ (fun _ _ _ h => h.elim) (releaseWorkflowLock_obeys hg)
      rintro - - g ⟨hkey, hseen⟩
      exact ⟨hkey, .inl ⟨workflow, rfl, hseen⟩⟩
    | false =>
      refine wp_bind.mpr (Block.wp_mono ?_ (fun _ _ _ h => h.elim)
        waitForWorkflow_obeys)
      rintro r - g ⟨hkey, hr⟩
      cases r with
      | some x =>
        refine ⟨hkey, .inl ⟨x, rfl, ?_⟩⟩
        rw [hr]
        rfl
      | none =>
        obtain ⟨startedAt, now, hstage, hwaited⟩ := hr
        exact ⟨hkey, .inr ⟨_, startedAt, now, rfl, hstage, hwaited⟩⟩

/-! ## All calls and the world -/

/-- The rows of its steps are as the creator of the workflow left them. -/
def Work.Fits (tables : World) (id steps : Nat) : Work → Prop
  | .created => ∀ k row, tables.steps.lookup k = some row → row.workflowId ≠ id
  | .prepared => ∀ k row, tables.steps.lookup k = some row → row.workflowId = id →
    row.state = .pending ∧ row.stepIndex < steps
  | .executing ids current =>
    (∀ k ∈ ids, ∃ row, tables.steps.lookup k = some row ∧ row.workflowId = id) ∧
      ∀ x, current = some x → ∃ row, tables.steps.lookup x.id = some row ∧ row.workflowId = id ∧
        row.stepIndex = x.stepIndex ∧ row.retryCount = x.retryCount ∧ row.maxRetries = x.maxRetries
  | .deleting => True

/-- What a call knows of the world where it is. -/
structure Placed (w : StartWorld) (g : Point) : Prop where
  token : ∀ token, g.stage.token = some token → token < w.tokens
  lock : ∀ token, g.stage.holds = some token →
    w.locks.lookup (getWorkflowLockKey g.key) = some token
  seen : ∀ id, g.stage.seen = some id → w.keys.lookup id = some g.key
  inserting : ∀ token, g.stage = .inserting token → ∀ id, w.keys.lookup id ≠ some g.key
  work : ∀ token id work, g.stage = .owning token id work → work.Fits w.tables id g.steps

/-- Call `i` has read the clock, at first and last. -/
def ClockRead (tr : List StartEvent) (i : Nat) (startedAt now : Int) : Prop :=
  (∃ e ∈ tr, Answered answerStart e i .dateNow startedAt) ∧
    (now = startedAt ∨
      ∃ e ∈ tr, ∃ since interval, Answered answerStart e i (.delay since interval) now)

structure Books (tr : List StartEvent) (w : StartWorld) (gs : List Point) : Prop where
  wf : w.Wf
  placed : ∀ g ∈ gs, Placed w g
  tokens : Apart (fun g : Point => g.stage.token) gs
  owners : Apart (fun g : Point => g.stage.owned) gs
  stored : ∀ key id, EverStored tr key id → w.keys.lookup id = some key
  executed : ∀ e ∈ tr, ∀ i id, Executes e i id → ∃ g, gs[i]? = some g ∧ g.stage.owned = some id
  clocks : ∀ i g startedAt now, gs[i]? = some g → g.stage = .waiting startedAt now →
    ClockRead tr i startedAt now

/-- The steps of a workflow are untouched. -/
def SameSteps (id : Nat) (w w' : World) : Prop :=
  ∀ k row, row.workflowId = id →
    (w'.steps.lookup k = some row ↔ w.steps.lookup k = some row)

theorem Work.Fits.same {work : Work} {w w' : World} {id steps : Nat} (h : work.Fits w id steps)
    (hsame : SameSteps id w w') : work.Fits w' id steps := by
  cases work with
  | created => exact fun k row hrow hid => h k row ((hsame k row hid).mp hrow) hid
  | prepared => exact fun k row hrow hid => h k row ((hsame k row hid).mp hrow) hid
  | executing ids current =>
    refine ⟨fun k hk => ?_, fun x hx => ?_⟩
    · obtain ⟨row, hrow, hid⟩ := h.1 k hk
      exact ⟨row, (hsame k row hid).mpr hrow, hid⟩
    · obtain ⟨row, hrow, hid, hrest⟩ := h.2 x hx
      exact ⟨row, (hsame _ row hid).mpr hrow, hid, hrest⟩
  | deleting => trivial

theorem Stage.seen_of_owned {stage : Stage} {id : Nat} (h : stage.owned = some id) :
    stage.seen = some id := by
  cases stage <;> first | exact h | cases h

theorem Stage.token_of_holds {stage : Stage} {token : Nat} (h : stage.holds = some token) :
    stage.token = some token := by
  cases stage <;> first | exact h | cases h

/-- What a call knows stays true while others move. -/
theorem Placed.frame {w w' : StartWorld} {g : Point} (h : Placed w g)
    (htokens : w.tokens ≤ w'.tokens)
    (hlocks : ∀ token, g.stage.holds = some token →
      w.locks.lookup (getWorkflowLockKey g.key) = some token →
      w'.locks.lookup (getWorkflowLockKey g.key) = some token)
    (hkeys : ∀ id key, w.keys.lookup id = some key → w'.keys.lookup id = some key)
    (hnew : ∀ token, g.stage = .inserting token → ∀ id, w'.keys.lookup id = some g.key →
      w.keys.lookup id = some g.key)
    (hsteps : ∀ token id work, g.stage = .owning token id work → SameSteps id w.tables w'.tables) :
    Placed w' g where
  token token htoken := lt_of_lt_of_le (h.token token htoken) htokens
  lock token hholds := hlocks token hholds (h.lock token hholds)
  seen id hseen := hkeys id _ (h.seen id hseen)
  inserting token hstage id hid := h.inserting token hstage id (hnew token hstage id hid)
  work token id work hstage := (h.work token id work hstage).same (hsteps token id work hstage)

theorem ClockRead.cons {tr : List StartEvent} {i : Nat} {startedAt now : Int}
    (h : ClockRead tr i startedAt now) (e : StartEvent) : ClockRead (e :: tr) i startedAt now := by
  obtain ⟨⟨e₀, he₀, h₀⟩, h⟩ := h
  refine ⟨⟨e₀, List.mem_cons_of_mem e he₀, h₀⟩, h.imp_right ?_⟩
  rintro ⟨e₁, he₁, h₁⟩
  exact ⟨e₁, List.mem_cons_of_mem e he₁, h₁⟩

/-! ### What the requests do -/

theorem withKey_eq_some {w : StartWorld} {key : String} {id : Nat} (h : w.withKey key = some id) :
    w.keys.lookup id = some key := by
  obtain ⟨⟨k, key'⟩, hfind, rfl⟩ := Option.map_eq_some_iff.mp h
  have hfound := List.find?_some hfind
  have hkey : key' = key := of_decide_eq_true hfound
  subst hkey
  exact AList.mem_lookup_iff.mpr (List.mem_of_find?_eq_some hfind)

theorem withKey_eq_none {w : StartWorld} {key : String} (h : w.withKey key = none) (id : Nat) :
    w.keys.lookup id ≠ some key := by
  intro hid
  have hnone := List.find?_eq_none.mp (Option.map_eq_none_iff.mp h) ⟨id, key⟩
    (AList.mem_lookup_iff.mp hid)
  simp at hnone

theorem loadByKey_eq_some {w : StartWorld} {key : String} {x : WorkflowEntity}
    (h : w.loadByKey key = some x) : w.keys.lookup x.id = some key := by
  unfold StartWorld.loadByKey at h
  obtain ⟨id, hid, h⟩ := Option.bind_eq_some_iff.mp h
  obtain ⟨row, -, h⟩ := Option.bind_eq_some_iff.mp h
  cases h
  exact withKey_eq_some hid

/-- What an operation on the rows must leave. -/
theorem wf_tables {w : StartWorld} (h : w.Wf) {tables : World}
    (hworkflows : ∀ id row, w.tables.workflows.lookup id = some row →
      ∃ row', tables.workflows.lookup id = some row')
    (hsteps : ∀ k row, tables.steps.lookup k = some row →
      k < w.stepIds ∧ row.workflowId < w.workflowIds) : StartWorld.Wf { w with tables } where
  unique := h.unique
  given := h.given
  rows id key hid := by
    obtain ⟨row, hrow⟩ := h.rows id key hid
    exact hworkflows id row hrow
  steps := hsteps
  tokens := h.tokens

/-- The rows do not know of the locks. -/
theorem wf_locks {w : StartWorld} (h : w.Wf) {locks : Store String Nat} {tokens : Nat}
    (hdrawn : ∀ k token, locks.lookup k = some token → token < tokens) :
    StartWorld.Wf { w with locks, tokens } where
  unique := h.unique
  given := h.given
  rows := h.rows
  steps := h.steps
  tokens := hdrawn

theorem wf_insertWorkflow {w : StartWorld} (h : w.Wf) {now : Int} {key : String} {row : Workflow}
    (hkey : ∀ id, w.keys.lookup id ≠ some key) : (w.insertWorkflow now key row).Wf := by
  have hcases : ∀ id key', (w.insertWorkflow now key row).keys.lookup id = some key' →
      id = w.workflowIds ∧ key' = key ∨ w.keys.lookup id = some key' := by
    intro id key' hid
    have hid : (w.keys.insert w.workflowIds key).lookup id = some key' := hid
    rw [Store.lookup_insert_eq] at hid
    split at hid
    · next heq => exact .inl ⟨heq, (Option.some.inj hid).symm⟩
    · exact .inr hid
  refine ⟨?_, ?_, ?_, ?_, h.tokens⟩
  · intro id id' key' hid hid'
    rcases hcases id key' hid with ⟨rfl, rfl⟩ | hold <;>
      rcases hcases id' key' hid' with ⟨rfl, hkey'⟩ | hold'
    · rfl
    · exact absurd hold' (hkey id')
    · exact absurd (hkey' ▸ hold) (hkey id)
    · exact h.unique id id' key' hold hold'
  · intro id key' hid
    show id < w.workflowIds + 1
    rcases hcases id key' hid with ⟨rfl, -⟩ | hold
    · omega
    · have := h.given id key' hold
      omega
  · intro id key' hid
    show ∃ row', (w.tables.workflows.insert w.workflowIds { row with updatedAt := now }).lookup id =
      some row'
    rw [Store.lookup_insert_eq]
    split
    · exact ⟨_, rfl⟩
    · next hne =>
      exact h.rows id key' ((hcases id key' hid).resolve_left fun heq => hne heq.1)
  · intro k row' hrow'
    have := h.steps k row' hrow'
    exact ⟨this.1, Nat.lt_succ_of_lt this.2⟩

/-- The rows of some steps were inserted. -/
structure Inserted (rows : List WorkflowStep) (now : Int) (w w' : StartWorld) : Prop where
  keys : w'.keys = w.keys
  workflows : w'.tables.workflows = w.tables.workflows
  workflowIds : w'.workflowIds = w.workflowIds
  stepIds : w.stepIds ≤ w'.stepIds
  locks : w'.locks = w.locks
  tokens : w'.tokens = w.tokens
  old : ∀ k row, w.tables.steps.lookup k = some row → w'.tables.steps.lookup k = some row
  new : ∀ k row, w'.tables.steps.lookup k = some row → w.tables.steps.lookup k = some row ∨
    k < w'.stepIds ∧ ∃ x ∈ rows, row = { x with updatedAt := now }

theorem Inserted.wf {rows : List WorkflowStep} {now : Int} {w w' : StartWorld}
    (h : Inserted rows now w w') (hwf : w.Wf) (hrows : ∀ x ∈ rows, x.workflowId < w.workflowIds) :
    w'.Wf := by
  refine ⟨?_, ?_, ?_, ?_, ?_⟩
  · rw [h.keys]
    exact hwf.unique
  · rw [h.keys, h.workflowIds]
    exact hwf.given
  · rw [h.keys, h.workflows]
    exact hwf.rows
  · intro k row hrow
    rw [h.workflowIds]
    rcases h.new k row hrow with hold | ⟨hlt, x, hx, rfl⟩
    · have := hwf.steps k row hold
      exact ⟨lt_of_lt_of_le this.1 h.stepIds, this.2⟩
    · exact ⟨hlt, hrows x hx⟩
  · rw [h.locks, h.tokens]
    exact hwf.tokens

theorem inserted_foldl {rows : List WorkflowStep} {now : Int} {w : StartWorld}
    (h : ∀ k row, w.tables.steps.lookup k = some row → k < w.stepIds) :
    Inserted rows now w (rows.foldl (StartWorld.insertStep now) w) := by
  induction rows generalizing w with
  | nil => exact ⟨rfl, rfl, rfl, Nat.le_refl _, rfl, rfl, fun _ _ h => h, fun _ _ h => .inl h⟩
  | cons x rows ih =>
    have hlookup : ∀ k, (w.insertStep now x).tables.steps.lookup k =
        if k = w.stepIds then some { x with updatedAt := now } else w.tables.steps.lookup k :=
      fun k => Store.lookup_insert_eq _ _ _ _
    have hstep := ih (w := w.insertStep now x) fun k row hrow => by
      show k < w.stepIds + 1
      rw [hlookup] at hrow
      split at hrow
      · omega
      · have := h k row hrow
        omega
    have hle : w.stepIds + 1 ≤ (List.foldl (StartWorld.insertStep now) (w.insertStep now x)
      rows).stepIds := hstep.stepIds
    refine ⟨hstep.keys, hstep.workflows, hstep.workflowIds, ?_, hstep.locks, hstep.tokens, ?_, ?_⟩
    · rw [List.foldl_cons]
      omega
    · intro k row hrow
      refine hstep.old k row ?_
      rw [hlookup, if_neg (h k row hrow).ne]
      exact hrow
    · intro k row hrow
      rcases hstep.new k row hrow with hold | ⟨hlt, y, hy, rfl⟩
      · rw [hlookup] at hold
        split at hold
        · next heq =>
          cases hold
          exact .inr ⟨by rw [heq, List.foldl_cons]; omega, x, List.mem_cons_self, rfl⟩
        · exact .inl hold
      · exact .inr ⟨hlt, y, List.mem_cons_of_mem x hy, rfl⟩

section Step

variable {tr : List StartEvent} {e : StartEvent} {gs : List Point} {i : Nat} {a : StartRequest}
  {r : StartAnswer a} {g : Point}

/-- Only the creator of a workflow executes its steps. -/
theorem owned_of_executes (hans : Answered answerStart e i a r) (hasks : asks g a) {j id : Nat}
    (h : Executes e j id) : j = i ∧ g.stage.owned = some id := by
  obtain ⟨hcall, stepIndex, stepName, timeoutMs, hawaited⟩ := h
  have hj : j = i := by
    have := hcall.symm.trans hans.call
    cases this
    rfl
  subst hj
  have ha : a = .tables (.execute id stepIndex stepName timeoutMs) := by
    have := hans.awaited.symm.trans hawaited
    exact Option.some.inj this
  subst ha
  obtain ⟨token, id', work, hstage, hwork⟩ := hasks
  refine ⟨rfl, ?_⟩
  rw [hstage]
  cases work with
  | executing ids current => exact congrArg some hwork.1.symm
  | created | prepared | deleting => cases hwork

/-- One call moves on. -/
theorem Books.move (stage : Stage) (h : Books tr e.before.world gs)
    (hans : Answered answerStart e i a r) (hg : gs[i]? = some g) (hasks : asks g a)
    (hwf : e.after.world.Wf)
    (hkeys : ∀ id key, e.before.world.keys.lookup id = some key →
      e.after.world.keys.lookup id = some key)
    (hself : Placed e.after.world { g with stage })
    (hothers : ∀ j x, j ≠ i → gs[j]? = some x → Placed e.before.world x →
      Placed e.after.world x)
    (htoken : ∀ token, stage.token = some token →
      g.stage.token = some token ∨ e.before.world.tokens ≤ token)
    (howned : ∀ id, stage.owned = some id →
      g.stage.owned = some id ∨ e.before.world.keys.lookup id = none)
    (hkept : ∀ id, g.stage.owned = some id → stage.owned = some id)
    (hclock : ∀ startedAt now, stage = .waiting startedAt now →
      ClockRead (e :: tr) i startedAt now) :
    Books (e :: tr) e.after.world (gs.set i { g with stage }) where
  wf := hwf
  placed x hx := by
    rcases Async.of_mem_set hg hx with rfl | ⟨j, hj, hx⟩
    · exact hself
    · exact hothers j x hj hx (h.placed x (List.mem_of_getElem? hx))
  tokens := by
    refine h.tokens.set hg fun token htok => (htoken token htok).imp_right fun hfresh x hx hxtok => ?_
    have := (h.placed x hx).token token hxtok
    omega
  owners := by
    refine h.owners.set hg fun id hid => (howned id hid).imp_right fun hfresh x hx hxid => ?_
    rw [(h.placed x hx).seen id (Stage.seen_of_owned hxid)] at hfresh
    cases hfresh
  stored key id := by
    rintro ⟨e', he', hid⟩
    rcases List.mem_cons.mp he' with rfl | he'
    · exact hid
    · exact hkeys id key (h.stored key id ⟨e', he', hid⟩)
  executed e' he' j id hexec := by
    -- the calls own what they owned
    have hown : ∀ x, gs[j]? = some x → x.stage.owned = some id →
        ∃ y, (gs.set i { g with stage })[j]? = some y ∧ y.stage.owned = some id := by
      intro x hx hxid
      by_cases hji : j = i
      · subst hji
        cases hg.symm.trans hx
        refine ⟨_, List.getElem?_set_self (List.getElem?_eq_some_iff.mp hg).1, hkept id hxid⟩
      · refine ⟨x, ?_, hxid⟩
        rw [List.getElem?_set_ne (Ne.symm hji)]
        exact hx
    rcases List.mem_cons.mp he' with rfl | he'
    · obtain ⟨rfl, hid⟩ := owned_of_executes hans hasks hexec
      exact hown g hg hid
    · obtain ⟨x, hx, hxid⟩ := h.executed e' he' j id hexec
      exact hown x hx hxid
  clocks j x startedAt now hx hstage := by
    by_cases hji : j = i
    · subst hji
      rw [List.getElem?_set_self (List.getElem?_eq_some_iff.mp hg).1] at hx
      cases hx
      exact hclock startedAt now hstage
    · rw [List.getElem?_set_ne (Ne.symm hji)] at hx
      exact (h.clocks j x startedAt now hx hstage).cons e

/-- A call that was told something, and changed nothing. -/
theorem Books.look (stage : Stage) (h : Books tr e.before.world gs)
    (hans : Answered answerStart e i a r) (hg : gs[i]? = some g) (hasks : asks g a)
    (hworld : e.after.world = e.before.world)
    (hself : Placed e.before.world g → Placed e.before.world { g with stage })
    (htoken : stage.token = g.stage.token ∨ stage.token = none) (howned : stage.owned = g.stage.owned)
    (hclock : ∀ startedAt now, stage = .waiting startedAt now →
      ClockRead (e :: tr) i startedAt now) :
    Books (e :: tr) e.after.world (gs.set i { g with stage }) := by
  refine h.move stage hans hg hasks (hworld ▸ h.wf) (fun _ _ hid => hworld ▸ hid)
    (hworld ▸ hself (h.placed g (List.mem_of_getElem? hg))) (fun _ _ _ _ hx => hworld ▸ hx) ?_
    (fun id hid => .inl (howned ▸ hid)) (fun id hid => howned ▸ hid) hclock
  intro token htok
  rcases htoken with heq | hnone
  · exact .inl (heq ▸ htok)
  · rw [hnone] at htok
    cases htok

/-- A call took or gave back a lock, or drew a token, and the rows are as they were. -/
theorem Books.onLocks (stage : Stage) (h : Books tr e.before.world gs)
    (hans : Answered answerStart e i a r) (hg : gs[i]? = some g) (hasks : asks g a)
    {locks : Store String Nat} {tokens : Nat}
    (hworld : e.after.world = { e.before.world with locks, tokens })
    (hle : e.before.world.tokens ≤ tokens)
    (hdrawn : ∀ k token, locks.lookup k = some token → token < tokens)
    (hothers : ∀ j x token, j ≠ i → gs[j]? = some x → x.stage.holds = some token →
      e.before.world.locks.lookup (getWorkflowLockKey x.key) = some token →
      locks.lookup (getWorkflowLockKey x.key) = some token)
    (hself : Placed { e.before.world with locks, tokens } { g with stage })
    (htoken : ∀ token, stage.token = some token →
      g.stage.token = some token ∨ e.before.world.tokens ≤ token)
    (howned : stage.owned = g.stage.owned)
    (hbusy : ∀ startedAt now, stage ≠ .waiting startedAt now) :
    Books (e :: tr) e.after.world (gs.set i { g with stage }) := by
  refine h.move stage hans hg hasks ?_ (fun _ _ hid => hworld ▸ hid) (hworld ▸ hself) ?_ htoken
    (fun id hid => .inl (howned ▸ hid)) (fun id hid => howned ▸ hid)
    (fun startedAt now hstage => absurd hstage (hbusy startedAt now))
  · rw [hworld]
    exact wf_locks h.wf hdrawn
  · intro j x hj hxj hx
    rw [hworld]
    exact hx.frame hle (fun token hholds hlock => hothers j x token hj hxj hholds hlock)
      (fun _ _ hid => hid) (fun _ _ _ hid => hid) fun _ _ _ _ _ _ _ => Iff.rfl

/-- An answer of the repository or of Redis, where neither rejects. -/
theorem attempt_clear {c : Outside} (hclear : c.rejects = none) {β : Type} {x : β}
    {w v w' : StartWorld} {r : Except Error β} (h : some (attempt c.rejection x w v) = some (r, w')) :
    r = .ok x ∧ w' = v := by
  unfold attempt Outside.rejection at h
  rw [hclear] at h
  cases h
  exact ⟨rfl, rfl⟩

/-- A call that has no token and no row knows nothing. -/
theorem placed_idle {w : StartWorld} {key : String} {steps : Nat} {stage : Stage}
    (htoken : stage.token = none) (hseen : stage.seen = none) : Placed w ⟨key, steps, stage⟩ where
  token token h := by
    rw [show (Point.mk key steps stage).stage.token = none from htoken] at h
    cases h
  lock token h := by
    rw [Stage.token_of_holds h] at htoken
    cases htoken
  seen id h := by
    rw [show (Point.mk key steps stage).stage.seen = none from hseen] at h
    cases h
  inserting token h := by
    rw [show stage = .inserting token from h] at htoken
    cases htoken
  work token id work h := by
    rw [show stage = .owning token id work from h] at htoken
    cases htoken

theorem Books.findByKey (h : Books tr e.before.world gs) {key : String}
    {r : StartAnswer (.findByKey key)} (hans : Answered answerStart e i (.findByKey key) r)
    (hg : gs[i]? = some g) (hasks : asks g (.findByKey key)) (hclear : e.env.rejects = none) :
    told g (.findByKey key) r ∧
      Books (e :: tr) e.after.world (gs.set i { g with stage := g.stage.next (.findByKey key) r }) := by
  obtain ⟨rfl, hworld⟩ := attempt_clear hclear hans.answer
  refine ⟨⟨_, rfl⟩, ?_⟩
  obtain ⟨gkey, steps, stage⟩ := g
  obtain ⟨rfl, hstage⟩ := hasks
  have hidle : stage.token = none ∧ stage.owned = none := by
    rcases hstage with rfl | ⟨startedAt, now, rfl⟩ <;> exact ⟨rfl, rfl⟩
  cases hload : e.before.world.loadByKey key with
  | none =>
    rcases hstage with rfl | ⟨startedAt, now, rfl⟩
    · exact h.look .drawing hans hg ⟨rfl, .inl rfl⟩ hworld (fun _ => placed_idle rfl rfl)
        (.inr rfl) rfl (by intro _ _ heq; cases heq)
    · exact h.look (.waiting startedAt now) hans hg ⟨rfl, .inr ⟨_, _, rfl⟩⟩ hworld id
        (.inr rfl) rfl fun s n hs => (h.clocks i _ s n hg hs).cons e
  | some x =>
    have hx := loadByKey_eq_some hload
    refine h.look (.found x.id) hans hg ⟨rfl, hstage⟩ hworld (fun _ => ?_) (.inr rfl)
      hidle.2.symm (by intro _ _ heq; cases heq)
    refine ⟨fun _ heq => ?_, fun _ heq => ?_, fun _ heq => ?_, fun _ heq => ?_, fun _ _ _ heq => ?_⟩ <;>
      cases heq
    exact hx

theorem Books.setNX (h : Books tr e.before.world gs) {lockKey : String} {token : Nat}
    {r : StartAnswer (.setNX lockKey token)} (hans : Answered answerStart e i (.setNX lockKey token) r)
    (hg : gs[i]? = some g) (hasks : asks g (.setNX lockKey token))
    (hclear : StartsClear e.env e.before.world (.setNX lockKey token)) :
    told g (.setNX lockKey token) r ∧
      Books (e :: tr) e.after.world
        (gs.set i { g with stage := g.stage.next (.setNX lockKey token) r }) := by
  have hplaced := h.placed g (List.mem_of_getElem? hg)
  obtain ⟨key, steps, stage⟩ := g
  obtain ⟨rfl, rfl⟩ := hasks
  have hx := hans.answer
  unfold answerStart at hx
  dsimp only at hx
  split at hx
  · obtain ⟨rfl, hworld⟩ := attempt_clear hclear.1 hx
    exact ⟨⟨_, rfl⟩, h.look .refused hans hg ⟨rfl, rfl⟩ hworld
      (fun _ => placed_idle rfl rfl) (.inr rfl) rfl (by intro _ _ heq; cases heq)⟩
  · next hfree =>
    obtain ⟨rfl, hworld⟩ := attempt_clear hclear.1 hx
    refine ⟨⟨_, rfl⟩, ?_⟩
    have hlocks : ∀ k, (e.before.world.locks.insert (getWorkflowLockKey key) token).lookup k =
        if k = getWorkflowLockKey key then some token else e.before.world.locks.lookup k :=
      fun k => Store.lookup_insert_eq _ _ _ _
    refine h.onLocks (.inserting token) hans hg ⟨rfl, rfl⟩ hworld (Nat.le_refl _)
      (fun k token' hk => ?_) (fun j x token' hj hxj hholds hlock => ?_) ?_ (fun _ htok => .inl htok)
      rfl (by intro _ _ heq; cases heq)
    · rw [hlocks] at hk
      split at hk
      · cases hk
        exact hplaced.token token rfl
      · exact h.wf.tokens k token' hk
    · rw [hlocks]
      split
      · next heq =>
        rw [heq, hfree] at hlock
        cases hlock
      · exact hlock
    · refine ⟨hplaced.token, fun token' htok => ?_, fun _ heq => ?_, fun token' _ id hid => ?_,
        fun _ _ _ heq => ?_⟩
      · cases htok
        exact (hlocks _).trans (if_pos rfl)
      · cases heq
      · -- the lock is taken while the key has no row
        exact hclear.2 hfree ⟨id, key⟩ (AList.mem_lookup_iff.mp hid) rfl
      · cases heq

/-- Two calls do not hold the lock of one key. -/
theorem Books.lock_apart (h : Books tr e.before.world gs) (hg : gs[i]? = some g) (token : Nat)
    (hholds : g.stage.holds = some token) {j : Nat} {x : Point} (hj : j ≠ i) (hxj : gs[j]? = some x)
    {token' : Nat} (hxholds : x.stage.holds = some token') :
    getWorkflowLockKey x.key ≠ getWorkflowLockKey g.key := by
  intro hkey
  have hlock := (h.placed g (List.mem_of_getElem? hg)).lock token hholds
  have hxlock := (h.placed x (List.mem_of_getElem? hxj)).lock token' hxholds
  rw [hkey, hlock] at hxlock
  cases hxlock
  exact hj (h.tokens j i x g token hxj hg (Stage.token_of_holds hxholds)
    (Stage.token_of_holds hholds))

theorem Books.insertWorkflow (h : Books tr e.before.world gs) {key : String} {row : Workflow}
    {r : StartAnswer (.insertWorkflow key row)}
    (hans : Answered answerStart e i (.insertWorkflow key row) r) (hg : gs[i]? = some g)
    (hasks : asks g (.insertWorkflow key row)) (hclear : e.env.rejects = none) :
    told g (.insertWorkflow key row) r ∧
      Books (e :: tr) e.after.world
        (gs.set i { g with stage := g.stage.next (.insertWorkflow key row) r }) := by
  have hplaced := h.placed g (List.mem_of_getElem? hg)
  obtain ⟨gkey, steps, stage⟩ := g
  obtain ⟨rfl, hpending, token, rfl⟩ := hasks
  have hx := hans.answer
  unfold answerStart at hx
  dsimp only at hx
  split at hx
  · next id hid => exact absurd (withKey_eq_some hid) (hplaced.inserting token rfl id)
  · next hnone =>
    obtain ⟨rfl, hworld⟩ := attempt_clear hclear hx
    refine ⟨⟨_, rfl, rfl, hpending, rfl⟩, ?_⟩
    have hfresh : ∀ k key', e.before.world.keys.lookup k = some key' → k ≠ e.before.world.workflowIds :=
      fun k key' hk => (h.wf.given k key' hk).ne
    have hkeys : ∀ k, e.after.world.keys.lookup k =
        if k = e.before.world.workflowIds then some key else e.before.world.keys.lookup k := by
      intro k
      rw [hworld]
      exact Store.lookup_insert_eq _ _ _ _
    have hkept : ∀ k key', e.before.world.keys.lookup k = some key' →
        e.after.world.keys.lookup k = some key' := by
      intro k key' hk
      rw [hkeys, if_neg (hfresh k key' hk)]
      exact hk
    refine h.move (.owning token e.before.world.workflowIds .created) hans hg
      ⟨rfl, hpending, token, rfl⟩ ?_ hkept ?_ ?_ (fun _ htok => .inl htok) ?_
      (fun _ hid => by cases hid) (by intro _ _ heq; cases heq)
    · rw [hworld]
      exact wf_insertWorkflow h.wf (withKey_eq_none hnone)
    · refine ⟨fun token' htok => ?_, fun token' htok => ?_, fun id hid => ?_, fun _ heq => ?_,
        fun token' id work hstage => ?_⟩
      · rw [hworld]
        exact hplaced.token token' htok
      · rw [hworld]
        exact hplaced.lock token' htok
      · cases hid
        rw [hkeys, if_pos rfl]
      · cases heq
      · cases hstage
        rw [hworld]
        exact fun k row' hrow' => ((h.wf.steps k row' hrow').2).ne
    · intro j x hj hxj hx
      refine hx.frame (by rw [hworld]; exact Nat.le_refl _) (fun _ _ hlock => by rw [hworld]; exact hlock)
        hkept (fun token' hstage id hid => ?_) (fun _ _ _ _ k row' _ => by rw [hworld]; rfl)
      rw [hkeys] at hid
      split at hid
      · -- the other call would hold the lock of the same key
        have hkey : key = x.key := Option.some.inj hid
        have hholds : x.stage.holds = some token' := by rw [hstage]; rfl
        exact absurd (by rw [hkey]) (h.lock_apart hg token rfl hj hxj hholds)
      · exact hid
    · intro id hid
      cases hid
      refine .inr ?_
      cases hlookup : e.before.world.keys.lookup e.before.world.workflowIds with
      | none => rfl
      | some key' => exact absurd rfl (hfresh _ key' hlookup)

section Tables

variable {key : String} {steps token id : Nat} {work work' : Work}

/-- The creator goes on with its work. -/
theorem Placed.goOn {w w' : StartWorld} (h : Placed w (own key steps token id work))
    (htokens : w'.tokens = w.tokens) (hlocks : w'.locks = w.locks) (hkeys : w'.keys = w.keys)
    (hfits : work'.Fits w'.tables id steps) : Placed w' (own key steps token id work') where
  token token' htok := htokens ▸ h.token token' htok
  lock token' htok := hlocks ▸ h.lock token' htok
  seen id' hid := hkeys ▸ h.seen id' hid
  inserting token' hstage := by cases hstage
  work token' id' work hstage := by
    cases hstage
    exact hfits

theorem Books.insertSteps (h : Books tr e.before.world gs) {rows : List WorkflowStep}
    {r : StartAnswer (.insertSteps rows)} (hans : Answered answerStart e i (.insertSteps rows) r)
    (hg : gs[i]? = some g) (hasks : asks g (.insertSteps rows)) (hclear : e.env.rejects = none) :
    told g (.insertSteps rows) r ∧
      Books (e :: tr) e.after.world
        (gs.set i { g with stage := g.stage.next (.insertSteps rows) r }) := by
  have hplaced := h.placed g (List.mem_of_getElem? hg)
  obtain ⟨key, steps, stage⟩ := g
  have hasks' := hasks
  obtain ⟨token, id, rfl, hrows⟩ := hasks
  obtain ⟨rfl, hworld⟩ := attempt_clear hclear hans.answer
  refine ⟨rfl, ?_⟩
  have hins : Inserted rows e.env.now e.before.world e.after.world := by
    rw [hworld]
    exact inserted_foldl fun k row hrow => (h.wf.steps k row hrow).1
  have hid : e.before.world.keys.lookup id = some key := hplaced.seen id rfl
  refine h.move (.owning token id .prepared) hans hg hasks' ?_
    (fun _ _ hk => by rw [hins.keys]; exact hk) ?_ ?_ (fun _ htok => .inl htok)
    (fun _ hid => .inl hid) (fun _ hid => hid) (by intro _ _ heq; cases heq)
  · refine hins.wf h.wf fun x hx => ?_
    rw [(hrows x hx).1]
    exact h.wf.given id key hid
  · refine hplaced.goOn hins.tokens hins.locks hins.keys fun k row hrow hrowid => ?_
    rcases hins.new k row hrow with hold | ⟨-, x, hx, rfl⟩
    · exact absurd hrowid (hplaced.work token id .created rfl k row hold)
    · exact (hrows x hx).2
  · intro j x hj hxj hx
    refine hx.frame (by rw [hins.tokens]) (fun _ _ hlock => by rw [hins.locks]; exact hlock)
      (fun _ _ hk => by rw [hins.keys]; exact hk) (fun _ _ k hk => by rw [hins.keys] at hk; exact hk)
      (fun token' id' work hstage k row hwf => ⟨fun hrow => ?_, hins.old k row⟩)
    rcases hins.new k row hrow with hold | ⟨-, y, hy, rfl⟩
    · exact hold
    · -- the steps are those of the workflow that this call owns
      have hsame : id = id' := (hrows y hy).1.symm.trans hwf
      subst hsame
      have hxowned : x.stage.owned = some id := by rw [hstage]; rfl
      exact absurd (h.owners j i x _ id hxj hg hxowned rfl) hj

theorem Books.onTables (h : Books tr e.before.world gs) (hans : Answered answerStart e i a r)
    (hg : gs[i]? = some (own key steps token id work)) (hasks : asks (own key steps token id work) a)
    (work' : Work) {tables : World} (hworld : e.after.world = { e.before.world with tables })
    (hworkflows : ∀ k row, e.before.world.tables.workflows.lookup k = some row →
      ∃ row', tables.workflows.lookup k = some row')
    (hsteps : ∀ k row, tables.steps.lookup k = some row →
      k < e.before.world.stepIds ∧ row.workflowId < e.before.world.workflowIds)
    (hfits : work'.Fits tables id steps)
    (hothers : ∀ id', id' ≠ id → SameSteps id' e.before.world.tables tables) :
    Books (e :: tr) e.after.world (gs.set i (own key steps token id work')) := by
  have hplaced := h.placed _ (List.mem_of_getElem? hg)
  refine h.move (.owning token id work') hans hg hasks ?_ (fun _ _ hid => hworld ▸ hid) ?_
    ?_ (fun _ htok => .inl htok) (fun _ hid => .inl hid) (fun _ hid => hid)
    (by intro _ _ heq; cases heq)
  · rw [hworld]
    exact wf_tables h.wf hworkflows hsteps
  · rw [hworld]
    exact hplaced.goOn rfl rfl rfl hfits
  · intro j x hj hxj hx
    rw [hworld]
    refine hx.frame (Nat.le_refl _) (fun _ _ hlock => hlock) (fun _ _ hid => hid)
      (fun _ _ _ hid => hid) fun token' id' work'' hstage => hothers id' fun hid => hj ?_
    have hxowned : x.stage.owned = some id' := by rw [hstage]; rfl
    exact h.owners j i x _ id' hxj hg hxowned (by rw [hid]; rfl)

theorem answered_tables {c : Outside} {w w' : StartWorld} {x : Request} {r : StartAnswer (.tables x)}
    (h : answerStart c w (.tables x) = some (r, w')) :
    ∃ tables, answer c w.tables x = some (r, tables) ∧ w' = { w with tables } := by
  obtain ⟨⟨r', tables⟩, hx, heq⟩ := Option.map_eq_some_iff.mp (show (answer c w.tables x).map _ = _ from h)
  cases heq
  exact ⟨tables, hx, rfl⟩

/-- What was asked of the tables was only a question. -/
theorem Books.ask (h : Books tr e.before.world gs) (hans : Answered answerStart e i a r)
    (hg : gs[i]? = some (own key steps token id work)) (hasks : asks (own key steps token id work) a)
    (work' : Work) (hworld : e.after.world = e.before.world)
    (hfits : work'.Fits e.before.world.tables id steps) :
    Books (e :: tr) e.after.world (gs.set i (own key steps token id work')) :=
  h.onTables hans hg hasks work' hworld (fun _ row hrow => ⟨row, hrow⟩) h.wf.steps hfits
    fun _ _ _ _ _ => Iff.rfl

theorem Books.saveWorkflow (h : Books tr e.before.world gs) {x : WorkflowEntity}
    {r : StartAnswer (.tables (.saveWorkflow x))}
    (hans : Answered answerStart e i (.tables (.saveWorkflow x)) r)
    (hg : gs[i]? = some (own key steps token id work)) (hasks : work.asks id (.saveWorkflow x))
    (hclear : e.env.rejects = none) :
    work.told steps id (.saveWorkflow x) r ∧
      Books (e :: tr) e.after.world
        (gs.set i (own key steps token id (work.next (.saveWorkflow x) r))) := by
  obtain ⟨tables, hx, hworld⟩ := answered_tables hans.answer
  obtain ⟨rfl, rfl⟩ := repository_clear hclear (Option.some.inj hx)
  have hnext : work.next (.saveWorkflow x) (Except.ok () : Except Error Unit) = work := by
    cases work <;> rfl
  have hnone : x.steps = none := by
    cases work with
    | prepared | executing => exact hasks.2
    | created | deleting => cases hasks
  have hput : e.before.world.tables.putWorkflow e.env.now x =
      { e.before.world.tables with
        workflows := e.before.world.tables.workflows.insert x.id
          { x.toWorkflow with updatedAt := e.env.now } } := by
    unfold World.putWorkflow
    rw [hnone]
    rfl
  rw [hput] at hworld
  refine ⟨by cases work <;> rfl, ?_⟩
  have hfits := (h.placed _ (List.mem_of_getElem? hg)).work token id work rfl
  have hmove := h.onTables hans hg ⟨token, id, work, rfl, hasks⟩ work hworld
    (fun k row hrow => ?_) h.wf.steps (hfits.same fun _ _ _ => Iff.rfl) fun _ _ _ _ _ => Iff.rfl
  · rw [← hnext] at hmove
    exact hmove
  · rw [Store.lookup_insert_eq]
    split
    · exact ⟨_, rfl⟩
    · exact ⟨row, hrow⟩

theorem Books.findSteps (h : Books tr e.before.world gs) {k : Nat}
    {r : StartAnswer (.tables (.findSteps k))} (hans : Answered answerStart e i (.tables (.findSteps k)) r)
    (hg : gs[i]? = some (own key steps token id work)) (hasks : work.asks id (.findSteps k))
    (hclear : e.env.rejects = none) :
    work.told steps id (.findSteps k) r ∧
      Books (e :: tr) e.after.world
        (gs.set i (own key steps token id (work.next (.findSteps k) r))) := by
  obtain ⟨tables, hx, hworld⟩ := answered_tables hans.answer
  obtain ⟨rfl, rfl⟩ := repository_clear hclear (Option.some.inj hx)
  have hfits := (h.placed _ (List.mem_of_getElem? hg)).work token id work rfl
  cases work with
  | prepared =>
    obtain rfl : k = id := hasks
    have hmem : ∀ x ∈ ascending (e.before.world.tables.stepsOf k), ∃ row,
        e.before.world.tables.steps.lookup x.id = some row ∧ row.workflowId = k ∧
          x = World.loadStep x.id row := by
      intro x hx
      exact mem_stepsOf.mp ((List.mem_insertionSort _).mp hx)
    refine ⟨⟨_, rfl, fun x hx => ?_⟩, ?_⟩
    · obtain ⟨row, hrow, hid, hload⟩ := hmem x hx
      obtain ⟨hpending, hindex⟩ := hfits x.id row hrow hid
      rw [hload]
      exact ⟨hid, hpending, hindex⟩
    · refine h.ask hans hg ⟨token, k, .prepared, rfl, rfl⟩ _ hworld ⟨fun j hj => ?_, fun x hx => ?_⟩
      · obtain ⟨x, hx, rfl⟩ := List.mem_map.mp hj
        obtain ⟨row, hrow, hid, -⟩ := hmem x hx
        exact ⟨row, hrow, hid⟩
      · cases hx
  | created | executing | deleting => cases hasks

theorem Books.saveStep (h : Books tr e.before.world gs) {x : StepEntity}
    {r : StartAnswer (.tables (.saveStep x))} (hans : Answered answerStart e i (.tables (.saveStep x)) r)
    (hg : gs[i]? = some (own key steps token id work)) (hasks : work.asks id (.saveStep x))
    (hclear : e.env.rejects = none) :
    work.told steps id (.saveStep x) r ∧
      Books (e :: tr) e.after.world
        (gs.set i (own key steps token id (work.next (.saveStep x) r))) := by
  obtain ⟨tables, hx, hworld⟩ := answered_tables hans.answer
  obtain ⟨rfl, rfl⟩ := repository_clear hclear (Option.some.inj hx)
  have hplaced := h.placed _ (List.mem_of_getElem? hg)
  have hfits := hplaced.work token id work rfl
  cases work with
  | executing ids current =>
    obtain ⟨hmem, hid⟩ := hasks
    refine ⟨rfl, ?_⟩
    obtain ⟨old, hold, holdid⟩ := hfits.1 x.id hmem
    have hlookup : ∀ k, (e.before.world.tables.putStep e.env.now x).steps.lookup k =
        if k = x.id then some { x.toWorkflowStep with updatedAt := e.env.now }
        else e.before.world.tables.steps.lookup k := fun k => Store.lookup_insert_eq _ _ _ _
    refine h.onTables hans hg ⟨token, id, _, rfl, hmem, hid⟩ (.executing ids (some x)) hworld
      (fun _ row hrow => ⟨row, hrow⟩) (fun k row hrow => ?_) ⟨fun k hk => ?_, fun y hy => ?_⟩
      fun id' hne k row hrowid => ?_
    · have hrow : (e.before.world.tables.putStep e.env.now x).steps.lookup k = some row := hrow
      rw [hlookup] at hrow
      split at hrow
      · next heq =>
        cases hrow
        have := h.wf.steps x.id old hold
        exact ⟨heq ▸ this.1, by rw [show _ = id from hid, ← holdid]; exact this.2⟩
      · exact h.wf.steps k row hrow
    · obtain ⟨row, hrow, hrowid⟩ := hfits.1 k hk
      show ∃ row, (e.before.world.tables.putStep e.env.now x).steps.lookup k = some row ∧ _
      rw [hlookup]
      split
      · exact ⟨_, rfl, hid⟩
      · exact ⟨row, hrow, hrowid⟩
    · cases hy
      refine ⟨_, (hlookup x.id).trans (if_pos rfl), hid, rfl, rfl, rfl⟩
    · show (e.before.world.tables.putStep e.env.now x).steps.lookup k = some row ↔ _
      rw [hlookup]
      split
      · -- the row was and is one of this workflow
        next heq =>
        rw [heq, hold]
        constructor
        · intro hrow
          cases hrow
          exact absurd (hrowid.symm.trans hid) hne
        · intro hrow
          cases hrow
          exact absurd (hrowid.symm.trans holdid) hne
      · exact Iff.rfl
  | created | prepared | deleting => cases hasks

theorem Books.execute (h : Books tr e.before.world gs) {k stepIndex : Nat} {stepName : String}
    {timeoutMs : Option Int} {r : StartAnswer (.tables (.execute k stepIndex stepName timeoutMs))}
    (hans : Answered answerStart e i (.tables (.execute k stepIndex stepName timeoutMs)) r)
    (hg : gs[i]? = some (own key steps token id work))
    (hasks : work.asks id (.execute k stepIndex stepName timeoutMs))
    (hclear : StartsClear e.env e.before.world (.tables (.execute k stepIndex stepName timeoutMs))) :
    work.told steps id (.execute k stepIndex stepName timeoutMs) r ∧
      Books (e :: tr) e.after.world
        (gs.set i (own key steps token id (work.next (.execute k stepIndex stepName timeoutMs) r))) := by
  obtain ⟨tables, hx, hworld⟩ := answered_tables hans.answer
  have hx := (unrejected_eq_some.mp hx).2
  have hfits := (h.placed _ (List.mem_of_getElem? hg)).work token id work rfl
  cases work with
  | executing ids current =>
    have hasks' : asks (own key steps token id (.executing ids current))
        (.tables (.execute k stepIndex stepName timeoutMs)) := ⟨token, id, _, rfl, hasks⟩
    obtain ⟨rfl, x, rfl, rfl⟩ := hasks
    have hlog : ∀ log, e.after.world = { e.before.world with
        tables := { e.before.world.tables with log := log } } →
        Books (e :: tr) e.after.world
          (gs.set i (own key steps token k (.executing ids (some x)))) := fun log hafter =>
      h.onTables hans hg hasks' _ hafter (fun _ row hrow => ⟨row, hrow⟩) h.wf.steps
        (hfits.same fun _ _ _ => Iff.rfl) fun _ _ _ _ _ => Iff.rfl
    unfold StartsClear at hclear
    cases hresult : e.env.result with
    | returns =>
      rw [hresult] at hx
      cases hx
      exact ⟨.inl rfl, hlog _ hworld⟩
    | throws message =>
      rw [hresult] at hx
      cases hx
      refine ⟨.inr ⟨message, x, rfl, rfl, ?_⟩, hlog _ hworld⟩
      -- the row of the step counts the retries
      obtain ⟨row, hrow, hid, hindex, hcount, hmax⟩ := hfits.2 x rfl
      dsimp only at hclear
      rw [hresult] at hclear
      have hleft := hclear (World.loadStep x.id row) (mem_stepsOf.mpr ⟨row, hrow, hid, rfl⟩) hindex
      rw [← hcount, ← hmax]
      exact hleft.2
    | exceedsTimeout =>
      dsimp only at hclear
      rw [hresult] at hclear
      cases hclear
  | created | prepared | deleting => cases hasks

theorem Books.tables (h : Books tr e.before.world gs) {x : Request} {r : StartAnswer (.tables x)}
    (hans : Answered answerStart e i (.tables x) r) (hg : gs[i]? = some (own key steps token id work))
    (hasks : work.asks id x) (hclear : StartsClear e.env e.before.world (.tables x)) :
    work.told steps id x r ∧
      Books (e :: tr) e.after.world (gs.set i (own key steps token id (work.next x r))) := by
  have hfits := (h.placed _ (List.mem_of_getElem? hg)).work token id work rfl
  cases x with
  | saveWorkflow x => exact h.saveWorkflow hans hg hasks hclear
  | saveStep x => exact h.saveStep hans hg hasks hclear
  | findSteps k => exact h.findSteps hans hg hasks hclear
  | execute k stepIndex stepName timeoutMs => exact h.execute hans hg hasks hclear
  | delay =>
    obtain ⟨tables, hx, hworld⟩ := answered_tables hans.answer
    cases (unrejected_eq_some.mp hx).2
    cases work with
    | executing ids current =>
      exact ⟨trivial, h.ask hans hg ⟨token, id, _, rfl, trivial⟩ _ hworld hfits⟩
    | created | prepared | deleting => cases hasks
  | findWorkflow k full =>
    obtain ⟨tables, hx, hworld⟩ := answered_tables hans.answer
    obtain ⟨rfl, rfl⟩ := repository_clear hclear (Option.some.inj hx)
    cases work with
    | executing ids current =>
      obtain rfl : k = id := hasks
      refine ⟨⟨_, rfl, fun y hy => ?_⟩, h.ask hans hg ⟨token, k, _, rfl, rfl⟩ _ hworld hfits⟩
      obtain ⟨row, -, rfl⟩ := Option.map_eq_some_iff.mp hy
      rfl
    | created | prepared | deleting => cases hasks
  | findRunningWorkflows | findStuckSteps | now => cases work <;> cases hasks

end Tables

theorem Books.randomUUID (h : Books tr e.before.world gs) {r : StartAnswer .randomUUID}
    (hans : Answered answerStart e i .randomUUID r) (hg : gs[i]? = some g)
    (hasks : asks g .randomUUID) :
    Books (e :: tr) e.after.world (gs.set i { g with stage := g.stage.next .randomUUID r }) := by
  obtain ⟨key, steps, stage⟩ := g
  obtain rfl : stage = .drawing := hasks
  have hx : some (e.before.world.tokens, { e.before.world with tokens := e.before.world.tokens + 1 }) =
      some (r, e.after.world) := hans.answer
  have hr : e.before.world.tokens = r := congrArg Prod.fst (Option.some.inj hx)
  have hworld : e.after.world = { e.before.world with tokens := e.before.world.tokens + 1 } :=
    (congrArg Prod.snd (Option.some.inj hx)).symm
  refine h.onLocks (.locking r) hans hg rfl hworld (Nat.le_succ _)
    (fun k token hk => Nat.lt_succ_of_lt (h.wf.tokens k token hk)) (fun _ _ _ _ _ _ hlock => hlock) ?_
    (fun token htok => ?_) rfl (by intro _ _ heq; cases heq)
  · refine ⟨fun token htok => ?_, fun _ heq => ?_, fun _ heq => ?_, fun _ heq => ?_,
      fun _ _ _ heq => ?_⟩
    · cases htok
      rw [← hr]
      exact Nat.lt_succ_self _
    all_goals cases heq
  · cases htok
    exact .inr (hr ▸ Nat.le_refl _)

theorem Books.dateNow (h : Books tr e.before.world gs) {r : StartAnswer .dateNow}
    (hans : Answered answerStart e i .dateNow r) (hg : gs[i]? = some g) (hasks : asks g .dateNow) :
    Books (e :: tr) e.after.world (gs.set i { g with stage := g.stage.next .dateNow r }) := by
  obtain ⟨key, steps, stage⟩ := g
  obtain rfl : stage = .refused := hasks
  have hx : some (e.env.now, e.before.world) = some (r, e.after.world) := hans.answer
  refine h.look (.waiting r r) hans hg rfl (congrArg Prod.snd (Option.some.inj hx)).symm
    (fun _ => placed_idle rfl rfl) (.inr rfl) rfl fun s n hs => ?_
  cases hs
  exact ⟨⟨e, List.mem_cons_self, hans⟩, .inl rfl⟩

theorem Books.delay (h : Books tr e.before.world gs) {since ms : Int} {r : StartAnswer (.delay since ms)}
    (hans : Answered answerStart e i (.delay since ms) r) (hg : gs[i]? = some g)
    (hasks : asks g (.delay since ms)) :
    told g (.delay since ms) r ∧
      Books (e :: tr) e.after.world
        (gs.set i { g with stage := g.stage.next (.delay since ms) r }) := by
  obtain ⟨key, steps, stage⟩ := g
  obtain ⟨rfl, startedAt, rfl⟩ := hasks
  have hx := hans.answer
  unfold answerStart at hx
  dsimp only at hx
  split at hx
  · next hle =>
    have hr : e.env.now = r := congrArg Prod.fst (Option.some.inj hx)
    refine ⟨by rw [← hr]; exact hle, ?_⟩
    refine h.look (.waiting startedAt r) hans hg ⟨rfl, startedAt, rfl⟩
      (congrArg Prod.snd (Option.some.inj hx)).symm (fun _ => placed_idle rfl rfl) (.inr rfl) rfl
      fun s n hs => ?_
    cases hs
    exact ⟨((h.clocks i _ _ _ hg rfl).cons e).1, .inr ⟨e, List.mem_cons_self, since, 100, hans⟩⟩
  · cases hx

theorem Books.get (h : Books tr e.before.world gs) {lockKey : String} {r : StartAnswer (.get lockKey)}
    (hans : Answered answerStart e i (.get lockKey) r) (hg : gs[i]? = some g)
    (hasks : asks g (.get lockKey)) :
    Books (e :: tr) e.after.world (gs.set i { g with stage := g.stage.next (.get lockKey) r }) := by
  obtain ⟨key, steps, stage⟩ := g
  have hasks' := hasks
  obtain ⟨rfl, token, id, work, rfl⟩ := hasks
  have hfits := (h.placed _ (List.mem_of_getElem? hg)).work token id work rfl
  have hask : ∀ work' : Work, e.after.world = e.before.world →
      work'.Fits e.before.world.tables id steps →
      Books (e :: tr) e.after.world (gs.set i (own key steps token id work')) :=
    fun _ hworld => h.ask hans hg hasks' _ hworld
  rcases attempt_cases hans.answer with ⟨error, -, rfl, hworld⟩ | ⟨-, rfl, hworld⟩
  · exact hask work hworld hfits
  · show Books _ _ (gs.set i ⟨key, steps, if _ = some token then _ else _⟩)
    split
    · exact hask .deleting hworld trivial
    · exact hask work hworld hfits

theorem Books.del (h : Books tr e.before.world gs) {lockKey : String} {r : StartAnswer (.del lockKey)}
    (hans : Answered answerStart e i (.del lockKey) r) (hg : gs[i]? = some g)
    (hasks : asks g (.del lockKey)) :
    Books (e :: tr) e.after.world (gs.set i { g with stage := g.stage.next (.del lockKey) r }) := by
  obtain ⟨key, steps, stage⟩ := g
  have hasks' := hasks
  obtain ⟨rfl, token, id, rfl⟩ := hasks
  have hplaced := h.placed _ (List.mem_of_getElem? hg)
  rcases attempt_cases hans.answer with ⟨error, -, rfl, hworld⟩ | ⟨-, rfl, hworld⟩
  · exact h.ask hans hg hasks' .deleting hworld trivial
  · have hlocks : ∀ k, (e.before.world.locks.erase (getWorkflowLockKey key)).lookup k =
        if k = getWorkflowLockKey key then none else e.before.world.locks.lookup k :=
      fun k => Store.lookup_erase_eq _ _ _
    refine h.onLocks (.released id) hans hg hasks' hworld (Nat.le_refl _) (fun k token' hk => ?_)
      (fun j x token' hj hxj hholds hlock => ?_) ?_ (by intro _ heq; cases heq) rfl
      (by intro _ _ heq; cases heq)
    · rw [hlocks] at hk
      split at hk
      · cases hk
      · exact h.wf.tokens k token' hk
    · rw [hlocks, if_neg (h.lock_apart hg token rfl hj hxj hholds)]
      exact hlock
    · refine ⟨fun _ heq => ?_, fun _ heq => ?_, hplaced.seen, fun _ heq => ?_, fun _ _ _ heq => ?_⟩ <;>
        cases heq

/-- One answer: it can be told where the call is, and the books are right again. -/
theorem Books.answered (h : Books tr e.before.world gs) (hans : Answered answerStart e i a r)
    (hg : gs[i]? = some g) (hasks : asks g a) (hclear : StartsClear e.env e.before.world a) :
    told g a r ∧ Books (e :: tr) e.after.world (gs.set i { g with stage := g.stage.next a r }) := by
  cases a with
  | findByKey key => exact h.findByKey hans hg hasks hclear
  | randomUUID => exact ⟨trivial, h.randomUUID hans hg hasks⟩
  | setNX lockKey token => exact h.setNX hans hg hasks hclear
  | get lockKey => exact ⟨trivial, h.get hans hg hasks⟩
  | del lockKey => exact ⟨trivial, h.del hans hg hasks⟩
  | insertWorkflow key row => exact h.insertWorkflow hans hg hasks hclear
  | insertSteps rows => exact h.insertSteps hans hg hasks hclear
  | dateNow => exact ⟨trivial, h.dateNow hans hg hasks⟩
  | delay since ms => exact h.delay hans hg hasks
  | tables x =>
    obtain ⟨key, steps, stage⟩ := g
    obtain ⟨token, id, work, rfl, hasks⟩ := hasks
    exact h.tables hans hg hasks hclear

end Step

theorem Books.empty {w : StartWorld} (h : w.Wf) : Books [] w [] where
  wf := h
  placed g hg := by cases hg
  tokens := .nil
  owners := .nil
  stored key id := by
    rintro ⟨e, he, -⟩
    cases he
  executed e he := by cases he
  clocks i g startedAt now hg := by cases hg

theorem Books.start {tr : List StartEvent} {w : StartWorld} {gs : List Point} (h : Books tr w gs)
    {e : StartEvent} (registry : Registry) (op : StartCall) (hcall : e.call = .start op)
    (hworld : e.after.world = w) : Books (e :: tr) w (gs ++ [begin registry op]) where
  wf := h.wf
  placed g hg := by
    rcases List.mem_append.mp hg with hg | hg
    · exact h.placed g hg
    · rw [List.mem_singleton.mp hg]
      exact placed_idle rfl rfl
  tokens := h.tokens.append rfl
  owners := h.owners.append rfl
  stored key id := by
    rintro ⟨e', he', hid⟩
    rcases List.mem_cons.mp he' with rfl | he'
    · rw [hworld] at hid
      exact hid
    · exact h.stored key id ⟨e', he', hid⟩
  executed e' he' i id hexec := by
    rcases List.mem_cons.mp he' with rfl | he'
    · have := hcall.symm.trans hexec.1
      cases this
    · obtain ⟨g, hg, hid⟩ := h.executed e' he' i id hexec
      refine ⟨g, ?_, hid⟩
      rw [List.getElem?_append_left (List.getElem?_eq_some_iff.mp hg).1]
      exact hg
  clocks i g startedAt now hg hstage := by
    have hold : gs[i]? = some g := by
      by_cases hlt : i < gs.length
      · rwa [List.getElem?_append_left hlt] at hg
      · rw [List.getElem?_append_right (Nat.le_of_not_lt hlt)] at hg
        rw [List.mem_singleton.mp (List.mem_of_getElem? hg)] at hstage
        cases hstage
    exact (h.clocks i g startedAt now hold hstage).cons e

end Duplicates

open Duplicates in
/-- **Duplicate starts create one workflow**, which one call executes and which every call returns
unless it has waited for all of its time, in every interleaving in which no lock is taken once its
key has a row and no step fails for good. -/
theorem started_once {registry : Registry} {tr : List StartEvent} {t : StartSystem}
    (h : Run (starting registry) tr t) (hclear : ∀ e ∈ tr, StepStartsClear e) : StartedOnce tr t := by
  have hstart : ∀ tr (e : StartEvent) gs op, (registry op.type).isSome = true → StepStartsClear e →
      e.call = .start op → e.after.world = e.before.world →
      e.before.tasks.length = gs.length → Books tr e.before.world gs →
      Books (e :: tr) e.before.world (gs ++ [begin registry op]) :=
    fun _ _ _ op _ _ hcall hworld _ hbooks => hbooks.start registry op hcall hworld
  obtain ⟨gs, hbooks, hat⟩ := Async.interleave_obeys_from (P := protocol)
    (fun op hop => startWorkflow_obeys hop) (fun w hw => Books.empty hw) hstart
    (fun tr e gs i a r g hgood hans _ hg hasks hbooks =>
      hbooks.answered hans hg hasks (hans.meets hgood))
    h hclear
  refine ⟨fun key id id' hid hid' => ?_, fun e he e' he' i i' id hexec hexec' => ?_,
    fun i op r hi => ?_⟩
  · exact hbooks.wf.unique id id' key (hbooks.stored key id hid) (hbooks.stored key id' hid')
  · obtain ⟨g, hg, hown⟩ := hbooks.executed e he i id hexec
    obtain ⟨g', hg', hown'⟩ := hbooks.executed e' he' i' id hexec'
    exact hbooks.owners i i' g g' id hg hg' hown hown'
  · obtain ⟨g, hg, hkey, hend⟩ := Async.exists_of_getElem? hat hi
    rcases hend with ⟨workflow, rfl, hseen⟩ | ⟨error, startedAt, now, rfl, hstage, hwaited⟩
    · refine .inl ⟨workflow, rfl, ?_⟩
      have := (hbooks.placed g (List.mem_of_getElem? hg)).seen workflow.id hseen
      rw [hkey] at this
      exact this
    · refine .inr ⟨⟨error, rfl⟩, ?_⟩
      obtain ⟨⟨e, he, hstart⟩, hlast⟩ := hbooks.clocks i g startedAt now hg hstage
      rcases hlast with rfl | ⟨e', he', since, interval, hdelay⟩
      · omega
      · exact ⟨e, he, e', he', startedAt, since, interval, now, hstart, hdelay, hwaited⟩

/-! ### Two calls -/

def grantRegistry : Registry := fun _ => some
  { steps := [{ timeout := none, name := "grant", compensates := false, isIdempotent := false
                maxRetries := none }]
    timeout := none, requiresCompensation := none }

def grantCall : StartCall := ⟨"reward_grant", "workflow:reward_grant:user:hash"⟩

def emptyWorld : StartWorld :=
  { tables := { workflows := ∅, steps := ∅, log := [] }, keys := ∅, workflowIds := 0, stepIds := 0
    locks := ∅, tokens := 0 }

theorem wf_emptyWorld : emptyWorld.Wf where
  unique _ _ _ h := absurd h Store.lookup_empty_ne
  given _ _ h := absurd h Store.lookup_empty_ne
  rows _ _ h := absurd h Store.lookup_empty_ne
  steps _ _ h := absurd h Store.lookup_empty_ne
  tokens _ _ h := absurd h Store.lookup_empty_ne

/-- How call `i` has ended. -/
def outcome (t : StartSystem) (i : Nat) : Option (StartCall × Except Error Nat) :=
  match t.tasks[i]? with
  | some (.done (op, r)) => some (op, r.map WorkflowEntity.id)
  | _ => none

theorem outcome_eq_error {t : StartSystem} {i : Nat} {op : StartCall} {error : Error}
    (h : outcome t i = some (op, .error error)) : t.tasks[i]? = some (.done (op, .error error)) := by
  unfold outcome at h
  split at h
  · next op' r hi =>
    cases r with
    | error e =>
      cases h
      exact hi
    | ok x => cases h
  · cases h

/-- Both calls find no row, and the first takes the lock. -/
def bothSearch : List (Outside × Async.Move StartCall) :=
  [Async.Move.start grantCall, .start grantCall, .resume 0, .resume 1, .resume 0, .resume 0].map
    fun move => (undisturbed, move)

theorem valid_grantRegistry (c : Outside × Async.Move StartCall) :
    (starting grantRegistry).valid c.1 c.2 := by
  obtain ⟨outside, move⟩ := c
  cases move with
  | start op => rfl
  | resume i => trivial

def resumes (i n : Nat) : List (Outside × Async.Move StartCall) :=
  List.replicate n (undisturbed, .resume i)

/-- The second call is refused the lock, waits, and finds the row. -/
theorem started_once_waiting :
    ∃ (tr : List StartEvent) (t : StartSystem), Run (starting grantRegistry) tr t ∧
      outcome t 0 = some (grantCall, .ok 0) ∧ outcome t 1 = some (grantCall, .ok 0) ∧
      StartedOnce tr t := by
  obtain ⟨tr, t, hrun, hok⟩ := Machine.exists_run_of_replay (m := starting grantRegistry)
    (s := ⟨emptyWorld, []⟩) ⟨wf_emptyWorld, rfl⟩
    (bothSearch ++ resumes 1 3 ++ resumes 0 1 ++ resumes 1 1 ++ resumes 0 11)
    (fun tr t => decide ((∀ e ∈ tr, StepStartsClear e) ∧
      outcome t 0 = some (grantCall, .ok 0) ∧ outcome t 1 = some (grantCall, .ok 0)))
    (fun c _ => valid_grantRegistry c) (List.pairwise_of_forall fun _ _ => Nat.le_refl 0)
    (by decide +kernel)
  obtain ⟨hclear, hfirst, hsecond⟩ := of_decide_eq_true hok
  exact ⟨tr, t, hrun, hfirst, hsecond, started_once hrun hclear⟩

/-- The second call takes the lock when the first has given it back. -/
theorem started_once_late :
    ¬ ∀ (registry : Registry) (tr : List StartEvent) (t : StartSystem),
      Run (starting registry) tr t → StartedOnce tr t := by
  intro hall
  obtain ⟨tr, t, hrun, hok⟩ := Machine.exists_run_of_replay (m := starting grantRegistry)
    (s := ⟨emptyWorld, []⟩) ⟨wf_emptyWorld, rfl⟩ (bothSearch ++ resumes 0 12 ++ resumes 1 5)
    (fun tr t => decide ((∀ e ∈ tr, e.env.now = 0) ∧ outcome t 1 = some (grantCall,
      .error (.error "duplicate key value violates unique constraint"))))
    (fun c _ => valid_grantRegistry c) (List.pairwise_of_forall fun _ _ => Nat.le_refl 0)
    (by decide +kernel)
  obtain ⟨hnow, hfailed⟩ := of_decide_eq_true hok
  rcases (hall _ tr t hrun).ends 1 _ _ (outcome_eq_error hfailed) with ⟨workflow, hr, -⟩ | ⟨-, hwaited⟩
  · cases hr
  · -- the clock has not moved
    obtain ⟨e, he, e', he', startedAt, since, interval, now, hstart, hdelay, hle⟩ := hwaited
    have hstarted : e.env.now = startedAt := congrArg Prod.fst (Option.some.inj hstart.answer)
    have hend : e'.env.now = now := by
      have hx := hdelay.answer
      unfold answerStart at hx
      dsimp only at hx
      split at hx
      · exact congrArg Prod.fst (Option.some.inj hx)
      · cases hx
    rw [← hstarted, ← hend, hnow e he, hnow e' he'] at hle
    exact absurd hle (by decide)

end Stellara.WorkflowEngine
