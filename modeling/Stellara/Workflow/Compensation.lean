import Stellara.Workflow.Conformance

/-!
# Compensation over several calls

`compensateWorkflow` compensates the steps that are `completed`, from the last one down.  A step
whose compensation fails is stored as `failed`, and the next call does not select it:

    call 1     3 compensated    2 failed       1 completed       workflow  failed
    call 2     3 compensated    2 failed       1 compensated     workflow  compensated

At any time the steps that are due are split in two: those above some index, of which none is
`completed` any more, and the rest, which are (`Partway`).  So a workflow is compensated without
all of its steps exactly when a call goes through after one that failed on a step
(`compensation_complete_iff`).
-/

namespace Stellara.WorkflowEngine

open Block
open Async (run flagged answering wp_answering)

/-! ## The steps that are due -/

def stepState (w : World) (id : Nat) : Option StepState := (w.steps.lookup id).map WorkflowStep.state

/-- What a row of a step keeps. -/
def WorkflowStep.fixed (row : WorkflowStep) : Nat × Nat × Bool :=
  (row.workflowId, row.stepIndex, row.requiresCompensation)

/-- The steps that are completed and require compensation, from the last one down. -/
def due (w : World) (id : Nat) : List StepEntity := stepsToCompensate (w.stepsOf id)

/-- The indices of the steps that were saved as compensated, oldest first. -/
def compensations (id : Nat) (log : List Effect) : List Nat :=
  log.reverse.filterMap fun effect =>
    match effect with
    | .saved _ row =>
      if row.workflowId = id ∧ row.state = .compensated then some row.stepIndex else none
    | .executed _ _ _ _ => none

/-- The steps of a workflow have distinct indices. -/
def Indexed (w : World) (id : Nat) : Prop :=
  ∀ k k' row row', w.steps.lookup k = some row → w.steps.lookup k' = some row' →
    row.workflowId = id → row'.workflowId = id → row.stepIndex = row'.stepIndex → k = k'

theorem mem_stepsOf {w : World} {id : Nat} {x : StepEntity} :
    x ∈ w.stepsOf id ↔ ∃ row, w.steps.lookup x.id = some row ∧ row.workflowId = id ∧
      x = World.loadStep x.id row := by
  unfold World.stepsOf
  rw [List.mem_map]
  constructor
  · rintro ⟨⟨k, row⟩, he, rfl⟩
    rw [List.mem_filter] at he
    exact ⟨row, AList.mem_lookup_iff.mpr he.1, of_decide_eq_true he.2, rfl⟩
  · rintro ⟨row, hrow, hid, hx⟩
    refine ⟨⟨x.id, row⟩, ?_, hx.symm⟩
    rw [List.mem_filter]
    exact ⟨AList.mem_lookup_iff.mp hrow, decide_eq_true hid⟩

theorem mem_due {w : World} {id : Nat} {x : StepEntity} :
    x ∈ due w id ↔ ∃ row, w.steps.lookup x.id = some row ∧ row.workflowId = id ∧
      x = World.loadStep x.id row ∧ row.state = .completed ∧ row.requiresCompensation = true := by
  unfold due stepsToCompensate descending
  rw [List.mem_insertionSort, List.mem_filter, mem_stepsOf]
  constructor
  · rintro ⟨⟨row, hrow, hid, hx⟩, hdue⟩
    rw [hx] at hdue
    exact ⟨row, hrow, hid, hx, of_decide_eq_true hdue⟩
  · rintro ⟨row, hrow, hid, hx, hdue⟩
    refine ⟨⟨row, hrow, hid, hx⟩, ?_⟩
    rw [hx]
    exact decide_eq_true hdue

theorem nodup_stepsOf (w : World) (id : Nat) : ((w.stepsOf id).map StepEntity.id).Nodup := by
  unfold World.stepsOf
  rw [List.map_map]
  have hkeys : (w.steps.entries.map Sigma.fst).Nodup := w.steps.nodupKeys
  exact hkeys.sublist (List.filter_sublist.map Sigma.fst)

theorem nodup_due (w : World) (id : Nat) : ((due w id).map StepEntity.id).Nodup := by
  unfold due stepsToCompensate descending
  have hperm := (List.perm_insertionSort (fun a b : StepEntity => b.stepIndex ≤ a.stepIndex)
    ((w.stepsOf id).filter fun step => step.state = .completed ∧ step.requiresCompensation)).map
    StepEntity.id
  rw [hperm.nodup_iff]
  exact (nodup_stepsOf w id).sublist (List.filter_sublist.map StepEntity.id)

/-- The steps that are due have strictly decreasing indices. -/
theorem due_decreasing {w : World} {id : Nat} (h : Indexed w id) :
    (due w id).Pairwise fun a b => b.stepIndex < a.stepIndex := by
  have hle : (due w id).Pairwise fun a b => b.stepIndex ≤ a.stepIndex :=
    List.pairwise_insertionSort _ _
  have hne : (due w id).Pairwise fun a b => a.id ≠ b.id := List.pairwise_map.mp (nodup_due w id)
  refine (hle.and hne).imp_of_mem ?_
  rintro a b ha hb ⟨hle, hne⟩
  obtain ⟨row, hrow, hid, hx, -⟩ := mem_due.mp ha
  obtain ⟨row', hrow', hid', hx', -⟩ := mem_due.mp hb
  refine lt_of_le_of_ne hle fun heq => hne ?_
  rw [hx, hx'] at heq
  exact h _ _ _ _ hrow hrow' hid hid' heq.symm

/-! ## How far the compensation has come -/

/-- `done` has been worked off and `rest` has not, starting from `w₀`. -/
structure Partway (w₀ : World) (id : Nat) (w : World) (done rest : List StepEntity) : Prop where
  split : due w₀ id = done ++ rest
  fixed : ∀ k, (w.steps.lookup k).map WorkflowStep.fixed = (w₀.steps.lookup k).map WorkflowStep.fixed
  others : ∀ k, k ∉ (due w₀ id).map StepEntity.id → stepState w k = stepState w₀ k
  worked : ∀ x ∈ done, stepState w x.id ≠ some .completed
  left : ∀ x ∈ rest, stepState w x.id = some .completed
  log : compensations id w.log = compensations id w₀.log ++
    (done.filter fun x => stepState w x.id = some .compensated).map fun x => x.stepIndex

theorem Partway.start (w : World) (id : Nat) : Partway w id w [] (due w id) where
  split := rfl
  fixed _ := rfl
  others _ _ := rfl
  worked _ h := absurd h List.not_mem_nil
  left x hx := by
    obtain ⟨row, hrow, -, -, hstate, -⟩ := mem_due.mp hx
    unfold stepState
    rw [hrow, Option.map_some, hstate]
  log := by simp

theorem stepState_eq_some {w : World} {id : Nat} {state : StepState} :
    stepState w id = some state ↔ ∃ row, w.steps.lookup id = some row ∧ row.state = state :=
  Option.map_eq_some_iff

/-- The row that a row was at the start. -/
theorem Partway.lookup_start {w₀ w : World} {id k : Nat} {done rest : List StepEntity}
    {row : WorkflowStep} (h : Partway w₀ id w done rest) (hrow : w.steps.lookup k = some row) :
    ∃ row₀, w₀.steps.lookup k = some row₀ ∧ row₀.fixed = row.fixed := by
  have hfixed := h.fixed k
  rw [hrow, Option.map_some] at hfixed
  exact Option.map_eq_some_iff.mp hfixed.symm

/-- The next call selects the rest. -/
theorem Partway.due_eq {w₀ w : World} {id : Nat} {done rest : List StepEntity}
    (h : Partway w₀ id w done rest) (hindexed : Indexed w₀ id) :
    (due w id).map (fun x => (x.id, x.stepIndex)) = rest.map fun x => (x.id, x.stepIndex) := by
  have hindexed' : Indexed w id := by
    intro k k' row row' hrow hrow' hid hid' hindex
    obtain ⟨row₀, hrow₀, hfixed⟩ := h.lookup_start hrow
    obtain ⟨row₀', hrow₀', hfixed'⟩ := h.lookup_start hrow'
    simp only [WorkflowStep.fixed, Prod.mk.injEq] at hfixed hfixed'
    exact hindexed k k' row₀ row₀' hrow₀ hrow₀' (hfixed.1.trans hid) (hfixed'.1.trans hid')
      (hfixed.2.1.trans (hindex.trans hfixed'.2.1.symm))
  have hrest : rest.Pairwise fun a b => b.stepIndex < a.stepIndex := by
    have := due_decreasing hindexed
    rw [h.split] at this
    exact (List.pairwise_append.mp this).2.1
  refine List.Pairwise.eq_of_mem_iff (r := fun a b : Nat × Nat => b.2 < a.2)
    (List.pairwise_map.mpr (due_decreasing hindexed')) (List.pairwise_map.mpr hrest) ?_
  intro key
  simp only [List.mem_map]
  constructor
  · rintro ⟨x, hx, rfl⟩
    obtain ⟨row, hrow, hid, hx, hstate, hreq⟩ := mem_due.mp hx
    obtain ⟨row₀, hrow₀, hfixed⟩ := h.lookup_start hrow
    simp only [WorkflowStep.fixed, Prod.mk.injEq] at hfixed
    have hindex : row₀.stepIndex = x.stepIndex := by rw [hfixed.2.1, hx]; rfl
    by_cases hdue : x.id ∈ (due w₀ id).map StepEntity.id
    · obtain ⟨y, hy, hyid⟩ := List.mem_map.mp hdue
      have hcompleted : stepState w y.id = some .completed := by
        rw [hyid]
        exact stepState_eq_some.mpr ⟨row, hrow, hstate⟩
      obtain ⟨row₁, hrow₁, -, hyrow, -⟩ := mem_due.mp hy
      rw [hyid, hrow₀] at hrow₁
      cases hrow₁
      have hyindex : y.stepIndex = row₀.stepIndex := by rw [hyrow]; rfl
      rw [h.split] at hy
      rcases List.mem_append.mp hy with hy | hy
      · exact absurd hcompleted (h.worked y hy)
      · exact ⟨y, hy, by rw [hyid, hyindex, hindex]⟩
    · -- it was due at the start as well
      have hstate₀ := h.others x.id hdue
      rw [stepState_eq_some.mpr ⟨row, hrow, hstate⟩] at hstate₀
      obtain ⟨row₁, hrow₁, hstate₁⟩ := stepState_eq_some.mp hstate₀.symm
      rw [hrow₀] at hrow₁
      cases hrow₁
      refine absurd (List.mem_map.mpr ⟨World.loadStep x.id row₀, mem_due.mpr ?_, rfl⟩) hdue
      exact ⟨row₀, hrow₀, hfixed.1.trans hid, rfl, hstate₁, hfixed.2.2.trans hreq⟩
  · rintro ⟨x, hx, rfl⟩
    have hx₀ : x ∈ due w₀ id := by rw [h.split]; exact List.mem_append_right _ hx
    obtain ⟨row₀, hrow₀, hid, hxrow, -, hreq⟩ := mem_due.mp hx₀
    obtain ⟨row, hrow, hstate⟩ := stepState_eq_some.mp (h.left x hx)
    obtain ⟨row₁, hrow₁, hfixed⟩ := h.lookup_start hrow
    rw [hrow₀] at hrow₁
    cases hrow₁
    simp only [WorkflowStep.fixed, Prod.mk.injEq] at hfixed
    refine ⟨World.loadStep x.id row, mem_due.mpr ?_, ?_⟩
    · exact ⟨row, hrow, hfixed.1.symm.trans hid, rfl, hstate, hfixed.2.2.symm.trans hreq⟩
    · rw [hxrow]
      exact Prod.ext rfl hfixed.2.1.symm

/-! ## Tables of which one step changes -/

/-- The steps but `k` keep their states, and all rows keep what is fixed. -/
structure OnlyStep (k : Nat) (w w' : World) : Prop where
  fixed : ∀ j, (w'.steps.lookup j).map WorkflowStep.fixed = (w.steps.lookup j).map WorkflowStep.fixed
  others : ∀ j, j ≠ k → stepState w' j = stepState w j

theorem OnlyStep.refl (k : Nat) (w : World) : OnlyStep k w w := ⟨fun _ => rfl, fun _ _ => rfl⟩

theorem OnlyStep.trans {k : Nat} {w w' w'' : World} (h : OnlyStep k w w') (h' : OnlyStep k w' w'') :
    OnlyStep k w w'' :=
  ⟨fun j => (h'.fixed j).trans (h.fixed j), fun j hj => (h'.others j hj).trans (h.others j hj)⟩

/-- An entity has the row that is stored, up to the state. -/
def StepEntity.Fits (x : StepEntity) (w : World) : Prop :=
  (w.steps.lookup x.id).map WorkflowStep.fixed = some x.fixed

theorem StepEntity.Fits.of_only {x : StepEntity} {k : Nat} {w w' : World} (h : x.Fits w)
    (hw : OnlyStep k w w') : x.Fits w' := (hw.fixed x.id).trans h

theorem onlyStep_putStep {x : StepEntity} {w : World} (h : x.Fits w) (now : Int)
    (log : List Effect) : OnlyStep x.id w { w.putStep now x with log := log } := by
  constructor
  · intro j
    simp only [World.putStep]
    rw [Store.lookup_insert_eq]
    split
    · next heq => rw [heq, h]; rfl
    · rfl
  · intro j hj
    simp only [stepState, World.putStep]
    rw [Store.lookup_insert_eq, if_neg hj]

theorem stepState_putStep (x : StepEntity) (w : World) (now : Int) (log : List Effect) :
    stepState { w.putStep now x with log := log } x.id = some x.state := by
  simp only [stepState, World.putStep]
  rw [Store.lookup_insert_eq, if_pos rfl]
  rfl

theorem fixed_foldl_putStep (now : Int) (steps : List StepEntity) (w : World)
    (h : ∀ x ∈ steps, x.Fits w) (j : Nat) :
    ((steps.foldl (World.putStep now) w).steps.lookup j).map WorkflowStep.fixed =
      (w.steps.lookup j).map WorkflowStep.fixed := by
  induction steps generalizing w with
  | nil => rfl
  | cons x steps ih =>
    rw [List.forall_mem_cons] at h
    have hput : OnlyStep x.id w (w.putStep now x) := onlyStep_putStep h.1 now w.log
    rw [List.foldl_cons, ih _ fun y hy => (h.2 y hy).of_only hput]
    exact hput.fixed j

/-- A cascading save writes what is stored already, but for the step `k`. -/
theorem onlyStep_putWorkflow {x : WorkflowEntity} {w : World} {k : Nat} {P : StepState → Prop}
    (now : Int) (hfits : ∀ y ∈ x.steps.getD [], y.Fits w)
    (hothers : ∀ y ∈ x.steps.getD [], y.id ≠ k → stepState w y.id = some y.state)
    (hstep : ∀ y ∈ x.steps.getD [], y.id = k → P y.state) :
    OnlyStep k w (w.putWorkflow now x) ∧
      ∀ state, stepState w k = some state → P state →
        ∃ state', stepState (w.putWorkflow now x) k = some state' ∧ P state' := by
  have hfixed := fixed_foldl_putStep now (x.steps.getD [])
    { w with workflows := w.workflows.insert x.id { x.toWorkflow with updatedAt := now } } hfits
  have hstate : ∀ j state, stepState w j = some state → ∃ state',
      stepState (w.putWorkflow now x) j = some state' ∧ (state' = state ∨
        ∃ y ∈ x.steps.getD [], y.id = j ∧ state' = y.state) := by
    intro j state h
    obtain ⟨row, hrow, rfl⟩ := stepState_eq_some.mp h
    obtain ⟨row', hrow', hor⟩ := (writes_putWorkflow now w x).step j row hrow
    exact ⟨row'.state, stepState_eq_some.mpr ⟨row', hrow', rfl⟩, hor⟩
  refine ⟨⟨hfixed, fun j hj => ?_⟩, fun state h hP => ?_⟩
  · cases h : stepState w j with
    | none =>
      have hnone := hfixed j
      have hrow : w.steps.lookup j = none := Option.map_eq_none_iff.mp h
      rw [hrow, Option.map_none] at hnone
      exact Option.map_eq_none_iff.mpr (Option.map_eq_none_iff.mp hnone)
    | some state =>
      obtain ⟨state', h', rfl | ⟨y, hy, rfl, rfl⟩⟩ := hstate j state h
      · exact h'
      · rw [h', ← h, hothers y hy hj]
  · obtain ⟨state', h', rfl | ⟨y, hy, hid, rfl⟩⟩ := hstate k state h
    · exact ⟨state', h', hP⟩
    · exact ⟨y.state, h', hstep y hy hid⟩

/-! ## One step -/

/-- The rules of the repository as it is, with a flag: nothing was rejected so far. -/
abbrev tracked : Async.Rules Request Answer (World × Bool) :=
  answering (flagged (fun c => c.rejects.isNone) answer)

/-- A request to a repository: it rejects and nothing is stored, or it answers `ok`. -/
theorem repository_tracked {a : Request} {w : World} {b : Bool} {v : Outside → World} {ok : Answer a}
    {error : Error → Answer a} {Q : Answer a → World × Bool → Prop}
    (ha : ∀ c, answer c w a = some (match c.rejects with
      | some message => (error (.error message), w)
      | none => (ok, v c)))
    (hok : ∀ c, Q ok (v c, b)) (herror : ∀ e, Q (error e) (w, false)) : tracked.pre a Q (w, b) := by
  rintro c r ⟨w', b'⟩ hx
  obtain ⟨hx, hflag⟩ := Async.flagged_eq_some.mp hx
  dsimp only at hx hflag
  rw [ha] at hx
  cases hrej : c.rejects with
  | some message =>
    rw [hrej] at hx hflag
    cases hx
    rw [hflag, Option.isNone_some, Bool.and_false]
    exact herror _
  | none =>
    rw [hrej] at hx hflag
    cases hx
    rw [hflag, Option.isNone_none, Bool.and_true]
    exact hok c

theorem findWorkflow_tracked {id : Nat} {steps : Bool} {w : World} {b : Bool}
    {Q : WorkflowEntity → Unit → World × Bool → Prop} {E : Error → Unit → World × Bool → Prop}
    (hQ : ∀ row, w.workflows.lookup id = some row → Q (w.load steps id row) () (w, b))
    (hnone : w.workflows.lookup id = none → ∀ e, E e () (w, b)) (hE : ∀ e, E e () (w, false)) :
    wp tracked (findWorkflow id steps) Q E () (w, b) := by
  simp only [findWorkflow, wp_bind]
  refine repository_tracked (fun c => rfl) (fun c => ?_) hE
  cases hrow : w.workflows.lookup id with
  | none => exact hnone hrow _
  | some row => exact hQ row hrow

theorem saveStep_tracked {x : StepEntity} {w : World} {b : Bool}
    {Q : Unit → StepEntity → World × Bool → Prop} {E : Error → StepEntity → World × Bool → Prop}
    (hQ : ∀ now, Q () { x with seen := x.state }
      ({ w.putStep now x with log := .saved x.id x.toWorkflowStep :: w.log }, b))
    (hE : ∀ e, E e x (w, false)) : wp tracked saveStep Q E x (w, b) := by
  simp only [saveStep, wp_bind, wp_get]
  exact repository_tracked (fun c => rfl) (fun c => hQ c.now) hE

theorem saveWorkflow_tracked {x : WorkflowEntity} {w : World} {b : Bool}
    {Q : Unit → WorkflowEntity → World × Bool → Prop}
    {E : Error → WorkflowEntity → World × Bool → Prop}
    (hQ : ∀ now, Q () { x with
      seen := x.state
      steps := x.steps.map (·.map fun step => { step with seen := step.state }) }
      (w.putWorkflow now x, b))
    (hE : ∀ e, E e x (w, false)) : wp tracked saveWorkflow Q E x (w, b) := by
  simp only [saveWorkflow, wp_bind, wp_get]
  exact repository_tracked (fun c => rfl) (fun c => hQ c.now) hE

theorem setTimeout_tracked {τ : Type} {x : τ} {w : World} {b : Bool}
    {Q : Unit → τ → World × Bool → Prop} {E : Error → τ → World × Bool → Prop}
    (hQ : Q () x (w, b)) : wp tracked setTimeout Q E x (w, b) := by
  rintro c r ⟨w', b'⟩ hx
  obtain ⟨hx, hflag⟩ := Async.flagged_eq_some.mp hx
  dsimp only at hx hflag
  obtain ⟨hrej, hx⟩ := unrejected_eq_some.mp hx
  cases hx
  rw [hflag, hrej, Option.isNone_none, Bool.and_true]
  exact hQ

/-- What a step is while its compensation has failed. -/
def Unfinished (state : StepState) : Prop := state = .compensating ∨ state = .failed

/-- The step `x` was worked on, the others were not. -/
structure Worked (x : StepEntity) (w : World) (y : StepEntity) (w' : World) : Prop where
  id : y.id = x.id
  fixed : y.fixed = x.fixed
  only : OnlyStep x.id w w'
  workflows : w'.workflows = w.workflows

theorem compensations_saved (id k : Nat) (row : WorkflowStep) (log : List Effect) :
    compensations id (.saved k row :: log) = compensations id log ++
      if row.workflowId = id ∧ row.state = .compensated then [row.stepIndex] else [] := by
  unfold compensations
  rw [List.reverse_cons, List.filterMap_append]
  congr 1
  by_cases h : row.workflowId = id ∧ row.state = .compensated <;> simp [h]

/-- A save of the step that is worked on. -/
theorem saveStep_worked (x : StepEntity) {y : StepEntity} {w w₁ : World} {b : Bool}
    {Q : Unit → StepEntity → World × Bool → Prop} {E : Error → StepEntity → World × Bool → Prop}
    (h : Worked x w y w₁) (hfits : x.Fits w)
    (hQ : ∀ z w₂, Worked x w z w₂ → z.state = y.state → stepState w₂ x.id = some y.state →
      (∀ id, compensations id w₂.log = compensations id w₁.log ++
        if y.workflowId = id ∧ y.state = .compensated then [y.stepIndex] else []) → Q () z (w₂, b))
    (hE : ∀ e, E e y (w₁, false)) : wp tracked saveStep Q E y (w₁, b) := by
  have hyfits : y.Fits w₁ := by
    unfold StepEntity.Fits
    rw [h.id, h.fixed]
    exact hfits.of_only h.only
  refine saveStep_tracked (fun now => ?_) hE
  have honly : OnlyStep y.id w w₁ := by
    rw [h.id]
    exact h.only
  refine hQ _ _ ⟨h.id, h.fixed, ?_, h.workflows⟩ rfl ?_ ?_
  · rw [← h.id]
    exact honly.trans (onlyStep_putStep hyfits now _)
  · rw [← h.id]
    exact stepState_putStep y w₁ now _
  · exact fun id => compensations_saved id y.id y.toWorkflowStep w₁.log

/-- **One step**: if nothing is rejected it is compensated, else its compensation is unfinished
and what is stored is not `compensated`. -/
theorem compensateStep_tracked {x : StepEntity} {w : World} (hfits : x.Fits w)
    (hstate : x.state = .completed) (hstored : stepState w x.id = some .completed) :
    wp tracked compensateStep
      (fun _ y s => s.2 = true ∧ Worked x w y s.1 ∧ y.state = .compensated ∧
        stepState s.1 x.id = some .compensated ∧
        compensations x.workflowId s.1.log = compensations x.workflowId w.log ++ [x.stepIndex])
      (fun _ y s => s.2 = false ∧ Worked x w y s.1 ∧ Unfinished y.state ∧
        (∃ state, stepState s.1 x.id = some state ∧ state ≠ .compensated) ∧
        ∀ id, compensations id s.1.log = compensations id w.log) x (w, true) := by
  have hstart : transitionStep .completed .compensating = .ok () := rfl
  simp only [compensateStep, wp_bind, wp_get]
  rw [hstate, hstart]
  simp only [wp_bind, wp_modify]
  refine saveStep_worked x ⟨rfl, rfl, .refl _ _, rfl⟩ hfits ?_ fun e => ?_
  · intro y₁ w₁ h₁ hy₁ hw₁ hlog₁
    rw [wp_tryCatch, wp_bind]
    refine setTimeout_tracked ?_
    simp only [wp_bind, wp_modify]
    have hsame₁ : ∀ id, compensations id w₁.log = compensations id w.log := by
      intro id
      rw [hlog₁, if_neg (by simp), List.append_nil]
    refine saveStep_worked x ⟨h₁.id, h₁.fixed, h₁.only, h₁.workflows⟩ hfits ?_ fun e => ?_
    · intro y₂ w₂ h₂ hy₂ hw₂ hlog₂
      refine ⟨rfl, h₂, hy₂, hw₂, ?_⟩
      have hid : y₁.workflowId = x.workflowId := congrArg (fun t => t.1) h₁.fixed
      have hindex : y₁.stepIndex = x.stepIndex := congrArg (fun t => t.2.1) h₁.fixed
      rw [hlog₂, hsame₁, if_pos ⟨hid, rfl⟩, ← hindex]
    · -- the save was rejected, and the failure is saved
      simp only [wp_bind, wp_modify]
      refine saveStep_worked x ⟨h₁.id, h₁.fixed, h₁.only, h₁.workflows⟩ hfits ?_ fun e' => ?_
      · intro y₂ w₂ h₂ hy₂ hw₂ hlog₂
        refine ⟨rfl, h₂, .inr hy₂, ⟨_, hw₂, by simp⟩, fun id => ?_⟩
        rw [hlog₂, if_neg (by simp), List.append_nil, hsame₁]
      · exact ⟨rfl, ⟨h₁.id, h₁.fixed, h₁.only, h₁.workflows⟩, .inr rfl, ⟨_, hw₁, by simp⟩, hsame₁⟩
  · exact ⟨rfl, ⟨rfl, rfl, .refl _ _, rfl⟩, .inl rfl, ⟨_, hstored, by simp⟩, fun _ => rfl⟩

/-! ## One call after another -/

section Calls

variable {w₀ w w' : World} {id : Nat} {done rest : List StepEntity} {x : StepEntity}

theorem Partway.same (h : Partway w₀ id w done rest)
    (hfixed : ∀ k, (w'.steps.lookup k).map WorkflowStep.fixed =
      (w.steps.lookup k).map WorkflowStep.fixed)
    (hstate : ∀ k, stepState w' k = stepState w k)
    (hlog : compensations id w'.log = compensations id w.log) : Partway w₀ id w' done rest where
  split := h.split
  fixed k := (hfixed k).trans (h.fixed k)
  others k hk := (hstate k).trans (h.others k hk)
  worked y hy := by rw [hstate]; exact h.worked y hy
  left y hy := (hstate y.id).trans (h.left y hy)
  log := by
    rw [hlog, h.log]
    simp only [hstate]

theorem Partway.nodup (h : Partway w₀ id w done (x :: rest)) :
    (∀ y ∈ done, y.id ≠ x.id) ∧ ∀ y ∈ rest, y.id ≠ x.id := by
  have hnodup := nodup_due w₀ id
  rw [h.split, List.map_append, List.map_cons, List.nodup_append] at hnodup
  obtain ⟨-, hrest, hdisjoint⟩ := hnodup
  constructor
  · intro y hy
    exact hdisjoint _ (List.mem_map_of_mem hy) _ List.mem_cons_self
  · intro y hy heq
    exact (List.nodup_cons.mp hrest).1 (heq ▸ List.mem_map_of_mem hy)

/-- An entity of a step that is due has its workflow and its index. -/
theorem Partway.fixed_eq (h : Partway w₀ id w done (x :: rest)) {y : StepEntity} (hy : y.Fits w)
    (hid : y.id = x.id) : y.workflowId = id ∧ y.stepIndex = x.stepIndex := by
  have hx : x ∈ due w₀ id := by rw [h.split]; exact List.mem_append_right _ List.mem_cons_self
  obtain ⟨row, hrow, hworkflow, hxrow, -⟩ := mem_due.mp hx
  have hfixed : some row.fixed = some y.fixed := by
    rw [← hy, h.fixed, hid, hrow, Option.map_some]
  simp only [WorkflowStep.fixed, Option.some.injEq, Prod.mk.injEq] at hfixed
  refine ⟨hfixed.1.symm.trans hworkflow, hfixed.2.1.symm.trans ?_⟩
  rw [hxrow]
  rfl

/-- The first step of the rest is worked off. -/
theorem Partway.move (h : Partway w₀ id w done (x :: rest)) (honly : OnlyStep x.id w w')
    {state : StepState} (hstate : stepState w' x.id = some state) (hne : state ≠ .completed)
    (hlog : compensations id w'.log = compensations id w.log ++
      if state = .compensated then [x.stepIndex] else []) :
    Partway w₀ id w' (done ++ [x]) rest := by
  obtain ⟨hdone, hrest⟩ := h.nodup
  have hx : x ∈ due w₀ id := by rw [h.split]; exact List.mem_append_right _ List.mem_cons_self
  refine ⟨by rw [h.split, List.append_assoc]; rfl, fun k => (honly.fixed k).trans (h.fixed k),
    fun k hk => ?_, fun y hy => ?_, fun y hy => ?_, ?_⟩
  · have hkx : k ≠ x.id := by
      rintro rfl
      exact hk (List.mem_map_of_mem hx)
    exact (honly.others k hkx).trans (h.others k hk)
  · rcases List.mem_append.mp hy with hy | hy
    · rw [honly.others _ (hdone y hy)]
      exact h.worked y hy
    · rw [List.mem_singleton.mp hy, hstate]
      exact fun heq => hne (Option.some.inj heq)
  · rw [honly.others _ (hrest y hy)]
    exact h.left y (List.mem_cons_of_mem _ hy)
  · have hfilter : (done.filter fun y => stepState w' y.id = some .compensated) =
        done.filter fun y => stepState w y.id = some .compensated := by
      refine List.filter_congr fun y hy => ?_
      rw [honly.others _ (hdone y hy)]
    rw [hlog, h.log, List.filter_append, hfilter, List.map_append, List.append_assoc]
    congr 2
    rw [List.filter_singleton, hstate]
    by_cases hc : state = .compensated <;> simp [hc]

/-- Since some point the first step of the rest may have changed, but it is not compensated. -/
structure Broken (w₀ : World) (id : Nat) (w : World) (done : List StepEntity) (x : StepEntity)
    (rest : List StepEntity) : Prop where
  since : ∃ w₁, Partway w₀ id w₁ done (x :: rest) ∧ OnlyStep x.id w₁ w ∧
    compensations id w.log = compensations id w₁.log
  here : ∃ state, stepState w x.id = some state ∧ state ≠ .compensated

theorem Broken.only (h : Broken w₀ id w done x rest) (honly : OnlyStep x.id w w')
    (hlog : compensations id w'.log = compensations id w.log)
    (hhere : ∃ state, stepState w' x.id = some state ∧ state ≠ .compensated) :
    Broken w₀ id w' done x rest := by
  obtain ⟨w₁, hpart, honly₁, hlog₁⟩ := h.since
  exact ⟨⟨w₁, hpart, honly₁.trans honly, hlog.trans hlog₁⟩, hhere⟩

theorem Broken.partway (h : Broken w₀ id w done x rest) :
    ∃ done rest, Partway w₀ id w done rest := by
  obtain ⟨w₁, hpart, honly, hlog⟩ := h.since
  obtain ⟨state, hstate, hne⟩ := h.here
  by_cases hcompleted : state = .completed
  · refine ⟨done, x :: rest, hpart.same honly.fixed (fun k => ?_) hlog⟩
    by_cases hk : k = x.id
    · rw [hk, hstate, hcompleted, hpart.left x List.mem_cons_self]
    · exact honly.others k hk
  · refine ⟨done ++ [x], rest, hpart.move honly hstate hcompleted ?_⟩
    rw [hlog, if_neg hne, List.append_nil]

/-! ### The loop over the steps -/

/-- The steps of an entity are what is stored, but for the step `k`. -/
def MirrorsBut (k : Nat) (y : WorkflowEntity) (w : World) : Prop :=
  ∀ s ∈ y.steps.getD [], s.Fits w ∧ (s.id ≠ k → stepState w s.id = some s.state) ∧
    (s.id = k → Unfinished s.state)

def Mirrors (y : WorkflowEntity) (w : World) : Prop :=
  ∀ s ∈ y.steps.getD [], s.Fits w ∧ stepState w s.id = some s.state

theorem mem_put {steps : Option (List StepEntity)} {y s : StepEntity}
    (h : s ∈ (steps.map (·.map fun s => if s.id = y.id then y else s)).getD []) :
    s = y ∨ s ∈ steps.getD [] ∧ s.id ≠ y.id := by
  obtain ⟨s', hs', rfl⟩ := mem_steps_map h
  split
  · exact .inl rfl
  · next hne => exact .inr ⟨hs', hne⟩

/-- The entity after one of its steps was worked on. -/
theorem Mirrors.put {y : WorkflowEntity} {t : StepEntity} (hy : Mirrors y w) (hx : x.Fits w)
    (h : Worked x w t w') :
    ∀ s ∈ (y.steps.map (·.map fun s => if s.id = t.id then t else s)).getD [],
      s.Fits w' ∧ (s.id ≠ x.id → stepState w' s.id = some s.state) ∧ (s.id = x.id → s = t) := by
  intro s hs
  rcases mem_put hs with rfl | ⟨hs, hne⟩
  · refine ⟨?_, fun hne => absurd h.id hne, fun _ => rfl⟩
    unfold StepEntity.Fits
    rw [h.id, h.fixed]
    exact hx.of_only h.only
  · rw [h.id] at hne
    obtain ⟨hfits, hstored⟩ := hy s hs
    exact ⟨hfits.of_only h.only, fun _ => (h.only.others _ hne).trans hstored,
      fun heq => absurd heq hne⟩

theorem exists_put {steps : Option (List StepEntity)} {k : Nat} (t : StepEntity)
    (h : ∃ s ∈ steps.getD [], s.id = k) :
    ∃ s ∈ (steps.map (·.map fun s => if s.id = t.id then t else s)).getD [], s.id = k := by
  obtain ⟨s, hs, hid⟩ := h
  refine ⟨if s.id = t.id then t else s, ?_, ?_⟩
  · cases steps with
    | none => cases hs
    | some l => exact List.mem_map_of_mem hs
  · split
    · next heq => exact heq.symm.trans hid
    · exact hid

theorem compensateEach_tracked {y : WorkflowEntity} (h : Partway w₀ id w done rest)
    (hy : Mirrors y w) (hcover : ∀ r ∈ rest, ∃ s ∈ y.steps.getD [], s.id = r.id) :
    wp tracked (compensateEach (rest.map fun r => r.id))
      (fun _ z s => s.2 = true ∧ s.1.workflows = w.workflows ∧ z.id = y.id ∧ Mirrors z s.1 ∧
        Partway w₀ id s.1 (done ++ rest) [] ∧
        (∀ r ∈ rest, stepState s.1 r.id = some .compensated) ∧
        ∀ r ∈ done, stepState s.1 r.id = stepState w r.id)
      (fun _ z s => s.2 = false ∧ s.1.workflows = w.workflows ∧ z.id = y.id ∧
        ∃ done r rest, Broken w₀ id s.1 done r rest ∧ MirrorsBut r.id z s.1) y (w, true) := by
  induction rest generalizing w done y with
  | nil =>
    refine ⟨rfl, rfl, rfl, hy, ?_, fun r hr => absurd hr List.not_mem_nil, fun _ _ => rfl⟩
    rwa [List.append_nil]
  | cons r rest ih =>
    obtain ⟨hdone, hrest⟩ := h.nodup
    simp only [List.map_cons, compensateEach, wp_bind, onStep]
    rw [wp_zoom]
    split
    · next s hfind =>
      have hdecide := List.find?_some hfind
      have hid : s.id = r.id := of_decide_eq_true hdecide
      obtain ⟨hfits, hstored⟩ := hy s (List.mem_of_find?_eq_some hfind)
      have hcompleted : stepState w s.id = some .completed := by
        rw [hid]
        exact h.left r List.mem_cons_self
      have hstate : s.state = .completed := Option.some.inj (hstored.symm.trans hcompleted)
      obtain ⟨hworkflow, hindex⟩ := h.fixed_eq hfits hid
      refine wp_mono ?_ ?_ (compensateStep_tracked hfits hstate hcompleted)
      · -- the step is compensated, and the others are as they were
        rintro - t ⟨w', b⟩ ⟨hb, hworked, htstate, htstored, htlog⟩
        dsimp only at hb hworked htstored htlog
        subst hb
        have honly := hworked.only
        rw [hworkflow, hindex] at htlog
        have hrstored := htstored
        rw [hid] at honly hrstored
        have hpart : Partway w₀ id w' (done ++ [r]) rest := by
          refine h.move honly hrstored (by simp) ?_
          rw [if_pos rfl]
          exact htlog
        have hmirrors : Mirrors { y with
            steps := y.steps.map (·.map fun s => if s.id = t.id then t else s) } w' := by
          intro s' hs'
          obtain ⟨hfits', hothers, hsame⟩ := hy.put hfits hworked s' hs'
          refine ⟨hfits', ?_⟩
          by_cases heq : s'.id = s.id
          · rw [heq, htstored, hsame heq, htstate]
          · exact hothers heq
        have hnext := ih hpart hmirrors fun r' hr' =>
          exists_put t (hcover r' (List.mem_cons_of_mem _ hr'))
        refine wp_mono ?_ (fun e z s h => ?_) hnext
        · rintro - z ⟨w'', b⟩ ⟨hb, hwf, hzid, hz, hpart', hall, hsame⟩
          refine ⟨hb, hwf.trans hworked.workflows, hzid, hz, ?_, ?_, fun d hd => ?_⟩
          · rwa [List.append_assoc] at hpart'
          · rw [List.forall_mem_cons]
            refine ⟨?_, hall⟩
            rw [hsame r (List.mem_append_right _ (List.mem_singleton_self r))]
            exact hrstored
          · exact (hsame d (List.mem_append_left _ hd)).trans (honly.others _ (hdone d hd))
        · exact ⟨h.1, h.2.1.trans hworked.workflows, h.2.2⟩
      · rintro - t ⟨w', b⟩ ⟨hb, hworked, hunfinished, ⟨state, hstate', hne⟩, hlog⟩
        have honly := hworked.only
        rw [hid] at honly hstate'
        refine ⟨hb, hworked.workflows, rfl, done, r, rest,
          ⟨⟨w, h, honly, hlog id⟩, state, hstate', hne⟩, ?_⟩
        intro s' hs'
        obtain ⟨hfits', hothers, hsame⟩ := hy.put hfits hworked s' hs'
        rw [← hid]
        exact ⟨hfits', hothers, fun heq => hsame heq ▸ hunfinished⟩
    · next hfind =>
      obtain ⟨s, hs, hid⟩ := hcover r List.mem_cons_self
      exact absurd (decide_eq_true hid) (List.find?_eq_none.mp hfind s hs)

/-! ### The whole call -/

/-- A save of an entity whose steps are what is stored. -/
theorem Mirrors.putWorkflow {y : WorkflowEntity} (hy : Mirrors y w) (now : Int) :
    (∀ k, ((w.putWorkflow now y).steps.lookup k).map WorkflowStep.fixed =
      (w.steps.lookup k).map WorkflowStep.fixed) ∧
    ∀ k, stepState (w.putWorkflow now y) k = stepState w k := by
  have honly : ∀ k, OnlyStep k w (w.putWorkflow now y) := fun k =>
    (onlyStep_putWorkflow (P := fun _ => True) now (fun s hs => (hy s hs).1)
      (fun s hs _ => (hy s hs).2) fun _ _ _ => trivial).1
  exact ⟨(honly 0).fixed, fun k => (honly (k + 1)).others k (Nat.succ_ne_self k).symm⟩

/-- What a call that went through leaves behind, when it found `done` and `rest`. -/
structure Succeeded (w₀ : World) (id : Nat) (w : World) (done rest : List StepEntity)
    (w' : World) : Prop where
  state : storedState w' id = some .compensated
  partway : Partway w₀ id w' (done ++ rest) []
  compensated : ∀ x ∈ rest, stepState w' x.id = some .compensated
  kept : ∀ x ∈ done, stepState w' x.id = stepState w x.id

/-- What a call that did not go through leaves behind. -/
structure Failed (w₀ : World) (id : Nat) (w' : World) : Prop where
  state : storedState w' id ≠ some .compensated
  partway : ∃ done rest, Partway w₀ id w' done rest

/-- How a call ends that was made on a workflow that can be compensated. -/
def Ended (w₀ : World) (id : Nat) (w : World) (done rest : List StepEntity) (s : World × Bool) :
    Prop :=
  (s.2 = true ∧ Succeeded w₀ id w done rest s.1) ∨ (s.2 = false ∧ Failed w₀ id s.1)

theorem mirrors_stepsOf {y : WorkflowEntity} (hy : y.steps = some (w.stepsOf id)) : Mirrors y w := by
  intro s hs
  rw [hy] at hs
  obtain ⟨row, hrow, -, hs⟩ := mem_stepsOf.mp hs
  constructor
  · unfold StepEntity.Fits
    rw [hrow, hs]
    rfl
  · rw [hs]
    exact stepState_eq_some.mpr ⟨row, hrow, rfl⟩

/-- The steps were seen as they are stored, so noting that again changes none. -/
theorem reread_stepsOf (w : World) (id : Nat) :
    (w.stepsOf id).map (fun step => { step with seen := step.state }) = w.stepsOf id := by
  rw [List.map_congr_left (g := fun step => step), List.map_id']
  intro s hs
  exact congrArg (fun seen => ({ s with seen } : StepEntity)) (read_stepsOf w id s hs).symm

theorem Partway.ids (h : Partway w₀ id w done rest) (hindexed : Indexed w₀ id) :
    (stepsToCompensate (w.stepsOf id)).map (fun step => step.id) = rest.map fun r => r.id := by
  have hdue := congrArg (List.map Prod.fst) (h.due_eq hindexed)
  rwa [List.map_map, List.map_map] at hdue

theorem Partway.covered (h : Partway w₀ id w done rest) (hindexed : Indexed w₀ id) :
    ∀ r ∈ rest, ∃ s ∈ w.stepsOf id, s.id = r.id := by
  intro r hr
  have hmem : r.id ∈ (stepsToCompensate (w.stepsOf id)).map fun step => step.id := by
    rw [h.ids hindexed]
    exact List.mem_map_of_mem hr
  obtain ⟨s, hs, hsid⟩ := List.mem_map.mp hmem
  exact ⟨s, List.mem_of_mem_filter ((List.mem_insertionSort _).mp hs), hsid⟩

/-- The failure of a compensation is saved, or that is rejected as well. -/
theorem failCompensation_tracked {y : WorkflowEntity} {error : Error}
    (hid : y.id = id) (hstate : storedState w id ≠ some .compensated)
    (hbroken : (∃ done x rest, Broken w₀ id w done x rest ∧ MirrorsBut x.id y w) ∨
      ∃ done rest, Partway w₀ id w done rest ∧ Mirrors y w) :
    wp tracked (do
      modify fun workflow => { workflow with state := .failed }
      saveWorkflow
      throw error : On WorkflowEntity Unit)
      (fun _ _ s => s.2 = false ∧ Failed w₀ id s.1) (fun _ _ s => s.2 = false ∧ Failed w₀ id s.1)
      y (w, false) := by
  simp only [wp_bind, wp_modify]
  refine saveWorkflow_tracked (fun now => ⟨rfl, ?_, ?_⟩) fun e => ⟨rfl, hstate, ?_⟩
  · rw [storedState_putWorkflow, if_pos hid.symm]
    simp
  · rcases hbroken with ⟨_, _, _, hbroken, hy⟩ | ⟨done', rest', hpart, hy⟩
    · obtain ⟨honly, hkeep⟩ := onlyStep_putWorkflow (x := { y with state := .failed })
        (P := fun state => state ≠ .compensated) now (fun s hs => (hy s hs).1)
        (fun s hs => (hy s hs).2.1) fun s hs heq => by
          rcases (hy s hs).2.2 heq with h | h <;> rw [h] <;> simp
      obtain ⟨state, hstored, hne⟩ := hbroken.here
      exact (hbroken.only honly (congrArg _ (log_putWorkflow now w _))
        (hkeep state hstored hne)).partway
    · obtain ⟨hfixed, hsame⟩ := Mirrors.putWorkflow (y := { y with state := .failed }) hy now
      exact ⟨done', rest', hpart.same hfixed hsame (congrArg _ (log_putWorkflow now w _))⟩
  · rcases hbroken with ⟨_, _, _, hbroken, -⟩ | ⟨done', rest', hpart, -⟩
    · exact hbroken.partway
    · exact ⟨done', rest', hpart⟩

theorem runCompensation_tracked {y : WorkflowEntity} (hindexed : Indexed w₀ id) (hid : y.id = id)
    (hsteps : y.steps = some (w.stepsOf id)) (h : Partway w₀ id w done rest)
    (hstored : storedState w id ≠ some .compensated) :
    wp tracked runCompensation (fun _ _ s => Ended w₀ id w done rest s)
      (fun _ _ s => Ended w₀ id w done rest s) y (w, true) := by
  have hy := mirrors_stepsOf hsteps
  simp only [runCompensation, wp_bind, wp_modify]
  refine saveWorkflow_tracked (fun now => ?_) fun e => .inr ⟨rfl, hstored, done, rest, h⟩
  -- the save changes no step, and the entity still holds what is stored
  set y₁ : WorkflowEntity := { y with state := .compensating, requiresCompensation := true }
  set w₁ : World := w.putWorkflow now y₁
  obtain ⟨hfixed₁, hsame₁⟩ := Mirrors.putWorkflow (y := y₁) hy now
  have hlog₁ : compensations id w₁.log = compensations id w.log := congrArg _ (log_putWorkflow _ _ _)
  have hpart₁ := h.same hfixed₁ hsame₁ hlog₁
  have hstate₁ : storedState w₁ id ≠ some .compensated := by
    rw [storedState_putWorkflow, if_pos hid.symm]
    simp
  have hread : (y₁.steps.map (·.map fun step => { step with seen := step.state })) =
      some (w.stepsOf id) := by
    show y.steps.map _ = _
    rw [hsteps, Option.map_some, reread_stepsOf]
  rw [hread, wp_tryCatch, wp_bind, wp_get, wp_bind]
  have hmirrors₁ : ∀ z : WorkflowEntity, z.steps = some (w.stepsOf id) → Mirrors z w₁ := by
    intro z hz s hs
    obtain ⟨hfits, hst⟩ := mirrors_stepsOf hz s hs
    exact ⟨(hfixed₁ s.id).trans hfits, (hsame₁ s.id).trans hst⟩
  rw [Option.getD_some, h.ids hindexed]
  refine wp_mono ?_ ?_ (compensateEach_tracked hpart₁ (hmirrors₁ _ rfl) (h.covered hindexed))
  · rintro - z ⟨w₂, b⟩ ⟨hb, hwf, hzid, hz, hpart₂, hall, hkept⟩
    dsimp only at hb hwf hz hpart₂ hall hkept
    subst hb
    simp only [wp_bind, wp_modify]
    have hz' : z.id = id := hzid.trans hid
    rw [← storedState_congr hwf] at hstate₁
    refine saveWorkflow_tracked (fun now' => .inl ⟨rfl, ?_⟩) fun e => ?_
    · obtain ⟨hfixed, hsame⟩ := Mirrors.putWorkflow
        (y := { z with state := .compensated, isCompensated := true }) hz now'
      refine ⟨?_, hpart₂.same hfixed hsame (congrArg _ (log_putWorkflow _ _ _)),
        fun r hr => (hsame r.id).trans (hall r hr),
        fun r hr => (hsame r.id).trans ((hkept r hr).trans (hsame₁ r.id))⟩
      rw [storedState_putWorkflow, if_pos hz'.symm]
    · refine wp_mono (fun _ _ _ h => .inr h) (fun _ _ _ h => .inr h) ?_
      exact failCompensation_tracked hz' hstate₁
        (.inr ⟨done ++ rest, [], hpart₂, hz⟩)
  · rintro e z ⟨w₂, b⟩ ⟨hb, hwf, hzid, done', r, rest', hbroken, hz⟩
    dsimp only at hb hwf hbroken hz
    subst hb
    rw [← storedState_congr hwf] at hstate₁
    refine wp_mono (fun _ _ _ h => .inr h) (fun _ _ _ h => .inr h) ?_
    exact failCompensation_tracked (hzid.trans hid) hstate₁ (.inl ⟨done', r, rest', hbroken, hz⟩)

theorem compensateWorkflow_tracked {state : WorkflowState} (hindexed : Indexed w₀ id)
    (h : Partway w₀ id w done rest) (hstored : storedState w id = some state)
    (hcan : canWorkflowCompensate state) :
    wp tracked (compensateWorkflow id) (fun _ _ s => Ended w₀ id w done rest s)
      (fun _ _ s => Ended w₀ id w done rest s) () (w, true) := by
  have hne : storedState w id ≠ some .compensated := by
    rw [hstored]
    rintro heq
    rw [Option.some.inj heq] at hcan
    exact absurd hcan (by decide)
  obtain ⟨row, hrow, rfl⟩ := Option.map_eq_some_iff.mp hstored
  have hstart : transitionWorkflow row.state .compensating = .ok () := by
    unfold canWorkflowCompensate at hcan
    unfold transitionWorkflow
    rw [if_pos]
    rcases List.mem_cons.mp hcan with h | h
    · rw [h]; decide
    · rcases List.mem_cons.mp h with h | h
      · rw [h]; decide
      · rw [List.mem_singleton.mp h]; decide
  simp only [compensateWorkflow, wp_bind]
  refine findWorkflow_tracked (fun row' hrow' => ?_) (fun hnone => ?_) fun e =>
    .inr ⟨rfl, hne, done, rest, h⟩
  · rw [hrow] at hrow'
    cases hrow'
    split
    · next hnot => exact absurd hcan hnot
    split
    · next e herror =>
      have hok : transitionWorkflow row.state .compensating = .error e := herror
      rw [hstart] at hok
      cases hok
    · rw [wp_call]
      exact runCompensation_tracked hindexed rfl rfl h hne
  · rw [hrow] at hnone
    cases hnone

/-- A workflow that cannot be compensated is left as it is. -/
theorem compensateWorkflow_refused (hcan : ∀ state, storedState w id = some state →
    ¬ canWorkflowCompensate state) :
    wp tracked (compensateWorkflow id) (fun _ _ s => s.1 = w) (fun _ _ s => s.1 = w) () (w, true) := by
  simp only [compensateWorkflow, wp_bind]
  refine findWorkflow_tracked (fun row hrow => ?_) (fun _ _ => rfl) fun _ => rfl
  have hrefused : ¬ canWorkflowCompensate row.state := by
    refine hcan row.state ?_
    unfold storedState
    rw [hrow, Option.map_some]
  split
  · rfl
  · next hcan => exact absurd (not_not.mp hcan) hrefused

end Calls

/-! ## Sequences of calls -/

/-- Calls of `compensateWorkflow` one after the other, from the world `w₀`.  The environment of a
call is the circumstances of its requests, so any pattern of rejections can occur. -/
def compensationCalls (id : Nat) (w₀ : World) :
    Machine (List Outside) Unit (Except Error Unit) Unit World where
  init w := w = w₀
  valid _ _ := True
  clock _ := 0
  exec cs _ w :=
    match run answer (compensateWorkflow id).program cs w with
    | some r => .ok r
    | none => .error ()

/-- Every step that was due is stored as compensated, and was compensated exactly once, in
strictly decreasing order of the indices. -/
structure Complete (w₀ : World) (id : Nat) (w : World) : Prop where
  stored : ∀ x ∈ due w₀ id, stepState w x.id = some .compensated
  once : compensations id w.log = compensations id w₀.log ++ (due w₀ id).map fun x => x.stepIndex
  decreasing : (due w₀ id).Pairwise fun a b => b.stepIndex < a.stepIndex

/-- If the call leaves the workflow compensated, which it was not from the start, the
compensation is complete. -/
def LeavesComplete (w₀ : World) (id : Nat)
    (e : Event (List Outside) Unit (Except Error Unit) World) : Prop :=
  storedState w₀ id ≠ some .compensated → storedState e.after id = some .compensated →
    Complete w₀ id e.after

/-- A call that is made in a state that can be compensated, and on which nothing is rejected,
finds every step that was due `completed` or `compensated`. -/
def FindsIntact (w₀ : World) (id : Nat)
    (e : Event (List Outside) Unit (Except Error Unit) World) : Prop :=
  storedState w₀ id ≠ some .compensated →
    (∃ state, storedState e.before id = some state ∧ canWorkflowCompensate state) →
    (∀ c ∈ e.env, c.rejects = none) →
    ∀ x ∈ due w₀ id, stepState e.before x.id = some .completed ∨
      stepState e.before x.id = some .compensated

theorem exec_compensation {id : Nat} {w₀ w w' : World} {cs : List Outside} {r : Except Error Unit}
    {Q : World × Bool → Prop} (hx : (compensationCalls id w₀).exec cs () w = .ok (r, w'))
    (h : wp tracked (compensateWorkflow id) (fun _ _ s => Q s) (fun _ _ s => Q s) () (w, true)) :
    Q (w', cs.all fun c => c.rejects.isNone) := by
  have hrun : run answer (compensateWorkflow id).program cs w = some (r, w') := by
    simp only [compensationCalls] at hx
    split at hx
    · next hr => cases hx; exact hr
    · cases hx
  have hwp : Async.wp tracked (compensateWorkflow id).program (fun _ s => Q s) (w, true) :=
    wp_program.mpr h
  refine wp_answering.mp hwp cs r (w', cs.all fun c => c.rejects.isNone) ?_
  rw [Async.run_flagged, hrun, Option.map_some, Bool.true_and]

theorem all_isNone {cs : List Outside} :
    (cs.all fun c => c.rejects.isNone) = true ↔ ∀ c ∈ cs, c.rejects = none := by
  rw [List.all_eq_true]
  exact forall₂_congr fun c _ => Option.isNone_iff_eq_none

/-- A call that went through is complete if the steps it did not select were compensated. -/
theorem Succeeded.complete {id : Nat} {w₀ w w' : World} {done rest : List StepEntity}
    (h : Succeeded w₀ id w done rest w') (hindexed : Indexed w₀ id)
    (hdone : ∀ x ∈ done, stepState w x.id = some .compensated) : Complete w₀ id w' := by
  have hsplit : due w₀ id = done ++ rest := by rw [h.partway.split, List.append_nil]
  have hstored : ∀ x ∈ done ++ rest, stepState w' x.id = some .compensated := by
    intro x hx
    rcases List.mem_append.mp hx with hx | hx
    · exact (h.kept x hx).trans (hdone x hx)
    · exact h.compensated x hx
  refine ⟨by rwa [hsplit], ?_, due_decreasing hindexed⟩
  rw [h.partway.log, hsplit, List.filter_eq_self.mpr fun x hx => decide_eq_true (hstored x hx)]

/-- **Compensation is complete** exactly as long as no call goes through that finds a step, once
completed and due, neither `completed` nor `compensated`. -/
theorem compensation_complete_iff {id : Nat} {w₀ w : World} (hindexed : Indexed w₀ id)
    {tr : List (Event (List Outside) Unit (Except Error Unit) World)}
    (h : Run (compensationCalls id w₀) tr w) :
    (∀ e ∈ tr, LeavesComplete w₀ id e) ↔ ∀ e ∈ tr, FindsIntact w₀ id e := by
  -- the calls have come some way, and a compensated workflow is complete
  refine h.forall_event_iff (I := fun w => storedState w₀ id ≠ some .compensated →
    (∃ done rest, Partway w₀ id w done rest) ∧
      (storedState w id = some .compensated → Complete w₀ id w)) ?_ ?_
  · rintro w rfl hne
    exact ⟨⟨_, _, .start w id⟩, fun hc => absurd hc hne⟩
  · intro tr cs call r w w' _ _ hI hx
    by_cases hne : storedState w₀ id ≠ some .compensated
    swap
    · exact ⟨⟨fun _ h => absurd h hne, fun _ h => absurd h hne⟩, fun _ h => absurd h hne⟩
    obtain ⟨⟨done, rest, hpart⟩, hcomplete⟩ := hI hne
    by_cases hcan : ∃ state, storedState w id = some state ∧ canWorkflowCompensate state
    · obtain ⟨state, hstored, hstate⟩ := hcan
      have hended := exec_compensation hx
        (compensateWorkflow_tracked hindexed hpart hstored hstate)
      rcases hended with ⟨hall, hsucceeded⟩ | ⟨hall, hfailed⟩
      · have hsplit : due w₀ id = done ++ rest := by rw [hpart.split]
        refine ⟨⟨fun hQ _ _ _ x hx => ?_, fun hP _ _ => ?_⟩, fun hQ _ => ?_⟩
        · rw [hsplit] at hx
          rcases List.mem_append.mp hx with hdone | hrest
          · right
            rw [← hsucceeded.kept x hdone]
            exact (hQ hne hsucceeded.state).stored x (by rwa [hsplit])
          · exact .inl (hpart.left x hrest)
        · refine hsucceeded.complete hindexed fun x hx => ?_
          have hintact := hP hne ⟨state, hstored, hstate⟩ (all_isNone.mp hall) x
            (by rw [hsplit]; exact List.mem_append_left _ hx)
          exact hintact.resolve_left (hpart.worked x hx)
        · exact ⟨⟨_, _, hsucceeded.partway⟩, fun hc => hQ hne hc⟩
      · refine ⟨⟨fun _ _ _ hnone => ?_, fun _ _ hc => absurd hc hfailed.state⟩, fun _ _ =>
          ⟨hfailed.partway, fun hc => absurd hc hfailed.state⟩⟩
        rw [all_isNone.mpr hnone] at hall
        cases hall
    · -- refused, and nothing changes
      have hsame : w' = w := exec_compensation (Q := fun s => s.1 = w) hx
        (compensateWorkflow_refused fun state hstate h => hcan ⟨state, hstate, h⟩)
      subst hsame
      exact ⟨⟨fun _ _ h => absurd h hcan, fun _ _ h => hcomplete h⟩,
        fun _ _ => ⟨⟨done, rest, hpart⟩, hcomplete⟩⟩

/-! ### A workflow of two completed steps -/

def transferRow (index : Nat) : WorkflowStep :=
  { grantRow .completed with stepName := "transfer", stepIndex := index, requiresCompensation := true }

def twoCompleted : World :=
  { workflows := (∅ : Store Nat Workflow).insert 0 (oneStepRow .completed)
    steps := ((∅ : Store Nat WorkflowStep).insert 0 (transferRow 0)).insert 1 (transferRow 1)
    log := [] }

theorem indexed_two {w : World} {id : Nat} {row : Nat → WorkflowStep}
    (hw : w.steps = ((∅ : Store Nat WorkflowStep).insert 0 (row 0)).insert 1 (row 1))
    (hrow : ∀ k, (row k).stepIndex = k) : Indexed w id := by
  have hindex : ∀ k row', w.steps.lookup k = some row' → row'.stepIndex = k := by
    intro k row' h
    simp only [hw, Store.lookup_insert_eq] at h
    split at h
    · next heq => cases h; rw [hrow, heq]
    · split at h
      · next heq => cases h; rw [hrow, heq]
      · cases h
  intro k k' row₁ row₂ h h' _ _ heq
  rw [← hindex k row₁ h, ← hindex k' row₂ h', heq]

theorem indexed_twoCompleted : Indexed twoCompleted 0 := indexed_two rfl fun _ => rfl

def refused : Outside := { undisturbed with rejects := some "connection terminated" }

/-- A call that is rejected before it starts, and one on which nothing is rejected. -/
def secondCallGoesThrough : List (List Outside × Unit) :=
  [([refused], ()), (List.replicate 9 undisturbed, ())]

/-- The last step is not saved as compensated, and is saved as failed; then nothing is rejected. -/
def lastStepFails : List (List Outside × Unit) :=
  [(List.replicate 4 undisturbed ++ refused :: List.replicate 2 undisturbed, ()),
    (List.replicate 6 undisturbed, ())]

theorem compensation_complete_iff_second_call :
    ∃ tr w, Run (compensationCalls 0 twoCompleted) tr w ∧ storedState w 0 = some .compensated ∧
      ((∀ e ∈ tr, LeavesComplete twoCompleted 0 e) ↔ ∀ e ∈ tr, FindsIntact twoCompleted 0 e) := by
  obtain ⟨tr, w, hrun, hok⟩ := Machine.exists_run_of_replay (m := compensationCalls 0 twoCompleted)
    (s := twoCompleted) rfl secondCallGoesThrough
    (fun _ w => storedState w 0 = some .compensated) (fun _ _ => trivial) (by decide) (by decide)
  exact ⟨tr, w, hrun, of_decide_eq_true hok, compensation_complete_iff indexed_twoCompleted hrun⟩

/-- The workflow is compensated, and its last step is not. -/
theorem compensation_complete_iff_lost_step :
    ¬ ∀ (id : Nat) (w₀ w : World) (tr : List (Event (List Outside) Unit (Except Error Unit) World)),
      Indexed w₀ id → Run (compensationCalls id w₀) tr w → ∀ e ∈ tr, LeavesComplete w₀ id e := by
  intro hall
  obtain ⟨tr, w, hrun, hok⟩ := Machine.exists_run_of_replay (m := compensationCalls 0 twoCompleted)
    (s := twoCompleted) rfl lastStepFails
    (fun tr _ => tr.any fun e => storedState e.after 0 = some .compensated ∧
      stepState e.after 1 = some .failed)
    (fun _ _ => trivial) (by decide) (by decide)
  obtain ⟨e, he, hstates⟩ := List.any_eq_true.mp hok
  obtain ⟨hafter, hstep⟩ := of_decide_eq_true hstates
  have hcomplete := hall 0 twoCompleted w tr indexed_twoCompleted hrun e he (by decide) hafter
  have hdue : World.loadStep 1 (transferRow 1) ∈ due twoCompleted 0 :=
    mem_due.mpr ⟨transferRow 1, rfl, rfl, rfl, rfl, rfl⟩
  have hstored := hcomplete.stored _ hdue
  rw [show (World.loadStep 1 (transferRow 1)).id = 1 from rfl, hstep] at hstored
  cases hstored

end Stellara.WorkflowEngine
