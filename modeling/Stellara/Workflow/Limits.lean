import Stellara.Workflow.Order

/-!
# The limits of a step

A step is executed `max(1, maxRetries)` times at most, and every failure is counted in its row.
The timeout that bounds an attempt is the step's own, or else that of the workflow; but a retry is
not given the latter:

    timeout of the step   timeout of the workflow   first attempt   retries
           100                     5000                  100           100
            —                      5000                 5000            —

So an attempt goes unbounded exactly when a step with no timeout of its own throws and is retried
(`attempts_bounded_iff`).
-/

namespace Stellara.WorkflowEngine

open Block
open Async (run flagged)

/-- What a timeout amounts to: one of zero or less is none. -/
def limit (timeoutMs : Option Int) : Option Int := timeoutMs.filter fun ms => 0 < ms

/-- The attempts at the step `k`, which was stored as `row`, keep to its limits. -/
structure Bounded (k : Nat) (row : WorkflowStep) (stepDefinition : StepDefinition)
    (definition : WorkflowDefinition) (w' : World) (tries : List Attempt) : Prop where
  count : tries.length ≤ max 1 row.maxRetries
  counted : storedRetries w' k = some (row.retryCount + failures tries)
  limited : ∀ attempt ∈ tries, limit attempt.1 = limit (stepDefinition.timeout <|> definition.timeout)

section Tried

variable {own given : Option Int} {left : Nat} {tries : List Attempt}

/-- Retries are given the timeout of the step and nothing else. -/
theorem Tried.of_none (h : Tried own none left tries) : tries ≠ [] ∧ ∀ attempt ∈ tries, attempt.1 = own := by
  have hown : (own <|> none) = own := by cases own <;> rfl
  generalize hgiven : (none : Option Int) = given at h
  induction h with
  | last h =>
    subst hgiven
    exact ⟨List.cons_ne_nil _ _, List.forall_mem_singleton.mpr hown⟩
  | retried hleft h ih =>
    subst hgiven
    refine ⟨List.append_ne_nil_of_right_ne_nil _ (List.cons_ne_nil _ _), fun attempt hattempt => ?_⟩
    rcases List.mem_append.mp hattempt with hattempt | hattempt
    · exact (ih rfl).2 attempt hattempt
    · rw [List.mem_singleton.mp hattempt]
      exact hown

/-- **All attempts are bounded alike** unless a step with no timeout of its own is retried. -/
theorem Tried.uses_limit_iff (h : Tried own given left tries) :
    (∀ attempt ∈ tries, limit attempt.1 = limit (own <|> given)) ↔
      own.isSome ∨ limit given = none ∨ left ≤ 1 ∨
        ∀ attempt ∈ tries, ∀ message, attempt.2 ≠ .throws message := by
  cases h with
  | @last given left result h =>
    refine iff_of_true (List.forall_mem_singleton.mpr rfl) (.inr (.inr ?_))
    by_cases hleft : left ≤ 1
    · exact .inl hleft
    · exact .inr (List.forall_mem_singleton.mpr fun message heq => hleft (h message heq))
  | @retried given left message later hleft h =>
    obtain ⟨hne, hlater⟩ := h.of_none
    rw [List.forall_mem_append, List.forall_mem_singleton, and_iff_left rfl]
    have hthrows : ¬ ∀ attempt ∈ later ++ [(own <|> given, .throws message)], ∀ message,
        attempt.2 ≠ .throws message := fun hall =>
      hall _ (List.mem_append_right _ (List.mem_singleton_self _)) message rfl
    have hmore : ¬ left + 1 ≤ 1 := by omega
    constructor
    · intro hall
      obtain ⟨attempt, hattempt⟩ := List.exists_mem_of_ne_nil later hne
      have heq := hall attempt hattempt
      rw [hlater attempt hattempt] at heq
      cases own with
      | some ms => exact .inl rfl
      | none => exact .inr (.inl heq.symm)
    · rintro (hown | hgiven | hmost | hnone) attempt hattempt
      · obtain ⟨ms, rfl⟩ := Option.isSome_iff_exists.mp hown
        rw [hlater attempt hattempt]
        rfl
      · rw [hlater attempt hattempt]
        cases own with
        | some ms => rfl
        | none => exact hgiven.symm
      · exact absurd hmost hmore
      · exact absurd hnone hthrows

end Tried

section Limits

variable {definitions : Definitions} {definition : WorkflowDefinition} {x : WorkflowEntity}
  {w₀ w w' : World} {b : Bool} {k : Nat} {row : WorkflowStep} {cs : List Outside}
  {r : Except Error Unit}

/-- A step that was not reached is as it was. -/
theorem Reached.accounted_of_mem {id : Nat} {steps done : List StepEntity} {s : World × Bool}
    {new : List Effect} (hlisted : Listed w₀ steps) (hdone : done ⊆ steps)
    (h : Reached id definition w₀ done s new) {y : StepEntity} (hy : y ∈ steps) :
    Accounted id definition y s new := by
  by_cases hmem : y ∈ done
  · exact h.accounted y hmem
  have : Std.Symm fun x y : StepEntity => x.id ≠ y.id ∧ x.stepIndex ≠ y.stepIndex :=
    ⟨fun _ _ h => ⟨h.1.symm, h.2.symm⟩⟩
  have hne : ∀ z ∈ done, z.id ≠ y.id ∧ z.stepIndex ≠ y.stepIndex := fun z hz =>
    hlisted.distinct.forall (hdone hz) hy fun heq => hmem (heq ▸ hz)
  have hnone := h.attempts_eq_nil fun z hz => (hne z hz).2
  refine ⟨hnone ▸ Nat.zero_le _, fun _ _ _ => ⟨.inl hnone, ?_⟩⟩
  unfold storedRetries
  rw [h.others y.id fun z hz => (hne z hz).1, hnone]
  exact hlisted.loaded y hy

/-- Every step of a workflow that is executed is accounted for.  A caller that hands over the steps
hands over a workflow that is `running`, which is refused. -/
theorem step_accounted (hdefinition : definitions x.type = some definition)
    (hcaller : x.steps ≠ none → x.state = .running) (hindexed : Indexed w x.id)
    (hrow : w.steps.lookup k = some row) (hid : row.workflowId = x.id)
    (hrun : run answer (call (executeWorkflow definitions) x).program cs w = some (r, w')) :
    ∃ new, w'.log = new ++ w.log ∧ Accounted x.id definition (World.loadStep k row)
      (w', cs.all fun c => c.rejects.isNone) new := by
  have hmem : World.loadStep k row ∈ w.stepsOf x.id := mem_stepsOf.mpr ⟨row, hrow, hid, rfl⟩
  have hflagged : run (flagged (fun c => c.rejects.isNone) answer)
      (call (executeWorkflow definitions) x).program cs (w, true) =
        some (r, w', cs.all fun c => c.rejects.isNone) := by
    rw [Async.run_flagged, hrun, Option.map_some, Bool.true_and]
  by_cases hok : canTransitionWorkflow x.state .running
  · have hsteps : x.steps = none := by
      by_contra hsome
      rw [hcaller hsome] at hok
      exact absurd hok (by decide)
    have hprogram : Async.wp (watched fun _ _ _ => True) (call (executeWorkflow definitions) x).program
        (fun _ s => Executed x.id definition w (ascending (w.stepsOf x.id)) s) (w, true) :=
      wp_program.mpr (wp_call.mpr (executeWorkflow_watched hdefinition hok hsteps hindexed
        fun _ _ _ _ _ _ _ _ _ _ => trivial))
    obtain ⟨done, new, hdone, hreached⟩ := ((Async.wp_guarding hprogram cs).2 r _ hflagged).reached
    exact ⟨new, hreached.log, hreached.accounted_of_mem (listed_ascending hindexed) hdone
      (mem_ascending.mpr hmem)⟩
  · have hrefused : transitionWorkflow x.state .running = .error _ := if_neg hok
    have hprogram : Async.wp tracked (call (executeWorkflow definitions) x).program
        (fun _ s => s.1 = w) (w, true) := by
      refine wp_program.mpr (wp_call.mpr ?_)
      unfold executeWorkflow
      refine wp_bind.mpr (wp_get.mpr ?_)
      rw [hdefinition, hrefused]
      exact rfl
    have hsame : w' = w := Async.wp_answering.mp hprogram cs r _ hflagged
    refine ⟨[], by rw [hsame]; rfl, Nat.zero_le _, fun _ _ _ => ⟨.inl rfl, ?_⟩⟩
    rw [hsame]
    exact storedRetries_of_mem hmem

end Limits

/-! ### A step without a timeout of its own is tried twice -/

/-- The workflow has five seconds for each step. -/
def limitedWorkflow : Definitions := fun _ =>
  some { steps := [⟨none⟩, ⟨none⟩], timeout := some 5000 }

/-- Nothing is rejected, and the fifth request is the first execution of the first step. -/
def firstThrows : List Outside :=
  List.replicate 4 undisturbed ++ { undisturbed with result := .throws "no connection" } ::
    List.replicate 10 undisturbed

theorem limitedWorkflow_run : ∃ r w', run answer (call (executeWorkflow limitedWorkflow)
      (twoPending.load false 0 (oneStepRow .pending))).program firstThrows twoPending = some (r, w') ∧
    attempts 0 0 w'.log = [(none, .returns), (some 5000, .throws "no connection")] := by
  have hok : ((run answer (call (executeWorkflow limitedWorkflow)
      (twoPending.load false 0 (oneStepRow .pending))).program firstThrows twoPending).any fun r =>
        attempts 0 0 r.2.log = [(none, .returns), (some 5000, .throws "no connection")]) = true := by
    decide
  obtain ⟨⟨r, w'⟩, hrun, hok⟩ := (Option.any_eq_true _ _).mp hok
  exact ⟨r, w', hrun, of_decide_eq_true hok⟩

end Stellara.WorkflowEngine
