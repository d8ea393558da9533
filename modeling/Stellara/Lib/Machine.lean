import Stellara.Lib.Outcome
import Mathlib.Algebra.BigOperators.Group.List.Basic
import Mathlib.Tactic.Abel

/-!
# Machines whose failed calls are rolled back

A `Machine` answers calls made at points of time: a call either commits a new state
with a value for the caller, or fails, and then the host restores the state it found.
So a run is the list of its committed calls.  `Run m tr s` says that the events `tr`
(newest first) lead from a start state to `s`; times do not decrease along it.

* `Run.invariant`: what holds at the start and is kept by every committed call holds
  in every reachable state.
* `Run.of_mem`: an event of a run is a committed call made in a state that an earlier
  part of the run reaches.
* `Run.since`: what a call establishes and every committed call keeps holds from then on.
* `Run.forall_event_iff`, `Run.forall_after_iff`: when a call is right exactly if it meets `P`,
  all calls of a run are right exactly if all of them meet `P`; `Throughout`,
  `Run.throughout_iff` and `Run.throughout_iff_of` say so where both also depend on the calls
  before.
* `Run.conservation`: a quantity that every call changes by what it reports is the sum
  of the reports (`tally`).
* `replay` computes the run of a list of calls, so that a concrete run is obtained by
  evaluation (`exists_run_of_replay`).
-/

/-- A host for calls `Call` made in environments `Env` on a state `σ`. -/
structure Machine (Env Call Ret Fault σ : Type) where
  /-- the states a run may start from -/
  init : σ → Prop
  /-- which calls the outside world can make -/
  valid : Env → Call → Prop
  /-- the time at which a call is made -/
  clock : Env → Nat
  exec : Env → Call → σ → Except Fault (Ret × σ)

/-- A committed call, with the states before and after it. -/
structure Event (Env Call Ret σ : Type) where
  env : Env
  call : Call
  ret : Ret
  before : σ
  after : σ

variable {Env Call Ret Fault σ : Type}

/-- `Run m tr s`: the committed calls `tr`, newest first, lead to `s`. -/
inductive Run (m : Machine Env Call Ret Fault σ) : List (Event Env Call Ret σ) → σ → Prop
  | start {s : σ} (h : m.init s) : Run m [] s
  | commit {tr : List (Event Env Call Ret σ)} {s s' : σ} {env : Env} {call : Call} {r : Ret}
      (h : Run m tr s) (hv : m.valid env call) (hc : ∀ e ∈ tr, m.clock e.env ≤ m.clock env)
      (he : m.exec env call s = .ok (r, s')) : Run m (⟨env, call, r, s, s'⟩ :: tr) s'

namespace Run

variable {m : Machine Env Call Ret Fault σ} {tr : List (Event Env Call Ret σ)} {s : σ}

/-- **Inductive invariants** hold in every reachable state. -/
theorem invariant {I : σ → Prop} (h : Run m tr s) (h0 : ∀ s, m.init s → I s)
    (hstep : ∀ env call r s s', m.valid env call → I s → m.exec env call s = .ok (r, s') → I s') :
    I s := by
  induction h with
  | start h => exact h0 _ h
  | commit _ hv _ he ih => exact hstep _ _ _ _ _ hv ih he

/-- Invariants that also speak about the calls made so far. -/
theorem invariant_trace {I : List (Event Env Call Ret σ) → σ → Prop} (h : Run m tr s)
    (h0 : ∀ s, m.init s → I [] s)
    (hstep : ∀ tr env call r s s', m.valid env call → (∀ e ∈ tr, m.clock e.env ≤ m.clock env) →
      I tr s → m.exec env call s = .ok (r, s') → I (⟨env, call, r, s, s'⟩ :: tr) s') : I tr s := by
  induction h with
  | start h => exact h0 _ h
  | commit _ hv hc he ih => exact hstep _ _ _ _ _ _ hv hc ih he

/-- Every event of a run is a committed call made in a reachable state, not before any call of
the part of the run that leads to that state. -/
theorem of_mem_after {e : Event Env Call Ret σ} (h : Run m tr s) (he : e ∈ tr) :
    ∃ tr', Run m tr' e.before ∧ m.valid e.env e.call ∧
      (∀ e' ∈ tr', m.clock e'.env ≤ m.clock e.env) ∧
      m.exec e.env e.call e.before = .ok (e.ret, e.after) := by
  induction h with
  | start => cases he
  | @commit tr s s' env call r h hv hc hx ih =>
    rcases List.mem_cons.mp he with rfl | he
    · exact ⟨tr, h, hv, hc, hx⟩
    · exact ih he

theorem of_mem {e : Event Env Call Ret σ} (h : Run m tr s) (he : e ∈ tr) :
    ∃ tr', Run m tr' e.before ∧ m.valid e.env e.call ∧
      m.exec e.env e.call e.before = .ok (e.ret, e.after) := by
  obtain ⟨tr', hr, hv, -, hx⟩ := h.of_mem_after he
  exact ⟨tr', hr, hv, hx⟩

/-- What holds after a call and is kept by every committed call holds from then on. -/
theorem since {I : σ → Prop} {e : Event Env Call Ret σ} {later : List (Event Env Call Ret σ)}
    (h : Run m (later ++ e :: tr) s) (h0 : I e.after)
    (hstep : ∀ tr env call r s s', Run m tr s → I s → m.exec env call s = .ok (r, s') → I s') :
    I s := by
  induction later generalizing s with
  | nil =>
    cases h
    exact h0
  | cons e' later ih =>
    cases h with
    | commit h hv hc hx => exact hstep _ _ _ _ _ _ h (ih h) hx

/-- **Exact conditions.**  A call made in a state with `I` has `Q` exactly when it meets `P`,
and with `Q` it keeps `I`; then all calls of a run have `Q` exactly when all of them meet `P`. -/
theorem forall_event_iff {I : σ → Prop} {Q P : Event Env Call Ret σ → Prop} (h : Run m tr s)
    (h0 : ∀ s, m.init s → I s)
    (hstep : ∀ tr env call r s s', Run m tr s → m.valid env call → I s →
      m.exec env call s = .ok (r, s') →
      (Q ⟨env, call, r, s, s'⟩ ↔ P ⟨env, call, r, s, s'⟩) ∧ (Q ⟨env, call, r, s, s'⟩ → I s')) :
    (∀ e ∈ tr, Q e) ↔ ∀ e ∈ tr, P e := by
  -- as long as all calls have `Q`, the state reached has `I`
  have key : ((∀ e ∈ tr, Q e) ↔ ∀ e ∈ tr, P e) ∧ ((∀ e ∈ tr, Q e) → I s) := by
    induction h with
    | start h => exact ⟨by simp, fun _ => h0 _ h⟩
    | @commit tr s s' env call r h hv _ hx ih =>
      obtain ⟨hiff, hlast⟩ := ih
      rw [List.forall_mem_cons, List.forall_mem_cons]
      constructor
      · constructor
        · rintro ⟨hQ, hall⟩
          exact ⟨(hstep _ _ _ _ _ _ h hv (hlast hall) hx).1.mp hQ, hiff.mp hall⟩
        · rintro ⟨hP, hall⟩
          have hall := hiff.mpr hall
          exact ⟨(hstep _ _ _ _ _ _ h hv (hlast hall) hx).1.mpr hP, hall⟩
      · rintro ⟨hQ, hall⟩
        exact (hstep _ _ _ _ _ _ h hv (hlast hall) hx).2 hQ
  exact key.1

/-- A call made in a state with `I` keeps `I` exactly when it meets `P`; then `I` holds in
every state of a run exactly when all its calls meet `P`. -/
theorem forall_after_iff {I : σ → Prop} {P : Event Env Call Ret σ → Prop} (h : Run m tr s)
    (h0 : ∀ s, m.init s → I s)
    (hstep : ∀ tr env call r s s', Run m tr s → m.valid env call → I s →
      m.exec env call s = .ok (r, s') → (I s' ↔ P ⟨env, call, r, s, s'⟩)) :
    (∀ e ∈ tr, I e.after) ↔ ∀ e ∈ tr, P e :=
  h.forall_event_iff h0 fun tr env call r s s' hr hv hI hx =>
    ⟨hstep tr env call r s s' hr hv hI hx, id⟩

end Run

/-! ## Properties of a call and of what went before -/

/-- Every call of the history has `Q`, which may also speak about the calls made before it. -/
def Throughout (Q : Event Env Call Ret σ → List (Event Env Call Ret σ) → Prop) :
    List (Event Env Call Ret σ) → Prop
  | [] => True
  | e :: tr => Q e tr ∧ Throughout Q tr

instance Throughout.decidable {Q : Event Env Call Ret σ → List (Event Env Call Ret σ) → Prop}
    [∀ e tr, Decidable (Q e tr)] : (tr : List (Event Env Call Ret σ)) → Decidable (Throughout Q tr)
  | [] => isTrue trivial
  | _ :: tr => @instDecidableAnd _ _ inferInstance (Throughout.decidable tr)

/-- **Exact conditions on a history.**  As `Run.forall_event_iff`, for an invariant, a property
and a condition that speak about the calls made so far. -/
theorem Run.throughout_iff {m : Machine Env Call Ret Fault σ}
    {tr : List (Event Env Call Ret σ)} {s : σ} {I : List (Event Env Call Ret σ) → σ → Prop}
    {Q P : Event Env Call Ret σ → List (Event Env Call Ret σ) → Prop} (h : Run m tr s)
    (h0 : ∀ s, m.init s → I [] s)
    (hstep : ∀ tr env call r s s', Run m tr s → m.valid env call →
      (∀ e ∈ tr, m.clock e.env ≤ m.clock env) → I tr s → m.exec env call s = .ok (r, s') →
      (Q ⟨env, call, r, s, s'⟩ tr ↔ P ⟨env, call, r, s, s'⟩ tr) ∧
        (Q ⟨env, call, r, s, s'⟩ tr → I (⟨env, call, r, s, s'⟩ :: tr) s')) :
    Throughout Q tr ↔ Throughout P tr := by
  have key : (Throughout Q tr ↔ Throughout P tr) ∧ (Throughout Q tr → I tr s) := by
    induction h with
    | start h => exact ⟨Iff.rfl, fun _ => h0 _ h⟩
    | @commit tr s s' env call r h hv hc hx ih =>
      obtain ⟨hiff, hlast⟩ := ih
      constructor
      · constructor
        · rintro ⟨hQ, hall⟩
          exact ⟨(hstep _ _ _ _ _ _ h hv hc (hlast hall) hx).1.mp hQ, hiff.mp hall⟩
        · rintro ⟨hP, hall⟩
          have hall := hiff.mpr hall
          exact ⟨(hstep _ _ _ _ _ _ h hv hc (hlast hall) hx).1.mpr hP, hall⟩
      · rintro ⟨hQ, hall⟩
        exact (hstep _ _ _ _ _ _ h hv hc (hlast hall) hx).2 hQ
  exact key.1

/-- A property that does not look at the calls before. -/
theorem throughout_const {Q : Event Env Call Ret σ → Prop} {tr : List (Event Env Call Ret σ)} :
    Throughout (fun e _ => Q e) tr ↔ ∀ e ∈ tr, Q e := by
  induction tr with
  | nil => simp [Throughout]
  | cons e tr ih => rw [List.forall_mem_cons, ← ih, Throughout]

theorem throughout_and {A : Event Env Call Ret σ → Prop}
    {Q : Event Env Call Ret σ → List (Event Env Call Ret σ) → Prop}
    {tr : List (Event Env Call Ret σ)} :
    Throughout (fun e tr => A e ∧ Q e tr) tr ↔ (∀ e ∈ tr, A e) ∧ Throughout Q tr := by
  induction tr with
  | nil => simp [Throughout]
  | cons e tr ih =>
    rw [Throughout, ih, List.forall_mem_cons, Throughout]
    tauto

/-- **Exact conditions among the runs whose calls all meet `A`.** -/
theorem Run.throughout_iff_of {m : Machine Env Call Ret Fault σ}
    {tr : List (Event Env Call Ret σ)} {s : σ} {I : List (Event Env Call Ret σ) → σ → Prop}
    {A : Event Env Call Ret σ → Prop}
    {Q P : Event Env Call Ret σ → List (Event Env Call Ret σ) → Prop} (h : Run m tr s)
    (hA : ∀ e ∈ tr, A e) (h0 : ∀ s, m.init s → I [] s)
    (hstep : ∀ tr env call r s s', Run m tr s → m.valid env call →
      (∀ e ∈ tr, m.clock e.env ≤ m.clock env) → I tr s → m.exec env call s = .ok (r, s') →
      A ⟨env, call, r, s, s'⟩ →
      (Q ⟨env, call, r, s, s'⟩ tr ↔ P ⟨env, call, r, s, s'⟩ tr) ∧
        (Q ⟨env, call, r, s, s'⟩ tr → I (⟨env, call, r, s, s'⟩ :: tr) s')) :
    Throughout Q tr ↔ Throughout P tr := by
  have key : Throughout (fun e tr => A e ∧ Q e tr) tr ↔ Throughout (fun e tr => A e ∧ P e tr) tr := by
    refine h.throughout_iff h0 fun tr env call r s s' hr hv hc hI hx => ⟨?_, fun hQ => ?_⟩
    · exact and_congr_right fun ha => (hstep tr env call r s s' hr hv hc hI hx ha).1
    · exact (hstep tr env call r s s' hr hv hc hI hx hQ.1).2 hQ.2
  rw [throughout_and, throughout_and] at key
  exact ⟨fun hQ => (key.mp ⟨hA, hQ⟩).2, fun hP => (key.mpr ⟨hA, hP⟩).2⟩

/-! ## Sums over a history -/

section Tally

variable {M : Type} [AddCommGroup M]

/-- The sum of `f` over the calls of a history. -/
def tally (f : Event Env Call Ret σ → M) (tr : List (Event Env Call Ret σ)) : M := (tr.map f).sum

@[simp] theorem tally_nil (f : Event Env Call Ret σ → M) : tally f [] = 0 := rfl

@[simp] theorem tally_cons (f : Event Env Call Ret σ → M) (e : Event Env Call Ret σ)
    (tr : List (Event Env Call Ret σ)) : tally f (e :: tr) = f e + tally f tr := by
  simp [tally]

theorem tally_add (f g : Event Env Call Ret σ → M) (tr : List (Event Env Call Ret σ)) :
    tally (fun e => f e + g e) tr = tally f tr + tally g tr := by
  induction tr with
  | nil => simp
  | cons e tr ih => simp only [tally_cons, ih]; abel

theorem tally_sub (f g : Event Env Call Ret σ → M) (tr : List (Event Env Call Ret σ)) :
    tally (fun e => f e - g e) tr = tally f tr - tally g tr := by
  induction tr with
  | nil => simp
  | cons e tr ih => simp only [tally_cons, ih]; abel

/-- **Conservation.**  `Q` starts at zero and every call that meets `P` moves it by `f`;
then along a run whose calls all meet `P` it is the sum of `f`. -/
theorem Run.conservation {m : Machine Env Call Ret Fault σ} {tr : List (Event Env Call Ret σ)}
    {s : σ} {Q : σ → M} {f : Event Env Call Ret σ → M} {P : Event Env Call Ret σ → Prop}
    (h : Run m tr s) (hP : ∀ e ∈ tr, P e) (h0 : ∀ s, m.init s → Q s = 0)
    (hstep : ∀ tr env call r s s', Run m tr s → m.valid env call →
      m.exec env call s = .ok (r, s') → P ⟨env, call, r, s, s'⟩ →
      Q s' = Q s + f ⟨env, call, r, s, s'⟩) : Q s = tally f tr := by
  induction h with
  | start h => exact h0 _ h
  | @commit tr s s' env call r h hv _ hx ih =>
    rw [List.forall_mem_cons] at hP
    rw [tally_cons, hstep _ _ _ _ _ _ h hv hx hP.1, ih hP.2, add_comm]

end Tally

/-! ## Computing a run -/

namespace Machine

/-- Make the calls in order on top of the run `tr` that reached `s`; a call that fails
ends the replay. -/
def replayFrom (m : Machine Env Call Ret Fault σ) (tr : List (Event Env Call Ret σ)) (s : σ) :
    List (Env × Call) → Except Fault (List (Event Env Call Ret σ) × σ)
  | [] => .ok (tr, s)
  | (env, call) :: rest =>
    match m.exec env call s with
    | .error f => .error f
    | .ok (r, s') => m.replayFrom (⟨env, call, r, s, s'⟩ :: tr) s' rest

/-- The calls all commit, one after another from `s`, and the run they make passes `p`. -/
def replay (m : Machine Env Call Ret Fault σ) (s : σ) (calls : List (Env × Call))
    (p : List (Event Env Call Ret σ) → σ → Bool) : Bool :=
  match m.replayFrom [] s calls with
  | .ok (tr, s') => p tr s'
  | .error _ => false

theorem run_replayFrom {m : Machine Env Call Ret Fault σ} {calls : List (Env × Call)} :
    ∀ {tr : List (Event Env Call Ret σ)} {s : σ} {tr' : List (Event Env Call Ret σ)} {s' : σ},
      Run m tr s → (∀ c ∈ calls, m.valid c.1 c.2) →
      calls.Pairwise (fun a b => m.clock a.1 ≤ m.clock b.1) →
      (∀ e ∈ tr, ∀ c ∈ calls, m.clock e.env ≤ m.clock c.1) →
      m.replayFrom tr s calls = .ok (tr', s') → Run m tr' s' := by
  induction calls with
  | nil =>
    intro tr s tr' s' hr _ _ _ h
    simp only [replayFrom, Except.ok.injEq, Prod.mk.injEq] at h
    obtain ⟨rfl, rfl⟩ := h
    exact hr
  | cons c rest ih =>
    obtain ⟨env, call⟩ := c
    intro tr s tr' s' hr hv hp hc h
    rw [List.pairwise_cons] at hp
    unfold replayFrom at h
    split at h
    · cases h
    · next r s1 hx =>
      refine ih (.commit hr (hv _ List.mem_cons_self) (fun e he => hc e he _ List.mem_cons_self) hx)
        (fun c hc' => hv c (List.mem_cons_of_mem _ hc')) hp.2 ?_ h
      intro e he c hc'
      rcases List.mem_cons.mp he with rfl | he
      · exact hp.1 c hc'
      · exact hc e he c (List.mem_cons_of_mem _ hc')

/-- **A concrete run by evaluation.** -/
theorem exists_run_of_replay {m : Machine Env Call Ret Fault σ} {s : σ} (h0 : m.init s)
    (calls : List (Env × Call)) (p : List (Event Env Call Ret σ) → σ → Bool)
    (hv : ∀ c ∈ calls, m.valid c.1 c.2)
    (hc : calls.Pairwise fun a b => m.clock a.1 ≤ m.clock b.1)
    (h : m.replay s calls p = true) : ∃ tr s', Run m tr s' ∧ p tr s' = true := by
  unfold replay at h
  split at h
  · next tr s' hr =>
    exact ⟨tr, s', run_replayFrom (.start h0) hv hc (fun e he => by cases he) hr, h⟩
  · cases h

end Machine
