import Stellara.Lib.Outcome

/-!
# Loops

`run stuck step n s` is `loop { .. }` with `step` as its body: the body fails, breaks
(`none`) or goes on in a new state.  `n` bounds the number of iterations; running out of
it is the failure `stuck`.

* `run_invariant`: what the body keeps holds where the loop ends, and the body breaks there.
* `run_ok`: a loop whose body never fails ends, once every iteration decreases a measure.
* `run_bound`: under an invariant that makes a measure decrease, every bound above the
  measure gives the same run, so the bound is no part of the meaning.
-/

namespace Loop

open Outcome

variable {ε σ : Type}

/-- At most `n` iterations of `step`. -/
def run (stuck : ε) (step : σ → Except ε (Option σ)) : Nat → σ → Except ε σ
  | 0, _ => .error stuck
  | n + 1, s => do
    match ← step s with
    | none => pure s
    | some s' => run stuck step n s'

variable {stuck : ε} {step : σ → Except ε (Option σ)} {I : σ → Prop}

/-- One iteration of a loop that ends. -/
theorem run_succ_ok {n : Nat} {s s' : σ} :
    run stuck step (n + 1) s = .ok s' ↔
      (step s = .ok none ∧ s = s') ∨ ∃ t, step s = .ok (some t) ∧ run stuck step n t = .ok s' := by
  simp only [run, bind_eq_ok]
  constructor
  · rintro ⟨o, ho, h⟩
    cases o with
    | none => exact .inl ⟨ho, by simpa using h⟩
    | some t => exact .inr ⟨t, ho, h⟩
  · rintro (⟨ho, rfl⟩ | ⟨t, ho, h⟩)
    · exact ⟨none, ho, rfl⟩
    · exact ⟨some t, ho, h⟩

/-- **The invariant rule.** -/
theorem run_invariant (hstep : ∀ s t, I s → step s = .ok (some t) → I t) :
    ∀ {n : Nat} {s s' : σ}, I s → run stuck step n s = .ok s' → I s' ∧ step s' = .ok none := by
  intro n
  induction n with
  | zero => intro s s' _ h; cases h
  | succ n ih =>
    intro s s' hI h
    rcases run_succ_ok.mp h with ⟨ho, rfl⟩ | ⟨t, ho, ht⟩
    · exact ⟨hI, ho⟩
    · exact ih (hstep s t hI ho) ht

/-- **Termination** of a loop whose body never fails. -/
theorem run_ok {μ : σ → Nat} (hbody : ∀ s, I s → ∃ o, step s = .ok o)
    (hstep : ∀ s t, I s → step s = .ok (some t) → I t ∧ μ t < μ s) :
    ∀ {n : Nat} {s : σ}, I s → μ s < n → ∃ s', run stuck step n s = .ok s' := by
  intro n
  induction n with
  | zero => intro s _ h; omega
  | succ n ih =>
    intro s hI h
    obtain ⟨o, ho⟩ := hbody s hI
    cases o with
    | none => exact ⟨s, run_succ_ok.mpr (.inl ⟨ho, rfl⟩)⟩
    | some t =>
      obtain ⟨hIt, hμ⟩ := hstep s t hI ho
      obtain ⟨s', hs'⟩ := ih hIt (by omega)
      exact ⟨s', run_succ_ok.mpr (.inr ⟨t, ho, hs'⟩)⟩

/-- **The bound does not matter** above a measure that every iteration decreases. -/
theorem run_bound {μ : σ → Nat}
    (hstep : ∀ s t, I s → step s = .ok (some t) → I t ∧ μ t < μ s) :
    ∀ {n n' : Nat} {s : σ}, I s → μ s < n → μ s < n' →
      run stuck step n s = run stuck step n' s := by
  intro n
  induction n with
  | zero => intro n' s _ h _; omega
  | succ n ih =>
    intro n' s hI h h'
    obtain ⟨n', rfl⟩ : ∃ k, n' = k + 1 := ⟨n' - 1, by omega⟩
    unfold run
    cases ho : step s with
    | error e => rfl
    | ok o =>
      cases o with
      | none => rfl
      | some t =>
        obtain ⟨hIt, hμ⟩ := hstep s t hI ho
        exact ih hIt (by omega) (by omega)

end Loop
