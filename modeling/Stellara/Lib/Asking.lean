import Stellara.Lib.Async

/-!
# What a program finds when it asks

`asked answer p cs s` are the requests that `p` makes under the circumstances `cs`, each with the
state of the world that it finds.  The last one may be left without an answer.  With
`guarding G answer` each request must find a state with `G`, and then all of them do, in every run
alone and however far it comes (`wp_guarding`).
-/

namespace Async

variable {A : Type} {R : A → Type} {α C σ : Type}

section Asked

variable (answer : C → σ → (a : A) → Option (R a × σ))

/-- The requests of `p`, each with the state that it finds. -/
def asked : Async A R α → List C → σ → List (A × σ)
  | done _, _, _ => []
  | await a _, [], s => [(a, s)]
  | await a k, c :: cs, s =>
    (a, s) ::
      match answer c s a with
      | some (r, s') => asked (k r) cs s'
      | none => []

/-- The rules of a world that gives any of its answers, of which nothing may be asked but with
`G`. -/
def guarding (G : A → σ → Prop) : Rules A R σ where
  pre a P s := G a s ∧ ∀ c r s', answer c s a = some (r, s') → P r s'
  mono hP h := ⟨h.1, fun c r s' hx => hP r s' (h.2 c r s' hx)⟩

end Asked

variable {answer : C → σ → (a : A) → Option (R a × σ)} {G : A → σ → Prop} {p : Async A R α}
  {Q : α → σ → Prop} {s : σ}

@[simp] theorem guarding_pre {a : A} {P : R a → σ → Prop} :
    (guarding answer G).pre a P s ↔ G a s ∧ ∀ c r s', answer c s a = some (r, s') → P r s' :=
  Iff.rfl

/-- **Every request finds what it is guarded by**, and the runs end as the weakest precondition
says. -/
theorem wp_guarding (h : wp (guarding answer G) p Q s) (cs : List C) :
    (∀ q ∈ asked answer p cs s, G q.1 q.2) ∧ ∀ x s', run answer p cs s = some (x, s') → Q x s' := by
  induction p generalizing cs s with
  | done x =>
    refine ⟨List.forall_mem_nil _, fun y s' hx => ?_⟩
    cases cs with
    | nil => cases hx; exact h
    | cons c cs => cases hx
  | await a k ih =>
    cases cs with
    | nil =>
      refine ⟨List.forall_mem_singleton.mpr h.1, fun y s' hx => ?_⟩
      cases hx
    | cons c cs =>
      unfold asked run
      rw [List.forall_mem_cons]
      cases hx : answer c s a with
      | none =>
        refine ⟨⟨h.1, List.forall_mem_nil _⟩, fun y s' hx => ?_⟩
        cases hx
      | some r =>
        obtain ⟨hasked, hrun⟩ := ih r.1 (h.2 c r.1 r.2 hx) cs
        exact ⟨⟨h.1, hasked⟩, hrun⟩

/-- A program that asks only for what needs no guard. -/
theorem wp_guarding_of_keeping {F : A → Prop} (hF : ∀ a s, F a → G a s)
    (hkeep : wp (keeping F fun _ _ => True) p (fun _ _ => True) ()) (h : wp (answering answer) p Q s) :
    wp (guarding answer G) p Q s := by
  induction p generalizing s with
  | done x => exact h
  | await a k ih =>
    exact ⟨hF a s hkeep.1, fun c r s' hx => ih r (hkeep.2 r trivial) (h c r s' hx)⟩

/-- What is asked does not depend on the flag. -/
theorem exists_asked_flagged {P : C → Bool} {cs : List C} {b : Bool} {q : A × σ}
    (h : q ∈ asked answer p cs s) :
    ∃ b', (q.1, q.2, b') ∈ asked (flagged P answer) p cs (s, b) ∧
      (b = true → (∀ c ∈ cs, P c = true) → b' = true) := by
  induction p generalizing cs s b with
  | done x => cases h
  | await a k ih =>
    cases cs with
    | nil =>
      obtain rfl := List.mem_singleton.mp h
      exact ⟨b, List.mem_singleton_self _, fun hb _ => hb⟩
    | cons c cs =>
      have hstep : flagged P answer c (s, b) a =
          (answer c s a).map fun r => (r.1, r.2, b && P c) := rfl
      unfold asked at h ⊢
      rw [hstep]
      rcases List.mem_cons.mp h with rfl | h
      · exact ⟨b, List.mem_cons_self, fun hb _ => hb⟩
      · cases hx : answer c s a with
        | none =>
          rw [hx] at h
          cases h
        | some r =>
          rw [hx] at h
          obtain ⟨b', hmem, hflag⟩ := ih r.1 (b := b && P c) h
          refine ⟨b', List.mem_cons_of_mem _ hmem, fun hb hcs => ?_⟩
          rw [List.forall_mem_cons] at hcs
          exact hflag (by rw [hb, hcs.1]; rfl) hcs.2

end Async

namespace Block

open Async

variable {A : Type} {R : A → Type} {ε τ α C σ : Type}
  {answer : C → σ → (a : A) → Option (R a × σ)} {G : A → σ → Prop} {m : Block A R ε τ α}
  {Q : α → τ → σ → Prop} {E : ε → τ → σ → Prop} {x : τ} {s : σ}

theorem wp_guarding_of_keeping {F : A → Prop} (hF : ∀ a s, F a → G a s)
    (hkeep : wp (keeping F fun _ _ => True) m (fun _ _ _ => True) (fun _ _ _ => True) x ())
    (h : wp (answering answer) m Q E x s) : wp (guarding answer G) m Q E x s := by
  refine Async.wp_guarding_of_keeping hF (Async.wp_mono ?_ hkeep) h
  rintro ⟨e | a, y⟩ - -
  · trivial
  · trivial

end Block
