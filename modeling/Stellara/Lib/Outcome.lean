import Mathlib.Tactic.Common

/-!
# Outcomes of fallible calls

A call that can fail is an `Except`: either the value it computes or the fault it
stops with.  `require` is a guard.  The `_eq_ok` lemmas take a successful call apart
into its successful parts, so that a proof about a call that committed never unfolds
the error paths:

    require p e = .ok u              ↔  p                                 (require_eq_ok)
    (x >>= f) = .ok b                ↔  ∃ a, x = .ok a ∧ f a = .ok b      (bind_eq_ok)
    ofOption o e = .ok a             ↔  o = some a                        (ofOption_eq_ok)
    x.mapError f = .ok a             ↔  x = .ok a                         (mapError_eq_ok)

`answer_eq_ok` and `answerWith_eq_ok` do so for an entry point that wraps a call.  The other
way round, `Avoids` says that a call does not fail in a given way.
-/

namespace Outcome

variable {ε ε' α β : Type}

/-- Stop with `e` unless `p` holds. -/
def require (p : Prop) [Decidable p] (e : ε) : Except ε Unit :=
  if p then .ok () else .error e

/-- The value of `o`, or the fault `e` when there is none. -/
def ofOption (o : Option α) (e : ε) : Except ε α :=
  match o with
  | some a => .ok a
  | none => .error e

@[simp] theorem require_eq_ok {p : Prop} [Decidable p] {e : ε} {u : Unit} :
    require p e = .ok u ↔ p := by
  unfold require
  split <;> simp_all

theorem require_pos {p : Prop} [Decidable p] (e : ε) (h : p) : require p e = .ok () :=
  if_pos h

theorem require_neg {p : Prop} [Decidable p] (e : ε) (h : ¬ p) : require p e = .error e :=
  if_neg h

@[simp] theorem bind_eq_ok {x : Except ε α} {f : α → Except ε β} {b : β} :
    (x >>= f) = .ok b ↔ ∃ a, x = .ok a ∧ f a = .ok b := by
  cases x with
  | error e => simp [bind, Except.bind]
  | ok a => simp [bind, Except.bind]

@[simp] theorem ofOption_eq_ok {o : Option α} {e : ε} {a : α} :
    ofOption o e = .ok a ↔ o = some a := by
  cases o <;> simp [ofOption]

@[simp] theorem mapError_eq_ok {x : Except ε α} {f : ε → ε'} {a : α} :
    x.mapError f = .ok a ↔ x = .ok a := by
  cases x <;> simp [Except.mapError]

@[simp] theorem pure_eq_ok {a b : α} : (pure a : Except ε α) = .ok b ↔ a = b := by
  simp [pure, Except.pure]

/-- A call with a fixed answer. -/
theorem answer_eq_ok {x : Except ε α} {b c : β} {a : α} :
    (do pure (b, ← x) : Except ε (β × α)) = .ok (c, a) ↔ x = .ok a ∧ c = b := by
  simp only [bind_eq_ok, pure_eq_ok, Prod.mk.injEq]
  constructor
  · rintro ⟨a', h, rfl, rfl⟩
    exact ⟨h, rfl⟩
  · rintro ⟨h, rfl⟩
    exact ⟨a, h, rfl, rfl⟩

/-- A call whose answer is made from its result. -/
theorem answerWith_eq_ok {γ : Type} {x : Except ε (β × α)} {f : β → γ} {c : γ} {a : α} :
    (do let (b, a) ← x; pure (f b, a) : Except ε (γ × α)) = .ok (c, a) ↔
      ∃ b, x = .ok (b, a) ∧ c = f b := by
  simp only [bind_eq_ok, pure_eq_ok, Prod.mk.injEq]
  constructor
  · rintro ⟨⟨b, a'⟩, h, rfl, rfl⟩
    exact ⟨b, h, rfl⟩
  · rintro ⟨b, h, rfl⟩
    exact ⟨(b, a), h, rfl, rfl⟩

@[simp] theorem ok_bind {a : α} {f : α → Except ε β} : (Except.ok a >>= f) = f a := rfl

@[simp] theorem error_bind {e : ε} {f : α → Except ε β} :
    ((Except.error e : Except ε α) >>= f) = .error e := rfl

@[simp] theorem exists_unit_and {p : Unit → Prop} : (∃ u, p u) ↔ p () :=
  ⟨fun ⟨(), h⟩ => h, fun h => ⟨(), h⟩⟩

/-! ## Faults that do not occur -/

/-- The call does not fail with `e`. -/
def Avoids (x : Except ε α) (e : ε) : Prop := x ≠ .error e

section Avoids

variable {e e' : ε}

theorem avoids_ok (a : α) : Avoids (.ok a) e := nofun

theorem avoids_pure (a : α) : Avoids (pure a) e := nofun

theorem avoids_require {p : Prop} [Decidable p] (h : e' ≠ e) : Avoids (require p e') e := by
  unfold Avoids require
  split
  · exact nofun
  · exact fun heq => h (Except.error.inj heq)

theorem avoids_ofOption {o : Option α} (h : e' ≠ e) : Avoids (ofOption o e') e := by
  cases o with
  | none => exact fun heq => h (Except.error.inj heq)
  | some a => exact nofun

/-- A sequence avoids what its parts avoid. -/
theorem Avoids.bind {x : Except ε α} {f : α → Except ε β} (hx : Avoids x e)
    (hf : ∀ a, x = .ok a → Avoids (f a) e) : Avoids (x >>= f) e := by
  cases x with
  | error e' => exact fun heq => hx (congrArg Except.error (Except.error.inj heq))
  | ok a => exact hf a rfl

theorem avoids_mapError {x : Except ε' α} {f : ε' → ε} (h : ∀ e', x = .error e' → f e' ≠ e) :
    Avoids (x.mapError f) e := by
  cases x with
  | error e' => exact fun heq => h e' rfl (Except.error.inj heq)
  | ok a => exact nofun

end Avoids

/-! ## Running an example -/

/-- The call fails with `e`. -/
def failsWith [DecidableEq ε] (x : Except ε α) (e : ε) : Bool :=
  match x with
  | .ok _ => false
  | .error e' => e' = e

theorem eq_of_failsWith [DecidableEq ε] {x : Except ε α} {e : ε} (h : failsWith x e = true) :
    x = .error e := by
  cases x with
  | ok a => cases h
  | error e' => rw [of_decide_eq_true h]

theorem eq_ok_of_toOption {x : Except ε α} {a : α} (h : x.toOption = some a) : x = .ok a := by
  cases x with
  | ok b => rw [Option.some.inj h]
  | error e => cases h

theorem exists_of_toBool {x : Except ε α} (h : x.toBool = true) : ∃ a, x = .ok a := by
  cases x with
  | ok a => exact ⟨a, rfl⟩
  | error e => cases h

end Outcome
