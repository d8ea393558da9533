import Stellara.Lib.Machine

/-!
# Programs that write before they fail

A program of `Writing ε σ` keeps what it has written when it fails.  A host that rolls failed
calls back keeps it only of a program that succeeds:

    p.run s      : Except ε α × σ       what has been written when the program returns
    rollback p s : Except ε (α × σ)     what the host makes of it

Rolling back can be done step by step (`rollback_bind`), so such a program can be compared with
one that carries no state in its faults.
-/

open Outcome

variable {ε σ α β : Type}

abbrev Writing (ε σ α : Type) : Type := ExceptT ε (StateM σ) α

namespace Writing

/-- The result and the store when the program returns. -/
def written (p : Writing ε σ α) (s : σ) : Except ε α × σ := (ExceptT.run p).run s

/-- A part that neither reads nor writes the store. -/
def lift (x : Except ε α) : Writing ε σ α := ExceptT.mk (pure x)

/-- The program as a transaction: a failure leaves no writes. -/
def rollback (p : Writing ε σ α) (s : σ) : Except ε (α × σ) :=
  match p.written s with
  | (.ok a, s') => .ok (a, s')
  | (.error e, _) => .error e

section Rules

variable {p : Writing ε σ α} {f : α → Writing ε σ β} {s s' : σ}

theorem written_bind_ok {a : α} (h : p.written s = (.ok a, s')) :
    (p >>= f).written s = (f a).written s' := by
  have hbind : (p >>= f).written s = ExceptT.bindCont f (p.written s).1 (p.written s).2 := rfl
  rw [hbind, h]
  rfl

/-- What follows a failure is not run. -/
theorem written_bind_error {e : ε} (h : p.written s = (.error e, s')) :
    (p >>= f).written s = (.error e, s') := by
  have hbind : (p >>= f).written s = ExceptT.bindCont f (p.written s).1 (p.written s).2 := rfl
  rw [hbind, h]
  rfl

theorem written_get : (get : Writing ε σ σ).written s = (.ok s, s) := rfl

theorem written_lift {x : Except ε α} {a : α} (h : x = .ok a) : (lift x).written s = (.ok a, s) := by
  rw [h]
  rfl

@[simp] theorem rollback_pure (a : α) : rollback (pure a : Writing ε σ α) s = .ok (a, s) := rfl

@[simp] theorem rollback_throw (e : ε) : rollback (throw e : Writing ε σ α) s = .error e := rfl

@[simp] theorem rollback_get : rollback (get : Writing ε σ σ) s = .ok (s, s) := rfl

@[simp] theorem rollback_modify (g : σ → σ) :
    rollback (modify g : Writing ε σ PUnit) s = .ok (⟨⟩, g s) := rfl

@[simp] theorem rollback_lift (x : Except ε α) :
    rollback (lift x) s = x >>= fun a => .ok (a, s) := by
  cases x with
  | error e => rfl
  | ok a => rfl

/-- **Step by step**: what went before a failure is dropped with it. -/
@[simp] theorem rollback_bind :
    rollback (p >>= f) s = rollback p s >>= fun x => rollback (f x.1) x.2 := by
  unfold rollback
  rcases hp : p.written s with ⟨e | a, s'⟩
  · rw [written_bind_error hp]
    rfl
  · rw [written_bind_ok hp]
    rfl

end Rules

end Writing

namespace Machine

variable {Env Call Ret Fault σ : Type} {m : Machine Env Call Ret Fault σ} {env : Env} {call : Call}
  {s : σ}

/-- The state that the outside world finds after a call, committed or failed. -/
def settled (m : Machine Env Call Ret Fault σ) (env : Env) (call : Call) (s : σ) : σ :=
  match m.exec env call s with
  | .ok (_, s') => s'
  | .error _ => s

theorem settled_of_error {f : Fault} (h : m.exec env call s = .error f) :
    m.settled env call s = s := by
  unfold settled
  rw [h]

end Machine
