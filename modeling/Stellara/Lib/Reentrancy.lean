import Stellara.Lib.Machine
import Mathlib.Logic.Relation

/-!
# Contracts that call outside accounts

The code of a contract changes its storage and calls accounts it knows nothing of.  While such a call
is open, the account can send messages to the contract, and they are handled on the storage as the
open call has left it.  A message that fails leaves no trace, and neither does a call that fails.

    meaning handle (.send m inner rest)     m is handled, with `inner` for the calls made then,
                                            and what comes after is `rest`

* `message_related`: if every stretch of code between two calls is a step of `R`, then so is every
  message, whatever the accounts do that it calls.
* `updates_of_run`: a run of transactions is then a sequence of the updates that `R` consists of.
-/

namespace Reentrancy

/-- What code does to the storage `σ`: it ends, or reverts, or calls the account `a` and goes on from
the storage that the call leaves, told whether it has succeeded. -/
inductive Code (Account Fault σ : Type) : Type
  | stop (s : σ)
  | revert (fault : Fault)
  | call (a : Account) (s : σ) (k : Bool → σ → Code Account Fault σ)

/-- What outside accounts do while a message is handled: the account that is called now first sends
messages; then it answers, and `rest` is for the next call. -/
inductive Script (Msg : Type) : Type
  | done
  | answer (success : Bool) (rest : Script Msg)
  | send (m : Msg) (inner rest : Script Msg)

variable {Account Fault Msg σ : Type}

namespace Code

/-- `rs` is what the called accounts do to the storage, `none` when they fail; so do all further
calls. -/
def run : Code Account Fault σ → List (σ → Option σ) → Except Fault σ
  | stop s, _ => .ok s
  | revert fault, _ => .error fault
  | call _ s k, [] => (k false s).run []
  | call _ s k, r :: rs => (r s).elim ((k false s).run rs) fun s' => (k true s').run rs

/-- What a function of the contract does that calls no account. -/
def ofExcept : Except Fault σ → Code Account Fault σ
  | .ok s => stop s
  | .error fault => revert fault

/-- A call of other code of the contract itself; when that reverts, so does the caller. -/
def andThen (fault : Fault) : Code Account Fault σ → (σ → Code Account Fault σ) → Code Account Fault σ
  | stop s, f => f s
  | revert _, _ => revert fault
  | call a s k, f => call a s fun success s' => (k success s').andThen fault f

/-- Every stretch of the code is a step of `R`, the first one from `s₀`. -/
def Steps (R : σ → σ → Prop) : σ → Code Account Fault σ → Prop
  | s₀, stop s => R s₀ s
  | _, revert _ => True
  | s₀, call _ s k => R s₀ s ∧ (∀ s', R s s' → Steps R s' (k true s')) ∧ Steps R s (k false s)

end Code

section Meaning

variable (handle : Msg → σ → Code Account Fault σ)

/-- What the called accounts do to the storage, call by call. -/
def meaning : Script Msg → List (σ → Option σ)
  | .done => []
  | .answer success rest => (fun s => if success then some s else none) :: meaning rest
  | .send m inner rest =>
    (meaning rest).modifyHead fun r s => r (((handle m s).run (meaning inner)).toOption.getD s)

/-- The storage after a message, unless it reverts. -/
def message (m : Msg) (script : Script Msg) (s : σ) : Except Fault σ :=
  (handle m s).run (meaning handle script)

end Meaning

/-! ## Rely and guarantee -/

section Related

variable {R : σ → σ → Prop} {c : Code Account Fault σ} {s₀ s s' : σ}

theorem Code.Steps.of_related (htrans : ∀ {a b c}, R a b → R b c → R a c) (h : R s₀ s)
    (hc : c.Steps R s) : c.Steps R s₀ := by
  cases c with
  | stop s' => exact htrans h hc
  | revert fault => trivial
  | call a s' k => exact ⟨htrans h hc.1, hc.2⟩

theorem Code.steps_ofExcept {x : Except Fault σ} (h : ∀ s, x = .ok s → R s₀ s) :
    (ofExcept x : Code Account Fault σ).Steps R s₀ := by
  cases x with
  | ok s => exact h s rfl
  | error fault => trivial

/-- **The rule of internal calls.** -/
theorem Code.Steps.andThen {fault : Fault} {f : σ → Code Account Fault σ}
    (htrans : ∀ {a b c}, R a b → R b c → R a c) (hc : c.Steps R s₀) (hf : ∀ s, (f s).Steps R s) :
    (c.andThen fault f).Steps R s₀ := by
  induction c generalizing s₀ with
  | stop s => exact (hf s).of_related htrans hc
  | revert e => trivial
  | call a s k ih =>
    obtain ⟨hs, htrue, hfalse⟩ := hc
    exact ⟨hs, fun s' h => ih true s' (htrue s' h), ih false s hfalse⟩

variable (hrefl : ∀ a, R a a) (htrans : ∀ {a b c}, R a b → R b c → R a c)
include htrans

theorem run_related {rs : List (σ → Option σ)} (hc : c.Steps R s₀)
    (hrs : ∀ r ∈ rs, ∀ s s', r s = some s' → R s s') (h : c.run rs = .ok s') : R s₀ s' := by
  induction c generalizing s₀ rs with
  | stop s =>
    cases h
    exact hc
  | revert fault => cases h
  | call a s k ih =>
    obtain ⟨hs, htrue, hfalse⟩ := hc
    cases rs with
    | nil => exact htrans hs (ih false s hfalse hrs h)
    | cons r rs =>
      rw [List.forall_mem_cons] at hrs
      unfold Code.run at h
      cases hr : r s with
      | none =>
        rw [hr] at h
        exact htrans hs (ih false s hfalse hrs.2 h)
      | some t =>
        rw [hr] at h
        have hst := hrs.1 s t hr
        exact htrans hs (htrans hst (ih true t (htrue t hst) hrs.2 h))

variable {handle : Msg → σ → Code Account Fault σ} (hh : ∀ m s, (handle m s).Steps R s)
include hrefl hh

/-- What an outside account does is a step of `R`: its messages are. -/
theorem meaning_related (script : Script Msg) :
    ∀ r ∈ meaning handle script, ∀ s s', r s = some s' → R s s' := by
  induction script with
  | done => exact List.forall_mem_nil _
  | answer success rest ih =>
    refine List.forall_mem_cons.mpr ⟨fun s s' h => ?_, ih⟩
    cases success with
    | false => cases h
    | true =>
      cases h
      exact hrefl s
  | send m inner rest ihInner ihRest =>
    unfold meaning
    cases hm : meaning handle rest with
    | nil => exact List.forall_mem_nil _
    | cons r rs =>
      rw [hm, List.forall_mem_cons] at ihRest
      refine List.forall_mem_cons.mpr ⟨fun s s' h => ?_, ihRest.2⟩
      cases hx : (handle m s).run (meaning handle inner) with
      | error fault =>
        simp only [hx, Except.toOption, Option.getD_none] at h
        exact ihRest.1 s s' h
      | ok t =>
        simp only [hx, Except.toOption, Option.getD_some] at h
        exact htrans (run_related htrans (hh m s) ihInner hx) (ihRest.1 t s' h)

/-- **The rule of messages.**  Whatever outside accounts do in the meantime. -/
theorem message_related {m : Msg} {script : Script Msg} (h : message handle m script s = .ok s') :
    R s s' :=
  run_related htrans (hh m s) (meaning_related hrefl htrans hh script) h

end Related

/-! ## Transactions -/

variable {Env : Type}

/-- Outside accounts send messages one after the other, each with what accounts do meanwhile. -/
def transactions (init : σ → Prop) (clock : Env → Nat)
    (handle : Env → Msg → σ → Code Account Fault σ) :
    Machine Env (Msg × Script Msg) Unit Fault σ where
  init := init
  valid := fun _ _ => True
  clock := clock
  exec := fun env call s => (message (handle env) call.1 call.2 s).map fun s' => ((), s')

variable {init : σ → Prop} {clock : Env → Nat} {handle : Env → Msg → σ → Code Account Fault σ}

theorem exec_eq_ok {env : Env} {call : Msg × Script Msg} {s s' : σ} {u : Unit} :
    (transactions init clock handle).exec env call s = .ok (u, s') ↔
      message (handle env) call.1 call.2 s = .ok s' := by
  show Except.map _ (message (handle env) call.1 call.2 s) = _ ↔ _
  cases message (handle env) call.1 call.2 s with
  | error fault => exact ⟨nofun, nofun⟩
  | ok t => simp [Except.map]

/-- **Runs are sequences of updates**: of those that can be made in the circumstances `P`, when all
transactions of the run are made in them. -/
theorem updates_of_run {Update : Env → σ → σ → Prop} {P : Env → Prop}
    {tr : List (Event Env (Msg × Script Msg) Unit σ)} {s s' : σ}
    (hh : ∀ env m s, (handle env m s).Steps (Relation.ReflTransGen (Update env)) s)
    (h : Run (transactions (fun t => t = s) clock handle) tr s') (hP : ∀ e ∈ tr, P e.env) :
    Relation.ReflTransGen (fun a b => ∃ env, P env ∧ Update env a b) s s' := by
  induction h with
  | start h =>
    cases h
    exact .refl
  | @commit tr a b env call r _ _ _ hx ih =>
    rw [List.forall_mem_cons] at hP
    have hlast := message_related (fun _ => .refl) (fun h h' => h.trans h') (hh env)
      (exec_eq_ok.mp hx)
    exact (ih hP.2).trans (hlast.lift id fun _ _ hu => ⟨env, hP.1, hu⟩)

/-- A run goes on from where it started. -/
theorem run_from {tr : List (Event Env (Msg × Script Msg) Unit σ)} {s : σ}
    (h : Run (transactions init clock handle) tr s) :
    ∃ s₀, init s₀ ∧ Run (transactions (fun t => t = s₀) clock handle) tr s := by
  induction h with
  | start h => exact ⟨_, h, .start rfl⟩
  | commit _ hv hc hx ih =>
    obtain ⟨s₀, h0, hr⟩ := ih
    exact ⟨s₀, h0, .commit hr hv hc hx⟩

end Reentrancy
