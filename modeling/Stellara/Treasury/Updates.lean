import Stellara.Treasury.Model

/-!
# What a message does to the treasury

All that code of the treasury does, however calls nest, is a sequence of a few kinds of updates
(`handle_steps`).  An execution is one of them: it marks the transaction, books its value in both
windows and pays it out before the account `to` is called.  What only a self-call can do comes in one
update with the execution of the transaction that does it, so that no outside account can come in
between (`Update.operate`).
-/

namespace Stellara.MultisigTreasury

open Outcome Relation

variable {this : Address} {timestamp txIndex : Nat} {s s' : Treasury} {txn : Transaction}

/-- The selector of the function, and its call. -/
def Operation.selector : Operation → Nat
  | updateLimits .. => updateLimitsSelector
  | emergencyFreeze => emergencyFreezeSelector
  | unfreezeInternal => unfreezeInternalSelector

def Operation.call : Operation → Call
  | updateLimits dailyLimit weeklyLimit threshold => .updateLimits dailyLimit weeklyLimit threshold
  | emergencyFreeze => .emergencyFreeze
  | unfreezeInternal => .unfreezeInternal

/-! ## The beginning of an execution -/

/-- The storage that an execution of `txn` leaves before its call. -/
def booked (timestamp txIndex : Nat) (s : Treasury) (txn : Transaction) : Treasury :=
  { s with
    transactions := s.transactions.set txIndex { txn with executed := true }
    dayWindowStart := timestamp / day
    daySpent := spentNow day timestamp s.dayWindowStart s.daySpent + txn.value
    weekWindowStart := timestamp / week
    weekSpent := spentNow week timestamp s.weekWindowStart s.weekSpent + txn.value }

/-- When an execution comes as far as its call. -/
structure Begins (this : Address) (timestamp txIndex : Nat) (s : Treasury) (txn : Transaction) :
    Prop where
  found : s.transactions[txIndex]? = some txn
  pending : txn.executed = false
  live : s.frozen = false ∨ isSelfCall this txn unfreezeInternalSelector = true
  sensitive : isSensitive this txn = true → s.required ≤ txn.numConfirmations
  large : s.threshold < txn.value → s.required ≤ txn.numConfirmations
  confirmed : s.required ≤ txn.numConfirmations ∨ 1 ≤ txn.numConfirmations
  daily : 0 < s.dailyLimit →
    spentNow day timestamp s.dayWindowStart s.daySpent + txn.value ≤ s.dailyLimit
  weekly : 0 < s.weeklyLimit →
    spentNow week timestamp s.weekWindowStart s.weekSpent + txn.value ≤ s.weeklyLimit

theorem checkedAdd_eq_ok {a b c : Nat} : checkedAdd a b = .ok c ↔ a + b < 2 ^ 256 ∧ c = a + b := by
  unfold checkedAdd
  split <;> simp_all [eq_comm]

theorem checkedSub_eq_ok {a b c : Nat} : checkedSub a b = .ok c ↔ b ≤ a ∧ c = a - b := by
  unfold checkedSub
  split <;> simp_all [eq_comm]

theorem checkLimit_eq_ok {limit spent value : Nat} {reason : String} {u : Unit}
    (h : checkLimit limit spent value reason = .ok u) : 0 < limit → spent + value ≤ limit := by
  intro hlimit
  simp only [checkLimit, if_pos hlimit, bind_eq_ok, checkedAdd_eq_ok, require_eq_ok] at h
  obtain ⟨total, ⟨-, rfl⟩, hle⟩ := h
  exact hle

theorem checkConfirmations_eq_ok {u : Unit} (h : checkConfirmations this s txn = .ok u) :
    (s.frozen = false ∨ isSelfCall this txn unfreezeInternalSelector = true) ∧
      (isSensitive this txn = true → s.required ≤ txn.numConfirmations) ∧
      (s.threshold < txn.value → s.required ≤ txn.numConfirmations) ∧
      (s.required ≤ txn.numConfirmations ∨ 1 ≤ txn.numConfirmations) := by
  simp only [checkConfirmations, bind_eq_ok, require_eq_ok, exists_unit_and] at h
  obtain ⟨hlive, h⟩ := h
  refine ⟨hlive, ?_⟩
  split at h
  · rw [require_eq_ok] at h
    exact ⟨fun _ => h, fun _ => h, .inl h⟩
  · next hs =>
    split at h
    · rw [require_eq_ok] at h
      exact ⟨fun _ => h, fun _ => h, .inl h⟩
    · next hv =>
      rw [require_eq_ok] at h
      exact ⟨fun h' => absurd h' hs, fun h' => absurd h' hv, .inr h⟩

theorem beginExecution_eq_ok (h : beginExecution this timestamp txIndex s = .ok (txn, s')) :
    Begins this timestamp txIndex s txn ∧ s' = booked timestamp txIndex s txn := by
  simp only [beginExecution, bind_eq_ok, ofOption_eq_ok, require_eq_ok, exists_unit_and,
    checkedAdd_eq_ok, pure_eq_ok, Prod.mk.injEq] at h
  obtain ⟨t, found, pending, hc, hday, hweek, _, ⟨-, rfl⟩, _, ⟨-, rfl⟩, rfl, rfl⟩ := h
  obtain ⟨live, sensitive, large, confirmed⟩ := checkConfirmations_eq_ok hc
  exact ⟨⟨found, pending, live, sensitive, large, confirmed, checkLimit_eq_ok hday,
    checkLimit_eq_ok hweek⟩, rfl⟩

/-! ## Votes -/

/-- `confirmed` is what a confirmation sets, and a revocation takes back. -/
structure Votes (sender : Address) (txIndex : Nat) (s : Treasury) (txn : Transaction)
    (confirmed : Bool) : Prop where
  owner : s.isOwner sender = true
  live : s.frozen = false
  found : s.transactions[txIndex]? = some txn
  pending : txn.executed = false
  before : s.isConfirmed txIndex sender = !confirmed

/-- The number of confirmations after a vote. -/
def counted (confirmed : Bool) (n : Nat) : Nat := if confirmed then n + 1 else n - 1

/-- The storage after a vote. -/
def voted (sender : Address) (txIndex : Nat) (s : Treasury) (txn : Transaction) (confirmed : Bool)
    (e : TreasuryEvent) : Treasury :=
  { s with
    isConfirmed := setConfirmed s txIndex sender confirmed
    transactions := s.transactions.set txIndex
      { txn with numConfirmations := counted confirmed txn.numConfirmations } }.emit e

theorem confirmTransaction_eq_ok {sender : Address} (h : confirmTransaction sender txIndex s = .ok s') :
    ∃ txn, Votes sender txIndex s txn true ∧
      s' = voted sender txIndex s txn true (.confirmTransaction sender txIndex) := by
  simp only [confirmTransaction, onlyOwner, notFrozen, bind_eq_ok, require_eq_ok, ofOption_eq_ok,
    exists_unit_and, checkedAdd_eq_ok, pure_eq_ok] at h
  obtain ⟨owner, live, txn, found, pending, before, _, ⟨-, rfl⟩, rfl⟩ := h
  exact ⟨txn, ⟨owner, live, found, pending, before⟩, rfl⟩

theorem revokeConfirmation_eq_ok {sender : Address} (h : revokeConfirmation sender txIndex s = .ok s') :
    ∃ txn, Votes sender txIndex s txn false ∧
      s' = voted sender txIndex s txn false (.revokeConfirmation sender txIndex) := by
  simp only [revokeConfirmation, onlyOwner, notFrozen, bind_eq_ok, require_eq_ok, ofOption_eq_ok,
    exists_unit_and, checkedSub_eq_ok, pure_eq_ok] at h
  obtain ⟨owner, live, txn, found, pending, before, _, ⟨-, rfl⟩, rfl⟩ := h
  exact ⟨txn, ⟨owner, live, found, pending, before⟩, rfl⟩

/-! ## Updates -/

/-- What an event says that another account has deposited. -/
def depositOf (this : Address) : TreasuryEvent → Nat
  | .deposit sender amount _ => if sender = this then 0 else amount
  | _ => 0

/-- The storage after a submission. -/
def submitted (s : Treasury) (txn : Transaction) : Treasury :=
  { s with transactions := s.transactions ++ [txn] }

/-- The balance after the call of an execution has begun. -/
def paid (this : Address) (s : Treasury) (txn : Transaction) : Treasury :=
  if txn.dest = this then s else { s with balance := s.balance - txn.value }

/-- What code of the treasury does between two calls, in a block with the given timestamp. -/
inductive Update (this : Address) (timestamp : Nat) : Treasury → Treasury → Prop
  | deposit {s : Treasury} {sender : Address} {value : Nat} (hs : sender ≠ this) :
    Update this timestamp s ({ s with balance := s.balance + value }.emit
      (.deposit sender value (s.balance + value)))
  | emit {s : Treasury} {e : TreasuryEvent} (he : depositOf this e = 0) :
    Update this timestamp s (s.emit e)
  | submit {s : Treasury} {txn : Transaction} (hnew : txn.executed = false)
    (hzero : txn.numConfirmations = 0) : Update this timestamp s (submitted s txn)
  | vote {s : Treasury} {sender : Address} {txIndex : Nat} {txn : Transaction} {confirmed : Bool}
    {e : TreasuryEvent} (h : Votes sender txIndex s txn confirmed) (he : depositOf this e = 0) :
    Update this timestamp s (voted sender txIndex s txn confirmed e)
  | execute {s : Treasury} {txIndex : Nat} {txn : Transaction}
    (h : Begins this timestamp txIndex s txn) (hb : txn.value ≤ s.balance) :
    Update this timestamp s (paid this (booked timestamp txIndex s txn) txn)
  | operate {s : Treasury} {txIndex : Nat} {txn : Transaction} (op : Operation)
    (h : Begins this timestamp txIndex s txn) (hself : isSelfCall this txn op.selector = true) :
    Update this timestamp s (op.apply this (booked timestamp txIndex s txn))

/-- A sequence of updates in one block. -/
abbrev Updates (this : Address) (timestamp : Nat) : Treasury → Treasury → Prop :=
  ReflTransGen (Update this timestamp)

/-! ## The code in updates -/

theorem functions_operation : ∀ f ∈ functions, ∀ args (op : Operation), f.2 args = .ok op.call →
    f.1 = op.selector := by
  unfold functions
  rw [List.forall_mem_append]
  constructor
  · simp only [List.forall_mem_cons, List.not_mem_nil, false_implies, implies_true, and_true,
      bind_eq_ok, pure_eq_ok]
    refine ⟨?_, ?_, ?_, ?_, ?_, ?_, ?_, ?_, ?_, ?_, ?_, ?_⟩ <;> intro args op h <;> cases op <;>
      simp_all [Operation.call, Operation.selector]
  · intro f hf args op h
    obtain ⟨selector, -, rfl⟩ := List.mem_map.mp hf
    cases op <;> cases h

theorem decode_operation {data : Bytes} {op : Operation} (h : decode data = .ok op.call) :
    4 ≤ data.length ∧ bytes4 data = op.selector := by
  simp only [decode, bind_eq_ok, require_eq_ok, ofOption_eq_ok, exists_unit_and] at h
  obtain ⟨hlen, f, hf, h⟩ := h
  obtain ⟨front, back, hsplit, -⟩ := List.lookup_eq_some_iff.mp hf
  refine ⟨hlen, functions_operation (bytes4 data, f) ?_ _ op h⟩
  rw [hsplit]
  exact List.mem_append_right _ List.mem_cons_self

/-- `self`, when it is given the call of an operation. -/
def Operates (this : Address) (self : Nat → Bytes → Treasury → Code) : Prop :=
  ∀ value data s op, decode data = .ok (Operation.call op) →
    (∃ e, self value data s = .revert e) ∨ self value data s = .stop (op.apply this s)

/-- `self`, when it is given anything else. -/
def Proceeds (this : Address) (timestamp : Nat) (self : Nat → Bytes → Treasury → Code) : Prop :=
  ∀ value data s, (∀ op, decode data ≠ .ok (Operation.call op)) →
    (self value data s).Steps (Updates this timestamp) s

theorem steps_executeTransaction {self : Nat → Bytes → Treasury → Code} {sender : Address}
    (hop : Operates this self) (hself : Proceeds this timestamp self) :
    (executeTransaction this timestamp self sender txIndex s).Steps (Updates this timestamp) s := by
  unfold executeTransaction
  split
  · trivial
  · next txn t hbegin =>
    obtain ⟨hb, rfl⟩ := beginExecution_eq_ok hbegin
    split
    · trivial
    next hbalance =>
    have hx : Update this timestamp s (paid this (booked timestamp txIndex s txn) txn) :=
      .execute hb (Nat.le_of_not_lt hbalance)
    have hend : ∀ t, ((.stop (t.emit (.executeTransaction sender txIndex)) : Code)).Steps
        (Updates this timestamp) t := fun t => .single (.emit rfl)
    split
    · next hdest =>
      rw [paid, if_pos hdest] at hx
      by_cases hdata : ∃ op, decode txn.data = .ok (Operation.call op)
      · -- the operation is one update with the execution
        obtain ⟨op, hdecode⟩ := hdata
        obtain ⟨hlen, hselector⟩ := decode_operation hdecode
        have hcall : isSelfCall this txn op.selector = true := by
          simp [isSelfCall, hdest, hlen, hselector]
        rcases hop txn.value txn.data (booked timestamp txIndex s txn) op hdecode with ⟨e, he⟩ | he
        · rw [he]
          trivial
        · rw [he]
          exact (hend _).of_related (fun h h' => h.trans h') (.single (.operate op hb hcall))
      · refine Reentrancy.Code.Steps.andThen (fun h h' => h.trans h') ?_ hend
        exact (hself _ _ _ fun op h => hdata ⟨op, h⟩).of_related (fun h h' => h.trans h')
          (.single hx)
    · next hdest =>
      rw [paid, if_neg hdest] at hx
      exact ⟨.single hx, fun t _ => hend t, trivial⟩

theorem steps_perform {self : Nat → Bytes → Treasury → Code} {sender : Address} {value : Nat}
    {data : Bytes} (hop : Operates this self) (hself : Proceeds this timestamp self)
    (hdata : sender = this → ∀ op, decode data ≠ .ok (Operation.call op)) :
    (perform this timestamp self sender value data s).Steps (Updates this timestamp) s := by
  have honly : ∀ op : Operation, decode data = .ok op.call → (Reentrancy.Code.ofExcept
      (onlySelf this sender s op) : Code).Steps (Updates this timestamp) s := by
    intro op hdecode
    refine Reentrancy.Code.steps_ofExcept fun t ht => ?_
    simp only [onlySelf, bind_eq_ok, require_eq_ok] at ht
    obtain ⟨-, hsender, -⟩ := ht
    exact absurd hdecode (hdata hsender op)
  unfold perform
  split
  · unfold credit
    split
    · next hsender =>
      subst hsender
      exact .single (.emit (if_pos rfl))
    · next hsender => exact .single (.deposit hsender)
  · split
    · split
      · next call hcall =>
        cases call with
        | submitTransaction dest v d =>
          refine Reentrancy.Code.steps_ofExcept fun t ht => ?_
          simp only [submitTransaction, bind_eq_ok, pure_eq_ok] at ht
          obtain ⟨-, -, rfl⟩ := ht
          exact .tail (.single (.submit rfl rfl)) (.emit rfl)
        | confirmTransaction i =>
          refine Reentrancy.Code.steps_ofExcept fun t ht => ?_
          obtain ⟨txn, hv, rfl⟩ := confirmTransaction_eq_ok ht
          exact .single (.vote hv rfl)
        | revokeConfirmation i =>
          refine Reentrancy.Code.steps_ofExcept fun t ht => ?_
          obtain ⟨txn, hv, rfl⟩ := revokeConfirmation_eq_ok ht
          exact .single (.vote hv rfl)
        | executeTransaction i => exact steps_executeTransaction hop hself
        | updateLimits d w t => exact honly (.updateLimits d w t) hcall
        | emergencyFreeze => exact honly .emergencyFreeze hcall
        | unfreezeInternal => exact honly .unfreezeInternal hcall
        | owner i =>
          simp only [runFunction]
          split
          · exact ReflTransGen.refl
          · trivial
        | transaction i =>
          simp only [runFunction]
          split
          · exact ReflTransGen.refl
          · trivial
        | view => exact ReflTransGen.refl
      · trivial
    · trivial

/-- A call of an operation by the treasury itself. -/
theorem perform_operation {self : Nat → Bytes → Treasury → Code} {value : Nat} {data : Bytes}
    {op : Operation} (h : decode data = .ok op.call) :
    (∃ e, perform this timestamp self this value data s = .revert e) ∨
      perform this timestamp self this value data s = .stop (op.apply this s) := by
  unfold perform
  split
  · next hnil =>
    have hlen := (decode_operation h).1
    rw [hnil] at hlen
    cases hlen
  · split
    · right
      simp only [h]
      cases op <;> simp [runFunction, Operation.call, onlySelf, require, Reentrancy.Code.ofExcept]
    · exact .inl ⟨_, rfl⟩

theorem operates_handle (depth : Nat) : Operates this (handle this timestamp depth this) := by
  intro value data s op h
  cases depth with
  | zero => exact .inl ⟨_, rfl⟩
  | succ depth => exact perform_operation h

/-- **The code does updates**, in each of its stretches. -/
theorem handle_steps (depth : Nat) {sender : Address} {value : Nat} {data : Bytes}
    (hdata : sender = this → ∀ op, decode data ≠ .ok (Operation.call op)) :
    (handle this timestamp depth sender value data s).Steps (Updates this timestamp) s := by
  induction depth generalizing sender value data s with
  | zero => trivial
  | succ depth ih =>
    exact steps_perform (operates_handle depth) (fun value data s h => ih fun _ => h) hdata

/-- **Runs are sequences of updates**, in blocks with timestamps in `P`. -/
theorem updates_of_run {depth : Nat} {P : Nat → Prop}
    {tr : Trace this} (h : Run (treasury this depth (· = s)) tr s') (hP : ∀ e ∈ tr, P e.env) :
    ReflTransGen (fun a b => ∃ timestamp, P timestamp ∧ Update this timestamp a b) s s' :=
  Reentrancy.updates_of_run
    (fun _ m _ => handle_steps depth fun hsender => absurd hsender m.outside) h hP

end Stellara.MultisigTreasury
