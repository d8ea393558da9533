import Stellara.Treasury.Confirmations

/-!
# Protected functions

The limits, the threshold and the freeze change only in `updateLimits`, `emergencyFreeze` and
`unfreezeInternal`, and these run only in the execution of a transaction of their own that `required`
owners have confirmed: no outside account can run them or have them run in any other way, whatever it
does from within a call (`privileged_changes`).  A frozen treasury stays as it is until
`unfreezeInternal` is so executed: nothing is paid, no confirmation is counted
(`frozen_until_unfrozen`).  When that has not been prepared before the freeze, the treasury is lost
(`locked_for_good`).
-/

namespace Stellara.MultisigTreasury

open Outcome Relation

variable {this : Address} {timestamp txIndex initial : Nat} {a b c : Treasury} {txn : Transaction}

/-- A transaction that calls the function with the selector has been executed between `a` and `b`,
and as many owners as are required have confirmed it. -/
def Performed (this : Address) (selector : Nat) (a b : Treasury) : Prop :=
  ∃ i txn, b.transactions[i]? = some txn ∧ isSelfCall this txn selector = true ∧
    txn.executed = true ∧ b.required ≤ (voters b i).length ∧
    ∀ before, a.transactions[i]? = some before → before.executed = false

theorem Performed.of_extends {selector : Nat} (h : Performed this selector a b) (hb : Extends b c) :
    Performed this selector a c := by
  obtain ⟨i, txn, ht, hself, he, hvoters, hbefore⟩ := h
  obtain ⟨txn', ht', -, -, -, hx⟩ := hb.kept i txn ht
  obtain ⟨rfl, hconfirmed⟩ := hx he
  refine ⟨i, txn', ht', hself, he, ?_, hbefore⟩
  rw [voters_congr hb.owners hconfirmed, hb.required]
  exact hvoters

theorem Performed.of_extended {selector : Nat} (ha : Extends a b) (h : Performed this selector b c) :
    Performed this selector a c := by
  obtain ⟨i, txn, ht, hself, he, hvoters, hbefore⟩ := h
  refine ⟨i, txn, ht, hself, he, hvoters, fun before hx => ?_⟩
  obtain ⟨later, hlater, -, -, -, hsame⟩ := ha.kept i before hx
  cases hexecuted : before.executed with
  | false => rfl
  | true =>
    obtain ⟨rfl, -⟩ := hsame hexecuted
    have := hbefore later hlater
    rw [hexecuted] at this
    exact this

/-- What an execution of a call of a protected function performs. -/
theorem Begins.performed {selector : Nat} (h : Begins this timestamp txIndex a txn)
    (hc : Consistent this initial a) (hself : isSelfCall this txn selector = true)
    (hsensitive : isSensitive this txn = true) :
    Performed this selector a (booked timestamp txIndex a txn) := by
  refine ⟨txIndex, { txn with executed := true }, ?_, hself, rfl, ?_, ?_⟩
  · exact List.getElem?_set_self (List.getElem?_eq_some_iff.mp h.found).1
  · refine Nat.le_trans (h.sensitive hsensitive) (Nat.le_of_eq ?_)
    exact hc.counted txIndex txn h.found
  · intro before hbefore
    cases h.found.symm.trans hbefore
    exact h.pending

theorem isSensitive_operation (op : Operation) (h : isSelfCall this txn op.selector = true) :
    isSensitive this txn = true := by
  cases op <;> simp only [Operation.selector] at h <;> simp [isSensitive, h]

/-! ## Changes -/

/-- The limits and the threshold. -/
def Treasury.limits (s : Treasury) : Nat × Nat × Nat := (s.dailyLimit, s.weeklyLimit, s.threshold)

/-- What can have happened between `a` and `b`. -/
structure Changes (this : Address) (a b : Treasury) : Prop where
  extending : Extends a b
  limits : b.limits = a.limits ∨ Performed this updateLimitsSelector a b
  freeze : a.frozen = false → b.frozen = true → Performed this emergencyFreezeSelector a b
  unfreeze : a.frozen = true → b.frozen = false → Performed this unfreezeInternalSelector a b

theorem Changes.refl (a : Treasury) : Changes this a a :=
  ⟨.refl a, .inl rfl, fun h h' => by simp [h] at h', fun h h' => by simp [h] at h'⟩

theorem Changes.trans (h : Changes this a b) (h' : Changes this b c) : Changes this a c := by
  refine ⟨h.extending.trans h'.extending, ?_, fun ha hc => ?_, fun ha hc => ?_⟩
  · rcases h.limits with hab | hab
    · rcases h'.limits with hbc | hbc
      · exact .inl (hbc.trans hab)
      · exact .inr (hbc.of_extended h.extending)
    · exact .inr (hab.of_extends h'.extending)
  · cases hb : b.frozen with
    | true => exact (h.freeze ha hb).of_extends h'.extending
    | false => exact (h'.freeze hb hc).of_extended h.extending
  · cases hb : b.frozen with
    | true => exact (h'.unfreeze hb hc).of_extended h.extending
    | false => exact (h.unfreeze ha hb).of_extends h'.extending

/-- The freeze has not changed. -/
theorem Changes.of_eq (he : Extends a b)
    (hl : b.limits = a.limits ∨ Performed this updateLimitsSelector a b) (hf : b.frozen = a.frozen) :
    Changes this a b :=
  ⟨he, hl, fun h h' => by simp [hf, h] at h', fun h h' => by simp [hf, h] at h'⟩

theorem limits_paid : (paid this a txn).limits = a.limits := by
  unfold paid
  split <;> rfl

theorem frozen_paid : (paid this a txn).frozen = a.frozen := by
  unfold paid
  split <;> rfl

theorem Update.changes (h : Update this timestamp a b) (hc : Consistent this initial a) :
    Changes this a b := by
  have hextends := h.extends
  cases h with
  | deposit hs => exact .of_eq hextends (.inl rfl) rfl
  | emit he => exact .of_eq hextends (.inl rfl) rfl
  | submit hnew hzero => exact .of_eq hextends (.inl rfl) rfl
  | vote h he => exact .of_eq hextends (.inl rfl) rfl
  | execute h hb => exact .of_eq hextends (.inl limits_paid) frozen_paid
  | operate op h hself =>
    have hperformed := (h.performed hc hself (isSensitive_operation op hself)).of_extends
      (extends_apply op : Extends _ (op.apply this _))
    cases op with
    | updateLimits d w t => exact .of_eq hextends (.inr hperformed) rfl
    | emergencyFreeze =>
      exact ⟨hextends, .inl rfl, fun _ _ => hperformed, fun _ h' => Bool.noConfusion h'⟩
    | unfreezeInternal =>
      exact ⟨hextends, .inl rfl, fun _ h' => Bool.noConfusion h', fun _ _ => hperformed⟩

/-! ## A frozen treasury -/

/-- What a frozen treasury keeps. -/
structure Still (a b : Treasury) : Prop where
  frozen : b.frozen = true
  balance : a.balance ≤ b.balance
  limits : b.limits = a.limits
  isConfirmed : b.isConfirmed = a.isConfirmed
  executed : ∀ (i : Nat) txn, b.transactions[i]? = some txn → txn.executed = true →
    a.transactions[i]? = some txn

theorem Still.refl (h : a.frozen = true) : Still a a :=
  ⟨h, Nat.le_refl _, rfl, rfl, fun _ _ ht _ => ht⟩

theorem Still.trans (h : Still a b) (h' : Still b c) : Still a c :=
  ⟨h'.frozen, Nat.le_trans h.balance h'.balance, h'.limits.trans h.limits,
    h'.isConfirmed.trans h.isConfirmed, fun i txn ht he => h.executed i txn (h'.executed i txn ht he) he⟩

/-- An execution of `unfreezeInternal` begins, which `b` comes from. -/
def Unfreezes (this : Address) (timestamp : Nat) (a b : Treasury) : Prop :=
  ∃ i txn, Begins this timestamp i a txn ∧ isSelfCall this txn unfreezeInternalSelector = true ∧
    Extends (booked timestamp i a txn) b

theorem Unfreezes.performed (h : Unfreezes this timestamp a b) (hc : Consistent this initial a) :
    Performed this unfreezeInternalSelector a b := by
  obtain ⟨i, txn, hbegins, hself, hext⟩ := h
  exact (hbegins.performed hc hself (isSensitive_operation .unfreezeInternal hself)).of_extends
    hext

/-- A frozen treasury executes `unfreezeInternal`, or stays as it is. -/
theorem Update.still (h : Update this timestamp a b) (hfrozen : a.frozen = true) :
    Unfreezes this timestamp a b ∨ Still a b := by
  cases h with
  | deposit hs => exact .inr ⟨hfrozen, Nat.le_add_right _ _, rfl, rfl, fun _ _ ht _ => ht⟩
  | emit he => exact .inr ⟨hfrozen, Nat.le_refl _, rfl, rfl, fun _ _ ht _ => ht⟩
  | submit hnew hzero =>
    refine .inr ⟨hfrozen, Nat.le_refl _, rfl, rfl, fun i txn ht he => ?_⟩
    rcases of_getElem?_append ht with ht | ⟨rfl, rfl⟩
    · exact ht
    · rw [hnew] at he
      cases he
  | vote h he => exact absurd h.live (by simp [hfrozen])
  | execute h hb => exact .inl ⟨_, _, h, h.live.resolve_left (by simp [hfrozen]), extends_paid⟩
  | operate op h hself =>
    exact .inl ⟨_, _, h, h.live.resolve_left (by simp [hfrozen]), extends_apply op⟩

/-- No transaction that calls `unfreezeInternal` can be executed. -/
def Unprepared (this : Address) (s : Treasury) : Prop :=
  ∀ i txn, s.transactions[i]? = some txn → isSelfCall this txn unfreezeInternalSelector = true →
    txn.executed = false → (voters s i).length < s.required

/-- Later transactions cannot be confirmed, so none of them can be executed either. -/
theorem Still.not_unfreezes (h : Still a b) (hext : Extends a b) (ha : Consistent this initial a)
    (hb : Consistent this initial b) (hnone : Unprepared this a) :
    ¬ Unfreezes this timestamp b c := by
  rintro ⟨i, txn, hbegins, hself, -⟩
  have henough := hbegins.sensitive (isSensitive_operation .unfreezeInternal hself)
  rw [hb.counted i txn hbegins.found, voters_congr hext.owners (congrFun h.isConfirmed i),
    hext.required] at henough
  cases hfound : a.transactions[i]? with
  | none =>
    -- nobody has confirmed a transaction that was not there
    have hempty : voters a i = [] := List.filter_eq_nil_iff.mpr fun o _ ho =>
      absurd (ha.mine i o ho).2 (Nat.not_lt.mpr (List.getElem?_eq_none_iff.mp hfound))
    rw [hempty] at henough
    exact absurd ha.positive (by simpa using henough)
  | some old =>
    obtain ⟨later, hlater, hdest, -, hdata, hsame⟩ := hext.kept i old hfound
    cases hlater.symm.trans hbegins.found
    have hold : isSelfCall this old unfreezeInternalSelector = true := by
      unfold isSelfCall at hself ⊢
      rwa [hdest, hdata] at hself
    have hpending : old.executed = false := by
      cases he : old.executed with
      | false => rfl
      | true =>
        obtain ⟨rfl, -⟩ := hsame he
        exact he.symm.trans hbegins.pending
    exact absurd (hnone i old hfound hold hpending) (Nat.not_lt.mpr henough)

/-! ## Runs -/

variable {depth : Nat} {d : Deployment} {s s' : Treasury}
  {before later : Trace this}

/-- **The induction over later transactions**: what holds of a reachable state, and what updates
keep of all that extend it. -/
theorem holds_later {P : Nat → Prop} {R : Treasury → Prop} (h : Run (deployed this depth d) before s)
    (hlater : Run (treasury this depth (· = s)) later s') (hP : ∀ e ∈ later, P e.env) (hs : R s)
    (hstep : ∀ {timestamp b c}, P timestamp → Consistent this d.threshold b → Extends s b →
      Update this timestamp b c → R b → R c) : R s' := by
  obtain ⟨hc, -, -⟩ := consistent_of_run h
  have hu := updates_of_run hlater hP
  have key : (Consistent this d.threshold s' ∧ Extends s s') ∧ R s' := by
    clear hlater
    induction hu with
    | refl => exact ⟨⟨hc, .refl s⟩, hs⟩
    | tail _ hu ih =>
      obtain ⟨timestamp, hn, hu⟩ := hu
      obtain ⟨⟨hcb, hext⟩, hr⟩ := ih
      exact ⟨⟨hu.consistent hcb, hext.trans hu.extends⟩, hstep hn hcb hext hu hr⟩
  exact key.2

/-- **Nothing is undone.**  Whatever transactions come, from any storage: the owners stay, and how many
are required, all transactions keep their account, value and data, and an executed one stays as it
is, with its confirmations. -/
theorem executed_for_good (h : Run (treasury this depth (· = s)) later s') : Extends s s' :=
  extends_of_updates (updates_of_run (P := fun _ => True) h fun _ _ => trivial)

/-- After the payment, owner 3 submits another one. -/
theorem executed_payment :
    ∃ later s', Run (treasury 100 8 (· = after payment)) later s' ∧
      s'.transactions.length = 2 ∧ Extends (after payment) s' := by
  obtain ⟨later, s', hlater, hlength⟩ := Machine.exists_run_of_replay
    (m := treasury 100 8 (· = after payment)) rfl [sends 3 0xc6427474 [7, 5, 96, 0]]
    (fun _ s => s.transactions.length = 2) (fun _ _ => trivial) (by decide) (by decide +kernel)
  exact ⟨later, s', hlater, of_decide_eq_true hlength, executed_for_good hlater⟩

/-- **Protected functions.**  From any reachable state, whatever transactions come next: the limits
and the threshold stay unless `updateLimits` has been executed with the required confirmations in the
meantime, and so for the freeze and the two functions that set and clear it. -/
theorem privileged_changes (h : Run (deployed this depth d) before s)
    (hlater : Run (treasury this depth (· = s)) later s') :
    (s'.limits = s.limits ∨ Performed this updateLimitsSelector s s') ∧
      (s.frozen = false → s'.frozen = true → Performed this emergencyFreezeSelector s s') ∧
      (s.frozen = true → s'.frozen = false → Performed this unfreezeInternalSelector s s') := by
  have key : Changes this s s' := holds_later h hlater (fun _ _ => trivial) (.refl s)
    fun (_ : True) hc _ hu hx => hx.trans (hu.changes hc)
  exact ⟨key.limits, key.freeze, key.unfreeze⟩

/-- New limits, with the confirmations of owners 1 and 2. -/
def newLimits : List SampleCall :=
  selfCall 0 (calldata updateLimitsSelector [1, 2, 3]) ++ [executes 0]

theorem privileged_limits :
    (after newLimits).limits = (1, 2, 3) ∧
      Performed 100 updateLimitsSelector threeOwned (after newLimits) := by
  have hlimits : (after newLimits).limits = (1, 2, 3) := by decide +kernel
  obtain ⟨tr, hrun⟩ := run_after newLimits (by decide) (by decide +kernel)
  obtain ⟨s₀, h0, hlater⟩ := Reentrancy.run_from hrun
  cases (show construct threeOwners = .ok threeOwned from rfl).symm.trans h0
  have hstart : Run (deployed 100 8 threeOwners) [] threeOwned := .start rfl
  obtain ⟨hchange, -, -⟩ := privileged_changes hstart hlater
  refine ⟨hlimits, hchange.resolve_left fun h => ?_⟩
  rw [hlimits] at h
  cases h

/-- **Freeze.**  From any reachable state in which the treasury is frozen, whatever transactions come
next: unless `unfreezeInternal` has been executed with the required confirmations, the treasury is
still frozen, it owns as much as before, no further transaction has been executed, and the limits and
all confirmations are the same. -/
theorem frozen_until_unfrozen (h : Run (deployed this depth d) before s) (hfrozen : s.frozen = true)
    (hlater : Run (treasury this depth (· = s)) later s') :
    Performed this unfreezeInternalSelector s s' ∨ Still s s' := by
  refine holds_later (P := fun _ => True)
    (R := fun t => Performed this unfreezeInternalSelector s t ∨ Still s t) h hlater
    (fun _ _ => trivial) (.inr (.refl hfrozen)) ?_
  rintro timestamp b c - hc hext hu (hperformed | hstill)
  · exact .inl (hperformed.of_extends hu.extends)
  · rcases hu.still hstill.frozen with hunfreezes | hstill'
    · exact .inl ((hunfreezes.performed hc).of_extended hext)
    · exact .inr (hstill.trans hstill')

/-- A freeze, with the confirmations of owners 1 and 2. -/
def freeze : List SampleCall :=
  selfCall 0 (calldata emergencyFreezeSelector []) ++ [executes 0]

/-- A deposit of 5 by account 9. -/
def oneDeposit : List SampleCall := [(0, ⟨9, 5, [], by decide⟩, .done)]

theorem frozen_deposit :
    ∃ later s', Run (treasury 100 8 (· = after freeze)) later s' ∧ s'.balance = 55 ∧
      (Performed 100 unfreezeInternalSelector (after freeze) s' ∨ Still (after freeze) s') := by
  obtain ⟨tr, hrun⟩ := run_after freeze (by decide) (by decide +kernel)
  obtain ⟨later, s', hlater, hbalance⟩ := Machine.exists_run_of_replay
    (m := treasury 100 8 (· = after freeze)) rfl oneDeposit (fun _ s => s.balance = 55)
    (fun _ _ => trivial) (by decide) (by decide +kernel)
  exact ⟨later, s', hlater, of_decide_eq_true hbalance,
    frozen_until_unfrozen hrun (by decide +kernel) hlater⟩

/-- **Locked for good.**  A reachable frozen treasury, in which no transaction that calls
`unfreezeInternal` has the required confirmations, stays as it is whatever transactions come: nothing
can be confirmed any more. -/
theorem locked_for_good (h : Run (deployed this depth d) before s) (hfrozen : s.frozen = true)
    (hnone : Unprepared this s) (hlater : Run (treasury this depth (· = s)) later s') :
    Still s s' := by
  obtain ⟨hc, -, -⟩ := consistent_of_run h
  refine holds_later (P := fun _ => True) h hlater (fun _ _ => trivial) (.refl hfrozen) ?_
  rintro timestamp b c - hcb hext hu hstill
  exact hstill.trans ((hu.still hstill.frozen).resolve_left (hstill.not_unfreezes hext hc hcb hnone))

/-- The same freeze, with no way back. -/
theorem locked_freeze :
    ∃ later s', Run (treasury 100 8 (· = after freeze)) later s' ∧ s'.balance = 55 ∧
      Still (after freeze) s' := by
  obtain ⟨tr, hrun⟩ := run_after freeze (by decide) (by decide +kernel)
  obtain ⟨later, s', hlater, hbalance⟩ := Machine.exists_run_of_replay
    (m := treasury 100 8 (· = after freeze)) rfl oneDeposit (fun _ s => s.balance = 55)
    (fun _ _ => trivial) (by decide) (by decide +kernel)
  have htxns : ∀ txn ∈ (after freeze).transactions, txn.executed = true := by decide +kernel
  refine ⟨later, s', hlater, of_decide_eq_true hbalance,
    locked_for_good hrun (by decide +kernel) (fun i txn ht _ hpending => ?_) hlater⟩
  rw [htxns txn (List.mem_of_getElem? ht)] at hpending
  cases hpending

end Stellara.MultisigTreasury
