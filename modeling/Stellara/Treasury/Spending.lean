import Stellara.Treasury.Privileges

/-!
# Spending

* `spending_limit`: what is executed within one day, or one week, has at most the value of the limit,
  as long as `updateLimits` is not executed; also when executions are nested in the calls of others.
* `ether_conserved`: the treasury owns what it was deployed with and what has been deposited, less the
  values of the executed transactions to other accounts, each of them once.
-/

namespace Stellara.MultisigTreasury

open Outcome Relation

variable {this : Address} {timestamp txIndex initial : Nat} {a b c : Treasury} {txn : Transaction}

/-! ## What has been executed -/

/-- The sum of the values of the executed transactions that `p` selects. -/
def executedValue (p : Transaction → Bool) (s : Treasury) : Nat :=
  (s.transactions.map fun txn => if txn.executed && p txn then txn.value else 0).sum

theorem executedValue_append {p : Transaction → Bool} (hpending : txn.executed = false)
    (h : b.transactions = a.transactions ++ [txn]) : executedValue p b = executedValue p a := by
  unfold executedValue
  rw [h, Async.sum_map_append_singleton, hpending]
  rfl

/-- A transaction that is not executed changes: what it then is counts. -/
theorem executedValue_set {p : Transaction → Bool} {new : Transaction}
    (hfound : a.transactions[txIndex]? = some txn) (hpending : txn.executed = false)
    (h : b.transactions = a.transactions.set txIndex new) :
    executedValue p b = executedValue p a + if new.executed && p new then new.value else 0 := by
  have hsum := Async.sum_map_set (k := new)
    (f := fun txn => if txn.executed && p txn then txn.value else 0) hfound
  simp only [hpending, Bool.false_and, Bool.false_eq_true, if_false, Nat.add_zero] at hsum
  unfold executedValue
  rw [h]
  exact hsum

theorem executedValue_paid {p : Transaction → Bool} :
    executedValue p (paid this a txn) = executedValue p a := by
  unfold paid
  split <;> rfl

theorem executedValue_apply {p : Transaction → Bool} (op : Operation) :
    executedValue p (op.apply this a) = executedValue p a := by
  cases op <;> rfl

theorem Votes.executedValue_voted {p : Transaction → Bool} {sender : Address} {confirmed : Bool}
    {e : TreasuryEvent} (h : Votes sender txIndex a txn confirmed) :
    executedValue p (voted sender txIndex a txn confirmed e) = executedValue p a := by
  rw [executedValue_set h.found h.pending rfl, h.pending]
  rfl

/-! ## Windows -/

/-- The two windows in which spending is limited. -/
inductive Window
  | daily
  | weekly

namespace Window

def unit : Window → Nat
  | daily => day
  | weekly => week

def start (s : Treasury) : Window → Nat
  | daily => s.dayWindowStart
  | weekly => s.weekWindowStart

def spent (s : Treasury) : Window → Nat
  | daily => s.daySpent
  | weekly => s.weekSpent

def limit (s : Treasury) : Window → Nat
  | daily => s.dailyLimit
  | weekly => s.weeklyLimit

end Window

variable {W : Window} {n : Nat}

/-- What has been spent in the window with the number `n`. -/
def spentIn (W : Window) (n : Nat) (s : Treasury) : Nat := if W.start s = n then W.spent s else 0

/-- What can have happened between `a` and `b` in the window. -/
structure Spends (this : Address) (W : Window) (n : Nat) (a b : Treasury) : Prop where
  changes : Changes this a b
  booked : spentIn W n b + executedValue (fun _ => true) a =
    spentIn W n a + executedValue (fun _ => true) b
  bounded : Performed this updateLimitsSelector a b ∨
    (W.limit b = W.limit a ∧ (0 < W.limit a → spentIn W n b ≤ max (W.limit a) (spentIn W n a)))

theorem Spends.refl (a : Treasury) : Spends this W n a a :=
  ⟨.refl a, rfl, .inr ⟨rfl, fun _ => Nat.le_max_right _ _⟩⟩

theorem Spends.trans (h : Spends this W n a b) (h' : Spends this W n b c) : Spends this W n a c := by
  refine ⟨h.changes.trans h'.changes, ?_, ?_⟩
  · have := h.booked
    have := h'.booked
    omega
  · rcases h.bounded with hab | ⟨hlimit, hle⟩
    · exact .inl (hab.of_extends h'.changes.extending)
    · rcases h'.bounded with hbc | ⟨hlimit', hle'⟩
      · exact .inl (hbc.of_extended h.changes.extending)
      · refine .inr ⟨hlimit'.trans hlimit, fun hpos => ?_⟩
        have := hle hpos
        have := hle' (hlimit ▸ hpos)
        omega

/-- Both windows and their limits. -/
def windows (s : Treasury) : Nat × Nat × Nat × Nat × Nat × Nat :=
  (s.dayWindowStart, s.daySpent, s.dailyLimit, s.weekWindowStart, s.weekSpent, s.weeklyLimit)

theorem window_congr (h : windows b = windows a) :
    spentIn W n b = spentIn W n a ∧ W.limit b = W.limit a := by
  simp only [windows, Prod.mk.injEq] at h
  obtain ⟨hday, hspent, hdaily, hweek, hspent', hweekly⟩ := h
  have hstart : W.start b = W.start a := by cases W <;> assumption
  have hspent : W.spent b = W.spent a := by cases W <;> assumption
  refine ⟨?_, by cases W <;> assumption⟩
  unfold spentIn
  rw [hstart, hspent]

/-- Nothing has been executed. -/
theorem Spends.of_eq (hc : Changes this a b)
    (hx : executedValue (fun _ => true) b = executedValue (fun _ => true) a)
    (hw : windows b = windows a) : Spends this W n a b := by
  obtain ⟨hspent, hlimit⟩ := window_congr (W := W) (n := n) hw
  exact ⟨hc, by omega, .inr ⟨hlimit, fun _ => by omega⟩⟩

theorem spentNow_eq (hn : timestamp / W.unit = n) :
    spentNow W.unit timestamp (W.start a) (W.spent a) = spentIn W n a := by
  subst hn
  unfold spentNow spentIn
  by_cases h : W.start a = timestamp / W.unit
  · rw [if_neg (not_not.mpr h), if_pos h]
  · rw [if_pos h, if_neg h]

/-- An execution in the window is booked there. -/
theorem spentIn_booked (hn : timestamp / W.unit = n) :
    spentIn W n (booked timestamp txIndex a txn) = spentIn W n a + txn.value := by
  rw [← spentNow_eq (a := a) hn]
  cases W <;> exact if_pos hn

theorem Begins.spentIn_le (h : Begins this timestamp txIndex a txn) (hn : timestamp / W.unit = n)
    (hpos : 0 < W.limit a) : spentIn W n a + txn.value ≤ W.limit a := by
  rw [← spentNow_eq hn]
  cases W with
  | daily => exact h.daily hpos
  | weekly => exact h.weekly hpos

theorem windows_paid : windows (paid this a txn) = windows a := by
  unfold paid
  split <;> rfl

theorem spentIn_apply (op : Operation) : spentIn W n (op.apply this a) = spentIn W n a := by
  cases W <;> cases op <;> rfl

theorem Begins.executedValue_booked {p : Transaction → Bool}
    (h : Begins this timestamp txIndex a txn) (hp : p { txn with executed := true } = p txn) :
    executedValue p (booked timestamp txIndex a txn) =
      executedValue p a + if p txn then txn.value else 0 := by
  have hset : (booked timestamp txIndex a txn).transactions =
    a.transactions.set txIndex { txn with executed := true } := rfl
  rw [executedValue_set h.found h.pending hset]
  simp [hp]

theorem Update.spends (h : Update this timestamp a b) (hc : Consistent this initial a)
    (hn : timestamp / W.unit = n) : Spends this W n a b := by
  have hchanges := h.changes hc
  cases h with
  | deposit hs => exact .of_eq hchanges rfl rfl
  | emit he => exact .of_eq hchanges rfl rfl
  | submit hnew hzero => exact .of_eq hchanges (executedValue_append hnew rfl) rfl
  | vote h he => exact .of_eq hchanges h.executedValue_voted rfl
  | @execute txIndex txn h hb =>
    obtain ⟨hspent, hlimit⟩ := window_congr (W := W) (n := n)
      (windows_paid : windows (paid this (booked timestamp txIndex a txn) txn) = _)
    rw [spentIn_booked hn] at hspent
    refine ⟨hchanges, ?_, .inr ⟨hlimit.trans (by cases W <;> rfl), fun hpos => ?_⟩⟩
    · rw [hspent, executedValue_paid, h.executedValue_booked rfl, if_pos rfl]
      omega
    · rw [hspent]
      exact Nat.le_trans (h.spentIn_le hn hpos) (Nat.le_max_left _ _)
  | @operate txIndex txn op h hself =>
    have hspent : spentIn W n (op.apply this (booked timestamp txIndex a txn)) =
      spentIn W n a + txn.value := (spentIn_apply op).trans (spentIn_booked hn)
    refine ⟨hchanges, ?_, ?_⟩
    · rw [hspent, executedValue_apply, h.executedValue_booked rfl, if_pos rfl]
      omega
    · by_cases hop : op.selector = updateLimitsSelector
      · rw [hop] at hself
        exact .inl ((h.performed hc hself (isSensitive_operation op (hop ▸ hself))).of_extends
          (extends_apply op))
      · refine .inr ⟨?_, fun hpos => ?_⟩
        · cases op with
          | updateLimits => exact absurd rfl hop
          | _ => cases W <;> rfl
        · rw [hspent]
          exact Nat.le_trans (h.spentIn_le hn hpos) (Nat.le_max_left _ _)

/-! ## The balance -/

def deposits (this : Address) (s : Treasury) : Nat := (s.events.map (depositOf this)).sum

/-- Whether a transaction pays another account. -/
def paysOther (this : Address) (txn : Transaction) : Bool := txn.dest ≠ this

/-- The balance of a treasury that was deployed with `endowment`. -/
def Conserved (this : Address) (endowment : Nat) (s : Treasury) : Prop :=
  s.balance + executedValue (paysOther this) s = endowment + deposits this s

theorem deposits_emit {e : TreasuryEvent} :
    deposits this (a.emit e) = deposits this a + depositOf this e := by
  simp [deposits, Treasury.emit]

/-- An event that is no deposit of another account. -/
theorem Conserved.emit {endowment : Nat} {e : TreasuryEvent} (h : Conserved this endowment a)
    (he : depositOf this e = 0) : Conserved this endowment (a.emit e) := by
  unfold Conserved
  rw [deposits_emit, he]
  exact h

theorem Votes.conserved {endowment : Nat} {sender : Address} {confirmed : Bool} {e : TreasuryEvent}
    (h : Votes sender txIndex a txn confirmed) (he : depositOf this e = 0)
    (hc : Conserved this endowment a) :
    Conserved this endowment (voted sender txIndex a txn confirmed e) := by
  have hx := h.executedValue_voted (p := paysOther this) (e := e)
  unfold Conserved
  rw [hx, voted, deposits_emit, he]
  exact hc

theorem Begins.conserved {endowment : Nat} (h : Begins this timestamp txIndex a txn)
    (hb : txn.value ≤ a.balance) (hc : Conserved this endowment a) :
    Conserved this endowment (paid this (booked timestamp txIndex a txn) txn) := by
  have hx := h.executedValue_booked (p := paysOther this) rfl
  have hother : paysOther this txn = true ↔ txn.dest ≠ this := by simp [paysOther]
  unfold Conserved at hc ⊢
  rw [executedValue_paid, hx]
  unfold paid
  split
  · next hdest =>
    rw [if_neg fun h => hother.mp h hdest]
    exact hc
  · next hdest =>
    rw [if_pos (hother.mpr hdest)]
    show a.balance - txn.value + (executedValue (paysOther this) a + txn.value) =
      endowment + deposits this a
    omega

/-- A protected function is called by the treasury itself, which costs nothing. -/
theorem Begins.conserved_apply {endowment : Nat} {op : Operation}
    (h : Begins this timestamp txIndex a txn) (hself : isSelfCall this txn op.selector = true)
    (hc : Conserved this endowment a) :
    Conserved this endowment (op.apply this (booked timestamp txIndex a txn)) := by
  have hdest : txn.dest = this := (of_decide_eq_true hself).1
  have hx := h.executedValue_booked (p := paysOther this) rfl
  rw [if_neg (by simp [paysOther, hdest]), Nat.add_zero] at hx
  unfold Conserved
  rw [executedValue_apply, hx]
  cases op <;> rw [Operation.apply, deposits_emit] <;> exact hc

theorem Update.conserved {endowment : Nat} (h : Update this timestamp a b)
    (hc : Conserved this endowment a) : Conserved this endowment b := by
  cases h with
  | @deposit sender value hs =>
    unfold Conserved at hc ⊢
    rw [deposits_emit, depositOf, if_neg hs]
    show a.balance + value + executedValue (paysOther this) a = endowment + (deposits this a + value)
    omega
  | emit he => exact hc.emit he
  | submit hnew hzero =>
    unfold Conserved
    rw [executedValue_append hnew rfl]
    exact hc
  | vote h he => exact h.conserved he hc
  | execute h hb => exact h.conserved hb hc
  | operate op h hself => exact h.conserved_apply hself hc

/-! ## Runs -/

variable {depth : Nat} {d : Deployment} {s s' : Treasury}
  {before later : Trace this}

/-- **Spending limits.**  From any reachable state, whatever transactions come next in one day (or
one week): unless `updateLimits` is executed or there is no limit, the transactions that are executed
then have at most the value of the limit together. -/
theorem spending_limit (h : Run (deployed this depth d) before s)
    (hlater : Run (treasury this depth (· = s)) later s')
    (hwindow : ∀ e ∈ later, e.env / W.unit = n) :
    Performed this updateLimitsSelector s s' ∨ W.limit s = 0 ∨
      executedValue (fun _ => true) s' ≤ executedValue (fun _ => true) s + W.limit s := by
  have key : Spends this W n s s' :=
    holds_later (P := fun timestamp => timestamp / W.unit = n) h hlater hwindow (.refl s)
      fun hn hc _ hu hx => hx.trans (hu.spends hc hn)
  rcases key.bounded with hperformed | ⟨-, hle⟩
  · exact .inl hperformed
  · rcases Nat.eq_zero_or_pos (W.limit s) with hzero | hpos
    · exact .inr (.inl hzero)
    · have hbooked := key.booked
      have := hle hpos
      exact .inr (.inr (by omega))

/-- The payment of 5, within the daily limit of 10. -/
theorem spending_payment :
    ∃ later s', Run (treasury 100 8 (· = threeOwned)) later s' ∧
      executedValue (fun _ => true) s' = 5 ∧
      (Performed 100 updateLimitsSelector threeOwned s' ∨ Window.daily.limit threeOwned = 0 ∨
        executedValue (fun _ => true) s' ≤
          executedValue (fun _ => true) threeOwned + Window.daily.limit threeOwned) := by
  obtain ⟨later, s', hlater, hok⟩ := Machine.exists_run_of_replay
    (m := treasury 100 8 (· = threeOwned)) rfl payment
    (fun tr s => executedValue (fun _ => true) s = 5 ∧ ∀ e ∈ tr, e.env / day = 0)
    (fun _ _ => trivial) (by decide) (by decide +kernel)
  obtain ⟨hvalue, hday⟩ := of_decide_eq_true hok
  have hrun : Run (deployed 100 8 threeOwners) [] threeOwned := .start rfl
  exact ⟨later, s', hlater, hvalue, spending_limit (W := .daily) hrun hlater hday⟩

/-- **Ether is conserved** in every reachable state. -/
theorem ether_conserved (h : Run (deployed this depth d) before s) :
    s.balance + executedValue (paysOther this) s = d.endowment + deposits this s := by
  obtain ⟨s₀, h0, hu⟩ := updates_of_deployed h
  clear h
  induction hu with
  | refl =>
    obtain ⟨-, -, rfl⟩ := construct_eq_ok h0
    rfl
  | tail _ hu ih =>
    obtain ⟨timestamp, -, hu⟩ := hu
    exact hu.conserved ih

/-- Of 50, 45 are left after the payment of 5. -/
theorem conserved_payment :
    (after payment).balance = 45 ∧ (after payment).balance +
      executedValue (paysOther 100) (after payment) =
        threeOwners.endowment + deposits 100 (after payment) := by
  have hbalance : (after payment).balance = 45 := by decide +kernel
  obtain ⟨tr, hrun⟩ := run_after payment (by decide) (by decide +kernel)
  exact ⟨hbalance, ether_conserved hrun⟩

end Stellara.MultisigTreasury
