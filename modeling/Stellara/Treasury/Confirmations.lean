import Stellara.Lib.Protocol
import Stellara.Treasury.Updates
import Mathlib.Data.List.Nodup

/-!
# Confirmations

Whatever outside accounts do, also from within the calls that the treasury makes, the confirmations
that are counted are those of owners, each counted once, and a transaction has been executed with as
many as it needs (`approved_executions`).

* `Extends`: transactions are only added, and what has been executed does not change any more, nor
  do its confirmations.
* `Consistent`: the invariant of the treasury.
-/

namespace Stellara.MultisigTreasury

open Outcome Relation

variable {this : Address} {timestamp txIndex initial : Nat} {s s' a b c : Treasury}
  {txn : Transaction}

/-- The owners that have confirmed a transaction. -/
def voters (s : Treasury) (txIndex : Nat) : List Address := s.owners.filter (s.isConfirmed txIndex)

theorem voters_congr (ho : b.owners = a.owners) (hi : b.isConfirmed txIndex = a.isConfirmed txIndex) :
    voters b txIndex = voters a txIndex := by
  unfold voters
  rw [ho, hi]

/-! ## Lists of transactions -/

/-- A transaction after one has changed. -/
theorem of_getElem?_set {xs : List Transaction} {i j : Nat} {x y : Transaction}
    (h : (xs.set i x)[j]? = some y) : (j = i ∧ y = x) ∨ (j ≠ i ∧ xs[j]? = some y) := by
  by_cases hji : j = i
  · subst hji
    rw [List.getElem?_set_self (by simpa using (List.getElem?_eq_some_iff.mp h).1)] at h
    exact .inl ⟨rfl, (Option.some.inj h).symm⟩
  · rw [List.getElem?_set_ne (Ne.symm hji)] at h
    exact .inr ⟨hji, h⟩

theorem of_getElem?_append {xs : List Transaction} {j : Nat} {x y : Transaction}
    (h : (xs ++ [x])[j]? = some y) : xs[j]? = some y ∨ (j = xs.length ∧ y = x) := by
  rcases Nat.lt_trichotomy j xs.length with hj | hj | hj
  · rw [List.getElem?_append_left hj] at h
    exact .inl h
  · subst hj
    rw [List.getElem?_append_right (Nat.le_refl _), Nat.sub_self] at h
    exact .inr ⟨rfl, (Option.some.inj h).symm⟩
  · rw [List.getElem?_eq_none (by simp; omega)] at h
    cases h

/-! ## What stays -/

/-- The owners stay, transactions stay, and of an executed transaction everything does. -/
structure Extends (a b : Treasury) : Prop where
  owners : b.owners = a.owners
  isOwner : b.isOwner = a.isOwner
  required : b.required = a.required
  kept : ∀ (i : Nat) txn, a.transactions[i]? = some txn → ∃ txn', b.transactions[i]? = some txn' ∧
    txn'.dest = txn.dest ∧ txn'.value = txn.value ∧ txn'.data = txn.data ∧
    (txn.executed = true → txn' = txn ∧ b.isConfirmed i = a.isConfirmed i)

theorem Extends.refl (a : Treasury) : Extends a a :=
  ⟨rfl, rfl, rfl, fun _ txn h => ⟨txn, h, rfl, rfl, rfl, fun _ => ⟨rfl, rfl⟩⟩⟩

theorem Extends.trans (h : Extends a b) (h' : Extends b c) : Extends a c := by
  refine ⟨h'.owners.trans h.owners, h'.isOwner.trans h.isOwner, h'.required.trans h.required, ?_⟩
  intro i txn ht
  obtain ⟨txn', ht', hdest, hvalue, hdata, hx⟩ := h.kept i txn ht
  obtain ⟨txn'', ht'', hdest', hvalue', hdata', hx'⟩ := h'.kept i txn' ht'
  refine ⟨txn'', ht'', hdest'.trans hdest, hvalue'.trans hvalue, hdata'.trans hdata, fun he => ?_⟩
  obtain ⟨rfl, hc⟩ := hx he
  obtain ⟨rfl, hc'⟩ := hx' he
  exact ⟨rfl, hc'.trans hc⟩

/-- Nothing that `Extends` speaks of has changed. -/
theorem Extends.of_eq (ho : b.owners = a.owners) (hi : b.isOwner = a.isOwner)
    (hr : b.required = a.required) (ht : b.transactions = a.transactions)
    (hc : b.isConfirmed = a.isConfirmed) : Extends a b :=
  ⟨ho, hi, hr, fun i txn h => ⟨txn, by rw [ht]; exact h, rfl, rfl, rfl, fun _ => ⟨rfl, by rw [hc]⟩⟩⟩

/-- A transaction that is not executed changes. -/
theorem Extends.of_set {new : Transaction} (ho : b.owners = a.owners) (hi : b.isOwner = a.isOwner)
    (hr : b.required = a.required) (hfound : a.transactions[txIndex]? = some txn)
    (hpending : txn.executed = false) (hset : b.transactions = a.transactions.set txIndex new)
    (hnew : new.dest = txn.dest ∧ new.value = txn.value ∧ new.data = txn.data)
    (hc : ∀ i, i ≠ txIndex → b.isConfirmed i = a.isConfirmed i) : Extends a b := by
  refine ⟨ho, hi, hr, fun i t ht => ?_⟩
  by_cases hne : i = txIndex
  · subst hne
    cases hfound.symm.trans ht
    refine ⟨new, ?_, hnew.1, hnew.2.1, hnew.2.2, fun he => ?_⟩
    · rw [hset, List.getElem?_set_self (List.getElem?_eq_some_iff.mp hfound).1]
    · rw [hpending] at he
      cases he
  · refine ⟨t, ?_, rfl, rfl, rfl, fun _ => ⟨rfl, hc i hne⟩⟩
    rw [hset, List.getElem?_set_ne (Ne.symm hne)]
    exact ht

theorem setConfirmed_ne {owner : Address} {confirmed : Bool} {i : Nat} (h : i ≠ txIndex) :
    setConfirmed s txIndex owner confirmed i = s.isConfirmed i := by
  funext o
  simp [setConfirmed, h]

theorem Votes.extends {sender : Address} {confirmed : Bool} {e : TreasuryEvent}
    (h : Votes sender txIndex s txn confirmed) : Extends s (voted sender txIndex s txn confirmed e) :=
  .of_set rfl rfl rfl h.found h.pending rfl ⟨rfl, rfl, rfl⟩ fun _ hne => setConfirmed_ne hne

theorem Begins.extends (h : Begins this timestamp txIndex s txn) :
    Extends s (booked timestamp txIndex s txn) :=
  .of_set rfl rfl rfl h.found h.pending rfl ⟨rfl, rfl, rfl⟩ fun _ _ => rfl

theorem extends_paid : Extends a (paid this a txn) := by
  unfold paid
  split
  · exact .refl a
  · exact .of_eq rfl rfl rfl rfl rfl

theorem extends_apply (op : Operation) : Extends a (op.apply this a) := by
  cases op <;> exact .of_eq rfl rfl rfl rfl rfl

theorem Update.extends (h : Update this timestamp a b) : Extends a b := by
  cases h with
  | deposit hs => exact .of_eq rfl rfl rfl rfl rfl
  | emit he => exact .of_eq rfl rfl rfl rfl rfl
  | submit hnew hzero =>
    refine ⟨rfl, rfl, rfl, fun i t ht => ⟨t, ?_, rfl, rfl, rfl, fun _ => ⟨rfl, rfl⟩⟩⟩
    exact (List.getElem?_append_left (List.getElem?_eq_some_iff.mp ht).1).trans ht
  | vote h he => exact h.extends
  | execute h hb => exact h.extends.trans extends_paid
  | operate op h hself => exact h.extends.trans (extends_apply op)

theorem extends_of_updates {P : Nat → Prop}
    (h : ReflTransGen (fun a b => ∃ timestamp, P timestamp ∧ Update this timestamp a b) a b) :
    Extends a b := by
  induction h with
  | refl => exact .refl a
  | tail _ hu ih =>
    obtain ⟨timestamp, -, hu⟩ := hu
    exact ih.trans hu.extends

/-! ## The invariant -/

/-- The thresholds that there have been: `initial`, and those of `updateLimits`. -/
def thresholds (initial : Nat) (s : Treasury) : List Nat :=
  initial :: s.events.filterMap fun
    | .limitsUpdated _ _ threshold => some threshold
    | _ => none

theorem mem_thresholds_emit {n : Nat} {e : TreasuryEvent} (h : n ∈ thresholds initial s) :
    n ∈ thresholds initial (s.emit e) := by
  unfold thresholds Treasury.emit at *
  rw [List.filterMap_append, ← List.cons_append]
  exact List.mem_append_left _ h

/-- The confirmations that a transaction needs to be executed; the thresholds are all there have
been. -/
def Enough (this : Address) (initial : Nat) (s : Treasury) (txn : Transaction) : Prop :=
  1 ≤ txn.numConfirmations ∧ (isSensitive this txn = true → s.required ≤ txn.numConfirmations) ∧
    ((∀ n ∈ thresholds initial s, n < txn.value) → s.required ≤ txn.numConfirmations)

structure Consistent (this : Address) (initial : Nat) (s : Treasury) : Prop where
  nodup : s.owners.Nodup
  isOwner : ∀ o, s.isOwner o = true ↔ o ∈ s.owners
  positive : 0 < s.required
  mine : ∀ (i : Nat) o, s.isConfirmed i o = true → o ∈ s.owners ∧ i < s.transactions.length
  counted : ∀ (i : Nat) txn, s.transactions[i]? = some txn → txn.numConfirmations = (voters s i).length
  threshold : s.threshold ∈ thresholds initial s
  enough : ∀ (i : Nat) txn, s.transactions[i]? = some txn → txn.executed = true → Enough this initial s txn

/-- More thresholds ask no more. -/
theorem Enough.mono (h : Enough this initial a txn) (hr : b.required = a.required)
    (ht : ∀ n ∈ thresholds initial a, n ∈ thresholds initial b) : Enough this initial b txn := by
  refine ⟨h.1, ?_, ?_⟩
  · rw [hr]
    exact h.2.1
  · rw [hr]
    exact fun hn => h.2.2 fun n hm => hn n (ht n hm)

theorem consistent_emit {e : TreasuryEvent} (h : Consistent this initial s) :
    Consistent this initial (s.emit e) :=
  { h with
    threshold := mem_thresholds_emit h.threshold
    enough := fun i t ht he => (h.enough i t ht he).mono rfl fun _ => mem_thresholds_emit }

theorem Consistent.submit (h : Consistent this initial s) (hnew : txn.executed = false)
    (hzero : txn.numConfirmations = 0) : Consistent this initial (submitted s txn) where
  nodup := h.nodup
  isOwner := h.isOwner
  positive := h.positive
  threshold := h.threshold
  mine i o ho := by
    obtain ⟨hm, hi⟩ := h.mine i o ho
    exact ⟨hm, by simp only [submitted, List.length_append]; omega⟩
  counted i t ht := by
    rcases of_getElem?_append ht with ht | ⟨rfl, rfl⟩
    · exact h.counted i t ht
    · -- nobody can have confirmed a transaction that was not there
      refine hzero.trans (List.length_eq_zero_iff.mpr (List.filter_eq_nil_iff.mpr fun o _ ho => ?_)).symm
      exact absurd (h.mine _ o ho).2 (Nat.lt_irrefl _)
  enough i t ht he := by
    rcases of_getElem?_append ht with ht | ⟨rfl, rfl⟩
    · exact h.enough i t ht he
    · rw [hnew] at he
      cases he

/-! ## Votes -/

/-- One more of `owners` passes `q` than `p`. -/
theorem length_filter_add_one {owners : List Address} {p q : Address → Bool} {o : Address}
    (hnodup : owners.Nodup) (ho : o ∈ owners) (hp : p o = false) (hq : q o = true)
    (hpq : ∀ o', o' ≠ o → q o' = p o') : (owners.filter q).length = (owners.filter p).length + 1 := by
  obtain ⟨front, back, rfl⟩ := List.append_of_mem ho
  rw [List.nodup_middle, List.nodup_cons, List.mem_append] at hnodup
  have hcongr : ∀ l : List Address, o ∉ l → l.filter q = l.filter p := by
    intro l hl
    exact List.filter_congr fun o' ho' => hpq o' fun h => hl (h ▸ ho')
  simp only [List.filter_append, List.filter_cons, hp, hq, List.length_append, if_true,
    Bool.false_eq_true, if_false, List.length_cons, hcongr front fun h => hnodup.1 (.inl h),
    hcongr back fun h => hnodup.1 (.inr h)]
  omega

/-- The votes for a transaction, after one has been cast. -/
theorem Votes.length_voters {sender : Address} {confirmed : Bool} {e : TreasuryEvent}
    (h : Votes sender txIndex s txn confirmed) (hc : Consistent this initial s) :
    (voters (voted sender txIndex s txn confirmed e) txIndex).length =
      MultisigTreasury.counted confirmed (voters s txIndex).length := by
  have hmem : sender ∈ s.owners := (hc.isOwner sender).mp h.owner
  have hself : setConfirmed s txIndex sender confirmed txIndex sender = confirmed := by
    simp [setConfirmed]
  have hother : ∀ o, o ≠ sender →
      setConfirmed s txIndex sender confirmed txIndex o = s.isConfirmed txIndex o := by
    intro o ho
    simp [setConfirmed, ho]
  have hbefore := h.before
  show (s.owners.filter (setConfirmed s txIndex sender confirmed txIndex)).length = _
  cases confirmed with
  | true => exact length_filter_add_one hc.nodup hmem hbefore hself hother
  | false =>
    have hlen := length_filter_add_one hc.nodup hmem hself hbefore fun o ho => (hother o ho).symm
    unfold voters
    rw [hlen]
    rfl

theorem Votes.consistent {sender : Address} {confirmed : Bool} {e : TreasuryEvent}
    (h : Votes sender txIndex s txn confirmed) (hc : Consistent this initial s) :
    Consistent this initial (voted sender txIndex s txn confirmed e) := by
  have hvoters := h.length_voters (e := e) hc
  refine consistent_emit ?_
  refine ⟨hc.nodup, hc.isOwner, hc.positive, ?_, ?_, hc.threshold, ?_⟩
  · intro i o ho
    have hlen : ∀ new, i < s.transactions.length → i < (s.transactions.set txIndex new).length :=
      fun new hi => by rwa [List.length_set]
    by_cases hvote : i = txIndex ∧ o = sender
    · obtain ⟨rfl, rfl⟩ := hvote
      exact ⟨(hc.isOwner o).mp h.owner, hlen _ (List.getElem?_eq_some_iff.mp h.found).1⟩
    · have ho : s.isConfirmed i o = true := by simpa [setConfirmed, hvote] using ho
      exact ⟨(hc.mine i o ho).1, hlen _ (hc.mine i o ho).2⟩
  · intro i t ht
    rcases of_getElem?_set ht with ⟨rfl, rfl⟩ | ⟨hne, ht⟩
    · refine Eq.trans ?_ hvoters.symm
      rw [← hc.counted i txn h.found]
    · rw [hc.counted i t ht]
      show _ = (s.owners.filter (setConfirmed s txIndex sender confirmed i)).length
      rw [setConfirmed_ne hne]
      rfl
  · intro i t ht he
    rcases of_getElem?_set ht with ⟨rfl, rfl⟩ | ⟨hne, ht⟩
    · have hpending := h.pending
      rw [show txn.executed = true from he] at hpending
      cases hpending
    · exact hc.enough i t ht he

/-! ## Executions -/

theorem Begins.enough (h : Begins this timestamp txIndex s txn)
    (hc : Consistent this initial s) : Enough this initial s txn := by
  have hpositive := hc.positive
  refine ⟨?_, h.sensitive, fun hn => h.large (hn _ hc.threshold)⟩
  rcases h.confirmed with h | h
  · omega
  · exact h

theorem Begins.consistent (h : Begins this timestamp txIndex s txn)
    (hc : Consistent this initial s) : Consistent this initial (booked timestamp txIndex s txn) where
  nodup := hc.nodup
  isOwner := hc.isOwner
  positive := hc.positive
  threshold := hc.threshold
  mine i o ho := by
    obtain ⟨hm, hi⟩ := hc.mine i o ho
    refine ⟨hm, ?_⟩
    show i < (s.transactions.set txIndex { txn with executed := true }).length
    rwa [List.length_set]
  counted i t ht := by
    rcases of_getElem?_set ht with ⟨rfl, rfl⟩ | ⟨-, ht⟩
    · exact hc.counted i txn h.found
    · exact hc.counted i t ht
  enough i t ht he := by
    rcases of_getElem?_set ht with ⟨rfl, rfl⟩ | ⟨-, ht⟩
    · exact h.enough hc
    · exact hc.enough i t ht he

theorem consistent_paid (h : Consistent this initial s) :
    Consistent this initial (paid this s txn) := by
  unfold paid
  split
  · exact h
  · exact { h with }

theorem consistent_apply (h : Consistent this initial s) (op : Operation) :
    Consistent this initial (op.apply this s) := by
  cases op with
  | updateLimits d w t =>
    refine { consistent_emit (e := .limitsUpdated d w t) h with threshold := ?_ }
    simp [thresholds, Operation.apply, Treasury.emit]
  | emergencyFreeze => exact { consistent_emit (e := .emergencyFrozen this) h with }
  | unfreezeInternal => exact { consistent_emit (e := .emergencyUnfrozen this) h with }

theorem Update.consistent (h : Update this timestamp a b) (hc : Consistent this initial a) :
    Consistent this initial b := by
  cases h with
  | deposit hs => exact consistent_emit { hc with }
  | emit he => exact consistent_emit hc
  | submit hnew hzero => exact hc.submit hnew hzero
  | vote h he => exact h.consistent hc
  | execute h hb => exact consistent_paid (h.consistent hc)
  | operate op h hself => exact consistent_apply (h.consistent hc) op

/-! ## Runs -/

theorem addOwners_eq_ok {owners rest all : List Address} (h : addOwners owners rest = .ok all)
    (hnodup : owners.Nodup) : all = owners ++ rest ∧ all.Nodup := by
  induction rest generalizing owners with
  | nil =>
    cases h
    exact ⟨(List.append_nil _).symm, hnodup⟩
  | cons o rest ih =>
    simp only [addOwners, bind_eq_ok, require_eq_ok, exists_unit_and] at h
    obtain ⟨-, hnew, h⟩ := h
    obtain ⟨rfl, hall⟩ := ih h (List.nodup_append'.mpr
      ⟨hnodup, List.nodup_singleton o, by simpa using hnew⟩)
    exact ⟨by simp, hall⟩

theorem construct_eq_ok {d : Deployment} (h : construct d = .ok s) :
    d.owners.Nodup ∧ 0 < d.required ∧ s =
      { owners := d.owners, isOwner := fun o => o ∈ d.owners, required := d.required
        dailyLimit := d.dailyLimit, weeklyLimit := d.weeklyLimit, threshold := d.threshold
        dayWindowStart := d.timestamp / day, weekWindowStart := d.timestamp / week
        balance := d.endowment } := by
  simp only [construct, bind_eq_ok, require_eq_ok, exists_unit_and, pure_eq_ok] at h
  obtain ⟨-, hrequired, owners, hadd, rfl⟩ := h
  obtain ⟨rfl, hnodup⟩ := addOwners_eq_ok hadd List.nodup_nil
  exact ⟨hnodup, hrequired.1, rfl⟩

theorem consistent_construct {d : Deployment} (h : construct d = .ok s) :
    Consistent this d.threshold s := by
  obtain ⟨hnodup, hpositive, rfl⟩ := construct_eq_ok h
  exact ⟨hnodup, by simp, hpositive, nofun, nofun, List.mem_cons_self, nofun⟩

variable {depth : Nat} {d : Deployment} {tr : Trace this}

/-- The updates that lead from the deployment to a reachable state. -/
theorem updates_of_deployed (h : Run (deployed this depth d) tr s) :
    ∃ s₀, construct d = .ok s₀ ∧
      ReflTransGen (fun a b => ∃ timestamp, True ∧ Update this timestamp a b) s₀ s := by
  obtain ⟨s₀, h0, hr⟩ := Reentrancy.run_from h
  exact ⟨s₀, h0, updates_of_run (P := fun _ => True) hr fun _ _ => trivial⟩

theorem consistent_of_run (h : Run (deployed this depth d) tr s) :
    Consistent this d.threshold s ∧ s.owners = d.owners ∧ s.required = d.required := by
  obtain ⟨s₀, h0, hu⟩ := updates_of_deployed h
  have hextends := extends_of_updates hu
  obtain ⟨-, -, heq⟩ := construct_eq_ok h0
  refine ⟨?_, by rw [hextends.owners, heq], by rw [hextends.required, heq]⟩
  clear heq hextends h
  induction hu with
  | refl => exact consistent_construct h0
  | tail _ hu ih =>
    obtain ⟨timestamp, -, hu⟩ := hu
    exact hu.consistent ih

/-! ## A treasury of three owners -/

section Sample

/-- The last `k` digits of a number to the base 256. -/
def digits : Nat → Nat → Bytes
  | 0, _ => []
  | k + 1, n => digits k (n / 256) ++ [Fin.ofNat 256 n]

def calldata (selector : Nat) (args : List Nat) : Bytes :=
  digits 4 selector ++ args.flatMap (digits 32)

/-- The treasury is at 100, its owners at 1, 2 and 3. -/
def threeOwners : Deployment := ⟨[1, 2, 3], 2, 10, 20, 2, 0, 50⟩

def threeOwned : Treasury :=
  { owners := [1, 2, 3], isOwner := fun o => o ∈ [1, 2, 3], required := 2, dailyLimit := 10
    weeklyLimit := 20, threshold := 2, dayWindowStart := 0, weekWindowStart := 0, balance := 50 }

abbrev SampleCall : Type := Nat × Sent 100

/-- A message of the account `sender` at time 0, and what accounts do meanwhile. -/
def sends (sender selector : Nat) (args : List Nat)
    (script : Reentrancy.Script (Message 100) := .done) (outside : sender ≠ 100 := by decide) :
    SampleCall :=
  (0, ⟨sender, 0, calldata selector args, outside⟩, script)

/-- Two owners confirm a transaction. -/
def confirmed (txIndex : Nat) : List SampleCall :=
  [sends 1 0xc01a8c84 [txIndex], sends 2 0xc01a8c84 [txIndex]]

/-- Account 9 has a transaction executed. -/
def executes (txIndex : Nat) (script : Reentrancy.Script (Message 100) := .done) : SampleCall :=
  sends 9 0xee22610b [txIndex] script

/-- A payment of 5 to account 7, which asks for its execution again when it is called. -/
def payment : List SampleCall :=
  sends 1 0xc6427474 [7, 5, 96, 0] :: confirmed 0 ++
    [executes 0 (.send ⟨7, 0, calldata 0xee22610b [0], by decide⟩ .done (.answer true .done))]

/-- A transaction with the number `txIndex` that calls a function of the treasury with `data`. -/
def selfCall (txIndex : Nat) (data : Bytes) : List SampleCall :=
  (0, ⟨1, 0, calldata 0xc6427474 [100, 0, 96, data.length] ++ data, by decide⟩, .done) ::
    confirmed txIndex

def sample : Machine Nat (Sent 100) Unit Revert Treasury :=
  deployed 100 8 threeOwners

/-- The storage after all of `calls`. -/
def after (calls : List SampleCall) : Treasury :=
  (sample.replayFrom [] threeOwned calls).toOption.elim threeOwned Prod.snd

theorem run_after (calls : List SampleCall) (hc : calls.Pairwise fun a b => a.1 ≤ b.1)
    (h : (sample.replayFrom [] threeOwned calls).toBool = true) :
    ∃ tr, Run (deployed 100 8 threeOwners) tr (after calls) := by
  obtain ⟨⟨tr, s⟩, hr⟩ := exists_of_toBool h
  have hs : after calls = s := by rw [after, hr]; rfl
  refine ⟨tr, hs ▸ Machine.run_replayFrom (m := sample) (.start (rfl : _ = _)) ?_ hc ?_ hr⟩
  · exact fun _ _ => trivial
  · exact List.forall_mem_nil _

end Sample

/-- **Executions are approved.**  In every reachable state the confirmations of a transaction are
those of owners, each counted once.  An executed transaction has one, and all that are required when
it calls one of the three protected functions or its value is above every threshold there has been. -/
theorem approved_executions (h : Run (deployed this depth d) tr s)
    (ht : s.transactions[txIndex]? = some txn) :
    (voters s txIndex).Nodup ∧ (∀ o, o ∈ voters s txIndex ↔ s.isConfirmed txIndex o = true) ∧
      (∀ o ∈ voters s txIndex, o ∈ d.owners) ∧
      txn.numConfirmations = (voters s txIndex).length ∧
      (txn.executed = true → 1 ≤ (voters s txIndex).length ∧
        (isSensitive this txn = true ∨ (∀ n ∈ thresholds d.threshold s, n < txn.value) →
          d.required ≤ (voters s txIndex).length)) := by
  obtain ⟨hc, howners, hrequired⟩ := consistent_of_run h
  have hcount := hc.counted txIndex txn ht
  refine ⟨hc.nodup.filter _, fun o => ?_, fun o ho => ?_, hcount, fun he => ?_⟩
  · rw [voters, List.mem_filter]
    exact ⟨And.right, fun ho => ⟨(hc.mine txIndex o ho).1, ho⟩⟩
  · rw [← howners]
    exact (List.mem_filter.mp ho).1
  · obtain ⟨hone, hsensitive, hlarge⟩ := hc.enough txIndex txn ht he
    rw [← hcount, ← hrequired]
    exact ⟨hone, fun hx => hx.elim hsensitive hlarge⟩

/-- The payment is executed once, with the confirmations of owners 1 and 2. -/
theorem approved_payment :
    (after payment).transactions = [⟨7, 5, [], true, 2, 0⟩] ∧
      2 = (voters (after payment) 0).length ∧ (∀ o ∈ voters (after payment) 0, o ∈ [1, 2, 3]) := by
  have htxn : (after payment).transactions = [⟨7, 5, [], true, 2, 0⟩] := by decide +kernel
  obtain ⟨tr, hrun⟩ := run_after payment (by decide) (by decide +kernel)
  have ht : (after payment).transactions[0]? = some ⟨7, 5, [], true, 2, 0⟩ := by rw [htxn]; rfl
  obtain ⟨-, -, howners, hcount, -⟩ := approved_executions hrun ht
  exact ⟨htxn, hcount, howners⟩

end Stellara.MultisigTreasury
