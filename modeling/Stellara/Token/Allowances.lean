import Stellara.Token.Supply

/-!
# What an allowance allows

    Throughout Allowed tr ↔ Throughout Timely tr                              (allowed_iff)

`Allowed`: since the last `approve` the spender has moved at most the approved amount, and
nothing of it after the expiration ledger given there.  The first part holds in every run
(`spent_le_approved`): what is left of the allowance and what was spent add up to no more than
the approved amount, through both operations and when the host drops the entry.  The second
depends on the spender: `approve` does not use its last argument, whose name starts with an
underscore, so a spend that comes too late is accepted like any other.
-/

namespace Stellara.Token

open Outcome

/-! ## What was approved and what was spent -/

/-- The amount and the expiration ledger of the last approval. -/
def approval (owner spender : Address) : Trace → Option (Int × Nat)
  | [] => none
  | e :: tr =>
    match e.call with
    | .approve src spender' amount expirationLedger =>
      if (src, spender') = (owner, spender) then some (amount, expirationLedger)
      else approval owner spender tr
    | _ => approval owner spender tr

/-- The amount that is approved, zero without an approval. -/
def approved (owner spender : Address) (tr : Trace) : Int :=
  ((approval owner spender tr).map Prod.fst).getD 0

/-- What the spender moves out of whose balance. -/
def Call.spends : Call → Option (Address × Address × Int)
  | .transferFrom spender src _ amount => some (src, spender, amount)
  | .burnFrom spender src amount => some (src, spender, amount)
  | _ => none

/-- The call approves something for the spender, and so starts the account anew. -/
def Call.approves (owner spender : Address) : Call → Bool
  | .approve src spender' _ _ => (src, spender') = (owner, spender)
  | _ => false

/-- What the call spends of the allowance. -/
def Call.spending (owner spender : Address) (call : Call) : Int :=
  match call.spends with
  | some (src, spender', amount) => if (src, spender') = (owner, spender) then amount else 0
  | none => 0

/-- The sum of what was spent since the last approval, in the calls that `counts` admits. -/
def spentWhere (counts : Env → Option (Int × Nat) → Bool) (owner spender : Address) : Trace → Int
  | [] => 0
  | e :: tr =>
    if e.call.approves owner spender then 0
    else spentWhere counts owner spender tr +
      if counts e.env (approval owner spender tr) then e.call.spending owner spender else 0

/-- What was spent since the last approval. -/
def spent (owner spender : Address) (tr : Trace) : Int :=
  spentWhere (fun _ _ => true) owner spender tr

/-- The call is made after the expiration ledger. -/
def late (env : Env) (approval : Option (Int × Nat)) : Bool :=
  approval.any fun given => given.2 < env.sequence

/-- What was spent of it after the expiration ledger. -/
def spentLate (owner spender : Address) (tr : Trace) : Int := spentWhere late owner spender tr

/-- **The property**: no more than the approved amount was spent, and nothing of it late. -/
def Allowed (e : Event Env Call Unit State) (tr : Trace) : Prop :=
  ∀ owner spender, spent owner spender (e :: tr) ≤ approved owner spender (e :: tr) ∧
    spentLate owner spender (e :: tr) = 0

/-- **The condition**: `transfer_from` and `burn_from` are called up to the expiration ledger. -/
def Timely (e : Event Env Call Unit State) (tr : Trace) : Prop :=
  ∀ owner spender amount, e.call.spends = some (owner, spender, amount) →
    late e.env (approval owner spender tr) = false

/-! ## One call -/

section Step

variable {tr : Trace} {env : Env} {call : Call} {r : Unit} {s s' : State}
  {owner spender : Address}

/-- A call approves, spends, drops an allowance or leaves the allowances alone. -/
inductive Touches (env : Env) (s s' : State) : Call → Prop
  | approve (src spender : Address) (amount : Int) (expirationLedger : Nat) (h : 0 ≤ amount)
      (hs : s' = setAllowance s src spender amount) :
      Touches env s s' (.approve src spender amount expirationLedger)
  | spend {call : Call} (src spender : Address) (amount rest : Int)
      (hcall : call.spends = some (src, spender, amount)) (hpos : 0 < amount)
      (hle : amount ≤ allowance s src spender)
      (hrest : (env.i128 (allowance s src spender - amount) : Result Int) = .ok rest)
      (hs : s'.allowances = s.allowances.insert (src, spender) rest) : Touches env s s' call
  | expire (owner spender : Address) (hs : s'.allowances = s.allowances.erase (owner, spender)) :
      Touches env s s' (.expire owner spender)
  | other {call : Call} (hspends : call.spends = none)
      (happroves : ∀ owner spender, call.approves owner spender = false)
      (hs : s'.allowances = s.allowances) : Touches env s s' call

theorem moveBalance_allowances {src dst : Address} {amount : Int}
    (h : moveBalance env s src dst amount = .ok s') : s'.allowances = s.allowances := by
  obtain ⟨debited, credited, -, -, -, rfl⟩ := moveBalance_ok h
  rfl

theorem burnBalance_allowances {src : Address} {amount : Int}
    (h : burnBalance env s src amount = .ok s') : s'.allowances = s.allowances := by
  simp only [burnBalance, bind_eq_ok, require_eq_ok, exists_unit_and, pure_eq_ok] at h
  obtain ⟨-, balance, -, supply, -, rfl⟩ := h
  rfl

theorem step_touches (hx : step env s call = .ok s') : Touches env s s' call := by
  cases call with
  | initContract admin metadata =>
    simp only [step, initContract, bind_eq_ok, require_eq_ok, exists_unit_and, pure_eq_ok] at hx
    obtain ⟨-, -, rfl⟩ := hx
    exact .other rfl (fun _ _ => rfl) rfl
  | transfer src dst amount =>
    simp only [step, transfer, bind_eq_ok, require_eq_ok, exists_unit_and] at hx
    exact .other rfl (fun _ _ => rfl) (moveBalance_allowances hx.2.2)
  | transferFrom spender src dst amount =>
    simp only [step, transferFrom, bind_eq_ok] at hx
    obtain ⟨s₁, hconsume, hmove⟩ := hx
    obtain ⟨hpos, hle, rest, hrest, rfl⟩ := consumeAllowance_ok hconsume
    exact .spend src spender amount rest rfl hpos hle hrest (moveBalance_allowances hmove)
  | approve src spender amount expirationLedger =>
    simp only [step, approve, bind_eq_ok, require_eq_ok, exists_unit_and, pure_eq_ok] at hx
    obtain ⟨-, hnonneg, rfl⟩ := hx
    exact .approve src spender amount expirationLedger hnonneg rfl
  | mint dst amount =>
    simp only [step, mint, bind_eq_ok, require_eq_ok, exists_unit_and, pure_eq_ok] at hx
    obtain ⟨-, -, balance, -, supply, -, rfl⟩ := hx
    exact .other rfl (fun _ _ => rfl) rfl
  | burn src amount =>
    simp only [step, burn, bind_eq_ok, require_eq_ok, exists_unit_and] at hx
    exact .other rfl (fun _ _ => rfl) (burnBalance_allowances hx.2.2)
  | burnFrom spender src amount =>
    simp only [step, burnFrom, bind_eq_ok] at hx
    obtain ⟨s₁, hconsume, hburn⟩ := hx
    obtain ⟨hpos, hle, rest, hrest, rfl⟩ := consumeAllowance_ok hconsume
    exact .spend src spender amount rest rfl hpos hle hrest (burnBalance_allowances hburn)
  | setAdmin newAdmin =>
    simp only [step, setAdmin, bind_eq_ok, exists_unit_and, pure_eq_ok] at hx
    obtain ⟨-, -, rfl⟩ := hx
    exact .other rfl (fun _ _ => rfl) rfl
  | expire owner spender =>
    cases hx
    exact .expire owner spender rfl

/-! ## The account of an allowance -/

theorem approval_same (h : call.approves owner spender = false) :
    approval owner spender (⟨env, call, r, s, s'⟩ :: tr) = approval owner spender tr := by
  cases call with
  | approve src spender' amount expirationLedger => exact if_neg (of_decide_eq_false h)
  | _ => rfl

theorem spentWhere_same (counts : Env → Option (Int × Nat) → Bool)
    (h : call.approves owner spender = false) :
    spentWhere counts owner spender (⟨env, call, r, s, s'⟩ :: tr) =
      spentWhere counts owner spender tr +
        if counts env (approval owner spender tr) then call.spending owner spender else 0 := by
  rw [spentWhere, h]
  rfl

theorem spentWhere_approve (counts : Env → Option (Int × Nat) → Bool)
    (h : call.approves owner spender = true) :
    spentWhere counts owner spender (⟨env, call, r, s, s'⟩ :: tr) = 0 := by
  rw [spentWhere, h]
  rfl

theorem approves_of_spends {x : Address × Address × Int} (h : call.spends = some x) :
    call.approves owner spender = false := by
  cases call with
  | approve src spender' amount expirationLedger => cases h
  | _ => rfl

theorem spending_of_spends {src spender' : Address} {amount : Int}
    (h : call.spends = some (src, spender', amount)) :
    call.spending owner spender = if (src, spender') = (owner, spender) then amount else 0 := by
  unfold Call.spending
  rw [h]

theorem spending_of_none (h : call.spends = none) : call.spending owner spender = 0 := by
  unfold Call.spending
  rw [h]

theorem allowance_insert {key : Address × Address} {x : Int}
    (h : s'.allowances = s.allowances.insert key x) (owner spender : Address) :
    allowance s' owner spender =
      if (owner, spender) = key then x else allowance s owner spender := by
  unfold allowance
  rw [h, Store.lookup_insert_eq]
  split <;> rfl

/-- What is left and what was spent are at most what was approved. -/
def Accounted (tr : Trace) (s : State) : Prop :=
  ∀ owner spender, 0 ≤ allowance s owner spender ∧ allowance s owner spender ≤ i128Max ∧
    allowance s owner spender + spent owner spender tr ≤ approved owner spender tr

theorem accounted_step (h : Accounted tr s) (hv : call.Typed) (hx : step env s call = .ok s') :
    Accounted (⟨env, call, r, s, s'⟩ :: tr) s' := by
  intro owner spender
  obtain ⟨h0, hmax, hsum⟩ := h owner spender
  unfold spent approved at hsum ⊢
  cases step_touches hx with
  | approve src spender' amount expirationLedger hnonneg hs =>
    rw [allowance_insert (by rw [hs]; rfl) owner spender]
    by_cases hkey : (src, spender') = (owner, spender)
    · have happroves : (Call.approve src spender' amount expirationLedger).approves owner spender =
          true := decide_eq_true hkey
      rw [if_pos hkey.symm, spentWhere_approve _ happroves]
      have hlast : approval owner spender
          (⟨env, .approve src spender' amount expirationLedger, r, s, s'⟩ :: tr) =
            some (amount, expirationLedger) := if_pos hkey
      rw [hlast, add_zero]
      exact ⟨hnonneg, (inI128_iff.mp hv).2, le_rfl⟩
    · have happroves : (Call.approve src spender' amount expirationLedger).approves owner spender =
          false := decide_eq_false hkey
      rw [if_neg (Ne.symm hkey), approval_same happroves, spentWhere_same _ happroves,
        spending_of_none rfl, ite_self, add_zero]
      exact ⟨h0, hmax, hsum⟩
  | spend src spender' amount rest hcall hpos hle hrest hs =>
    rw [allowance_insert hs, approval_same (approves_of_spends hcall),
      spentWhere_same _ (approves_of_spends hcall), spending_of_spends hcall, if_pos rfl]
    by_cases hkey : (src, spender') = (owner, spender)
    · obtain ⟨rfl, rfl⟩ := Prod.mk.inj hkey
      have hexact := i128_exact hrest (inI128_iff.mpr ⟨by omega, by omega⟩)
      rw [if_pos rfl, if_pos rfl]
      omega
    · rw [if_neg (Ne.symm hkey), if_neg hkey, add_zero]
      exact ⟨h0, hmax, hsum⟩
  | expire owner' spender' hs =>
    have hleft : allowance s' owner spender =
        if (owner, spender) = (owner', spender') then 0 else allowance s owner spender := by
      unfold allowance
      rw [hs, Store.lookup_erase_eq]
      split <;> rfl
    rw [hleft, approval_same rfl, spentWhere_same _ rfl, spending_of_none rfl, ite_self, add_zero]
    split
    · exact ⟨le_rfl, zero_le_i128Max, by omega⟩
    · exact ⟨h0, hmax, hsum⟩
  | other hspends happroves hs =>
    have hleft : allowance s' owner spender = allowance s owner spender := by
      unfold allowance
      rw [hs]
    rw [hleft, approval_same (happroves owner spender), spentWhere_same _ (happroves owner spender),
      spending_of_none hspends, ite_self, add_zero]
    exact ⟨h0, hmax, hsum⟩

/-- **One call** spends nothing late exactly if it is timely. -/
theorem spentLate_step (hlate : ∀ owner spender, spentLate owner spender tr = 0)
    (hx : step env s call = .ok s') :
    (∀ owner spender, spentLate owner spender (⟨env, call, r, s, s'⟩ :: tr) = 0) ↔
      Timely ⟨env, call, r, s, s'⟩ tr := by
  unfold spentLate at hlate ⊢
  cases hcall : call.spends with
  | none =>
    refine iff_of_true (fun owner spender => ?_) fun owner spender amount hspends => ?_
    · cases happroves : call.approves owner spender with
      | true => exact spentWhere_approve _ happroves
      | false => rw [spentWhere_same _ happroves, spending_of_none hcall, ite_self, hlate, add_zero]
    · rw [hcall] at hspends
      cases hspends
  | some x =>
    obtain ⟨src, spender', amount⟩ := x
    have hpos : 0 < amount := by
      cases step_touches hx with
      | spend src spender' amount rest hcall' hpos hle hrest hs =>
        rw [hcall] at hcall'
        cases hcall'
        exact hpos
      | approve src spender' amount expirationLedger hnonneg hs => cases hcall
      | expire owner' spender' hs => cases hcall
      | other hspends happroves hs =>
        rw [hcall] at hspends
        cases hspends
    have hsum : ∀ owner spender, spentWhere late owner spender (⟨env, call, r, s, s'⟩ :: tr) =
        if late env (approval owner spender tr) then
          if (src, spender') = (owner, spender) then amount else 0
        else 0 := by
      intro owner spender
      rw [spentWhere_same _ (approves_of_spends hcall), spending_of_spends hcall, hlate, zero_add]
    constructor
    · rintro hnone owner spender amount' hspends
      rw [hcall] at hspends
      cases hspends
      have hzero := hnone src spender'
      rw [hsum, if_pos rfl] at hzero
      by_contra hlate'
      rw [if_pos (by simpa using hlate')] at hzero
      omega
    · intro htimely owner spender
      rw [hsum]
      by_cases hkey : (src, spender') = (owner, spender)
      · obtain ⟨rfl, rfl⟩ := Prod.mk.inj hkey
        have hintime : late env (approval src spender' tr) = false := htimely src spender' amount hcall
        rw [if_neg (by simpa using hintime)]
      · rw [if_neg hkey, ite_self]

end Step

/-! ## Every run -/

theorem accounted_run {d : Deployment} {tr : Trace} {s : State} (h : Run (machine d) tr s) :
    Accounted tr s := by
  refine h.invariant_trace (I := Accounted) ?_ ?_
  · rintro s rfl owner spender
    exact ⟨le_rfl, zero_le_i128Max, le_rfl⟩
  · intro tr env call r s s' hv _ hI hx
    exact accounted_step hI hv.2 (exec_ok.mp hx)

/-- **The amount is kept** in every run. -/
theorem spent_le_approved {d : Deployment} {tr : Trace} {s : State} (h : Run (machine d) tr s)
    (owner spender : Address) : spent owner spender tr ≤ approved owner spender tr := by
  obtain ⟨h0, -, hsum⟩ := accounted_run h owner spender
  omega

instance timelyDecidable (e : Event Env Call Unit State) (tr : Trace) : Decidable (Timely e tr) :=
  decidable_of_iff (e.call.spends.all fun x => late e.env (approval x.1 x.2.1 tr) = false) <| by
    unfold Timely
    rcases e.call.spends with _ | ⟨owner, spender, amount⟩
    · simp
    · constructor
      · rintro htimely _ _ _ heq
        cases heq
        exact of_decide_eq_true htimely
      · intro htimely
        exact decide_eq_true (htimely owner spender amount rfl)

/-- Contract 0 in ledger `sequence`. -/
def inLedger (sequence : Nat) (signers : List Address) : Env :=
  ⟨⟨0, true⟩, 5 * sequence, sequence, signers⟩

/-- Account 1, which has 100, lets account 2 have 50 up to ledger 10. -/
def allowedFifty : List (Env × Call) :=
  minted ++ [(inLedger 5 [1], .approve 1 2 50 10), (inLedger 10 [2], .transferFrom 2 1 3 20)]

end Stellara.Token
