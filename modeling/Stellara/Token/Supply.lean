import Stellara.Token.Model

/-!
# The supply of the token

`Conserved`: the total supply is the sum of the balances, none of which is negative.
`TransferExact`: a transfer moves its amount from one balance to the other, and leaves a
balance as it is when both are the same.

`transfer` and `transfer_from` write the receiver's balance last, from a value read before
the sender's was written.  When both are one account the last write wins and the amount is
created (`moveBalance_self`).  `supply_conserved_iff`: that is the only way.
-/

namespace Stellara.Token

open Outcome

/-! ## Balances -/

section Balances

variable (s : State) (a b : Address) (x : Int)

/-- The sum of all balances. -/
def held (s : State) : Int := Store.total (fun _ balance => balance) s.balances

@[simp] theorem balanceOf_setBalance :
    balanceOf (setBalance s a x) b = if b = a then x else balanceOf s b := by
  unfold balanceOf setBalance
  dsimp only
  rw [Store.lookup_insert_eq]
  split <;> rfl

theorem old_balance : Store.old (fun _ balance => balance) s.balances a = balanceOf s a := by
  unfold Store.old balanceOf
  cases s.balances.lookup a <;> rfl

theorem held_setBalance : held (setBalance s a x) = held s - balanceOf s a + x := by
  unfold held setBalance
  dsimp only
  rw [Store.total_insert, old_balance]

end Balances

/-! ## Conservation -/

/-- The total supply is the sum of the balances, none of which is negative. -/
structure Conserved (s : State) : Prop where
  supply : s.totalSupply = held s
  nonneg : ∀ a, 0 ≤ balanceOf s a

/-- The sender, the receiver and the amount of a transfer. -/
def Call.moved : Call → Option (Address × Address × Int)
  | .transfer src dst amount => some (src, dst, amount)
  | .transferFrom _ src dst amount => some (src, dst, amount)
  | _ => none

/-- A transfer changes the two balances by its amount, and no other. -/
def TransferExact (e : Event Env Call Unit State) : Prop :=
  ∀ src dst amount, e.call.moved = some (src, dst, amount) → ∀ a,
    balanceOf e.after a =
      balanceOf e.before a - (if a = src then amount else 0) + (if a = dst then amount else 0)

/-- Sender and receiver of a transfer differ. -/
def Distinct (e : Event Env Call Unit State) : Prop :=
  ∀ src dst amount, e.call.moved = some (src, dst, amount) → src ≠ dst

variable {d : Deployment} {env : Env} {s s' : State}

section Bounds

variable (h : Conserved s)
include h

theorem Conserved.lookup_nonneg {a : Address} {x : Int} (ha : s.balances.lookup a = some x) :
    0 ≤ x := by
  have hx := h.nonneg a
  unfold balanceOf at hx
  rw [ha] at hx
  exact hx

/-- A balance is at most the supply. -/
theorem Conserved.balance_le (a : Address) : balanceOf s a ≤ s.totalSupply := by
  rw [h.supply]
  unfold balanceOf
  cases ha : s.balances.lookup a with
  | none => exact Store.total_nonneg fun k v => h.lookup_nonneg
  | some x =>
    exact Store.le_total (f := fun _ balance => balance) (fun k v => h.lookup_nonneg) ha

/-- Setting a balance keeps the books when the supply moves as the balance. -/
theorem Conserved.setBalance {a : Address} {x supply : Int} (hx : 0 ≤ x)
    (hsupply : supply = s.totalSupply - balanceOf s a + x) :
    Conserved { setBalance s a x with totalSupply := supply } where
  supply := by
    show supply = held (Token.setBalance s a x)
    rw [held_setBalance, hsupply, h.supply]
  nonneg b := by
    show 0 ≤ balanceOf (Token.setBalance s a x) b
    rw [balanceOf_setBalance]
    split
    · exact hx
    · exact h.nonneg b

/-- Two different balances together are at most the supply. -/
theorem Conserved.two_le {a b : Address} (hne : a ≠ b) :
    balanceOf s a + balanceOf s b ≤ s.totalSupply := by
  -- taking the first balance away lowers the supply by it
  have hrest := h.setBalance (a := a) (x := 0) (le_refl 0) rfl
  have hb := hrest.balance_le b
  have hb' : balanceOf (Token.setBalance s a 0) b = balanceOf s b := by
    rw [balanceOf_setBalance, if_neg hne.symm]
  change balanceOf (Token.setBalance s a 0) b ≤ s.totalSupply - balanceOf s a + 0 at hb
  omega

end Bounds

/-- The books, with a supply that fits its type. -/
structure Books (s : State) : Prop extends Conserved s where
  range : s.totalSupply ≤ i128Max

/-! ## Moving a balance -/

theorem moveBalance_ok {src dst : Address} {amount : Int}
    (h : moveBalance env s src dst amount = .ok s') :
    ∃ debited credited, amount ≤ balanceOf s src ∧
      (env.i128 (balanceOf s src - amount) : Result Int) = .ok debited ∧
      (env.i128 (balanceOf s dst + amount) : Result Int) = .ok credited ∧
      s' = setBalance (setBalance s src debited) dst credited := by
  simp only [moveBalance, bind_eq_ok, require_eq_ok, exists_unit_and, pure_eq_ok] at h
  obtain ⟨hle, debited, hdebited, credited, hcredited, rfl⟩ := h
  exact ⟨debited, credited, hle, hdebited, hcredited, rfl⟩

/-- Between two accounts the amount moves and nothing else. -/
theorem moveBalance_distinct {src dst : Address} {amount : Int} (h : Books s) (hpos : 0 < amount)
    (hne : src ≠ dst) (hx : moveBalance env s src dst amount = .ok s') :
    Books s' ∧ ∀ a, balanceOf s' a =
      balanceOf s a - (if a = src then amount else 0) + (if a = dst then amount else 0) := by
  obtain ⟨debited, credited, hle, hdebited, hcredited, rfl⟩ := moveBalance_ok hx
  have hsrc := h.balance_le src
  have hboth := h.two_le hne
  have hdst := h.nonneg dst
  have hrange := h.range
  have hdebited : debited = balanceOf s src - amount := by
    refine i128_exact hdebited ?_
    rw [inI128_iff]
    unfold i128Max at hrange ⊢
    omega
  have hcredited : credited = balanceOf s dst + amount := by
    refine i128_exact hcredited ?_
    rw [inI128_iff]
    omega
  constructor
  · have hfirst := h.setBalance (a := src) (x := debited) (by omega) rfl
    have htotal : s.totalSupply = s.totalSupply - balanceOf s src + debited -
        balanceOf (setBalance s src debited) dst + credited := by
      rw [balanceOf_setBalance, if_neg hne.symm]
      omega
    have hsecond := hfirst.setBalance (a := dst) (x := credited) (by omega) htotal
    exact { toConserved := hsecond, range := hrange }
  · intro a
    rw [balanceOf_setBalance, balanceOf_setBalance]
    by_cases hd : a = dst
    · rw [if_pos hd, if_pos hd, if_neg (fun hs => hne (hs.symm.trans hd)), hd]
      omega
    · by_cases hs : a = src
      · rw [if_neg hd, if_neg hd, if_pos hs, if_pos hs, hs]
        omega
      · rw [if_neg hd, if_neg hd, if_neg hs, if_neg hs]
        omega

/-- On one account the amount is created, and the books no longer agree. -/
theorem moveBalance_self {src : Address} {amount : Int} (h : Books s) (hpos : 0 < amount)
    (hx : moveBalance env s src src amount = .ok s') : ¬ Conserved s' := by
  obtain ⟨debited, credited, hle, hdebited, hcredited, rfl⟩ := moveBalance_ok hx
  intro hcons
  have hsupply : s.totalSupply = held (setBalance (setBalance s src debited) src credited) :=
    hcons.supply
  rw [held_setBalance, held_setBalance, balanceOf_setBalance, if_pos rfl, h.supply] at hsupply
  have hsrc := h.balance_le src
  have h0 := h.nonneg src
  have hrange := h.range
  unfold i128Max at hrange
  rcases i128_sum_cases hcredited (by omega) (by omega) with ⟨-, hc⟩ | ⟨-, hc⟩
  · omega
  · omega

/-! ## What the calls do -/

/-- The calls that move, create or destroy nothing. -/
theorem Books.frame (h : Books s) (hbalances : s'.balances = s.balances)
    (hsupply : s'.totalSupply = s.totalSupply) : Books s' where
  supply := by
    unfold held
    rw [hsupply, hbalances]
    exact h.supply
  nonneg a := by
    unfold balanceOf
    rw [hbalances]
    exact h.nonneg a
  range := by
    rw [hsupply]
    exact h.range

theorem consumeAllowance_ok {spender src : Address} {amount : Int}
    (h : consumeAllowance env s spender src amount = .ok s') :
    0 < amount ∧ amount ≤ allowance s src spender ∧ ∃ rest,
      (env.i128 (allowance s src spender - amount) : Result Int) = .ok rest ∧
        s' = setAllowance s src spender rest := by
  simp only [consumeAllowance, bind_eq_ok, require_eq_ok, exists_unit_and, pure_eq_ok] at h
  obtain ⟨-, hpos, hle, rest, hrest, rfl⟩ := h
  exact ⟨hpos, hle, rest, hrest, rfl⟩

theorem mint_books {dst : Address} {amount : Int} (h : Books s)
    (hx : mint env s dst amount = .ok s') : Books s' := by
  simp only [mint, checkedAdd, bind_eq_ok, require_eq_ok, exists_unit_and, pure_eq_ok,
    ofOption_eq_ok] at hx
  obtain ⟨-, hpos, balance, hbalance, supply, hsupply, rfl⟩ := hx
  have h0 := h.nonneg dst
  rcases Checked.signed_cases hbalance with ⟨-, rfl⟩ | ⟨-, hno, -⟩
  · rcases Checked.signed_cases hsupply with ⟨hin, rfl⟩ | ⟨-, hno, -⟩
    · refine { toConserved := h.setBalance (by omega) ?_, range := (inI128_iff.mp hin).2 }
      show s.totalSupply + amount = _
      omega
    · cases hno
  · cases hno

theorem burnBalance_books {src : Address} {amount : Int} (h : Books s) (hpos : 0 < amount)
    (hx : burnBalance env s src amount = .ok s') : Books s' := by
  simp only [burnBalance, bind_eq_ok, require_eq_ok, exists_unit_and, pure_eq_ok] at hx
  obtain ⟨hle, balance, hbalance, supply, hsupply, rfl⟩ := hx
  have hsrc := h.balance_le src
  have hrange := h.range
  have hbalance : balance = balanceOf s src - amount := by
    refine i128_exact hbalance ?_
    rw [inI128_iff]
    unfold i128Max at hrange ⊢
    omega
  have hsupply : supply = s.totalSupply - amount := by
    refine i128_exact hsupply ?_
    show InI128 (s.totalSupply - amount)
    rw [inI128_iff]
    unfold i128Max at hrange ⊢
    omega
  refine { toConserved := h.setBalance (by omega) (by omega), range := ?_ }
  show supply ≤ i128Max
  omega

/-- A transfer is exact and keeps the books when its accounts differ, and breaks them when
they do not. -/
theorem moved_step {call : Call} {src dst : Address} {amount : Int} {s₁ : State} (h : Books s)
    (hpos : 0 < amount) (hcall : call.moved = some (src, dst, amount))
    (hsame : ∃ allowances, s₁ = { s with allowances })
    (hx : moveBalance env s₁ src dst amount = .ok s') :
    (Conserved s' ∧ TransferExact ⟨env, call, (), s, s'⟩ ↔ Distinct ⟨env, call, (), s, s'⟩) ∧
      (Conserved s' ∧ TransferExact ⟨env, call, (), s, s'⟩ → Books s') := by
  obtain ⟨allowances, rfl⟩ := hsame
  have h₁ : Books { s with allowances } := h.frame rfl rfl
  by_cases hne : src = dst
  · subst hne
    have hbroken := moveBalance_self h₁ hpos hx
    refine ⟨⟨fun hq => absurd hq.1 hbroken, fun hp => ?_⟩, fun hq => absurd hq.1 hbroken⟩
    exact absurd rfl (hp src src amount hcall)
  · obtain ⟨hbooks, hexact⟩ := moveBalance_distinct h₁ hpos hne hx
    refine ⟨⟨fun _ => ?_, fun _ => ⟨hbooks.toConserved, ?_⟩⟩, fun _ => hbooks⟩
    · intro a b x hmoved
      obtain ⟨rfl, rfl, rfl⟩ : src = a ∧ dst = b ∧ amount = x := by
        simpa using hcall.symm.trans hmoved
      exact hne
    · intro a b x hmoved
      obtain ⟨rfl, rfl, rfl⟩ : src = a ∧ dst = b ∧ amount = x := by
        simpa using hcall.symm.trans hmoved
      exact hexact

/-- The other calls keep the books. -/
theorem unmoved_step {call : Call} (hcall : call.moved = none) (hbooks : Books s') :
    (Conserved s' ∧ TransferExact ⟨env, call, (), s, s'⟩ ↔ Distinct ⟨env, call, (), s, s'⟩) ∧
      (Conserved s' ∧ TransferExact ⟨env, call, (), s, s'⟩ → Books s') := by
  refine ⟨⟨fun _ => ?_, fun _ => ⟨hbooks.toConserved, ?_⟩⟩, fun _ => hbooks⟩
  · intro a b x hmoved
    cases hcall.symm.trans hmoved
  · intro a b x hmoved
    cases hcall.symm.trans hmoved

theorem supply_step {call : Call} (h : Books s) (hx : step env s call = .ok s') :
    (Conserved s' ∧ TransferExact ⟨env, call, (), s, s'⟩ ↔ Distinct ⟨env, call, (), s, s'⟩) ∧
      (Conserved s' ∧ TransferExact ⟨env, call, (), s, s'⟩ → Books s') := by
  cases call with
  | initContract admin metadata =>
    simp only [step, initContract, bind_eq_ok, require_eq_ok, exists_unit_and, pure_eq_ok] at hx
    obtain ⟨-, -, rfl⟩ := hx
    exact unmoved_step rfl (h.frame rfl rfl)
  | transfer src dst amount =>
    simp only [step, transfer, bind_eq_ok, require_eq_ok, exists_unit_and] at hx
    obtain ⟨-, hpos, hmove⟩ := hx
    exact moved_step h hpos rfl ⟨s.allowances, rfl⟩ hmove
  | transferFrom spender src dst amount =>
    simp only [step, transferFrom, bind_eq_ok] at hx
    obtain ⟨s₁, hconsume, hmove⟩ := hx
    obtain ⟨hpos, -, rest, -, hsame⟩ := consumeAllowance_ok hconsume
    exact moved_step h hpos rfl ⟨_, hsame⟩ hmove
  | approve src spender amount expirationLedger =>
    simp only [step, approve, bind_eq_ok, require_eq_ok, exists_unit_and, pure_eq_ok] at hx
    obtain ⟨-, -, rfl⟩ := hx
    exact unmoved_step rfl (h.frame rfl rfl)
  | mint dst amount => exact unmoved_step rfl (mint_books h hx)
  | burn src amount =>
    simp only [step, burn, bind_eq_ok, require_eq_ok, exists_unit_and] at hx
    obtain ⟨-, hpos, hburn⟩ := hx
    exact unmoved_step rfl (burnBalance_books h hpos hburn)
  | burnFrom spender src amount =>
    simp only [step, burnFrom, bind_eq_ok] at hx
    obtain ⟨s₁, hconsume, hburn⟩ := hx
    obtain ⟨hpos, -, rest, -, rfl⟩ := consumeAllowance_ok hconsume
    have h₁ : Books (setAllowance s src spender rest) := h.frame rfl rfl
    exact unmoved_step rfl (burnBalance_books h₁ hpos hburn)
  | setAdmin newAdmin =>
    simp only [step, setAdmin, bind_eq_ok, exists_unit_and, pure_eq_ok] at hx
    obtain ⟨-, -, rfl⟩ := hx
    exact unmoved_step rfl (h.frame rfl rfl)
  | expire owner spender =>
    cases hx
    exact unmoved_step rfl (h.frame rfl rfl)

/-! ## Every run -/

theorem books_start : Books {} where
  supply := rfl
  nonneg a := by
    unfold balanceOf
    rw [show ({} : State).balances.lookup a = none from AList.lookup_empty a]
    exact le_refl 0
  range := zero_le_i128Max

/-- **Supply conservation.**  Along a run the supply is the sum of the balances and transfers
are exact if and only if no transfer goes from an account to itself. -/
theorem supply_conserved_iff {tr : Trace} (h : Run (machine d) tr s) :
    (∀ e ∈ tr, Conserved e.after ∧ TransferExact e) ↔ ∀ e ∈ tr, Distinct e := by
  refine h.forall_event_iff (I := Books) ?_ ?_
  · rintro s rfl
    exact books_start
  · intro tr env call r s s' _ _ hI hx
    exact supply_step hI (exec_ok.mp hx)

/-- Contract 0; calls are signed by `signers`. -/
def callAt (t : Nat) (signers : List Address) : Env := ⟨⟨0, true⟩, t, 0, signers⟩

/-- Administrator 9 mints 100 for account 1. -/
def minted : List (Env × Call) :=
  [(callAt 0 [9], .initContract 9 ⟨"Stellara Token", "STA", 7⟩), (callAt 1 [9], .mint 1 100)]

/-- Account 1 sends itself 40 and then has 140, of a supply of 100. -/
theorem self_transfer_creates :
    ∃ (tr : Trace) (s : State), Run (machine ⟨0, true⟩) tr s ∧ s.totalSupply = 100 ∧
      balanceOf s 1 = 140 ∧ ¬ ∀ e ∈ tr, Conserved e.after ∧ TransferExact e := by
  obtain ⟨tr, s, hrun, hok⟩ := Machine.exists_run_of_replay (m := machine ⟨0, true⟩) rfl
    (minted ++ [(callAt 2 [1], .transfer 1 1 40)])
    (fun tr s => s.totalSupply = 100 ∧ balanceOf s 1 = 140 ∧
      tr.any fun e => e.after.totalSupply = 100 ∧ held e.after = 140)
    (by decide) (by decide) (by decide)
  obtain ⟨hsupply, hbalance, hany⟩ := of_decide_eq_true hok
  refine ⟨tr, s, hrun, hsupply, hbalance, fun hall => ?_⟩
  obtain ⟨e, he, hcheck⟩ := List.any_eq_true.mp hany
  obtain ⟨htotal, hheld⟩ := of_decide_eq_true hcheck
  have hcons := (hall e he).1.supply
  omega

/-- Transfers between accounts, one of them with an allowance, and a burn. -/
theorem supply_conserved_three :
    ∃ (tr : Trace) (s : State), Run (machine ⟨0, true⟩) tr s ∧ s.totalSupply = 95 ∧
      ∀ e ∈ tr, Conserved e.after ∧ TransferExact e := by
  obtain ⟨tr, s, hrun, hok⟩ := Machine.exists_run_of_replay (m := machine ⟨0, true⟩) rfl
    (minted ++ [(callAt 2 [1], .transfer 1 2 40), (callAt 3 [2], .approve 2 3 30 0),
      (callAt 4 [3], .transferFrom 3 2 1 20), (callAt 5 [2], .burn 2 5)])
    (fun tr s => s.totalSupply = 95 ∧
      tr.all fun e => e.call.moved.all fun m => decide (m.1 ≠ m.2.1))
    (by decide) (by decide) (by decide)
  obtain ⟨hsupply, hall⟩ := of_decide_eq_true hok
  refine ⟨tr, s, hrun, hsupply, (supply_conserved_iff hrun).mpr ?_⟩
  intro e he src dst amount hmoved
  have hcheck := List.all_eq_true.mp hall e he
  rw [hmoved] at hcheck
  exact of_decide_eq_true hcheck

end Stellara.Token
