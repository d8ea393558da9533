import Stellara.Amm.Growth
import Stellara.Amm.Liquidity

/-!
# Adding liquidity and removing it at once (`contracts/amm/src/{lib, pool, il_hedge}.rs`)

Should hold: whoever adds liquidity is charged at most the amounts offered, and whoever removes
all of it with the next call is paid at most what was charged (`Fair`).  The two conversions
between amounts and liquidity round so that it would (`amountAFor_le`, `amountBFor_bounds`).

It fails through the hedge reserve: the reserve is recorded for the pool as a whole, and
`compute_hedge_release` releases it in proportion to the liquidity of the one position, so
removing all of any position is paid all of the reserve on top (`hedgeShare`).
-/

namespace Stellara.Amm

open Outcome

/-! ## From amounts to liquidity and back -/

section Rounding

variable {d : Deployment} {liquidity amount lower upper sqCur : Int}

theorem saturate_tdiv_mul_le {x y : Int} (hx : 0 ≤ x) (hy : 0 < y) :
    (Checked.saturate 128 x).tdiv y * y ≤ x := by
  rw [Int.tdiv_eq_ediv_of_nonneg (saturate_nonneg hx)]
  exact (Int.ediv_mul_le _ hy.ne').trans (saturate_le hx)

theorem saturate_tdiv_nonneg {x y : Int} (hx : 0 ≤ x) (hy : 0 < y) :
    0 ≤ (Checked.saturate 128 x).tdiv y :=
  Int.tdiv_nonneg (saturate_nonneg hx) hy.le

/-- **Token A** of the liquidity that an amount buys is at most the amount. -/
theorem amountAFor_le (hamount : 0 ≤ amount) (hcur : 0 < sqCur) (hL : 0 ≤ liquidity)
    (hle : liquidity ≤ liquidityFromA amount upper sqCur) :
    amountAFor liquidity upper sqCur ≤ amount := by
  unfold amountAFor
  split
  · next hlt =>
    unfold liquidityFromA at hle
    rw [if_pos hlt] at hle
    have hupper : 0 < upper := hcur.trans hlt
    have hgap : 0 < upper - sqCur := sub_pos.mpr hlt
    have hq : (0 : Int) < q64 := by decide
    rw [max_eq_left (show (1 : Int) ≤ upper by omega), max_eq_left (show (1 : Int) ≤ sqCur by omega)]
    dsimp only [saturatingMul] at hle ⊢
    -- up: from the amount to the liquidity
    have hup1 := saturate_tdiv_mul_le (mul_nonneg hamount hupper.le) hq
    have hup0 := saturate_tdiv_nonneg (mul_nonneg hamount hupper.le) hq
    generalize (Checked.saturate 128 (amount * upper)).tdiv q64 = bought at hle hup0 hup1
    have hup2 := saturate_tdiv_mul_le (mul_nonneg hup0 hcur.le) hgap
    have hup := (mul_le_mul_of_nonneg_right hle hgap.le).trans hup2
    -- down: from the liquidity to the charge
    have hdown1 := saturate_tdiv_mul_le (mul_nonneg hL hgap.le) hupper
    have hdown0 := saturate_tdiv_nonneg (mul_nonneg hL hgap.le) hupper
    generalize (Checked.saturate 128 (liquidity * (upper - sqCur))).tdiv upper = worth at hdown0 hdown1 ⊢
    have hdown2 := saturate_tdiv_mul_le (mul_nonneg hdown0 hq.le) hcur
    generalize (Checked.saturate 128 (worth * q64)).tdiv sqCur = charge at hdown2 ⊢
    refine le_of_mul_le_mul_right ?_ (mul_pos hcur hupper)
    calc charge * (sqCur * upper) = charge * sqCur * upper := (mul_assoc _ _ _).symm
      _ ≤ worth * q64 * upper := mul_le_mul_of_nonneg_right hdown2 hupper.le
      _ = worth * upper * q64 := mul_right_comm _ _ _
      _ ≤ bought * sqCur * q64 := mul_le_mul_of_nonneg_right (hdown1.trans hup) hq.le
      _ = bought * q64 * sqCur := mul_right_comm _ _ _
      _ ≤ amount * upper * sqCur := mul_le_mul_of_nonneg_right hup1 hcur.le
      _ = amount * (sqCur * upper) := by rw [mul_assoc, mul_comm upper]
  · exact hamount

/-- **Token B** of the liquidity that an amount buys: the product does not overflow, and it is at
most the amount. -/
theorem amountBFor_bounds {liqB charge : Int} (hbuy : liquidityFromB d amount lower sqCur = .ok liqB)
    (hL : 0 < liquidity) (hle : liquidity ≤ liqB)
    (hcharge : amountBFor d liquidity lower sqCur = .ok charge) :
    0 ≤ charge ∧ (0 ≤ amount → charge ≤ amount) := by
  by_cases hlt : lower < sqCur
  · simp only [liquidityFromB, if_pos hlt, bind_eq_ok, pure_eq_ok] at hbuy
    obtain ⟨scaled, hscaled, rfl⟩ := hbuy
    have hgap : 0 < sqCur - lower := sub_pos.mpr hlt
    rw [max_eq_left (show (1 : Int) ≤ sqCur - lower by omega)] at hle
    have hpos : 0 ≤ scaled := by
      by_contra hneg
      have hquot : scaled.tdiv (sqCur - lower) ≤ (0 : Int).tdiv (sqCur - lower) :=
        Int.tdiv_le_tdiv hgap (not_le.mp hneg).le
      rw [Int.zero_tdiv] at hquot
      omega
    rw [Int.tdiv_eq_ediv_of_nonneg hpos] at hle
    have hprod : liquidity * (sqCur - lower) ≤ scaled :=
      (mul_le_mul_of_nonneg_right hle hgap.le).trans (Int.ediv_mul_le _ hgap.ne')
    have hmax := (inI128_iff.mp (i128_inI128 hscaled)).2
    rw [amountBFor_eq d hL.le (hprod.trans hmax), if_pos hlt] at hcharge
    cases hcharge
    have hprod0 : 0 ≤ liquidity * (sqCur - lower) := mul_nonneg hL.le hgap.le
    have hq : (0 : Int) < q64 := by decide
    refine ⟨Int.tdiv_nonneg hprod0 hq.le, fun hamount => ?_⟩
    have hwrap : scaled ≤ amount * q64 := by
      rw [i128_eq_asI128 hscaled]
      exact asI128_le (mul_nonneg hamount hq.le)
    rw [Int.tdiv_eq_ediv_of_nonneg hprod0]
    exact Int.ediv_le_of_le_mul hq (hprod.trans hwrap)
  · simp only [amountBFor, if_neg hlt, Except.ok.injEq] at hcharge
    subst hcharge
    exact ⟨le_refl 0, id⟩

end Rounding

/-! ## What a deposit is charged -/

/-- The charge is not negative, and in a token that was offered it is at most the offer. -/
theorem quoteDeposit_charge {d : Deployment} {pool : PoolState} {offer : Offer} {deposit : Deposit}
    (h : quoteDeposit d pool offer = .ok deposit) (isA : Bool) :
    0 ≤ side isA (deposit.amountA, deposit.amountB) ∧
      (0 ≤ side isA (offer.amountDesiredA, offer.amountDesiredB) →
        side isA (deposit.amountA, deposit.amountB) ≤
          side isA (offer.amountDesiredA, offer.amountDesiredB)) := by
  have hpos := quoteDeposit_pos h
  simp only [quoteDeposit, liquidityFromAmounts, amountsForLiquidity, bind_eq_ok, require_eq_ok,
    exists_unit_and, pure_eq_ok] at h
  obtain ⟨lower, hl, upper, hu, liquidity, ⟨liqB, hB, hliq⟩, -, -, ⟨charge, hcharge, rfl⟩, rfl⟩ := h
  dsimp only at hpos ⊢
  have hcur : 0 < clampPrice lower upper pool.sqrtPrice := by
    have hlo := (tickToSqrtPrice_bounds hl).1
    have hup := (tickToSqrtPrice_bounds hu).1
    unfold clampPrice minSqrtPrice at *
    omega
  generalize clampPrice lower upper pool.sqrtPrice = sqCur at *
  cases isA with
  | true =>
    have hle : liquidity ≤ liquidityFromA offer.amountDesiredA upper sqCur := by omega
    exact ⟨amountAFor_nonneg hpos.le upper sqCur, fun hA => amountAFor_le hA hcur hpos.le hle⟩
  | false => exact amountBFor_bounds hB hpos (by omega) hcharge

/-! ## The round trip -/

/-- The deposit that the last call made and this one takes back as a whole, with the state in
which it was made. -/
def undone (tr : Trace) : Call → Option (AddLiquidityResult × State)
  | .removeLiquidity _ positionId liquidityToRemove _ _ =>
    match tr with
    | ⟨_, _, .added a, before, _⟩ :: _ =>
      if a.positionId = positionId ∧ a.liquidity = liquidityToRemove then some (a, before) else none
    | _ => none
  | _ => none

/-- The removal pays at most what the deposit was charged, and the contract holds no less than
before both. -/
structure PaysBack (d : Deployment) (a : AddLiquidityResult) (r : RemoveLiquidityResult)
    (before after : State) : Prop where
  amounts : ∀ isA, side isA (r.amountA, r.amountB) ≤ side isA (a.amountA, a.amountB)
  balances : ∀ token, before.tokens.balance token d.self ≤ after.tokens.balance token d.self

/-- A deposit is charged at most the amounts offered, and a deposit that is taken back at once is
not paid more than it was charged. -/
def Fair (d : Deployment) (e : Event Env Call Reply State) (tr : Trace) : Prop :=
  match e.call, e.ret with
  | .addLiquidity _ _ offer _ _, .added a =>
    ∀ isA, side isA (a.amountA, a.amountB) ≤ side isA (offer.amountDesiredA, offer.amountDesiredB)
  | call, .removed r => ∀ q ∈ undone tr call, PaysBack d q.1 r q.2 e.after
  | _, _ => True

theorem Fair.paysBack {d : Deployment} {e : Event Env Call Reply State} {tr : Trace}
    {r : RemoveLiquidityResult} {q : AddLiquidityResult × State} (h : Fair d e tr)
    (hret : e.ret = .removed r) (hq : undone tr e.call = some q) :
    PaysBack d q.1 r q.2 e.after := by
  unfold Fair at h
  rw [hret] at h
  generalize e.call = call at h hq
  cases call with
  | removeLiquidity => exact h q hq
  | _ => cases hq

/-- What `compute_hedge_release` releases of a reserve to the whole of a position. -/
def hedgeShare (reserve liquidity : Int) : Int := (asI128 (reserve * liquidity)).tdiv liquidity

/-- Removing all of the position would be paid nothing out of the hedge reserve of its pool: the
release is not positive, or overflows the amount. -/
def ReserveKept (d : Deployment) (s : State) (positionId : Nat) : Prop :=
  ∀ p ∈ readPosition s positionId, ∀ pool ∈ readPool s p.poolKey,
    ∀ worth ∈ (rangeAmounts d p.tickLower p.tickUpper p.liquidity pool.sqrtPrice).toOption, ∀ isA,
      ¬ (0 < hedgeShare (reserve isA pool) p.liquidity ∧
        side isA worth + hedgeShare (reserve isA pool) p.liquidity ≤ i128Max)

/-- The condition on a call: what is offered is not negative, and a deposit is taken back at once
only where that leaves the hedge reserve. -/
def FairCall (d : Deployment) (e : Event Env Call Reply State) (tr : Trace) : Prop :=
  match e.call with
  | .addLiquidity _ _ offer _ _ => 0 ≤ offer.amountDesiredA ∧ 0 ≤ offer.amountDesiredB
  | .removeLiquidity _ positionId _ _ _ =>
    (undone tr e.call).isSome = true → ReserveKept d e.before positionId
  | _ => True

instance (d : Deployment) (s : State) (positionId : Nat) :
    Decidable (ReserveKept d s positionId) := by
  unfold ReserveKept; infer_instance

instance (d : Deployment) (e : Event Env Call Reply State) (tr : Trace) :
    Decidable (FairCall d e tr) := by
  induction e using Event.casesOn with
  | _ _ call => induction call using Call.casesOn <;> unfold FairCall <;> infer_instance

section Release

variable {d : Deployment} {pool : PoolState} {liquidity : Int}

theorem computeHedgeRelease_whole {hedgeA hedgeB : Int} (hL : 0 < liquidity)
    (h : computeHedgeRelease d pool liquidity liquidity = .ok (hedgeA, hedgeB)) (isA : Bool) :
    side isA (hedgeA, hedgeB) = hedgeShare (reserve isA pool) liquidity := by
  simp only [computeHedgeRelease, if_neg hL.ne', bind_eq_ok, pure_eq_ok] at h
  obtain ⟨scaledA, hA, scaledB, hB, heq⟩ := h
  obtain ⟨rfl, rfl⟩ := Prod.mk.inj heq
  rw [i128_eq_asI128 hA, i128_eq_asI128 hB, max_eq_left (show (1 : Int) ≤ liquidity by omega)]
  cases isA <;> rfl

theorem rangeAmounts_inI128 {tickLower tickUpper sqrtPrice : Int} {amounts : Int × Int}
    (h : rangeAmounts d tickLower tickUpper liquidity sqrtPrice = .ok amounts) (isA : Bool) :
    InI128 (side isA amounts) := by
  obtain ⟨lower, upper, -, -, hamounts⟩ := rangeAmounts_ok h
  have hin := amountsForLiquidity_inI128 ((hamounts liquidity).symm.trans h)
  cases isA with
  | true => exact hin.1
  | false => exact hin.2

theorem hedgeShare_inI128 (hL : 0 < liquidity) (reserve : Int) :
    InI128 (hedgeShare reserve liquidity) :=
  tdiv_inI128 (asI128_inI128 _) hL

/-- A payment is more than the worth exactly when a share is added to it without overflow. -/
theorem sum_le_iff {worth share sum : Int} (hworth0 : 0 ≤ worth) (hworth : InI128 worth)
    (hshare : InI128 share) (h : (d.i128 (worth + share) : Result Int) = .ok sum) :
    sum ≤ worth ↔ ¬ (0 < share ∧ worth + share ≤ i128Max) := by
  rw [inI128_iff] at hworth hshare
  rcases le_or_gt (worth + share) i128Max with hfits | hover
  · rw [i128_exact h (inI128_iff.mpr ⟨by omega, hfits⟩)]
    omega
  · have hsum : sum < 0 := by
      unfold i128Max at *
      rcases i128_sum_cases h (by omega) (by omega) with ⟨hin, -⟩ | ⟨-, rfl⟩
      · have hin := (inI128_iff.mp hin).2
        unfold i128Max at hin
        omega
      · omega
    omega

end Release

section Steps

variable {env : Env} {s s' : State} {caller : Address} {minA minB : Int}

/-- Only `add_liquidity` answers with a deposit. -/
theorem exec_added {call : Call} {a : AddLiquidityResult}
    (h : exec env call s = .ok (.added a, s')) : ∃ caller key offer minA minB,
      call = .addLiquidity caller key offer minA minB ∧
      addLiquidity env s caller key offer minA minB = .ok (a, s') := by
  cases call with
  | addLiquidity caller key offer minA minB =>
    obtain ⟨a', hcall, heq⟩ := reply_ok.mp h
    cases heq
    exact ⟨caller, key, offer, minA, minB, rfl, hcall⟩
  | removeLiquidity | collectFees | swap | updateDynamicFee | proposeUpgrade =>
    obtain ⟨_, -, heq⟩ := reply_ok.mp h
    cases heq
  | init | createPool | pause | unpause | approveUpgrade | executeUpgrade | rejectUpgrade
  | cancelUpgrade | token =>
    obtain ⟨-, heq⟩ := done_ok.mp h
    cases heq

/-- A new position is worth what was charged for it, which is not negative. -/
theorem addLiquidity_worth {key : PoolKey} {offer : Offer} {a : AddLiquidityResult}
    (h : addLiquidity env s caller key offer minA minB = .ok (a, s')) : ∃ p pool,
      readPosition s' a.positionId = some p ∧ p.poolKey = key ∧ p.liquidity = a.liquidity ∧
      readPool s' key = some pool ∧
      rangeAmounts env.toDeployment p.tickLower p.tickUpper p.liquidity pool.sqrtPrice =
        .ok (a.amountA, a.amountB) ∧ 0 < p.liquidity ∧ ∀ isA, 0 ≤ side isA (a.amountA, a.amountB) := by
  obtain ⟨-, pool, deposit, t₁, t₂, pool₁, insideA, insideB, reserveA, reserveB, pool₂, owners, -, hq,
    -, -, hact, -, -, hlock, rfl, rfl⟩ := addLiquidity_ok h
  have hprice : pool₂.sqrtPrice = pool.sqrtPrice := by
    obtain ⟨ra, rb, -, -, rfl⟩ := lockReserve_ok hlock
    exact (activate_level hact).1
  refine ⟨newPosition env s caller key offer deposit.liquidity insideA insideB, pool₂, ?_, rfl, rfl,
    ?_, ?_, quoteDeposit_pos hq, fun isA => (quoteDeposit_charge hq isA).1⟩
  · exact (Store.lookup_insert_eq _ _ _ _).trans (if_pos rfl)
  · exact (readPool_of_insert rfl key).trans (if_pos rfl)
  · rw [hprice]
    exact quoteDeposit_amounts hq

/-- A call that removes all of a position pays its worth and its share of the reserve. -/
theorem removeLiquidity_whole {positionId : Nat} {p : LpPosition} {pool : PoolState}
    {r : RemoveLiquidityResult} {worth : Int × Int}
    (h : removeLiquidity env s caller positionId p.liquidity minA minB = .ok (r, s'))
    (hp : readPosition s positionId = some p) (hpool : readPool s p.poolKey = some pool)
    (hworth : rangeAmounts env.toDeployment p.tickLower p.tickUpper p.liquidity pool.sqrtPrice =
      .ok worth) (isA : Bool) :
    (env.toDeployment.i128 (side isA worth + hedgeShare (reserve isA pool) p.liquidity) : Result Int) =
      .ok (side isA (r.amountA, r.amountB)) := by
  obtain ⟨-, old, pool', insideA, insideB, position, outA, outB, hedgeA, hedgeB, pool₁, sumA, sumB,
    pool₂, t₁, t₂, owners, hold, hL, -, hpool', -, -, hout, hrel, -, hsumA, hsumB, -, -, -, rfl, -⟩ :=
    removeLiquidity_ok h
  obtain rfl : p = old := Option.some.inj (hp.symm.trans hold)
  obtain rfl : pool = pool' := Option.some.inj (hpool.symm.trans hpool')
  obtain rfl : worth = (outA, outB) := Except.ok.inj (hworth.symm.trans hout)
  rw [← computeHedgeRelease_whole hL hrel isA]
  cases isA with
  | true => exact hsumA
  | false => exact hsumB

theorem undone_eq_some {tr : Trace} {positionId : Nat} {x : Int} {a : AddLiquidityResult}
    {before : State}
    (h : undone tr (.removeLiquidity caller positionId x minA minB) = some (a, before)) :
    ∃ env after tr' call, tr = ⟨env, call, .added a, before, after⟩ :: tr' ∧
      a.positionId = positionId ∧ a.liquidity = x := by
  unfold undone at h
  dsimp only at h
  split at h
  · split at h
    · next hwhole =>
      cases h
      exact ⟨_, _, _, _, rfl, hwhole⟩
    · cases h
  · cases h

/-- A deposit and a removal that pays no more leave the balances of the contract no lower. -/
theorem balances_kept {d : Deployment} {env₀ : Env} {s₀ : State} {caller₀ : Address} {key : PoolKey}
    {offer : Offer} {minA₀ minB₀ x : Int} {a : AddLiquidityResult} {r : RemoveLiquidityResult}
    {p : LpPosition} (hw₀ : Wf s₀) (hw : Wf s) (hv₀ : env₀.Of d) (hv : env.Of d)
    (hadd : addLiquidity env₀ s₀ caller₀ key offer minA₀ minB₀ = .ok (a, s))
    (hrem : removeLiquidity env s caller a.positionId x minA minB = .ok (r, s'))
    (hp : readPosition s a.positionId = some p) (hkey : p.poolKey = key)
    (hle : ∀ isA, side isA (r.amountA, r.amountB) ≤ side isA (a.amountA, a.amountB))
    (token : Address) : s₀.tokens.balance token d.self ≤ s'.tokens.balance token d.self := by
  have hadded : exec env₀ (.addLiquidity caller₀ key offer minA₀ minB₀) s₀ = .ok (.added a, s) :=
    reply_ok.mpr ⟨a, hadd, rfl⟩
  have hremoved : exec env (.removeLiquidity caller a.positionId x minA minB) s =
      .ok (.removed r, s') := reply_ok.mpr ⟨r, hrem, rfl⟩
  have hmoved : moved ⟨env, .removeLiquidity caller a.positionId x minA minB, .removed r, s, s'⟩ =
      some (key, -max r.amountA 0, -max r.amountB 0) := by
    show (readPosition s a.positionId).map _ = _
    rw [hp, ← hkey]
    rfl
  have hin := balance_moved hw₀ hv₀ (by simp) hadded token
  have hout := balance_moved hw hv (by simp) hremoved token
  rw [received_of_moved rfl] at hin
  rw [received_of_moved hmoved] at hout
  have hA : r.amountA ≤ a.amountA := hle true
  have hB : r.amountB ≤ a.amountB := hle false
  rw [hout, hin]
  split <;> split <;> omega

/-- **A deposit that is taken back at once** is paid back fairly exactly when the pool keeps its
hedge reserve. -/
theorem paysBack_iff {d : Deployment} {tr : Trace} {positionId : Nat} {x : Int} {before : State}
    {a : AddLiquidityResult} {r : RemoveLiquidityResult} (hr : Run (machine d) tr s)
    (hv : env.Of d) (hx : removeLiquidity env s caller positionId x minA minB = .ok (r, s'))
    (hq : undone tr (.removeLiquidity caller positionId x minA minB) = some (a, before)) :
    PaysBack d a r before s' ↔ ReserveKept d s positionId := by
  obtain ⟨env₀, after, tr', call₀, rfl, rfl, rfl⟩ := undone_eq_some hq
  have hw := wf_run hr
  cases hr with
  | commit hr₀ hv₀ hc₀ he =>
    obtain ⟨caller₀, key, offer, minA₀, minB₀, rfl, hadd⟩ := exec_added he
    obtain ⟨p, pool, hp, hkey, hL, hpool, hworth, hpos, h0⟩ := addLiquidity_worth hadd
    rw [← hkey] at hpool
    rw [hv₀.1] at hworth
    have hpaid := removeLiquidity_whole (hL ▸ hx) hp hpool (hv.1 ▸ hworth)
    have hle : ∀ isA, side isA (r.amountA, r.amountB) ≤ side isA (a.amountA, a.amountB) ↔
        ¬ (0 < hedgeShare (reserve isA pool) p.liquidity ∧ side isA (a.amountA, a.amountB) +
          hedgeShare (reserve isA pool) p.liquidity ≤ i128Max) := fun isA =>
      sum_le_iff (h0 isA) (rangeAmounts_inI128 hworth isA) (hedgeShare_inI128 hpos _) (hpaid isA)
    have hkept : ReserveKept d s a.positionId ↔
        ∀ isA, side isA (r.amountA, r.amountB) ≤ side isA (a.amountA, a.amountB) := by
      unfold ReserveKept
      rw [hp]
      simp only [Option.mem_some_iff, forall_eq', hpool, hworth, Except.toOption, hle]
    rw [hkept]
    refine ⟨PaysBack.amounts, fun hamounts => ⟨hamounts, ?_⟩⟩
    exact balances_kept (wf_run hr₀) hw hv₀ hv hadd hx hp hkey hamounts

end Steps

/-- **Round trips**: in a run every deposit is charged at most the amounts offered, and every
deposit taken back at once is paid at most its charge, exactly when no offer is negative and the
pool records no reserve for a removal to release. -/
theorem round_trips_iff {d : Deployment} {tr : Trace} {s : State} (h : Run (machine d) tr s) :
    Throughout (Fair d) tr ↔ Throughout (FairCall d) tr := by
  refine h.throughout_iff (I := fun _ _ => True) (fun _ _ => trivial) ?_
  intro tr env call r s s' hr hv _ _ hx
  refine ⟨?_, fun _ => trivial⟩
  cases call with
  | addLiquidity caller key offer minA minB =>
    obtain ⟨a, hcall, rfl⟩ := reply_ok.mp hx
    obtain ⟨-, pool, deposit, t₁, t₂, pool₁, insideA, insideB, reserveA, reserveB, pool₂, owners, -, hq,
      -, -, -, -, -, -, rfl, -⟩ := addLiquidity_ok hcall
    have hcharge := quoteDeposit_charge hq
    constructor
    · intro hfair
      exact ⟨(hcharge true).1.trans (hfair true), (hcharge false).1.trans (hfair false)⟩
    · rintro ⟨hA, hB⟩ isA
      cases isA with
      | true => exact (hcharge true).2 hA
      | false => exact (hcharge false).2 hB
  | removeLiquidity caller positionId x minA minB =>
    obtain ⟨a, hcall, rfl⟩ := reply_ok.mp hx
    have hpays : ∀ q, undone tr (.removeLiquidity caller positionId x minA minB) = some q →
        (PaysBack d q.1 a q.2 s' ↔ ReserveKept d s positionId) :=
      fun q hq => paysBack_iff hr hv hcall hq
    show (∀ q ∈ undone tr _, PaysBack d q.1 a q.2 s') ↔ _
    simp only [FairCall]
    cases hq : undone tr (.removeLiquidity caller positionId x minA minB) with
    | none => simp
    | some q => simp [hpays q hq]
  | collectFees | swap | updateDynamicFee | proposeUpgrade =>
    obtain ⟨_, -, rfl⟩ := reply_ok.mp hx
    exact Iff.rfl
  | init | createPool | pause | unpause | approveUpgrade | executeUpgrade | rejectUpgrade
  | cancelUpgrade | token =>
    obtain ⟨-, rfl⟩ := done_ok.mp hx
    exact Iff.rfl

/-- A deposit around the price locks no reserve and is taken back at once. -/
theorem round_trips_at_price :
    ∃ (tr : Trace) (s : State), Run (machine ⟨0, true⟩) tr s ∧
      (tr.head?.bind fun e => undone tr.tail e.call).isSome = true ∧
      Throughout (Fair ⟨0, true⟩) tr := by
  have hinit : (machine ⟨0, true⟩).init { tokens := .empty } := ⟨_, rfl⟩
  obtain ⟨tr, s, hrun, hok⟩ := Machine.exists_run_of_replay hinit
    (openPool ++ [deposit512, (callAt 3 [1], .removeLiquidity 1 1 39566579 0 0)])
    (fun tr _ => (tr.head?.bind fun e => undone tr.tail e.call).isSome = true ∧
      Throughout (FairCall ⟨0, true⟩) tr)
    (by decide) (by decide) (by decide)
  obtain ⟨hsome, hall⟩ := of_decide_eq_true hok
  exact ⟨tr, s, hrun, hsome, (round_trips_iff hrun).mpr hall⟩

/-- User 2 deposits far above the price, which records a reserve, and takes the deposit back with
the next call: 1049998 units of token A for 999999, the rest out of the deposit of user 1. -/
theorem reserve_paid_from_others :
    ∃ (tr : Trace) (s : State), Run (machine ⟨0, true⟩) tr s ∧
      ¬ Throughout (Fair ⟨0, true⟩) tr := by
  have hinit : (machine ⟨0, true⟩).init { tokens := .empty } := ⟨_, rfl⟩
  obtain ⟨tr, s, hrun, hok⟩ := Machine.exists_run_of_replay hinit
    (openPool ++ [deposit512,
      (callAt 3 [2], .addLiquidity 2 poolOf56 ⟨7680, 8192, 1000000, 0⟩ 0 0),
      (callAt 4 [2], .removeLiquidity 2 2 58088375 0 0)])
    (fun tr _ => (tr.head?.bind fun e => (undone tr.tail e.call).map fun q =>
        (e.ret, q.1.amountA)) = some (.removed ⟨1049998, 0, 49999, 0⟩, 999999))
    (by decide) (by decide) (by decide)
  refine ⟨tr, s, hrun, ?_⟩
  intro hfair
  obtain ⟨e, he, hok⟩ := Option.bind_eq_some_iff.mp (of_decide_eq_true hok)
  obtain ⟨⟨a, before⟩, hq, heq⟩ := Option.map_eq_some_iff.mp hok
  obtain ⟨hret, hcharge⟩ := Prod.mk.inj heq
  obtain ⟨tr', rfl⟩ := List.head?_eq_some_iff.mp he
  have hpaid : PaysBack ⟨0, true⟩ a ⟨1049998, 0, 49999, 0⟩ before e.after :=
    Fair.paysBack hfair.1 hret hq
  have hle : (1049998 : Int) ≤ a.amountA := hpaid.amounts true
  have hcharge : a.amountA = 999999 := hcharge
  omega

end Stellara.Amm
