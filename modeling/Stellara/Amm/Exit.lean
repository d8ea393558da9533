import Stellara.Amm.Growth
import Stellara.Amm.Liquidity

/-!
# Fees at exit (`contracts/amm/src/{lib, position}.rs`)

`remove_liquidity` credits the fees accrued to the position and pays none of them; they wait for
`collect_fees` (`collectable_kept`).  Should hold: they can be collected after every removal
(`FeesKept`).  It fails when nothing is left of the position: it is deleted with what it is owed,
and its id is never used again (`gone_step`).
-/

namespace Stellara.Amm

open Outcome

/-- What `collect_fees` pays its caller. -/
def collectable (d : Deployment) (s : State) (caller : Address) (positionId : Nat) :
    Result (Int × Int) := do
  requireInit s
  let position ← requirePosition s positionId
  require (position.owner = caller) (.err .unauthorized)
  let pool ← requirePool s position.poolKey
  let position ← accrued d s pool position
  pure (position.tokensOwedA, position.tokensOwedB)

/-- In one of the tokens; nothing where the call would fail. -/
def collects (d : Deployment) (s : State) (caller : Address) (positionId : Nat) (isA : Bool) : Int :=
  match collectable d s caller positionId with
  | .ok amounts => max (side isA amounts) 0
  | .error _ => 0

/-- What the liquidity is worth, with its share of the hedge reserve. -/
def removalDue (d : Deployment) (s : State) (positionId : Nat) (x : Int) : Result (Int × Int) := do
  let position ← requirePosition s positionId
  let pool ← requirePool s position.poolKey
  let (outA, outB) ← rangeAmounts d position.tickLower position.tickUpper x pool.sqrtPrice
  let (hedgeA, hedgeB) ← computeHedgeRelease d pool x position.liquidity
  pure (asI128 (outA + hedgeA), asI128 (outB + hedgeB))

/-- The fees that the owner could collect before the removal are paid by it, beyond what is due
for the liquidity, or can be collected in some later state, before a swap adds to them. -/
def FeesKept (d : Deployment) (e : Event Env Call Reply State) (tr : Trace) : Prop :=
  match e.call, e.ret with
  | .removeLiquidity caller positionId x _ _, .removed r =>
    ∃ due later s', removalDue d e.before positionId x = .ok due ∧
      Run (machine d) (later ++ e :: tr) s' ∧ (∀ e' ∈ later, e'.call.isSwap = false) ∧
      ∀ isA, collects d e.before caller positionId isA ≤
        side isA (r.amountA, r.amountB) - side isA due + collects d s' caller positionId isA
  | _, _ => True

/-- The removal leaves some of the position, or there are no fees to collect. -/
def ExitCall (d : Deployment) (e : Event Env Call Reply State) : Prop :=
  match e.call with
  | .removeLiquidity caller positionId x _ _ =>
    (∀ p ∈ readPosition e.before positionId, x < p.liquidity) ∨
      ∀ isA, collects d e.before caller positionId isA = 0
  | _ => True

instance (d : Deployment) (e : Event Env Call Reply State) : Decidable (ExitCall d e) := by
  induction e using Event.casesOn with
  | _ _ call => induction call using Call.casesOn <;> unfold ExitCall <;> infer_instance

section Collect

variable {d : Deployment} {env : Env} {s s' : State} {caller : Address} {positionId : Nat}

/-- `collect_fees` succeeds exactly when the caller has signed, there is something to collect and
the token contracts make the two payments. -/
theorem collectFees_iff {amounts : Int × Int} :
    (∃ s', collectFees env s caller positionId = .ok (amounts, s')) ↔ caller ∈ env.signers ∧
      collectable env.toDeployment s caller positionId = .ok amounts ∧
      ∃ p pool t₁ t₂, readPosition s positionId = some p ∧ readPool s p.poolKey = some pool ∧
        payIfPositive s.tokens pool.tokenA env.self caller amounts.1 = .ok t₁ ∧
        payIfPositive t₁ pool.tokenB env.self caller amounts.2 = .ok t₂ := by
  simp only [collectFees, collectable, accrued, requirePosition, requirePool, bind_eq_ok,
    require_eq_ok, requireAuth_eq_ok, exists_unit_and, ofOption_eq_ok, pure_eq_ok]
  constructor
  · rintro ⟨s', hs, hinit, p, hp, howner, pool, hpool, inside, hin, q, hacc, t₁, h₁, t₂, h₂, heq⟩
    obtain ⟨rfl, -⟩ := Prod.mk.inj heq
    exact ⟨hs, ⟨hinit, p, hp, howner, pool, hpool, q, ⟨inside, hin, hacc⟩, rfl⟩, p, pool, t₁, t₂, hp,
      hpool, h₁, h₂⟩
  · rintro ⟨hs, ⟨hinit, p, hp, howner, pool, hpool, q, ⟨inside, hin, hacc⟩, rfl⟩, p', pool', t₁, t₂,
      hp', hpool', h₁, h₂⟩
    obtain rfl : p = p' := Option.some.inj (hp.symm.trans hp')
    obtain rfl : pool = pool' := Option.some.inj (hpool.symm.trans hpool')
    exact ⟨_, hs, hinit, p, hp, howner, pool, hpool, inside, hin, q, hacc, t₁, h₁, t₂, h₂, rfl⟩

theorem collects_nonneg (isA : Bool) : 0 ≤ collects d s caller positionId isA := by
  unfold collects
  split
  · exact le_max_right _ _
  · exact le_refl 0

theorem collects_gone (h : readPosition s positionId = none) (isA : Bool) :
    collects d s caller positionId isA = 0 := by
  unfold collects
  split
  · next amounts hc =>
    simp only [collectable, requirePosition, bind_eq_ok, ofOption_eq_ok, h] at hc
    obtain ⟨-, -, p, hp, -⟩ := hc
    cases hp
  · rfl

/-- A position that was just accrued is owed what it was credited. -/
theorem accruePositionFees_settled (p : LpPosition) :
    accruePositionFees d p p.feeGrowthInsideALast p.feeGrowthInsideBLast = .ok p := by
  have hlevel : ∀ owed liquidity last, accrueOwed d owed liquidity last last = .ok owed := by
    intro owed liquidity last
    unfold accrueOwed
    rw [sub_self, i128_zero, ok_bind]
    rfl
  simp only [accruePositionFees, hlevel, ok_bind]
  rfl

end Collect

/-! ## A removal -/

section Removal

variable {env : Env} {s s' : State} {caller : Address} {positionId : Nat} {x minA minB : Int}
  {r : RemoveLiquidityResult}

/-- A removal pays what is due for the liquidity, and no fees. -/
theorem removeLiquidity_due
    (h : removeLiquidity env s caller positionId x minA minB = .ok (r, s')) :
    removalDue env.toDeployment s positionId x = .ok (r.amountA, r.amountB) := by
  obtain ⟨-, old, pool, insideA, insideB, position, outA, outB, hedgeA, hedgeB, pool₁, sumA, sumB,
    pool₂, t₁, t₂, owners, hold, -, -, hpool, -, -, hout, hhedge, -, hsumA, hsumB, -, -, -, rfl, -⟩ :=
    removeLiquidity_ok h
  simp only [removalDue, requirePosition, requirePool, bind_eq_ok, ofOption_eq_ok, pure_eq_ok]
  refine ⟨old, hold, pool, hpool, _, hout, _, hhedge, ?_⟩
  rw [i128_eq_asI128 hsumA, i128_eq_asI128 hsumB]

/-- **What is left of a position** can be collected after a removal as before it. -/
theorem collectable_kept (hw : Wf s)
    (h : removeLiquidity env s caller positionId x minA minB = .ok (r, s'))
    (hrest : ∀ p ∈ readPosition s positionId, x < p.liquidity) {amounts : Int × Int}
    (hc : collectable env.toDeployment s caller positionId = .ok amounts) :
    collectable env.toDeployment s' caller positionId = .ok amounts := by
  obtain ⟨-, old, pool, insideA, insideB, position, outA, outB, hedgeA, hedgeB, pool₁, sumA, sumB,
    pool₂, t₁, t₂, owners, hold, -, -, hpool, hin, hacc, -, -, hunlock, -, -, hde, -, -, -, rfl⟩ :=
    removeLiquidity_ok h
  have hid : old.id = positionId := (hw.position positionId old hold).1
  have hlt : x < old.liquidity := hrest old hold
  -- the call before found the same position and credited it the same fees
  simp only [collectable, accrued, requireInit, requirePosition, requirePool, bind_eq_ok,
    require_eq_ok, exists_unit_and, ofOption_eq_ok, pure_eq_ok] at hc ⊢
  obtain ⟨hinit, p, hp, howner, pool', hpool', q, ⟨inside, hin', hacc'⟩, rfl⟩ := hc
  obtain rfl : old = p := Option.some.inj (hold.symm.trans hp)
  obtain rfl : pool = pool' := Option.some.inj (hpool.symm.trans hpool')
  obtain rfl : (insideA, insideB) = inside := Except.ok.inj (hin.symm.trans hin')
  obtain rfl : position = q := Except.ok.inj (hacc.symm.trans hacc')
  obtain ⟨owedA, owedB, -, -, rfl⟩ := accruePositionFees_ok hacc
  -- the pool after has the price and the growths of before
  obtain ⟨ra, rb, -, -, rfl⟩ := unlockReserve_ok hunlock
  obtain ⟨-, htick, hA, hB⟩ := deactivate_level hde
  generalize hrestPos : ({ old with
    tokensOwedA := owedA, tokensOwedB := owedB, feeGrowthInsideALast := insideA
    feeGrowthInsideBLast := insideB, liquidity := old.liquidity - x } : LpPosition) = rest
  have hread : (restPositions s rest).lookup positionId = some rest := by
    subst hrestPos
    rw [lookup_restPositions, if_pos hid.symm, if_neg (by show old.liquidity - x ≠ 0; omega)]
  have hinside : feeGrowthInside env.toDeployment s old.poolKey pool₂ old.tickLower old.tickUpper =
      .ok (insideA, insideB) := by
    unfold feeGrowthInside at hin ⊢
    rw [htick, hA, hB]
    exact hin
  have hpool₂ : readPool { s with pools := s.pools.insert old.poolKey pool₂ } old.poolKey =
      some pool₂ := (readPool_of_insert rfl _).trans (if_pos rfl)
  subst hrestPos
  exact ⟨hinit, _, hread, howner, pool₂, hpool₂, _, ⟨(insideA, insideB), hinside,
    accruePositionFees_settled _⟩, rfl⟩

/-- A removal of all that is left deletes the position. -/
theorem removeLiquidity_gone (hw : Wf s) {p : LpPosition}
    (h : removeLiquidity env s caller positionId x minA minB = .ok (r, s'))
    (hp : readPosition s positionId = some p) (hall : p.liquidity ≤ x) :
    readPosition s' positionId = none ∧ positionId ≤ s'.positionCount := by
  obtain ⟨-, old, pool, insideA, insideB, position, outA, outB, hedgeA, hedgeB, pool₁, sumA, sumB,
    pool₂, t₁, t₂, owners, hold, -, hle, -, -, hacc, -, -, -, -, -, -, -, -, -, rfl⟩ :=
    removeLiquidity_ok h
  obtain rfl : p = old := Option.some.inj (hp.symm.trans hold)
  obtain ⟨hid, hcount, -⟩ := hw.position positionId p hp
  obtain ⟨owedA, owedB, -, -, rfl⟩ := accruePositionFees_ok hacc
  refine ⟨?_, hcount⟩
  show (restPositions s _).lookup positionId = none
  rw [lookup_restPositions, if_pos hid.symm, if_pos (by show p.liquidity - x = 0; omega)]

end Removal

theorem Wf.ne_of_gone {s : State} (h : Wf s) {id positionId : Nat} {p : LpPosition}
    (hp : readPosition s positionId = some p) (hgone : readPosition s id = none) : id ≠ p.id := by
  rintro rfl
  rw [(h.position positionId p hp).1, hp] at hgone
  cases hgone

/-- **A deleted position** does not return: an id is used once. -/
theorem gone_step {env : Env} {call : Call} {r : Reply} {s s' : State} {id : Nat} (hw : Wf s)
    (hx : exec env call s = .ok (r, s')) (hgone : readPosition s id = none)
    (hcount : id ≤ s.positionCount) : readPosition s' id = none ∧ id ≤ s'.positionCount := by
  cases call with
  | createPool caller key feeTier price =>
    obtain ⟨-, -, -, rfl⟩ := createPool_ok (done_ok.mp hx).1
    exact ⟨hgone, hcount⟩
  | addLiquidity caller key offer minA minB =>
    obtain ⟨a, hcall, rfl⟩ := reply_ok.mp hx
    obtain ⟨-, pool, deposit, t₁, t₂, pool₁, insideA, insideB, reserveA, reserveB, pool₂, owners,
      -, -, -, -, -, -, -, -, rfl, rfl⟩ := addLiquidity_ok hcall
    constructor
    · show (s.positions.insert (s.positionCount + 1) _).lookup id = none
      rw [Store.lookup_insert_eq, if_neg (by omega)]
      exact hgone
    · show id ≤ s.positionCount + 1
      omega
  | removeLiquidity caller positionId x minA minB =>
    obtain ⟨a, hcall, rfl⟩ := reply_ok.mp hx
    obtain ⟨-, old, pool, insideA, insideB, position, outA, outB, hedgeA, hedgeB, pool₁, sumA, sumB,
      pool₂, t₁, t₂, owners, hold, -, -, -, -, hacc, -, -, -, -, -, -, -, -, -, rfl⟩ :=
      removeLiquidity_ok hcall
    obtain ⟨owedA, owedB, -, -, rfl⟩ := accruePositionFees_ok hacc
    have hne : id ≠ old.id := hw.ne_of_gone hold hgone
    refine ⟨?_, hcount⟩
    show (restPositions s _).lookup id = none
    rw [lookup_restPositions, if_neg hne]
    exact hgone
  | collectFees caller positionId =>
    obtain ⟨a, hcall, rfl⟩ := reply_ok.mp hx
    obtain ⟨-, old, pool, insideA, insideB, position, t₁, t₂, hold, -, -, -, -, -, -, -, rfl⟩ :=
      collectFees_ok hcall
    have hne : id ≠ old.id := hw.ne_of_gone hold hgone
    refine ⟨?_, hcount⟩
    show (s.positions.insert old.id _).lookup id = none
    rw [Store.lookup_insert_eq, if_neg hne]
    exact hgone
  | swap caller tokenIn tokenOut amountIn minOut =>
    obtain ⟨a, hcall, rfl⟩ := reply_ok.mp hx
    obtain ⟨-, -, pool, step, growthA, growthB, s₁, volume, t₁, t₂, fees, samples, -, -, -, -, -, -, -,
      -, -, rfl⟩ := swap_ok hcall
    exact ⟨hgone, hcount⟩
  | updateDynamicFee key =>
    obtain ⟨n, hcall, rfl⟩ := reply_ok.mp hx
    obtain ⟨pool, -, -, rfl⟩ := updateDynamicFee_ok hcall
    exact ⟨hgone, hcount⟩
  | init | pause | unpause | proposeUpgrade | approveUpgrade | executeUpgrade | rejectUpgrade
  | cancelUpgrade | token =>
    have hi := exec_idle rfl hx
    unfold readPosition at hgone ⊢
    rw [hi.positions, hi.positionCount]
    exact ⟨hgone, hcount⟩

/-- **One removal** keeps the fees exactly when it leaves some of the position or there are none. -/
theorem feesKept_iff {d : Deployment} {tr : Trace} {env : Env} {call : Call} {r : Reply}
    {s s' : State} (h : Run (machine d) (⟨env, call, r, s, s'⟩ :: tr) s') :
    FeesKept d ⟨env, call, r, s, s'⟩ tr ↔ ExitCall d ⟨env, call, r, s, s'⟩ := by
  cases h with
  | commit hr hv hc hx =>
  cases call with
  | removeLiquidity caller positionId x minA minB =>
    obtain ⟨a, hcall, rfl⟩ := reply_ok.mp hx
    obtain ⟨rfl, -⟩ := id hv
    have hw := wf_run hr
    have hdue := removeLiquidity_due hcall
    constructor
    · rintro ⟨due, later, s'', hdue', hlater, -, hpaid⟩
      obtain rfl : (a.amountA, a.amountB) = due := Except.ok.inj (hdue.symm.trans hdue')
      by_cases hrest : ∀ p ∈ readPosition s positionId, x < p.liquidity
      · exact .inl hrest
      · right
        intro isA
        obtain ⟨p, hp, hall⟩ : ∃ p ∈ readPosition s positionId, p.liquidity ≤ x := by
          simpa using hrest
        have hgone := hlater.since (I := fun s => readPosition s positionId = none ∧
            positionId ≤ s.positionCount) (removeLiquidity_gone hw hcall hp hall)
          fun tr env call r s s' hr hI hx => gone_step (wf_run hr) hx hI.1 hI.2
        have hle := hpaid isA
        rw [sub_self, collects_gone hgone.1, add_zero] at hle
        exact le_antisymm hle (collects_nonneg isA)
    · intro hexit
      refine ⟨_, [], s', hdue, .commit hr hv hc hx, fun e he => (by cases he), ?_⟩
      intro isA
      rw [sub_self, zero_add]
      rcases hexit with hrest | hnone
      · show collects _ s _ _ _ ≤ _
        unfold collects
        split
        · next amounts hamounts =>
          rw [collectable_kept hw hcall hrest hamounts]
        · exact collects_nonneg isA
      · rw [hnone isA]
        exact collects_nonneg isA
  | addLiquidity | collectFees | swap | updateDynamicFee | proposeUpgrade =>
    obtain ⟨_, -, rfl⟩ := reply_ok.mp hx
    exact Iff.rfl
  | init | createPool | pause | unpause | approveUpgrade | executeUpgrade | rejectUpgrade
  | cancelUpgrade | token =>
    obtain ⟨-, rfl⟩ := done_ok.mp hx
    exact Iff.rfl

/-- **Fees at exit**: in a run no removal loses fees exactly when each leaves some of its position,
or finds no fees to collect. -/
theorem exit_fees_iff {d : Deployment} {tr : Trace} {s : State} (h : Run (machine d) tr s) :
    Throughout (FeesKept d) tr ↔ ∀ e ∈ tr, ExitCall d e := by
  rw [← throughout_const]
  refine h.throughout_iff (I := fun _ _ => True) (fun _ _ => trivial) ?_
  intro tr env call r s s' hr hv hc _ hx
  exact ⟨feesKept_iff (.commit hr hv hc hx), fun _ => trivial⟩

/-- User 1 removes half of a position that has earned fees. -/
theorem exit_fees_half :
    ∃ (tr : Trace) (s : State), Run (machine ⟨0, true⟩) tr s ∧
      collects ⟨0, true⟩ s 1 1 false = 299 ∧ Throughout (FeesKept ⟨0, true⟩) tr := by
  have hinit : (machine ⟨0, true⟩).init { tokens := .empty } := ⟨_, rfl⟩
  obtain ⟨tr, s, hrun, hok⟩ := Machine.exists_run_of_replay hinit
    (openPool ++ [deposit512, (callAt 3 [2], .swap 2 6 5 100000 0),
      (callAt 4 [1], .removeLiquidity 1 1 20000000 0 0)])
    (fun tr s => collects ⟨0, true⟩ s 1 1 false = 299 ∧ ∀ e ∈ tr, ExitCall ⟨0, true⟩ e)
    (by decide) (by decide) (by decide)
  obtain ⟨hfees, hall⟩ := of_decide_eq_true hok
  exact ⟨tr, s, hrun, hfees, (exit_fees_iff hrun).mpr hall⟩

/-- User 1 closes the position without collecting first, and 149 units of token B are lost. -/
theorem closing_forfeits_fees :
    ∃ (tr : Trace) (s : State), Run (machine ⟨0, true⟩) tr s ∧
      ¬ Throughout (FeesKept ⟨0, true⟩) tr := by
  have hinit : (machine ⟨0, true⟩).init { tokens := .empty } := ⟨_, rfl⟩
  obtain ⟨tr, s, hrun, hok⟩ := Machine.exists_run_of_replay hinit
    (openPool ++ [deposit512,
      (callAt 3 [2], .addLiquidity 2 poolOf56 ⟨-512, 512, 1000000, 1000000⟩ 0 0),
      (callAt 4 [2], .swap 2 6 5 100000 0), (callAt 5 [1], .removeLiquidity 1 1 39566579 0 0)])
    (fun tr _ => tr.head?.any fun e => collects ⟨0, true⟩ e.before 1 1 false = 149 ∧
      ¬ ExitCall ⟨0, true⟩ e)
    (by decide) (by decide) (by decide)
  refine ⟨tr, s, hrun, ?_⟩
  intro hkept
  cases hrun with
  | start => cases hok
  | commit hr hv hc hx =>
    have hexit := (feesKept_iff (.commit hr hv hc hx)).mp hkept.1
    exact (of_decide_eq_true hok).2 hexit

end Stellara.Amm
