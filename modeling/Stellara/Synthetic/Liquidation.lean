import Stellara.Synthetic.DebtBooks

/-!
# Which positions can be liquidated

`liquidate` compares the ratio that is stored in the position.  The stored ratio was
computed by the last `mint`, `burn` or `add_collateral` of the owner, with the price of that
time (`ratio_recorded`); `update_price` leaves it alone, and a new position has ratio 0.

* `liquidation_iff`: a position is liquidated exactly when it has debt and its present ratio
  is too low, if and only if the two prices agree on that, or it has no debt and its stored
  ratio is high enough.
-/

namespace Stellara.Synthetic

open Outcome

/-! ## Ratios -/

/-- The ratio of the position at the price, without overflow. -/
def exactRatio (collateral price minted : Int) : Int :=
  ((collateral * 1000000).tdiv price * 10000).tdiv minted

/-- The position has debt, and its ratio at the present price is below the liquidation ratio. -/
def Underwater (config : SyntheticConfig) (cdp : CDP) : Prop :=
  0 < cdp.mintedAmount ∧ config.oraclePrice ≠ 0 ∧
    exactRatio cdp.collateralAmount config.oraclePrice cdp.mintedAmount < config.liqCratio

/-- The oracle price that the call computed a ratio of the position with. -/
def priceUsed (e : Event Env Call Reply State) (key : Address × Symbol) : Option Int :=
  match e.call with
  | .mint owner asset _ | .burn owner asset _ | .addCollateral owner asset _ =>
    if key = (owner, asset) then (e.before.configs.lookup asset).map SyntheticConfig.oraclePrice
    else none
  | _ => none

/-- The oracle price when the owner last minted, burned or added collateral. -/
def recordedPrice : Trace → Address × Symbol → Option Int
  | [], _ => none
  | e :: tr, key => (priceUsed e key).or (recordedPrice tr key)

/-! ## What the stored ratio is -/

/-- A position with debt stores its ratio at the recorded price. -/
def Recorded (d : Deployment) (tr : Trace) (s : State) : Prop :=
  ∀ key cdp, s.cdps.lookup key = some cdp → 0 < cdp.mintedAmount →
    ∃ price, recordedPrice tr key = some price ∧
      cratio d cdp.collateralAmount price cdp.mintedAmount = .ok cdp.collateralRatio

/-- Calls that write no position and compute no ratio. -/
theorem Recorded.keep {d : Deployment} {tr : Trace} {s : State} {e : Event Env Call Reply State}
    (h : Recorded d tr s) (hcdps : e.after.cdps = s.cdps) (hprice : ∀ key, priceUsed e key = none) :
    Recorded d (e :: tr) e.after := by
  intro key cdp hcdp hpos
  rw [hcdps] at hcdp
  obtain ⟨price, hp, hratio⟩ := h key cdp hcdp hpos
  exact ⟨price, by rw [recordedPrice, hprice, Option.none_or, hp], hratio⟩

/-- Calls that write one position: only its ratio has to be looked at. -/
theorem Recorded.write {d : Deployment} {tr : Trace} {s : State} {e : Event Env Call Reply State}
    {key : Address × Symbol} {cdp' : CDP} (h : Recorded d tr s)
    (hcdps : e.after.cdps = s.cdps.insert key cdp')
    (hother : ∀ k, k ≠ key → priceUsed e k = none)
    (hnew : 0 < cdp'.mintedAmount → ∃ price, priceUsed e key = some price ∧
      cratio d cdp'.collateralAmount price cdp'.mintedAmount = .ok cdp'.collateralRatio) :
    Recorded d (e :: tr) e.after := by
  intro k cdp hcdp hpos
  rw [hcdps, Store.lookup_insert_eq] at hcdp
  by_cases hk : k = key
  · rw [if_pos hk] at hcdp
    cases hcdp
    obtain ⟨price, hp, hratio⟩ := hnew hpos
    exact ⟨price, by rw [recordedPrice, hk, hp, Option.some_or], hratio⟩
  · rw [if_neg hk] at hcdp
    obtain ⟨price, hp, hratio⟩ := h k cdp hcdp hpos
    exact ⟨price, by rw [recordedPrice, hother k hk, Option.none_or, hp], hratio⟩

theorem recorded_step {d : Deployment} {tr : Trace} {env : Env} {call : Call} {r : Reply}
    {s s' : State} (h : Recorded d tr s) (hv : (machine d).valid env call)
    (hx : (machine d).exec env call s = .ok (r, s')) :
    Recorded d (⟨env, call, r, s, s'⟩ :: tr) s' := by
  have hd : env.toDeployment = d := hv.1.1
  cases call with
  | initContract admin =>
    obtain rfl := initContract_ok (done_ok.mp hx).1
    exact h.keep rfl fun _ => rfl
  | registerAsset caller asset minCratio liqCratio liqPenalty fee collateralToken syntheticToken =>
    obtain rfl := registerAsset_ok (done_ok.mp hx).1
    exact h.keep rfl fun _ => rfl
  | updatePrice caller asset newPrice =>
    obtain ⟨config, -, rfl⟩ := updatePrice_ok (done_ok.mp hx).1
    exact h.keep rfl fun _ => rfl
  | openCdp owner asset amount =>
    obtain ⟨tokens, -, rfl⟩ := openCdp_ok (done_ok.mp hx).1
    exact h.write rfl (fun _ _ => rfl) fun hpos => absurd hpos (lt_irrefl 0)
  | mint owner asset amount =>
    obtain ⟨n, hcall, -⟩ := replyAmount_ok hx
    obtain ⟨config, cdp, ratio, total, tokens, -, hconfig, -, -, hratio, -, rfl⟩ := mint_ok hcall
    rw [hd] at hratio
    refine h.write rfl (fun k hk => if_neg hk) fun _ => ⟨config.oraclePrice, ?_, hratio⟩
    simp [priceUsed, hconfig]
  | burn owner asset amount =>
    obtain ⟨config, cdp, n, ratio, total, tokens, -, hconfig, -, -, -, hratio, -, rfl⟩ :=
      burn_ok (done_ok.mp hx).1
    rw [hd] at hratio
    refine h.write rfl (fun k hk => if_neg hk) fun hpos => ⟨config.oraclePrice, ?_, ?_⟩
    · simp [priceUsed, hconfig]
    · rw [ratioAfterBurn, if_pos hpos] at hratio
      exact hratio
  | addCollateral owner asset amount =>
    obtain ⟨config, cdp, n, ratio, tokens, -, hconfig, -, -, hratio, rfl⟩ :=
      addCollateral_ok (done_ok.mp hx).1
    rw [hd] at hratio
    refine h.write rfl (fun k hk => if_neg hk) fun hpos => ⟨config.oraclePrice, ?_, ?_⟩
    · simp [priceUsed, hconfig]
    · rw [ratioAfterAdd, if_pos hpos] at hratio
      exact hratio
  | liquidate liquidator owner asset =>
    obtain ⟨n, hcall, -⟩ := replyAmount_ok hx
    obtain ⟨config, cdp, total, tokens, -, -, -, rfl⟩ := liquidate_ok hcall
    exact h.write rfl (fun _ _ => rfl) fun hpos => absurd hpos (lt_irrefl 0)
  | closeCdp owner asset =>
    obtain ⟨n, hcall, -⟩ := replyAmount_ok hx
    obtain ⟨cdp, tokens, -, hle, rfl⟩ := closeCdp_ok hcall
    exact h.write rfl (fun _ _ => rfl) fun hpos => absurd hpos (not_lt.mpr hle)
  | token c =>
    obtain ⟨tokens, rfl⟩ := token_ok (done_ok.mp hx).1
    exact h.keep rfl fun _ => rfl
  | administer token =>
    cases hx
    exact h.keep rfl fun _ => rfl

/-- **The stored ratio** of a position with debt, in every reachable state. -/
theorem ratio_recorded {d : Deployment} {tr : Trace} {s : State} (h : Run (machine d) tr s) :
    Recorded d tr s := by
  refine h.invariant_trace ?_ ?_
  · rintro s ⟨-, -, hcdps⟩ key cdp hcdp
    rw [hcdps] at hcdp
    cases hcdp
  · intro tr env call r s s' hv _ hi hx
    exact recorded_step hi hv hx

/-! ## Liquidation -/

/-- **Liquidation.**  In every reachable state, for every position and every liquidator who
signs and can pay: that `liquidate` succeeds exactly when the position has debt and its present
ratio is below the liquidation ratio holds if and only if, with debt, the ratio at the recorded
price is below the liquidation ratio exactly when the present one is, and, without debt, the
stored ratio is not below it. -/
theorem liquidation_iff {d : Deployment} {tr : Trace} {s : State} (h : Run (machine d) tr s)
    {owner : Address} {asset : Symbol} {config : SyntheticConfig} {cdp : CDP}
    (hconfig : s.configs.lookup asset = some config)
    (hcdp : s.cdps.lookup (owner, asset) = some cdp) {env : Env} {liquidator : Address}
    (hsigns : liquidator ∈ env.signers)
    (hpays : ∃ r, seize env s liquidator owner asset config cdp = .ok r) :
    ((∃ r, liquidate env s liquidator owner asset = .ok r) ↔ Underwater config cdp) ↔
      (0 < cdp.mintedAmount → ∃ price ratio, recordedPrice tr (owner, asset) = some price ∧
        cratio d cdp.collateralAmount price cdp.mintedAmount = .ok ratio ∧
        (ratio < config.liqCratio ↔ config.oraclePrice ≠ 0 ∧
          exactRatio cdp.collateralAmount config.oraclePrice cdp.mintedAmount < config.liqCratio)) ∧
      (cdp.mintedAmount ≤ 0 → config.liqCratio ≤ cdp.collateralRatio) := by
  have hstored : (∃ r, liquidate env s liquidator owner asset = .ok r) ↔
      cdp.collateralRatio < config.liqCratio := by
    constructor
    · rintro ⟨r, hr⟩
      exact ((liquidate_ok_iff hconfig hcdp).mp hr).2.1
    · intro hlow
      obtain ⟨r, hr⟩ := hpays
      exact ⟨r, (liquidate_ok_iff hconfig hcdp).mpr ⟨hsigns, hlow, hr⟩⟩
  rw [hstored]
  unfold Underwater
  by_cases hpos : 0 < cdp.mintedAmount
  · obtain ⟨price, hprice, hratio⟩ := ratio_recorded h (owner, asset) cdp hcdp hpos
    simp only [hpos, true_and, forall_const, not_le.mpr hpos, IsEmpty.forall_iff, and_true]
    constructor
    · intro hiff
      exact ⟨price, _, hprice, hratio, hiff⟩
    · rintro ⟨price', ratio, hprice', hratio', hiff⟩
      have hp : price' = price := Option.some.inj (hprice'.symm.trans hprice)
      rw [hp, hratio] at hratio'
      obtain rfl := Except.ok.inj hratio'
      exact hiff
  · simp only [hpos, false_and, iff_false, not_lt, IsEmpty.forall_iff, true_and]
    exact ⟨fun hle _ => hle, fun hle => hle (not_lt.mp hpos)⟩

/-! ## After a change of the price -/

/-- User 1 has a position in sUSD and sends what it minted to user 2; then the price doubles,
so that the collateral is worth half of it. -/
def priceDoubled : List (Env × Call) :=
  openPosition ++ [(callAt 6 [1], .token (.transfer 20 1 2 1000)),
    (callAt 7 [9], .updatePrice 9 "sUSD" 2000000)]

/-- sUSD after the price has doubled. -/
def doubledConfig : SyntheticConfig := ⟨2000000, 15000, 12000, 1300, 50, 1000, true, 10, 20⟩

/-- User 2 could pay for the position of user 1, whose ratio is now 75%, and is turned away;
the position of user 3, which has no debt, it is given. -/
theorem wrong_position_liquidated :
    ∃ (tr : Trace) (s : State) (cdp : CDP), Run (machine ⟨0, true⟩) tr s ∧
      s.configs.lookup "sUSD" = some doubledConfig ∧ s.cdps.lookup (1, "sUSD") = some cdp ∧
      Underwater doubledConfig cdp ∧
      (∃ r, seize (callAt 9 [2]) s 2 1 "sUSD" doubledConfig cdp = .ok r) ∧
      liquidate (callAt 9 [2]) s 2 1 "sUSD" = .error (.err .notLiquidatable) ∧
      ∃ cdp', s.cdps.lookup (3, "sUSD") = some cdp' ∧ ¬ Underwater doubledConfig cdp' ∧
        ∃ r, liquidate (callAt 9 [2]) s 2 3 "sUSD" = .ok r := by
  have hinit : (machine ⟨0, true⟩).init fresh := ⟨rfl, rfl, rfl⟩
  obtain ⟨tr, s, hrun, hok⟩ := Machine.exists_run_of_replay hinit
    (priceDoubled ++ [(callAt 8 [], .token (.mint 10 3 500)), (callAt 8 [3], .openCdp 3 "sUSD" 500)])
    (fun _ s => s.configs.lookup "sUSD" = some doubledConfig ∧
      s.cdps.lookup (1, "sUSD") = some ⟨1, 1500, 1000, 15000, true⟩ ∧
      (seize (callAt 9 [2]) s 2 1 "sUSD" doubledConfig ⟨1, 1500, 1000, 15000, true⟩).toBool ∧
      failsWith (liquidate (callAt 9 [2]) s 2 1 "sUSD") (.err .notLiquidatable) ∧
      s.cdps.lookup (3, "sUSD") = some ⟨3, 500, 0, 0, true⟩ ∧
      (liquidate (callAt 9 [2]) s 2 3 "sUSD").toBool)
    (by decide) (by decide) (by decide)
  obtain ⟨hconfig, hcdp, hpays, hrefused, hempty, htaken⟩ := of_decide_eq_true hok
  refine ⟨tr, s, _, hrun, hconfig, hcdp, ⟨by decide, by decide, by decide⟩,
    exists_of_toBool hpays, eq_of_failsWith hrefused, _, hempty, ?_, exists_of_toBool htaken⟩
  rintro ⟨hdebt, -⟩
  exact absurd hdebt (by decide)

/-- Once the owner has added collateral at the new price, the position can be liquidated. -/
theorem liquidation_after_touch :
    ∃ (tr : Trace) (s : State) (cdp : CDP), Run (machine ⟨0, true⟩) tr s ∧
      s.cdps.lookup (1, "sUSD") = some cdp ∧ Underwater doubledConfig cdp ∧
      ∃ r, liquidate (callAt 9 [2]) s 2 1 "sUSD" = .ok r := by
  have hinit : (machine ⟨0, true⟩).init fresh := ⟨rfl, rfl, rfl⟩
  obtain ⟨tr, s, hrun, hok⟩ := Machine.exists_run_of_replay hinit
    (priceDoubled ++ [(callAt 8 [1], .addCollateral 1 "sUSD" 100)])
    (fun tr s => s.configs.lookup "sUSD" = some doubledConfig ∧
      s.cdps.lookup (1, "sUSD") = some ⟨1, 1600, 1000, 8000, true⟩ ∧
      recordedPrice tr (1, "sUSD") = some 2000000 ∧
      (seize (callAt 9 [2]) s 2 1 "sUSD" doubledConfig ⟨1, 1600, 1000, 8000, true⟩).toBool)
    (by decide) (by decide) (by decide)
  obtain ⟨hconfig, hcdp, hprice, hpays⟩ := of_decide_eq_true hok
  have hunder : Underwater doubledConfig ⟨1, 1600, 1000, 8000, true⟩ :=
    ⟨by decide, by decide, by decide⟩
  have hiff := liquidation_iff hrun hconfig hcdp (show 2 ∈ (callAt 9 [2]).signers by decide)
    (exists_of_toBool hpays)
  refine ⟨tr, s, _, hrun, hcdp, hunder, (hiff.mpr ⟨?_, ?_⟩).mpr hunder⟩
  · intro _
    exact ⟨2000000, 8000, hprice, by decide, by decide⟩
  · intro hdebt
    exact absurd hdebt (by decide)

end Stellara.Synthetic
