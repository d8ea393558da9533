import Stellara.Trading.Model

/-!
# Calls and the market

Most of the contract never touches the market.  `exec_market` says what a committed call
does to it: nothing, one trade, a batch of trades, a placed order or a cancelled one.
An invariant of the market is then kept by every call once those four keep it
(`market_invariant`).
-/

namespace Stellara.Trading

open Outcome

/-- What a call can do to the market. -/
inductive MarketStep (env : Env) : Market → Market → Prop
  | same {m : Market} : MarketStep env m m
  | trade {m m' : Market} {trader : Address} {pair : Symbol} {amount price : Int} {isBuy : Bool}
      {n : Nat} (ha : 0 < amount)
      (h : recordTrade env m trader pair amount price isBuy = .ok (n, m')) : MarketStep env m m'
  | batch {m m' : Market} {trader : Address} {orders : List TradeRequest} {ns : List Nat}
      (ha : ∀ order ∈ orders, 0 < order.amount)
      (h : recordTrades env trader orders m = .ok (ns, m')) : MarketStep env m m'
  | place {m m' : Market} {trader : Address} {pair : Symbol} {isBuy : Bool} {price amount : Int}
      {tif : TimeInForce} {n : Nat} (ha : 0 < amount) (hp : 0 < price)
      (h : placeOrder env m trader pair isBuy price amount tif = .ok (n, m')) :
      MarketStep env m m'
  | withdraw {m m' : Market} {trader : Address} {orderId : Nat}
      (h : withdrawOrder m trader orderId = .ok m') : MarketStep env m m'

/-- The market before `init` is empty. -/
def Fresh (s : State) : Prop := s.initialized = false → s.market = {}

/-! ## Calls that leave the market alone -/

structure SameMarket (s s' : State) : Prop where
  market : s'.market = s.market
  initialized : s'.initialized = s.initialized

theorem SameMarket.fresh {s s' : State} (h : SameMarket s s') (hf : Fresh s) : Fresh s' := by
  intro hi
  rw [h.initialized] at hi
  rw [h.market]
  exact hf hi

section Frames

variable {env : Env} {s s' : State} {addr : Address} {r : Reply}

theorem done_ok {x : Result State} : done x = .ok (r, s') ↔ x = .ok s' ∧ r = .done := answer_eq_ok

theorem replyId_ok {x : Result (Nat × State)} :
    replyId x = .ok (r, s') ↔ ∃ n, x = .ok (n, s') ∧ r = .id n := answerWith_eq_ok

theorem rateLimit_ok (h : checkAndConsumeTradeRateLimit env s addr = .ok s') :
    ∃ userUsage globalUsage, s' = { s with userUsage, globalUsage } := by
  simp only [checkAndConsumeTradeRateLimit, bind_eq_ok, require_eq_ok, exists_unit_and,
    pure_eq_ok] at h
  obtain ⟨-, -, -, rfl⟩ := h
  exact ⟨_, _, rfl⟩

theorem ensureTradeable_ok (h : ensureTradeable env s addr = .ok s') :
    s.initialized = true ∧ CircuitBreaker.isPaused s.cb "trade" = false ∧
      ∃ userUsage globalUsage, s' = { s with userUsage, globalUsage } := by
  simp only [ensureTradeable, requireInitialized, requireTradeNotPaused, bind_eq_ok,
    require_eq_ok, exists_unit_and, pure_eq_ok] at h
  obtain ⟨hi, s₁, hr, hp, rfl⟩ := h
  obtain ⟨userUsage, globalUsage, rfl⟩ := rateLimit_ok hr
  exact ⟨hi, hp, userUsage, globalUsage, rfl⟩

theorem collectFee_ok {payer dst : Address} {x : Int}
    (h : collectFee s addr payer dst x = .ok s') : ∃ tokens, s' = { s with tokens } := by
  simp only [collectFee, bind_eq_ok, pure_eq_ok] at h
  obtain ⟨tokens, -, rfl⟩ := h
  exact ⟨tokens, rfl⟩

theorem breakerCall_ok {p : Symbol} {f : CircuitBreaker.State → CircuitBreaker.State}
    (h : breakerCall env s addr p f = .ok s') : s' = { s with cb := f s.cb } := by
  simp only [breakerCall, bind_eq_ok, pure_eq_ok] at h
  obtain ⟨_, -, rfl⟩ := h
  rfl

theorem upgradeCall_ok {f : Governance.State → Governance.Result Governance.State}
    (h : upgradeCall env s addr f = .ok s') : ∃ gov, s' = { s with gov } := by
  simp only [upgradeCall, bind_eq_ok, pure_eq_ok] at h
  obtain ⟨_, -, _, -, gov, -, rfl⟩ := h
  exact ⟨gov, rfl⟩

theorem breakerCall_sameMarket {p : Symbol} {f : CircuitBreaker.State → CircuitBreaker.State}
    (h : breakerCall env s addr p f = .ok s') : SameMarket s s' := by
  rw [breakerCall_ok h]
  exact ⟨rfl, rfl⟩

theorem upgradeCall_sameMarket {f : Governance.State → Governance.Result Governance.State}
    (h : upgradeCall env s addr f = .ok s') : SameMarket s s' := by
  obtain ⟨gov, rfl⟩ := upgradeCall_ok h
  exact ⟨rfl, rfl⟩

end Frames

/-! ## Every call -/

section Administration

variable {env : Env} {s s' : State} {admin : Address}

/-- `init` keeps the trades and orders, and starts their counters again. -/
theorem init_ok {approvers : List Address} {executor : Address} {config : CircuitBreaker.Config}
    (h : init env s admin approvers executor config = .ok s') :
    s.initialized = false ∧ ∃ gov,
      s' = { s with
        initialized := true, version := contractVersion, rateLimit := some ⟨60, 5, 100, 20⟩
        premium := ∅, cb := CircuitBreaker.init env s.cb config, gov
        market := { s.market with stats := {}, tradeCount := 0, orderCount := 0 } } := by
  simp only [init, bind_eq_ok, require_eq_ok, exists_unit_and, pure_eq_ok] at h
  obtain ⟨hi, rfl⟩ := h
  exact ⟨hi, _, rfl⟩

theorem setRateLimitConfig_ok {cfg : RateLimitConfig}
    (h : setRateLimitConfig env s admin cfg = .ok s') :
    (cfg.windowSecs ≠ 0 ∧ cfg.userLimit ≠ 0 ∧ cfg.globalLimit ≠ 0 ∧ cfg.premiumUserLimit ≠ 0) ∧
      s' = { s with rateLimit := some cfg } := by
  simp only [setRateLimitConfig, bind_eq_ok, require_eq_ok, exists_unit_and, pure_eq_ok] at h
  exact ⟨h.2.1, h.2.2.symm⟩

theorem setPremiumUser_ok {user : Address} {isPremium : Bool}
    (h : setPremiumUser env s admin user isPremium = .ok s') :
    s' = { s with premium := s.premium.insert user isPremium } := by
  simp only [setPremiumUser, bind_eq_ok, exists_unit_and, pure_eq_ok] at h
  exact h.2.symm

theorem aclCall_ok {c : Acl.Call} (h : aclCall env s admin c = .ok s') :
    ∃ gov, s' = { s with gov } := by
  simp only [aclCall, bind_eq_ok, pure_eq_ok] at h
  obtain ⟨_, -, _, -, rfl⟩ := h
  exact ⟨_, rfl⟩

theorem proposeUpgrade_ok {newContractHash description : Symbol} {approvers : List Address}
    {approvalThreshold timelockDelay n : Nat}
    (h : proposeUpgrade env s admin newContractHash description approvers approvalThreshold
      timelockDelay = .ok (n, s')) : ∃ gov, s' = { s with gov } := by
  simp only [proposeUpgrade, bind_eq_ok, pure_eq_ok, Prod.mk.injEq] at h
  obtain ⟨_, -, _, -, _, -, -, rfl⟩ := h
  exact ⟨_, rfl⟩

end Administration

/-- What an accepted trade has passed, and the entries it writes. -/
theorem trade_ok {env : Env} {s s' : State} {trader : Address} {pair : Symbol}
    {amount price : Int} {isBuy : Bool} {feeToken feeRecipient : Address} {feeAmount : Int}
    {n : Nat}
    (h : trade env s trader pair amount price isBuy feeToken feeAmount feeRecipient = .ok (n, s')) :
    trader ∈ env.signers ∧ 0 < amount ∧ 0 < price ∧ s.initialized = true ∧
      CircuitBreaker.isPaused s.cb "trade" = false ∧
      ∃ userUsage globalUsage cb tokens market,
        (CircuitBreaker.trackActivity env s.cb amount : Result _) = .ok cb ∧
        recordTrade env s.market trader pair amount price isBuy = .ok (n, market) ∧
        s' = { s with userUsage, globalUsage, cb, tokens, market } := by
  simp only [trade, bind_eq_ok, require_eq_ok, requireAuth_eq_ok, exists_unit_and, pure_eq_ok,
    Prod.mk.injEq] at h
  obtain ⟨hauth, ha, hp, s₁, hens, cb, htrack, s₂, hfee, ⟨k, market⟩, hrec, rfl, rfl⟩ := h
  obtain ⟨hi, hpause, userUsage, globalUsage, rfl⟩ := ensureTradeable_ok hens
  obtain ⟨tokens, rfl⟩ := collectFee_ok hfee
  exact ⟨hauth, ha, hp, hi, hpause, userUsage, globalUsage, cb, tokens, market, htrack, hrec, rfl⟩

theorem createLimitOrder_ok {env : Env} {s s' : State} {trader : Address} {pair : Symbol}
    {isBuy : Bool} {price amount : Int} {tif : TimeInForce} {n : Nat}
    (h : createLimitOrder env s trader pair isBuy price amount tif = .ok (n, s')) :
    0 < amount ∧ 0 < price ∧ s.initialized = true ∧
      CircuitBreaker.isPaused s.cb "trade" = false ∧ ∃ userUsage globalUsage market,
        placeOrder env s.market trader pair isBuy price amount tif = .ok (n, market) ∧
        s' = { s with userUsage, globalUsage, market } := by
  simp only [createLimitOrder, requireInitialized, requireTradeNotPaused, bind_eq_ok,
    require_eq_ok, requireAuth_eq_ok, exists_unit_and, pure_eq_ok, Prod.mk.injEq] at h
  obtain ⟨-, hi, s₁, hr, hpause, ha, hp, ⟨k, market⟩, hplace, rfl, rfl⟩ := h
  obtain ⟨userUsage, globalUsage, rfl⟩ := rateLimit_ok hr
  exact ⟨ha, hp, hi, hpause, userUsage, globalUsage, market, hplace, rfl⟩

theorem cancelOrder_ok {env : Env} {s s' : State} {trader : Address} {orderId : Nat}
    (h : cancelOrder env s trader orderId = .ok s') :
    s.initialized = true ∧ ∃ market, withdrawOrder s.market trader orderId = .ok market ∧
      s' = { s with market } := by
  simp only [cancelOrder, requireInitialized, bind_eq_ok, require_eq_ok, requireAuth_eq_ok,
    exists_unit_and, pure_eq_ok] at h
  obtain ⟨-, hi, market, hw, rfl⟩ := h
  exact ⟨hi, market, hw, rfl⟩

theorem batchTrade_ok {env : Env} {s s' : State} {trader : Address} {orders : List TradeRequest}
    {feeToken feeRecipient : Address} {feePerTrade : Int} {ns : List Nat}
    (h : batchTrade env s trader orders feeToken feePerTrade feeRecipient = .ok (ns, s')) :
    trader ∈ env.signers ∧ (orders = [] ∧ s' = s ∨ orders ≠ [] ∧
      (∀ order ∈ orders, 0 < order.amount) ∧ s.initialized = true ∧
      CircuitBreaker.isPaused s.cb "trade" = false ∧ ∃ userUsage globalUsage tokens market,
        recordTrades env trader orders s.market = .ok (ns, market) ∧
        s' = { s with userUsage, globalUsage, tokens, market }) := by
  simp only [batchTrade, executeTradeBatch, bind_eq_ok, requireAuth_eq_ok, exists_unit_and] at h
  obtain ⟨hauth, h⟩ := h
  refine ⟨hauth, ?_⟩
  split at h
  · next hnil => cases h; exact .inl ⟨hnil, rfl⟩
  · next hne =>
    simp only [bind_eq_ok, require_eq_ok, exists_unit_and, pure_eq_ok, Prod.mk.injEq] at h
    obtain ⟨-, ha, s₁, hens, _, -, s₂, hfee, ⟨ms, market⟩, hrec, rfl, rfl⟩ := h
    obtain ⟨hi, hpause, userUsage, globalUsage, rfl⟩ := ensureTradeable_ok hens
    obtain ⟨tokens, rfl⟩ := collectFee_ok hfee
    exact .inr ⟨hne, ha, hi, hpause, userUsage, globalUsage, tokens, market, hrec, rfl⟩

/-- **What a committed call does to the market.** -/
theorem exec_market {env : Env} {call : Call} {s s' : State} {r : Reply} (hf : Fresh s)
    (h : exec env call s = .ok (r, s')) : MarketStep env s.market s'.market ∧ Fresh s' := by
  have hsame : SameMarket s s' → MarketStep env s.market s'.market ∧ Fresh s' := by
    intro hs
    refine ⟨?_, hs.fresh hf⟩
    rw [hs.market]
    exact .same
  have hstarted : ∀ {P : Prop}, s'.initialized = true → P → P ∧ Fresh s' := by
    intro P hi hp
    exact ⟨hp, fun hfalse => by rw [hi] at hfalse; cases hfalse⟩
  cases call with
  | init admin approvers executor cfg =>
    obtain ⟨hi, gov, rfl⟩ := init_ok (done_ok.mp h).1
    refine hstarted rfl ?_
    -- the counters that `init` resets are still zero
    have hm : { s.market with stats := {}, tradeCount := 0, orderCount := 0 } = s.market := by
      rw [hf hi]
    show MarketStep env s.market { s.market with stats := {}, tradeCount := 0, orderCount := 0 }
    rw [hm]
    exact .same
  | trade trader pair amount price isBuy feeToken feeAmount feeRecipient =>
    obtain ⟨n, h, -⟩ := replyId_ok.mp h
    obtain ⟨-, ha, -, hi, -, _, _, _, _, _, -, hrec, rfl⟩ := trade_ok h
    exact hstarted hi (.trade ha hrec)
  | batchTrade trader orders feeToken feePerTrade feeRecipient =>
    simp only [exec, bind_eq_ok, pure_eq_ok, Prod.mk.injEq] at h
    obtain ⟨⟨ns, s1⟩, h, -, rfl⟩ := h
    rcases (batchTrade_ok h).2 with ⟨-, rfl⟩ | ⟨-, ha, hi, -, _, _, _, _, hrec, rfl⟩
    · exact ⟨.same, hf⟩
    · exact hstarted hi (.batch ha hrec)
  | createLimitOrder trader pair isBuy price amount tif =>
    obtain ⟨n, h, -⟩ := replyId_ok.mp h
    obtain ⟨ha, hp, hi, -, _, _, _, hplace, rfl⟩ := createLimitOrder_ok h
    exact hstarted hi (.place ha hp hplace)
  | cancelOrder trader orderId =>
    obtain ⟨h, -⟩ := done_ok.mp h
    obtain ⟨hi, _, hw, rfl⟩ := cancelOrder_ok h
    exact hstarted hi (.withdraw hw)
  | setRateLimitConfig admin cfg =>
    obtain ⟨-, rfl⟩ := setRateLimitConfig_ok (done_ok.mp h).1
    exact hsame ⟨rfl, rfl⟩
  | setPremiumUser admin user isPremium =>
    obtain rfl := setPremiumUser_ok (done_ok.mp h).1
    exact hsame ⟨rfl, rfl⟩
  | setPauseLevel admin level => exact hsame (breakerCall_sameMarket (done_ok.mp h).1)
  | pauseFunction admin funcName => exact hsame (breakerCall_sameMarket (done_ok.mp h).1)
  | unpauseFunction admin funcName => exact hsame (breakerCall_sameMarket (done_ok.mp h).1)
  | pause admin => exact hsame (breakerCall_sameMarket (done_ok.mp h).1)
  | unpause admin => exact hsame (breakerCall_sameMarket (done_ok.mp h).1)
  | acl admin c =>
    obtain ⟨gov, rfl⟩ := aclCall_ok (done_ok.mp h).1
    exact hsame ⟨rfl, rfl⟩
  | proposeUpgrade admin hash description approvers threshold delay =>
    obtain ⟨n, h, -⟩ := replyId_ok.mp h
    obtain ⟨gov, rfl⟩ := proposeUpgrade_ok h
    exact hsame ⟨rfl, rfl⟩
  | approveUpgrade pid approver => exact hsame (upgradeCall_sameMarket (done_ok.mp h).1)
  | executeUpgrade pid executor => exact hsame (upgradeCall_sameMarket (done_ok.mp h).1)
  | rejectUpgrade pid rejector => exact hsame (upgradeCall_sameMarket (done_ok.mp h).1)
  | cancelUpgrade pid admin => exact hsame (upgradeCall_sameMarket (done_ok.mp h).1)
  | token c =>
    simp only [exec, bind_eq_ok, pure_eq_ok, Prod.mk.injEq] at h
    obtain ⟨tokens, -, -, rfl⟩ := h
    exact hsame ⟨rfl, rfl⟩

theorem fresh_run {d : Deployment} {tr : Trace} {s : State}
    (h : Run (machine d) tr s) : Fresh s := by
  refine h.invariant ?_ ?_
  · rintro s ⟨-, hm⟩ -
    exact hm
  · intro env call r s s' _ hf hx
    exact (exec_market hf hx).2

/-- **Market invariants** hold in every reachable state once the empty market has them and
every change of the market keeps them. -/
theorem market_invariant {d : Deployment} {tr : Trace} {s : State}
    {I : Market → Prop} (h : Run (machine d) tr s) (h0 : I {})
    (hstep : ∀ env m m', env.Of d → I m → MarketStep env m m' → I m') : I s.market := by
  refine (h.invariant (I := fun s => Fresh s ∧ I s.market) ?_ ?_).2
  · rintro s ⟨-, hm⟩
    exact ⟨fun _ => hm, by rw [hm]; exact h0⟩
  · rintro env call r s s' hv ⟨hf, hi⟩ hx
    obtain ⟨hstep', hf'⟩ := exec_market hf hx
    exact ⟨hf', hstep _ _ _ hv hi hstep'⟩

end Stellara.Trading
