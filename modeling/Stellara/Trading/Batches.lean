import Stellara.Trading.Meter

/-!
# Batches and single trades

`batch_trade` records a list of requests in one call.  It is compared with making the
requests one after another with `trade`, each from the state that the accepted ones have
left: without fees, and with the rate limit unused before every call (`unmetered`).

`BatchAgrees` says that the two do the same; `tradeEach_all` and `tradeEach_count` tell
what the single trades do, `batchOf_ok` and `batchOf_of` what the batch does.
-/

namespace Stellara.Trading

open Outcome

/-! ## The requests one after another -/

/-- The state with an unused rate limit. -/
def unmetered (s : State) : State := { s with userUsage := ∅, globalUsage := ∅ }

/-- A request as a trade without a fee. -/
def tradeRequest (env : Env) (trader feeToken feeRecipient : Address) (s : State)
    (order : TradeRequest) : Result (Nat × State) :=
  trade env (unmetered s) trader order.pair order.amount order.price order.isBuy feeToken 0
    feeRecipient

/-- Whether each request is accepted, and the state they leave; a request that is rejected
leaves the state it found. -/
def tradeEach (env : Env) (trader feeToken feeRecipient : Address) :
    List TradeRequest → State → List Bool × State
  | [], s => ([], s)
  | order :: orders, s =>
    match tradeRequest env trader feeToken feeRecipient s order with
    | .ok (_, s') =>
      let (accepted, t) := tradeEach env trader feeToken feeRecipient orders s'
      (true :: accepted, t)
    | .error _ =>
      let (accepted, t) := tradeEach env trader feeToken feeRecipient orders s
      (false :: accepted, t)

/-- The batch of the requests, without a fee. -/
def batchOf (env : Env) (trader feeToken feeRecipient : Address) (orders : List TradeRequest)
    (s : State) : Result (List Nat × State) :=
  batchTrade env (unmetered s) trader orders feeToken 0 feeRecipient

/-- **The batch agrees with the single trades**: it is accepted and leaves the same market and
the same breaker when each of them is accepted, and no rejected request leaves a trade. -/
structure BatchAgrees (env : Env) (trader feeToken feeRecipient : Address)
    (orders : List TradeRequest) (s : State) : Prop where
  accepted : (∀ b ∈ (tradeEach env trader feeToken feeRecipient orders s).1, b = true) →
    ∃ ns s', batchOf env trader feeToken feeRecipient orders s = .ok (ns, s') ∧
      s'.market = (tradeEach env trader feeToken feeRecipient orders s).2.market ∧
      s'.cb = (tradeEach env trader feeToken feeRecipient orders s).2.cb
  rejected : ¬ (∀ b ∈ (tradeEach env trader feeToken feeRecipient orders s).1, b = true) →
    ∀ ns s', batchOf env trader feeToken feeRecipient orders s = .ok (ns, s') →
      s'.market.trades = (tradeEach env trader feeToken feeRecipient orders s).2.market.trades

/-! ## The condition -/

/-- The sum of the amounts. -/
def requestedVolume (orders : List TradeRequest) : Int := (orders.map TradeRequest.amount).sum

theorem requestedVolume_cons (order : TradeRequest) (orders : List TradeRequest) :
    requestedVolume (order :: orders) = order.amount + requestedVolume orders := by
  unfold requestedVolume
  rw [List.map_cons, List.sum_cons]

theorem requestedVolume_nonneg {orders : List TradeRequest}
    (ha : ∀ order ∈ orders, 0 < order.amount) : 0 ≤ requestedVolume orders := by
  apply List.sum_nonneg
  intro x hx
  obtain ⟨order, ho, rfl⟩ := List.mem_map.mp hx
  exact (ha order ho).le

/-- The batch fails as a whole. -/
def TurnedDown (env : Env) (trader : Address) (orders : List TradeRequest) (s : State) : Prop :=
  trader ∉ env.signers ∨ (∃ order ∈ orders, order.amount ≤ 0) ∨ s.initialized = false ∨
    CircuitBreaker.isPaused s.cb "trade" = true ∨
    env.overflowChecks = true ∧ i128Max < s.market.stats.totalVolume + requestedVolume orders

/-- The breaker's period is over when it begins, so that every trade of this moment is counted
as the first of its period. -/
def EmptyPeriod (env : Env) (config : CircuitBreaker.Config) : Prop :=
  ∃ periodEnd, (env.u64 (env.timestamp + config.periodDuration) : Result Nat) = .ok periodEnd ∧
    periodEnd ≤ env.timestamp

/-- Counting the trades one after another would leave the breaker as it is: its period began
now and is empty, the trade it has counted last has the amount of the last request, and no
request reaches a threshold. -/
structure Repeating (env : Env) (orders : List TradeRequest) (s : State) : Prop where
  price : ∀ order ∈ orders, 0 < order.price
  counted : s.cb.state.currentPeriodStart = env.timestamp ∧ s.cb.state.currentPeriodTxCount = 1 ∧
    ∃ order, orders.getLast? = some order ∧ s.cb.state.currentPeriodVolume = order.amount
  config : ∃ config, s.cb.config = some config ∧ EmptyPeriod env config ∧
    (s.cb.state.pauseLevel = .none → ∀ order ∈ orders, order.amount < config.maxVolumePerPeriod ∧
      1 < config.maxTxCountPerPeriod)

/-! ## Rate limits that can be met -/

/-- The rate limits in force. -/
def ValidLimits (s : State) : Prop :=
  let cfg := readRateLimitConfig s
  cfg.windowSecs ≠ 0 ∧ cfg.userLimit ≠ 0 ∧ cfg.globalLimit ≠ 0 ∧ cfg.premiumUserLimit ≠ 0

/-- The limits in force stay what they are. -/
structure SameLimits (s s' : State) : Prop where
  initialized : s'.initialized = s.initialized
  rateLimit : s'.rateLimit = s.rateLimit

theorem SameLimits.valid {s s' : State} (h : SameLimits s s') (hv : ValidLimits s) :
    ValidLimits s' := by
  unfold ValidLimits readRateLimitConfig
  rw [h.rateLimit]
  exact hv

section Limits

variable {env : Env} {s s' : State} {addr : Address}

theorem breakerCall_limits {p : Symbol} {f : CircuitBreaker.State → CircuitBreaker.State}
    (h : breakerCall env s addr p f = .ok s') : SameLimits s s' := by
  rw [breakerCall_ok h]
  exact ⟨rfl, rfl⟩

theorem upgradeCall_limits {f : Governance.State → Governance.Result Governance.State}
    (h : upgradeCall env s addr f = .ok s') : SameLimits s s' := by
  obtain ⟨gov, rfl⟩ := upgradeCall_ok h
  exact ⟨rfl, rfl⟩

/-- **A call changes the limits** only to limits that can be met. -/
theorem exec_limits {call : Call} {r : Reply} (h : exec env call s = .ok (r, s')) :
    SameLimits s s' ∨ ValidLimits s' := by
  cases call with
  | init admin approvers executor cfg =>
    obtain ⟨-, gov, rfl⟩ := init_ok (done_ok.mp h).1
    exact .inr (by simp [ValidLimits, readRateLimitConfig])
  | trade trader pair amount price isBuy feeToken feeAmount feeRecipient =>
    obtain ⟨n, h, -⟩ := replyId_ok.mp h
    obtain ⟨-, -, -, -, -, _, _, cb, _, market, -, -, rfl⟩ := trade_ok h
    exact .inl ⟨rfl, rfl⟩
  | batchTrade trader orders feeToken feePerTrade feeRecipient =>
    simp only [exec, bind_eq_ok, pure_eq_ok, Prod.mk.injEq] at h
    obtain ⟨⟨ns, s₁⟩, h, -, rfl⟩ := h
    rcases (batchTrade_ok h).2 with ⟨-, rfl⟩ | ⟨-, -, -, -, _, _, _, market, -, rfl⟩
    · exact .inl ⟨rfl, rfl⟩
    · exact .inl ⟨rfl, rfl⟩
  | createLimitOrder trader pair isBuy price amount tif =>
    obtain ⟨n, h, -⟩ := replyId_ok.mp h
    obtain ⟨-, -, -, -, _, _, market, -, rfl⟩ := createLimitOrder_ok h
    exact .inl ⟨rfl, rfl⟩
  | cancelOrder trader orderId =>
    obtain ⟨h, -⟩ := done_ok.mp h
    obtain ⟨-, market, -, rfl⟩ := cancelOrder_ok h
    exact .inl ⟨rfl, rfl⟩
  | setRateLimitConfig admin cfg =>
    obtain ⟨hcfg, rfl⟩ := setRateLimitConfig_ok (done_ok.mp h).1
    exact .inr hcfg
  | setPremiumUser admin user isPremium =>
    obtain rfl := setPremiumUser_ok (done_ok.mp h).1
    exact .inl ⟨rfl, rfl⟩
  | setPauseLevel admin level => exact .inl (breakerCall_limits (done_ok.mp h).1)
  | pauseFunction admin funcName => exact .inl (breakerCall_limits (done_ok.mp h).1)
  | unpauseFunction admin funcName => exact .inl (breakerCall_limits (done_ok.mp h).1)
  | pause admin => exact .inl (breakerCall_limits (done_ok.mp h).1)
  | unpause admin => exact .inl (breakerCall_limits (done_ok.mp h).1)
  | acl admin c =>
    obtain ⟨gov, rfl⟩ := aclCall_ok (done_ok.mp h).1
    exact .inl ⟨rfl, rfl⟩
  | proposeUpgrade admin hash description approvers threshold delay =>
    obtain ⟨n, h, -⟩ := replyId_ok.mp h
    obtain ⟨gov, rfl⟩ := proposeUpgrade_ok h
    exact .inl ⟨rfl, rfl⟩
  | approveUpgrade pid approver => exact .inl (upgradeCall_limits (done_ok.mp h).1)
  | executeUpgrade pid executor => exact .inl (upgradeCall_limits (done_ok.mp h).1)
  | rejectUpgrade pid rejector => exact .inl (upgradeCall_limits (done_ok.mp h).1)
  | cancelUpgrade pid admin => exact .inl (upgradeCall_limits (done_ok.mp h).1)
  | token c =>
    simp only [exec, bind_eq_ok, pure_eq_ok, Prod.mk.injEq] at h
    obtain ⟨tokens, -, -, rfl⟩ := h
    exact .inl ⟨rfl, rfl⟩

end Limits

theorem validLimits_run {d : Deployment} {tr : Trace} {s : State} (h : Run (machine d) tr s) :
    s.initialized = true → ValidLimits s := by
  refine h.invariant (I := fun s => s.initialized = true → ValidLimits s) ?_ ?_
  · rintro s ⟨hi, -⟩ hi'
    rw [hi] at hi'
    cases hi'
  · intro env call r s s' _ hI hx hi'
    rcases exec_limits hx with hsame | hv
    · rw [hsame.initialized] at hi'
      exact hsame.valid (hI hi')
    · exact hv

/-- With the limits unused a call is within them. -/
theorem rateLimit_unmetered (env : Env) {s : State} (trader : Address) (hv : ValidLimits s) :
    ∃ s₁, checkAndConsumeTradeRateLimit env (unmetered s) trader = .ok s₁ := by
  obtain ⟨hw, hu, hg, hp⟩ := hv
  unfold checkAndConsumeTradeRateLimit
  have hcfg : readRateLimitConfig (unmetered s) = readRateLimitConfig s := rfl
  have huser : ∀ window, getUserWindowUsage (unmetered s) trader window = 0 := fun _ => rfl
  have hglobal : ∀ window, getGlobalWindowUsage (unmetered s) window = 0 := fun _ => rfl
  have hlimit : 0 < if isPremiumUser (unmetered s) trader then
      (readRateLimitConfig s).premiumUserLimit else (readRateLimitConfig s).userLimit := by
    split <;> omega
  simp only [hcfg, huser, hglobal]
  rw [require_pos _ ⟨hw, hu, hg, hp⟩, ok_bind, require_pos _ hlimit, ok_bind,
    require_pos _ (Nat.pos_of_ne_zero hg), ok_bind]
  exact ⟨_, rfl⟩

theorem ensureTradeable_unmetered (env : Env) {s : State} (trader : Address) (hv : ValidLimits s)
    (hi : s.initialized = true) (hpause : CircuitBreaker.isPaused s.cb "trade" = false) :
    ∃ userUsage globalUsage,
      ensureTradeable env (unmetered s) trader = .ok { s with userUsage, globalUsage } := by
  obtain ⟨s₁, hrate⟩ := rateLimit_unmetered env trader hv
  obtain ⟨userUsage, globalUsage, rfl⟩ := rateLimit_ok hrate
  refine ⟨userUsage, globalUsage, ?_⟩
  have hi : (unmetered s).initialized = true := hi
  have hpause : CircuitBreaker.isPaused (unmetered s).cb "trade" = false := hpause
  unfold ensureTradeable requireInitialized requireTradeNotPaused
  rw [require_pos _ hi, ok_bind, hrate, ok_bind, require_pos _ hpause]
  rfl

/-! ## One request -/

section Request

variable {env : Env} {trader feeToken feeRecipient : Address} {order : TradeRequest} {s s' : State}

/-- What an accepted request has passed, and what it leaves. -/
structure Accepted (env : Env) (trader : Address) (order : TradeRequest) (s s' : State) : Prop where
  auth : trader ∈ env.signers
  amount : 0 < order.amount
  price : 0 < order.price
  initialized : s.initialized = true
  unpaused : CircuitBreaker.isPaused s.cb "trade" = false
  cb : (CircuitBreaker.trackActivity env s.cb order.amount : Result _) = .ok s'.cb
  market : ∃ n, recordTrade env s.market trader order.pair order.amount order.price order.isBuy =
    .ok (n, s'.market)
  limits : SameLimits s s'

theorem collectFee_zero (s : State) (feeToken payer feeRecipient : Address) :
    collectFee s feeToken payer feeRecipient 0 = .ok s := rfl

theorem tradeRequest_ok {n : Nat}
    (h : tradeRequest env trader feeToken feeRecipient s order = .ok (n, s')) :
    Accepted env trader order s s' := by
  obtain ⟨hauth, ha, hp, hi, hpause, _, _, cb, _, market, htrack, hrec, rfl⟩ := trade_ok h
  exact ⟨hauth, ha, hp, hi, hpause, htrack, ⟨n, hrec⟩, ⟨rfl, rfl⟩⟩

/-- A request that passes the checks is accepted. -/
theorem tradeRequest_of {cb : CircuitBreaker.State} {market : Market} {n : Nat}
    (hv : ValidLimits s) (hauth : trader ∈ env.signers) (ha : 0 < order.amount)
    (hp : 0 < order.price) (hi : s.initialized = true)
    (hpause : CircuitBreaker.isPaused s.cb "trade" = false)
    (htrack : (CircuitBreaker.trackActivity env s.cb order.amount : Result _) = .ok cb)
    (hrec : recordTrade env s.market trader order.pair order.amount order.price order.isBuy =
      .ok (n, market)) :
    ∃ s', tradeRequest env trader feeToken feeRecipient s order = .ok (n, s') ∧ s'.cb = cb ∧
      s'.market = market := by
  obtain ⟨userUsage, globalUsage, hens⟩ := ensureTradeable_unmetered env trader hv hi hpause
  unfold tradeRequest trade Env.requireAuth
  rw [require_pos _ hauth, ok_bind, require_pos _ ha, ok_bind, require_pos _ hp, ok_bind, hens,
    ok_bind]
  dsimp only
  rw [htrack, ok_bind, collectFee_zero, ok_bind]
  dsimp only
  rw [hrec, ok_bind]
  exact ⟨_, rfl, rfl, rfl⟩

end Request

/-! ## All requests -/

/-- The breaker after counting every request. -/
def trackAll (env : Env) : List TradeRequest → CircuitBreaker.State → Result CircuitBreaker.State
  | [], cb => .ok cb
  | order :: orders, cb => do
    let cb ← CircuitBreaker.trackActivity env cb order.amount
    trackAll env orders cb

section Each

variable {env : Env} {trader feeToken feeRecipient : Address} {orders : List TradeRequest}

theorem recordTrades_cons {order : TradeRequest} {m m₁ m₂ : Market} {n : Nat} {ns : List Nat}
    (h₁ : recordTrade env m trader order.pair order.amount order.price order.isBuy = .ok (n, m₁))
    (h₂ : recordTrades env trader orders m₁ = .ok (ns, m₂)) :
    recordTrades env trader (order :: orders) m = .ok (n :: ns, m₂) := by
  simp only [recordTrades, h₁, ok_bind, h₂]
  rfl

/-- When all are accepted, they have been recorded like a batch and counted one by one. -/
theorem tradeEach_all : ∀ {orders : List TradeRequest} {s : State},
    (∀ b ∈ (tradeEach env trader feeToken feeRecipient orders s).1, b = true) →
    (∃ ns, recordTrades env trader orders s.market =
      .ok (ns, (tradeEach env trader feeToken feeRecipient orders s).2.market)) ∧
    trackAll env orders s.cb = .ok (tradeEach env trader feeToken feeRecipient orders s).2.cb ∧
    (∀ order ∈ orders, 0 < order.amount ∧ 0 < order.price) ∧
    (orders ≠ [] → trader ∈ env.signers ∧ s.initialized = true ∧
      CircuitBreaker.isPaused s.cb "trade" = false) := by
  intro orders
  induction orders with
  | nil =>
    intro s _
    exact ⟨⟨[], rfl⟩, rfl, by simp, fun h => absurd rfl h⟩
  | cons order orders ih =>
    intro s hall
    cases htrade : tradeRequest env trader feeToken feeRecipient s order with
    | error f =>
      simp only [tradeEach, htrade] at hall
      cases hall false List.mem_cons_self
    | ok p =>
      obtain ⟨n, s'⟩ := p
      simp only [tradeEach, htrade] at hall ⊢
      have hacc := tradeRequest_ok htrade
      obtain ⟨⟨ns, hns⟩, htrack, hpos, -⟩ := ih fun b hb => hall b (List.mem_cons_of_mem _ hb)
      obtain ⟨n', hrec⟩ := hacc.market
      refine ⟨⟨n' :: ns, ?_⟩, ?_, ?_, fun _ => ⟨hacc.auth, hacc.initialized, hacc.unpaused⟩⟩
      · exact recordTrades_cons hrec hns
      · rw [trackAll, hacc.cb, ok_bind]
        exact htrack
      · exact List.forall_mem_cons.mpr ⟨⟨hacc.amount, hacc.price⟩, hpos⟩

/-- Every accepted request adds one trade. -/
theorem tradeEach_count : ∀ {orders : List TradeRequest} {s : State}, Numbered s.market →
    (tradeEach env trader feeToken feeRecipient orders s).1.length = orders.length ∧
    Numbered (tradeEach env trader feeToken feeRecipient orders s).2.market ∧
    (tradeEach env trader feeToken feeRecipient orders s).2.market.tradeCount =
      s.market.tradeCount + (tradeEach env trader feeToken feeRecipient orders s).1.count true := by
  intro orders
  induction orders with
  | nil => intro s hn; exact ⟨rfl, hn, rfl⟩
  | cons order orders ih =>
    intro s hn
    cases htrade : tradeRequest env trader feeToken feeRecipient s order with
    | error f =>
      simp only [tradeEach, htrade]
      obtain ⟨hlen, hn', hcount⟩ := ih hn
      refine ⟨congrArg (· + 1) hlen, hn', ?_⟩
      rw [hcount, List.count_cons_of_ne (by decide)]
    | ok p =>
      obtain ⟨n, s'⟩ := p
      simp only [tradeEach, htrade]
      have hacc := tradeRequest_ok htrade
      obtain ⟨n', hrec⟩ := hacc.market
      obtain ⟨hlen, hn', hcount⟩ := ih ((numbered_invariant env).record hacc.amount hrec hn)
      obtain ⟨-, -, -, -, hone, -⟩ := recordTrade_ok hrec
      refine ⟨congrArg (· + 1) hlen, hn', ?_⟩
      rw [hcount, hone, List.count_cons_self]
      omega

end Each

/-! ## The batch -/

section Batch

variable {env : Env} {trader feeToken feeRecipient : Address} {orders : List TradeRequest}

/-- Without overflow checks every sum has a value. -/
theorem i128_unchecked {d : Deployment} (hc : d.overflowChecks = false) (x : Int) :
    ∃ y, (d.i128 x : Result Int) = .ok y := by
  unfold Deployment.i128 Checked.signed
  rw [hc]
  split
  · exact ⟨_, rfl⟩
  · exact ⟨_, rfl⟩

/-- Recording succeeds when the volume has room, or when nothing is checked. -/
theorem recordTrades_of : ∀ {orders : List TradeRequest} {m : Market},
    (∀ order ∈ orders, 0 < order.amount) →
    (env.overflowChecks = true → 0 ≤ m.stats.totalVolume ∧
      m.stats.totalVolume + requestedVolume orders ≤ i128Max) →
    ∃ ns m', recordTrades env trader orders m = .ok (ns, m') := by
  intro orders
  induction orders with
  | nil => intro m _ _; exact ⟨[], m, rfl⟩
  | cons order orders ih =>
    intro m ha hroom
    rw [List.forall_mem_cons] at ha
    have hrest := requestedVolume_nonneg ha.2
    have hsum := requestedVolume_cons order orders
    obtain ⟨v, hv, hexact⟩ : ∃ v, (env.i128 (m.stats.totalVolume + order.amount) : Result Int) =
        .ok v ∧ (env.overflowChecks = true → v = m.stats.totalVolume + order.amount) := by
      cases hc : env.overflowChecks with
      | false =>
        obtain ⟨v, hv⟩ := i128_unchecked hc (m.stats.totalVolume + order.amount)
        exact ⟨v, hv, fun h => by cases h⟩
      | true =>
        obtain ⟨h0, hle⟩ := hroom hc
        have hin : InI128 (m.stats.totalVolume + order.amount) := by
          have := ha.1
          exact inI128_iff.mpr ⟨by omega, by omega⟩
        exact ⟨_, i128_of_in _ hin, fun _ => rfl⟩
    have hrec : ∃ n m₁, recordTrade env m trader order.pair order.amount order.price order.isBuy =
        .ok (n, m₁) ∧ m₁.stats.totalVolume = v := by
      unfold recordTrade
      rw [hv]
      exact ⟨_, _, rfl, rfl⟩
    obtain ⟨n, m₁, hrec, hv₁⟩ := hrec
    obtain ⟨ns, m', hns⟩ := ih (m := m₁) ha.2 (by
      intro hc
      obtain ⟨h0, hle⟩ := hroom hc
      have := ha.1
      rw [hv₁, hexact hc]
      omega)
    exact ⟨n :: ns, m', recordTrades_cons hrec hns⟩

/-- With overflow checks the whole volume of a recorded batch has found room. -/
theorem recordTrades_room (hc : env.overflowChecks = true) :
    ∀ {orders : List TradeRequest} {m m' : Market} {ns : List Nat}, orders ≠ [] →
      recordTrades env trader orders m = .ok (ns, m') →
      m.stats.totalVolume + requestedVolume orders ≤ i128Max := by
  intro orders
  induction orders with
  | nil => intro m m' ns hne; exact absurd rfl hne
  | cons order orders ih =>
    intro m m' ns _ h
    simp only [recordTrades, bind_eq_ok, pure_eq_ok, Prod.mk.injEq] at h
    obtain ⟨⟨n, m₁⟩, hrec, ⟨ns₁, m₂⟩, hrest, -, -⟩ := h
    obtain ⟨-, v, hv, hstats, -⟩ := recordTrade_ok hrec
    have hexact : v = m.stats.totalVolume + order.amount := i128_checked hc hv
    have hin := (inI128_iff.mp (i128_inI128 hv)).2
    have hv₁ : m₁.stats.totalVolume = v := congrArg TradeStats.totalVolume hstats
    have hsum := requestedVolume_cons order orders
    rw [hsum]
    cases orders with
    | nil =>
      have hnil : requestedVolume [] = 0 := rfl
      omega
    | cons o os =>
      have hroom : m₁.stats.totalVolume + requestedVolume (o :: os) ≤ i128Max :=
        ih (List.cons_ne_nil o os) hrest
      omega

/-- What an accepted batch of requests has passed, and what it leaves. -/
theorem batchOf_ok {s s' : State} {ns : List Nat} (hne : orders ≠ [])
    (h : batchOf env trader feeToken feeRecipient orders s = .ok (ns, s')) :
    trader ∈ env.signers ∧ (∀ order ∈ orders, 0 < order.amount) ∧ s.initialized = true ∧
      CircuitBreaker.isPaused s.cb "trade" = false ∧
      recordTrades env trader orders s.market = .ok (ns, s'.market) := by
  obtain ⟨hauth, ⟨hnil, -⟩ | ⟨-, ha, hi, hpause, _, _, _, market, hrec, rfl⟩⟩ := batchTrade_ok h
  · exact absurd hnil hne
  · exact ⟨hauth, ha, hi, hpause, hrec⟩

/-- A batch that is not turned down is accepted. -/
theorem batchOf_of {s : State} {ns : List Nat} {m : Market} (hne : orders ≠ [])
    (hlen : orders.length ≤ maxBatchSize) (hv : ValidLimits s) (hauth : trader ∈ env.signers)
    (ha : ∀ order ∈ orders, 0 < order.amount) (hi : s.initialized = true)
    (hpause : CircuitBreaker.isPaused s.cb "trade" = false)
    (hrec : recordTrades env trader orders s.market = .ok (ns, m)) :
    ∃ s', batchOf env trader feeToken feeRecipient orders s = .ok (ns, s') ∧ s'.market = m ∧
      s'.cb = s.cb := by
  obtain ⟨userUsage, globalUsage, hens⟩ := ensureTradeable_unmetered env trader hv hi hpause
  have hfees : (env.i128 (0 * (orders.length : Int)) : Result Int) = .ok 0 := by
    rw [Int.zero_mul]
    exact i128_of_in _ (by decide)
  unfold batchOf batchTrade executeTradeBatch validateBatchSize Env.requireAuth
  rw [require_pos _ hauth, ok_bind, if_neg hne, require_pos _ hlen, ok_bind, require_pos _ ha,
    ok_bind, hens, ok_bind, hfees, ok_bind, collectFee_zero, ok_bind]
  dsimp only
  rw [hrec, ok_bind]
  exact ⟨_, rfl, rfl, rfl⟩

end Batch

end Stellara.Trading
