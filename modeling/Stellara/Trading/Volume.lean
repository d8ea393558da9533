import Stellara.Trading.Batches
import Stellara.Trading.Offered

/-!
# Room in the volume

The volume counter is an `i128` that is never reset, a fill adds its amount twice, and the
availability test of a fill-or-kill order adds up what the book offers.  None of the three
sums is checked before it is made.

`Headroom δ` says how much room is left for calls of amounts up to `δ`.  In every reachable
state that has it, no such call is harmed by a sum out of range (`no_lockup`); orders of any
size and trades up to the maximum are accepted all the same, so that not every reachable
state has it (`volume_locks_up`).
-/

namespace Stellara.Trading

open Outcome

/-! ## Small calls and what may not happen to them -/

/-- A trade, a batch or a limit order of positive amounts and prices that asks for `δ` at most. -/
def Small (δ : Int) : Call → Prop
  | .trade _ _ amount price _ _ _ _ => 0 < amount ∧ 0 < price ∧ amount ≤ δ
  | .batchTrade _ orders _ _ _ =>
    (∀ order ∈ orders, 0 < order.amount ∧ 0 < order.price) ∧ requestedVolume orders ≤ δ
  | .createLimitOrder _ _ _ price amount _ => 0 < amount ∧ 0 < price ∧ amount ≤ δ
  | _ => False

/-- The fees of a batch, which have nothing to do with its volume, are out of range. -/
def FeesOverflow : Call → Prop
  | .batchTrade _ orders _ feePerTrade _ => ¬ InI128 (feePerTrade * orders.length)
  | _ => False

/-- A fill-or-kill order asks for more than is offered. -/
def Unfillable (env : Env) (m : Market) : Call → Prop
  | .createLimitOrder trader pair isBuy price amount tif => tif.isFok = true ∧
      offered m (newOrder env (m.orderCount + 1) trader pair isBuy price amount tif) < amount
  | _ => False

/-- **No sum harms the call**: it does not fail because a volume is out of range, it is not
refused for a lack of offers that is none, and the volume counted is the volume traded. -/
structure Unharmed (env : Env) (call : Call) (s : State) : Prop where
  fails : exec env call s = .error (.panic "i128 overflow") → FeesOverflow call
  fills : exec env call s = .error (.err .orderWouldNotFullyFill) → Unfillable env s.market call
  counts : ∀ r s', exec env call s = .ok (r, s') →
    s'.market.stats.totalVolume = tradedVolume s'.market

/-- **Room for amounts up to `δ`**: the amounts of all trades leave room for a trade and for both
sides of any fills, and no order brings the sum of what is offered out of range while it is
below `δ`. -/
structure Headroom (δ : Int) (m : Market) : Prop where
  trades : tradedVolume m + δ ≤ i128Max
  fills : ∀ incoming : LimitOrder, tradedVolume m + 2 * min δ (offered m incoming) ≤ i128Max
  sums : ∀ (incoming : LimitOrder) (ids₁ : List Nat) (id : Nat) (ids₂ : List Nat),
    readOrderBook m incoming.pair incoming.oppositeIsBuy = ids₁ ++ id :: ids₂ →
    (ids₁.map (offerOf m incoming)).sum < δ →
    (ids₁.map (offerOf m incoming)).sum + offerOf m incoming id ≤ i128Max

/-- Room that is there whatever the book looks like. -/
theorem Headroom.of_bounds {δ : Int} {m : Market} (h0 : 0 ≤ δ)
    (hvolume : tradedVolume m + 2 * δ ≤ i128Max)
    (horders : ∀ id order, readOrder m id = some order → order.remaining + δ ≤ i128Max + 1) :
    Headroom δ m := by
  have hnonneg := tradedVolume_nonneg m
  refine ⟨by omega, fun incoming => by omega, ?_⟩
  intro incoming ids₁ id ids₂ _ hlt
  have hoffer : offerOf m incoming id + δ ≤ i128Max + 1 := by
    unfold offerOf
    split
    · next order hr =>
      have := horders id order hr
      split <;> omega
    · omega
  omega

/-! ## The breaker's counter -/

/-- The breaker counts no more than has been traded, as long as that is in range. -/
def PeriodWithin (s : State) : Prop :=
  s.initialized = true → tradedVolume s.market ≤ i128Max →
    0 ≤ s.cb.state.currentPeriodVolume ∧ s.cb.state.currentPeriodVolume ≤ tradedVolume s.market

section Period

variable {env : Env} {call : Call} {s s' : State} {r : Reply}

/-- What a call does to the breaker's volume. -/
theorem exec_period (h : exec env call s = .ok (r, s')) :
    s'.cb.state.currentPeriodVolume = 0 ∨
    (∃ amount trader pair price isBuy n, 0 < amount ∧ s.initialized = true ∧
      (CircuitBreaker.trackActivity env s.cb amount : Result _) = .ok s'.cb ∧
      recordTrade env s.market trader pair amount price isBuy = .ok (n, s'.market)) ∨
    s'.initialized = s.initialized ∧
      s'.cb.state.currentPeriodVolume = s.cb.state.currentPeriodVolume := by
  cases call with
  | trade trader pair amount price isBuy feeToken feeAmount feeRecipient =>
    obtain ⟨n, h, -⟩ := replyId_ok.mp h
    obtain ⟨-, ha, -, hi, -, _, _, cb, _, market, htrack, hrec, rfl⟩ := trade_ok h
    exact .inr (.inl ⟨amount, trader, pair, price, isBuy, n, ha, hi, htrack, hrec⟩)
  | batchTrade trader orders feeToken feePerTrade feeRecipient =>
    simp only [exec, bind_eq_ok, pure_eq_ok, Prod.mk.injEq] at h
    obtain ⟨⟨ns, s₁⟩, h, -, rfl⟩ := h
    rcases (batchTrade_ok h).2 with ⟨-, rfl⟩ | ⟨-, -, -, -, _, _, _, market, -, rfl⟩
    · exact .inr (.inr ⟨rfl, rfl⟩)
    · exact .inr (.inr ⟨rfl, rfl⟩)
  | createLimitOrder trader pair isBuy price amount tif =>
    obtain ⟨n, h, -⟩ := replyId_ok.mp h
    obtain ⟨-, -, -, -, _, _, market, -, rfl⟩ := createLimitOrder_ok h
    exact .inr (.inr ⟨rfl, rfl⟩)
  | _ =>
    rcases seen_cases (by trivial) h with
      ⟨config, -, -, -, hcb, -⟩ | ⟨_, _, _, _, _, _, _, _, _, hcall, -⟩ | hq
    · left
      rw [hcb]
      rfl
    · cases hcall
    · exact .inr (.inr ⟨hq.initialized, congrArg Meter.volume (hq.meter ⟨0, 0, 0⟩)⟩)

/-- The volume traded never shrinks. -/
theorem tradedVolume_mono (hf : Fresh s) (hn : Numbered s.market)
    (h : exec env call s = .ok (r, s')) : tradedVolume s.market ≤ tradedVolume s'.market := by
  have hkept : TradeInvariant env fun m => Numbered m ∧ tradedVolume s.market ≤ tradedVolume m := by
    refine ⟨?_, ?_⟩
    · rintro m m' hs ⟨hn, hle⟩
      rw [hs.tradedVolume]
      exact ⟨(numbered_invariant env).same hs hn, hle⟩
    · rintro m m' trader pair amount price isBuy n ha hrec ⟨hn, hle⟩
      have := tradedVolume_record hn ha hrec
      exact ⟨(numbered_invariant env).record ha hrec hn, by omega⟩
  exact (hkept.step (exec_market hf h).1 ⟨hn, le_rfl⟩).2

theorem PeriodWithin.step (hp : PeriodWithin s) (hf : Fresh s) (hn : Numbered s.market)
    (h : exec env call s = .ok (r, s')) : PeriodWithin s' := by
  intro hi' hle
  have hmono := tradedVolume_mono hf hn h
  have hnonneg := tradedVolume_nonneg s'.market
  rcases exec_period h with hzero | ⟨amount, _, _, _, _, _, ha, hi, htrack, hrec⟩ | ⟨hi, hvol⟩
  · omega
  · obtain ⟨h0, hwithin⟩ := hp hi (by omega)
    have hvolume := tradedVolume_record hn ha hrec
    obtain ⟨config, periodEnd, ht⟩ := CircuitBreaker.trackActivity_ok htrack
    have hrolled : 0 ≤ (CircuitBreaker.rolledOver env periodEnd s.cb.state).currentPeriodVolume ∧
        (CircuitBreaker.rolledOver env periodEnd s.cb.state).currentPeriodVolume ≤
          s.cb.state.currentPeriodVolume := by
      unfold CircuitBreaker.rolledOver
      split
      · exact ⟨le_rfl, h0⟩
      · exact ⟨h0, le_rfl⟩
    have hsum := i128_exact ht.sum (inI128_iff.mpr ⟨by omega, by omega⟩)
    omega
  · rw [hi] at hi'
    have := hp hi' (by omega)
    omega

end Period

theorem periodWithin_run {d : Deployment} {tr : Trace} {s : State} (h : Run (machine d) tr s) :
    PeriodWithin s := by
  induction h with
  | start h0 =>
    intro hi
    rw [h0.1] at hi
    cases hi
  | commit h _ _ hx ih => exact ih.step (fresh_run h) (volumeCounted_run h).numbered hx

/-! ## Faults of sums -/

/-- The faults of a call that a sum out of range can cause. -/
def SumFault (e : Fault TradeError) : Prop :=
  e = .panic "i128 overflow" ∨ e = .err .orderWouldNotFullyFill

theorem SumFault.other {e e' : Fault TradeError} (he : SumFault e)
    (h₁ : e' ≠ .panic "i128 overflow") (h₂ : e' ≠ .err .orderWouldNotFullyFill) : e' ≠ e := by
  rcases he with rfl | rfl
  · exact h₁
  · exact h₂

section Faults

variable {env : Env} {s : State} {e : Fault TradeError}

theorem requireAuth_avoids (he : SumFault e) (addr : Address) :
    Avoids (env.requireAuth addr : Result Unit) e :=
  avoids_require (he.other (by decide) (by decide))

theorem rateLimit_avoids (he : SumFault e) (trader : Address) :
    Avoids (checkAndConsumeTradeRateLimit env s trader) e := by
  unfold checkAndConsumeTradeRateLimit
  refine .bind (avoids_require (he.other (by decide) (by decide))) fun _ _ => ?_
  refine .bind (avoids_require (he.other (by decide) (by decide))) fun _ _ => ?_
  exact .bind (avoids_require (he.other (by decide) (by decide))) fun _ _ => avoids_pure _

theorem ensureTradeable_avoids (he : SumFault e) (trader : Address) :
    Avoids (ensureTradeable env s trader) e := by
  unfold ensureTradeable
  refine .bind (avoids_require (he.other (by decide) (by decide))) fun _ _ => ?_
  refine .bind (rateLimit_avoids he trader) fun _ _ => ?_
  exact .bind (avoids_require (he.other (by decide) (by decide))) fun _ _ => avoids_pure _

theorem collectFee_avoids (he : SumFault e) (token payer feeRecipient : Address) (amount : Int) :
    Avoids (collectFee s token payer feeRecipient amount) e := by
  refine .bind (avoids_mapError ?_) fun _ _ => avoids_pure _
  intro e' hfee
  unfold FeeManager.collectFee at hfee
  split at hfee
  · obtain rfl := Except.error.inj hfee
    exact he.other (by decide) (by decide)
  split at hfee
  · cases hfee
  · unfold Tokens.transfer ofOption at hfee
    split at hfee
    · cases hfee
    · obtain rfl := Except.error.inj hfee
      exact he.other (by decide) (by decide)

theorem trackActivity_avoids {cb : CircuitBreaker.State} {amount : Int} (he : SumFault e)
    (h0 : 0 ≤ cb.state.currentPeriodVolume) (ha : 0 < amount)
    (hle : cb.state.currentPeriodVolume + amount ≤ i128Max) :
    Avoids (CircuitBreaker.trackActivity env cb amount : Result _) e := by
  unfold CircuitBreaker.trackActivity CircuitBreaker.resetPeriod
  refine .bind (avoids_ofOption (he.other (by decide) (by decide))) fun config _ => ?_
  refine .bind ?_ fun st hst => ?_
  · refine .bind (avoids_ofOption (he.other (by decide) (by decide))) fun _ _ => ?_
    split
    · exact avoids_pure _
    · exact avoids_pure _
  · have hin : InI128 (st.currentPeriodVolume + amount) := by
      simp only [bind_eq_ok] at hst
      obtain ⟨periodEnd, -, hst⟩ := hst
      split at hst
      · rw [← pure_eq_ok.mp hst]
        exact inI128_iff.mpr ⟨by show -2 ^ 127 ≤ 0 + amount; omega, by show 0 + amount ≤ _; omega⟩
      · rw [← pure_eq_ok.mp hst]
        exact inI128_iff.mpr ⟨by omega, hle⟩
    unfold Env.i128
    rw [i128_of_in _ hin, ok_bind]
    dsimp only
    split
    · exact avoids_pure _
    · exact avoids_pure _

end Faults

/-! ## Small calls with room -/

theorem tradedVolume_batch {env : Env} {trader : Address} {orders : List TradeRequest} :
    ∀ {m m' : Market} {ns : List Nat}, Numbered m → (∀ order ∈ orders, 0 < order.amount) →
      recordTrades env trader orders m = .ok (ns, m') →
      tradedVolume m' = tradedVolume m + requestedVolume orders := by
  induction orders with
  | nil =>
    intro m m' ns _ _ h
    cases h
    show _ = _ + 0
    omega
  | cons order orders ih =>
    intro m m' ns hn ha h
    simp only [recordTrades, bind_eq_ok, pure_eq_ok, Prod.mk.injEq] at h
    obtain ⟨⟨n, m₁⟩, hrec, ⟨ns₁, m₂⟩, hrest, -, rfl⟩ := h
    rw [List.forall_mem_cons] at ha
    have hfirst := tradedVolume_record hn ha.1 hrec
    have hothers := ih ((numbered_invariant env).record ha.1 hrec hn) ha.2 hrest
    rw [requestedVolume_cons]
    show tradedVolume m₂ = _
    omega

section Calls

variable {d : Deployment} {tr : Trace} {s : State} {δ : Int} {env : Env}

/-- As long as the volume traded is in range it is the volume counted. -/
theorem counted_of_le {call : Call} {r : Reply} {s' : State} (h : Run (machine d) tr s)
    (henv : env.Of d) (hx : exec env call s = .ok (r, s'))
    (hle : tradedVolume s'.market ≤ i128Max) :
    s'.market.stats.totalVolume = tradedVolume s'.market := by
  have hcounted : VolumeCounted env.overflowChecks s.market := by
    rw [henv.1]
    exact volumeCounted_run h
  exact ((volumeCounted_invariant env).step (exec_market (fresh_run h) hx).1 hcounted).volume
    (.inr hle)

theorem trade_unharmed (h : Run (machine d) tr s) (hroom : Headroom δ s.market)
    (henv : env.Of d) (trader : Address) (pair : Symbol) {amount : Int} (price : Int)
    (isBuy : Bool) (feeToken : Address) (feeAmount : Int) (feeRecipient : Address)
    (ha : 0 < amount) (hδ : amount ≤ δ) :
    Unharmed env (.trade trader pair amount price isBuy feeToken feeAmount feeRecipient) s := by
  have hfit := hroom.trades
  have hnonneg := tradedVolume_nonneg s.market
  have hcounted := volumeCounted_run h
  have hexact := hcounted.volume (.inr (by omega))
  have havoids : ∀ e, SumFault e → Avoids
      (trade env s trader pair amount price isBuy feeToken feeAmount feeRecipient) e := by
    intro e he
    unfold trade
    refine .bind (requireAuth_avoids he trader) fun _ _ => ?_
    refine .bind (avoids_require (he.other (by decide) (by decide))) fun _ _ => ?_
    refine .bind (avoids_require (he.other (by decide) (by decide))) fun _ _ => ?_
    refine .bind (ensureTradeable_avoids he trader) fun s₁ hens => ?_
    obtain ⟨hi, -, userUsage, globalUsage, rfl⟩ := ensureTradeable_ok hens
    obtain ⟨h0, hwithin⟩ := periodWithin_run h hi (by omega)
    have htrack : Avoids (CircuitBreaker.trackActivity env s.cb amount : Result _) e :=
      trackActivity_avoids he h0 ha (by omega)
    refine .bind htrack fun cb _ => ?_
    refine .bind (collectFee_avoids he _ _ _ _) fun s₂ hfee => ?_
    obtain ⟨tokens, rfl⟩ := collectFee_ok hfee
    have hin : InI128 (s.market.stats.totalVolume + amount) := by
      rw [hexact]
      exact inI128_iff.mpr ⟨by omega, by omega⟩
    obtain ⟨n, m, hrec, -⟩ : ∃ n m, recordTrade env s.market trader pair amount price isBuy =
        .ok (n, m) ∧ _ := recordTrade_of trader pair price isBuy hin
    rw [hrec]
    exact avoids_ok _
  refine ⟨fun hx => ?_, fun hx => ?_, fun r s' hx => ?_⟩
  · exact absurd hx (Avoids.bind (havoids _ (.inl rfl)) fun _ _ => avoids_pure _)
  · exact absurd hx (Avoids.bind (havoids _ (.inr rfl)) fun _ _ => avoids_pure _)
  · obtain ⟨n, htrade, -⟩ := replyId_ok.mp hx
    obtain ⟨-, -, -, -, -, _, _, _, _, market, -, hrec, rfl⟩ := trade_ok htrade
    refine counted_of_le h henv hx ?_
    show tradedVolume market ≤ _
    rw [tradedVolume_record hcounted.numbered ha hrec]
    omega

theorem batch_unharmed (h : Run (machine d) tr s) (hroom : Headroom δ s.market)
    (henv : env.Of d) (trader : Address) {orders : List TradeRequest} (feeToken : Address)
    (feePerTrade : Int) (feeRecipient : Address) (ha : ∀ order ∈ orders, 0 < order.amount)
    (hδ : requestedVolume orders ≤ δ) :
    Unharmed env (.batchTrade trader orders feeToken feePerTrade feeRecipient) s := by
  have hfit := hroom.trades
  have hnonneg := tradedVolume_nonneg s.market
  have hvolume := requestedVolume_nonneg ha
  have hcounted := volumeCounted_run h
  have hexact := hcounted.volume (.inr (by omega))
  -- the product of the fees is the one operation that is not about volumes
  have havoids : ∀ e, SumFault e →
      (e = .panic "i128 overflow" → InI128 (feePerTrade * orders.length)) →
      Avoids (batchTrade env s trader orders feeToken feePerTrade feeRecipient) e := by
    intro e he hfees
    unfold batchTrade executeTradeBatch
    refine .bind (requireAuth_avoids he trader) fun _ _ => ?_
    split
    · exact avoids_ok _
    refine .bind (avoids_require (he.other (by decide) (by decide))) fun _ _ => ?_
    refine .bind (avoids_require (he.other (by decide) (by decide))) fun _ _ => ?_
    refine .bind (ensureTradeable_avoids he trader) fun s₁ hens => ?_
    refine .bind ?_ fun _ _ => ?_
    · rcases he with rfl | rfl
      · unfold Env.i128
        rw [i128_of_in _ (hfees rfl)]
        exact avoids_ok _
      · exact avoids_ofOption (by decide)
    refine .bind (collectFee_avoids he _ _ _ _) fun s₂ hfee => ?_
    obtain ⟨-, -, userUsage, globalUsage, rfl⟩ := ensureTradeable_ok hens
    obtain ⟨tokens, rfl⟩ := collectFee_ok hfee
    obtain ⟨ns, m, hrec⟩ : ∃ ns m, recordTrades env trader orders s.market = .ok (ns, m) := by
      refine recordTrades_of ha fun _ => ?_
      rw [hexact]
      exact ⟨hnonneg, by omega⟩
    rw [hrec]
    exact avoids_ok _
  refine ⟨fun hx hfees => ?_, fun hx => ?_, fun r s' hx => ?_⟩
  · exact absurd hx (Avoids.bind (havoids _ (.inl rfl) fun _ => hfees) fun _ _ => avoids_pure _)
  · exact absurd hx (Avoids.bind (havoids _ (.inr rfl) (by simp)) fun _ _ => avoids_pure _)
  · refine counted_of_le h henv hx ?_
    simp only [exec, bind_eq_ok, pure_eq_ok, Prod.mk.injEq] at hx
    obtain ⟨⟨ns, s₁⟩, hbatch, -, rfl⟩ := hx
    rcases (batchTrade_ok hbatch).2 with ⟨-, rfl⟩ | ⟨-, -, -, -, _, _, _, market, hrec, rfl⟩
    · show tradedVolume s₁.market ≤ _
      omega
    · show tradedVolume market ≤ _
      rw [tradedVolume_batch hcounted.numbered ha hrec]
      omega

theorem order_unharmed (h : Run (machine d) tr s) (hroom : Headroom δ s.market)
    (henv : env.Of d) (trader : Address) (pair : Symbol) (isBuy : Bool) (price : Int)
    {amount : Int} (tif : TimeInForce) (ha : 0 < amount) (hδ : amount ≤ δ) :
    Unharmed env (.createLimitOrder trader pair isBuy price amount tif) s := by
  have hfit := hroom.trades
  have hcounted := volumeCounted_run h
  have hexact := hcounted.volume (.inr (by omega))
  have hfills := hroom.fills
    (newOrder env (s.market.orderCount + 1) trader pair isBuy price amount tif)
  have hplace : (∃ n m, placeOrder env s.market trader pair isBuy price amount tif = .ok (n, m) ∧
      tradedVolume m ≤ i128Max) ∨ _ :=
    placeOrder_of (bookOk_run h) hcounted.numbered hexact ha rfl (by omega)
      (fun _ ids₁ id ids₂ hbook hlt => hroom.sums _ ids₁ id ids₂ hbook (by omega))
  have havoids : ∀ e, SumFault e →
      Avoids (placeOrder env s.market trader pair isBuy price amount tif) e →
      Avoids (createLimitOrder env s trader pair isBuy price amount tif) e := by
    intro e he hplace
    unfold createLimitOrder
    refine .bind (requireAuth_avoids he trader) fun _ _ => ?_
    refine .bind (avoids_require (he.other (by decide) (by decide))) fun _ _ => ?_
    refine .bind (rateLimit_avoids he trader) fun s₁ hrate => ?_
    refine .bind (avoids_require (he.other (by decide) (by decide))) fun _ _ => ?_
    refine .bind (avoids_require (he.other (by decide) (by decide))) fun _ _ => ?_
    refine .bind (avoids_require (he.other (by decide) (by decide))) fun _ _ => ?_
    obtain ⟨userUsage, globalUsage, rfl⟩ := rateLimit_ok hrate
    exact .bind hplace fun _ _ => avoids_pure _
  refine ⟨fun hx => ?_, fun hx => ?_, fun r s' hx => ?_⟩
  · refine absurd hx (Avoids.bind (havoids _ (.inl rfl) ?_) fun _ _ => avoids_pure _)
    rcases hplace with ⟨n, m, hok, -⟩ | ⟨herror, -⟩
    · rw [hok]; exact avoids_ok _
    · rw [herror]; exact nofun
  · rcases hplace with ⟨n, m, hok, -⟩ | ⟨-, hunfillable⟩
    · refine absurd hx (Avoids.bind (havoids _ (.inr rfl) ?_) fun _ _ => avoids_pure _)
      rw [hok]
      exact avoids_ok _
    · exact hunfillable
  · refine counted_of_le h henv hx ?_
    obtain ⟨n, horder, -⟩ := replyId_ok.mp hx
    obtain ⟨-, -, -, -, _, _, market, hplaced, rfl⟩ := createLimitOrder_ok horder
    rcases hplace with ⟨n', m, hok, hle⟩ | ⟨herror, -⟩
    · obtain ⟨-, rfl⟩ := Prod.mk.inj (Except.ok.inj (hok.symm.trans hplaced))
      exact hle
    · rw [herror] at hplaced
      cases hplaced

/-- **No lock-up with room**: in a reachable state that has room for amounts up to `δ`, no call
that asks for `δ` at most is harmed by a sum out of range. -/
theorem no_lockup (h : Run (machine d) tr s) (hroom : Headroom δ s.market) (henv : env.Of d)
    {call : Call} (hsmall : Small δ call) : Unharmed env call s := by
  cases call with
  | trade trader pair amount price isBuy feeToken feeAmount feeRecipient =>
    obtain ⟨ha, -, hδ⟩ := hsmall
    exact trade_unharmed h hroom henv _ _ _ _ _ _ _ ha hδ
  | batchTrade trader orders feeToken feePerTrade feeRecipient =>
    obtain ⟨hpos, hδ⟩ := hsmall
    exact batch_unharmed h hroom henv _ _ _ _ (fun order ho => (hpos order ho).1) hδ
  | createLimitOrder trader pair isBuy price amount tif =>
    obtain ⟨ha, -, hδ⟩ := hsmall
    exact order_unharmed h hroom henv _ _ _ _ _ ha hδ
  | _ => cases hsmall

end Calls

/-! ## Runs with thresholds out of reach -/

/-- Administrator 9 starts the contract with a threshold that only the largest volume reaches. -/
def unlimitedStart : Env × Call := (callAt 0 [], .init 9 [] 9 ⟨i128Max, 1000, 3600⟩)

theorem no_lockup_small : ∃ tr s, Run (machine ⟨0, true⟩) tr s ∧ s.market.tradeCount = 3 ∧
    ∀ env call, env.Of ⟨0, true⟩ → Small (10 ^ 30) call → Unharmed env call s := by
  have hinit : (machine ⟨0, true⟩).init { tokens := .empty } := ⟨rfl, rfl⟩
  obtain ⟨tr, s, hrun, hok⟩ := Machine.exists_run_of_replay hinit
    [unlimitedStart, (callAt 1 [1], .createLimitOrder 1 "XLM" false 1 60 .gtc),
      (callAt 2 [2], .createLimitOrder 2 "XLM" true 1 40 .gtc),
      (callAt 3 [3], .trade 3 "XLM" (10 ^ 30) 1 true 7 0 8)]
    (fun _ s => decide (s.market.tradeCount = 3 ∧ tradedVolume s.market = (10 ^ 30 + 80 : Int) ∧
      s.market.orderCount = 2 ∧ ∀ id ∈ ([0, 1, 2] : List Nat), ∀ order : LimitOrder,
        readOrder s.market id = some order → order.remaining ≤ 60))
    (by decide) (by decide) (by decide)
  obtain ⟨hcount, hvolume, hids, horders⟩ := of_decide_eq_true hok
  refine ⟨tr, s, hrun, hcount, fun env call henv hsmall => no_lockup hrun ?_ henv hsmall⟩
  refine .of_bounds (by decide) (by rw [hvolume]; decide) fun id order hr => ?_
  have hle := ((bookOk_run hrun).keyed id order hr).2
  have hmem : id ∈ [0, 1, 2] := by
    simp only [List.mem_cons, List.not_mem_nil, or_false]
    omega
  have := horders id hmem order hr
  unfold i128Max
  omega

theorem not_unharmed_of_overflow {env : Env} {call : Call} {s : State} (hfees : ¬ FeesOverflow call)
    (h : failsWith (exec env call s) (.panic "i128 overflow") = true) : ¬ Unharmed env call s :=
  fun hu => hfees (hu.fails (eq_of_failsWith h))

/-- The volume counted is not the volume traded after the call. -/
def miscounts (env : Env) (call : Call) (s : State) : Bool :=
  match exec env call s with
  | .ok (_, s') => s'.market.stats.totalVolume ≠ tradedVolume s'.market
  | .error _ => false

theorem not_unharmed_of_miscounts {env : Env} {call : Call} {s : State}
    (h : miscounts env call s = true) : ¬ Unharmed env call s := by
  intro hu
  unfold miscounts at h
  split at h
  · next r s' hx => exact of_decide_eq_true h (hu.counts r s' hx)
  · cases h

/-- After a trade of all but 1 of the range, a trade of 2 in another period fails, or is counted
wrongly in a binary without overflow checks.  Next to an offer of 1 and one of the whole range,
a fill-or-kill order for 5 fails. -/
theorem volume_locks_up :
    (∃ tr s, Run (machine ⟨0, true⟩) tr s ∧
      ¬ Unharmed (callAt 5000 [2]) (.trade 2 "XLM" 2 1 true 7 0 8) s) ∧
    (∃ tr s, Run (machine ⟨0, false⟩) tr s ∧
      ¬ Unharmed ⟨⟨0, false⟩, 5000, 0, [2]⟩ (.trade 2 "XLM" 2 1 true 7 0 8) s) ∧
    ∃ tr s, Run (machine ⟨0, true⟩) tr s ∧ s.market.tradeCount = 0 ∧
      ¬ Unharmed (callAt 5000 [3]) (.createLimitOrder 3 "XLM" true 1 5 .fok) s := by
  refine ⟨?_, ?_, ?_⟩
  · obtain ⟨tr, s, hrun, hok⟩ := @Machine.exists_run_of_replay _ _ _ _ _ (machine ⟨0, true⟩)
      { tokens := .empty } ⟨rfl, rfl⟩
      [unlimitedStart, (callAt 1 [1], .trade 1 "XLM" (i128Max - 1) 1 true 7 0 8)]
      (fun _ s => failsWith (exec (callAt 5000 [2]) (.trade 2 "XLM" 2 1 true 7 0 8) s)
        (.panic "i128 overflow")) (by decide) (by decide) (by decide)
    exact ⟨tr, s, hrun, not_unharmed_of_overflow id hok⟩
  · obtain ⟨tr, s, hrun, hok⟩ := @Machine.exists_run_of_replay _ _ _ _ _ (machine ⟨0, false⟩)
      { tokens := .empty } ⟨rfl, rfl⟩
      [(⟨⟨0, false⟩, 0, 0, []⟩, .init 9 [] 9 ⟨i128Max, 1000, 3600⟩),
        (⟨⟨0, false⟩, 1, 0, [1]⟩, .trade 1 "XLM" (i128Max - 1) 1 true 7 0 8)]
      (fun _ s => miscounts ⟨⟨0, false⟩, 5000, 0, [2]⟩ (.trade 2 "XLM" 2 1 true 7 0 8) s)
      (by decide) (by decide) (by decide)
    exact ⟨tr, s, hrun, not_unharmed_of_miscounts hok⟩
  · obtain ⟨tr, s, hrun, hok⟩ := @Machine.exists_run_of_replay _ _ _ _ _ (machine ⟨0, true⟩)
      { tokens := .empty } ⟨rfl, rfl⟩
      [unlimitedStart, (callAt 1 [1], .createLimitOrder 1 "XLM" false 1 1 .gtc),
        (callAt 2 [1], .createLimitOrder 1 "XLM" false 1 i128Max .gtc)]
      (fun _ s => s.market.tradeCount = 0 ∧ failsWith (exec (callAt 5000 [3])
        (.createLimitOrder 3 "XLM" true 1 5 .fok) s) (.panic "i128 overflow") = true)
      (by decide) (by decide) (by decide)
    obtain ⟨hcount, hok⟩ := of_decide_eq_true hok
    exact ⟨tr, s, hrun, hcount, not_unharmed_of_overflow id hok⟩

end Stellara.Trading
