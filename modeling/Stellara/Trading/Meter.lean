import Stellara.Trading.Accounting
import Stellara.Shared.Breaker

/-!
# Accounts of a breaker period

The breaker is meant to stop trading when the trades of a period reach a threshold.  A
`Meter` is an account of a period; `meterOf` keeps the account of everything a run has
recorded, by whatever entry point, and `breakerMeter` is the account the breaker keeps.

`Covered` says that trading is stopped when it should be, `Seen` that a call takes none of
the branches that the breaker misses.  `track_activity` keeps the breaker's account
(`trackActivity_meter`), and `seen_cases` tells what a call that is seen can do.
-/

namespace Stellara.Trading

open Outcome

/-! ## The account of a period -/

structure Meter where
  config : CircuitBreaker.Config
  start : Nat
  volume : Int
  count : Nat
deriving DecidableEq, Repr

/-- A new period begins when the present one is over. -/
def Meter.roll (m : Meter) (now : Nat) : Meter :=
  if m.start + m.config.periodDuration ≤ now then { m with start := now, volume := 0, count := 0 }
  else m

def Meter.record (m : Meter) (now : Nat) (volume : Int) (count : Nat) : Meter :=
  { m.roll now with volume := (m.roll now).volume + volume, count := (m.roll now).count + count }

theorem Meter.record_config (m : Meter) (now : Nat) (volume : Int) (count : Nat) :
    (m.record now volume count).config = m.config := by
  unfold Meter.record Meter.roll
  split <;> rfl

/-- A threshold has been reached. -/
def Meter.Reached (m : Meter) : Prop :=
  m.config.maxVolumePerPeriod ≤ m.volume ∨ m.config.maxTxCountPerPeriod ≤ m.count

instance (m : Meter) : Decidable m.Reached := inferInstanceAs (Decidable (_ ∨ _))

/-- The breaker's own account. -/
def breakerMeter (config : CircuitBreaker.Config) (st : CircuitBreaker.CircuitBreakerState) : Meter :=
  ⟨config, st.currentPeriodStart, st.currentPeriodVolume, st.currentPeriodTxCount⟩

/-! ## The account of a run -/

/-- What a call recorded: by how much the amounts of all trades have grown, and their number. -/
def recordedVolume (e : Event Env Call Reply State) : Int :=
  tradedVolume e.after.market - tradedVolume e.before.market

def recordedCount (e : Event Env Call Reply State) : Nat :=
  e.after.market.tradeCount - e.before.market.tradeCount

/-- The call recorded a trade. -/
def Records (e : Event Env Call Reply State) : Prop :=
  e.before.market.tradeCount < e.after.market.tradeCount

instance (e : Event Env Call Reply State) : Decidable (Records e) := Nat.decLt ..

/-- The thresholds that the call starts the breaker with. -/
def startedWith : Call → Option CircuitBreaker.Config
  | .init _ _ _ config => some config
  | _ => none

/-- The account of everything recorded in the present period, once there is a breaker. -/
def meterOf : Trace → Option Meter
  | [] => none
  | e :: tr =>
    match startedWith e.call with
    | some config => some ⟨config, e.env.timestamp, 0, 0⟩
    | none =>
      if Records e then
        (meterOf tr).map fun m => m.record e.env.timestamp (recordedVolume e) (recordedCount e)
      else meterOf tr

section Account

variable {e : Event Env Call Reply State} {tr : Trace}

theorem meterOf_recorded (hstart : startedWith e.call = none) (hrec : Records e) :
    meterOf (e :: tr) =
      (meterOf tr).map fun m => m.record e.env.timestamp (recordedVolume e) (recordedCount e) := by
  show (match startedWith e.call with
    | some config => some _
    | none => if Records e then _ else meterOf tr) = _
  rw [hstart]
  exact if_pos hrec

theorem meterOf_still (hstart : startedWith e.call = none) (hrec : ¬ Records e) :
    meterOf (e :: tr) = meterOf tr := by
  show (match startedWith e.call with
    | some config => some _
    | none => if Records e then _ else meterOf tr) = _
  rw [hstart]
  exact if_neg hrec

end Account

/-- An administrator sets the pause level. -/
def SetsLevel : Call → Prop
  | .setPauseLevel _ _ | .pause _ | .unpause _ => True
  | _ => False

/-- The trades recorded have reached a threshold, and no administrator has set the level since. -/
def Stopped : Trace → Prop
  | [] => False
  | e :: tr => (Records e ∧ ∃ m, meterOf (e :: tr) = some m ∧ m.Reached) ∨
      Stopped tr ∧ ¬ SetsLevel e.call

/-- An administrator has set the level since the last recorded trade. -/
def Lifted : Trace → Prop
  | [] => False
  | e :: tr => SetsLevel e.call ∨ ¬ Records e ∧ Lifted tr

/-- **Coverage** of the call `e` made after `tr`: trading that has reached a threshold is
stopped until an administrator sets the level, and while it is stopped nothing is recorded;
so the volume of the period goes beyond the threshold by one call at most. -/
structure Covered (tr : Trace) (e : Event Env Call Reply State) : Prop where
  stopped : Stopped (e :: tr) → e.after.cb.state.pauseLevel = .full
  silent : Stopped tr → ¬ Records e
  excess : Records e → ∀ m, meterOf (e :: tr) = some m → ¬ Lifted tr →
    m.volume ≤ max 0 m.config.maxVolumePerPeriod + recordedVolume e

/-! ## The condition -/

/-- Nothing on the opposite book can fill a part of the order. -/
def NoneEligible (m : Market) (order : LimitOrder) : Prop :=
  ∀ id ∈ readOrderBook m order.pair order.oppositeIsBuy, ∀ resting,
    readOrder m id = some resting → eligible order resting = false

/-- The call takes none of the branches that the breaker does not see: a batch that is not
empty, a limit order that is filled, a trade that reaches a threshold at the level
`Partial`, and sums that wrap around in a binary without overflow checks. -/
def Seen (env : Env) (s : State) : Call → Prop
  | .trade _ _ amount _ _ _ _ _ => ∀ config, s.cb.config = some config →
      let m := (breakerMeter config s.cb.state).record env.timestamp amount 1
      (s.cb.state.pauseLevel = .partially → ¬ m.Reached) ∧
        (env.overflowChecks = true ∨
          s.cb.state.currentPeriodStart + config.periodDuration < 2 ^ 64 ∧ m.volume ≤ i128Max)
  | .batchTrade _ orders _ _ _ => orders = []
  | .createLimitOrder trader pair isBuy price amount tif =>
    NoneEligible s.market
      (newOrder env (s.market.orderCount + 1) trader pair isBuy price amount tif)
  | _ => True

instance (m : Market) (order : LimitOrder) : Decidable (NoneEligible m order) :=
  inferInstanceAs (Decidable (∀ id ∈ _, ∀ resting, _ = some resting → _))

instance (env : Env) (s : State) : DecidablePred (Seen env s)
  | .trade .. => inferInstanceAs (Decidable (∀ config, _ = some config → (_ → ¬ _) ∧ (_ ∨ _ ∧ _)))
  | .batchTrade _ orders .. => inferInstanceAs (Decidable (orders = []))
  | .createLimitOrder .. => inferInstanceAs (Decidable (NoneEligible _ _))
  | .init .. | .cancelOrder .. | .setRateLimitConfig .. | .setPremiumUser .. | .setPauseLevel ..
  | .pauseFunction .. | .unpauseFunction .. | .pause .. | .unpause .. | .acl ..
  | .proposeUpgrade .. | .approveUpgrade .. | .executeUpgrade .. | .rejectUpgrade ..
  | .cancelUpgrade .. | .token .. => isTrue trivial

/-- A limit order that finds nothing to fill records no trade. -/
theorem place_none {env : Env} {m m' : Market} {trader : Address} {pair : Symbol} {isBuy : Bool}
    {price amount : Int} {tif : TimeInForce} {n : Nat}
    (hnone : NoneEligible m (newOrder env (m.orderCount + 1) trader pair isBuy price amount tif))
    (h : placeOrder env m trader pair isBuy price amount tif = .ok (n, m')) : SameTrades m m' := by
  obtain ⟨rfl, order', m₁, final, hmatch, hset⟩ := placeOrder_ok h
  generalize newOrder env (m.orderCount + 1) trader pair isBuy price amount tif = order at *
  -- the loop breaks at once
  have hm₁ : m₁ = writeOrder { m with orderCount := m.orderCount + 1 } order := by
    rcases Loop.run_succ_ok.mp hmatch with ⟨-, heq⟩ | ⟨⟨o, m₂⟩, hstep, -⟩
    · exact (Prod.mk.inj heq).2.symm
    · exfalso
      obtain ⟨-, id, maker, hid, hr, he, -⟩ := matchStep_some hstep
      rw [readOrder_writeOrder] at hr
      split at hr
      · -- an order does not match itself
        obtain rfl := Option.some.inj hr
        have hcross := (crosses_opposite (eligible_iff.mp he).2.2).2
        unfold LimitOrder.oppositeIsBuy at hcross
        cases hside : order.side.isBuy <;> rw [hside] at hcross <;> cases hcross
      · have hno := hnone id hid maker hr
        rw [he] at hno
        cases hno
  have hsame := hset.sameTrades
  rw [hm₁] at hsame
  exact ⟨hsame.trades, hsame.tradeCount, hsame.stats⟩

/-- **`track_activity` keeps the account** when its sums are exact, and a threshold that is
reached at the level `None` stops everything. -/
theorem trackActivity_meter {env : Env} {cb cb' : CircuitBreaker.State}
    {config : CircuitBreaker.Config} {amount : Int} (hconfig : cb.config = some config)
    (h0 : 0 ≤ cb.state.currentPeriodVolume) (ha : 0 < amount)
    (hexact : env.overflowChecks = true ∨
      cb.state.currentPeriodStart + config.periodDuration < 2 ^ 64 ∧
        ((breakerMeter config cb.state).record env.timestamp amount 1).volume ≤ i128Max)
    (h : (CircuitBreaker.trackActivity env cb amount : Result _) = .ok cb') :
    cb'.config = some config ∧
      breakerMeter config cb'.state = (breakerMeter config cb.state).record env.timestamp amount 1 ∧
      cb'.state.pauseLevel = if (breakerMeter config cb'.state).Reached ∧
        cb.state.pauseLevel = .none then .full else cb.state.pauseLevel := by
  obtain ⟨config', periodEnd, ht⟩ := CircuitBreaker.trackActivity_ok h
  obtain rfl := Option.some.inj (hconfig.symm.trans ht.configured)
  -- the period's end is where it should be
  have hend : periodEnd = cb.state.currentPeriodStart + config.periodDuration := by
    rcases hexact with hc | ⟨hlt, -⟩
    · have := u64_checked hc ht.ends; omega
    · have := u64_exact ht.ends (by omega) (by omega); omega
  have hroll : breakerMeter config (CircuitBreaker.rolledOver env periodEnd cb.state) =
      (breakerMeter config cb.state).roll env.timestamp := by
    unfold Meter.roll breakerMeter CircuitBreaker.rolledOver
    dsimp only
    rw [hend]
    split <;> rfl
  have hvol0 : 0 ≤ ((breakerMeter config cb.state).roll env.timestamp).volume := by
    unfold Meter.roll
    split
    · exact le_rfl
    · exact h0
  have hsum := ht.sum
  rw [show (CircuitBreaker.rolledOver env periodEnd cb.state).currentPeriodVolume =
    ((breakerMeter config cb.state).roll env.timestamp).volume from congrArg Meter.volume hroll]
    at hsum
  have hvolume : cb'.state.currentPeriodVolume =
      ((breakerMeter config cb.state).roll env.timestamp).volume + amount := by
    rcases hexact with hc | ⟨-, hle⟩
    · exact i128_checked hc hsum
    · exact i128_exact hsum (inI128_iff.mpr ⟨by omega, hle⟩)
  refine ⟨ht.configured', ?_, ht.level⟩
  unfold Meter.record
  rw [← hroll] at hvolume ⊢
  show (⟨config, _, _, _⟩ : Meter) = ⟨config, _, _, _⟩
  rw [ht.start, hvolume, ht.count]
  rfl

/-! ## One call -/

/-- A call that records nothing and leaves the breaker's account alone. -/
structure Quiet (call : Call) (s s' : State) : Prop where
  started : startedWith call = none
  trades : SameTrades s.market s'.market
  initialized : s'.initialized = s.initialized
  config : s'.cb.config = s.cb.config
  meter : ∀ config, breakerMeter config s'.cb.state = breakerMeter config s.cb.state
  level : ¬ SetsLevel call → s.cb.state.pauseLevel = .full → s'.cb.state.pauseLevel = .full

/-- A call that leaves market and breaker alone. -/
theorem SameMarket.quiet {call : Call} {s s' : State} (hs : SameMarket s s') (hcb : s'.cb = s.cb)
    (hc : startedWith call = none) : Quiet call s s' := by
  refine ⟨hc, ⟨?_, ?_, ?_⟩, hs.initialized, by rw [hcb], fun _ => by rw [hcb], fun _ h => by rw [hcb, h]⟩
  all_goals rw [hs.market]

theorem upgradeCall_quiet {env : Env} {s s' : State} {actor : Address} {call : Call}
    {f : Governance.State → Governance.Result Governance.State}
    (h : upgradeCall env s actor f = .ok s') (hc : startedWith call = none) : Quiet call s s' := by
  obtain ⟨gov, rfl⟩ := upgradeCall_ok h
  exact SameMarket.quiet ⟨rfl, rfl⟩ rfl hc

theorem breakerCall_quiet {env : Env} {s s' : State} {admin : Address} {p : Symbol} {call : Call}
    {f : CircuitBreaker.State → CircuitBreaker.State} (h : breakerCall env s admin p f = .ok s')
    (hc : startedWith call = none) (hconfig : (f s.cb).config = s.cb.config)
    (hmeter : ∀ config, breakerMeter config (f s.cb).state = breakerMeter config s.cb.state)
    (hlevel : ¬ SetsLevel call → s.cb.state.pauseLevel = .full → (f s.cb).state.pauseLevel = .full) :
    Quiet call s s' := by
  rw [breakerCall_ok h]
  exact ⟨hc, ⟨rfl, rfl, rfl⟩, rfl, hconfig, hmeter, hlevel⟩

theorem pauseFunction_meter (cb : CircuitBreaker.State) (funcName : Symbol) :
    (CircuitBreaker.pauseFunction cb funcName).config = cb.config ∧
      (∀ config, breakerMeter config (CircuitBreaker.pauseFunction cb funcName).state =
        breakerMeter config cb.state) ∧
      (cb.state.pauseLevel = .full →
        (CircuitBreaker.pauseFunction cb funcName).state.pauseLevel = .full) := by
  unfold CircuitBreaker.pauseFunction
  dsimp only
  split
  · next hnone => exact ⟨rfl, fun _ => rfl, fun hfull => by rw [hnone] at hfull; cases hfull⟩
  · exact ⟨rfl, fun _ => rfl, id⟩

/-- **A call that the breaker sees**: the start, a trade, or one that records nothing. -/
theorem seen_cases {env : Env} {call : Call} {s s' : State} {r : Reply}
    (hseen : Seen env s call) (h : exec env call s = .ok (r, s')) :
    (∃ config, startedWith call = some config ∧ s.initialized = false ∧ s'.initialized = true ∧
      s'.cb = CircuitBreaker.init env s.cb config ∧ s'.market.trades = s.market.trades ∧
      s'.market.tradeCount = 0) ∨
    (∃ trader pair amount price isBuy feeToken feeAmount feeRecipient n,
      call = .trade trader pair amount price isBuy feeToken feeAmount feeRecipient ∧
      0 < amount ∧ s.initialized = true ∧ s'.initialized = true ∧
      CircuitBreaker.isPaused s.cb "trade" = false ∧
      (CircuitBreaker.trackActivity env s.cb amount : Result _) = .ok s'.cb ∧
      recordTrade env s.market trader pair amount price isBuy = .ok (n, s'.market)) ∨
    Quiet call s s' := by
  cases call with
  | init admin approvers executor config =>
    obtain ⟨hi, gov, rfl⟩ := init_ok (done_ok.mp h).1
    exact .inl ⟨config, rfl, hi, rfl, rfl, rfl, rfl⟩
  | trade trader pair amount price isBuy feeToken feeAmount feeRecipient =>
    obtain ⟨n, h, -⟩ := replyId_ok.mp h
    obtain ⟨-, ha, -, hi, hp, _, _, cb, _, market, htrack, hrec, rfl⟩ := trade_ok h
    exact .inr (.inl ⟨trader, pair, amount, price, isBuy, feeToken, feeAmount, feeRecipient, n, rfl,
      ha, hi, hi, hp, htrack, hrec⟩)
  | batchTrade trader orders feeToken feePerTrade feeRecipient =>
    have hnil : orders = [] := hseen
    simp only [exec, batchTrade, executeTradeBatch, hnil, if_true, bind_eq_ok, pure_eq_ok,
      Prod.mk.injEq, Except.ok.injEq] at h
    obtain ⟨_, ⟨_, -, rfl⟩, -, rfl⟩ := h
    exact .inr (.inr (SameMarket.quiet ⟨rfl, rfl⟩ rfl rfl))
  | createLimitOrder trader pair isBuy price amount tif =>
    obtain ⟨n, h, -⟩ := replyId_ok.mp h
    obtain ⟨-, -, -, -, _, _, market, hplace, rfl⟩ := createLimitOrder_ok h
    exact .inr (.inr ⟨rfl, place_none hseen hplace, rfl, rfl, fun _ => rfl, fun _ => id⟩)
  | cancelOrder trader orderId =>
    obtain ⟨h, -⟩ := done_ok.mp h
    obtain ⟨-, market, hw, rfl⟩ := cancelOrder_ok h
    obtain ⟨order, -, -, -, hm⟩ := withdrawOrder_ok hw
    have hsame : SameTrades s.market market := by rw [hm]; exact ⟨rfl, rfl, rfl⟩
    exact .inr (.inr ⟨rfl, hsame, rfl, rfl, fun _ => rfl, fun _ => id⟩)
  | setRateLimitConfig admin cfg =>
    obtain ⟨-, rfl⟩ := setRateLimitConfig_ok (done_ok.mp h).1
    exact .inr (.inr (SameMarket.quiet ⟨rfl, rfl⟩ rfl rfl))
  | setPremiumUser admin user isPremium =>
    obtain rfl := setPremiumUser_ok (done_ok.mp h).1
    exact .inr (.inr (SameMarket.quiet ⟨rfl, rfl⟩ rfl rfl))
  | setPauseLevel admin level =>
    exact .inr (.inr (breakerCall_quiet (done_ok.mp h).1 rfl rfl (fun _ => rfl)
      (fun hset => absurd trivial hset)))
  | pauseFunction admin funcName =>
    obtain ⟨hconfig, hmeter, hlevel⟩ := pauseFunction_meter s.cb funcName
    exact .inr (.inr (breakerCall_quiet (done_ok.mp h).1 rfl hconfig hmeter (fun _ => hlevel)))
  | unpauseFunction admin funcName =>
    exact .inr (.inr (breakerCall_quiet (done_ok.mp h).1 rfl rfl (fun _ => rfl) (fun _ => id)))
  | pause admin =>
    exact .inr (.inr (breakerCall_quiet (done_ok.mp h).1 rfl rfl (fun _ => rfl)
      (fun hset => absurd trivial hset)))
  | unpause admin =>
    exact .inr (.inr (breakerCall_quiet (done_ok.mp h).1 rfl rfl (fun _ => rfl)
      (fun hset => absurd trivial hset)))
  | acl admin c =>
    obtain ⟨gov, rfl⟩ := aclCall_ok (done_ok.mp h).1
    exact .inr (.inr (SameMarket.quiet ⟨rfl, rfl⟩ rfl rfl))
  | proposeUpgrade admin hash description approvers threshold delay =>
    obtain ⟨n, h, -⟩ := replyId_ok.mp h
    obtain ⟨gov, rfl⟩ := proposeUpgrade_ok h
    exact .inr (.inr (SameMarket.quiet ⟨rfl, rfl⟩ rfl rfl))
  | approveUpgrade pid approver =>
    exact .inr (.inr (upgradeCall_quiet (done_ok.mp h).1 rfl))
  | executeUpgrade pid executor =>
    exact .inr (.inr (upgradeCall_quiet (done_ok.mp h).1 rfl))
  | rejectUpgrade pid rejector =>
    exact .inr (.inr (upgradeCall_quiet (done_ok.mp h).1 rfl))
  | cancelUpgrade pid admin =>
    exact .inr (.inr (upgradeCall_quiet (done_ok.mp h).1 rfl))
  | token c =>
    simp only [exec, bind_eq_ok, pure_eq_ok, Prod.mk.injEq] at h
    obtain ⟨tokens, -, -, rfl⟩ := h
    exact .inr (.inr (SameMarket.quiet ⟨rfl, rfl⟩ rfl rfl))

end Stellara.Trading
