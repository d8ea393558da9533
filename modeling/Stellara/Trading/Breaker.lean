import Stellara.Trading.Meter

/-!
# What the circuit breaker of the trading contract covers

`track_activity` is called by `trade` alone, and it stops trading only when no level is
set.  As long as nothing else records trades and no level stands in the way, the breaker's
account is the account of the run and trading stops where it should (`breaker_covers`).
-/

namespace Stellara.Trading

/-! ## Runs -/

/-- **The two accounts agree**, and trading is stopped when it should be. -/
structure Watched (tr : Trace) (s : State) : Prop where
  before : s.initialized = false → meterOf tr = none ∧ ¬ Stopped tr
  meter : s.initialized = true → ∃ config, s.cb.config = some config ∧
    meterOf tr = some (breakerMeter config s.cb.state) ∧ 0 ≤ s.cb.state.currentPeriodVolume
  stopped : Stopped tr → s.cb.state.pauseLevel = .full
  below : ∀ m, meterOf tr = some m →
    m.volume ≤ max 0 m.config.maxVolumePerPeriod ∨ Stopped tr ∨ Lifted tr

section Watched

variable {env : Env} {call : Call} {s s' : State} {r : Reply} {tr : Trace}

theorem Watched.init {config : CircuitBreaker.Config} (h : Watched tr s) (hf : Fresh s)
    (hc : startedWith call = some config) (hi : s.initialized = false)
    (hi' : s'.initialized = true) (hcb : s'.cb = CircuitBreaker.init env s.cb config)
    (hcount : s'.market.tradeCount = 0) :
    Watched (⟨env, call, r, s, s'⟩ :: tr) s' ∧ Covered tr ⟨env, call, r, s, s'⟩ := by
  have hrec : ¬ Records ⟨env, call, r, s, s'⟩ := by
    unfold Records
    rw [hcount, hf hi]
    exact lt_irrefl 0
  have hstop : ¬ Stopped (⟨env, call, r, s, s'⟩ :: tr) := by
    rintro (⟨hr, -⟩ | ⟨hs, -⟩)
    · exact hrec hr
    · exact (h.before hi).2 hs
  have hm : meterOf (⟨env, call, r, s, s'⟩ :: tr) = some ⟨config, env.timestamp, 0, 0⟩ := by
    unfold meterOf
    rw [hc]
  refine ⟨⟨?_, ?_, fun hs => absurd hs hstop, ?_⟩, fun hs => absurd hs hstop, fun _ => hrec,
    fun hr => absurd hr hrec⟩
  · intro hfalse
    rw [hi'] at hfalse
    cases hfalse
  · intro _
    rw [hm, hcb]
    exact ⟨config, rfl, rfl, le_rfl⟩
  · intro m hm'
    rw [hm] at hm'
    obtain rfl := Option.some.inj hm'
    exact .inl (le_max_left _ _)

theorem Watched.quiet (h : Watched tr s) (hq : Quiet call s s') :
    Watched (⟨env, call, r, s, s'⟩ :: tr) s' ∧ Covered tr ⟨env, call, r, s, s'⟩ := by
  have hrec : ¬ Records ⟨env, call, r, s, s'⟩ := by
    unfold Records
    rw [hq.trades.tradeCount]
    exact lt_irrefl _
  have hm : meterOf (⟨env, call, r, s, s'⟩ :: tr) = meterOf tr := meterOf_still hq.started hrec
  have hstop : Stopped (⟨env, call, r, s, s'⟩ :: tr) → Stopped tr ∧ ¬ SetsLevel call := by
    rintro (⟨hr, -⟩ | hs)
    · exact absurd hr hrec
    · exact hs
  have hfull : Stopped (⟨env, call, r, s, s'⟩ :: tr) → s'.cb.state.pauseLevel = .full := by
    intro hs
    obtain ⟨hs, hset⟩ := hstop hs
    exact hq.level hset (h.stopped hs)
  refine ⟨⟨?_, ?_, hfull, ?_⟩, hfull, fun _ => hrec, fun hr => absurd hr hrec⟩
  · intro hi
    rw [hq.initialized] at hi
    obtain ⟨hnone, hs⟩ := h.before hi
    exact ⟨hm.trans hnone, fun hs' => hs (hstop hs').1⟩
  · intro hi
    rw [hq.initialized] at hi
    obtain ⟨config, hconfig, hmeter, h0⟩ := h.meter hi
    have hsame := hq.meter config
    refine ⟨config, hq.config.trans hconfig, ?_, ?_⟩
    · rw [hm, hmeter, hsame]
    · exact h0.trans_eq (congrArg Meter.volume hsame).symm
  · intro m hm'
    rw [hm] at hm'
    rcases h.below m hm' with hle | hs | hl
    · exact .inl hle
    · by_cases hset : SetsLevel call
      · exact .inr (.inr (.inl hset))
      · exact .inr (.inl (.inr ⟨hs, hset⟩))
    · exact .inr (.inr (.inr ⟨hrec, hl⟩))

/-- The volume that a new trade is added to. -/
theorem Meter.roll_volume_le {m : Meter} {bound : Int} (now : Nat) (h0 : 0 ≤ bound)
    (h : m.volume ≤ bound) : (m.roll now).volume ≤ bound := by
  unfold Meter.roll
  split
  · exact h0
  · exact h

theorem Meter.roll_volume_nonneg {m : Meter} (now : Nat) (h : 0 ≤ m.volume) :
    0 ≤ (m.roll now).volume := by
  unfold Meter.roll
  split
  · exact le_rfl
  · exact h

/-- What the run's account makes of a recorded trade. -/
theorem recorded_trade (call : Call) (r : Reply) {trader : Address} {pair : Symbol}
    {amount price : Int} {isBuy : Bool} {n : Nat} (hn : Numbered s.market) (ha : 0 < amount)
    (hx : recordTrade env s.market trader pair amount price isBuy = .ok (n, s'.market)) :
    recordedVolume ⟨env, call, r, s, s'⟩ = amount ∧ recordedCount ⟨env, call, r, s, s'⟩ = 1 ∧
      Records ⟨env, call, r, s, s'⟩ := by
  obtain ⟨-, v, -, -, hcount, -⟩ := recordTrade_ok hx
  have hvolume := tradedVolume_record hn ha hx
  refine ⟨?_, ?_, ?_⟩
  · show tradedVolume s'.market - tradedVolume s.market = amount
    omega
  · show s'.market.tradeCount - s.market.tradeCount = 1
    omega
  · show s.market.tradeCount < s'.market.tradeCount
    omega

theorem Watched.trade {trader : Address} {pair : Symbol} {amount price : Int} {isBuy : Bool}
    {feeToken feeRecipient : Address} {feeAmount : Int} {n : Nat}
    (hcall : call = .trade trader pair amount price isBuy feeToken feeAmount feeRecipient)
    (h : Watched tr s) (hseen : Seen env s call) (hn : Numbered s.market) (ha : 0 < amount)
    (hi : s.initialized = true) (hi' : s'.initialized = true)
    (hp : CircuitBreaker.isPaused s.cb "trade" = false)
    (htrack : (CircuitBreaker.trackActivity env s.cb amount : Result _) = .ok s'.cb)
    (hx : recordTrade env s.market trader pair amount price isBuy = .ok (n, s'.market)) :
    Watched (⟨env, call, r, s, s'⟩ :: tr) s' ∧ Covered tr ⟨env, call, r, s, s'⟩ := by
  have hstart : startedWith call = none := by rw [hcall]; rfl
  obtain ⟨config, hconfig, hmeter, h0⟩ := h.meter hi
  obtain ⟨hbelowFull, hexact⟩ := (hcall ▸ hseen) config hconfig
  obtain ⟨hconfig', hmeter', hlevel⟩ := trackActivity_meter hconfig h0 ha hexact htrack
  obtain ⟨hvol, hcnt, hrec⟩ := recorded_trade call r hn ha hx
  generalize he : (⟨env, call, r, s, s'⟩ : Event Env Call Reply State) = e at hvol hcnt hrec ⊢
  -- trading has not been stopped before this trade
  have hrun : s.cb.state.pauseLevel ≠ .full := by
    intro hfull
    unfold CircuitBreaker.isPaused at hp
    rw [hfull] at hp
    cases hp
  have hnot : ¬ Stopped tr := fun hs => hrun (h.stopped hs)
  have hm : meterOf (e :: tr) = some (breakerMeter config s'.cb.state) := by
    rw [meterOf_recorded (by rw [← he]; exact hstart) hrec, hmeter, hvol, hcnt, ← he, hmeter']
    rfl
  have hfull : Stopped (e :: tr) → s'.cb.state.pauseLevel = .full := by
    rintro (⟨-, m, hm', hreached⟩ | ⟨hs, -⟩)
    · rw [hm] at hm'
      obtain rfl := Option.some.inj hm'
      rw [hlevel]
      by_cases hnone : s.cb.state.pauseLevel = .none
      · rw [if_pos ⟨hreached, hnone⟩]
      · -- at the level `Partial` the threshold is not reached
        exfalso
        cases hl : s.cb.state.pauseLevel with
        | none => exact hnone hl
        | partially => exact hbelowFull hl (hmeter' ▸ hreached)
        | full => exact hrun hl
    · exact absurd hs hnot
  have hprev : Lifted tr ∨ (breakerMeter config s.cb.state).volume ≤
      max 0 config.maxVolumePerPeriod := by
    rcases h.below _ hmeter with hle | hs | hl
    · exact .inr hle
    · exact absurd hs hnot
    · exact .inl hl
  refine ⟨⟨?_, ?_, hfull, ?_⟩, ?_, fun hs => absurd hs hnot, ?_⟩
  · intro hfalse
    rw [hi'] at hfalse
    cases hfalse
  · intro _
    refine ⟨config, hconfig', hm, ?_⟩
    have hvolume := congrArg Meter.volume hmeter'
    have hroll := Meter.roll_volume_nonneg (m := breakerMeter config s.cb.state) env.timestamp h0
    have hsum : s'.cb.state.currentPeriodVolume =
      ((breakerMeter config s.cb.state).roll env.timestamp).volume + amount := hvolume
    omega
  · intro m hm'
    rw [hm] at hm'
    obtain rfl := Option.some.inj hm'
    by_cases hreached : (breakerMeter config s'.cb.state).Reached
    · exact .inr (.inl (.inl ⟨hrec, _, hm, hreached⟩))
    · left
      have hlt : (breakerMeter config s'.cb.state).volume < config.maxVolumePerPeriod :=
        lt_of_not_ge fun hge => hreached (.inl hge)
      exact hlt.le.trans (le_max_right _ _)
  · rw [← he] at hfull ⊢
    exact hfull
  · intro _ m hm' hlift
    rw [hm] at hm'
    obtain rfl := Option.some.inj hm'
    rw [hvol, hmeter', Meter.record_config]
    have hle := Meter.roll_volume_le env.timestamp (le_max_left _ _)
      (hprev.resolve_left hlift)
    exact Int.add_le_add_right hle amount

end Watched

theorem watched_run {d : Deployment} {tr : Trace} {s : State} (h : Run (machine d) tr s)
    (hseen : ∀ e ∈ tr, Seen e.env e.before e.call) :
    Watched tr s ∧ ∀ later e earlier, tr = later ++ e :: earlier → Covered earlier e := by
  induction h with
  | start h0 =>
    refine ⟨⟨fun _ => ⟨rfl, id⟩, ?_, ?_, ?_⟩, ?_⟩
    · intro hi
      rw [h0.1] at hi
      cases hi
    · intro hs; cases hs
    · intro m hm; cases hm
    · intro later e earlier heq
      simp at heq
  | @commit tr s s' env call r h _ _ hx ih =>
    rw [List.forall_mem_cons] at hseen
    obtain ⟨hw, hcovered⟩ := ih hseen.2
    have hn := (volumeCounted_run h).numbered
    have hf := fresh_run h
    have hstep : Watched (⟨env, call, r, s, s'⟩ :: tr) s' ∧ Covered tr ⟨env, call, r, s, s'⟩ := by
      rcases seen_cases hseen.1 hx with
        ⟨config, hc, hi, hi', hcb, -, hcount⟩ |
        ⟨trader, pair, amount, price, isBuy, feeToken, feeAmount, feeRecipient, n, hcall, ha, hi, hi',
          hp, htrack, hrec⟩ | hq
      · exact hw.init hf hc hi hi' hcb hcount
      · exact hw.trade hcall hseen.1 hn ha hi hi' hp htrack hrec
      · exact hw.quiet hq
    refine ⟨hstep.1, ?_⟩
    intro later e earlier heq
    cases later with
    | nil =>
      obtain ⟨rfl, rfl⟩ := List.cons.inj heq
      exact hstep.2
    | cons e' later =>
      obtain ⟨-, heq⟩ := List.cons.inj heq
      exact hcovered later e earlier heq

/-- **The breaker covers** every run whose calls it sees. -/
theorem breaker_covers {d : Deployment} {tr : Trace} {s : State} (h : Run (machine d) tr s)
    (hseen : ∀ e ∈ tr, Seen e.env e.before e.call) :
    ∀ later e earlier, tr = later ++ e :: earlier → Covered earlier e :=
  (watched_run h hseen).2

/-! ## Runs on the thresholds 100 (volume) and 1000 (trades) -/

/-- Administrator 9 starts the contract. -/
def breakerStart : Env × Call := (callAt 0 [], .init 9 [] 9 ⟨100, 1000, 3600⟩)

/-- A trade of account `trader` without a fee. -/
def plainTrade (trader : Address) (amount : Int) : Call :=
  .trade trader "XLM" amount 1 true 7 0 8

theorem breaker_covers_hundred : ∃ tr s, Run (machine ⟨0, true⟩) tr s ∧
    (∀ e ∈ tr, Seen e.env e.before e.call) ∧ s.market.tradeCount = 2 ∧
    s.cb.state.pauseLevel = .full ∧
    ∀ later e earlier, tr = later ++ e :: earlier → Covered earlier e := by
  have hinit : (machine ⟨0, true⟩).init { tokens := .empty } := ⟨rfl, rfl⟩
  obtain ⟨tr, s, hrun, hok⟩ := Machine.exists_run_of_replay hinit
    [breakerStart, (callAt 1 [1], plainTrade 1 60),
      (callAt 2 [2], .createLimitOrder 2 "XLM" true 90 3 .gtc), (callAt 3 [3], plainTrade 3 50)]
    (fun tr s => (∀ e ∈ tr, Seen e.env e.before e.call) ∧ s.market.tradeCount = 2 ∧
      s.cb.state.pauseLevel = .full) (by decide) (by decide) (by decide)
  obtain ⟨hseen, hcount, hfull⟩ := of_decide_eq_true hok
  exact ⟨tr, s, hrun, hseen, hcount, hfull, breaker_covers hrun hseen⟩

/-- The last call was `call`, it has brought the period to a threshold, and trading goes on. -/
def overlooked (call : Call) (tr : Trace) (s : State) : Bool :=
  match tr, meterOf tr with
  | e :: _, some m => e.call = call && Records e && m.Reached && s.cb.state.pauseLevel ≠ .full
  | _, _ => false

theorem not_covered_of_overlooked {call : Call} {tr : Trace} {s : State}
    (h : Run (machine ⟨0, true⟩) tr s) (ho : overlooked call tr s = true) :
    ∃ e earlier, tr = e :: earlier ∧ e.call = call ∧ ¬ Covered earlier e := by
  unfold overlooked at ho
  split at ho
  · next e earlier m hm =>
    simp only [Bool.and_eq_true, decide_eq_true_eq] at ho
    obtain ⟨⟨⟨hcall, hrec⟩, hreached⟩, hlevel⟩ := ho
    refine ⟨e, earlier, rfl, hcall, ?_⟩
    intro hcovered
    have hafter : e.after = s := by cases h; rfl
    rw [← hafter] at hlevel
    exact hlevel (hcovered.stopped (.inl ⟨hrec, m, hm, hreached⟩))
  · cases ho

theorem exists_overlooked (call : Call) (calls : List (Env × Call))
    (hv : ∀ c ∈ calls, (machine ⟨0, true⟩).valid c.1 c.2)
    (hc : calls.Pairwise fun a b => a.1.timestamp ≤ b.1.timestamp)
    (h : (machine ⟨0, true⟩).replay { tokens := .empty } calls (overlooked call) = true) :
    ∃ e earlier s, Run (machine ⟨0, true⟩) (e :: earlier) s ∧ e.call = call ∧
      ¬ Covered earlier e := by
  have hinit : (machine ⟨0, true⟩).init { tokens := .empty } := ⟨rfl, rfl⟩
  obtain ⟨tr, s, hrun, hok⟩ := Machine.exists_run_of_replay hinit calls (overlooked call) hv hc h
  obtain ⟨e, earlier, rfl, hcall, hnot⟩ := not_covered_of_overlooked hrun hok
  exact ⟨e, earlier, s, hrun, hcall, hnot⟩

/-- A batch of 200, two sides of a fill of 60 and, once `withdraw` has been paused, a trade
of 200 all go on without the breaker. -/
theorem thresholds_overlooked :
    (∃ e earlier s, Run (machine ⟨0, true⟩) (e :: earlier) s ∧
      e.call = .batchTrade 1 [⟨"XLM", 200, 1, true⟩] 7 0 8 ∧ ¬ Covered earlier e) ∧
    (∃ e earlier s, Run (machine ⟨0, true⟩) (e :: earlier) s ∧
      e.call = .createLimitOrder 2 "XLM" true 1 60 .gtc ∧ ¬ Covered earlier e) ∧
    ∃ e earlier s, Run (machine ⟨0, true⟩) (e :: earlier) s ∧
      e.call = plainTrade 1 200 ∧ ¬ Covered earlier e := by
  refine ⟨?_, ?_, ?_⟩
  · exact exists_overlooked _
      [breakerStart, (callAt 1 [1], .batchTrade 1 [⟨"XLM", 200, 1, true⟩] 7 0 8)]
      (by decide) (by decide) (by decide)
  · exact exists_overlooked _
      [breakerStart, (callAt 1 [1], .createLimitOrder 1 "XLM" false 1 60 .gtc),
        (callAt 2 [2], .createLimitOrder 2 "XLM" true 1 60 .gtc)]
      (by decide) (by decide) (by decide)
  · exact exists_overlooked _
      [breakerStart, (callAt 1 [9], .pauseFunction 9 "withdraw"), (callAt 2 [1], plainTrade 1 200)]
      (by decide) (by decide) (by decide)

end Stellara.Trading
