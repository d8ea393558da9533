import Stellara.Trading.Batches

/-!
# When a batch agrees with single trades

A batch makes fewer checks than single trades: no price is looked at and the breaker
counts nothing.  So the two agree exactly when the batch is turned down as a whole, or
when counting the trades would leave the breaker as it was (`batch_agrees_iff`), which
takes a period that is over as soon as it begins (`trackAll_same`).
-/

namespace Stellara.Trading

open Outcome

/-! ## Counting in an empty period -/

section Counting

variable {env : Env} {config : CircuitBreaker.Config} {cb cb' : CircuitBreaker.State}

/-- Tracking, for a breaker whose configuration is known. -/
theorem tracked_config {amount : Int} (hconfig : cb.config = some config)
    (h : (CircuitBreaker.trackActivity env cb amount : Result _) = .ok cb') :
    ∃ periodEnd, CircuitBreaker.Tracked env TradeError cb amount config periodEnd cb' := by
  obtain ⟨config', periodEnd, ht⟩ := CircuitBreaker.trackActivity_ok h
  obtain rfl := Option.some.inj (hconfig.symm.trans ht.configured)
  exact ⟨periodEnd, ht⟩

/-- A period that goes on is counted up. -/
theorem trackAll_grows {orders : List TradeRequest} :
    ∀ {cb cb' : CircuitBreaker.State}, cb.config = some config →
      (∀ periodEnd, (env.u64 (cb.state.currentPeriodStart + config.periodDuration) : Result Nat) =
        .ok periodEnd → ¬ periodEnd ≤ env.timestamp) →
      trackAll env orders cb = .ok cb' →
      cb'.state.currentPeriodTxCount = cb.state.currentPeriodTxCount + orders.length := by
  induction orders with
  | nil => intro cb cb' _ _ h; cases h; rfl
  | cons order orders ih =>
    intro cb cb' hconfig hgoes h
    simp only [trackAll, bind_eq_ok] at h
    obtain ⟨cb₁, h₁, h⟩ := h
    obtain ⟨periodEnd, ht⟩ := tracked_config hconfig h₁
    have hsame : CircuitBreaker.rolledOver env periodEnd cb.state = cb.state :=
      if_neg (hgoes periodEnd ht.ends)
    have hstart := ht.start
    have hcount := ht.count
    rw [hsame] at hstart hcount
    rw [ih ht.configured' (by rw [hstart]; exact hgoes) h, hcount, List.length_cons]
    omega

/-- A period that began now still begins now. -/
theorem trackAll_start {orders : List TradeRequest} :
    ∀ {cb cb' : CircuitBreaker.State}, cb.state.currentPeriodStart = env.timestamp →
      trackAll env orders cb = .ok cb' → cb'.state.currentPeriodStart = env.timestamp := by
  induction orders with
  | nil => intro cb cb' hstart h; cases h; exact hstart
  | cons order orders ih =>
    intro cb cb' hstart h
    simp only [trackAll, bind_eq_ok] at h
    obtain ⟨cb₁, h₁, h⟩ := h
    obtain ⟨config, periodEnd, ht⟩ := CircuitBreaker.trackActivity_ok h₁
    refine ih ?_ h
    rw [ht.start]
    unfold CircuitBreaker.rolledOver
    split
    · rfl
    · exact hstart

/-- An empty period is counted anew by every trade. -/
theorem trackAll_empty (hempty : EmptyPeriod env config) {orders : List TradeRequest} :
    ∀ {cb cb' : CircuitBreaker.State}, cb.config = some config →
      cb.state.currentPeriodStart = env.timestamp → (∀ order ∈ orders, InI128 order.amount) →
      trackAll env orders cb = .ok cb' →
      (∀ order, orders.getLast? = some order →
        cb'.state.currentPeriodTxCount = 1 ∧ cb'.state.currentPeriodVolume = order.amount) ∧
      (cb'.state.pauseLevel = .none → cb.state.pauseLevel = .none ∧ ∀ order ∈ orders,
        order.amount < config.maxVolumePerPeriod ∧ 1 < config.maxTxCountPerPeriod) := by
  obtain ⟨periodEnd, hend, hover⟩ := hempty
  induction orders with
  | nil =>
    intro cb cb' _ _ _ h
    cases h
    refine ⟨?_, fun hnone => ⟨hnone, by simp⟩⟩
    intro _ hlast
    cases hlast
  | cons order orders ih =>
    intro cb cb' hconfig hstart hin h
    rw [List.forall_mem_cons] at hin
    simp only [trackAll, bind_eq_ok] at h
    obtain ⟨cb₁, h₁, h⟩ := h
    obtain ⟨periodEnd', ht⟩ := tracked_config hconfig h₁
    have hends := ht.ends
    rw [hstart, hend] at hends
    obtain rfl := Except.ok.inj hends
    have hone : cb₁.state.currentPeriodTxCount = 1 := by
      rw [ht.count]
      unfold CircuitBreaker.rolledOver
      rw [if_pos hover]
    have hvol : cb₁.state.currentPeriodVolume = order.amount := by
      have hsum := ht.sum
      unfold CircuitBreaker.rolledOver at hsum
      rw [if_pos hover] at hsum
      rw [Int.zero_add] at hsum
      exact i128_exact hsum hin.1
    have hstart₁ : cb₁.state.currentPeriodStart = env.timestamp := by
      rw [ht.start]
      unfold CircuitBreaker.rolledOver
      rw [if_pos hover]
    obtain ⟨hlast, hnone⟩ := ih ht.configured' hstart₁ hin.2 h
    constructor
    · intro last hl
      cases orders with
      | nil =>
        cases h
        obtain rfl := Option.some.inj hl
        exact ⟨hone, hvol⟩
      | cons o os =>
        rw [List.getLast?_cons_cons] at hl
        exact hlast last hl
    · intro hlevel
      obtain ⟨hlevel₁, hbelow⟩ := hnone hlevel
      rw [ht.level] at hlevel₁
      split at hlevel₁
      · cases hlevel₁
      · next hreaches =>
        refine ⟨hlevel₁, List.forall_mem_cons.mpr ⟨?_, hbelow⟩⟩
        have hnot : ¬ CircuitBreaker.Reaches config cb₁.state := fun hr => hreaches ⟨hr, hlevel₁⟩
        unfold CircuitBreaker.Reaches at hnot
        rw [hone, hvol] at hnot
        omega

/-- **The breaker stays as it was** only in an empty period that repeats itself. -/
theorem trackAll_same {orders : List TradeRequest} (hne : orders ≠ [])
    (hin : ∀ order ∈ orders, InI128 order.amount) (h : trackAll env orders cb = .ok cb) :
    cb.state.currentPeriodStart = env.timestamp ∧ cb.state.currentPeriodTxCount = 1 ∧
      (∃ order, orders.getLast? = some order ∧ cb.state.currentPeriodVolume = order.amount) ∧
      ∃ config, cb.config = some config ∧ EmptyPeriod env config ∧
        (cb.state.pauseLevel = .none → ∀ order ∈ orders,
          order.amount < config.maxVolumePerPeriod ∧ 1 < config.maxTxCountPerPeriod) := by
  obtain ⟨order, orders, rfl⟩ := List.exists_cons_of_ne_nil hne
  have hall := h
  simp only [trackAll, bind_eq_ok] at h
  obtain ⟨cb₁, h₁, h⟩ := h
  obtain ⟨config, periodEnd, ht⟩ := CircuitBreaker.trackActivity_ok h₁
  by_cases hover : periodEnd ≤ env.timestamp
  · have hstart₁ : cb₁.state.currentPeriodStart = env.timestamp := by
      rw [ht.start]
      unfold CircuitBreaker.rolledOver
      rw [if_pos hover]
    have hstart := trackAll_start hstart₁ h
    have hends := ht.ends
    rw [hstart] at hends
    have hempty : EmptyPeriod env config := ⟨periodEnd, hends, hover⟩
    obtain ⟨hlast, hnone⟩ := trackAll_empty hempty ht.configured hstart hin hall
    obtain ⟨last, hl⟩ : ∃ last, (order :: orders).getLast? = some last :=
      Option.isSome_iff_exists.mp (by simp)
    obtain ⟨hcount, hvol⟩ := hlast last hl
    exact ⟨hstart, hcount, ⟨last, hl, hvol⟩, config, ht.configured, hempty,
      fun hlevel => (hnone hlevel).2⟩
  · exfalso
    have hgrows := trackAll_grows ht.configured (by
      intro periodEnd' hends
      rw [ht.ends] at hends
      obtain rfl := Except.ok.inj hends
      exact hover) hall
    rw [List.length_cons] at hgrows
    omega

end Counting

/-! ## Trading in an empty period -/

section Empty

variable {env : Env} {trader feeToken feeRecipient : Address} {config : CircuitBreaker.Config}

/-- The breaker after counting a trade as the first of its period. -/
def recounted (cb : CircuitBreaker.State) (amount : Int) : CircuitBreaker.State :=
  { cb with state := { cb.state with currentPeriodVolume := amount, currentPeriodTxCount := 1 } }

theorem recounted_self {cb : CircuitBreaker.State} {amount : Int}
    (hvol : cb.state.currentPeriodVolume = amount) (hcount : cb.state.currentPeriodTxCount = 1) :
    recounted cb amount = cb := by
  unfold recounted
  rw [← hvol, ← hcount]

theorem trackActivity_recounted {cb : CircuitBreaker.State} {amount : Int}
    (hconfig : cb.config = some config) (hstart : cb.state.currentPeriodStart = env.timestamp)
    (hempty : EmptyPeriod env config) (hin : InI128 amount)
    (hbelow : cb.state.pauseLevel = .none →
      amount < config.maxVolumePerPeriod ∧ 1 < config.maxTxCountPerPeriod) :
    (CircuitBreaker.trackActivity env cb amount : Result _) = .ok (recounted cb amount) := by
  obtain ⟨periodEnd, hend, hover⟩ := hempty
  have hreset : (CircuitBreaker.resetPeriod env config cb.state : Result _) = .ok
      { cb.state with currentPeriodStart := env.timestamp, currentPeriodVolume := 0,
                      currentPeriodTxCount := 0 } := by
    unfold CircuitBreaker.resetPeriod
    rw [hstart, hend, ok_bind, if_pos hover]
    rfl
  have hsum : (env.i128 (0 + amount) : Result Int) = .ok amount := by
    rw [Int.zero_add]
    exact i128_of_in _ hin
  have hcounted := CircuitBreaker.trackActivity_below hconfig hreset hsum (by
    rintro ⟨hreaches, hnone⟩
    obtain ⟨hvol, hcount⟩ := hbelow hnone
    have hreaches : config.maxVolumePerPeriod ≤ amount ∨ config.maxTxCountPerPeriod ≤ 0 + 1 :=
      hreaches
    omega)
  rw [hcounted]
  unfold recounted
  rw [← hstart]

/-- In an empty period that stays below the thresholds every request is accepted. -/
theorem tradeEach_empty (hauth : trader ∈ env.signers) (hempty : EmptyPeriod env config) :
    ∀ {orders : List TradeRequest} {s : State} {ns : List Nat} {m : Market}, ValidLimits s →
      (∀ order ∈ orders, 0 < order.amount) → (∀ order ∈ orders, 0 < order.price) →
      (∀ order ∈ orders, InI128 order.amount) → s.initialized = true →
      CircuitBreaker.isPaused s.cb "trade" = false → s.cb.config = some config →
      s.cb.state.currentPeriodStart = env.timestamp →
      (s.cb.state.pauseLevel = .none → ∀ order ∈ orders,
        order.amount < config.maxVolumePerPeriod ∧ 1 < config.maxTxCountPerPeriod) →
      recordTrades env trader orders s.market = .ok (ns, m) →
      (∀ b ∈ (tradeEach env trader feeToken feeRecipient orders s).1, b = true) ∧
      (tradeEach env trader feeToken feeRecipient orders s).2.market = m ∧
      (tradeEach env trader feeToken feeRecipient orders s).2.cb =
        match orders.getLast? with
        | some order => recounted s.cb order.amount
        | none => s.cb := by
  intro orders
  induction orders with
  | nil =>
    intro s ns m _ _ _ _ _ _ _ _ _ h
    cases h
    exact ⟨by simp [tradeEach], rfl, rfl⟩
  | cons order orders ih =>
    intro s ns m hv ha hp hin hi hpause hconfig hstart hbelow h
    rw [List.forall_mem_cons] at ha hp hin
    simp only [recordTrades, bind_eq_ok, pure_eq_ok, Prod.mk.injEq] at h
    obtain ⟨⟨n, m₁⟩, hrec, ⟨ns₁, m₂⟩, hrest, -, rfl⟩ := h
    have htrack := trackActivity_recounted hconfig hstart hempty hin.1
      fun hnone => hbelow hnone order List.mem_cons_self
    obtain ⟨s', htrade, hcb, hm⟩ :
        ∃ s', tradeRequest env trader feeToken feeRecipient s order = .ok (n, s') ∧
          s'.cb = recounted s.cb order.amount ∧ s'.market = m₁ :=
      tradeRequest_of hv hauth ha.1 hp.1 hi hpause htrack hrec
    have hacc := tradeRequest_ok htrade
    have hv' : ValidLimits s' := hacc.limits.valid hv
    obtain ⟨hall, hmarket, hcb'⟩ := ih hv' ha.2 hp.2 hin.2 (hacc.limits.initialized.trans hi) (by rw [hcb]; exact hpause)
      (by rw [hcb]; exact hconfig) (by rw [hcb]; exact hstart)
      (by
        rw [hcb]
        exact fun hnone o ho => hbelow hnone o (List.mem_cons_of_mem _ ho))
      (by rw [hm]; exact hrest)
    simp only [tradeEach, htrade]
    refine ⟨List.forall_mem_cons.mpr ⟨rfl, hall⟩, hmarket, ?_⟩
    rw [hcb', hcb]
    cases orders with
    | nil => rfl
    | cons o os =>
      rw [List.getLast?_cons_cons]
      cases hlast : (o :: os).getLast? with
      | none => simp at hlast
      | some last => rfl

end Empty

/-! ## Agreement -/

section Agreement

variable {env : Env} {trader feeToken feeRecipient : Address} {orders : List TradeRequest}

/-- The trades determine how many there are. -/
theorem Numbered.tradeCount_eq {m m' : Market} (hn : Numbered m) (hn' : Numbered m')
    (h : m'.trades = m.trades) : m'.tradeCount = m.tradeCount := by
  have hle : ∀ {m m' : Market}, Numbered m → Numbered m' → m'.trades = m.trades →
      m'.tradeCount ≤ m.tradeCount := by
    intro m m' hn hn' h
    by_contra hlt
    obtain ⟨t, ht⟩ := (hn'.stored m'.tradeCount).mpr ⟨by omega, le_rfl⟩
    rw [h] at ht
    exact hlt ((hn.stored _).mp ⟨t, ht⟩).2
  exact le_antisymm (hle hn hn' h) (hle hn' hn h.symm)

/-- A batch records every request. -/
theorem recordTrades_count : ∀ {orders : List TradeRequest} {m m' : Market} {ns : List Nat},
    recordTrades env trader orders m = .ok (ns, m') →
    m'.tradeCount = m.tradeCount + orders.length := by
  intro orders
  induction orders with
  | nil => intro m m' ns h; cases h; rfl
  | cons order orders ih =>
    intro m m' ns h
    simp only [recordTrades, bind_eq_ok, pure_eq_ok, Prod.mk.injEq] at h
    obtain ⟨⟨n, m₁⟩, hrec, ⟨ns₁, m₂⟩, hrest, -, rfl⟩ := h
    obtain ⟨-, -, -, -, hone, -⟩ := recordTrade_ok hrec
    rw [ih hrest, hone, List.length_cons]
    omega

/-- What has been accepted, one by one or as a batch, was not to be turned down. -/
theorem not_turnedDown {s : State} {ns : List Nat} {m : Market} (hne : orders ≠ [])
    (hauth : trader ∈ env.signers) (ha : ∀ order ∈ orders, 0 < order.amount)
    (hi : s.initialized = true) (hpause : CircuitBreaker.isPaused s.cb "trade" = false)
    (hrec : recordTrades env trader orders s.market = .ok (ns, m)) :
    ¬ TurnedDown env trader orders s := by
  rintro (hnot | ⟨order, ho, hle⟩ | hnot | hnot | ⟨hc, hover⟩)
  · exact hnot hauth
  · have := ha order ho
    omega
  · rw [hi] at hnot
    cases hnot
  · rw [hpause] at hnot
    cases hnot
  · have := recordTrades_room hc hne hrec
    omega

theorem passed_of_not_turnedDown {s : State} (h : ¬ TurnedDown env trader orders s) :
    trader ∈ env.signers ∧ (∀ order ∈ orders, 0 < order.amount) ∧ s.initialized = true ∧
      CircuitBreaker.isPaused s.cb "trade" = false ∧ (env.overflowChecks = true →
        s.market.stats.totalVolume + requestedVolume orders ≤ i128Max) := by
  unfold TurnedDown at h
  push Not at h
  obtain ⟨hauth, ha, hi, hpause, hroom⟩ := h
  exact ⟨hauth, ha, Bool.eq_true_of_not_eq_false hi, Bool.eq_false_of_not_eq_true hpause, hroom⟩

/-- Where the batch is turned down, one of the single trades is rejected too. -/
theorem TurnedDown.agrees {s : State} (hne : orders ≠ []) (h : TurnedDown env trader orders s) :
    BatchAgrees env trader feeToken feeRecipient orders s := by
  constructor
  · intro hall
    exfalso
    obtain ⟨⟨ns, hrec⟩, -, hpos, hrest⟩ := tradeEach_all hall
    obtain ⟨hauth, hi, hpause⟩ := hrest hne
    exact not_turnedDown hne hauth (fun order ho => (hpos order ho).1) hi hpause hrec h
  · intro _ ns s' hok
    exfalso
    obtain ⟨hauth, ha, hi, hpause, hrec⟩ := batchOf_ok hne hok
    exact not_turnedDown hne hauth ha hi hpause hrec h

/-- No request is rejected from an empty list. -/
theorem agrees_nil {s : State} :
    BatchAgrees env trader feeToken feeRecipient [] s ↔ trader ∈ env.signers := by
  constructor
  · intro h
    obtain ⟨ns, s', hok, -, -⟩ := h.accepted (by simp [tradeEach])
    simp only [batchOf, batchTrade, bind_eq_ok, requireAuth_eq_ok, exists_unit_and] at hok
    exact hok.1
  · intro hauth
    have hok : batchOf env trader feeToken feeRecipient [] s = .ok ([], unmetered s) := by
      unfold batchOf batchTrade Env.requireAuth executeTradeBatch
      rw [require_pos _ hauth, ok_bind, if_pos rfl]
    refine ⟨fun _ => ⟨[], unmetered s, hok, rfl, rfl⟩, ?_⟩
    intro hnot
    exact absurd (by simp [tradeEach]) hnot

/-- A batch that goes through records more than the single trades when one of them is rejected. -/
theorem rejected_differs {s s' : State} {ns : List Nat} (hne : orders ≠ []) (hn : Numbered s.market)
    (hnot : ¬ ∀ b ∈ (tradeEach env trader feeToken feeRecipient orders s).1, b = true)
    (hok : batchOf env trader feeToken feeRecipient orders s = .ok (ns, s')) :
    s'.market.trades ≠ (tradeEach env trader feeToken feeRecipient orders s).2.market.trades := by
  intro hsame
  obtain ⟨-, ha, -, -, hrec⟩ := batchOf_ok hne hok
  obtain ⟨hlen, hn₂, hcount⟩ := @tradeEach_count env trader feeToken feeRecipient orders s hn
  have hbatch := recordTrades_count hrec
  have heq := hn₂.tradeCount_eq ((numbered_invariant env).batch ha hrec hn) hsame
  have hall : (tradeEach env trader feeToken feeRecipient orders s).1.count true =
      (tradeEach env trader feeToken feeRecipient orders s).1.length := by omega
  exact hnot fun b hb => (List.count_eq_length.mp hall b hb).symm

/-- **The batch agrees with the single trades** exactly when it is turned down as a whole, or
when counting the trades would leave the breaker as it is. -/
theorem batch_agrees_iff {d : Deployment} {tr : Trace} {s : State} (h : Run (machine d) tr s)
    (henv : env.Of d) (hlen : orders.length ≤ maxBatchSize)
    (hin : ∀ order ∈ orders, InI128 order.amount) :
    BatchAgrees env trader feeToken feeRecipient orders s ↔
      orders = [] ∧ trader ∈ env.signers ∨ orders ≠ [] ∧ TurnedDown env trader orders s ∨
        Repeating env orders s := by
  by_cases hne : orders = []
  · subst hne
    rw [agrees_nil]
    constructor
    · exact fun hauth => .inl ⟨rfl, hauth⟩
    · rintro (⟨-, hauth⟩ | ⟨hne, -⟩ | hrep)
      · exact hauth
      · exact absurd rfl hne
      · obtain ⟨-, -, order, hlast, -⟩ := hrep.counted
        cases hlast
  by_cases hdown : TurnedDown env trader orders s
  · exact ⟨fun _ => .inr (.inl ⟨hne, hdown⟩), fun _ => hdown.agrees hne⟩
  -- the batch goes through and leaves the breaker as it is
  obtain ⟨hauth, ha, hi, hpause, hroom⟩ := passed_of_not_turnedDown hdown
  have hv := validLimits_run h hi
  have hcounted := volumeCounted_run h
  obtain ⟨ns, m, hrec⟩ : ∃ ns m, recordTrades env trader orders s.market = .ok (ns, m) := by
    refine recordTrades_of ha fun hc => ⟨?_, hroom hc⟩
    have hchecks : d.overflowChecks = true := by rw [← henv.1]; exact hc
    rw [hcounted.volume (.inl hchecks)]
    exact tradedVolume_nonneg _
  obtain ⟨s', hok, hm, hcb⟩ : ∃ s', batchOf env trader feeToken feeRecipient orders s =
      .ok (ns, s') ∧ s'.market = m ∧ s'.cb = s.cb :=
    batchOf_of hne hlen hv hauth ha hi hpause hrec
  constructor
  · intro hagrees
    refine .inr (.inr ?_)
    by_cases hall : ∀ b ∈ (tradeEach env trader feeToken feeRecipient orders s).1, b = true
    · obtain ⟨ns', s'', hok', -, hcb'⟩ := hagrees.accepted hall
      obtain ⟨rfl, rfl⟩ := Prod.mk.inj (Except.ok.inj (hok.symm.trans hok'))
      obtain ⟨-, htrack, hpos, -⟩ := tradeEach_all hall
      rw [← hcb', hcb] at htrack
      obtain ⟨hstart, hcount, hlast, hconfig⟩ := trackAll_same hne hin htrack
      exact ⟨fun order ho => (hpos order ho).2, ⟨hstart, hcount, hlast⟩, hconfig⟩
    · exact absurd (hagrees.rejected hall ns s' hok)
        (rejected_differs hne hcounted.numbered hall hok)
  · rintro (⟨hnil, -⟩ | ⟨-, hdown'⟩ | hrep)
    · exact absurd hnil hne
    · exact absurd hdown' hdown
    · obtain ⟨hstart, hcount, last, hlast, hvol⟩ := hrep.counted
      obtain ⟨config, hconfig, hempty, hbelow⟩ := hrep.config
      obtain ⟨hall, hmarket, hcb'⟩ := @tradeEach_empty env trader feeToken feeRecipient config hauth
        hempty orders s ns m hv ha hrep.price hin hi hpause hconfig hstart hbelow hrec
      refine ⟨fun _ => ⟨ns, s', hok, hm.trans hmarket.symm, ?_⟩, fun hnot => absurd hall hnot⟩
      rw [hcb, hcb', hlast]
      exact (recounted_self hvol hcount).symm

end Agreement

/-! ## Batches of one request -/

/-- The batch records what the single trade is refused for. -/
def recordsRefused (env : Env) (order : TradeRequest) (s : State) : Bool :=
  match batchOf env 1 7 8 [order] s with
  | .ok (_, s') => (tradeEach env 1 7 8 [order] s).1 = [false] &&
      s'.market.trades.lookup 1 ≠ (tradeEach env 1 7 8 [order] s).2.market.trades.lookup 1
  | .error _ => false

/-- The single trade is counted by the breaker and the batch is not. -/
def leavesUncounted (env : Env) (order : TradeRequest) (s : State) : Bool :=
  match batchOf env 1 7 8 [order] s with
  | .ok (_, s') => (tradeEach env 1 7 8 [order] s).1 = [true] &&
      s'.cb.state ≠ (tradeEach env 1 7 8 [order] s).2.cb.state
  | .error _ => false

theorem not_agrees_of_recordsRefused {env : Env} {order : TradeRequest} {s : State}
    (h : recordsRefused env order s = true) : ¬ BatchAgrees env 1 7 8 [order] s := by
  intro hagrees
  unfold recordsRefused at h
  split at h
  · next ns s' hok =>
    simp only [Bool.and_eq_true, decide_eq_true_eq] at h
    obtain ⟨hfalse, hlookup⟩ := h
    have htrades := hagrees.rejected (by rw [hfalse]; decide) ns s' hok
    exact hlookup (by rw [htrades])
  · cases h

theorem not_agrees_of_leavesUncounted {env : Env} {order : TradeRequest} {s : State}
    (h : leavesUncounted env order s = true) : ¬ BatchAgrees env 1 7 8 [order] s := by
  intro hagrees
  unfold leavesUncounted at h
  split at h
  · next ns s' hok =>
    simp only [Bool.and_eq_true, decide_eq_true_eq] at h
    obtain ⟨htrue, hstate⟩ := h
    obtain ⟨ns', s'', hok', -, hcb⟩ := hagrees.accepted (by rw [htrue]; decide)
    obtain ⟨-, rfl⟩ := Prod.mk.inj (Except.ok.inj (hok.symm.trans hok'))
    exact hstate (by rw [hcb])
  · cases h

/-- A request at price 0 is recorded by the batch alone, and one at price 1 is counted by the
single trade alone. -/
theorem batch_disagrees : ∃ tr s, Run (machine ⟨0, true⟩) tr s ∧
    ¬ BatchAgrees (callAt 1 [1]) 1 7 8 [⟨"XLM", 10, 0, true⟩] s ∧
    ¬ BatchAgrees (callAt 1 [1]) 1 7 8 [⟨"XLM", 10, 1, true⟩] s := by
  have hinit : (machine ⟨0, true⟩).init { tokens := .empty } := ⟨rfl, rfl⟩
  obtain ⟨tr, s, hrun, hok⟩ := Machine.exists_run_of_replay hinit
    [(callAt 0 [], .init 9 [] 9 ⟨100, 1000, 3600⟩)]
    (fun _ s => recordsRefused (callAt 1 [1]) ⟨"XLM", 10, 0, true⟩ s &&
      leavesUncounted (callAt 1 [1]) ⟨"XLM", 10, 1, true⟩ s)
    (by decide) (by decide) (by decide)
  rw [Bool.and_eq_true] at hok
  exact ⟨tr, s, hrun, not_agrees_of_recordsRefused hok.1, not_agrees_of_leavesUncounted hok.2⟩

/-- In a period of no length, a batch that repeats the last trade agrees. -/
theorem batch_agrees_iff_repeated : ∃ tr s, Run (machine ⟨0, true⟩) tr s ∧
    s.market.tradeCount = 1 ∧ BatchAgrees (callAt 1 [1]) 1 7 8 [⟨"XLM", 10, 1, true⟩] s := by
  have hinit : (machine ⟨0, true⟩).init { tokens := .empty } := ⟨rfl, rfl⟩
  obtain ⟨tr, s, hrun, hok⟩ := Machine.exists_run_of_replay hinit
    [(callAt 0 [], .init 9 [] 9 ⟨100, 1000, 0⟩),
      (callAt 1 [1], .trade 1 "XLM" 10 1 true 7 0 8)]
    (fun _ s => s.market.tradeCount = 1 ∧ s.cb.config = some ⟨100, 1000, 0⟩ ∧
      s.cb.state = ⟨1, 10, 1, 0, .none⟩) (by decide) (by decide) (by decide)
  obtain ⟨hcount, hconfig, hstate⟩ := of_decide_eq_true hok
  have hempty : EmptyPeriod (callAt 1 [1]) ⟨100, 1000, 0⟩ :=
    ⟨1, ofOption_eq_ok.mpr (Checked.unsigned_of_inNat (by decide)), by decide⟩
  refine ⟨tr, s, hrun, hcount, (batch_agrees_iff hrun (by decide) (by decide) (by decide)).mpr ?_⟩
  refine .inr (.inr ⟨by decide, ?_, ⟨100, 1000, 0⟩, hconfig, hempty, fun _ => by decide⟩)
  rw [hstate]
  exact ⟨rfl, rfl, _, rfl, rfl⟩

end Stellara.Trading
