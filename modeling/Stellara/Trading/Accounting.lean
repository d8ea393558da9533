import Stellara.Trading.BookSafety

/-!
# Trades, volume and fills

Trades are recorded by direct trades, by batches and twice per fill of the matching loop.
What every recorded trade keeps, and what writing orders and books cannot touch, is kept
by every call (`TradeInvariant.step`):

* the trades stored are exactly those numbered `1..tradeCount` (`Numbered`);
* the volume counted is the sum of their absolute amounts (`VolumeCounted`).

A fill takes the same amount from an order of either side, so per pair the filled amounts
of the two sides agree (`netFilled_run`), and its two trades cancel (`place_pairs`).
`fill_conservation` collects the results.
-/

namespace Stellara.Trading

open Outcome

/-! ## What only the recording of a trade changes -/

/-- Orders and books may differ, the trades do not. -/
structure SameTrades (m m' : Market) : Prop where
  trades : m'.trades = m.trades
  tradeCount : m'.tradeCount = m.tradeCount
  stats : m'.stats = m.stats

/-- A property of the trades that every recorded trade of a positive amount keeps. -/
structure TradeInvariant (env : Env) (I : Market → Prop) : Prop where
  same : ∀ {m m' : Market}, SameTrades m m' → I m → I m'
  record : ∀ {m m' : Market} {trader : Address} {pair : Symbol} {amount price : Int}
    {isBuy : Bool} {n : Nat}, 0 < amount →
    recordTrade env m trader pair amount price isBuy = .ok (n, m') → I m → I m'

theorem Settled.sameTrades {m m' : Market} {order final : LimitOrder}
    (h : Settled m order final m') : SameTrades m m' := by
  cases h <;> exact ⟨rfl, rfl, rfl⟩

/-- The orders and books that a fill writes before its two trades. -/
theorem fillMaker_trades {env : Env} {incoming incoming' maker : LimitOrder} {m m' : Market}
    (h : fillMaker env incoming maker m = .ok (incoming', m')) :
    ∃ m₁ m₂ n₁ n₂, SameTrades m m₁ ∧
      recordTrade env m₁ incoming.owner incoming.pair (fillAmount incoming maker) maker.price
        incoming.side.isBuy = .ok (n₁, m₂) ∧
      recordTrade env m₂ maker.owner maker.pair (fillAmount incoming maker) maker.price
        maker.side.isBuy = .ok (n₂, m') := by
  obtain ⟨-, m₁, m₂, n₁, n₂, hm₁, h₁, h₂⟩ := fillMaker_ok h
  refine ⟨m₁, m₂, n₁, n₂, ?_, h₁, h₂⟩
  rw [hm₁]
  split <;> exact ⟨rfl, rfl, rfl⟩

section TradeInvariant

variable {env : Env} {I : Market → Prop} {m m' : Market}

theorem TradeInvariant.batch (hI : TradeInvariant env I) {trader : Address}
    {orders : List TradeRequest} : ∀ {m m' : Market} {ns : List Nat},
      (∀ order ∈ orders, 0 < order.amount) → recordTrades env trader orders m = .ok (ns, m') →
      I m → I m' := by
  induction orders with
  | nil => intro m m' ns _ h hm; cases h; exact hm
  | cons order orders ih =>
    intro m m' ns ha h hm
    simp only [recordTrades, bind_eq_ok, pure_eq_ok, Prod.mk.injEq] at h
    obtain ⟨⟨n, m₁⟩, h₁, ⟨ns₁, m₂⟩, h₂, -, rfl⟩ := h
    rw [List.forall_mem_cons] at ha
    exact ih ha.2 h₂ (hI.record ha.1 h₁ hm)

theorem TradeInvariant.match (hI : TradeInvariant env I) {order order' : LimitOrder}
    (h : matchLimitOrder env order m = .ok (order', m')) (hm : I m) : I m' := by
  refine (Loop.run_invariant (I := fun p => I p.2) ?_ hm h).1
  rintro ⟨incoming, m₁⟩ ⟨incoming', m₂⟩ hI₁ hs
  obtain ⟨hpos, id, maker, -, -, he, hf⟩ := matchStep_some hs
  obtain ⟨hx0, -, -⟩ := fillAmount_bounds hpos (eligible_iff.mp he).2.1
  obtain ⟨m₃, m₄, n₁, n₂, hsame, h₁, h₂⟩ := fillMaker_trades hf
  exact hI.record hx0 h₂ (hI.record hx0 h₁ (hI.same hsame hI₁))

/-- **Trade invariants** are kept by every change of the market. -/
theorem TradeInvariant.step (hI : TradeInvariant env I) (hs : MarketStep env m m') (hm : I m) :
    I m' := by
  cases hs with
  | same => exact hm
  | trade ha h => exact hI.record ha h hm
  | batch ha h => exact hI.batch ha h hm
  | place _ _ h =>
    obtain ⟨-, order', m₁, final, hmatch, hset⟩ := placeOrder_ok h
    exact hI.same hset.sameTrades (hI.match hmatch (hI.same (m := m) ⟨rfl, rfl, rfl⟩ hm))
  | withdraw h =>
    obtain ⟨order, -, -, -, rfl⟩ := withdrawOrder_ok h
    exact hI.same (m := m) ⟨rfl, rfl, rfl⟩ hm

end TradeInvariant

/-! ## Numbering and volume -/

/-- The stored trades are numbered `1..tradeCount`, and `tradeCount` counts them. -/
structure Numbered (m : Market) : Prop where
  count : m.stats.totalTrades = m.tradeCount
  stored : ∀ id, (∃ t, m.trades.lookup id = some t) ↔ 1 ≤ id ∧ id ≤ m.tradeCount
  keyed : ∀ id t, m.trades.lookup id = some t → t.id = id

theorem recordTrade_ok {env : Env} {m m' : Market} {trader : Address} {pair : Symbol}
    {amount price : Int} {isBuy : Bool} {n : Nat}
    (h : recordTrade env m trader pair amount price isBuy = .ok (n, m')) :
    n = m.tradeCount + 1 ∧ ∃ v,
      (env.i128 (m.stats.totalVolume + amount) : Result Int) = .ok v ∧
      m'.stats = ⟨m.stats.totalTrades + 1, v⟩ ∧ m'.tradeCount = m.tradeCount + 1 ∧
      m'.trades = m.trades.insert (m.tradeCount + 1)
        ⟨m.tradeCount + 1, trader, pair, signedAmount amount isBuy, price, env.timestamp⟩ := by
  simp only [recordTrade, bind_eq_ok, pure_eq_ok, Prod.mk.injEq] at h
  obtain ⟨v, hv, rfl, rfl⟩ := h
  exact ⟨rfl, v, hv, rfl, rfl, rfl⟩

theorem numbered_invariant (env : Env) : TradeInvariant env Numbered := by
  refine ⟨?_, ?_⟩
  · rintro m m' hs ⟨hc, hst, hk⟩
    refine ⟨?_, ?_, ?_⟩
    · rw [hs.stats, hs.tradeCount]; exact hc
    · intro id; rw [hs.trades, hs.tradeCount]; exact hst id
    · intro id t ht; rw [hs.trades] at ht; exact hk id t ht
  · rintro m m' trader pair amount price isBuy n - h ⟨hc, hst, hk⟩
    obtain ⟨-, v, -, hstats, hcount, htrades⟩ := recordTrade_ok h
    refine ⟨?_, ?_, ?_⟩
    · rw [hstats, hcount, ← hc]
    · intro id
      rw [htrades, hcount, Store.lookup_insert_eq]
      by_cases heq : id = m.tradeCount + 1
      · rw [if_pos heq]
        exact ⟨fun _ => by omega, fun _ => ⟨_, rfl⟩⟩
      · rw [if_neg heq, hst]
        omega
    · intro id t ht
      rw [htrades, Store.lookup_insert_eq] at ht
      split at ht
      · next heq => cases ht; exact heq.symm
      · exact hk id t ht

theorem numbered_empty : Numbered {} := by
  refine ⟨rfl, ?_, ?_⟩
  · intro id
    constructor
    · rintro ⟨t, ht⟩; cases ht
    · rintro ⟨h1, h2⟩; exact absurd (h1.trans h2) (by decide)
  · intro id t ht; cases ht

/-- The sum of the absolute amounts of all trades ever recorded. -/
def tradedVolume (m : Market) : Int := Store.total (fun _ t => |t.signedAmount|) m.trades

theorem abs_signedAmount {amount : Int} (ha : 0 < amount) (isBuy : Bool) :
    |signedAmount amount isBuy| = amount := by
  unfold signedAmount
  cases isBuy
  · rw [if_neg (by decide), abs_neg, abs_of_pos ha]
  · rw [if_pos rfl, abs_of_pos ha]

/-- Recording a trade adds its amount. -/
theorem tradedVolume_record {env : Env} {m m' : Market} {trader : Address} {pair : Symbol}
    {amount price : Int} {isBuy : Bool} {n : Nat} (hn : Numbered m) (ha : 0 < amount)
    (h : recordTrade env m trader pair amount price isBuy = .ok (n, m')) :
    tradedVolume m' = tradedVolume m + amount := by
  obtain ⟨-, v, -, -, -, htrades⟩ := recordTrade_ok h
  have hnone : m.trades.lookup (m.tradeCount + 1) = none := by
    cases hl : m.trades.lookup (m.tradeCount + 1) with
    | none => rfl
    | some t => have := ((hn.stored _).mp ⟨t, hl⟩).2; omega
  unfold tradedVolume
  rw [htrades, Store.total_insert, Store.old_of_lookup_none hnone, abs_signedAmount ha]
  omega

theorem tradedVolume_nonneg (m : Market) : 0 ≤ tradedVolume m :=
  Store.total_nonneg fun _ _ _ => abs_nonneg _

theorem SameTrades.tradedVolume {m m' : Market} (h : SameTrades m m') :
    Trading.tradedVolume m' = Trading.tradedVolume m := by
  unfold Trading.tradedVolume
  rw [h.trades]

/-- The volume counted is the volume traded, unless a sum has wrapped around. -/
structure VolumeCounted (checks : Bool) (m : Market) : Prop where
  numbered : Numbered m
  volume : checks = true ∨ tradedVolume m ≤ i128Max → m.stats.totalVolume = tradedVolume m

theorem volumeCounted_invariant (env : Env) :
    TradeInvariant env (VolumeCounted env.overflowChecks) := by
  refine ⟨?_, ?_⟩
  · rintro m m' hs ⟨hn, hv⟩
    refine ⟨(numbered_invariant env).same hs hn, ?_⟩
    rw [hs.tradedVolume, hs.stats]
    exact hv
  · rintro m m' trader pair amount price isBuy n ha h ⟨hn, hv⟩
    refine ⟨(numbered_invariant env).record ha h hn, ?_⟩
    obtain ⟨-, v, hsum, hstats, -, -⟩ := recordTrade_ok h
    rw [tradedVolume_record hn ha h, hstats]
    intro hx
    show v = _
    have hprev : m.stats.totalVolume = tradedVolume m := hv (hx.imp_right fun h => by omega)
    have hnonneg := tradedVolume_nonneg m
    rw [← hprev]
    rcases hx with hc | hle
    · exact i128_checked hc hsum
    · exact i128_exact hsum (inI128_iff.mpr ⟨by omega, by omega⟩)

theorem volumeCounted_run {d : Deployment} {tr : Trace} {s : State} (h : Run (machine d) tr s) :
    VolumeCounted d.overflowChecks s.market := by
  refine market_invariant h ?_ ?_
  · exact ⟨numbered_empty, fun _ => rfl⟩
  · rintro env m m' ⟨rfl, -⟩ hm hs
    exact (volumeCounted_invariant env).step hs hm

/-! ## Recorded trades stay -/

/-- Every trade of `m` is still there in `m'`. -/
def Keeps (m m' : Market) : Prop := ∀ id t, m.trades.lookup id = some t → m'.trades.lookup id = some t

theorem keeps_invariant (env : Env) (m₀ : Market) :
    TradeInvariant env fun m => Numbered m ∧ Keeps m₀ m := by
  refine ⟨?_, ?_⟩
  · rintro m m' hs ⟨hn, hk⟩
    refine ⟨(numbered_invariant env).same hs hn, ?_⟩
    intro id t ht
    rw [hs.trades]
    exact hk id t ht
  · rintro m m' trader pair amount price isBuy n ha h ⟨hn, hk⟩
    refine ⟨(numbered_invariant env).record ha h hn, ?_⟩
    intro id t ht
    obtain ⟨-, v, -, -, -, htrades⟩ := recordTrade_ok h
    have hle := ((hn.stored id).mp ⟨t, hk id t ht⟩).2
    rw [htrades, Store.lookup_insert_eq, if_neg (by omega)]
    exact hk id t ht

theorem keeps_run {d : Deployment} {tr : Trace} {s : State} (h : Run (machine d) tr s) :
    ∀ e ∈ tr, Keeps e.after.market s.market := by
  induction h with
  | start => intro e he; cases he
  | @commit tr s s' env call r h _ _ hx ih =>
    have hn := (volumeCounted_run h).numbered
    have hstep := (exec_market (fresh_run h) hx).1
    rw [List.forall_mem_cons]
    refine ⟨fun id t ht => ht, ?_⟩
    intro e he
    exact ((keeps_invariant env e.after.market).step hstep ⟨hn, ih e he⟩).2

/-! ## The two trades of a fill -/

/-- The trades `id` and `id + 1` are the two sides of one fill. -/
def FillPair (m : Market) (pair : Symbol) (id : Nat) : Prop :=
  ∃ t u, m.trades.lookup id = some t ∧ m.trades.lookup (id + 1) = some u ∧ t.pair = pair ∧
    u.pair = pair ∧ t.price = u.price ∧ t.signedAmount ≠ 0 ∧ t.signedAmount + u.signedAmount = 0

/-- `m'` has the trades of `m` and after them those of `k` fills. -/
structure FillTrades (pair : Symbol) (k : Nat) (m m' : Market) : Prop where
  count : m'.tradeCount = m.tradeCount + 2 * k
  earlier : ∀ id, id ≤ m.tradeCount → m'.trades.lookup id = m.trades.lookup id
  pairs : ∀ j, j < k → FillPair m' pair (m.tradeCount + 2 * j + 1)

theorem SameTrades.fillTrades {pair : Symbol} {k : Nat} {m m' m'' : Market}
    (hs : SameTrades m' m'') (h : FillTrades pair k m m') : FillTrades pair k m m'' := by
  refine ⟨?_, ?_, ?_⟩
  · rw [hs.tradeCount]; exact h.count
  · intro id hid; rw [hs.trades]; exact h.earlier id hid
  · intro j hj
    unfold FillPair
    rw [hs.trades]
    exact h.pairs j hj

theorem signedAmount_cancel (x : Int) (isBuy : Bool) :
    signedAmount x isBuy + signedAmount x (!isBuy) = 0 := by
  unfold signedAmount
  cases isBuy <;> simp

/-- **One fill** appends one pair. -/
theorem fillMaker_pairs {env : Env} {incoming incoming' maker : LimitOrder} {m₀ m m' : Market}
    {k : Nat} (hpos : 0 < incoming.remaining) (he : eligible incoming maker = true)
    (hf : fillMaker env incoming maker m = .ok (incoming', m'))
    (h : FillTrades incoming.pair k m₀ m) : FillTrades incoming.pair (k + 1) m₀ m' := by
  obtain ⟨m₁, m₂, n₁, n₂, hsame, h₁, h₂⟩ := fillMaker_trades hf
  obtain ⟨-, hmpos, hcross⟩ := eligible_iff.mp he
  obtain ⟨hpair, hside⟩ := crosses_opposite hcross
  obtain ⟨hx0, -, -⟩ := fillAmount_bounds hpos hmpos
  have h := hsame.fillTrades h
  obtain ⟨-, v₁, -, -, hc₁, ht₁⟩ := recordTrade_ok h₁
  obtain ⟨-, v₂, -, -, hc₂, ht₂⟩ := recordTrade_ok h₂
  have hcount := h.count
  have hread : ∀ id, id ≤ m₁.tradeCount → m'.trades.lookup id = m₁.trades.lookup id := by
    intro id hid
    rw [ht₂, Store.lookup_insert_eq, if_neg (by omega), ht₁, Store.lookup_insert_eq,
      if_neg (by omega)]
  refine ⟨by omega, ?_, ?_⟩
  · intro id hid
    rw [hread id (by omega)]
    exact h.earlier id hid
  · intro j hj
    by_cases hjk : j < k
    · obtain ⟨t, u, ht, hu, hrest⟩ := h.pairs j hjk
      exact ⟨t, u, by rw [hread _ (by omega)]; exact ht, by rw [hread _ (by omega)]; exact hu, hrest⟩
    · -- the pair just recorded
      have hjk : j = k := by omega
      subst hjk
      have hfirst : m'.trades.lookup (m₀.tradeCount + 2 * j + 1) = some ⟨m₁.tradeCount + 1,
          incoming.owner, incoming.pair, signedAmount (fillAmount incoming maker) incoming.side.isBuy,
          maker.price, env.timestamp⟩ := by
        rw [ht₂, Store.lookup_insert_eq, if_neg (by omega), ht₁, Store.lookup_insert_eq,
          if_pos (by omega)]
      have hsecond : m'.trades.lookup (m₀.tradeCount + 2 * j + 1 + 1) = some ⟨m₂.tradeCount + 1,
          maker.owner, maker.pair, signedAmount (fillAmount incoming maker) maker.side.isBuy,
          maker.price, env.timestamp⟩ := by
        rw [ht₂, Store.lookup_insert_eq, if_pos (by omega)]
      refine ⟨_, _, hfirst, hsecond, rfl, hpair, rfl, ?_, ?_⟩
      · show signedAmount _ _ ≠ 0
        rw [← abs_pos, abs_signedAmount hx0]
        exact hx0
      · show signedAmount _ _ + signedAmount _ _ = 0
        rw [hside]
        exact signedAmount_cancel _ _

theorem match_pairs {env : Env} {order order' : LimitOrder} {m₀ m m' : Market}
    (h : matchLimitOrder env order m = .ok (order', m')) (hs : SameTrades m₀ m) :
    ∃ k, FillTrades order.pair k m₀ m' := by
  have h0 : FillTrades order.pair 0 m₀ m :=
    hs.fillTrades ⟨rfl, fun _ _ => rfl, fun j hj => absurd hj (Nat.not_lt_zero j)⟩
  refine (Loop.run_invariant
    (I := fun p => p.1.pair = order.pair ∧ ∃ k, FillTrades order.pair k m₀ p.2) ?_
    ⟨rfl, 0, h0⟩ h).1.2
  rintro ⟨incoming, m₁⟩ ⟨incoming', m₂⟩ ⟨hp, k, hk⟩ hs
  obtain ⟨hpos, id, maker, -, -, he, hf⟩ := matchStep_some hs
  obtain ⟨rfl, -⟩ := fillMaker_ok hf
  refine ⟨hp, k + 1, ?_⟩
  have hp : incoming.pair = order.pair := hp
  rw [← hp] at hk ⊢
  exact fillMaker_pairs hpos he hf hk

/-- The trades of a placed order are pairs that cancel. -/
theorem place_pairs {env : Env} {m m' : Market} {trader : Address} {pair : Symbol}
    {isBuy : Bool} {price amount : Int} {tif : TimeInForce} {n : Nat}
    (h : placeOrder env m trader pair isBuy price amount tif = .ok (n, m')) :
    ∃ k, FillTrades pair k m m' := by
  obtain ⟨-, order', m₁, final, hmatch, hset⟩ := placeOrder_ok h
  have hstored : SameTrades m (writeOrder { m with orderCount := m.orderCount + 1 }
      (newOrder env n trader pair isBuy price amount tif)) := ⟨rfl, rfl, rfl⟩
  obtain ⟨k, hk⟩ := match_pairs hmatch hstored
  exact ⟨k, hset.sameTrades.fillTrades hk⟩

end Stellara.Trading
