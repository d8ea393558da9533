import Stellara.Trading.Accounting

/-!
# Filled amounts

A fill takes one amount from the maker and the same amount from the taker, but the taker
is written back only after the loop.  So while an order is matched the orders stored are
out of balance by exactly what it has been filled (`Filling`); writing it back restores
the balance.

`fill_conservation` joins this with the numbering, the volume and the pairs of trades.
-/

namespace Stellara.Trading

open Outcome

/-- The amount filled on the orders of a pair and side. -/
def filledAmount (m : Market) (pair : Symbol) (side : OrderSide) : Int :=
  Store.total (fun _ order => if order.pair = pair ∧ order.side = side then
    order.amount - order.remaining else 0) m.orders

/-- The filled amount of an order of the pair, counted negative for a sell order. -/
def LimitOrder.netFilled (order : LimitOrder) (pair : Symbol) : Int :=
  if order.pair = pair then signedAmount (order.amount - order.remaining) order.side.isBuy else 0

/-- What buy orders have been filled in excess of sell orders. -/
def netFilled (m : Market) (pair : Symbol) : Int :=
  Store.total (fun _ order => order.netFilled pair) m.orders

theorem filledAmount_buy (m : Market) (pair : Symbol) :
    filledAmount m pair .buy = netFilled m pair + filledAmount m pair .sell := by
  unfold filledAmount netFilled
  rw [← Store.total_add]
  refine Store.total_congr ?_
  intro id order _
  unfold LimitOrder.netFilled signedAmount
  by_cases hp : order.pair = pair <;> cases hs : order.side <;> simp [hp, OrderSide.isBuy]

/-! ## Writing an order -/

theorem netFilled_writeOrder (m : Market) (order : LimitOrder) (pair : Symbol) :
    netFilled (writeOrder m order) pair = netFilled m pair -
      Store.old (fun _ order => order.netFilled pair) m.orders order.id + order.netFilled pair :=
  Store.total_insert _ _ _ _

/-- Replacing a stored order. -/
theorem netFilled_replace {m : Market} {order old : LimitOrder} (h : readOrder m order.id = some old)
    (pair : Symbol) :
    netFilled (writeOrder m order) pair = netFilled m pair - old.netFilled pair +
      order.netFilled pair := by
  rw [netFilled_writeOrder, Store.old_of_lookup h]

/-- Cancelling changes no filled amount. -/
theorem netFilled_cancel {m : Market} {order : LimitOrder} (h : readOrder m order.id = some order)
    (pair : Symbol) :
    netFilled (writeOrder m { order with status := .cancelled }) pair = netFilled m pair := by
  rw [netFilled_writeOrder]
  show netFilled m pair - Store.old (fun _ order => order.netFilled pair) m.orders order.id +
    order.netFilled pair = netFilled m pair
  rw [Store.old_of_lookup h]
  omega

theorem netFilled_new {m : Market} {order : LimitOrder} (h : readOrder m order.id = none)
    (pair : Symbol) : netFilled (writeOrder m order) pair = netFilled m pair + order.netFilled pair := by
  rw [netFilled_writeOrder, Store.old_of_lookup_none h]
  omega

theorem SameBook.netFilled {m m' : Market} (h : SameBook m m') (pair : Symbol) :
    Trading.netFilled m' pair = Trading.netFilled m pair := by
  unfold Trading.netFilled; rw [h.orders]

/-- A fill counts on the side of the order. -/
theorem LimitOrder.netFilled_fill (order : LimitOrder) (x : Int) (pair : Symbol) :
    (order.fill x).netFilled pair = order.netFilled pair +
      if order.pair = pair then signedAmount x order.side.isBuy else 0 := by
  unfold LimitOrder.netFilled LimitOrder.fill signedAmount
  dsimp only
  by_cases hp : order.pair = pair
  · rw [if_pos hp, if_pos hp, if_pos hp]
    split <;> omega
  · rw [if_neg hp, if_neg hp, if_neg hp]
    rfl

/-! ## Matching -/

/-- While an order is matched, what it has been filled is missing from the stored orders. -/
structure Filling (order : LimitOrder) (p : LimitOrder × Market) : Prop where
  matching : Matching order p
  stale : readOrder p.2 order.id = some order
  balanced : ∀ pair, netFilled p.2 pair + p.1.netFilled pair = 0

theorem fillMaker_netFilled {env : Env} {incoming incoming' maker : LimitOrder} {m m' : Market}
    (hr : readOrder m maker.id = some maker)
    (h : fillMaker env incoming maker m = .ok (incoming', m')) (pair : Symbol) :
    netFilled m' pair = netFilled m pair + if maker.pair = pair then
      signedAmount (fillAmount incoming maker) maker.side.isBuy else 0 := by
  obtain ⟨-, m₁, m₂, n₁, n₂, hm₁, h₁, h₂⟩ := fillMaker_ok h
  have hs : SameBook m₁ m' := (recordTrade_sameBook h₁).trans (recordTrade_sameBook h₂)
  have hw : netFilled m₁ pair =
      netFilled (writeOrder m (maker.fill (fillAmount incoming maker))) pair := by
    rw [hm₁]
    split <;> rfl
  have hr' : readOrder m (maker.fill (fillAmount incoming maker)).id = some maker := hr
  rw [hs.netFilled, hw, netFilled_replace hr', LimitOrder.netFilled_fill]
  omega

/-- **A fill** moves both sides by the same amount. -/
theorem filling_step {env : Env} {order : LimitOrder} {p p' : LimitOrder × Market}
    (h : Filling order p) (hs : matchStep env p = .ok (some p')) : Filling order p' := by
  have hm' := matching_step h.matching hs
  obtain ⟨incoming, m⟩ := p
  obtain ⟨incoming', m'⟩ := p'
  obtain ⟨-, id, maker, hid, hr, he, hf⟩ := matchStep_some hs
  have hkey : maker.id = id := (h.matching.book.keyed id maker hr).1
  have hne : order.id ≠ maker.id := by
    intro heq
    obtain ⟨hx, -⟩ := (h.matching.book.listed _ _ _).mp hid
    exact hx (by rw [heq, hkey])
  obtain ⟨hpair, hside⟩ := crosses_opposite (eligible_iff.mp he).2.2
  refine ⟨hm', ?_, ?_⟩
  · show readOrder m' order.id = some order
    rw [(fillMaker_market hf).1, if_neg hne]
    exact h.stale
  · intro pair
    have hbal := h.balanced pair
    have hcancel := signedAmount_cancel (fillAmount incoming maker) incoming.side.isBuy
    show netFilled m' pair + incoming'.netFilled pair = 0
    rw [fillMaker_netFilled (by rw [hkey]; exact hr) hf, (fillMaker_ok hf).1,
      LimitOrder.netFilled_fill, hpair, hside]
    unfold LimitOrder.oppositeIsBuy
    dsimp only at hbal
    split <;> omega

/-- Writing the matched order back. -/
theorem Settled.netFilled {m m' : Market} {order final stale : LimitOrder}
    (h : Settled m order final m') (hr : readOrder m order.id = some stale) (pair : Symbol) :
    Trading.netFilled m' pair =
      Trading.netFilled m pair - stale.netFilled pair + order.netFilled pair := by
  cases h with
  | listed => exact netFilled_replace hr pair
  | done => exact netFilled_replace hr pair
  | dropped =>
    have hw : readOrder (writeOrder m order) order.id = some order := by
      rw [readOrder_writeOrder, if_pos rfl]
    rw [netFilled_cancel hw, netFilled_replace hr]

theorem place_netFilled {env : Env} {m m' : Market} {trader : Address} {pair : Symbol}
    {isBuy : Bool} {price amount : Int} {tif : TimeInForce} {n : Nat} (hb : BookOk m none)
    (hm : ∀ pair, netFilled m pair = 0) (ha : 0 < amount)
    (h : placeOrder env m trader pair isBuy price amount tif = .ok (n, m')) :
    ∀ pair, netFilled m' pair = 0 := by
  obtain ⟨hn, order', m₁, final, hmatch, hset⟩ := placeOrder_ok h
  have hempty : ∀ p, (newOrder env n trader pair isBuy price amount tif).netFilled p = 0 := by
    intro p
    unfold LimitOrder.netFilled newOrder signedAmount
    dsimp only
    rw [sub_self, neg_zero, ite_self, ite_self]
  have hnone : readOrder m n = none := by
    cases hr : readOrder m n with
    | none => rfl
    | some o => have := (hb.keyed n o hr).2; omega
  have hid0 : (newOrder env n trader pair isBuy price amount tif).id = m.orderCount + 1 := hn
  have hcreate := hb.create hid0 rfl
  have hstart : Filling (newOrder env n trader pair isBuy price amount tif)
      (newOrder env n trader pair isBuy price amount tif,
        writeOrder { m with orderCount := m.orderCount + 1 }
          (newOrder env n trader pair isBuy price amount tif)) := by
    refine ⟨⟨newOrder_taker env n trader pair isBuy price tif ha, rfl, hcreate⟩, ?_, ?_⟩
    · rw [readOrder_writeOrder, if_pos rfl]
    · intro p
      have hold : netFilled { m with orderCount := m.orderCount + 1 } p = 0 := hm p
      show netFilled (writeOrder _ _) p + _ = 0
      rw [netFilled_new hnone, hempty, hold]
      rfl
  have hend := (Loop.run_invariant (I := Filling _) (fun p p' => filling_step) hstart hmatch).1
  have hid : order'.id = n := congrArg LimitOrder.id hend.matching.same
  intro p
  have hbal := hend.balanced p
  dsimp only at hbal
  rw [hset.netFilled (by rw [hid]; exact hend.stale), hempty]
  omega

theorem withdraw_netFilled {m m' : Market} {trader : Address} {orderId : Nat} (hb : BookOk m none)
    (h : withdrawOrder m trader orderId = .ok m') (pair : Symbol) :
    netFilled m' pair = netFilled m pair := by
  obtain ⟨order, hr, -, -, rfl⟩ := withdrawOrder_ok h
  have hr' : readOrder m order.id = some order := by rw [(hb.keyed _ _ hr).1]; exact hr
  show netFilled (writeOrder m { order with status := .cancelled }) pair = _
  exact netFilled_cancel hr' pair

/-- The two sides of every pair have been filled the same. -/
theorem netFilled_run {d : Deployment} {tr : Trace} {s : State} (h : Run (machine d) tr s)
    (pair : Symbol) : netFilled s.market pair = 0 := by
  refine (market_invariant h (I := fun m => BookOk m none ∧ ∀ pair, netFilled m pair = 0)
    ⟨bookOk_empty, fun _ => rfl⟩ ?_).2 pair
  rintro env m m' - ⟨hb, hm⟩ hs
  refine ⟨bookOk_step hb hs, ?_⟩
  cases hs with
  | same => exact hm
  | trade _ hx => intro p; rw [(recordTrade_sameBook hx).netFilled]; exact hm p
  | batch _ hx => intro p; rw [(recordTrades_sameBook hx).netFilled]; exact hm p
  | place ha _ hx => exact place_netFilled hb hm ha hx
  | withdraw hx => intro p; rw [withdraw_netFilled hb hx]; exact hm p

/-! ## The accounts -/

/-- **Fill conservation and trade accounting.**  In every reachable state the trade counter
is the number of trades in the statistics; the trades recorded are numbered `1` to the
counter and stay as they were recorded; the volume in the statistics is the sum of their
absolute amounts (as long as that sum is an `i128`, or overflows trap); the buy orders of
a pair have been filled as much as its sell orders; and the trades that a placed order
records are pairs, one per fill, whose signed amounts cancel. -/
theorem fill_conservation {d : Deployment} {tr : Trace} {s : State} (h : Run (machine d) tr s) :
    s.market.stats.totalTrades = s.market.tradeCount ∧
    (∀ id, (∃ t, s.market.trades.lookup id = some t) ↔ 1 ≤ id ∧ id ≤ s.market.tradeCount) ∧
    (∀ id t, s.market.trades.lookup id = some t → t.id = id) ∧
    (∀ e ∈ tr, ∀ id t, e.after.market.trades.lookup id = some t →
      s.market.trades.lookup id = some t) ∧
    (d.overflowChecks = true ∨ tradedVolume s.market ≤ i128Max →
      s.market.stats.totalVolume = tradedVolume s.market) ∧
    (∀ pair, filledAmount s.market pair .buy = filledAmount s.market pair .sell) ∧
    ∀ e ∈ tr, ∀ trader pair isBuy price amount tif,
      e.call = .createLimitOrder trader pair isBuy price amount tif →
      ∃ k, FillTrades pair k e.before.market e.after.market := by
  obtain ⟨⟨hcount, hstored, hkeyed⟩, hvolume⟩ := volumeCounted_run h
  refine ⟨hcount, hstored, hkeyed, keeps_run h, hvolume, ?_, ?_⟩
  · intro pair
    rw [filledAmount_buy, netFilled_run h, zero_add]
  · intro e he trader pair isBuy price amount tif hcall
    obtain ⟨-, -, -, hx⟩ := h.of_mem he
    rw [hcall] at hx
    obtain ⟨n, hx, -⟩ := replyId_ok.mp hx
    obtain ⟨-, -, -, -, _, _, market, hplace, hafter⟩ := createLimitOrder_ok hx
    rw [hafter]
    exact place_pairs hplace

/-- One fill of 4, recorded as the trades 1 and 2. -/
theorem fill_conservation_small :
    ∃ (tr : Trace) (s : State), Run (machine ⟨0, true⟩) tr s ∧
      s.market.tradeCount = 2 ∧ s.market.stats.totalVolume = 8 ∧ tradedVolume s.market = 8 ∧
      filledAmount s.market "XLM" .sell = 4 ∧ filledAmount s.market "XLM" .buy = 4 := by
  have hinit : (machine ⟨0, true⟩).init { tokens := .empty } := ⟨rfl, rfl⟩
  obtain ⟨tr, s, hrun, hok⟩ := Machine.exists_run_of_replay hinit smallBook
    (fun _ s => s.market.tradeCount = 2 ∧ s.market.stats.totalVolume = 8 ∧
      filledAmount s.market "XLM" .sell = 4) (by decide) (by decide) (by decide)
  obtain ⟨hcount, hvolume, hsell⟩ := of_decide_eq_true hok
  obtain ⟨-, -, -, -, htotal, hfilled, -⟩ := fill_conservation hrun
  exact ⟨tr, s, hrun, hcount, hvolume, (htotal (.inl rfl)).symm.trans hvolume, hsell,
    (hfilled "XLM").trans hsell⟩

end Stellara.Trading
