import Stellara.Trading.Placing
import Stellara.Trading.Steps

/-!
# The order book in every reachable state

`BookOk _ none` holds of the empty market and every change of the market keeps it, so it
holds after any calls in any order.  Read off it:

* `never_crossed`: every open bid is below every open ask of its pair;
* `book_representation`: the id lists and the stored orders describe the same book.
-/

namespace Stellara.Trading

open Outcome Quote

theorem bookOk_empty : BookOk {} none := by
  refine ⟨?_, ?_, ?_, fun _ _ => List.nodup_nil, ?_⟩
  · intro id order hr; cases hr
  · intro id order _ hr; cases hr
  · intro pair isBuy id
    constructor
    · intro hm; cases hm
    · rintro ⟨-, order, hr, -⟩; cases hr
  · rintro q ⟨id, order, -, hr, -⟩; cases hr

theorem bookOk_step {env : Env} {m m' : Market} (h : BookOk m none) (hs : MarketStep env m m') :
    BookOk m' none := by
  cases hs with
  | same => exact h
  | trade _ hx => exact (recordTrade_sameBook hx).bookOk h
  | batch _ hx => exact (recordTrades_sameBook hx).bookOk h
  | place ha _ hx => exact place_bookOk h ha hx
  | withdraw hx => exact withdraw_bookOk h hx

theorem bookOk_run {d : Deployment} {tr : Trace} {s : State}
    (h : Run (machine d) tr s) : BookOk s.market none :=
  market_invariant h bookOk_empty fun _ _ _ _ hb hs => bookOk_step hb hs

/-- Orders that `get_open_orders` returns are stored open orders of the pair and side. -/
theorem mem_getOpenOrders {m : Market} (h : BookOk m none) {pair : Symbol} {isBuy : Bool}
    {order : LimitOrder} :
    order ∈ getOpenOrders m pair isBuy ↔ readOrder m order.id = some order ∧
      order.isOpen = true ∧ order.pair = pair ∧ order.side.isBuy = isBuy := by
  unfold getOpenOrders
  rw [List.mem_filter, List.mem_filterMap]
  constructor
  · rintro ⟨⟨id, hid, hr⟩, ho⟩
    obtain ⟨-, order', hr', hp, hs, -⟩ := (h.listed _ _ _).mp hid
    rw [hr] at hr'
    cases hr'
    exact ⟨by rw [(h.keyed id order hr).1]; exact hr, ho, hp, hs⟩
  · rintro ⟨hr, ho, hp, hs⟩
    have hrests := (h.ok _ order (by simp) hr).rests ho
    exact ⟨⟨order.id, (h.listed _ _ _).mpr ⟨by simp, order, hr, hp, hs, hrests⟩, hr⟩, ho⟩

/-- **Never crossed.**  In every reachable state every open buy order of a pair is priced
strictly below every open sell order of the pair, and so are the orders that
`get_open_orders` returns. -/
theorem never_crossed {d : Deployment} {tr : Trace} {s : State}
    (h : Run (machine d) tr s) :
    (∀ i j bid ask, readOrder s.market i = some bid → readOrder s.market j = some ask →
      bid.isOpen = true → ask.isOpen = true → bid.side = .buy → ask.side = .sell →
      bid.pair = ask.pair → bid.price < ask.price) ∧
    ∀ pair, ∀ bid ∈ getOpenOrders s.market pair true, ∀ ask ∈ getOpenOrders s.market pair false,
      bid.price < ask.price := by
  have hb := bookOk_run h
  have hstored : ∀ i j bid ask, readOrder s.market i = some bid →
      readOrder s.market j = some ask → bid.isOpen = true → ask.isOpen = true →
      bid.side = .buy → ask.side = .sell → bid.pair = ask.pair → bid.price < ask.price := by
    intro i j bid ask hi hj hbo hao hbs has hp
    have hbr := (hb.ok i bid (by simp) hi).rests hbo
    have har := (hb.ok j ask (by simp) hj).rests hao
    refine uncrossed_iff.mp hb.uncrossed bid.quote ⟨i, bid, by simp, hi, hbr, rfl⟩ ask.quote
      ⟨j, ask, by simp, hj, har, rfl⟩ ?_ ?_ hp
    · simp [LimitOrder.quote, hbs, OrderSide.isBuy]
    · simp [LimitOrder.quote, has, OrderSide.isBuy]
  refine ⟨hstored, ?_⟩
  intro pair bid hbid ask hask
  obtain ⟨hi, hbo, hbp, hbs⟩ := (mem_getOpenOrders hb).mp hbid
  obtain ⟨hj, hao, hap, has⟩ := (mem_getOpenOrders hb).mp hask
  refine hstored _ _ bid ask hi hj hbo hao ?_ ?_ (hbp.trans hap.symm)
  · cases hside : bid.side with
    | buy => rfl
    | sell => rw [hside] at hbs; cases hbs
  · cases hside : ask.side with
    | sell => rfl
    | buy => rw [hside] at has; cases has

/-- Contract 0, administrator 9; calls are signed by `signers`. -/
def callAt (t : Nat) (signers : List Address) : Env := ⟨⟨0, true⟩, t, 0, signers⟩

/-- Trader 1 offers 10 at 100; trader 2 takes 4 of it and bids for 3 more at 90. -/
def smallBook : List (Env × Call) :=
  [(callAt 0 [], .init 9 [] 9 ⟨1000, 1000, 60⟩),
    (callAt 1 [1], .createLimitOrder 1 "XLM" false 100 10 .gtc),
    (callAt 2 [2], .createLimitOrder 2 "XLM" true 100 4 .gtc),
    (callAt 3 [2], .createLimitOrder 2 "XLM" true 90 3 .gtc)]

theorem never_crossed_small :
    ∃ (tr : Trace) (s : State), Run (machine ⟨0, true⟩) tr s ∧
      getOpenOrders s.market "XLM" true ≠ [] ∧ getOpenOrders s.market "XLM" false ≠ [] ∧
      ∀ bid ∈ getOpenOrders s.market "XLM" true, ∀ ask ∈ getOpenOrders s.market "XLM" false,
        bid.price < ask.price := by
  have hinit : (machine ⟨0, true⟩).init { tokens := .empty } := ⟨rfl, rfl⟩
  obtain ⟨tr, s, hrun, hok⟩ := Machine.exists_run_of_replay hinit smallBook
    (fun _ s => getOpenOrders s.market "XLM" true ≠ [] ∧ getOpenOrders s.market "XLM" false ≠ [])
    (by decide) (by decide) (by decide)
  obtain ⟨hbid, hask⟩ := of_decide_eq_true hok
  exact ⟨tr, s, hrun, hbid, hask, (never_crossed hrun).2 "XLM"⟩

/-- **Book representation.**  In every reachable state the book of a pair and side lists,
once each, exactly the ids of the open GTC orders of the pair and side that have something
left; every stored order's remaining amount fits its status; and IOC, FOK, cancelled and
filled orders are in no book. -/
theorem book_representation {d : Deployment} {tr : Trace} {s : State}
    (h : Run (machine d) tr s) :
    (∀ pair isBuy id, id ∈ readOrderBook s.market pair isBuy ↔
      ∃ order, readOrder s.market id = some order ∧ order.id = id ∧ order.pair = pair ∧
        order.side.isBuy = isBuy ∧ order.tif = .gtc ∧
        (order.status = .open' ∨ order.status = .partiallyFilled) ∧ 0 < order.remaining) ∧
    (∀ pair isBuy, (readOrderBook s.market pair isBuy).Nodup) ∧
    (∀ id order, readOrder s.market id = some order →
      0 ≤ order.remaining ∧ order.remaining ≤ order.amount ∧
      (order.status = .open' → order.remaining = order.amount) ∧
      (order.status = .partiallyFilled → 0 < order.remaining ∧ order.remaining < order.amount) ∧
      (order.status = .filled → order.remaining = 0)) ∧
    ∀ id order, readOrder s.market id = some order →
      order.tif = .ioc ∨ order.tif = .fok ∨ order.status = .cancelled ∨ order.status = .filled →
      ∀ pair isBuy, id ∉ readOrderBook s.market pair isBuy := by
  have hb := bookOk_run h
  refine ⟨?_, hb.nodup, ?_, ?_⟩
  · intro pair isBuy id
    rw [hb.listed]
    constructor
    · rintro ⟨-, order, hr, hp, hs, hgtc, hopen, hpos⟩
      refine ⟨order, hr, (hb.keyed id order hr).1, hp, hs, hgtc, ?_, hpos⟩
      simpa [LimitOrder.isOpen] using hopen
    · rintro ⟨order, hr, -, hp, hs, hgtc, hst, hpos⟩
      exact ⟨by simp, order, hr, hp, hs, hgtc, by simpa [LimitOrder.isOpen] using hst, hpos⟩
  · intro id order hr
    have hok := hb.ok id order (by simp) hr
    exact ⟨hok.remaining_nonneg, hok.remaining_le, hok.unfilled, hok.partly, hok.full⟩
  · intro id order hr hcase pair isBuy hm
    obtain ⟨-, order', hr', -, -, hgtc, hopen, -⟩ := (hb.listed _ _ _).mp hm
    rw [hr] at hr'
    cases hr'
    rcases hcase with h | h | h | h
    · rw [hgtc] at h; cases h
    · rw [hgtc] at h; cases h
    · unfold LimitOrder.isOpen at hopen; rw [h] at hopen; cases hopen
    · unfold LimitOrder.isOpen at hopen; rw [h] at hopen; cases hopen

/-- The sell order is partly filled and listed, the buy order that took from it is not. -/
theorem book_representation_small :
    ∃ (tr : Trace) (s : State), Run (machine ⟨0, true⟩) tr s ∧
      readOrderBook s.market "XLM" false = [1] ∧ readOrderBook s.market "XLM" true = [3] ∧
      ∀ id order, readOrder s.market id = some order →
        order.tif = .ioc ∨ order.tif = .fok ∨ order.status = .cancelled ∨ order.status = .filled →
        ∀ pair isBuy, id ∉ readOrderBook s.market pair isBuy := by
  have hinit : (machine ⟨0, true⟩).init { tokens := .empty } := ⟨rfl, rfl⟩
  obtain ⟨tr, s, hrun, hok⟩ := Machine.exists_run_of_replay hinit smallBook
    (fun _ s => readOrderBook s.market "XLM" false = [1] ∧ readOrderBook s.market "XLM" true = [3])
    (by decide) (by decide) (by decide)
  obtain ⟨hask, hbid⟩ := of_decide_eq_true hok
  exact ⟨tr, s, hrun, hask, hbid, (book_representation hrun).2.2.2⟩

end Stellara.Trading
