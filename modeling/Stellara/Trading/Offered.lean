import Stellara.Trading.Accounting

/-!
# What the book offers to an order

`offered` is the sum of what the eligible orders of the opposite book have left.  A fill
takes the same amount from it and from the taker (`fillMaker_offered`), so how much an
order will trade is known before it is matched.  Two results rest on it:

* `sumAvailable_of`: the availability test of a fill-or-kill order compares with `offered`
  as long as its sum stays in range;
* `placeOrder_of`: an order whose fills leave the volume in range is placed, unless it is a
  fill-or-kill order for more than is offered.
-/

namespace Stellara.Trading

open Outcome

/-! ## Sums over a list -/

section Sums

variable {f g : Nat → Int} {l : List Nat} {k : Nat}

theorem sum_map_change (hn : l.Nodup) (hk : k ∈ l) (h : ∀ j, j ≠ k → g j = f j) :
    (l.map g).sum = (l.map f).sum + (g k - f k) := by
  have hrest : (l.erase k).map g = (l.erase k).map f := by
    refine List.map_congr_left fun j hj => h j ?_
    rintro rfl
    exact hn.not_mem_erase hj
  have hg := List.sum_map_erase g hk
  have hf := List.sum_map_erase f hk
  rw [hrest] at hg
  omega

theorem sum_map_filter_ne (h : g k = 0) :
    ((l.filter fun j => j ≠ k).map g).sum = (l.map g).sum := by
  induction l with
  | nil => rfl
  | cons j l ih =>
    by_cases hj : j = k
    · rw [List.filter_cons_of_neg (by simpa using hj), ih, List.map_cons, List.sum_cons, hj, h,
        Int.zero_add]
    · rw [List.filter_cons_of_pos (by simpa using hj), List.map_cons, List.sum_cons, ih,
        List.map_cons, List.sum_cons]

end Sums

/-! ## Offers -/

/-- What the order stored under `id` can contribute to filling the incoming one. -/
def offerOf (m : Market) (incoming : LimitOrder) (id : Nat) : Int :=
  match readOrder m id with
  | some order => if eligible incoming order then order.remaining else 0
  | none => 0

/-- What the opposite book can contribute. -/
def offered (m : Market) (incoming : LimitOrder) : Int :=
  ((readOrderBook m incoming.pair incoming.oppositeIsBuy).map (offerOf m incoming)).sum

section Offers

variable {m : Market} {incoming order : LimitOrder} {id : Nat}

theorem offerOf_eligible (hr : readOrder m id = some order) (he : eligible incoming order = true) :
    offerOf m incoming id = order.remaining := by
  unfold offerOf
  rw [hr]
  exact if_pos he

theorem offerOf_nonneg (m : Market) (incoming : LimitOrder) (id : Nat) :
    0 ≤ offerOf m incoming id := by
  unfold offerOf
  split
  · split
    · next he => exact (eligible_iff.mp he).2.1.le
    · exact le_rfl
  · exact le_rfl

theorem offers_nonneg (m : Market) (incoming : LimitOrder) (ids : List Nat) :
    0 ≤ (ids.map (offerOf m incoming)).sum := by
  apply List.sum_nonneg
  intro x hx
  obtain ⟨id, -, rfl⟩ := List.mem_map.mp hx
  exact offerOf_nonneg m incoming id

theorem offered_nonneg (m : Market) (incoming : LimitOrder) : 0 ≤ offered m incoming :=
  offers_nonneg m incoming _

theorem remaining_le_offered (hid : id ∈ readOrderBook m incoming.pair incoming.oppositeIsBuy)
    (hr : readOrder m id = some order) (he : eligible incoming order = true) :
    order.remaining ≤ offered m incoming := by
  have hsum := List.sum_map_erase (offerOf m incoming) hid
  have hrest := offers_nonneg m incoming
    ((readOrderBook m incoming.pair incoming.oppositeIsBuy).erase id)
  rw [offerOf_eligible hr he] at hsum
  unfold offered
  omega

theorem offered_eq_zero (h : ∀ id ∈ readOrderBook m incoming.pair incoming.oppositeIsBuy,
    ∀ order, readOrder m id = some order → eligible incoming order = false) :
    offered m incoming = 0 := by
  apply List.sum_eq_zero
  intro x hx
  obtain ⟨id, hid, rfl⟩ := List.mem_map.mp hx
  unfold offerOf
  split
  · next order hr => rw [h id hid order hr]; rfl
  · rfl

/-- **A fill** takes the same amount from the taker and from what is offered to it. -/
theorem fillMaker_offered {env : Env} {incoming incoming' maker : LimitOrder} {m m' : Market}
    (hn : (readOrderBook m incoming.pair incoming.oppositeIsBuy).Nodup)
    (hid : maker.id ∈ readOrderBook m incoming.pair incoming.oppositeIsBuy)
    (hr : readOrder m maker.id = some maker) (he : eligible incoming maker = true)
    (hpos : 0 < incoming.remaining) (hf : fillMaker env incoming maker m = .ok (incoming', m')) :
    offered m' incoming' = offered m incoming - fillAmount incoming maker := by
  have hread := (fillMaker_market hf).1
  have hbook := fillMaker_opposite hf
  obtain ⟨rfl, -⟩ := fillMaker_ok hf
  obtain ⟨hopen, hmpos, hcross⟩ := eligible_iff.mp he
  obtain ⟨hx0, -, hxm⟩ := fillAmount_bounds hpos hmpos
  generalize fillAmount incoming maker = x at *
  have hother : ∀ j, j ≠ maker.id → offerOf m' (incoming.fill x) j = offerOf m incoming j := by
    intro j hj
    unfold offerOf
    rw [hread, if_neg hj]
    rfl
  have hmaker : offerOf m' (incoming.fill x) maker.id = maker.remaining - x := by
    unfold offerOf
    rw [hread, if_pos rfl]
    show (if eligible incoming (maker.fill x) = true then maker.remaining - x else 0) = _
    by_cases hz : maker.remaining - x = 0
    · rw [hz, ite_self]
    · have hpart : (maker.fill x).isOpen = true := by
        unfold LimitOrder.isOpen
        rw [fill_status, if_neg hz]
        rfl
      rw [if_pos (eligible_iff.mpr ⟨hpart, by show 0 < maker.remaining - x; omega, hcross⟩)]
  have hchange := sum_map_change hn hid hother
  rw [hmaker, offerOf_eligible hr he] at hchange
  have hsum : offered m' (incoming.fill x) =
      ((readOrderBook m incoming.pair incoming.oppositeIsBuy).map
        (offerOf m' (incoming.fill x))).sum := by
    show ((readOrderBook m' incoming.pair incoming.oppositeIsBuy).map _).sum = _
    rw [hbook]
    split
    · next hz => exact sum_map_filter_ne (hmaker.trans hz)
    · rfl
  rw [hsum, hchange]
  unfold offered
  omega

end Offers

/-! ## The availability test -/

/-- The sum stays in range when each order that it comes to fits. -/
theorem sumAvailable_of {env : Env} {m : Market} {incoming : LimitOrder} {ids : List Nat} :
    ∀ {total : Int}, 0 ≤ total → total < incoming.remaining →
      (∀ ids₁ id ids₂, ids = ids₁ ++ id :: ids₂ →
        total + (ids₁.map (offerOf m incoming)).sum < incoming.remaining →
        total + (ids₁.map (offerOf m incoming)).sum + offerOf m incoming id ≤ i128Max) →
      ∃ t, sumAvailable env m incoming total ids = .ok t ∧
        (incoming.remaining ≤ t ↔
          incoming.remaining ≤ total + (ids.map (offerOf m incoming)).sum) := by
  induction ids with
  | nil =>
    intro total _ _ _
    refine ⟨total, rfl, ?_⟩
    rw [List.map_nil, List.sum_nil, Int.add_zero]
  | cons id ids ih =>
    intro total h0 hlt hroom
    have hfit := hroom [] id ids rfl
    rw [List.map_nil, List.sum_nil, Int.add_zero] at hfit
    have hnext : ∀ ids₁ id' ids₂, ids = ids₁ ++ id' :: ids₂ →
        total + offerOf m incoming id + (ids₁.map (offerOf m incoming)).sum < incoming.remaining →
        total + offerOf m incoming id + (ids₁.map (offerOf m incoming)).sum +
          offerOf m incoming id' ≤ i128Max := by
      intro ids₁ id' ids₂ heq hlt'
      have := hroom (id :: ids₁) id' ids₂ (by rw [heq]; rfl)
      rw [List.map_cons, List.sum_cons] at this
      omega
    have hsum : total + ((id :: ids).map (offerOf m incoming)).sum =
        total + offerOf m incoming id + (ids.map (offerOf m incoming)).sum := by
      rw [List.map_cons, List.sum_cons]
      omega
    rw [hsum]
    -- an order that is not eligible adds nothing
    have hskip : offerOf m incoming id = 0 →
        ∃ t, sumAvailable env m incoming total ids = .ok t ∧ (incoming.remaining ≤ t ↔
          incoming.remaining ≤ total + offerOf m incoming id +
            (ids.map (offerOf m incoming)).sum) := by
      intro hz
      rw [hz, Int.add_zero] at hnext ⊢
      exact ih h0 hlt hnext
    unfold sumAvailable
    cases hr : readOrder m id with
    | none =>
      refine hskip ?_
      unfold offerOf
      rw [hr]
    | some order =>
      dsimp only
      split
      · next he =>
        rw [offerOf_eligible hr he] at hfit hnext hsum ⊢
        have hpos := (eligible_iff.mp he).2.1
        have hin : InI128 (total + order.remaining) :=
          inI128_iff.mpr ⟨by omega, hfit hlt⟩
        have hrest := offers_nonneg m incoming ids
        unfold Env.i128
        rw [i128_of_in _ hin, ok_bind]
        split
        · next hge => exact ⟨_, rfl, ⟨fun _ => by omega, fun _ => hge⟩⟩
        · next hge => exact ih (by omega) (by omega) hnext
      · next he =>
        refine hskip ?_
        unfold offerOf
        rw [hr]
        exact if_neg he

/-! ## Matching within the range of the volume -/

/-- Recording a trade can fail only at the sum of the volume. -/
theorem recordTrade_of_sum {env : Env} {m : Market} {amount volume : Int} (trader : Address)
    (pair : Symbol) (price : Int) (isBuy : Bool)
    (h : (env.i128 (m.stats.totalVolume + amount) : Result Int) = .ok volume) :
    ∃ n m', recordTrade env m trader pair amount price isBuy = .ok (n, m') ∧
      m'.stats.totalVolume = volume := by
  unfold recordTrade
  rw [h]
  exact ⟨_, _, rfl, rfl⟩

/-- A trade whose amount the volume has room for is recorded. -/
theorem recordTrade_of {env : Env} {m : Market} {amount : Int} (trader : Address) (pair : Symbol)
    (price : Int) (isBuy : Bool) (hin : InI128 (m.stats.totalVolume + amount)) :
    ∃ n m', recordTrade env m trader pair amount price isBuy = .ok (n, m') ∧
      m'.stats.totalVolume = m.stats.totalVolume + amount :=
  recordTrade_of_sum trader pair price isBuy (i128_of_in _ hin)

theorem fillMaker_of {env : Env} {m : Market} {incoming maker : LimitOrder}
    (h₁ : InI128 (m.stats.totalVolume + fillAmount incoming maker))
    (h₂ : InI128 (m.stats.totalVolume + fillAmount incoming maker + fillAmount incoming maker)) :
    ∃ q, fillMaker env incoming maker m = .ok q := by
  refine fillMaker_of_records fun m₁ hstats => ?_
  obtain ⟨n₁, m₂, hrec₁, hv⟩ := @recordTrade_of env m₁ _ incoming.owner incoming.pair maker.price
    incoming.side.isBuy (by rw [hstats]; exact h₁)
  obtain ⟨n₂, m₃, hrec₂, -⟩ := @recordTrade_of env m₂ _ maker.owner maker.pair maker.price
    maker.side.isBuy (by rw [hv, hstats]; exact h₂)
  exact ⟨n₁, m₂, n₂, m₃, hrec₁, hrec₂⟩

/-- What the matching loop keeps when the volume has room for all fills: the volume counted is
the volume traded, the room left is enough for what is still to be traded, and taker and offers
shrink together. -/
structure Roomy (order : LimitOrder) (surplus : Int) (p : LimitOrder × Market) : Prop where
  matching : Matching order p
  numbered : Numbered p.2
  exact : p.2.stats.totalVolume = tradedVolume p.2
  room : tradedVolume p.2 + 2 * min p.1.remaining (offered p.2 p.1) ≤ i128Max
  surplus : offered p.2 p.1 - p.1.remaining = surplus

section Roomy

variable {env : Env} {order : LimitOrder} {surplus : Int} {p p' : LimitOrder × Market}

/-- The amount of a fill is a part of what is still to be traded. -/
theorem Roomy.fits {incoming maker : LimitOrder} {m : Market} {id : Nat}
    (h : Roomy order surplus (incoming, m)) (hpos : 0 < incoming.remaining)
    (hid : id ∈ readOrderBook m incoming.pair incoming.oppositeIsBuy)
    (hr : readOrder m id = some maker) (he : eligible incoming maker = true) :
    0 < fillAmount incoming maker ∧
      tradedVolume m + 2 * fillAmount incoming maker ≤ i128Max := by
  obtain ⟨hx0, hxi, hxm⟩ := fillAmount_bounds hpos (eligible_iff.mp he).2.1
  have hoffer := remaining_le_offered hid hr he
  have hroom : tradedVolume m + 2 * min incoming.remaining (offered m incoming) ≤ i128Max := h.room
  refine ⟨hx0, ?_⟩
  omega

theorem Roomy.body (h : Roomy order surplus p) : ∃ o, matchStep env p = .ok o := by
  obtain ⟨incoming, m⟩ := p
  unfold matchStep
  dsimp only
  split
  · exact ⟨none, rfl⟩
  next hrem =>
  split
  · exact ⟨none, rfl⟩
  next i hpick =>
  obtain ⟨id, maker, hid, hr, he⟩ := pickBestMatchIndex_some hpick
  obtain ⟨hx0, hfit⟩ := h.fits (by omega) (List.mem_of_getElem? hid) hr he
  have hexact : m.stats.totalVolume = tradedVolume m := h.exact
  have hnonneg := tradedVolume_nonneg m
  obtain ⟨q, hq⟩ : ∃ q, fillMaker env incoming maker m = .ok q := by
    apply fillMaker_of
    · exact inI128_iff.mpr ⟨by omega, by omega⟩
    · exact inI128_iff.mpr ⟨by omega, by omega⟩
  simp only [hid, ofOption, ok_bind, hr, he, if_true, hq]
  exact ⟨_, rfl⟩

theorem Roomy.step (h : Roomy order surplus p) (hs : matchStep env p = .ok (some p')) :
    Roomy order surplus p' := by
  obtain ⟨incoming, m⟩ := p
  obtain ⟨incoming', m'⟩ := p'
  have hmatching := matching_step h.matching hs
  obtain ⟨hpos, id, maker, hid, hr, he, hf⟩ := matchStep_some hs
  obtain ⟨hx0, hfit⟩ := h.fits hpos hid hr he
  have hkey : maker.id = id := (h.matching.book.keyed id maker hr).1
  subst hkey
  have hnodup : (readOrderBook m incoming.pair incoming.oppositeIsBuy).Nodup :=
    h.matching.book.nodup _ _
  have hoffered := fillMaker_offered hnodup hid hr he hpos hf
  have hexact : m.stats.totalVolume = tradedVolume m := h.exact
  have hroom : tradedVolume m + 2 * min incoming.remaining (offered m incoming) ≤ i128Max := h.room
  have hsurplus : offered m incoming - incoming.remaining = surplus := h.surplus
  have hnonneg := tradedVolume_nonneg m
  -- the two trades
  obtain ⟨m₁, m₂, n₁, n₂, hsame, h₁, h₂⟩ := fillMaker_trades hf
  have hn₁ := (numbered_invariant env).same hsame h.numbered
  have hn₂ := (numbered_invariant env).record hx0 h₁ hn₁
  have hv₁ := tradedVolume_record hn₁ hx0 h₁
  have hv₂ := tradedVolume_record hn₂ hx0 h₂
  rw [hsame.tradedVolume] at hv₁
  obtain ⟨-, v₁, hsum₁, hstats₁, -⟩ := recordTrade_ok h₁
  obtain ⟨-, v₂, hsum₂, hstats₂, -⟩ := recordTrade_ok h₂
  rw [hsame.stats] at hsum₁
  have he₁ := i128_exact hsum₁ (inI128_iff.mpr ⟨by omega, by omega⟩)
  rw [hstats₁] at hsum₂
  have he₂ : v₂ = v₁ + fillAmount incoming maker :=
    i128_exact hsum₂ (inI128_iff.mpr ⟨by show -2 ^ 127 ≤ v₁ + _; omega, by show v₁ + _ ≤ _; omega⟩)
  obtain ⟨rfl, -⟩ := fillMaker_ok hf
  have hrem : (incoming.fill (fillAmount incoming maker)).remaining =
    incoming.remaining - fillAmount incoming maker := rfl
  refine ⟨hmatching, (numbered_invariant env).record hx0 h₂ hn₂, ?_, ?_, ?_⟩
  · show m'.stats.totalVolume = tradedVolume m'
    rw [hstats₂]
    show v₂ = _
    omega
  · show tradedVolume m' + 2 * min (incoming.fill (fillAmount incoming maker)).remaining
      (offered m' (incoming.fill (fillAmount incoming maker))) ≤ i128Max
    omega
  · show offered m' (incoming.fill (fillAmount incoming maker)) -
      (incoming.fill (fillAmount incoming maker)).remaining = surplus
    omega

/-- **Matching with room** ends, with as much traded as is asked for and offered. -/
theorem Roomy.match {m : Market} (h : Roomy order surplus (order, m)) :
    ∃ order' m', matchLimitOrder env order m = .ok (order', m') ∧
      Roomy order surplus (order', m') ∧ (0 ≤ surplus → order'.remaining ≤ 0) := by
  obtain ⟨⟨order', m'⟩, hmatch⟩ : ∃ q, matchLimitOrder env order m = .ok q := by
    refine Loop.run_ok (I := Roomy order surplus) (μ := matchMeasure) (fun p hp => hp.body)
      (fun p p' hp hs => ⟨hp.step hs, matchMeasure_step hp.matching hs⟩) h ?_
    unfold matchMeasure
    dsimp only
    split <;> omega
  obtain ⟨hend, hnone⟩ := Loop.run_invariant (I := Roomy order surplus)
    (fun p p' hp hs => hp.step hs) h hmatch
  refine ⟨order', m', hmatch, hend, ?_⟩
  intro hsurplus
  rcases matchStep_none hnone with hrem | hall
  · exact hrem
  · have hzero := offered_eq_zero hall
    have hs : offered m' order' - order'.remaining = surplus := hend.surplus
    omega

end Roomy

/-! ## Placing -/

/-- Storing the new order changes nothing in what it is offered. -/
theorem offered_create {m m' : Market} {order : LimitOrder} (hb : BookOk m none)
    (hid : order.id = m.orderCount + 1)
    (hm : m' = writeOrder { m with orderCount := m.orderCount + 1 } order) :
    offered m' order = offered m order := by
  have hbook : readOrderBook m' order.pair order.oppositeIsBuy =
      readOrderBook m order.pair order.oppositeIsBuy := by rw [hm]; rfl
  unfold offered
  rw [hbook]
  refine congrArg List.sum (List.map_congr_left fun id hmem => ?_)
  obtain ⟨-, o, hr, -⟩ := (hb.listed _ _ _).mp hmem
  have hle := (hb.keyed id o hr).2
  unfold offerOf
  rw [hm, readOrder_writeOrder, if_neg (by omega)]
  rfl

/-- The availability test is passed unless a fill-or-kill order asks for more than is offered. -/
theorem requireFillable_of {env : Env} {m : Market} {order : LimitOrder}
    (hrem : order.remaining = order.amount) (ha : 0 < order.amount)
    (hsums : order.tif.isFok = true → ∀ ids₁ id ids₂,
      readOrderBook m order.pair order.oppositeIsBuy = ids₁ ++ id :: ids₂ →
      (ids₁.map (offerOf m order)).sum < order.amount →
      (ids₁.map (offerOf m order)).sum + offerOf m order id ≤ i128Max) :
    requireFillable env m order =
      if order.tif.isFok = true ∧ offered m order < order.amount then
        .error (.err .orderWouldNotFullyFill) else .ok () := by
  unfold requireFillable
  by_cases hfok : order.tif.isFok = true
  · obtain ⟨t, ht, hiff⟩ : ∃ t, availableFillForOrder env m order = .ok t ∧
        (order.remaining ≤ t ↔ order.remaining ≤ 0 + offered m order) := by
      refine sumAvailable_of le_rfl (by omega) ?_
      intro ids₁ id ids₂ heq hlt
      rw [Int.zero_add, hrem] at hlt
      rw [Int.zero_add]
      exact hsums hfok ids₁ id ids₂ heq hlt
    rw [hrem, Int.zero_add] at hiff
    rw [if_pos hfok, ht, ok_bind]
    by_cases hlt : offered m order < order.amount
    · rw [if_pos ⟨hfok, hlt⟩, require_neg _ (by omega)]
    · rw [if_neg fun h => hlt h.2, require_pos _ (by omega)]
  · rw [if_neg hfok, if_neg fun h => hfok h.1]

theorem settleOrder_of {m : Market} {order : LimitOrder}
    (h : order.tif.isFok = true → order.remaining ≤ 0) : ∃ m', settleOrder m order = .ok m' := by
  unfold settleOrder
  cases htif : order.tif with
  | gtc => dsimp only; split <;> exact ⟨_, rfl⟩
  | ioc => dsimp only; split <;> exact ⟨_, rfl⟩
  | fok =>
    rw [htif] at h
    rw [require_pos _ (h rfl)]
    exact ⟨_, rfl⟩

/-- **A new order** whose fills the volume has room for, and whose availability sum stays in
range if it is a fill-or-kill order, is placed; only a fill-or-kill order for more than is
offered is not. -/
theorem placeOrder_of {env : Env} {m : Market} {trader : Address} {pair : Symbol} {isBuy : Bool}
    {price amount : Int} {tif : TimeInForce} {order : LimitOrder} (hb : BookOk m none)
    (hn : Numbered m) (hexact : m.stats.totalVolume = tradedVolume m) (ha : 0 < amount)
    (horder : newOrder env (m.orderCount + 1) trader pair isBuy price amount tif = order)
    (hroom : tradedVolume m + 2 * min amount (offered m order) ≤ i128Max)
    (hsums : tif.isFok = true → ∀ ids₁ id ids₂,
      readOrderBook m order.pair order.oppositeIsBuy = ids₁ ++ id :: ids₂ →
      (ids₁.map (offerOf m order)).sum < amount →
      (ids₁.map (offerOf m order)).sum + offerOf m order id ≤ i128Max) :
    (∃ n m', placeOrder env m trader pair isBuy price amount tif = .ok (n, m') ∧
      tradedVolume m' ≤ i128Max) ∨
    placeOrder env m trader pair isBuy price amount tif = .error (.err .orderWouldNotFullyFill) ∧
      tif.isFok = true ∧ offered m order < amount := by
  have htaker : Taker order := by
    rw [← horder]
    exact newOrder_taker env _ trader pair isBuy price tif ha
  have hid : order.id = m.orderCount + 1 := by rw [← horder]; rfl
  have hrem : order.remaining = amount := by rw [← horder]; rfl
  have hamount : order.amount = amount := by rw [← horder]; rfl
  have htif : order.tif = tif := by rw [← horder]; rfl
  have hfillable : requireFillable env { m with orderCount := m.orderCount + 1 } order =
      if order.tif.isFok = true ∧ offered m order < order.amount then
        .error (.err .orderWouldNotFullyFill) else .ok () := by
    refine requireFillable_of (by omega) (by omega) ?_
    rw [htif, hamount]
    exact hsums
  rw [htif, hamount] at hfillable
  unfold placeOrder nextOrderId
  dsimp only
  rw [horder, hfillable]
  by_cases hkill : tif.isFok = true ∧ offered m order < amount
  · rw [if_pos hkill]
    exact .inr ⟨rfl, hkill⟩
  · rw [if_neg hkill, ok_bind]
    left
    -- the loop
    have hoffered := offered_create hb hid rfl
    have hsame : SameTrades m (writeOrder { m with orderCount := m.orderCount + 1 } order) :=
      ⟨rfl, rfl, rfl⟩
    have hstart : Roomy order (offered m order - amount)
        (order, writeOrder { m with orderCount := m.orderCount + 1 } order) := by
      refine ⟨⟨htaker, rfl, hb.create hid rfl⟩, (numbered_invariant env).same hsame hn, ?_, ?_, ?_⟩
      · show _ = tradedVolume (writeOrder _ order)
        rw [hsame.tradedVolume]
        exact hexact
      · show tradedVolume (writeOrder _ order) + 2 * min order.remaining (offered _ order) ≤ i128Max
        rw [hsame.tradedVolume, hoffered, hrem]
        exact hroom
      · show offered _ order - order.remaining = _
        rw [hoffered, hrem]
    obtain ⟨order', m₁, hmatch, hend, hfilled⟩ :
        ∃ order' m₁, matchLimitOrder env order _ = .ok (order', m₁) ∧ _ := hstart.match
    have htif' : order'.tif = tif := by
      have := congrArg LimitOrder.tif hend.matching.same
      rw [← htif]
      exact this
    obtain ⟨m₂, hsettle⟩ : ∃ m₂, settleOrder (writeOrder m₁ order') order' = .ok m₂ := by
      refine settleOrder_of fun hfok => hfilled ?_
      rw [htif'] at hfok
      have hge : ¬ offered m order < amount := fun hlt => hkill ⟨hfok, hlt⟩
      omega
    obtain ⟨final, hsettled⟩ := settleOrder_ok hsettle
    rw [hmatch, ok_bind]
    dsimp only
    rw [hsettle]
    refine ⟨_, _, rfl, ?_⟩
    rw [hsettled.sameTrades.tradedVolume]
    have hroom' : tradedVolume m₁ + 2 * min order'.remaining (offered m₁ order') ≤ i128Max :=
      hend.room
    have hrem' : 0 ≤ order'.remaining := hend.matching.taker.remaining_nonneg
    have := offered_nonneg m₁ order'
    omega

end Stellara.Trading
