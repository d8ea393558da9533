import Stellara.Lib.Quotes
import Stellara.Trading.Market

/-!
# What matching does to the book

`BookOk m x` relates the stored orders and the id lists:

    id listed under (pair, side)  ↔  the stored order rests there     (BookOk.listed)

and the quotes of the resting orders are uncrossed.  While an order is being matched its
stored record is out of date and its id in no list; `x` names that exempted id (`none`
between calls).

* `matchStep_some`: an iteration that goes on fills an eligible order of the opposite book.
* `match_spec`: matching ends with the taker filled or no eligible order left.
* `matchLimitOrder_bound`: the bound on the iterations is never reached.
-/

namespace Stellara.Trading

open Outcome Quote

/-! ## Reading after writing -/

section Reading

variable (m : Market) (order : LimitOrder) (pair pair' : Symbol) (isBuy isBuy' : Bool)
  (id : Nat) (ids : List Nat)

theorem readOrder_writeOrder :
    readOrder (writeOrder m order) id = if id = order.id then some order else readOrder m id :=
  Store.lookup_insert_eq _ _ _ _

@[simp] theorem readOrderBook_writeOrder :
    readOrderBook (writeOrder m order) pair isBuy = readOrderBook m pair isBuy := rfl

@[simp] theorem orderCount_writeOrder : (writeOrder m order).orderCount = m.orderCount := rfl

@[simp] theorem readOrder_writeOrderBook :
    readOrder (writeOrderBook m pair isBuy ids) id = readOrder m id := rfl

theorem readOrderBook_writeOrderBook :
    readOrderBook (writeOrderBook m pair isBuy ids) pair' isBuy' =
      if pair' = pair ∧ isBuy' = isBuy then ids else readOrderBook m pair' isBuy' := by
  unfold readOrderBook writeOrderBook
  dsimp only
  rw [Store.lookup_insert_eq]
  by_cases h : pair' = pair ∧ isBuy' = isBuy
  · obtain ⟨rfl, rfl⟩ := h; simp
  · rw [if_neg h, if_neg (by rintro ⟨⟩; exact h ⟨rfl, rfl⟩)]

@[simp] theorem readOrder_removeOrderFromBook :
    readOrder (removeOrderFromBook m pair isBuy id) = readOrder m := rfl

theorem mem_removeOrderFromBook (id' : Nat) :
    id' ∈ readOrderBook (removeOrderFromBook m pair isBuy id) pair' isBuy' ↔
      id' ∈ readOrderBook m pair' isBuy' ∧ ¬ (pair' = pair ∧ isBuy' = isBuy ∧ id' = id) := by
  unfold removeOrderFromBook
  rw [readOrderBook_writeOrderBook]
  split
  · next h => obtain ⟨rfl, rfl⟩ := h; simp
  · next h => exact ⟨fun hm => ⟨hm, fun hc => h ⟨hc.1, hc.2.1⟩⟩, fun hm => hm.1⟩

theorem nodup_removeOrderFromBook (h : (readOrderBook m pair' isBuy').Nodup) :
    (readOrderBook (removeOrderFromBook m pair isBuy id) pair' isBuy').Nodup := by
  unfold removeOrderFromBook
  rw [readOrderBook_writeOrderBook]
  split
  · next h' => obtain ⟨rfl, rfl⟩ := h'; exact h.filter _
  · exact h

@[simp] theorem readOrder_pushOrderToBook :
    readOrder (pushOrderToBook m pair isBuy id) = readOrder m := rfl

theorem readOrderBook_pushOrderToBook :
    readOrderBook (pushOrderToBook m pair isBuy id) pair' isBuy' =
      if pair' = pair ∧ isBuy' = isBuy then readOrderBook m pair isBuy ++ [id]
      else readOrderBook m pair' isBuy' :=
  readOrderBook_writeOrderBook ..

end Reading

/-- A recorded trade changes neither orders nor books. -/
structure SameBook (m m' : Market) : Prop where
  orders : m'.orders = m.orders
  books : m'.books = m.books
  orderCount : m'.orderCount = m.orderCount

theorem SameBook.readOrder {m m' : Market} (h : SameBook m m') (id : Nat) :
    readOrder m' id = readOrder m id := by
  unfold Trading.readOrder; rw [h.orders]

theorem SameBook.readOrderBook {m m' : Market} (h : SameBook m m') (pair : Symbol) (isBuy : Bool) :
    readOrderBook m' pair isBuy = readOrderBook m pair isBuy := by
  unfold Trading.readOrderBook; rw [h.books]

theorem SameBook.trans {m m' m'' : Market} (h : SameBook m m') (h' : SameBook m' m'') :
    SameBook m m'' :=
  ⟨h'.orders.trans h.orders, h'.books.trans h.books, h'.orderCount.trans h.orderCount⟩

theorem recordTrade_sameBook {env : Env} {m m' : Market} {trader : Address} {pair : Symbol}
    {amount price : Int} {isBuy : Bool} {n : Nat}
    (h : recordTrade env m trader pair amount price isBuy = .ok (n, m')) : SameBook m m' := by
  simp only [recordTrade, bind_eq_ok, pure_eq_ok, Prod.mk.injEq] at h
  obtain ⟨v, -, -, rfl⟩ := h
  exact ⟨rfl, rfl, rfl⟩

theorem recordTrades_sameBook {env : Env} {trader : Address} {orders : List TradeRequest} :
    ∀ {m m' : Market} {ns : List Nat},
      recordTrades env trader orders m = .ok (ns, m') → SameBook m m' := by
  induction orders with
  | nil => intro m m' ns h; cases h; exact ⟨rfl, rfl, rfl⟩
  | cons order orders ih =>
    intro m m' ns h
    simp only [recordTrades, bind_eq_ok, pure_eq_ok, Prod.mk.injEq] at h
    obtain ⟨⟨n, m1⟩, h1, ⟨ns1, m2⟩, h2, -, rfl⟩ := h
    exact (recordTrade_sameBook h1).trans (ih h2)

/-! ## Eligible orders -/

/-- The quote that an order makes. -/
def LimitOrder.quote (order : LimitOrder) : Quote Symbol Int :=
  ⟨order.pair, order.side.isBuy, order.price⟩

/-- The order rests in a book. -/
def LimitOrder.Rests (order : LimitOrder) : Prop :=
  order.tif = .gtc ∧ order.isOpen = true ∧ 0 < order.remaining

/-- **The price test of the code is the crossing of quotes.** -/
theorem orderMatches_iff {incoming resting : LimitOrder} :
    orderMatches incoming resting = true ↔ Crosses incoming.quote resting.quote := by
  unfold orderMatches Crosses LimitOrder.quote
  by_cases hp : incoming.pair = resting.pair <;>
    cases hi : incoming.side <;> cases hr : resting.side <;> simp [hp, OrderSide.isBuy]

theorem eligible_iff {incoming resting : LimitOrder} :
    eligible incoming resting = true ↔
      resting.isOpen = true ∧ 0 < resting.remaining ∧ Crosses incoming.quote resting.quote := by
  unfold eligible
  rw [Bool.and_eq_true, Bool.and_eq_true, decide_eq_true_eq, orderMatches_iff, and_assoc]

/-- An order that crosses is of the incoming order's pair, on the opposite side. -/
theorem crosses_opposite {incoming resting : LimitOrder}
    (h : Crosses incoming.quote resting.quote) :
    resting.pair = incoming.pair ∧ resting.side.isBuy = incoming.oppositeIsBuy := by
  obtain ⟨hp, hside⟩ := h
  refine ⟨hp.symm, ?_⟩
  simp only [LimitOrder.quote] at hside
  unfold LimitOrder.oppositeIsBuy
  rcases hside with ⟨hi, hr, -⟩ | ⟨hi, hr, -⟩ <;> rw [hi, hr] <;> rfl

/-! ## The search -/

/-- The search returns what it started with, or an eligible order of the list. -/
theorem pickBest_some {m : Market} {incoming : LimitOrder} {ids : List Nat} :
    ∀ {i : Nat} {best : Option Best} {b : Best}, pickBest m incoming i best ids = some b →
      best = some b ∨ ∃ j id order, ids[j]? = some id ∧ b.index = i + j ∧
        readOrder m id = some order ∧ eligible incoming order = true := by
  induction ids with
  | nil => intro i best b h; exact .inl h
  | cons id ids ih =>
    intro i best b h
    have hlift : ∀ {best : Option Best}, pickBest m incoming (i + 1) best ids = some b →
        best = some b ∨ ∃ j id' order, (id :: ids)[j]? = some id' ∧ b.index = i + j ∧
          readOrder m id' = some order ∧ eligible incoming order = true := by
      intro best h
      rcases ih h with h | ⟨j, id', order, hj, hb, hr, he⟩
      · exact .inl h
      · exact .inr ⟨j + 1, id', order, by simpa using hj, by omega, hr, he⟩
    unfold pickBest at h
    split at h
    · exact hlift h
    · next order hr =>
      split at h
      · next hcond =>
        rw [Bool.and_eq_true] at hcond
        rcases hlift h with hb | hfound
        · cases hb
          exact .inr ⟨0, id, order, rfl, rfl, hr, hcond.1⟩
        · exact .inr hfound
      · exact hlift h

/-- Without a result there was nothing to find. -/
theorem pickBest_none {m : Market} {incoming : LimitOrder} {ids : List Nat} :
    ∀ {i : Nat} {best : Option Best}, pickBest m incoming i best ids = none →
      best = none ∧ ∀ id ∈ ids, ∀ order, readOrder m id = some order →
        eligible incoming order = false := by
  induction ids with
  | nil => intro i best h; exact ⟨h, by simp⟩
  | cons id ids ih =>
    intro i best h
    unfold pickBest at h
    split at h
    · next hr =>
      obtain ⟨hb, hall⟩ := ih h
      refine ⟨hb, ?_⟩
      rw [List.forall_mem_cons]
      exact ⟨fun order ho => (by rw [hr] at ho; cases ho), hall⟩
    · next order hr =>
      split at h
      · obtain ⟨hb, -⟩ := ih h
        cases hb
      · next hcond =>
        obtain ⟨hb, hall⟩ := ih h
        refine ⟨hb, ?_⟩
        rw [List.forall_mem_cons]
        refine ⟨fun o ho => ?_, hall⟩
        rw [hr] at ho
        cases ho
        subst hb
        simpa [improves] using hcond

theorem pickBestMatchIndex_some {m : Market} {incoming : LimitOrder} {ids : List Nat} {i : Nat}
    (h : pickBestMatchIndex m incoming ids = some i) :
    ∃ id order, ids[i]? = some id ∧ readOrder m id = some order ∧
      eligible incoming order = true := by
  unfold pickBestMatchIndex at h
  obtain ⟨b, hb, rfl⟩ := Option.map_eq_some_iff.mp h
  rcases pickBest_some hb with hnone | ⟨j, id, order, hj, hidx, hr, he⟩
  · cases hnone
  · exact ⟨id, order, by rw [hidx, Nat.zero_add]; exact hj, hr, he⟩

theorem pickBestMatchIndex_none {m : Market} {incoming : LimitOrder} {ids : List Nat}
    (h : pickBestMatchIndex m incoming ids = none) {id : Nat} (hid : id ∈ ids)
    {order : LimitOrder} (hr : readOrder m id = some order) : eligible incoming order = false :=
  (pickBest_none (Option.map_eq_none_iff.mp h)).2 id hid order hr

/-! ## One iteration -/

section Step

variable {env : Env} {incoming incoming' maker : LimitOrder} {m m' : Market}

/-- What two orders trade: the smaller of what they have left. -/
def fillAmount (incoming maker : LimitOrder) : Int :=
  if incoming.remaining < maker.remaining then incoming.remaining else maker.remaining

theorem fillAmount_bounds (hi : 0 < incoming.remaining) (hm : 0 < maker.remaining) :
    0 < fillAmount incoming maker ∧ fillAmount incoming maker ≤ incoming.remaining ∧
      fillAmount incoming maker ≤ maker.remaining := by
  unfold fillAmount; split <;> omega

/-- The fill on the books: the maker is rewritten and unlisted when it is used up, and two
trades follow. -/
theorem fillMaker_ok (h : fillMaker env incoming maker m = .ok (incoming', m')) :
    incoming' = incoming.fill (fillAmount incoming maker) ∧
    ∃ m₁ m₂ n₁ n₂,
      m₁ = (if (maker.fill (fillAmount incoming maker)).remaining = 0 then
        removeOrderFromBook (writeOrder m (maker.fill (fillAmount incoming maker))) incoming.pair
          incoming.oppositeIsBuy maker.id
        else writeOrder m (maker.fill (fillAmount incoming maker))) ∧
      recordTrade env m₁ incoming.owner incoming.pair (fillAmount incoming maker) maker.price
        incoming.side.isBuy = .ok (n₁, m₂) ∧
      recordTrade env m₂ maker.owner maker.pair (fillAmount incoming maker) maker.price
        maker.side.isBuy = .ok (n₂, m') := by
  simp only [fillMaker, bind_eq_ok, pure_eq_ok, Prod.mk.injEq] at h
  obtain ⟨⟨n₁, m₂⟩, h₁, ⟨n₂, m₃⟩, h₂, rfl, rfl⟩ := h
  exact ⟨rfl, _, m₂, n₁, n₂, rfl, h₁, h₂⟩

/-- A fill is made when its two trades are recorded, from any market with the same volume. -/
theorem fillMaker_of_records
    (h : ∀ m₁ : Market, m₁.stats = m.stats → ∃ n₁ m₂ n₂ m₃,
      recordTrade env m₁ incoming.owner incoming.pair (fillAmount incoming maker) maker.price
        incoming.side.isBuy = .ok (n₁, m₂) ∧
      recordTrade env m₂ maker.owner maker.pair (fillAmount incoming maker) maker.price
        maker.side.isBuy = .ok (n₂, m₃)) : ∃ q, fillMaker env incoming maker m = .ok q := by
  obtain ⟨n₁, m₂, n₂, m₃, h₁, h₂⟩ := h
    (if (maker.fill (fillAmount incoming maker)).remaining = 0 then
      removeOrderFromBook (writeOrder m (maker.fill (fillAmount incoming maker))) incoming.pair
        incoming.oppositeIsBuy maker.id
      else writeOrder m (maker.fill (fillAmount incoming maker))) (by split <;> rfl)
  refine ⟨(incoming.fill (fillAmount incoming maker), m₃), ?_⟩
  simp only [fillMaker, bind_eq_ok, pure_eq_ok]
  exact ⟨(n₁, m₂), h₁, (n₂, m₃), h₂, rfl⟩

/-- **An iteration that goes on** fills an eligible order of the opposite book. -/
theorem matchStep_some (h : matchStep env (incoming, m) = .ok (some (incoming', m'))) :
    0 < incoming.remaining ∧ ∃ id maker,
      id ∈ readOrderBook m incoming.pair incoming.oppositeIsBuy ∧ readOrder m id = some maker ∧
      eligible incoming maker = true ∧ fillMaker env incoming maker m = .ok (incoming', m') := by
  unfold matchStep at h
  dsimp only at h
  split at h
  · cases h
  next hrem =>
  refine ⟨by omega, ?_⟩
  split at h
  · cases h
  next i hpick =>
  obtain ⟨id, maker, hid, hr, he⟩ := pickBestMatchIndex_some hpick
  simp only [bind_eq_ok, ofOption_eq_ok] at h
  obtain ⟨id', hid', h⟩ := h
  rw [hid] at hid'
  cases hid'
  simp only [hr, he, if_true, bind_eq_ok, pure_eq_ok, Option.some.injEq] at h
  obtain ⟨next, hfill, rfl⟩ := h
  exact ⟨id, maker, List.mem_of_getElem? hid, hr, he, hfill⟩

/-- **An iteration that breaks** leaves nothing to fill. -/
theorem matchStep_none (h : matchStep env (incoming, m) = .ok none) :
    incoming.remaining ≤ 0 ∨ ∀ id ∈ readOrderBook m incoming.pair incoming.oppositeIsBuy,
      ∀ order, readOrder m id = some order → eligible incoming order = false := by
  unfold matchStep at h
  dsimp only at h
  split at h
  · next hrem => exact .inl hrem
  split at h
  · next hpick => exact .inr fun id hid order hr => pickBestMatchIndex_none hpick hid hr
  · next i hpick =>
    obtain ⟨id, maker, hid, hr, he⟩ := pickBestMatchIndex_some hpick
    simp only [hid, ofOption, ok_bind, hr, he, if_true, bind_eq_ok, pure_eq_ok] at h
    obtain ⟨next, -, h⟩ := h
    cases h

end Step

/-! ## The book -/

/-- What a stored order that is not being matched satisfies. -/
structure OrderOk (order : LimitOrder) : Prop where
  remaining_nonneg : 0 ≤ order.remaining
  remaining_le : order.remaining ≤ order.amount
  amount_pos : 0 < order.amount
  unfilled : order.status = .open' → order.remaining = order.amount
  partly : order.status = .partiallyFilled → 0 < order.remaining ∧ order.remaining < order.amount
  full : order.status = .filled → order.remaining = 0
  open_gtc : order.isOpen = true → order.tif = .gtc

/-- An open order of the book rests there. -/
theorem OrderOk.rests {order : LimitOrder} (h : OrderOk order) (ho : order.isOpen = true) :
    order.Rests := by
  refine ⟨h.open_gtc ho, ho, ?_⟩
  have hpos := h.amount_pos
  unfold LimitOrder.isOpen at ho
  rw [Bool.or_eq_true, decide_eq_true_eq, decide_eq_true_eq] at ho
  rcases ho with hs | hs
  · rw [h.unfilled hs]; exact hpos
  · exact (h.partly hs).1

/-- The quotes of the resting orders, `x` left out. -/
def quotes (m : Market) (x : Option Nat) : Set (Quote Symbol Int) :=
  { q | ∃ id order, some id ≠ x ∧ readOrder m id = some order ∧ order.Rests ∧ order.quote = q }

/-- **The book invariant.**  `x` is the id of the order being matched, if any. -/
structure BookOk (m : Market) (x : Option Nat) : Prop where
  keyed : ∀ id order, readOrder m id = some order → order.id = id ∧ id ≤ m.orderCount
  ok : ∀ id order, some id ≠ x → readOrder m id = some order → OrderOk order
  listed : ∀ pair isBuy id, id ∈ readOrderBook m pair isBuy ↔
    some id ≠ x ∧ ∃ order, readOrder m id = some order ∧ order.pair = pair ∧
      order.side.isBuy = isBuy ∧ order.Rests
  nodup : ∀ pair isBuy, (readOrderBook m pair isBuy).Nodup
  uncrossed : Uncrossed (quotes m x)

theorem SameBook.bookOk {m m' : Market} {x : Option Nat} (hs : SameBook m m') (h : BookOk m x) :
    BookOk m' x := by
  have hq : quotes m' x = quotes m x := by
    unfold quotes
    simp only [hs.readOrder]
  refine ⟨?_, ?_, ?_, ?_, ?_⟩
  · intro id order hr
    rw [hs.readOrder] at hr
    rw [hs.orderCount]
    exact h.keyed id order hr
  · intro id order hx hr
    rw [hs.readOrder] at hr
    exact h.ok id order hx hr
  · intro pair isBuy id
    rw [hs.readOrderBook, h.listed]
    simp only [hs.readOrder]
  · intro pair isBuy
    rw [hs.readOrderBook]
    exact h.nodup pair isBuy
  · rw [hq]
    exact h.uncrossed

/-- An eligible order that is listed is a resting order of the opposite book. -/
theorem BookOk.eligible_listed {m : Market} {x : Option Nat} (h : BookOk m x)
    {incoming maker : LimitOrder} {id : Nat} (hr : readOrder m id = some maker)
    (hx : some id ≠ x) (hm : maker.Rests) (hc : Crosses incoming.quote maker.quote) :
    id ∈ readOrderBook m incoming.pair incoming.oppositeIsBuy := by
  obtain ⟨hp, hs⟩ := crosses_opposite hc
  exact (h.listed _ _ _).mpr ⟨hx, maker, hr, hp, hs, hm⟩

/-- The order being matched. -/
structure Taker (incoming : LimitOrder) : Prop where
  remaining_nonneg : 0 ≤ incoming.remaining
  remaining_le : incoming.remaining ≤ incoming.amount
  amount_pos : 0 < incoming.amount
  status : incoming.status = .open' ∧ incoming.remaining = incoming.amount ∨
    incoming.status = .partiallyFilled ∧ 0 < incoming.remaining ∧
      incoming.remaining < incoming.amount ∨
    incoming.status = .filled ∧ incoming.remaining = 0

theorem fill_status (order : LimitOrder) (x : Int) :
    (order.fill x).status = if order.remaining - x = 0 then .filled else .partiallyFilled := rfl

theorem Taker.fill {incoming : LimitOrder} {x : Int} (h : Taker incoming) (hx : 0 < x)
    (hle : x ≤ incoming.remaining) : Taker (incoming.fill x) := by
  have h0 := h.remaining_nonneg
  have h1 := h.remaining_le
  refine ⟨?_, ?_, h.amount_pos, ?_⟩
  · show 0 ≤ incoming.remaining - x; omega
  · show incoming.remaining - x ≤ incoming.amount; omega
  · rw [fill_status]
    show _ ∧ incoming.remaining - x = incoming.amount ∨
      _ ∧ 0 < incoming.remaining - x ∧ incoming.remaining - x < incoming.amount ∨
      _ ∧ incoming.remaining - x = 0
    by_cases hz : incoming.remaining - x = 0
    · rw [if_pos hz]; exact .inr (.inr ⟨rfl, hz⟩)
    · rw [if_neg hz]; exact .inr (.inl ⟨rfl, by omega, by omega⟩)

/-- A partly filled maker stays in the book with the same quote; a used-up one rests no more. -/
theorem OrderOk.fill {maker : LimitOrder} {x : Int} (h : OrderOk maker)
    (ho : maker.isOpen = true) (hx : 0 < x) (hle : x ≤ maker.remaining) :
    OrderOk (maker.fill x) ∧ ((maker.fill x).Rests ↔ maker.remaining - x ≠ 0) := by
  have h1 := h.remaining_le
  have hgtc := h.open_gtc ho
  have hopen : (maker.fill x).isOpen = decide (maker.remaining - x ≠ 0) := by
    unfold LimitOrder.isOpen
    rw [fill_status]
    by_cases hz : maker.remaining - x = 0 <;> simp [hz]
  refine ⟨⟨?_, ?_, h.amount_pos, ?_, ?_, ?_, fun _ => hgtc⟩, ?_⟩
  · show 0 ≤ maker.remaining - x; omega
  · show maker.remaining - x ≤ maker.amount; omega
  · rw [fill_status]; split <;> intro hs <;> cases hs
  · rw [fill_status]
    intro hs
    split at hs
    · cases hs
    · show 0 < maker.remaining - x ∧ maker.remaining - x < maker.amount; omega
  · rw [fill_status]
    intro hs
    split at hs
    · next hz => exact hz
    · cases hs
  · unfold LimitOrder.Rests
    rw [hopen, decide_eq_true_eq]
    constructor
    · rintro ⟨-, hne, -⟩; exact hne
    · intro hne; exact ⟨hgtc, hne, by show 0 < maker.remaining - x; omega⟩

/-! ## Matching keeps the book -/

/-- The market after a fill: the maker rewritten, and unlisted when it is used up. -/
theorem fillMaker_market {env : Env} {incoming incoming' maker : LimitOrder} {m m' : Market}
    (h : fillMaker env incoming maker m = .ok (incoming', m')) :
    (∀ id, readOrder m' id = if id = maker.id then
      some (maker.fill (fillAmount incoming maker)) else readOrder m id) ∧
    (∀ pair isBuy id, id ∈ readOrderBook m' pair isBuy ↔ id ∈ readOrderBook m pair isBuy ∧
      ¬ (maker.remaining - fillAmount incoming maker = 0 ∧ pair = incoming.pair ∧
        isBuy = incoming.oppositeIsBuy ∧ id = maker.id)) ∧
    (∀ pair isBuy, (readOrderBook m pair isBuy).Nodup → (readOrderBook m' pair isBuy).Nodup) ∧
    m'.orderCount = m.orderCount := by
  obtain ⟨-, m₁, m₂, n₁, n₂, hm₁, h₁, h₂⟩ := fillMaker_ok h
  have hs : SameBook m₁ m' := (recordTrade_sameBook h₁).trans (recordTrade_sameBook h₂)
  have hid : (maker.fill (fillAmount incoming maker)).id = maker.id := rfl
  have hrem : (maker.fill (fillAmount incoming maker)).remaining =
      maker.remaining - fillAmount incoming maker := rfl
  rw [hrem] at hm₁
  refine ⟨?_, ?_, ?_, ?_⟩
  · intro id
    rw [hs.readOrder, hm₁, ← hid]
    split
    · rw [readOrder_removeOrderFromBook, readOrder_writeOrder]
    · rw [readOrder_writeOrder]
  · intro pair isBuy id
    rw [hs.readOrderBook, hm₁]
    split
    · next hz => rw [mem_removeOrderFromBook, readOrderBook_writeOrder]; simp [hz]
    · next hz => rw [readOrderBook_writeOrder]; simp [hz]
  · intro pair isBuy hn
    rw [hs.readOrderBook, hm₁]
    split
    · exact nodup_removeOrderFromBook _ _ _ _ _ _ hn
    · exact hn
  · rw [hs.orderCount, hm₁]
    split <;> rfl

theorem fillMaker_bookOk {env : Env} {incoming incoming' maker : LimitOrder} {m m' : Market}
    {id x : Nat} (h : BookOk m (some x)) (hpos : 0 < incoming.remaining)
    (hid : id ∈ readOrderBook m incoming.pair incoming.oppositeIsBuy)
    (hr : readOrder m id = some maker) (he : eligible incoming maker = true)
    (hf : fillMaker env incoming maker m = .ok (incoming', m')) : BookOk m' (some x) := by
  obtain ⟨hread, hbook, hnodup, hcount⟩ := fillMaker_market hf
  obtain ⟨hopen, hmpos, hcross⟩ := eligible_iff.mp he
  obtain ⟨hpair, hside⟩ := crosses_opposite hcross
  obtain ⟨hx0, hxi, hxm⟩ := fillAmount_bounds hpos hmpos
  obtain ⟨hx, maker', hr', -, -, hrests⟩ := (h.listed _ _ _).mp hid
  rw [hr] at hr'
  cases hr'
  have hkey : maker.id = id := (h.keyed id maker hr).1
  have hmok := h.ok id maker hx hr
  obtain ⟨hok', hrests'⟩ := hmok.fill hopen hx0 hxm
  generalize fillAmount incoming maker = f at *
  rw [hkey] at hread hbook
  refine ⟨?_, ?_, ?_, ?_, ?_⟩
  · intro id' order hr'
    rw [hread] at hr'
    rw [hcount]
    split at hr'
    · next heq =>
      cases hr'
      rw [heq]
      exact ⟨hkey, (h.keyed id maker hr).2⟩
    · exact h.keyed id' order hr'
  · intro id' order hx' hr'
    rw [hread] at hr'
    split at hr'
    · cases hr'; exact hok'
    · exact h.ok id' order hx' hr'
  · intro pair isBuy id'
    rw [hbook, h.listed]
    by_cases heq : id' = id
    · subst heq
      rw [hread, if_pos rfl]
      constructor
      · rintro ⟨⟨hx', order, hro, hp, hs, -⟩, hne⟩
        rw [hr] at hro
        cases hro
        refine ⟨hx', _, rfl, hp, hs, hrests'.mpr fun hz => hne ⟨hz, ?_, ?_, rfl⟩⟩
        · rw [← hp, hpair]
        · rw [← hs, hside]
      · rintro ⟨hx', order, hro, hp, hs, hrest⟩
        cases hro
        exact ⟨⟨hx', maker, hr, hp, hs, hrests⟩, fun hc => hrests'.mp hrest hc.1⟩
    · rw [hread, if_neg heq]
      exact ⟨fun hc => hc.1, fun hc => ⟨hc, fun hbad => heq hbad.2.2.2⟩⟩
  · intro pair isBuy
    exact hnodup pair isBuy (h.nodup pair isBuy)
  · refine h.uncrossed.mono ?_
    rintro q ⟨id', order, hx', hro, hrest, rfl⟩
    rw [hread] at hro
    split at hro
    · next heq => cases hro; exact ⟨id, maker, hx, hr, hrests, rfl⟩
    · exact ⟨id', order, hx', hro, hrest, rfl⟩

/-- What the matching loop keeps: the taker changes only in what it has left, and the
book without it stays in order. -/
structure Matching (order : LimitOrder) (p : LimitOrder × Market) : Prop where
  taker : Taker p.1
  same : { p.1 with remaining := order.remaining, status := order.status } = order
  book : BookOk p.2 (some order.id)

theorem matching_step {env : Env} {order : LimitOrder} {p p' : LimitOrder × Market}
    (h : Matching order p) (hs : matchStep env p = .ok (some p')) : Matching order p' := by
  obtain ⟨incoming, m⟩ := p
  obtain ⟨incoming', m'⟩ := p'
  obtain ⟨hpos, id, maker, hid, hr, he, hf⟩ := matchStep_some hs
  have hmpos := (eligible_iff.mp he).2.1
  obtain ⟨hx0, hxi, -⟩ := fillAmount_bounds hpos hmpos
  obtain ⟨rfl, -⟩ := fillMaker_ok hf
  exact ⟨h.taker.fill hx0 hxi, h.same, fillMaker_bookOk h.book hpos hid hr he hf⟩

/-- **Matching** ends with the taker used up or nothing left that it could trade with. -/
theorem match_spec {env : Env} {order order' : LimitOrder} {m m' : Market}
    (ht : Taker order) (hb : BookOk m (some order.id))
    (h : matchLimitOrder env order m = .ok (order', m')) :
    Matching order (order', m') ∧ (order'.remaining ≤ 0 ∨
      ∀ id o, some id ≠ some order.id → readOrder m' id = some o → o.Rests →
        ¬ Crosses order'.quote o.quote) := by
  obtain ⟨hm, hnone⟩ := Loop.run_invariant (I := Matching order)
    (fun p p' => matching_step) ⟨ht, rfl, hb⟩ h
  refine ⟨hm, ?_⟩
  rcases matchStep_none hnone with hrem | hall
  · exact .inl hrem
  · refine .inr ?_
    intro id o hx hr hrest hc
    have hmem := hm.book.eligible_listed hr hx hrest hc
    have hno := hall id hmem o hr
    rw [eligible_iff.mpr ⟨hrest.2.1, hrest.2.2, hc⟩] at hno
    cases hno

/-- Matching hands out no ids. -/
theorem matching_orderCount {env : Env} {order order' : LimitOrder} {m m' : Market}
    (h : matchLimitOrder env order m = .ok (order', m')) : m'.orderCount = m.orderCount := by
  refine (Loop.run_invariant (I := fun p => p.2.orderCount = m.orderCount) ?_ rfl h).1
  rintro ⟨o, m₁⟩ ⟨o', m₂⟩ hI hs
  obtain ⟨-, _, _, -, -, -, hf⟩ := matchStep_some hs
  exact (fillMaker_market hf).2.2.2.trans hI

/-! ## The bound of the loop -/

/-- The opposite book after a fill. -/
theorem fillMaker_opposite {env : Env} {incoming incoming' maker : LimitOrder} {m m' : Market}
    (h : fillMaker env incoming maker m = .ok (incoming', m')) :
    readOrderBook m' incoming.pair incoming.oppositeIsBuy =
      if maker.remaining - fillAmount incoming maker = 0 then
        (readOrderBook m incoming.pair incoming.oppositeIsBuy).filter fun id => id ≠ maker.id
      else readOrderBook m incoming.pair incoming.oppositeIsBuy := by
  obtain ⟨-, m₁, m₂, n₁, n₂, hm₁, h₁, h₂⟩ := fillMaker_ok h
  have hs : SameBook m₁ m' := (recordTrade_sameBook h₁).trans (recordTrade_sameBook h₂)
  have hrem : (maker.fill (fillAmount incoming maker)).remaining =
      maker.remaining - fillAmount incoming maker := rfl
  rw [hs.readOrderBook, hm₁, hrem]
  split
  · unfold removeOrderFromBook
    rw [readOrderBook_writeOrderBook, if_pos ⟨rfl, rfl⟩]
    rfl
  · rfl

/-- Listed orders of the opposite book, and one more iteration for what the taker has left. -/
def matchMeasure (p : LimitOrder × Market) : Nat :=
  (readOrderBook p.2 p.1.pair p.1.oppositeIsBuy).length + if 0 < p.1.remaining then 1 else 0

theorem matchMeasure_step {env : Env} {order : LimitOrder} {p p' : LimitOrder × Market}
    (h : Matching order p) (hs : matchStep env p = .ok (some p')) :
    matchMeasure p' < matchMeasure p := by
  obtain ⟨incoming, m⟩ := p
  obtain ⟨incoming', m'⟩ := p'
  obtain ⟨hpos, id, maker, hid, hr, he, hf⟩ := matchStep_some hs
  have hkey : maker.id = id := (h.book.keyed id maker hr).1
  obtain ⟨rfl, -⟩ := fillMaker_ok hf
  have hopp := fillMaker_opposite hf
  unfold matchMeasure
  show (readOrderBook m' incoming.pair incoming.oppositeIsBuy).length +
      (if 0 < incoming.remaining - fillAmount incoming maker then 1 else 0) <
    (readOrderBook m incoming.pair incoming.oppositeIsBuy).length +
      if 0 < incoming.remaining then 1 else 0
  rw [hopp, if_pos hpos]
  split
  · have hlt : ((readOrderBook m incoming.pair incoming.oppositeIsBuy).filter
        fun id => id ≠ maker.id).length <
        (readOrderBook m incoming.pair incoming.oppositeIsBuy).length := by
      rw [List.length_filter_lt_length_iff_exists]
      exact ⟨id, hid, by simp [hkey]⟩
    split <;> omega
  · next hz =>
    -- the maker was the larger one, so the taker is used up
    have hfull : incoming.remaining - fillAmount incoming maker = 0 := by
      unfold fillAmount at hz ⊢
      split
      · omega
      · next hlt => rw [if_neg hlt] at hz; omega
    rw [hfull]
    simp

/-- **Matching never runs out of iterations**: any larger bound gives the same result. -/
theorem matchLimitOrder_bound {env : Env} {order : LimitOrder} {m : Market} {n : Nat}
    (ht : Taker order) (hb : BookOk m (some order.id))
    (hn : (readOrderBook m order.pair order.oppositeIsBuy).length + 2 ≤ n) :
    Loop.run (.panic "out of fuel") (matchStep env) n (order, m) = matchLimitOrder env order m := by
  have hμ : matchMeasure (order, m) < (readOrderBook m order.pair order.oppositeIsBuy).length + 2 := by
    unfold matchMeasure
    dsimp only
    split <;> omega
  exact Loop.run_bound (I := Matching order) (μ := matchMeasure)
    (fun p p' h hs => ⟨matching_step h hs, matchMeasure_step h hs⟩) ⟨ht, rfl, hb⟩ (by omega) hμ

end Stellara.Trading
