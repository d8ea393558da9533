import Stellara.Lib.Loop
import Stellara.Host

/-!
# The order book (`contracts/trading/src/lib.rs`, free functions)

The part of the trading contract's storage that orders and trades live in, and the
functions on it: the two id lists of each pair, the search for the best resting order,
the matching loop and the trade records.

An order is stored under its id and its id is listed in the book of its pair and side;
both are written separately.
-/

namespace Stellara.Trading

open Outcome

structure Trade where
  id : Nat
  trader : Address
  pair : Symbol
  /-- positive = buy, negative = sell -/
  signedAmount : Int
  price : Int
  timestamp : Nat
deriving DecidableEq, Repr

inductive OrderSide
  | buy
  | sell
deriving DecidableEq, Repr

inductive OrderStatus
  | open'
  | partiallyFilled
  | filled
  | cancelled
deriving DecidableEq, Repr

inductive TimeInForce
  | gtc
  | ioc
  | fok
deriving DecidableEq, Repr

structure LimitOrder where
  id : Nat
  owner : Address
  pair : Symbol
  side : OrderSide
  price : Int
  amount : Int
  remaining : Int
  status : OrderStatus
  tif : TimeInForce
  timestamp : Nat
deriving DecidableEq, Repr

structure TradeStats where
  totalTrades : Nat := 0
  totalVolume : Int := 0
deriving DecidableEq, Repr

inductive TradeError
  | unauthorized
  | invalidAmount
  | contractPaused
  | notInitialized
  | insufficientBalance
  | rateLimitExceeded
  | globalRateLimitExceeded
  | invalidRateLimitConfig
  | batchTooLarge
  | invalidPrice
  | orderNotFound
  | orderNotCancelable
  | noLiquidity
  | orderWouldNotFullyFill
deriving DecidableEq, Repr

abbrev Result (α : Type) : Type := Except (Fault TradeError) α

/-- The entries `order`, `obook`, `trade`, `t_cnt`, `stats` and `o_cnt`. -/
structure Market where
  orders : Store Nat LimitOrder := ∅
  books : Store (Symbol × Bool) (List Nat) := ∅
  trades : Store Nat Trade := ∅
  tradeCount : Nat := 0
  stats : TradeStats := {}
  orderCount : Nat := 0

/-! ## Orders and books -/

def nextOrderId (m : Market) : Nat × Market :=
  (m.orderCount + 1, { m with orderCount := m.orderCount + 1 })

def readOrder (m : Market) (id : Nat) : Option LimitOrder := m.orders.lookup id

def writeOrder (m : Market) (order : LimitOrder) : Market :=
  { m with orders := m.orders.insert order.id order }

def readOrderBook (m : Market) (pair : Symbol) (isBuy : Bool) : List Nat :=
  (m.books.lookup (pair, isBuy)).getD []

def writeOrderBook (m : Market) (pair : Symbol) (isBuy : Bool) (ids : List Nat) : Market :=
  { m with books := m.books.insert (pair, isBuy) ids }

def pushOrderToBook (m : Market) (pair : Symbol) (isBuy : Bool) (orderId : Nat) : Market :=
  writeOrderBook m pair isBuy (readOrderBook m pair isBuy ++ [orderId])

def removeOrderFromBook (m : Market) (pair : Symbol) (isBuy : Bool) (orderId : Nat) : Market :=
  writeOrderBook m pair isBuy ((readOrderBook m pair isBuy).filter fun id => id ≠ orderId)

/-- `matches!(side, OrderSide::Buy)`. -/
def OrderSide.isBuy : OrderSide → Bool
  | .buy => true
  | .sell => false

/-- `status == Open || status == PartiallyFilled`. -/
def LimitOrder.isOpen (order : LimitOrder) : Bool :=
  order.status = .open' || order.status = .partiallyFilled

def orderMatches (incoming resting : LimitOrder) : Bool :=
  if incoming.pair ≠ resting.pair then false
  else
    match incoming.side, resting.side with
    | .buy, .sell => resting.price ≤ incoming.price
    | .sell, .buy => incoming.price ≤ resting.price
    | _, _ => false

/-- The resting order can fill a part of the incoming one. -/
def eligible (incoming resting : LimitOrder) : Bool :=
  resting.isOpen && decide (0 < resting.remaining) && orderMatches incoming resting

/-- `best_index`, `best_price` and `best_timestamp`. -/
structure Best where
  index : Nat
  price : Int
  timestamp : Nat
deriving DecidableEq, Repr

/-- The order replaces the best one so far: a better price for the incoming side, or the
same price and an earlier time. -/
def improves (side : OrderSide) (order : LimitOrder) : Option Best → Bool
  | none => true
  | some best =>
    (match side with
      | .buy => decide (order.price < best.price)
      | .sell => decide (best.price < order.price)) ||
    (decide (order.price = best.price) && decide (order.timestamp < best.timestamp))

/-- The loop of `pick_best_match_index`, from index `i` on. -/
def pickBest (m : Market) (incoming : LimitOrder) (i : Nat) (best : Option Best) :
    List Nat → Option Best
  | [] => best
  | orderId :: ids =>
    match readOrder m orderId with
    | none => pickBest m incoming (i + 1) best ids
    | some order =>
      if eligible incoming order && improves incoming.side order best then
        pickBest m incoming (i + 1) (some ⟨i, order.price, order.timestamp⟩) ids
      else pickBest m incoming (i + 1) best ids

def pickBestMatchIndex (m : Market) (incoming : LimitOrder) (oppositeIds : List Nat) :
    Option Nat :=
  (pickBest m incoming 0 none oppositeIds).map Best.index

/-- The opposite side's book flag: `matches!(incoming.side, OrderSide::Sell)`. -/
def LimitOrder.oppositeIsBuy (incoming : LimitOrder) : Bool := !incoming.side.isBuy

/-- The loop of `available_fill_for_order`; it stops as soon as enough is found. -/
def sumAvailable (env : Env) (m : Market) (incoming : LimitOrder) (total : Int) :
    List Nat → Result Int
  | [] => .ok total
  | orderId :: ids =>
    match readOrder m orderId with
    | none => sumAvailable env m incoming total ids
    | some order =>
      if eligible incoming order then do
        let total ← env.i128 (total + order.remaining)
        if incoming.remaining ≤ total then pure total
        else sumAvailable env m incoming total ids
      else sumAvailable env m incoming total ids

def availableFillForOrder (env : Env) (m : Market) (incoming : LimitOrder) : Result Int :=
  sumAvailable env m incoming 0 (readOrderBook m incoming.pair incoming.oppositeIsBuy)

/-! ## Trades -/

/-- Amounts are positive wherever a trade is recorded, so `-amount` is an `i128`. -/
def signedAmount (amount : Int) (isBuy : Bool) : Int := if isBuy then amount else -amount

def recordTrade (env : Env) (m : Market) (trader : Address) (pair : Symbol) (amount price : Int)
    (isBuy : Bool) : Result (Nat × Market) := do
  let tradeId := m.tradeCount + 1
  let totalVolume ← env.i128 (m.stats.totalVolume + amount)
  pure (tradeId, { m with
    trades := m.trades.insert tradeId
      ⟨tradeId, trader, pair, signedAmount amount isBuy, price, env.timestamp⟩
    stats := ⟨m.stats.totalTrades + 1, totalVolume⟩
    tradeCount := tradeId })

/-! ## Matching -/

/-- `order` with `fill` taken from what remains.  A fill is at most what remains, so the
subtraction stays in range. -/
def LimitOrder.fill (order : LimitOrder) (fill : Int) : LimitOrder :=
  { order with remaining := order.remaining - fill
               status := if order.remaining - fill = 0 then .filled else .partiallyFilled }

/-- Fill as much as both orders have left: the maker is stored, leaves its book when it is
used up, and a trade is recorded for each of the two owners. -/
def fillMaker (env : Env) (incoming maker : LimitOrder) (m : Market) :
    Result (LimitOrder × Market) := do
  let fillAmount := if incoming.remaining < maker.remaining then incoming.remaining
    else maker.remaining
  let executionPrice := maker.price
  let maker := maker.fill fillAmount
  let incoming := incoming.fill fillAmount
  let m := writeOrder m maker
  let m := if maker.remaining = 0 then
    removeOrderFromBook m incoming.pair incoming.oppositeIsBuy maker.id else m
  let (_, m) ← recordTrade env m incoming.owner incoming.pair fillAmount executionPrice
    incoming.side.isBuy
  let (_, m) ← recordTrade env m maker.owner maker.pair fillAmount executionPrice
    maker.side.isBuy
  pure (incoming, m)

/-- One iteration of the loop of `match_limit_order`. -/
def matchStep (env : Env) : LimitOrder × Market → Result (Option (LimitOrder × Market))
  | (incoming, m) =>
    if incoming.remaining ≤ 0 then .ok none
    else
      let oppositeIds := readOrderBook m incoming.pair incoming.oppositeIsBuy
      match pickBestMatchIndex m incoming oppositeIds with
      | none => .ok none
      | some bestIdx => do
        let makerId ← ofOption oppositeIds[bestIdx]? (.panic "unwrap on None")
        match readOrder m makerId with
        | none =>
          pure (some (incoming,
            removeOrderFromBook m incoming.pair incoming.oppositeIsBuy makerId))
        | some maker =>
          if eligible incoming maker then do
            let next ← fillMaker env incoming maker m
            pure (some next)
          else
            pure (some (incoming,
              removeOrderFromBook m incoming.pair incoming.oppositeIsBuy makerId))

/-- The loop removes an id from the opposite book in every iteration but the last two. -/
def matchLimitOrder (env : Env) (incoming : LimitOrder) (m : Market) :
    Result (LimitOrder × Market) :=
  Loop.run (.panic "out of fuel") (matchStep env)
    ((readOrderBook m incoming.pair incoming.oppositeIsBuy).length + 2) (incoming, m)

/-! ## The entry points, as far as they concern the book -/

def TimeInForce.isFok : TimeInForce → Bool
  | .fok => true
  | .gtc | .ioc => false

/-- The order that `create_limit_order` starts with. -/
def newOrder (env : Env) (orderId : Nat) (trader : Address) (pair : Symbol) (isBuy : Bool)
    (price amount : Int) (tif : TimeInForce) : LimitOrder :=
  { id := orderId, owner := trader, pair, side := if isBuy then .buy else .sell, price, amount
    remaining := amount, status := .open', tif, timestamp := env.timestamp }

/-- A fill-or-kill order needs enough on the other side before it starts. -/
def requireFillable (env : Env) (m : Market) (order : LimitOrder) : Result Unit :=
  if order.tif.isFok then do
    let available ← availableFillForOrder env m order
    require (order.amount ≤ available) (.err .orderWouldNotFullyFill)
  else .ok ()

/-- What is left of the matched order is listed (GTC), dropped (IOC) or undoes the call (FOK). -/
def settleOrder (m : Market) (order : LimitOrder) : Result Market :=
  match order.tif with
  | .gtc =>
    if 0 < order.remaining then .ok (pushOrderToBook m order.pair order.side.isBuy order.id)
    else .ok m
  | .ioc =>
    if 0 < order.remaining then .ok (writeOrder m { order with status := .cancelled }) else .ok m
  | .fok => do
    require (order.remaining ≤ 0) (.err .orderWouldNotFullyFill)
    pure m

/-- `create_limit_order` after its checks: the order is stored, matched and stored again. -/
def placeOrder (env : Env) (m : Market) (trader : Address) (pair : Symbol) (isBuy : Bool)
    (price amount : Int) (tif : TimeInForce) : Result (Nat × Market) := do
  let (orderId, m) := nextOrderId m
  let order := newOrder env orderId trader pair isBuy price amount tif
  requireFillable env m order
  let (order, m) ← matchLimitOrder env order (writeOrder m order)
  let m ← settleOrder (writeOrder m order) order
  pure (orderId, m)

/-- `cancel_order` after its checks of the caller. -/
def withdrawOrder (m : Market) (trader : Address) (orderId : Nat) : Result Market := do
  let order ← ofOption (readOrder m orderId) (.err .orderNotFound)
  require (order.owner = trader) (.err .unauthorized)
  require (order.isOpen = true) (.err .orderNotCancelable)
  let m := writeOrder m { order with status := .cancelled }
  pure (removeOrderFromBook m order.pair order.side.isBuy order.id)

/-- One request of a batch: pair, amount, price and `is_buy`. -/
structure TradeRequest where
  pair : Symbol
  amount : Int
  price : Int
  isBuy : Bool
deriving DecidableEq, Repr

/-- The recording loop of `execute_trade_batch`. -/
def recordTrades (env : Env) (trader : Address) :
    List TradeRequest → Market → Result (List Nat × Market)
  | [], m => .ok ([], m)
  | order :: orders, m => do
    let (tradeId, m) ← recordTrade env m trader order.pair order.amount order.price order.isBuy
    let (tradeIds, m) ← recordTrades env trader orders m
    pure (tradeId :: tradeIds, m)

/-- `get_open_orders`. -/
def getOpenOrders (m : Market) (pair : Symbol) (isBuy : Bool) : List LimitOrder :=
  ((readOrderBook m pair isBuy).filterMap (readOrder m)).filter LimitOrder.isOpen

end Stellara.Trading
