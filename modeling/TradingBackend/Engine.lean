import TradingBackend.Loop
import TradingBackend.OrderBook

/-!
# The matching engine

`engine/matching_engine.go`, the part the worker goroutine runs:
`processCommand` and everything below it. The three nested loops are
`Loop.iterate` of their bodies, so a command can fail to return; the
results prove that it does return, never assume it.

What the engine tells the outside - events on the bus, calls of the
registered handlers - is appended to `effects` in the order it happens.
A handler is a flag: whether one was registered.

Left out, because nothing modelled reads them: trade ids and timestamps,
the debug log and `TradeDebugInfo`, the Prometheus gauges, the command
counter.
-/

namespace TradingBackend

structure Trade where
  buyOrderID : UUID
  sellOrderID : UUID
  instrument : String
  price : Decimal
  quantity : Decimal
  isBuyerPartialFill : Bool
  isSellerPartialFill : Bool
  buyerFilledQty : Decimal
  sellerFilledQty : Decimal
  buyerRemainingQty : Decimal
  sellerRemainingQty : Decimal
deriving DecidableEq, Repr

def newTrade (buyOrderID sellOrderID : UUID) (instrument : String)
    (price quantity : Decimal) : Trade :=
  ⟨buyOrderID, sellOrderID, instrument, price, quantity, false, false, 0, 0, 0, 0⟩

inductive ChangeAction where
  | add
  | remove
deriving DecidableEq, Repr

structure OrderbookChangeEvent where
  instrument : String
  side : OrderSide
  action : ChangeAction
  price : Decimal
  newSize : Decimal
  oldSize : Decimal
deriving DecidableEq, Repr

inductive Effect where
  /-- An `OrderbookChange` event on the bus. -/
  | orderbookChange (event : OrderbookChangeEvent)
  /-- A `NewTrade` event on the bus. -/
  | newTrade (trade : Trade)
  /-- A call of `tradeHandler`. -/
  | tradeHandler (trade : Trade)
  /-- A call of `wsTradeHandler`. -/
  | wsTrade (trade : Trade)
  /-- A call of `wsOrderbookHandler`. -/
  | wsOrderbook (instrument : String) (side : OrderSide) (price size : Decimal)
  /-- A call of `wsOrderUpdateHandler`, with the order as it is then. -/
  | wsOrderUpdate (order : Order)
deriving DecidableEq, Repr

/-- `MatchingEngine`, as the worker sees it. -/
structure MatchingEngine (T : Type) where
  orderBook : OrderBook T
  tradeHandler : Bool
  wsTradeHandler : Bool
  wsOrderbookHandler : Bool
  wsOrderUpdateHandler : Bool
  effects : List Effect

/-- `OrderCommand`: `NEW`, `CANCEL` or a type the engine does not know. -/
inductive OrderCommand where
  | new (order : OrderRef)
  | cancel (orderID : UUID)
  | unknown (type : String)
deriving DecidableEq, Repr

/-- The errors of `processCommand`: "order not found: ID" and "unknown
command type: TYPE". -/
inductive CommandError where
  | orderNotFound (orderID : UUID)
  | unknownCommandType (type : String)
deriving DecidableEq, Repr

structure CommandResponse where
  trades : List Trade
  error : Option CommandError
  order : Option OrderRef
deriving DecidableEq, Repr

variable {T : Type} [OrderedTree T Decimal LevelRef]

/-- `NewMatchingEngine`; no handler is registered yet. -/
def newMatchingEngine (instrument : String) : MatchingEngine T :=
  ⟨newOrderBook instrument, false, false, false, false, []⟩

/-- The side string of the feeds: "sell" for a sell order, else "buy". -/
def Order.feedSide (o : Order) : OrderSide := if o.side = .sell then .sell else .buy

namespace OrderBook

/-- The trade of one iteration of `matchAgainstPriceLevel`: `NewTrade`,
the two `Fill`s, and the fields read off the two orders afterwards. -/
def executeTrade (ob : OrderBook T) (aggressor resting : OrderRef) : OrderBook T × Trade :=
  let aggressorOrder := ob.orderAt aggressor
  let restingOrder := ob.orderAt resting
  let buyOrder := if aggressorOrder.side = .buy then aggressor else resting
  let sellOrder := if aggressorOrder.side = .buy then resting else aggressor
  let matchQty := min aggressorOrder.remainingQuantity restingOrder.remainingQuantity
  let tradePrice := restingOrder.price
  let trade :=
    if aggressorOrder.side = .buy then
      newTrade aggressorOrder.id restingOrder.id aggressorOrder.instrument tradePrice matchQty
    else
      newTrade restingOrder.id aggressorOrder.id aggressorOrder.instrument tradePrice matchQty
  let ob := ob.setOrder aggressor ((ob.orderAt aggressor).fill matchQty)
  let ob := ob.setOrder resting ((ob.orderAt resting).fill matchQty)
  (ob, { trade with
    isBuyerPartialFill := decide ((ob.orderAt buyOrder).status = .partiallyFilled)
    isSellerPartialFill := decide ((ob.orderAt sellOrder).status = .partiallyFilled)
    buyerFilledQty := (ob.orderAt buyOrder).filledQuantity
    sellerFilledQty := (ob.orderAt sellOrder).filledQuantity
    buyerRemainingQty := (ob.orderAt buyOrder).remainingQuantity
    sellerRemainingQty := (ob.orderAt sellOrder).remainingQuantity })

end OrderBook

namespace MatchingEngine

def emit (me : MatchingEngine T) (effects : List Effect) : MatchingEngine T :=
  { me with effects := me.effects ++ effects }

def publishOrderbookChange (me : MatchingEngine T) (side : OrderSide) (action : ChangeAction)
    (price newSize oldSize : Decimal) : MatchingEngine T :=
  me.emit [.orderbookChange
    ⟨me.orderBook.instrument, side, action, price, newSize, oldSize⟩]

/-! ## `matchAgainstPriceLevel` -/

/-- The end of an iteration: write the fill back by id, and take the
resting order out of the book if it is filled. -/
def settleResting (me : MatchingEngine T) (resting : OrderRef) : MatchingEngine T :=
  let ob := me.orderBook
  let ob := ob.updateOrder (ob.orderAt resting).id (ob.orderAt resting).filledQuantity
  if (ob.orderAt resting).isFilled then
    match ob.removeOrder (ob.orderAt resting).id with
    | (ob, none) => { me with orderBook := ob }
    | (ob, some removed) =>
        let removedOrder := ob.orderAt removed
        { me with orderBook := ob }.publishOrderbookChange removedOrder.feedSide .remove
          removedOrder.price 0 removedOrder.remainingQuantity
  else { me with orderBook := ob }

/-- The state at the head of the loop over the orders of a level. -/
structure LevelScan (T : Type) where
  engine : MatchingEngine T
  element : Option Element
  trades : List Trade

/-- The body of the loop over the orders of a level. -/
def scanBody (aggressor : OrderRef) (priceLevel : LevelRef) (s : LevelScan T) :
    (MatchingEngine T × List Trade) ⊕ LevelScan T :=
  match s.element with
  | none => .inl (s.engine, s.trades)
  | some element =>
      let ob := s.engine.orderBook
      if 0 < (ob.orderAt aggressor).remainingQuantity then
        -- the successor is read before the element can be removed
        let next := nextElement element (ob.levelAt priceLevel).orders
        let (ob, trade) := ob.executeTrade aggressor element.value
        let me := { s.engine with orderBook := ob }.settleResting element.value
        .inr ⟨me, next, s.trades ++ [trade]⟩
      else .inl (s.engine, s.trades)

def matchAgainstPriceLevel (fuel : Nat) (me : MatchingEngine T) (aggressor : OrderRef)
    (priceLevel : LevelRef) : Option (MatchingEngine T × List Trade) :=
  Loop.iterate (fun _ s => some (scanBody aggressor priceLevel s)) fuel
    ⟨me, (me.orderBook.levelAt priceLevel).orders.head?, []⟩

/-! ## `matchMarketOrder`, `matchLimitOrder` -/

def bestOpposing (me : MatchingEngine T) (order : OrderRef) : Option LevelRef :=
  if (me.orderBook.orderAt order).side = .buy then me.orderBook.getBestAsk
  else me.orderBook.getBestBid

/-- The end of an iteration of both loops: match against the level, then
leave the loop if the order is filled. -/
def matchLevel (fuel : Nat) (order : OrderRef) (bestLevel : LevelRef)
    (s : MatchingEngine T × List Trade) :
    Option ((MatchingEngine T × List Trade) ⊕ (MatchingEngine T × List Trade)) :=
  match s.1.matchAgainstPriceLevel fuel order bestLevel with
  | none => none
  | some (me, tradesAtLevel) =>
      let s := (me, s.2 ++ tradesAtLevel)
      if (me.orderBook.orderAt order).isFilled then some (.inl s) else some (.inr s)

/-- The body of the loop of `matchMarketOrder`. -/
def marketBody (order : OrderRef) (fuel : Nat) (s : MatchingEngine T × List Trade) :
    Option ((MatchingEngine T × List Trade) ⊕ (MatchingEngine T × List Trade)) :=
  let me := s.1
  let o := me.orderBook.orderAt order
  if 0 < o.remainingQuantity then
    match me.bestOpposing order with
    | none =>
        let status := if 0 < o.filledQuantity then .partiallyFilled else .rejected
        let ob := me.orderBook.setOrder order { o with status := status }
        some (.inl ({ me with orderBook := ob }, s.2))
    | some bestLevel => matchLevel fuel order bestLevel s
  else some (.inl s)

def matchMarketOrder (fuel : Nat) (me : MatchingEngine T) (order : OrderRef) :
    Option (MatchingEngine T × List Trade) :=
  Loop.iterate (marketBody order) fuel (me, [])

def canMatch (o : Order) (levelPrice : Decimal) : Bool :=
  if o.side = .buy then decide (levelPrice ≤ o.price) else decide (o.price ≤ levelPrice)

/-- The body of the loop of `matchLimitOrder`. -/
def limitBody (order : OrderRef) (fuel : Nat) (s : MatchingEngine T × List Trade) :
    Option ((MatchingEngine T × List Trade) ⊕ (MatchingEngine T × List Trade)) :=
  let me := s.1
  let o := me.orderBook.orderAt order
  if 0 < o.remainingQuantity then
    match me.bestOpposing order with
    | none => some (.inl s)
    | some bestLevel =>
        if canMatch o (me.orderBook.levelAt bestLevel).price then
          matchLevel fuel order bestLevel s
        else some (.inl s)
  else some (.inl s)

def matchLimitOrder (fuel : Nat) (me : MatchingEngine T) (order : OrderRef) :
    Option (MatchingEngine T × List Trade) :=
  Loop.iterate (limitBody order) fuel (me, [])

/-! ## `matchOrder` -/

/-- The part of `matchOrder` that lets a limit order rest. -/
def restOrder (me : MatchingEngine T) (order : OrderRef) : MatchingEngine T :=
  let o := me.orderBook.orderAt order
  if o.type = .limit ∧ o.canBeFilled ∧ ¬o.isFilled then
    let me := { me with orderBook := me.orderBook.addOrder order }
    let o := me.orderBook.orderAt order
    let me := me.publishOrderbookChange o.feedSide .add o.price o.remainingQuantity 0
    if me.wsOrderbookHandler then
      me.emit [.wsOrderbook o.instrument o.feedSide o.price o.remainingQuantity]
    else me
  else me

/-- The part of `matchOrder` that calls the handlers and publishes the
trades. -/
def announce (me : MatchingEngine T) (order : OrderRef) (trades : List Trade) :
    MatchingEngine T :=
  let me := if me.tradeHandler then me.emit (trades.map .tradeHandler) else me
  let me := me.emit (trades.map .newTrade)
  let me := if me.wsTradeHandler then me.emit (trades.map .wsTrade) else me
  if me.wsOrderUpdateHandler then me.emit [.wsOrderUpdate (me.orderBook.orderAt order)] else me

def matchOrder (fuel : Nat) (me : MatchingEngine T) (newOrder : OrderRef) :
    Option (MatchingEngine T × List Trade) :=
  let o := me.orderBook.orderAt newOrder
  if o.isValid then
    let matched :=
      if o.type = .market then me.matchMarketOrder fuel newOrder
      else me.matchLimitOrder fuel newOrder
    match matched with
    | none => none
    | some (me, trades) => some ((me.restOrder newOrder).announce newOrder trades, trades)
  else
    some ({ me with orderBook := me.orderBook.setOrder newOrder { o with status := .rejected } },
      [])

/-! ## `processCommand` -/

def processCommand (fuel : Nat) (me : MatchingEngine T) :
    OrderCommand → Option (MatchingEngine T × CommandResponse)
  | .new order =>
      match me.matchOrder fuel order with
      | none => none
      | some (me, trades) => some (me, ⟨trades, none, some order⟩)
  | .cancel orderID =>
      match me.orderBook.cancelOrder orderID with
      | (ob, none) => some ({ me with orderBook := ob }, ⟨[], some (.orderNotFound orderID), none⟩)
      | (ob, some cancelled) =>
          let o := ob.orderAt cancelled
          let me := { me with orderBook := ob }.publishOrderbookChange o.feedSide .remove
            o.price 0 o.remainingQuantity
          some (me, ⟨[], none, some cancelled⟩)
  | .unknown type => some (me, ⟨[], some (.unknownCommandType type), none⟩)

end MatchingEngine

end TradingBackend
