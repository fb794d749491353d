import Mathlib.Data.Finmap
import TradingBackend.Order
import TradingBackend.OrderedTree

/-!
# The order book

`engine/orderbook.go`: two trees of price levels, a FIFO queue in every
level, and a map from order ids to the place of the order.

The source shares orders and levels through pointers - a level is
reached from its tree and from the locations in the map, an order from
its queue and from the caller that submitted it. The model keeps this:
`OrderRef` and `LevelRef` are pointers, `orderAt` and `levelAt` the
memory they point into, and `nextOrder`, `nextLevel`, `nextElement` the
allocator. A `list.Element` is its identity together with its `Value`,
which the source never reassigns.

The trees are any `OrderedTree`; the price of a level, the key it is
filed under, is never written after the level was made. Locks are left
out: one goroutine owns the book.
-/

namespace TradingBackend

/-- `*models.Order`. -/
abbrev OrderRef := Nat

/-- `*PriceLevel`. -/
abbrev LevelRef := Nat

/-- `*list.Element`: the identity of the element and its value. -/
structure Element where
  id : Nat
  value : OrderRef
deriving DecidableEq, Repr

structure PriceLevel where
  price : Decimal
  orders : List Element
  volume : Decimal
deriving DecidableEq, Repr

def newPriceLevel (price : Decimal) : PriceLevel := ⟨price, [], 0⟩

namespace PriceLevel

/-- `PriceLevel.AddOrder`; `element` is the one `PushBack` made. -/
def addOrder (pl : PriceLevel) (orderAt : OrderRef → Order) (element : Element) :
    PriceLevel :=
  { pl with
    orders := pl.orders ++ [element]
    volume := pl.volume + (orderAt element.value).remainingQuantity }

def removeOrder (pl : PriceLevel) (orderAt : OrderRef → Order) (element : Element) :
    PriceLevel :=
  { pl with
    orders := pl.orders.erase element
    volume := pl.volume - (orderAt element.value).remainingQuantity }

def updateVolume (pl : PriceLevel) (orderAt : OrderRef → Order) : PriceLevel :=
  { pl with
    volume := pl.orders.foldl (fun v e => v + (orderAt e.value).remainingQuantity) 0 }

def isEmpty (pl : PriceLevel) : Bool := pl.orders.length == 0

end PriceLevel

/-- `Element.Next` in the list `queue`: nil at the end, and nil for an
element that was removed. -/
def nextElement (element : Element) : List Element → Option Element
  | [] => none
  | e :: queue => if e = element then queue.head? else nextElement element queue

structure OrderLocation where
  priceLevel : LevelRef
  element : Element
deriving DecidableEq, Repr

/-- `OrderBook`, with the memory its pointers point into. -/
structure OrderBook (T : Type) where
  instrument : String
  bids : T
  asks : T
  orders : Finmap fun _ : UUID => OrderLocation
  orderAt : OrderRef → Order
  levelAt : LevelRef → PriceLevel
  nextOrder : Nat
  nextLevel : Nat
  nextElement : Nat

variable {T : Type} [OrderedTree T Decimal LevelRef]

/-- The contents of memory that was never written. -/
def blankOrder : Order :=
  ⟨0, "", "", .unknown, .unknown, 0, 0, 0, .unset, 0⟩

def newOrderBook (instrument : String) : OrderBook T where
  instrument := instrument
  bids := OrderedTree.empty
  asks := OrderedTree.empty
  orders := ∅
  orderAt := fun _ => blankOrder
  levelAt := fun _ => newPriceLevel 0
  nextOrder := 0
  nextLevel := 0
  nextElement := 0

/-- The side an order with side `s` is filed under: `true` for `Bids`. -/
def OrderSide.isBid (s : OrderSide) : Bool := decide (s = .buy)

namespace OrderBook

/-! ## Memory -/

/-- A caller makes a new `models.Order`. -/
def newOrder (ob : OrderBook T) (o : Order) : OrderBook T × OrderRef :=
  ({ ob with
     orderAt := Function.update ob.orderAt ob.nextOrder o
     nextOrder := ob.nextOrder + 1 },
   ob.nextOrder)

/-- Write through an order pointer. -/
def setOrder (ob : OrderBook T) (r : OrderRef) (o : Order) : OrderBook T :=
  { ob with orderAt := Function.update ob.orderAt r o }

/-- Write through a level pointer. -/
def setLevel (ob : OrderBook T) (l : LevelRef) (pl : PriceLevel) : OrderBook T :=
  { ob with levelAt := Function.update ob.levelAt l pl }

/-! ## The sides -/

def side (ob : OrderBook T) (isBid : Bool) : T :=
  if isBid then ob.bids else ob.asks

def setSide (ob : OrderBook T) (isBid : Bool) (t : T) : OrderBook T :=
  { ob with
    bids := if isBid then t else ob.bids
    asks := if isBid then ob.asks else t }

def getOrCreatePriceLevel (ob : OrderBook T) (isBid : Bool) (price : Decimal) :
    OrderBook T × LevelRef :=
  match OrderedTree.get (ob.side isBid) price with
  | some l => (ob, l)
  | none =>
      let l := ob.nextLevel
      let ob := { ob.setLevel l (newPriceLevel price) with nextLevel := l + 1 }
      (ob.setSide isBid (OrderedTree.insert (ob.side isBid) price l), l)

def removePriceLevel (ob : OrderBook T) (isBid : Bool) (price : Decimal) : OrderBook T :=
  ob.setSide isBid (OrderedTree.delete (ob.side isBid) price)

/-- `OrderBookSide.GetBestPrice`: the highest bid, the lowest ask. -/
def getBestPrice (ob : OrderBook T) (isBid : Bool) : Option LevelRef :=
  if isBid then OrderedTree.max (ob.side isBid) else OrderedTree.min (ob.side isBid)

/-! ## The operations -/

def addOrder (ob : OrderBook T) (order : OrderRef) : OrderBook T :=
  let isBid := (ob.orderAt order).side.isBid
  let (ob, priceLevel) := ob.getOrCreatePriceLevel isBid (ob.orderAt order).price
  let element : Element := ⟨ob.nextElement, order⟩
  let ob := { ob with nextElement := ob.nextElement + 1 }
  let ob := ob.setLevel priceLevel ((ob.levelAt priceLevel).addOrder ob.orderAt element)
  { ob with orders := ob.orders.insert (ob.orderAt order).id ⟨priceLevel, element⟩ }

/-- `OrderBook.AddLimitOrder`: the insertion of `AddOrder` behind a check
of the type, and a status for an order that has none. -/
def addLimitOrder (ob : OrderBook T) (order : OrderRef) : OrderBook T × Option OrderRef :=
  if (ob.orderAt order).type ≠ .limit then (ob, none)
  else
    let ob := ob.addOrder order
    let o := ob.orderAt order
    (if o.status = .unset then ob.setOrder order { o with status := .opened } else ob,
     some order)

/-- The part `RemoveOrder` and `CancelOrder` share: take the element out
of its level, drop the level if that was its last order, forget the id. -/
def detach (ob : OrderBook T) (orderID : UUID) (location : OrderLocation) : OrderBook T :=
  let order := location.element.value
  let l := location.priceLevel
  let ob := ob.setLevel l ((ob.levelAt l).removeOrder ob.orderAt location.element)
  let ob :=
    if (ob.levelAt l).isEmpty then
      ob.removePriceLevel (ob.orderAt order).side.isBid (ob.levelAt l).price
    else ob
  { ob with orders := ob.orders.erase orderID }

def removeOrder (ob : OrderBook T) (orderID : UUID) : OrderBook T × Option OrderRef :=
  match ob.orders.lookup orderID with
  | none => (ob, none)
  | some location => (ob.detach orderID location, some location.element.value)

def cancelOrder (ob : OrderBook T) (orderID : UUID) : OrderBook T × Option OrderRef :=
  match ob.orders.lookup orderID with
  | none => (ob, none)
  | some location =>
      let order := location.element.value
      let ob := ob.detach orderID location
      (ob.setOrder order { ob.orderAt order with status := .cancelled }, some order)

def getOrder (ob : OrderBook T) (orderID : UUID) : Option OrderRef :=
  (ob.orders.lookup orderID).map (·.element.value)

def updateOrder (ob : OrderBook T) (orderID : UUID) (newFilledQty : Decimal) : OrderBook T :=
  match ob.orders.lookup orderID with
  | none => ob
  | some location =>
      let order := location.element.value
      let l := location.priceLevel
      let ob := ob.setOrder order ((ob.orderAt order).setFilled newFilledQty)
      ob.setLevel l ((ob.levelAt l).updateVolume ob.orderAt)

def popBestLevel (ob : OrderBook T) (isBid : Bool) : OrderBook T × Option LevelRef :=
  match ob.getBestPrice isBid with
  | none => (ob, none)
  | some l =>
      let orders := (ob.levelAt l).orders.foldl
        (fun m e => m.erase (ob.orderAt e.value).id) ob.orders
      let ob := { ob with orders := orders }
      (ob.removePriceLevel isBid (ob.levelAt l).price, some l)

def clear (ob : OrderBook T) : OrderBook T :=
  { ob with bids := OrderedTree.empty, asks := OrderedTree.empty, orders := ∅ }

/-! ## Queries -/

def getBestBid (ob : OrderBook T) : Option LevelRef := ob.getBestPrice true

def getBestAsk (ob : OrderBook T) : Option LevelRef := ob.getBestPrice false

def getSpread (ob : OrderBook T) : Decimal :=
  match ob.getBestPrice true, ob.getBestPrice false with
  | some bestBid, some bestAsk => (ob.levelAt bestAsk).price - (ob.levelAt bestBid).price
  | _, _ => 0

/-- One side of `OrderBook.GetDepth`. -/
def sideVolume (ob : OrderBook T) (isBid : Bool) : Decimal :=
  (OrderedTree.items (ob.side isBid)).foldl (fun v x => v + (ob.levelAt x.2).volume) 0

/-- `OrderBook.GetDepth`: the total volumes of bids and asks. -/
def getDepth (ob : OrderBook T) : Decimal × Decimal :=
  (ob.sideVolume true, ob.sideVolume false)

def size (ob : OrderBook T) : Nat := ob.orders.keys.card

/-- The count of `GetBidDepth` and `GetAskDepth`, in the order the
iterator visits the levels. -/
def countOrders (ob : OrderBook T) (levels : List (Decimal × LevelRef)) : Nat :=
  levels.foldl (fun n x => n + (ob.levelAt x.2).orders.length) 0

/-- `OrderBook.GetBidDepth`: by `Descend`. -/
def getBidDepth (ob : OrderBook T) : Nat :=
  ob.countOrders (OrderedTree.items ob.bids).reverse

/-- `OrderBook.GetAskDepth`: by `Ascend`. -/
def getAskDepth (ob : OrderBook T) : Nat :=
  ob.countOrders (OrderedTree.items ob.asks)

/-- `OrderBook.GetTopLevels`: `Descend` and `Ascend`, stopped after `n` levels.
The slices are made for `n` levels first, and `make` panics if that is more than
can be allocated; this is left out. -/
def getTopLevels (ob : OrderBook T) (n : Nat) : List LevelRef × List LevelRef :=
  (((OrderedTree.items ob.bids).reverse.take n).map Prod.snd,
   ((OrderedTree.items ob.asks).take n).map Prod.snd)

end OrderBook

end TradingBackend
