import Mathlib.Data.List.Sort
import TradingBackend.StoreTransactions

/-!
# Event sourcing

`eventsourcing/events.go`, `store.go` and `replay.go`: the events, the
table of `eventsourcing/schema.sql` that `Append` writes and `LoadEvents`
and `LoadEventsSince` read, and the replays of `ReplayEngine`.

Prices and quantities are `float64` in the source; they are of any type
that has the operations `Apply` uses. The JSON of an event is whatever
`encoding/json` makes of it (`EventCodec`): all that is known is that an
event is read back from its own JSON. The driver fails where `RowFaults`
and `InsertFault` say. The checks of the columns' lengths and ranges are
among the failures of an insert.

Left out: the metadata, causation and correlation columns, which no query
reads, and the snapshots, which no replay uses.
-/

namespace TradingBackend.EventSourcing

/-! ## Events -/

structure BaseEvent where
  eventID : UUID
  eventType : String
  aggregateID : String
  aggregateType : String
  version : Int
  timestamp : Time
deriving DecidableEq

structure OrderPlacedEvent (F : Type) extends BaseEvent where
  orderID : UUID
  clientID : String
  instrument : String
  side : String
  type : String
  price : F
  quantity : F
  timeInForce : String
deriving DecidableEq

structure OrderCancelledEvent extends BaseEvent where
  orderID : UUID
  reason : String
deriving DecidableEq

structure OrderPartiallyFilledEvent (F : Type) extends BaseEvent where
  orderID : UUID
  filledQuantity : F
  remainingQuantity : F
  fillPrice : F
  tradeID : UUID
deriving DecidableEq

structure OrderFilledEvent (F : Type) extends BaseEvent where
  orderID : UUID
  totalFilled : F
  averagePrice : F
  lastTradeID : UUID
deriving DecidableEq

structure TradeExecutedEvent (F : Type) extends BaseEvent where
  tradeID : UUID
  instrument : String
  buyerOrderID : UUID
  sellerOrderID : UUID
  price : F
  quantity : F
  buyerClientID : String
  sellerClientID : String
deriving DecidableEq

/-- `Event`, by the types that implement it. -/
inductive Event (F : Type) where
  | orderPlaced (e : OrderPlacedEvent F)
  | orderCancelled (e : OrderCancelledEvent)
  | orderPartiallyFilled (e : OrderPartiallyFilledEvent F)
  | orderFilled (e : OrderFilledEvent F)
  | tradeExecuted (e : TradeExecutedEvent F)
deriving DecidableEq

inductive EventType where
  | orderPlaced
  | orderCancelled
  | orderPartiallyFilled
  | orderFilled
  | tradeExecuted
deriving DecidableEq

def EventType.name : EventType → String
  | .orderPlaced => "OrderPlaced"
  | .orderCancelled => "OrderCancelled"
  | .orderPartiallyFilled => "OrderPartiallyFilled"
  | .orderFilled => "OrderFilled"
  | .tradeExecuted => "TradeExecuted"

namespace Event

variable {F : Type}

@[simp] def type : Event F → EventType
  | .orderPlaced _ => .orderPlaced
  | .orderCancelled _ => .orderCancelled
  | .orderPartiallyFilled _ => .orderPartiallyFilled
  | .orderFilled _ => .orderFilled
  | .tradeExecuted _ => .tradeExecuted

@[simp] def base : Event F → BaseEvent
  | .orderPlaced e => e.toBaseEvent
  | .orderCancelled e => e.toBaseEvent
  | .orderPartiallyFilled e => e.toBaseEvent
  | .orderFilled e => e.toBaseEvent
  | .tradeExecuted e => e.toBaseEvent

@[simp] def getEventID (e : Event F) : UUID := e.base.eventID

@[simp] def getEventType (e : Event F) : String := e.base.eventType

@[simp] def getAggregateID (e : Event F) : String := e.base.aggregateID

@[simp] def getAggregateType (e : Event F) : String := e.base.aggregateType

@[simp] def getVersion (e : Event F) : Int := e.base.version

@[simp] def getTimestamp (e : Event F) : Time := e.base.timestamp

end Event

/-- `NewOrderPlacedEvent`; `eventID` and `now` are what `uuid.New` and
`time.Now` return. -/
def newOrderPlacedEvent {F : Type} (eventID : UUID) (now : Time) (orderID : UUID)
    (clientID instrument side orderType : String) (price qty : F) (tif : String)
    (version : Int) : OrderPlacedEvent F where
  eventID := eventID
  eventType := "OrderPlaced"
  aggregateID := uuidText orderID
  aggregateType := "Order"
  version := version
  timestamp := now
  orderID := orderID
  clientID := clientID
  instrument := instrument
  side := side
  type := orderType
  price := price
  quantity := qty
  timeInForce := tif

def newOrderCancelledEvent (eventID : UUID) (now : Time) (orderID : UUID) (reason : String)
    (version : Int) : OrderCancelledEvent where
  eventID := eventID
  eventType := "OrderCancelled"
  aggregateID := uuidText orderID
  aggregateType := "Order"
  version := version
  timestamp := now
  orderID := orderID
  reason := reason

/-! ## The store -/

structure EventRow (β : Type) where
  eventID : UUID
  eventType : String
  aggregateID : String
  aggregateType : String
  payload : β
  version : Int
  timestamp : Time
deriving DecidableEq

/-- Two rows that the primary key or `events_aggregate_version_unique`
keeps apart. -/
def EventRow.Conflicts {β : Type} (a b : EventRow β) : Prop :=
  a.eventID = b.eventID
    ∨ a.aggregateID = b.aggregateID ∧ a.aggregateType = b.aggregateType ∧ a.version = b.version

instance {β : Type} (a b : EventRow β) : Decidable (a.Conflicts b) :=
  inferInstanceAs (Decidable (_ ∨ _))

structure EventTable (β : Type) where
  rows : List (EventRow β)
  unique : rows.Pairwise fun a b => ¬ a.Conflicts b

def EventTable.empty {β : Type} : EventTable β := ⟨[], .nil⟩

def EventTable.insert {β : Type} (table : EventTable β) (row : EventRow β) :
    Except ErrorChain (EventTable β) :=
  if h : ∀ other ∈ table.rows, ¬ other.Conflicts row then
    .ok ⟨table.rows ++ [row],
      List.pairwise_append.mpr ⟨table.unique, List.pairwise_singleton _ _, by simpa using h⟩⟩
  else .error (.cause (.pq "23505"))

structure EventCodec (β F : Type) where
  marshal : Event F → Except ErrorChain β
  unmarshal : EventType → β → Except ErrorChain (Event F)
  unmarshal_type : ∀ {t b e}, unmarshal t b = .ok e → e.type = t
  unmarshal_marshal : ∀ {e b}, marshal e = .ok b → unmarshal e.type b = .ok e

/-- Events that stand for their own JSON. -/
def EventCodec.plain (F : Type) : EventCodec (Event F) F where
  marshal := .ok
  unmarshal t e := if e.type = t then .ok e else .error (.cause (.other "json: cannot unmarshal"))
  unmarshal_type {t b e} h := by
    split at h
    · next htype => rw [← Except.ok.inj h, htype]
    · cases h
  unmarshal_marshal {e b} h := by
    rw [← Except.ok.inj h, if_pos rfl]

/-- An error of `ExecContext`; the row may have been inserted all the same. -/
structure InsertFault where
  err : ErrorChain
  inserted : Bool

/-- The errors of the driver while the rows of a query are read. -/
structure RowFaults where
  query : Option ErrorChain
  /-- `rows.Next` is false after `i` rows, and this is `rows.Err`. -/
  next : ℕ → Option ErrorChain
  /-- `rows.Scan` of row `i`. -/
  scan : ℕ → Option ErrorChain

def RowFaults.none : RowFaults := ⟨.none, fun _ => .none, fun _ => .none⟩

section

variable {β F : Type}

/-- `Append`: what it returns, and the table afterwards. -/
def append (c : EventCodec β F) (fault : Option InsertFault) (table : EventTable β)
    (event : Event F) : Option ErrorChain × EventTable β :=
  match c.marshal event with
  | .error err => (some (.wrapped "failed to marshal event" err), table)
  | .ok payload =>
      let inserted := table.insert
        ⟨event.getEventID, event.getEventType, event.getAggregateID, event.getAggregateType,
          payload, event.getVersion, event.getTimestamp⟩
      match fault, inserted with
      | none, .ok table' => (none, table')
      | none, .error err => (some (.wrapped "failed to insert event" err), table)
      | some f, .ok table' =>
          (some (.wrapped "failed to insert event" f.err), if f.inserted then table' else table)
      | some f, .error _ => (some (.wrapped "failed to insert event" f.err), table)

def appendAll (c : EventCodec β F) (table : EventTable β)
    (events : List (Option InsertFault × Event F)) : EventTable β :=
  events.foldl (fun table e => (append c e.1 table e.2).2) table

def deserializeEvent (c : EventCodec β F) (eventType : String) (payload : β) :
    Except ErrorChain (Event F) :=
  match eventType with
  | "OrderPlaced" => c.unmarshal .orderPlaced payload
  | "OrderCancelled" => c.unmarshal .orderCancelled payload
  | "OrderPartiallyFilled" => c.unmarshal .orderPartiallyFilled payload
  | "OrderFilled" => c.unmarshal .orderFilled payload
  | "TradeExecuted" => c.unmarshal .tradeExecuted payload
  | _ => .error (.cause (.other ("unknown event type: " ++ eventType)))

/-- The loop over the rows of a query, when `i` of them have been read.
Nothing asks for `rows.Err` after it. -/
def readRows (c : EventCodec β F) (faults : RowFaults) (i : ℕ) (events : List (Event F)) :
    List (EventRow β) → Except ErrorChain (List (Event F))
  | [] => .ok events
  | row :: rows =>
      match faults.next i, faults.scan i with
      | some _, _ => .ok events
      | none, some err => .error (.wrapped "failed to scan event" err)
      | none, none => do
          let event ← wrapChain "failed to deserialize event"
            (deserializeEvent c row.eventType row.payload)
          readRows c faults (i + 1) (events ++ [event]) rows

/-- `QueryContext` and the loop. -/
def readEvents (c : EventCodec β F) (faults : RowFaults) (rows : List (EventRow β)) :
    Except ErrorChain (List (Event F)) :=
  match faults.query with
  | some err => .error (.wrapped "failed to query events" err)
  | none => readRows c faults 0 [] rows

/-- `ORDER BY version ASC`. -/
def orderByVersion (rows : List (EventRow β)) : List (EventRow β) :=
  rows.insertionSort fun a b => a.version ≤ b.version

namespace EventTable

/-- The rows the query of `LoadEvents` selects. -/
def ofAggregate (table : EventTable β) (aggregateID aggregateType : String) :
    List (EventRow β) :=
  orderByVersion (table.rows.filter fun row =>
    row.aggregateID = aggregateID ∧ row.aggregateType = aggregateType)

/-- The rows the query of `LoadEventsSince` selects. -/
def ofAggregateSince (table : EventTable β) (aggregateID aggregateType : String)
    (version : Int) : List (EventRow β) :=
  orderByVersion (table.rows.filter fun row =>
    row.aggregateID = aggregateID ∧ row.aggregateType = aggregateType ∧ row.version > version)

end EventTable

def loadEvents (c : EventCodec β F) (faults : RowFaults) (table : EventTable β)
    (aggregateID aggregateType : String) : Except ErrorChain (List (Event F)) :=
  readEvents c faults (table.ofAggregate aggregateID aggregateType)

def loadEventsSince (c : EventCodec β F) (faults : RowFaults) (table : EventTable β)
    (aggregateID aggregateType : String) (version : Int) :
    Except ErrorChain (List (Event F)) :=
  readEvents c faults (table.ofAggregateSince aggregateID aggregateType version)

end

/-! ## The state of an order -/

structure OrderState (F : Type) where
  orderID : UUID
  clientID : String
  instrument : String
  side : String
  type : String
  price : F
  originalQty : F
  remainingQty : F
  filledQty : F
  averageFillPrice : F
  status : String
  timeInForce : String
  createdAt : Time
  updatedAt : Time
  version : Int
deriving DecidableEq

/-- `time.Time{}`, the first of January of the year 1. -/
def zeroTime : Time := -62135596800 * 1000000000

section

variable {F : Type} [Zero F]

def OrderState.empty : OrderState F :=
  ⟨0, "", "", "", "", 0, 0, 0, 0, 0, "", "", zeroTime, zeroTime, 0⟩

variable [Add F] [Sub F] [Mul F] [Div F] [LT F] [DecidableLT F]

def OrderState.apply (s : OrderState F) : Event F → OrderState F
  | .orderPlaced e => { s with
      orderID := e.orderID
      clientID := e.clientID
      instrument := e.instrument
      side := e.side
      type := e.type
      price := e.price
      originalQty := e.quantity
      remainingQty := e.quantity
      filledQty := 0
      status := "open"
      timeInForce := e.timeInForce
      createdAt := e.timestamp
      updatedAt := e.timestamp
      version := e.version }
  | .orderCancelled e => { s with
      status := "cancelled"
      updatedAt := e.timestamp
      version := e.version }
  | .orderPartiallyFilled e =>
      let s := { s with
        filledQty := s.filledQty + e.filledQuantity
        remainingQty := e.remainingQuantity
        status := "partial"
        updatedAt := e.timestamp
        version := e.version }
      if 0 < s.filledQty then { s with
        averageFillPrice :=
          (s.averageFillPrice * (s.filledQty - e.filledQuantity) + e.fillPrice * e.filledQuantity)
            / s.filledQty }
      else s
  | .orderFilled e => { s with
      filledQty := e.totalFilled
      remainingQty := 0
      status := "filled"
      averageFillPrice := e.averagePrice
      updatedAt := e.timestamp
      version := e.version }
  -- no case of the switch
  | .tradeExecuted _ => s

/-- `for _, event := range events`. -/
def OrderState.applyAll (s : OrderState F) (events : List (Event F)) : OrderState F :=
  events.foldl OrderState.apply s

namespace OrderState

@[simp] theorem applyAll_nil (s : OrderState F) : s.applyAll [] = s := rfl

@[simp] theorem applyAll_cons (s : OrderState F) (e : Event F) (events : List (Event F)) :
    s.applyAll (e :: events) = (s.apply e).applyAll events := rfl

theorem applyAll_append (s : OrderState F) (events more : List (Event F)) :
    s.applyAll (events ++ more) = (s.applyAll events).applyAll more :=
  List.foldl_append

end OrderState

/-- The loop with a `break` at the first event that is past the cut. -/
def OrderState.applyUntil (past : Event F → Bool) (s : OrderState F) :
    List (Event F) → OrderState F
  | [] => s
  | event :: events => if past event then s else (s.apply event).applyUntil past events

variable {β : Type}

def replayOrder (c : EventCodec β F) (faults : RowFaults) (table : EventTable β)
    (orderID : UUID) : Except ErrorChain (OrderState F) := do
  let events ← wrapChain "failed to load events"
    (loadEvents c faults table (uuidText orderID) "Order")
  if events.length = 0 then .error (.cause (.orderNotFound orderID))
  else .ok (OrderState.empty.applyAll events)

def replayOrderToVersion (c : EventCodec β F) (faults : RowFaults) (table : EventTable β)
    (orderID : UUID) (targetVersion : Int) : Except ErrorChain (OrderState F) := do
  let events ← wrapChain "failed to load events"
    (loadEvents c faults table (uuidText orderID) "Order")
  .ok (OrderState.empty.applyUntil (fun e => e.getVersion > targetVersion) events)

def replayOrderToTimestamp (c : EventCodec β F) (faults : RowFaults) (table : EventTable β)
    (orderID : UUID) (targetTime : Time) : Except ErrorChain (OrderState F) := do
  let events ← wrapChain "failed to load events"
    (loadEvents c faults table (uuidText orderID) "Order")
  .ok (OrderState.empty.applyUntil (fun e => e.getTimestamp > targetTime) events)

end

end TradingBackend.EventSourcing
