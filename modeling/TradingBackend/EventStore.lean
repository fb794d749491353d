import Mathlib.Data.Finmap
import Mathlib.Data.List.Sort
import TradingBackend.Columns
import TradingBackend.Order

/-!
# The order event store

The functions of `db/order_events_schema.sql`: `record_order_created`,
`record_order_fill`, `record_order_cancelled` and `record_order_rejected`
append an event to `order_events` and keep the row of the order in
`orders_snapshot` up to date; `replay_order_state` computes the state of
an order from its events, `rebuild_orders_snapshot` does it for all
orders, `verify_snapshot_consistency` compares. A function that raises an
error returns `none`, and its transaction changes nothing.

PostgreSQL drops the precision of the parameters of a function, so a
number is rounded only where it is stored in `orders_snapshot` and where
`replay_order_state` casts it; the events keep it as it was given, as
text. `v_state` of `replay_order_state` is a row of the declared columns;
a status outside the constants is taken to be short enough for its own.

Left out: `event_id`, `triggered_by` and the `created_at` of an event,
which no function here reads, and calls with NULL for a parameter that
has no default.
-/

namespace TradingBackend

/-- `event_data`. The two types of fill event are told apart by the
status alone and are replayed alike. -/
inductive EventData where
  | created (clientID instrument : String) (side : OrderSide) (type : OrderType)
      (price quantity : Decimal)
  | fill (fillQuantity filledQuantity : Decimal) (status : OrderStatus) (tradeID : Option UUID)
  | cancelled (reason : Option String)
  | rejected (reason : String)
deriving DecidableEq

/-- A call of one of the `record_` functions. -/
structure RecordCall where
  orderID : UUID
  data : EventData
  timestamp : Time
deriving DecidableEq

structure OrderEvent extends RecordCall where
  sequenceNumber : Nat
deriving DecidableEq

/-- A row of `orders_snapshot`, without its key. -/
structure SnapshotState where
  clientID : String
  instrument : String
  side : OrderSide
  type : OrderType
  price : Decimal
  quantity : Decimal
  filledQuantity : Decimal
  status : OrderStatus
  createdAt : Time
  updatedAt : Time
  lastEventSequence : Nat
deriving DecidableEq

/-- The constraints of `orders_snapshot`. -/
def SnapshotState.check (row : SnapshotState) : Option SnapshotState :=
  if (row.side = .buy ∨ row.side = .sell) ∧ (row.type = .limit ∨ row.type = .market)
      ∧ row.status ≠ .unset ∧ row.status ≠ .unknown
      ∧ 0 ≤ row.filledQuantity ∧ row.filledQuantity ≤ row.quantity
      ∧ 0 < row.quantity ∧ 0 ≤ row.price then some row
  else none

def SnapshotState.stored (row : SnapshotState) : Option SnapshotState := do
  let clientID ← varchar 255 row.clientID
  let instrument ← varchar 50 row.instrument
  let price ← numeric 20 8 row.price
  let quantity ← numeric 20 8 row.quantity
  let filledQuantity ← numeric 20 8 row.filledQuantity
  SnapshotState.check { row with
    clientID := clientID, instrument := instrument, price := price, quantity := quantity,
    filledQuantity := filledQuantity }

/-- The statement on `orders_snapshot` of the `record_` function: what
becomes of the row of the order. The row that `ON CONFLICT DO NOTHING`
does not insert is checked all the same; an `UPDATE` of no row evaluates
nothing. -/
def EventData.write (timestamp : Time) (sequence : Nat) :
    EventData → Option SnapshotState → Option (Option SnapshotState)
  | .created clientID instrument side type price quantity, row => do
      let inserted ← SnapshotState.stored
        ⟨clientID, instrument, side, type, price, quantity, 0, .opened, timestamp, timestamp,
          sequence⟩
      some (some (row.getD inserted))
  | .fill _ filledQuantity status _, some row => do
      let filledQuantity ← numeric 20 8 filledQuantity
      let row ← SnapshotState.check { row with
        filledQuantity := filledQuantity, status := status, updatedAt := timestamp,
        lastEventSequence := sequence }
      some (some row)
  | .cancelled _, some row => do
      let row ← SnapshotState.check { row with
        status := .cancelled, updatedAt := timestamp, lastEventSequence := sequence }
      some (some row)
  | .rejected _, some row => do
      let row ← SnapshotState.check { row with
        status := .rejected, updatedAt := timestamp, lastEventSequence := sequence }
      some (some row)
  | _, none => some none

/-- `order_events`, in the order of insertion, and `orders_snapshot`. -/
structure EventTables where
  events : List OrderEvent
  snapshot : Finmap fun _ : UUID => SnapshotState

namespace EventTables

def empty : EventTables := ⟨[], ∅⟩

def eventsOf (db : EventTables) (orderID : UUID) : List OrderEvent :=
  db.events.filter fun e => e.orderID = orderID

def getNextSequenceNumber (db : EventTables) (orderID : UUID) : Nat :=
  ((db.eventsOf orderID).map OrderEvent.sequenceNumber).foldr max 0 + 1

def setRow (snapshot : Finmap fun _ : UUID => SnapshotState) (orderID : UUID) :
    Option SnapshotState → Finmap fun _ : UUID => SnapshotState
  | none => snapshot
  | some row => snapshot.insert orderID row

/-- What the four `record_` functions have in common. -/
def record (db : EventTables) (c : RecordCall) : Option EventTables := do
  let sequence := db.getNextSequenceNumber c.orderID
  -- UNIQUE (order_id, sequence_number)
  if (db.eventsOf c.orderID).any (fun e => e.sequenceNumber = sequence) then none
  else
    let row ← c.data.write c.timestamp sequence (db.snapshot.lookup c.orderID)
    some ⟨db.events ++ [⟨c, sequence⟩], setRow db.snapshot c.orderID row⟩

def recordOrderCreated (db : EventTables) (orderID : UUID) (clientID instrument : String)
    (side : OrderSide) (type : OrderType) (price quantity : Decimal) (timestamp : Time) :
    Option EventTables :=
  db.record ⟨orderID, .created clientID instrument side type price quantity, timestamp⟩

def recordOrderFill (db : EventTables) (orderID : UUID) (fillQuantity newFilledQuantity : Decimal)
    (newStatus : OrderStatus) (tradeID : Option UUID) (timestamp : Time) : Option EventTables :=
  db.record ⟨orderID, .fill fillQuantity newFilledQuantity newStatus tradeID, timestamp⟩

def recordOrderCancelled (db : EventTables) (orderID : UUID) (reason : Option String)
    (timestamp : Time) : Option EventTables :=
  db.record ⟨orderID, .cancelled reason, timestamp⟩

def recordOrderRejected (db : EventTables) (orderID : UUID) (reason : String)
    (timestamp : Time) : Option EventTables :=
  db.record ⟨orderID, .rejected reason, timestamp⟩

end EventTables

/-! ## Replay -/

/-- `v_state` with `v_event_count`: the columns that an `ORDER_CREATED`
event fills in are NULL before it. -/
structure ReplayState where
  clientID : Option String
  instrument : Option String
  side : Option OrderSide
  type : Option OrderType
  price : Option Decimal
  quantity : Option Decimal
  filledQuantity : Decimal
  status : OrderStatus
  createdAt : Option Time
  updatedAt : Option Time
  eventCount : Nat
deriving DecidableEq

namespace ReplayState

def start : ReplayState := ⟨none, none, none, none, none, none, 0, .opened, none, none, 0⟩

/-- The body of the loop. -/
def apply (st : ReplayState) (e : OrderEvent) : Option ReplayState :=
  match e.data with
  | .created clientID instrument side type price quantity => do
      let clientID ← varchar 255 clientID
      let instrument ← varchar 50 instrument
      let price ← numeric 20 8 price
      let quantity ← numeric 20 8 quantity
      some { st with
        clientID := clientID, instrument := instrument, side := side, type := type,
        price := price, quantity := quantity, createdAt := e.timestamp, updatedAt := e.timestamp,
        status := .opened, eventCount := st.eventCount + 1 }
  | .fill _ filledQuantity status _ => do
      let filledQuantity ← numeric 20 8 filledQuantity
      some { st with
        filledQuantity := filledQuantity, status := status, updatedAt := e.timestamp,
        eventCount := st.eventCount + 1 }
  | .cancelled _ =>
      some { st with
        status := .cancelled, updatedAt := e.timestamp, eventCount := st.eventCount + 1 }
  | .rejected _ =>
      some { st with
        status := .rejected, updatedAt := e.timestamp, eventCount := st.eventCount + 1 }

/-- The row that `rebuild_orders_snapshot` inserts; its columns are
`NOT NULL`. -/
def toRow (st : ReplayState) : Option SnapshotState := do
  SnapshotState.stored
    ⟨← st.clientID, ← st.instrument, ← st.side, ← st.type, ← st.price, ← st.quantity,
      st.filledQuantity, st.status, ← st.createdAt, ← st.updatedAt, st.eventCount⟩

end ReplayState

/-- A row of `verify_snapshot_consistency`. -/
structure Inconsistency where
  orderID : UUID
  snapshotStatus : OrderStatus
  replayedStatus : OrderStatus
  snapshotFilled : Decimal
  replayedFilled : Decimal
deriving DecidableEq

namespace EventTables

def replayOrderState (db : EventTables) (orderID : UUID) : Option ReplayState :=
  ((db.eventsOf orderID).insertionSort fun e e' => e.sequenceNumber ≤ e'.sequenceNumber).foldlM
    ReplayState.apply ReplayState.start

/-- The ids that `rebuild_orders_snapshot` loops over. -/
def orderIDs (db : EventTables) : List UUID :=
  ((db.events.map fun e => e.orderID).dedup).insertionSort fun x y => x ≤ y

/-- The body of the loop of `rebuild_orders_snapshot`: the table so far,
and `v_count`. -/
def rebuildOrder (db : EventTables) (s : (Finmap fun _ : UUID => SnapshotState) × Nat)
    (orderID : UUID) : Option ((Finmap fun _ : UUID => SnapshotState) × Nat) := do
  let st ← db.replayOrderState orderID
  let row ← st.toRow
  if orderID ∈ s.1 then none else some (s.1.insert orderID row, s.2 + 1)

def rebuildOrdersSnapshot (db : EventTables) : Option (EventTables × Nat) :=
  (db.orderIDs.foldlM db.rebuildOrder (∅, 0)).map fun s => ({ db with snapshot := s.1 }, s.2)

/-- What `verify_snapshot_consistency` returns for a row. -/
def inconsistency (db : EventTables) (x : (_ : UUID) × SnapshotState) : Option Inconsistency := do
  let st ← db.replayOrderState x.1
  if x.2.status ≠ st.status ∨ x.2.filledQuantity ≠ st.filledQuantity then
    some ⟨x.1, x.2.status, st.status, x.2.filledQuantity, st.filledQuantity⟩
  else none

/-- `verify_snapshot_consistency`. An order that cannot be replayed makes
it fail. -/
def verifySnapshotConsistency (db : EventTables) : Option (Multiset Inconsistency) :=
  if ∀ x ∈ db.snapshot.entries, (db.replayOrderState x.1).isSome = true then
    some (db.snapshot.entries.filterMap db.inconsistency)
  else none

end EventTables

end TradingBackend
