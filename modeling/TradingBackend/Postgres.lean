import Mathlib.Algebra.BigOperators.Group.Multiset.Basic
import Mathlib.Algebra.Order.BigOperators.Group.Multiset
import Mathlib.Data.Finmap
import TradingBackend.Columns
import TradingBackend.Order
import TradingBackend.Trace

/-!
# The tables of orders and trades

`persistence/postgres.go` on the tables of `db/schema.sql`: `InsertOrder`,
`insertTrade`, `updateOrder` and the transaction of
`PersistTradeWithOrders`, with the query that compares the filled
quantities of the orders to their trades.

A row is checked even if `ON CONFLICT DO NOTHING` then drops it. The
trigger on `orders` overwrites the `updated_at` of every `UPDATE` with
`NOW()`, the time at which the transaction began. A transaction that fails
is rolled back; `executeWithRetry` runs it again only after that, so what
a call of `PersistTradeWithOrders` changes is what one transaction does.

Times are those the columns hold, in microseconds. A status, side or type
outside the constants is taken to be short enough for its column.
-/

namespace TradingBackend

/-! ## Errors -/

inductive StoreError where
  /-- `*pq.Error`, by its code. -/
  | pq (code : String)
  /-- `fmt.Errorf("order not found: %s", orderID)`. -/
  | orderNotFound (orderID : UUID)
  /-- `fmt.Errorf(message + ": %w", err)`. -/
  | wrapped (message : String) (err : StoreError)
deriving DecidableEq

/-- `if err != nil { return fmt.Errorf(message + ": %w", err) }`. -/
def wrapError {α : Type} (message : String) : Except StoreError α → Except StoreError α
  | .ok a => .ok a
  | .error err => .error (.wrapped message err)

section

variable {ε α β : Type} {x : Except ε α} {f : α → Except ε β} {a : α} {b : β} {e : ε}

@[simp] theorem wrapError_eq_ok {message : String} {x : Except StoreError α} :
    wrapError message x = .ok a ↔ x = .ok a := by
  cases x <;> simp [wrapError]

theorem bind_eq_ok : x >>= f = .ok b ↔ ∃ a, x = .ok a ∧ f a = .ok b := by
  cases x <;> simp [bind, Except.bind]

theorem bind_eq_error : x >>= f = .error e ↔ x = .error e ∨ ∃ a, x = .ok a ∧ f a = .error e := by
  cases x <;> simp [bind, Except.bind]

@[simp] theorem ok_bind : (Except.ok a : Except ε α) >>= f = f a := rfl

end

def varcharColumn (n : ℕ) (s : String) : Except StoreError String :=
  match varchar n s with
  | some t => .ok t
  | none => .error (.pq (if s.toList.contains (Char.ofNat 0) then "22021" else "22001"))

def numericColumn (x : Decimal) : Except StoreError Decimal :=
  match numeric 20 8 x with
  | some y => .ok y
  | none => .error (.pq "22003")

/-- The `CHECK` constraints of a table. -/
def checkRow (p : Prop) [Decidable p] : Except StoreError Unit :=
  if p then .ok () else .error (.pq "23514")

section

variable {n : ℕ} {s t : String} {x y : Decimal} {p : Prop} [Decidable p] {u : Unit}

@[simp] theorem varcharColumn_eq_ok : varcharColumn n s = .ok t ↔ varchar n s = some t := by
  unfold varcharColumn
  split <;> simp_all

@[simp] theorem numericColumn_eq_ok : numericColumn x = .ok y ↔ numeric 20 8 x = some y := by
  unfold numericColumn
  split <;> simp_all

@[simp] theorem checkRow_eq_ok : checkRow p = .ok u ↔ p := by
  unfold checkRow
  split <;> simp_all

end

/-! ## Rows -/

/-- A row of `orders`, without its key. -/
structure OrderRow where
  clientID : String
  instrument : String
  side : OrderSide
  type : OrderType
  price : Decimal
  quantity : Decimal
  filledQuantity : Decimal
  status : OrderStatus
  timestamp : Time
  updatedAt : Time
deriving DecidableEq

/-- A row of `trades`, without its key. -/
structure TradeRow where
  buyOrderID : UUID
  sellOrderID : UUID
  instrument : String
  price : Decimal
  quantity : Decimal
  timestamp : Time
  createdAt : Time
deriving DecidableEq

structure TradeRecord extends TradeRow where
  tradeID : UUID
deriving DecidableEq

structure OrderUpdate where
  orderID : UUID
  filledQuantity : Decimal
  status : OrderStatus
  updatedAt : Time
deriving DecidableEq

/-- The constraints of `orders`. -/
def OrderRow.Valid (row : OrderRow) : Prop :=
  (row.side = .buy ∨ row.side = .sell) ∧ (row.type = .market ∨ row.type = .limit)
    ∧ 0 < row.quantity ∧ 0 ≤ row.filledQuantity
    ∧ (row.status ≠ .unset ∧ row.status ≠ .unknown) ∧ row.filledQuantity ≤ row.quantity

instance OrderRow.decidableValid (row : OrderRow) : Decidable row.Valid :=
  inferInstanceAs (Decidable (_ ∧ _))

/-- What `INSERT INTO orders` stores. -/
def OrderRow.stored (row : OrderRow) : Except StoreError OrderRow := do
  let clientID ← varcharColumn 255 row.clientID
  let instrument ← varcharColumn 50 row.instrument
  let price ← numericColumn row.price
  let quantity ← numericColumn row.quantity
  let filledQuantity ← numericColumn row.filledQuantity
  let row := { row with
    clientID := clientID, instrument := instrument, price := price, quantity := quantity,
    filledQuantity := filledQuantity }
  checkRow row.Valid
  return row

/-- What the `UPDATE` of `updateOrder` makes of a row. The `updatedAt` of
the update is lost: the trigger writes the column after it. -/
def OrderRow.update (row : OrderRow) (update : OrderUpdate) (now : Time) :
    Except StoreError OrderRow := do
  let filledQuantity ← numericColumn update.filledQuantity
  let row := { row with
    filledQuantity := filledQuantity, status := update.status, updatedAt := now }
  checkRow row.Valid
  return row

/-- What `INSERT INTO trades` stores. -/
def TradeRow.stored (row : TradeRow) : Except StoreError TradeRow := do
  let instrument ← varcharColumn 50 row.instrument
  let price ← numericColumn row.price
  let quantity ← numericColumn row.quantity
  checkRow (0 < price ∧ 0 < quantity)
  return { row with instrument := instrument, price := price, quantity := quantity }

def TradeRow.Names (row : TradeRow) (id : UUID) : Prop := id = row.buyOrderID ∨ id = row.sellOrderID

instance TradeRow.decidableNames (row : TradeRow) (id : UUID) : Decidable (row.Names id) :=
  inferInstanceAs (Decidable (_ ∨ _))

def Order.row (o : Order) (updatedAt : Time) : OrderRow :=
  { clientID := o.clientID, instrument := o.instrument, side := o.side, type := o.type,
    price := o.price, quantity := o.quantity, filledQuantity := o.filledQuantity,
    status := o.status, timestamp := o.createdAt, updatedAt := updatedAt }

/-! ## Tables -/

/-- The tables `orders` and `trades`. -/
structure TradeTables where
  orders : Finmap fun _ : UUID => OrderRow
  trades : Finmap fun _ : UUID => TradeRow
deriving DecidableEq

/-- The arguments of `PersistTradeWithOrders`. -/
structure PersistCall where
  trade : TradeRecord
  buyOrderUpdate : OrderUpdate
  sellOrderUpdate : OrderUpdate
deriving DecidableEq

/-- A row of the query that compares filled quantities and trades. -/
structure FilledMismatch where
  orderID : UUID
  filledQuantity : Decimal
  tradeTotal : Decimal
deriving DecidableEq

namespace TradeTables

def empty : TradeTables := ⟨∅, ∅⟩

def insertOrder (db : TradeTables) (order : Order) (updatedAt : Time) :
    Except StoreError TradeTables := do
  let row ← wrapError "failed to insert order" (order.row updatedAt).stored
  -- ON CONFLICT (order_id) DO NOTHING
  return if order.id ∈ db.orders then db
    else { db with orders := db.orders.insert order.id row }

def insertTrade (db : TradeTables) (trade : TradeRecord) : Except StoreError TradeTables := do
  let row ← wrapError "failed to execute insert trade" trade.toTradeRow.stored
  -- ON CONFLICT (trade_id) DO NOTHING
  return if trade.tradeID ∈ db.trades then db
    else { db with trades := db.trades.insert trade.tradeID row }

/-- `updateOrder`, in a transaction that began at `now`. -/
def updateOrder (db : TradeTables) (update : OrderUpdate) (now : Time) :
    Except StoreError TradeTables :=
  match db.orders.lookup update.orderID with
  | none => .error (.orderNotFound update.orderID)
  | some row => do
      let row ← wrapError "failed to update order" (row.update update now)
      return { db with orders := db.orders.insert update.orderID row }

/-- `persistTradeWithOrdersTx`, in a transaction that began at `now`. -/
def persistTradeWithOrdersTx (db : TradeTables) (c : PersistCall) (now : Time) :
    Except StoreError TradeTables := do
  let db ← wrapError "failed to insert trade" (db.insertTrade c.trade)
  let db ← wrapError "failed to update buy order" (db.updateOrder c.buyOrderUpdate now)
  wrapError "failed to update sell order" (db.updateOrder c.sellOrderUpdate now)

/-- `COALESCE(SUM(t.quantity), 0)` over the trades of an order. -/
def tradeTotal (db : TradeTables) (orderID : UUID) : Decimal :=
  ((db.trades.entries.filter fun t => t.2.Names orderID).map fun t => t.2.quantity).sum

/-- Query 5 of the schema. -/
def filledMismatches (db : TradeTables) : Multiset FilledMismatch :=
  (db.orders.entries.map fun o => ⟨o.1, o.2.filledQuantity, db.tradeTotal o.1⟩).filter
    fun r : FilledMismatch => r.filledQuantity ≠ r.tradeTotal

end TradeTables

/-! ## What the statements do -/

section

variable {row row' : OrderRow} {update : OrderUpdate} {now : Time}

/-- A row that was inserted, as far as quantities go. -/
theorem OrderRow.stored_eq_ok (h : row.stored = .ok row') :
    numeric 20 8 row.quantity = some row'.quantity
      ∧ numeric 20 8 row.filledQuantity = some row'.filledQuantity ∧ row'.Valid := by
  simp only [OrderRow.stored, bind_eq_ok, varcharColumn_eq_ok, numericColumn_eq_ok,
    checkRow_eq_ok] at h
  obtain ⟨c, -, i, -, p, -, q, hq, f, hf, -, hvalid, heq⟩ := h
  obtain rfl := Except.ok.inj heq
  exact ⟨hq, hf, hvalid⟩

theorem OrderRow.stored_self (hclient : varchar 255 row.clientID = some row.clientID)
    (hinst : varchar 50 row.instrument = some row.instrument)
    (hprice : numeric 20 8 row.price = some row.price)
    (hquantity : numeric 20 8 row.quantity = some row.quantity)
    (hfilled : numeric 20 8 row.filledQuantity = some row.filledQuantity) (hvalid : row.Valid) :
    row.stored = .ok row := by
  simp only [OrderRow.stored, bind_eq_ok, varcharColumn_eq_ok, numericColumn_eq_ok, checkRow_eq_ok]
  exact ⟨_, hclient, _, hinst, _, hprice, _, hquantity, _, hfilled, (), hvalid, rfl⟩

theorem OrderRow.update_eq_ok : row.update update now = .ok row' ↔
    numeric 20 8 update.filledQuantity = some row'.filledQuantity
      ∧ row' = { row with
          filledQuantity := row'.filledQuantity, status := update.status, updatedAt := now }
      ∧ row'.Valid := by
  simp only [OrderRow.update, bind_eq_ok, numericColumn_eq_ok, checkRow_eq_ok]
  constructor
  · rintro ⟨f, hf, -, hvalid, heq⟩
    obtain rfl := Except.ok.inj heq
    exact ⟨hf, rfl, hvalid⟩
  · rintro ⟨hf, heq, hvalid⟩
    exact ⟨_, hf, (), heq ▸ hvalid, congrArg Except.ok heq.symm⟩

theorem TradeRow.stored_eq_ok {row row' : TradeRow} : row.stored = .ok row' ↔
    varchar 50 row.instrument = some row'.instrument
      ∧ numeric 20 8 row.price = some row'.price
      ∧ numeric 20 8 row.quantity = some row'.quantity
      ∧ (0 < row'.price ∧ 0 < row'.quantity)
      ∧ row' = { row with
          instrument := row'.instrument, price := row'.price, quantity := row'.quantity } := by
  simp only [TradeRow.stored, bind_eq_ok, varcharColumn_eq_ok, numericColumn_eq_ok, checkRow_eq_ok]
  constructor
  · rintro ⟨i, hi, p, hp, q, hq, -, hpos, heq⟩
    obtain rfl := Except.ok.inj heq
    exact ⟨hi, hp, hq, hpos, rfl⟩
  · rintro ⟨hi, hp, hq, hpos, heq⟩
    exact ⟨_, hi, _, hp, _, hq, (), hpos, congrArg Except.ok heq.symm⟩

end

namespace TradeTables

variable {db db' : TradeTables} {c : PersistCall} {now : Time} {id : UUID}

theorem insertOrder_eq_ok {order : Order} {updatedAt : Time} :
    db.insertOrder order updatedAt = .ok db' ↔
      ∃ row, (order.row updatedAt).stored = .ok row
        ∧ db' = if order.id ∈ db.orders then db
          else { db with orders := db.orders.insert order.id row } := by
  simp only [insertOrder, bind_eq_ok, wrapError_eq_ok, pure, Except.pure, Except.ok.injEq,
    eq_comm (a := db')]

theorem insertTrade_eq_ok {trade : TradeRecord} :
    db.insertTrade trade = .ok db' ↔
      ∃ row, trade.toTradeRow.stored = .ok row
        ∧ db' = if trade.tradeID ∈ db.trades then db
          else { db with trades := db.trades.insert trade.tradeID row } := by
  simp only [insertTrade, bind_eq_ok, wrapError_eq_ok, pure, Except.pure, Except.ok.injEq,
    eq_comm (a := db')]

theorem updateOrder_eq_ok {update : OrderUpdate} :
    db.updateOrder update now = .ok db' ↔
      ∃ row row', db.orders.lookup update.orderID = some row ∧ row.update update now = .ok row'
        ∧ db' = { db with orders := db.orders.insert update.orderID row' } := by
  unfold updateOrder
  split
  · simp_all
  · simp_all only [bind_eq_ok, wrapError_eq_ok, pure, Except.pure, Except.ok.injEq,
      Option.some.injEq, exists_and_left, exists_eq_left', eq_comm (a := db')]

theorem persistTradeWithOrdersTx_eq_ok : db.persistTradeWithOrdersTx c now = .ok db' ↔
    ∃ db₁ db₂, db.insertTrade c.trade = .ok db₁ ∧ db₁.updateOrder c.buyOrderUpdate now = .ok db₂
      ∧ db₂.updateOrder c.sellOrderUpdate now = .ok db' := by
  simp only [persistTradeWithOrdersTx, bind_eq_ok, wrapError_eq_ok, exists_and_left]

theorem lookup_insert_apply {β : Type} (s : Finmap fun _ : UUID => β) (id id' : UUID) (b : β) :
    (s.insert id b).lookup id' = if id' = id then some b else s.lookup id' := by
  split_ifs with h
  · rw [h, Finmap.lookup_insert]
  · exact Finmap.lookup_insert_of_ne s h

end TradeTables

/-! ## Runs -/

/-- The calls made on the store. A redelivery is a call like any other; it
is told apart to say which calls a run would do without. -/
inductive StoreEvent where
  | insertOrder (order : Order) (updatedAt : Time)
  | persist (c : PersistCall) (now : Time)
  | redeliver (c : PersistCall) (now : Time)
deriving DecidableEq

namespace TradeTables

def call (db : TradeTables) : StoreEvent → Except StoreError TradeTables
  | .insertOrder order updatedAt => db.insertOrder order updatedAt
  | .persist c now => db.persistTradeWithOrdersTx c now
  | .redeliver c now => db.persistTradeWithOrdersTx c now

/-- The tables after a call: one that fails changes nothing. -/
def step (db : TradeTables) (e : StoreEvent) : TradeTables :=
  match db.call e with
  | .ok db' => db'
  | .error _ => db

def Step (db : TradeTables) (e : StoreEvent) (db' : TradeTables) : Prop := db' = db.step e

variable {db db' : TradeTables} {e : StoreEvent} {c : PersistCall} {now : Time} {id : UUID}

theorem step_cases (db : TradeTables) (e : StoreEvent) :
    db.call e = .ok (db.step e) ∨ db.step e = db := by
  unfold step
  split
  · rename_i h
    exact Or.inl h
  · exact Or.inr rfl

/-! ## Filled quantities and trades -/

theorem tradeTotal_insert {tradeID : UUID} (h : tradeID ∉ db.trades) (row : TradeRow) :
    ({ db with trades := db.trades.insert tradeID row } : TradeTables).tradeTotal id =
      db.tradeTotal id + if row.Names id then row.quantity else 0 := by
  simp only [tradeTotal, Finmap.entries_insert_of_notMem h, Multiset.filter_cons]
  split_ifs with hnames
  · simp [add_comm]
  · simp

theorem tradeTotal_congr (h : db.trades = db'.trades) : db.tradeTotal id = db'.tradeTotal id := by
  unfold tradeTotal
  rw [h]

theorem filledMismatches_eq_zero : db.filledMismatches = 0 ↔
    ∀ id row, db.orders.lookup id = some row → row.filledQuantity = db.tradeTotal id := by
  simp only [filledMismatches, Multiset.filter_eq_nil, Multiset.mem_map, not_not,
    Finmap.lookup_eq_some_iff]
  constructor
  · exact fun h id row hrow => h _ ⟨⟨id, row⟩, hrow, rfl⟩
  · rintro h _ ⟨⟨id, row⟩, hrow, rfl⟩
    exact h id row hrow

end TradeTables

def TradeRow.Fits (row : TradeRow) : Prop := row.stored = .ok row

section

variable {row row' : TradeRow}

theorem TradeRow.stored_fits (h : row.stored = .ok row') : row'.Fits := by
  obtain ⟨hi, hp, hq, hpos, heq⟩ := TradeRow.stored_eq_ok.mp h
  exact TradeRow.stored_eq_ok.mpr ⟨varchar_idem hi, numeric_idem hp, numeric_idem hq, hpos, rfl⟩

theorem TradeRow.Fits.pos (h : row.Fits) : 0 < row.quantity :=
  (TradeRow.stored_eq_ok.mp h).2.2.2.1.2

theorem TradeRow.Fits.hasScale (h : row.Fits) : HasScale 8 row.quantity :=
  (numeric_eq_some (TradeRow.stored_eq_ok.mp h).2.2.1).1

end

namespace TradeTables

variable {db db' : TradeTables} {e : StoreEvent} {c : PersistCall} {now : Time} {id : UUID}

/-- Every trade fits the table, and the orders have filled what their
trades say. -/
structure Consistent (db : TradeTables) : Prop where
  trades : ∀ id row, db.trades.lookup id = some row → row.Fits
  orders : ∀ id row, db.orders.lookup id = some row → row.filledQuantity = db.tradeTotal id

structure Grows (db db' : TradeTables) : Prop where
  orders : ∀ id ∈ db.orders, id ∈ db'.orders
  totals : ∀ id, db.tradeTotal id ≤ db'.tradeTotal id

/-- The call is of a new trade, and its updates carry what the two orders
have filled after it. -/
structure Cumulative (db : TradeTables) (c : PersistCall) : Prop where
  fresh : c.trade.tradeID ∉ db.trades
  buyOrder : c.buyOrderUpdate.orderID = c.trade.buyOrderID
  sellOrder : c.sellOrderUpdate.orderID = c.trade.sellOrderID
  buyFilled : c.buyOrderUpdate.filledQuantity =
    db.tradeTotal c.trade.buyOrderID + c.trade.quantity
  sellFilled : c.sellOrderUpdate.filledQuantity =
    db.tradeTotal c.trade.sellOrderID + c.trade.quantity

theorem consistent_empty : empty.Consistent := by
  refine ⟨fun id row h => ?_, fun id row h => ?_⟩
  · cases (Finmap.lookup_empty id).symm.trans h
  · cases (Finmap.lookup_empty id).symm.trans h

theorem Consistent.hasScale (h : db.Consistent) (id : UUID) : HasScale 8 (db.tradeTotal id) := by
  refine Multiset.sum_induction _ _ (fun _ _ => HasScale.add) HasScale.zero fun q hq => ?_
  obtain ⟨⟨tradeID, row⟩, hmem, rfl⟩ := Multiset.mem_map.mp hq
  have hlookup := Finmap.lookup_eq_some_iff.mpr (Multiset.mem_of_mem_filter hmem)
  exact (h.trades tradeID row hlookup).hasScale

theorem Consistent.filledMismatches (h : db.Consistent) : db.filledMismatches = 0 :=
  filledMismatches_eq_zero.mpr h.orders

theorem Grows.refl (db : TradeTables) : db.Grows db := ⟨fun _ h => h, fun _ => le_rfl⟩

theorem Grows.filled (h : db.Grows db') (hc : db.Consistent) (hc' : db'.Consistent)
    {row : OrderRow} (hrow : db.orders.lookup id = some row) :
    ∃ row', db'.orders.lookup id = some row' ∧ row.filledQuantity ≤ row'.filledQuantity := by
  obtain ⟨row', hrow'⟩ := Finmap.mem_iff.mp (h.orders id (Finmap.mem_iff.mpr ⟨row, hrow⟩))
  refine ⟨row', hrow', ?_⟩
  rw [hc.orders id row hrow, hc'.orders id row' hrow']
  exact h.totals id

/-- A row stored for an update that carries the total of the trades. -/
theorem filled_eq_total {q total : Decimal} {row row' : OrderRow} {update : OrderUpdate}
    (hscale : HasScale 8 (total + q)) (hfilled : update.filledQuantity = total + q)
    (hrow : row.update update now = .ok row') : row'.filledQuantity = total + q := by
  have hstored := (OrderRow.update_eq_ok.mp hrow).1
  rw [hfilled] at hstored
  exact hscale.numeric_eq hstored

theorem Consistent.persist (h : db.Consistent) (hc : db.Cumulative c)
    (hscale : HasScale 8 c.trade.quantity)
    (hok : db.persistTradeWithOrdersTx c now = .ok db') : db'.Consistent ∧ db.Grows db' := by
  obtain ⟨db₁, db₂, hinsert, hbuy, hsell⟩ := persistTradeWithOrdersTx_eq_ok.mp hok
  obtain ⟨row, hrow, rfl⟩ := insertTrade_eq_ok.mp hinsert
  rw [if_neg hc.fresh] at hbuy
  obtain ⟨b, b', hb, hb', rfl⟩ := updateOrder_eq_ok.mp hbuy
  obtain ⟨s, s', hs, hs', rfl⟩ := updateOrder_eq_ok.mp hsell
  have hfits := TradeRow.stored_fits hrow
  obtain ⟨-, -, hq, -, hterms⟩ := TradeRow.stored_eq_ok.mp hrow
  have hquantity : row.quantity = c.trade.quantity := hscale.numeric_eq hq
  have hnames : ∀ id, row.Names id ↔
      id = c.buyOrderUpdate.orderID ∨ id = c.sellOrderUpdate.orderID := by
    intro id
    rw [hterms, hc.buyOrder, hc.sellOrder]
    rfl
  have htotal : ∀ orders id,
      (⟨orders, db.trades.insert c.trade.tradeID row⟩ : TradeTables).tradeTotal id =
        db.tradeTotal id + if row.Names id then c.trade.quantity else 0 := by
    intro orders id
    rw [← hquantity]
    exact tradeTotal_insert hc.fresh row
  refine ⟨⟨?_, ?_⟩, ?_, ?_⟩
  · intro id trade htrade
    rw [lookup_insert_apply] at htrade
    split_ifs at htrade with heq
    · exact Option.some.inj htrade ▸ hfits
    · exact h.trades id trade htrade
  · intro id order horder
    rw [htotal]
    simp only [lookup_insert_apply] at horder
    split_ifs at horder with hid hid'
    · subst hid
      rw [if_pos ((hnames _).mpr (Or.inr rfl)), ← Option.some.inj horder, hc.sellOrder]
      exact filled_eq_total ((h.hasScale _).add hscale) hc.sellFilled hs'
    · subst hid'
      rw [if_pos ((hnames _).mpr (Or.inl rfl)), ← Option.some.inj horder, hc.buyOrder]
      exact filled_eq_total ((h.hasScale _).add hscale) hc.buyFilled hb'
    · rw [if_neg fun hname => ((hnames id).mp hname).elim hid' hid, add_zero]
      exact h.orders id order horder
  · intro id hid
    exact Finmap.mem_insert.mpr (Or.inr (Finmap.mem_insert.mpr (Or.inr hid)))
  · intro id
    rw [htotal]
    split_ifs
    · exact le_add_of_nonneg_right (hquantity ▸ hfits.pos.le)
    · exact (add_zero _).ge

theorem Consistent.insertOrder {order : Order} {updatedAt : Time} (h : db.Consistent)
    (hfilled : order.filledQuantity = db.tradeTotal order.id)
    (hok : db.insertOrder order updatedAt = .ok db') : db'.Consistent ∧ db.Grows db' := by
  obtain ⟨row, hrow, rfl⟩ := insertOrder_eq_ok.mp hok
  split_ifs with hmem
  · exact ⟨h, Grows.refl db⟩
  · refine ⟨⟨h.trades, fun id row' hrow' => ?_⟩, ?_, fun id => le_rfl⟩
    · rw [lookup_insert_apply] at hrow'
      split_ifs at hrow' with hid
      · subst hid
        obtain rfl := Option.some.inj hrow'
        have hstored := (OrderRow.stored_eq_ok hrow).2.1
        exact ((hfilled ▸ h.hasScale order.id : HasScale 8 order.filledQuantity).numeric_eq
          hstored).trans hfilled
      · exact h.orders id row' hrow'
    · exact fun id hid => Finmap.mem_insert.mpr (Or.inr hid)

end TradeTables

end TradingBackend
