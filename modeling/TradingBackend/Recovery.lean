import TradingBackend.BookContents
import TradingBackend.LifeCycle

/-!
# Recovery

`engine/recovery_manager.go`: the open orders of `orders_snapshot` are
read back and put into a book with `AddOrder`. The book is not cleared
first, neither here nor in the handler of `POST /admin/recovery/trigger`,
which passes the book of the running engine.

`insertOrder_restingOrders` and its fold are what recovery does to a
book: every loaded order goes behind everything its price does not beat,
on top of what is there. An id that is there already is then in the book
twice, and `matchOrder_stuck` is what becomes of matching: the copy that
the map does not know is filled, stays, and is traded with forever.

The report is `RecoveryReport`'s. The log lines are left out.
-/

namespace TradingBackend

/-- A row of `orders_snapshot`: the columns that `loadOpenOrders` selects
and uses. A numeric column is `none` when `decimal.NewFromString` does
not accept its text, as for `NaN`. -/
structure SnapshotRow where
  orderID : UUID
  instrument : String
  side : OrderSide
  price : Option Decimal
  quantity : Option Decimal
  filledQuantity : Option Decimal
  status : OrderStatus
  createdAt : Time
deriving DecidableEq, Repr

structure RecoveryManager where
  instrument : String

namespace RecoveryManager

/-- The `WHERE` clause of the query. -/
def selects (rm : RecoveryManager) (row : SnapshotRow) : Bool :=
  decide (row.instrument = rm.instrument
    ∧ (row.status = .opened ∨ row.status = .partiallyFilled))

/-- The rows the query can return: the selected ones, by `created_at`.
Nothing is said about rows created at the same time. -/
def Selected (rm : RecoveryManager) (table rows : List SnapshotRow) : Prop :=
  rows.Perm (table.filter rm.selects) ∧ rows.Pairwise fun x y => x.createdAt ≤ y.createdAt

instance (rm : RecoveryManager) (table rows : List SnapshotRow) :
    Decidable (rm.Selected table rows) :=
  inferInstanceAs (Decidable (_ ∧ _))

/-- The `switch` on the status. -/
def scanStatus : OrderStatus → Option OrderStatus
  | .opened => some .opened
  | .partiallyFilled => some .partiallyFilled
  | _ => none

/-- The order `loadOpenOrders` makes of a row; `none` if it skips the
row. -/
def scanRow (row : SnapshotRow) : Option Order := do
  let price ← row.price
  let quantity ← row.quantity
  let filledQty ← row.filledQuantity
  let orderSide := if row.side = .buy then OrderSide.buy else .sell
  let orderStatus ← scanStatus row.status
  some
    { id := row.orderID
      clientID := ""
      instrument := row.instrument
      side := orderSide
      type := .limit
      price := price
      quantity := quantity
      filledQuantity := filledQty
      status := orderStatus
      createdAt := row.createdAt }

/-- `loadOpenOrders`, from the rows of the query. -/
def loadOpenOrders (rows : List SnapshotRow) : List Order := rows.filterMap scanRow

end RecoveryManager

variable {T : Type} [OrderedTree T Decimal LevelRef]

namespace OrderBook

def insertOrder (ob : OrderBook T) (o : Order) : OrderBook T :=
  let (ob, order) := ob.newOrder o
  ob.addOrder order

def allOrders (ob : OrderBook T) : List Order := ob.restingOrders true ++ ob.restingOrders false

def insertOrders (ob : OrderBook T) (orders : List Order) : OrderBook T :=
  orders.foldl insertOrder ob

end OrderBook

/-- `RecoverOrderbookWithOptions`: the book it was called on, and the
book its report is about or the error. `rows` is what the query
returned. -/
def RecoveryManager.recoverOrderbookWithOptions (rm : RecoveryManager)
    (rows : Except String (List SnapshotRow)) (orderbook : OrderBook T) (dryRun : Bool) :
    OrderBook T × Except String (OrderBook T) :=
  match rows with
  | .error err => (orderbook, .error ("failed to load open orders: " ++ err))
  | .ok rows =>
      let orders := loadOpenOrders rows
      if dryRun then
        (orderbook, .ok ((newOrderBook rm.instrument).insertOrders orders))
      else
        let orderbook := orderbook.insertOrders orders
        (orderbook, .ok orderbook)

/-- `RecoverOrderbook`, when the query returns `rows`. -/
def RecoveryManager.recoverOrderbook (rm : RecoveryManager) (rows : List SnapshotRow)
    (orderbook : OrderBook T) : OrderBook T :=
  (rm.recoverOrderbookWithOptions (.ok rows) orderbook false).1

/-- The row that holds the current state of an order. -/
def Order.snapshotRow (o : Order) : SnapshotRow where
  orderID := o.id
  instrument := o.instrument
  side := o.side
  price := some o.price
  quantity := some o.quantity
  filledQuantity := some o.filledQuantity
  status := o.status
  createdAt := o.createdAt

/-! ## What recovery does to a book -/

theorem RecoveryManager.recoverOrderbook_eq (rm : RecoveryManager) (rows : List SnapshotRow)
    (ob : OrderBook T) : rm.recoverOrderbook rows ob = ob.insertOrders (loadOpenOrders rows) :=
  rfl

namespace OrderBook

variable {ob ob' : OrderBook T} {o : Order} {orders : List Order} {b : Bool}

theorem insertOrder_eq (ob : OrderBook T) (o : Order) :
    ob.insertOrder o = (ob.newOrder o).1.addOrder ob.nextOrder := rfl

theorem newOrder_layout (h : ob.Layout) (o : Order) : (ob.newOrder o).1.Layout :=
  (sameShape_newOrder ob o).layout h

theorem insertOrder_layout (h : ob.Layout) (o : Order) : (ob.insertOrder o).Layout := by
  have hl := newOrder_layout h o
  obtain ⟨l, level, hadd⟩ := addOrder_added hl ob.nextOrder
  exact hadd.layout hl (Nat.lt_succ_self _)

/-- The order goes behind everything its price does not beat. -/
theorem insertOrder_restingOrders (h : ob.Layout) (o : Order) (b : Bool) :
    (ob.insertOrder o).restingOrders b =
      if o.side.isBid = b then
        (ob.restingOrders b).orderedInsert (fun x y => better b x.price y.price) o
      else ob.restingOrders b := by
  have hl := newOrder_layout h o
  have hlt : ob.nextOrder < (ob.newOrder o).1.nextOrder := Nat.lt_succ_self _
  have ho : (ob.newOrder o).1.orderAt ob.nextOrder = o := Function.update_self ..
  obtain ⟨l, level, hadd⟩ := addOrder_added hl ob.nextOrder
  have hel : (ob.insertOrder o).restingOrders b =
      (ob.newOrder o).1.ordersOf ((ob.insertOrder o).elements b) := by
    rw [insertOrder_eq, restingOrders, ordersOf, ordersOf, hadd.orderAt]
  rw [hel, ← newOrder_restingOrders h o b, insertOrder_eq]
  split_ifs with hb
  · subst hb
    have hself := hadd.elements_self hl hlt
    rw [ho] at hself
    rw [hself, ordersOf, List.map_orderedInsert _
      (fun x y : Order => better o.side.isBid x.price y.price)]
    · exact congrArg (List.orderedInsert _ · _) ho
    · exact fun x _ => Iff.rfl
    · exact fun x _ => Iff.rfl
  · rw [hadd.elements_other hl hlt (by rw [ho]; exact fun heq => hb heq.symm)]
    rfl

/-- Recovery keeps what is in the book and adds the orders to it. -/
theorem insertOrder_perm (h : ob.Layout) (o : Order) :
    (ob.insertOrder o).allOrders.Perm (o :: ob.allOrders) := by
  rw [allOrders, allOrders, insertOrder_restingOrders h, insertOrder_restingOrders h]
  cases o.side.isBid with
  | true => exact (List.perm_orderedInsert _ _ _).append_right _
  | false =>
      refine ((List.perm_orderedInsert _ _ _).append_left _).trans ?_
      exact List.perm_middle

theorem insertOrders_layout (h : ob.Layout) (orders : List Order) :
    (ob.insertOrders orders).Layout := by
  induction orders generalizing ob with
  | nil => exact h
  | cons o orders ih => exact ih (insertOrder_layout h o)

theorem insertOrders_perm (h : ob.Layout) (orders : List Order) :
    (ob.insertOrders orders).allOrders.Perm (orders ++ ob.allOrders) := by
  induction orders generalizing ob with
  | nil => exact List.Perm.refl _
  | cons o orders ih =>
      refine (ih (insertOrder_layout h o)).trans ?_
      refine ((insertOrder_perm h o).append_left orders).trans ?_
      exact List.perm_middle

/-- Orders with ids that are not in the book keep it well formed. -/
theorem insertOrder_wf (h : ob.WF) (hid : o.id ∉ ob.orders) : (ob.insertOrder o).WF := by
  refine (h.newOrder o).addOrder (Nat.lt_succ_self _) ?_
  rwa [show (ob.newOrder o).1.orderAt ob.nextOrder = o from Function.update_self ..]

theorem insertOrder_mem_orders (h : ob.Layout) {id : UUID} :
    id ∈ (ob.insertOrder o).orders ↔ id = o.id ∨ id ∈ ob.orders := by
  obtain ⟨l, level, hadd⟩ := addOrder_added (newOrder_layout h o) ob.nextOrder
  rw [insertOrder_eq, hadd.orders, Finmap.mem_insert,
    show (ob.newOrder o).1.orderAt ob.nextOrder = o from Function.update_self ..]
  rfl

theorem insertOrders_wf (h : ob.WF) (hnodup : (orders.map Order.id).Nodup)
    (hids : ∀ o ∈ orders, o.id ∉ ob.orders) : (ob.insertOrders orders).WF := by
  induction orders generalizing ob with
  | nil => exact h
  | cons o orders ih =>
      rw [List.map_cons, List.nodup_cons] at hnodup
      refine ih (insertOrder_wf h (hids o (List.mem_cons_self ..))) hnodup.2 ?_
      intro x hx hmem
      rcases (insertOrder_mem_orders h.layout).mp hmem with heq | hmem
      · exact hnodup.1 (heq ▸ List.mem_map_of_mem hx)
      · exact hids x (List.mem_cons_of_mem _ hx) hmem

/-- Every id is in one queue position, the one that the map has for it,
and the volumes are right. -/
structure OneEach (ob : OrderBook T) : Prop where
  once : (ob.allOrders.map Order.id).Nodup
  location : ∀ {b l e}, ob.Holds b l e →
    ob.orders.lookup (ob.orderAt e.value).id = some ⟨l, e⟩
  volume : ∀ {b l}, ob.Filed b l → (ob.levelAt l).volume =
    ((ob.levelAt l).orders.map fun e => (ob.orderAt e.value).remainingQuantity).sum

theorem allOrders_eq (ob : OrderBook T) :
    ob.allOrders = ob.ordersOf (ob.elements true ++ ob.elements false) :=
  (List.map_append ..).symm

theorem WF.oneEach (h : ob.WF) : ob.OneEach := by
  refine ⟨?_, fun he => h.lookup he, fun hl => h.volumes hl⟩
  rw [allOrders_eq, ordersOf, List.map_map]
  exact h.ids_nodup

theorem WF.mem_orders (h : ob.WF) {id : UUID} (hid : id ∈ ob.orders) :
    id ∈ ob.allOrders.map Order.id := by
  obtain ⟨b, o, ho, rfl⟩ := h.mem_orders_iff.mp hid
  refine List.mem_map_of_mem ?_
  cases b with
  | true => exact List.mem_append_left _ ho
  | false => exact List.mem_append_right _ ho

/-- Inserting orders of different ids keeps the book well formed exactly
if none of them is there. -/
theorem WF.oneEach_insertOrders (h : ob.WF) (hnodup : (orders.map Order.id).Nodup) :
    (ob.insertOrders orders).OneEach ↔ ∀ o ∈ orders, o.id ∉ ob.orders := by
  constructor
  · intro hone o ho hmem
    have hperm := (insertOrders_perm h.layout orders).map Order.id
    rw [List.map_append] at hperm
    have hdisjoint := (List.nodup_append.mp (hperm.nodup_iff.mp hone.once)).2.2
    exact hdisjoint _ (List.mem_map_of_mem ho) _ (h.mem_orders hmem) rfl
  · intro hids
    exact (insertOrders_wf h hnodup hids).oneEach

theorem contents_length (heq : ∀ b, ob.contents b = ob'.contents b) :
    ob.allOrders.length = ob'.allOrders.length := by
  rw [allOrders, allOrders, restingOrders_eq_flatten, restingOrders_eq_flatten, heq, heq,
    ← restingOrders_eq_flatten, ← restingOrders_eq_flatten]

end OrderBook

namespace RecoveryManager

variable {row : SnapshotRow} {table rows rows' : List SnapshotRow}

theorem scanRow_id {o : Order} (h : scanRow row = some o) : o.id = row.orderID := by
  simp only [scanRow, Option.bind_eq_bind, Option.bind_eq_some_iff, Option.some.injEq] at h
  obtain ⟨price, -, quantity, -, filled, -, status, -, rfl⟩ := h
  rfl

theorem loadOpenOrders_ids (rows : List SnapshotRow) :
    ((loadOpenOrders rows).map Order.id).Sublist (rows.map SnapshotRow.orderID) := by
  induction rows with
  | nil => exact List.Sublist.slnil
  | cons row rows ih =>
      cases hrow : scanRow row with
      | none =>
          rw [loadOpenOrders, List.filterMap_cons_none hrow, List.map_cons]
          exact ih.cons _
      | some o =>
          rw [loadOpenOrders, List.filterMap_cons_some hrow, List.map_cons, List.map_cons,
            scanRow_id hrow]
          exact ih.cons_cons _

/-- The primary key makes the loaded orders different. -/
theorem Selected.ids_nodup {rm : RecoveryManager} (h : rm.Selected table rows)
    (hkey : (table.map SnapshotRow.orderID).Nodup) :
    ((loadOpenOrders rows).map Order.id).Nodup := by
  refine List.Nodup.sublist (loadOpenOrders_ids rows) ?_
  refine (h.1.map SnapshotRow.orderID).nodup_iff.mpr ?_
  exact hkey.sublist (List.filter_sublist.map _)

theorem Selected.perm {rm : RecoveryManager} (h : rm.Selected table rows)
    (h' : rm.Selected table rows') : (loadOpenOrders rows).Perm (loadOpenOrders rows') :=
  (h.1.trans h'.1.symm).filterMap _

end RecoveryManager

/-! ## Matching against an order the map does not know -/

namespace MatchingEngine

/-- The best level for order `a` holds one order, which is filled and
unknown to the map. -/
def Stuck (accepts : Order → Decimal → Bool) (a : OrderRef) (l : LevelRef) (e : Element)
    (me : MatchingEngine T) : Prop :=
  let ob := me.orderBook
  0 < (ob.orderAt a).remainingQuantity ∧ (ob.orderAt a).fill 0 = ob.orderAt a
    ∧ me.bestOpposing a = some l ∧ accepts (ob.orderAt a) (ob.levelAt l).price = true
    ∧ (ob.levelAt l).orders = [e] ∧ (ob.orderAt e.value).isFilled = true
    ∧ (ob.orderAt e.value).fill 0 = ob.orderAt e.value ∧ (ob.orderAt e.value).id ∉ ob.orders

instance (accepts : Order → Decimal → Bool) (a : OrderRef) (l : LevelRef) (e : Element)
    (me : MatchingEngine T) : Decidable (Stuck accepts a l e me) :=
  inferInstanceAs (Decidable (_ ∧ _))

section

variable {accepts : Order → Decimal → Bool} {a : OrderRef} {l : LevelRef} {e : Element}
  {me : MatchingEngine T}

/-- A trade with the stuck order is of quantity zero and changes
nothing: the update and the removal by id find nothing. -/
theorem Stuck.afterTrade_eq (h : Stuck accepts a l e me) : me.afterTrade a e = me := by
  obtain ⟨hpos, hfill, -, -, -, hfilled, hfill', habsent⟩ := h
  have hzero : matchQty me.orderBook.orderAt a e.value = 0 := by
    rw [matchQty, Order.isFilled_iff_remaining.mp hfilled, min_eq_right hpos.le]
  have hsame : tradeOrders me.orderBook.orderAt a e.value = me.orderBook.orderAt := by
    rw [tradeOrders, hzero, hfill, Function.update_eq_self, hfill', Function.update_eq_self]
  have hbook : (me.orderBook.executeTrade a e.value).1 = me.orderBook := by
    rw [OrderBook.executeTrade_eq, hsame]
  have hnone := Finmap.lookup_eq_none.mpr habsent
  have hupdate : me.orderBook.updateOrder (me.orderBook.orderAt e.value).id
      (me.orderBook.orderAt e.value).filledQuantity = me.orderBook := by
    simp only [OrderBook.updateOrder, hnone]
  have hremove : me.orderBook.removeOrder (me.orderBook.orderAt e.value).id =
      (me.orderBook, none) := by
    simp only [OrderBook.removeOrder, hnone]
  rw [afterTrade, hbook, settleResting]
  dsimp only
  rw [hupdate, if_pos hfilled, hremove]

theorem Stuck.scanBody_eq (h : Stuck accepts a l e me) (ts : List Trade) :
    scanBody a l ⟨me, some e, ts⟩ =
      .inr ⟨me, none, ts ++ [tradeOf me.orderBook.orderAt a e.value]⟩ := by
  obtain ⟨hpos, -, -, -, hqueue, -⟩ := id h
  rw [scanBody_trade rfl hpos]
  dsimp only
  rw [h.afterTrade_eq, hqueue, nextElement, if_pos rfl]
  rfl

/-- An iteration comes back with the engine it started from. -/
theorem Stuck.sweepBody_eq (h : Stuck accepts a l e me)
    (onEmpty : MatchingEngine T → MatchingEngine T) (n : Nat) (ts : List Trade) :
    sweepBody accepts onEmpty a n (me, ts) = none
      ∨ ∃ ts', sweepBody accepts onEmpty a n (me, ts) = some (.inr (me, ts')) := by
  obtain ⟨hpos, -, hbest, hacc, hqueue, -⟩ := id h
  have hunfilled : ¬(me.orderBook.orderAt a).isFilled = true := fun hf =>
    hpos.ne' (Order.isFilled_iff_remaining.mp hf)
  have hexit : ∀ ts, scanBody a l ⟨me, none, ts⟩ = .inl (me, ts) := fun ts =>
    scanBody_exit (Or.inl rfl)
  simp only [sweepBody, hpos, hbest, hacc, if_true, matchLevel, matchAgainstPriceLevel, hqueue,
    List.head?_cons]
  rcases n with _ | _ | n
  · exact Or.inl rfl
  · exact Or.inl (by simp only [Loop.iterate, h.scanBody_eq])
  · simp only [Loop.iterate, h.scanBody_eq, hexit, if_neg hunfilled]
    exact Or.inr ⟨_, rfl⟩

end

/-- Matching does not come back from a stuck level. -/
theorem matchOrder_stuck {me me' : MatchingEngine T} {a : OrderRef} {l : LevelRef} {e : Element}
    {n : Nat} {ts : List Trade} (htype : (me.orderBook.orderAt a).type = .limit)
    (hvalid : (me.orderBook.orderAt a).isValid = true)
    (hfirst : limitBody a n (me, []) = some (.inr (me', ts))) (h : Stuck canMatch a l e me')
    (fuel : Nat) : me.matchOrder fuel a = none := by
  have hnever : me.matchLimitOrder fuel a = none := by
    rw [matchLimitOrder, limitBody_eq]
    refine Loop.iterate_eq_none (fun s => s.1 = me' ∨ s = (me, [])) ?_ fuel (me, []) (Or.inr rfl)
    rintro m ⟨me₁, ts₁⟩ (rfl | hs)
    · rcases h.sweepBody_eq id m ts₁ with hb | ⟨ts₂, hb⟩
      · exact Or.inl hb
      · exact Or.inr ⟨_, hb, Or.inl rfl⟩
    · rw [hs]
      cases hb : sweepBody canMatch id a m (me, []) with
      | none => exact Or.inl rfl
      | some out =>
          have hmono := sweepBody_mono (T := T) canMatch id a
          have hout : out = .inr (me', ts) := Option.some.inj <|
            (hmono m (max m n) _ _ (Nat.le_max_left m n) hb).symm.trans
              (hmono n (max m n) _ _ (Nat.le_max_right m n) hfirst)
          exact Or.inr ⟨_, congrArg some hout, Or.inl rfl⟩
  rw [matchOrder]
  simp only [hvalid, htype, if_true, hnever]
  rfl

end MatchingEngine

/-- Recovery on the book of a running engine leaves every id in one place
exactly if no loaded order is in the book, and then every later command
returns; it is idempotent as well exactly if nothing is loaded. -/
theorem recoverOrderbook_idempotent_iff {me₀ me : MatchingEngine T} {requests : List Request}
    {trades : List Trade} (h₀ : me₀.Initial) (hfresh : FreshIDs requests)
    (hrun : MatchingEngine.Run me₀ requests me trades) (rm : RecoveryManager)
    {table rows : List SnapshotRow} (hkey : (table.map SnapshotRow.orderID).Nodup)
    (hrows : rm.Selected table rows) :
    let ob := rm.recoverOrderbook rows me.orderBook
    (ob.OneEach ↔ ∀ o ∈ RecoveryManager.loadOpenOrders rows, o.id ∉ me.orderBook.orders)
    ∧ (ob.OneEach → ∀ ops me', MatchingEngine.Operations { me with orderBook := ob } ops me' →
        ∀ c, me'.Admissible c → ∃ fuel result, me'.processCommand fuel c = some result)
    ∧ (ob.OneEach ∧ (∀ rows', rm.Selected table rows' →
          ∀ b, (rm.recoverOrderbook rows' ob).contents b = ob.contents b)
        ↔ RecoveryManager.loadOpenOrders rows = []) := by
  intro ob
  have hwf := (hrun.sound h₀ hfresh).wf
  have hnodup := hrows.ids_nodup hkey
  have hone := hwf.oneEach_insertOrders hnodup
  refine ⟨hone, ?_, ?_⟩
  · intro h ops me' hops c hc
    have hwf' : ob.WF := OrderBook.insertOrders_wf hwf hnodup (hone.mp h)
    obtain ⟨fuel, me'', response, hcommand, -⟩ :=
      MatchingEngine.processCommand_total (hops.wf hwf') hc
    exact ⟨fuel, _, hcommand⟩
  · constructor
    · rintro ⟨-, hidem⟩
      have hlayout : ob.Layout := OrderBook.insertOrders_layout hwf.layout _
      have hlength := (OrderBook.insertOrders_perm hlayout
        (RecoveryManager.loadOpenOrders rows)).length_eq
      have hsame : (rm.recoverOrderbook rows ob).allOrders.length = ob.allOrders.length :=
        OrderBook.contents_length (hidem rows hrows)
      rw [List.length_append] at hlength
      rw [rm.recoverOrderbook_eq] at hsame
      exact List.length_eq_zero_iff.mp (by omega)
    · intro hnil
      have hnone : ∀ rows', rm.Selected table rows' → ∀ ob' : OrderBook T,
          rm.recoverOrderbook rows' ob' = ob' := by
        intro rows' hrows' ob'
        have hperm := hrows'.perm hrows
        rw [hnil] at hperm
        rw [rm.recoverOrderbook_eq, hperm.eq_nil]
        rfl
      refine ⟨hone.mpr (hnil ▸ List.forall_mem_nil _), fun rows' hrows' b => ?_⟩
      rw [hnone rows' hrows']

/-- An open row whose price does not parse: the query returns it, and
`loadOpenOrders` skips it. -/
def unreadableRow : SnapshotRow := { buyLower.snapshotRow with price := none }

/-- Recovery into a book that holds `sellFive`: from a table with a filled order
and an unreadable row nothing is loaded, and from one that has `sellBehind` this
order is. -/
theorem recoverOrderbook_idempotent_iff_unread :
    let me := emptyEngine.after 9 [.new sellFive]
    let table := [{ sellHigher.snapshotRow with status := .filled }, unreadableRow]
    let rm : RecoveryManager := ⟨"BTC-USD"⟩
    (∃ trades, MatchingEngine.Run emptyEngine [.new sellFive] me trades)
    ∧ rm.Selected table [unreadableRow]
    ∧ (rm.recoverOrderbook [unreadableRow] me.orderBook).OneEach
    ∧ rm.Selected [sellBehind.snapshotRow] [sellBehind.snapshotRow]
    ∧ (rm.recoverOrderbook [sellBehind.snapshotRow] me.orderBook).OneEach := by
  intro me table rm
  obtain ⟨trades, hrun⟩ := MatchingEngine.after_run
    (show (emptyEngine.handleAll 9 [.new sellFive]).isSome = true by decide +kernel)
  have hunread : rm.Selected table [unreadableRow] := by decide +kernel
  have hloaded : rm.Selected [sellBehind.snapshotRow] [sellBehind.snapshotRow] := by
    decide +kernel
  have hiff := recoverOrderbook_idempotent_iff emptyEngine_initial (by decide) hrun rm
    (by decide) hunread
  have hiff' := recoverOrderbook_idempotent_iff emptyEngine_initial (by decide) hrun rm
    (by decide) hloaded
  exact ⟨⟨trades, hrun⟩, hunread, (hiff.2.2.mpr rfl).1, hloaded, hiff'.1.mpr (by decide +kernel)⟩

/-- The engine whose book holds `sellFive`, after a recovery from a table
that has `sellFive` as well. -/
def recoveredTwice : MatchingEngine (SortedItems Decimal LevelRef) :=
  let me := emptyEngine.after 9 [.new sellFive]
  { me with
    orderBook := RecoveryManager.recoverOrderbook ⟨"BTC-USD"⟩ [sellFive.snapshotRow] me.orderBook }

/-- A live order that is also in `orders_snapshot` is in its queue twice
after recovery, and matching against its level never returns. -/
theorem recoverOrderbook_twice_in_queue :
    (∃ trades, MatchingEngine.Run emptyEngine [.new sellFive]
      (emptyEngine.after 9 [.new sellFive]) trades)
    ∧ RecoveryManager.Selected ⟨"BTC-USD"⟩ [sellFive.snapshotRow] [sellFive.snapshotRow]
    ∧ (recoveredTwice.orderBook.restingOrders false).map Order.id = [sellFive.id, sellFive.id]
    ∧ ∀ fuel, (recoveredTwice.alloc buyTen).matchOrder fuel recoveredTwice.orderBook.nextOrder
        = none := by
  refine ⟨MatchingEngine.after_run (by decide +kernel), by decide +kernel, by decide +kernel,
    fun fuel => ?_⟩
  -- the first iteration fills the old copy and removes the new one
  have hstuck : (MatchingEngine.limitBody 2 9 (recoveredTwice.alloc buyTen, [])).any
      (Sum.elim (fun _ => false) fun s =>
        decide (s.1.Stuck MatchingEngine.canMatch 2 0 ⟨0, 0⟩)) = true := by
    decide +kernel
  have hnext : recoveredTwice.orderBook.nextOrder = 2 := by decide +kernel
  rw [hnext]
  cases hfirst : MatchingEngine.limitBody 2 9 (recoveredTwice.alloc buyTen, []) with
  | none => rw [hfirst] at hstuck; cases hstuck
  | some out =>
      rw [hfirst] at hstuck
      cases out with
      | inl r => cases hstuck
      | inr s =>
          exact MatchingEngine.matchOrder_stuck (by decide +kernel) (by decide +kernel) hfirst
            (of_decide_eq_true hstuck) fuel

end TradingBackend
