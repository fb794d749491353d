import TradingBackend.Conservation
import TradingBackend.Handlers
import TradingBackend.Postgres

/-!
# Trades and the precision of their columns

A trade takes its price from a resting limit order and its instrument
from the incoming order, and its quantity is the smaller of two
remainders. So if the quantities and prices of the orders have at most
eight decimals, so have those of the trades (`Run.exact`), the columns of
`trades` keep them as they are, and the filled quantities add up.

`validateOrderRequest` bounds quantities and prices but not their
decimals: an order of 0.100000001 leaves a remainder of 0.000000001, the
column makes that 0, and `CHECK (quantity > 0)` refuses the trade.

`Exchange` is what the tables have to know about a run: the orders, the
trades and what the trades report. Persisting the trades in their order
then never fails (`Exchange.persist`).
-/

namespace TradingBackend

/-! ## The trades of orders with few decimals -/

/-- Eight decimals are enough for the order, and its instrument is short
enough. -/
structure Order.Exact (o : Order) : Prop where
  quantity : HasScale 8 o.quantity
  price : o.type = .limit → HasScale 8 o.price ∧ minPrice ≤ o.price ∧ o.price ≤ maxPrice
  instrument : varchar 50 o.instrument = some o.instrument

structure Trade.Exact (t : Trade) : Prop where
  quantity : HasScale 8 t.quantity
  price : HasScale 8 t.price ∧ minPrice ≤ t.price ∧ t.price ≤ maxPrice
  instrument : varchar 50 t.instrument = some t.instrument

theorem Order.Exact.of_terms {o o' : Order} (h : o'.Exact) (hterms : o.terms = o'.terms) :
    o.Exact := by
  have hexact : o'.terms.Exact := ⟨h.quantity, h.price, h.instrument⟩
  rw [← hterms] at hexact
  exact ⟨hexact.quantity, hexact.price, hexact.instrument⟩

def Order.Fine (o : Order) : Prop := o.Exact ∧ HasScale 8 o.filledQuantity

section

variable {o : Order} {m : OrderRef → Order} {a : OrderRef} {e : Element} {queue : List Element}

theorem Order.Fine.remaining (h : o.Fine) : HasScale 8 o.remainingQuantity :=
  h.1.quantity.sub h.2

theorem Order.Fine.fill {q : Decimal} (h : o.Fine) (hq : HasScale 8 q) : (o.fill q).Fine := by
  obtain ⟨hexact, hfilled⟩ := h
  refine ⟨hexact.of_terms rfl, ?_⟩
  rw [Order.fill_filledQuantity]
  exact hfilled.add hq

theorem fine_tradeOrders (hne : e.value ≠ a) (ha : (m a).Fine) (he : (m e.value).Fine)
    {r : OrderRef} (hr : (m r).Fine) : (tradeOrders m a e.value r).Fine := by
  have hq : HasScale 8 (matchQty m a e.value) := ha.remaining.min he.remaining
  by_cases hra : r = a
  · subst hra
    rw [tradeOrders_aggressor hne]
    exact ha.fill hq
  · by_cases hre : r = e.value
    · subst hre
      rw [tradeOrders_resting hne]
      exact he.fill hq
    · rw [tradeOrders_other hra hre]
      exact hr

theorem exact_tradeOf (ha : (m a).Fine) (he : (m e.value).Fine)
    (hlimit : (m e.value).type = .limit) : (tradeOf m a e.value).Exact :=
  ⟨ha.remaining.min he.remaining, he.1.price hlimit, ha.1.instrument⟩

theorem Lined.exact (h : Lined a m queue) (ha : (m a).Fine)
    (hqueue : ∀ e ∈ queue, (m e.value).Fine ∧ (m e.value).type = .limit) :
    ∀ t ∈ (walk a m queue).trades, t.Exact := by
  refine (h.invariant (P := fun m ts => (m a).Fine
    ∧ (∀ e ∈ queue, (m e.value).Fine ∧ (m e.value).type = .limit) ∧ ∀ t ∈ ts, t.Exact) ?_ []
    ⟨ha, hqueue, List.forall_mem_nil _⟩).2.2
  rintro m ts e he hfits ⟨ha, hqueue, hts⟩
  obtain ⟨hfine, hlimit⟩ := hqueue e he
  refine ⟨fine_tradeOrders hfits.ne ha hfine ha, fun x hx => ⟨?_, ?_⟩, ?_⟩
  · exact fine_tradeOrders hfits.ne ha hfine (hqueue x hx).1
  · rw [tradeOrders_type]
    exact (hqueue x hx).2
  · refine List.forall_mem_append.mpr ⟨hts, fun t ht => ?_⟩
    rw [List.mem_singleton.mp ht]
    exact exact_tradeOf ha hfine hlimit

end

theorem filledBy_hasScale {trades : List Trade} {scale : ℕ}
    (h : ∀ t ∈ trades, HasScale scale t.quantity) (id : UUID) :
    HasScale scale (filledBy trades id) := by
  induction trades using List.reverseRecOn with
  | nil => exact HasScale.zero
  | append_singleton trades t ih =>
      obtain ⟨htrades, ht⟩ := List.forall_mem_append.mp h
      rw [filledBy_snoc]
      refine (ih htrades).add ?_
      split_ifs
      · exact ht t (List.mem_singleton_self t)
      · exact HasScale.zero

namespace MatchingEngine

variable {T : Type} [OrderedTree T Decimal LevelRef] {me me' : MatchingEngine T}
  {requests : List Request} {request : Request} {trades trades' : List Trade} {o : Order}

theorem fine_of_sound (hs : me.Sound requests)
    (hbal : Balanced me.orderBook.nextOrder me.orderBook.orderAt trades)
    (hexact : ∀ o ∈ submitted requests, o.Exact) (htrades : ∀ t ∈ trades, t.Exact)
    {r : OrderRef} (hr : r < me.orderBook.nextOrder) : (me.orderBook.orderAt r).Fine := by
  obtain ⟨o, ho, hterms⟩ := hs.exists_submitted hr
  refine ⟨(hexact o (List.mem_of_getElem? ho)).of_terms hterms, ?_⟩
  rw [hbal.filled r hr]
  exact filledBy_hasScale (fun t ht => (htrades t ht).quantity) _

theorem Entered.exact (h : Entered (me.alloc o) me' me.orderBook.nextOrder trades')
    (hlife : me.LifeCycle) (hs : me.Sound requests) (hfresh : FreshIDs (requests ++ [.new o]))
    (ho : o.Submitted) (hvalid : o.isValid = true)
    (hbal : Balanced me.orderBook.nextOrder me.orderBook.orderAt trades)
    (hexact : ∀ o ∈ submitted requests, o.Exact) (hnew : o.Exact)
    (htrades : ∀ t ∈ trades, t.Exact) : ∀ t ∈ trades', t.Exact := by
  rw [h.trades_eq]
  refine (hlife.lined hs hfresh ho hvalid).exact ?_ fun e he => ?_
  · rw [alloc_self]
    exact ⟨hnew, ho.filledQuantity ▸ HasScale.zero⟩
  · have he := OrderBook.mem_front he
    rw [(me.sameShape_alloc o).elements] at he
    rw [alloc_of_lt (hs.wf.value_lt he)]
    exact ⟨fine_of_sound hs hbal hexact htrades (hs.wf.value_lt he), (hlife.live hs.wf he).2.2⟩

theorem Run.exact {me₀ : MatchingEngine T} (h₀ : me₀.Initial) (h : Run me₀ requests me trades)
    (hfresh : FreshIDs requests) (hok : ∀ o ∈ submitted requests, o.Submitted ∧ o.Exact) :
    ∀ t ∈ trades, t.Exact := by
  refine (h.induct h₀ (fun o => o.Submitted ∧ o.Exact)
    (P := fun requests me trades => (∀ o ∈ submitted requests, o.Exact)
      ∧ (me.LifeCycle ∧ Balanced me.orderBook.nextOrder me.orderBook.orderAt trades)
      ∧ ∀ t ∈ trades, t.Exact)
    ⟨List.forall_mem_nil _, Run.nil.balanced h₀ List.nodup_nil (List.forall_mem_nil _),
      List.forall_mem_nil _⟩ ?_ hfresh hok).2.2.2
  rintro requests me trades request me' trades' hs hfresh ho hh ⟨hexact, ⟨hlife, hbal⟩, htrades⟩
  have hsub : ∀ o, request = .new o → o.Submitted := fun o heq => (ho o heq).1
  refine ⟨?_, ⟨hlife.step hs hfresh hsub hh, hh.balanced hlife hs hfresh hsub hbal⟩, ?_⟩
  · cases request with
    | new o =>
        rw [submitted_append_new]
        refine List.forall_mem_append.mpr ⟨hexact, fun o' ho' => ?_⟩
        rw [List.mem_singleton.mp ho']
        exact (ho o rfl).2
    | cancel orderID =>
        rw [submitted_append_cancel]
        exact hexact
  · refine List.forall_mem_append.mpr ⟨htrades, ?_⟩
    cases hh with
    | @entered o trades' hvalid hent =>
        exact hent.exact hlife hs hfresh (ho o rfl).1 hvalid hbal hexact (ho o rfl).2 htrades
    | rejected => exact List.forall_mem_nil _
    | withdrawn => exact List.forall_mem_nil _
    | notFound => exact List.forall_mem_nil _

end MatchingEngine

/-! ## What the tables have to know -/

theorem filledBy_append (trades trades' : List Trade) (id : UUID) :
    filledBy (trades ++ trades') id = filledBy trades id + filledBy trades' id := by
  rw [filledBy, List.filter_append, List.map_append, List.sum_append]
  rfl

theorem filledBy_nonneg {trades : List Trade} (h : ∀ t ∈ trades, 0 < t.quantity) (id : UUID) :
    0 ≤ filledBy trades id := by
  refine List.sum_nonneg fun q hq => ?_
  obtain ⟨t, ht, rfl⟩ := List.mem_map.mp hq
  exact (h t (List.mem_of_mem_filter ht)).le

/-- A run, as the orders and its trades: the trades report what they add
up to, which no order exceeds. -/
structure Exchange (orders : List Order) (trades : List Trade) : Prop where
  unfilled : ∀ o ∈ orders, o.filledQuantity = 0
  small : ∀ o ∈ orders, o.quantity ≤ maxQuantity
  positive : ∀ t ∈ trades, 0 < t.quantity
  exact : ∀ t ∈ trades, t.Exact
  named : ∀ t ∈ trades, ∀ id, t.Names id → ∃ o ∈ orders, o.id = id
  bounded : ∀ o ∈ orders, filledBy trades o.id ≤ o.quantity
  reported : ∀ before t after, trades = before ++ t :: after →
    t.buyerFilledQty = filledBy (before ++ [t]) t.buyOrderID
      ∧ t.sellerFilledQty = filledBy (before ++ [t]) t.sellOrderID

theorem MatchingEngine.Run.exchange {T : Type} [OrderedTree T Decimal LevelRef]
    {me₀ me : MatchingEngine T} {requests : List Request} {trades : List Trade}
    (h₀ : me₀.Initial) (h : MatchingEngine.Run me₀ requests me trades) (hfresh : FreshIDs requests)
    (hval : ∀ o ∈ submitted requests, o.Validated) (hexact : ∀ o ∈ submitted requests, o.Exact) :
    Exchange (submitted requests) trades := by
  have hsub : ∀ o ∈ submitted requests, o.Submitted := fun o ho => (hval o ho).submitted
  have hs := h.sound h₀ hfresh
  obtain ⟨hlife, hbal⟩ := h.balanced h₀ hfresh hsub
  refine ⟨fun o ho => (hsub o ho).filledQuantity, fun o ho => (hval o ho).quantity.2,
    hbal.positive, h.exact h₀ hfresh fun o ho => ⟨hsub o ho, hexact o ho⟩, ?_, ?_, ?_⟩
  · intro t ht id hid
    obtain ⟨r, hr, rfl⟩ := hbal.named ht hid
    obtain ⟨o, ho, hterms⟩ := hs.exists_submitted hr
    exact ⟨o, List.mem_of_getElem? ho, (Order.eq_of_terms Order.id (fun _ => rfl) hterms).symm⟩
  · intro o ho
    obtain ⟨r, hr, heq⟩ := List.getElem_of_mem ho
    have hterms := hs.terms r o (List.getElem?_eq_some_iff.mpr ⟨hr, heq⟩)
    have hr : r < me.orderBook.nextOrder := hs.nextOrder ▸ hr
    have hpos := (Order.isValid_iff.mp (hval o ho).isValid).2.2.2.2.1
    rw [← Order.eq_of_terms Order.id (fun _ => rfl) hterms, ← hbal.filled r hr]
    rw [← Order.eq_of_terms Order.quantity (fun _ => rfl) hterms] at hpos ⊢
    exact (hlife r hr).bounds.2 hpos.le
  · intro before t after hsplit
    obtain ⟨hb, hs⟩ := hbal.accurate before t after hsplit
    exact ⟨hb.filled, hs.filled⟩

section

variable {orders : List Order} {before after : List Trade} {t : Trade} {id : UUID}

/-- What an order has filled after a trade is within its quantity. -/
theorem Exchange.filled_le (h : Exchange orders (before ++ t :: after)) {o : Order}
    (ho : o ∈ orders) : filledBy (before ++ [t]) o.id ≤ o.quantity := by
  have hafter : 0 ≤ filledBy after o.id :=
    filledBy_nonneg (fun x hx => h.positive x (by simp [hx])) o.id
  have hall := h.bounded o ho
  rw [List.append_cons, filledBy_append] at hall
  linarith

theorem Exchange.filled_nonneg (h : Exchange orders (before ++ t :: after)) (id : UUID) :
    0 ≤ filledBy (before ++ [t]) id := by
  refine filledBy_nonneg (fun x hx => h.positive x ?_) id
  rw [List.append_cons]
  exact List.mem_append_left _ hx

/-- A number with eight decimals between 0 and the largest price is stored
as it is. -/
theorem numeric_of_le {x : Decimal} (h : HasScale 8 x) (hnonneg : 0 ≤ x) (hle : x ≤ maxPrice) :
    numeric 20 8 x = some x := by
  rw [numeric_of_hasScale h, if_pos]
  rw [abs_of_nonneg hnonneg]
  refine hle.trans_lt ?_
  norm_num [maxPrice]

theorem Exchange.numeric_filled (h : Exchange orders (before ++ t :: after)) (hid : t.Names id) :
    numeric 20 8 (filledBy (before ++ [t]) id) = some (filledBy (before ++ [t]) id) := by
  obtain ⟨o, ho, rfl⟩ := h.named t (by simp) id hid
  refine numeric_of_le ?_ (h.filled_nonneg o.id) ?_
  · refine filledBy_hasScale (fun x hx => (h.exact x ?_).quantity) o.id
    rw [List.append_cons]
    exact List.mem_append_left _ hx
  · refine ((h.filled_le ho).trans (h.small o ho)).trans ?_
    norm_num [maxQuantity, maxPrice]

theorem Exchange.quantity_le (h : Exchange orders (before ++ t :: after)) :
    t.quantity ≤ maxPrice := by
  obtain ⟨o, ho, hid⟩ := h.named t (by simp) t.buyOrderID (Or.inl rfl)
  have hbefore : 0 ≤ filledBy before o.id :=
    filledBy_nonneg (fun x hx => h.positive x (List.mem_append_left _ hx)) o.id
  have hle := h.filled_le ho
  have hnames : t.Names o.id := Or.inl hid.symm
  rw [filledBy_snoc, if_pos hnames] at hle
  have hsmall := h.small o ho
  norm_num [maxQuantity, maxPrice] at hsmall ⊢
  linarith

end

/-! ## Persisting the trades -/

/-- What a caller adds to a trade. -/
structure Stamp where
  tradeID : UUID
  timestamp : Time
  createdAt : Time
  buyUpdatedAt : Time
  sellUpdatedAt : Time

def filledStatus (isPartialFill : Bool) : OrderStatus :=
  if isPartialFill then .partiallyFilled else .filled

/-- The arguments of `PersistTradeWithOrders` for a trade. -/
def Trade.persistCall (t : Trade) (s : Stamp) : PersistCall :=
  { trade := ⟨⟨t.buyOrderID, t.sellOrderID, t.instrument, t.price, t.quantity, s.timestamp,
      s.createdAt⟩, s.tradeID⟩
    buyOrderUpdate :=
      ⟨t.buyOrderID, t.buyerFilledQty, filledStatus t.isBuyerPartialFill, s.buyUpdatedAt⟩
    sellOrderUpdate :=
      ⟨t.sellOrderID, t.sellerFilledQty, filledStatus t.isSellerPartialFill, s.sellUpdatedAt⟩ }

/-- The columns keep what the engine reads of an order, and `InsertOrder`
accepts it. -/
structure Order.Storable (o : Order) : Prop where
  quantity : numeric 20 8 o.quantity = some o.quantity
  price : o.type = .limit → numeric 20 8 o.price = some o.price
  instrument : varchar 50 o.instrument = some o.instrument
  accepted : ∀ updatedAt, ∃ row, (o.row updatedAt).stored = .ok row

theorem Order.Storable.exact {o : Order} (h : o.Storable) (hval : o.Validated) : o.Exact :=
  ⟨(numeric_eq_some h.quantity).1,
    fun hlimit => ⟨(numeric_eq_some (h.price hlimit)).1, hval.price hlimit⟩, h.instrument⟩

theorem Order.Validated.storable {o : Order} (h : o.Validated)
    (hclient : varchar 255 o.clientID = some o.clientID)
    (hinst : varchar 50 o.instrument = some o.instrument)
    (hprice : numeric 20 8 o.price = some o.price)
    (hquantity : numeric 20 8 o.quantity = some o.quantity) : o.Storable := by
  refine ⟨hquantity, fun _ => hprice, hinst, fun updatedAt => ⟨o.row updatedAt, ?_⟩⟩
  obtain ⟨hzero, hopen⟩ := h.submitted
  obtain ⟨-, -, hside, htype, hpos, -, hle⟩ := Order.isValid_iff.mp h.isValid
  refine OrderRow.stored_self hclient hinst hprice hquantity ?_ ?_
  · show numeric 20 8 o.filledQuantity = some o.filledQuantity
    rw [hzero]
    decide +kernel
  · have hstatus : o.status ≠ .unset ∧ o.status ≠ .unknown := by
      rw [hopen]
      decide
    exact ⟨hside, htype.symm, hpos, hzero.ge, hstatus, hle⟩

/-- Calls that insert orders and persist trades, these in their order,
under new ids and each after the orders it names. -/
inductive Scheduled (orders : List Order) : List Trade → List StoreEvent → Prop
  | nil : Scheduled orders [] []
  | insertOrder {ts es} (h : Scheduled orders ts es) {order} (ho : order ∈ orders) (updatedAt) :
      Scheduled orders ts (es ++ [.insertOrder order updatedAt])
  | persist {ts es} (h : Scheduled orders ts es) (t : Trade) (s : Stamp) (now : Time)
      (hid : ∀ c now', .persist c now' ∈ es → c.trade.tradeID ≠ s.tradeID)
      (hinserted : ∀ id, t.Names id → ∃ order updatedAt,
        .insertOrder order updatedAt ∈ es ∧ order.id = id) :
      Scheduled orders (ts ++ [t]) (es ++ [.persist (t.persistCall s) now])

namespace TradeTables

/-- Every row is that of an order. -/
def Rows (db : TradeTables) (orders : List Order) : Prop :=
  ∀ id row, db.orders.lookup id = some row →
    row.Valid ∧ ∃ o ∈ orders, o.id = id ∧ row.quantity = o.quantity

/-- The tables with the trades `ts` persisted: both orders of a trade have a row,
and the rows have filled what the trades come to. -/
structure Holds (db : TradeTables) (orders : List Order) (ts : List Trade) : Prop where
  consistent : db.Consistent
  rows : db.Rows orders
  totals : ∀ id, db.tradeTotal id = filledBy ts id
  named : ∀ t ∈ ts, ∀ id, t.Names id → id ∈ db.orders

/-- What a call succeeds in. -/
def Succeeds (db : TradeTables) (e : StoreEvent) (db' : TradeTables) : Prop := db.call e = .ok db'

variable {db : TradeTables} {orders : List Order} {ts after : List Trade} {t : Trade} {s : Stamp}
  {now : Time}

/-- An update that stays within the quantity of its order is accepted. -/
theorem Rows.updateOrder (h : db.Rows orders) {update : OrderUpdate}
    (hmem : update.orderID ∈ db.orders)
    (hnumeric : numeric 20 8 update.filledQuantity = some update.filledQuantity)
    (hnonneg : 0 ≤ update.filledQuantity)
    (hle : ∀ o ∈ orders, o.id = update.orderID → update.filledQuantity ≤ o.quantity)
    (hstatus : update.status ≠ .unset ∧ update.status ≠ .unknown) (now : Time) :
    ∃ db', db.updateOrder update now = .ok db' ∧ db'.Rows orders ∧ db'.trades = db.trades
      ∧ ∀ id ∈ db.orders, id ∈ db'.orders := by
  obtain ⟨row, hrow⟩ := Finmap.mem_iff.mp hmem
  obtain ⟨⟨hside, htype, hpos, -, -, -⟩, o, ho, hid, hquantity⟩ := h _ _ hrow
  have hvalid : ({ row with
      filledQuantity := update.filledQuantity, status := update.status,
      updatedAt := now } : OrderRow).Valid :=
    ⟨hside, htype, hpos, hnonneg, hstatus, hquantity ▸ hle o ho hid⟩
  refine ⟨_, updateOrder_eq_ok.mpr ⟨row, _, hrow, OrderRow.update_eq_ok.mpr ⟨hnumeric, rfl, hvalid⟩,
    rfl⟩, ?_, rfl, fun id hid => Finmap.mem_insert.mpr (Or.inr hid)⟩
  intro id row' hrow'
  rw [lookup_insert_apply] at hrow'
  split_ifs at hrow' with heq
  · rw [← Option.some.inj hrow']
    exact ⟨hvalid, o, ho, hid.trans heq.symm, hquantity⟩
  · exact h id row' hrow'

theorem filledStatus_stored (isPartialFill : Bool) :
    filledStatus isPartialFill ≠ .unset ∧ filledStatus isPartialFill ≠ .unknown := by
  cases isPartialFill <;> decide

end TradeTables

theorem Exchange.fits {orders : List Order} {trades : List Trade} (h : Exchange orders trades)
    {t : Trade} (ht : t ∈ trades) (s : Stamp) : (t.persistCall s).trade.toTradeRow.Fits := by
  have hexact := h.exact t ht
  have hpos : (0 : Decimal) < t.price :=
    (show (0 : Decimal) < minPrice by norm_num [minPrice]).trans_le hexact.price.2.1
  have hquantity : numeric 20 8 t.quantity = some t.quantity := by
    obtain ⟨before, after, rfl⟩ := List.append_of_mem ht
    exact numeric_of_le hexact.quantity (h.positive t ht).le h.quantity_le
  exact TradeRow.stored_eq_ok.mpr ⟨hexact.instrument,
    numeric_of_le hexact.price.1 hpos.le hexact.price.2.2, hquantity, ⟨hpos, h.positive t ht⟩, rfl⟩

namespace TradeTables

variable {db : TradeTables} {orders : List Order} {ts after : List Trade} {t : Trade} {s : Stamp}
  {now : Time} {es : List StoreEvent}

theorem Holds.insertOrder (h : db.Holds orders ts) {order : Order} (ho : order ∈ orders)
    (hstorable : order.Storable) (hzero : order.filledQuantity = 0) (updatedAt : Time) :
    ∃ db', db.insertOrder order updatedAt = .ok db' ∧ db'.Holds orders ts
      ∧ db'.trades = db.trades ∧ order.id ∈ db'.orders ∧ ∀ id ∈ db.orders, id ∈ db'.orders := by
  obtain ⟨row, hrow⟩ := hstorable.accepted updatedAt
  by_cases hmem : order.id ∈ db.orders
  · have hok : db.insertOrder order updatedAt = .ok db :=
      insertOrder_eq_ok.mpr ⟨row, hrow, (if_pos hmem).symm⟩
    exact ⟨db, hok, h, rfl, hmem, fun _ hid => hid⟩
  · have hok : db.insertOrder order updatedAt =
        .ok { db with orders := db.orders.insert order.id row } :=
      insertOrder_eq_ok.mpr ⟨row, hrow, (if_neg hmem).symm⟩
    -- no trade names an order that is not there
    have htotal : db.tradeTotal order.id = 0 :=
      (h.totals order.id).trans (filledBy_eq_zero fun t ht hid => hmem (h.named t ht _ hid))
    obtain ⟨hcons, hgrows⟩ := h.consistent.insertOrder (hzero.trans htotal.symm) hok
    refine ⟨_, hok, ⟨hcons, ?_, h.totals,
      fun t ht id hid => hgrows.orders id (h.named t ht id hid)⟩, rfl,
      Finmap.mem_insert.mpr (Or.inl rfl), hgrows.orders⟩
    intro id row' hrow'
    rw [lookup_insert_apply] at hrow'
    split_ifs at hrow' with heq
    · obtain ⟨hquantity, -, hvalid⟩ := OrderRow.stored_eq_ok hrow
      rw [← Option.some.inj hrow']
      exact ⟨hvalid, order, ho, heq.symm,
        Option.some.inj (hquantity.symm.trans hstorable.quantity)⟩
    · exact h.rows id row' hrow'

theorem Holds.cumulative (h : db.Holds orders ts) (hex : Exchange orders (ts ++ t :: after))
    (hfresh : s.tradeID ∉ db.trades) : db.Cumulative (t.persistCall s) := by
  obtain ⟨hbuy, hsell⟩ := hex.reported ts t after rfl
  have htotal : ∀ id, t.Names id →
      filledBy (ts ++ [t]) id = db.tradeTotal id + t.quantity := by
    intro id hid
    rw [filledBy_snoc, if_pos hid, h.totals]
  exact ⟨hfresh, rfl, rfl, hbuy.trans (htotal _ (Or.inl rfl)), hsell.trans (htotal _ (Or.inr rfl))⟩

/-- The table takes the update that the next trade makes to one of its
orders. -/
theorem Rows.accepts (h : db.Rows orders) (hex : Exchange orders (ts ++ t :: after))
    {update : OrderUpdate} (hid : t.Names update.orderID) (hmem : update.orderID ∈ db.orders)
    (hfilled : update.filledQuantity = filledBy (ts ++ [t]) update.orderID) {p : Bool}
    (hstatus : update.status = filledStatus p) (now : Time) :
    ∃ db', db.updateOrder update now = .ok db' ∧ db'.Rows orders ∧ db'.trades = db.trades
      ∧ ∀ id ∈ db.orders, id ∈ db'.orders := by
  refine h.updateOrder hmem ?_ ?_ (fun o ho heq => ?_) ?_ now
  · rw [hfilled]
    exact hex.numeric_filled hid
  · rw [hfilled]
    exact hex.filled_nonneg _
  · rw [hfilled, ← heq]
    exact hex.filled_le ho
  · rw [hstatus]
    exact filledStatus_stored p

theorem Holds.persist (h : db.Holds orders ts) (hex : Exchange orders (ts ++ t :: after))
    (hfresh : s.tradeID ∉ db.trades) (hmem : ∀ id, t.Names id → id ∈ db.orders) (now : Time) :
    ∃ db', db.persistTradeWithOrdersTx (t.persistCall s) now = .ok db'
      ∧ db'.Holds orders (ts ++ [t])
      ∧ db'.trades = db.trades.insert s.tradeID (t.persistCall s).trade.toTradeRow
      ∧ ∀ id ∈ db.orders, id ∈ db'.orders := by
  have ht : t ∈ ts ++ t :: after := List.mem_append_right _ List.mem_cons_self
  obtain ⟨hbuy, hsell⟩ := hex.reported ts t after rfl
  have hinsert : db.insertTrade (t.persistCall s).trade = .ok { db with
      trades := db.trades.insert s.tradeID (t.persistCall s).trade.toTradeRow } :=
    insertTrade_eq_ok.mpr ⟨_, hex.fits ht s, (if_neg hfresh).symm⟩
  have hrows : TradeTables.Rows { db with
      trades := db.trades.insert s.tradeID (t.persistCall s).trade.toTradeRow } orders := h.rows
  have hbuyer : t.Names (t.persistCall s).buyOrderUpdate.orderID := Or.inl rfl
  have hseller : t.Names (t.persistCall s).sellOrderUpdate.orderID := Or.inr rfl
  obtain ⟨db₂, hupdate, hrows₂, htrades₂, hkeep₂⟩ :=
    hrows.accepts hex hbuyer (hmem _ hbuyer) hbuy rfl now
  obtain ⟨db₃, hupdate', hrows₃, htrades₃, -⟩ :=
    hrows₂.accepts hex hseller (hkeep₂ _ (hmem _ hseller)) hsell rfl now
  have hok : db.persistTradeWithOrdersTx (t.persistCall s) now = .ok db₃ :=
    persistTradeWithOrdersTx_eq_ok.mpr ⟨_, db₂, hinsert, hupdate, hupdate'⟩
  have htrades := htrades₃.trans htrades₂
  obtain ⟨hcons, hgrows⟩ := h.consistent.persist (h.cumulative hex hfresh)
    (hex.exact t ht).quantity hok
  refine ⟨db₃, hok, ⟨hcons, hrows₃, fun id => ?_, fun t' ht' id hid => ?_⟩, htrades, hgrows.orders⟩
  · rw [tradeTotal_congr htrades, tradeTotal_insert hfresh, h.totals, filledBy_snoc]
    congr 1
    refine if_congr ?_ rfl rfl
    exact or_congr eq_comm eq_comm
  · rcases List.mem_append.mp ht' with ht' | ht'
    · exact hgrows.orders id (h.named t' ht' id hid)
    · exact hgrows.orders id (hmem id (List.mem_singleton.mp ht' ▸ hid))

end TradeTables

/-- After scheduled calls, all of which succeed, the tables hold what was
inserted and persisted. -/
theorem Exchange.schedule {orders : List Order} {trades ts : List Trade} {es : List StoreEvent}
    (hex : Exchange orders trades) (hstorable : ∀ o ∈ orders, o.Storable)
    (h : Scheduled orders ts es) (hpre : ts <+: trades) :
    ∃ db, Trace TradeTables.Succeeds TradeTables.empty es db ∧ db.Holds orders ts
      ∧ (∀ order updatedAt, .insertOrder order updatedAt ∈ es → order.id ∈ db.orders)
      ∧ (∀ c now, .persist c now ∈ es →
          db.trades.lookup c.trade.tradeID = some c.trade.toTradeRow)
      ∧ ∀ id ∈ db.trades, ∃ c now, .persist c now ∈ es ∧ c.trade.tradeID = id := by
  induction h with
  | nil =>
      refine ⟨_, .nil, ⟨TradeTables.consistent_empty, fun id row hrow => ?_, fun id => rfl,
        List.forall_mem_nil _⟩, fun _ _ => List.not_mem_nil.elim, fun _ _ => List.not_mem_nil.elim,
        fun id hid => absurd hid Finmap.notMem_empty⟩
      cases (Finmap.lookup_empty id).symm.trans hrow
  | @insertOrder ts es hprev order ho updatedAt ih =>
      obtain ⟨db, htrace, hholds, hinserted, hstored, hids⟩ := ih hpre
      obtain ⟨db', hok, hholds', htrades, hmem, hkeep⟩ :=
        hholds.insertOrder ho (hstorable order ho) (hex.unfilled order ho) updatedAt
      refine ⟨db', htrace.snoc hok, hholds', ?_, ?_, ?_⟩
      · intro order' updatedAt' he
        rcases List.mem_append.mp he with he | he
        · exact hkeep _ (hinserted order' updatedAt' he)
        · obtain ⟨rfl, -⟩ := StoreEvent.insertOrder.inj (List.mem_singleton.mp he)
          exact hmem
      · intro c now he
        rw [htrades]
        exact hstored c now ((List.mem_append.mp he).resolve_right fun he =>
          nomatch List.mem_singleton.mp he)
      · intro id hid
        rw [htrades] at hid
        obtain ⟨c, now, he, heq⟩ := hids id hid
        exact ⟨c, now, List.mem_append_left _ he, heq⟩
  | @persist ts es hprev t s now hid hnamed ih =>
      obtain ⟨after, rfl⟩ := hpre
      rw [List.append_assoc, List.singleton_append] at hex ih
      obtain ⟨db, htrace, hholds, hinserted, hstored, hids⟩ :=
        ih (List.prefix_append ts (t :: after))
      have hfresh : s.tradeID ∉ db.trades := by
        intro hmem
        obtain ⟨c, now', he, heq⟩ := hids _ hmem
        exact hid c now' he heq
      have hmem : ∀ id, t.Names id → id ∈ db.orders := by
        intro id hname
        obtain ⟨order, updatedAt, he, rfl⟩ := hnamed id hname
        exact hinserted order updatedAt he
      obtain ⟨db', hok, hholds', htrades, hkeep⟩ := hholds.persist hex hfresh hmem now
      refine ⟨db', htrace.snoc hok, hholds', ?_, ?_, ?_⟩
      · intro order updatedAt he
        refine hkeep _ (hinserted order updatedAt ((List.mem_append.mp he).resolve_right fun he =>
          nomatch List.mem_singleton.mp he))
      · intro c now' he
        rw [htrades]
        rcases List.mem_append.mp he with he | he
        · rw [Finmap.lookup_insert_of_ne _ (hid c now' he)]
          exact hstored c now' he
        · obtain ⟨rfl, -⟩ := StoreEvent.persist.inj (List.mem_singleton.mp he)
          exact Finmap.lookup_insert _
      · intro id hmem
        rw [htrades] at hmem
        rcases Finmap.mem_insert.mp hmem with rfl | hmem
        · exact ⟨_, now, List.mem_append_right _ (List.mem_singleton_self _), rfl⟩
        · obtain ⟨c, now', he, heq⟩ := hids id hmem
          exact ⟨c, now', List.mem_append_left _ he, heq⟩

section

variable {T : Type} [OrderedTree T Decimal LevelRef]

/-- In a run of validated orders that the columns keep as they are, every
trade is accepted and stored as it is; and persisting the trades never
fails and leaves every order filled by what its stored trades say. -/
theorem trades_survive_precision {me₀ me : MatchingEngine T} {requests : List Request}
    {trades : List Trade} (h₀ : me₀.Initial) (hfresh : FreshIDs requests)
    (hval : ∀ o ∈ submitted requests, o.Validated)
    (hstorable : ∀ o ∈ submitted requests, o.Storable)
    (hrun : MatchingEngine.Run me₀ requests me trades) :
    (∀ t ∈ trades, ∀ (s : Stamp) (db : TradeTables), s.tradeID ∉ db.trades →
      db.insertTrade (t.persistCall s).trade = .ok { db with
        trades := db.trades.insert s.tradeID (t.persistCall s).trade.toTradeRow })
    ∧ ∀ ts es, ts <+: trades → Scheduled (submitted requests) ts es →
      ∃ db, Trace TradeTables.Succeeds TradeTables.empty es db
        ∧ (∀ c now, .persist c now ∈ es →
            db.trades.lookup c.trade.tradeID = some c.trade.toTradeRow)
        ∧ db.filledMismatches = 0 := by
  have hex := hrun.exchange h₀ hfresh hval fun o ho => (hstorable o ho).exact (hval o ho)
  refine ⟨fun t ht s db hnew => ?_, fun ts es hpre hsched => ?_⟩
  · exact TradeTables.insertTrade_eq_ok.mpr ⟨_, hex.fits ht s, (if_neg hnew).symm⟩
  · obtain ⟨db, htrace, hholds, -, hstored, -⟩ := hex.schedule hstorable hsched hpre
    exact ⟨db, htrace, hstored, hholds.consistent.filledMismatches⟩

end

def tradeThree : Trade := ⟨2, 1, "BTC-USD", 100, 3, false, true, 3, 3, 0, 2⟩

theorem trades_survive_precision_three :
    (∃ me, MatchingEngine.Run emptyEngine [.new sellFive, .new buyThree] me [tradeThree])
    ∧ ∃ db, Trace TradeTables.Succeeds TradeTables.empty
        [.insertOrder sellFive 0, .insertOrder buyThree 1,
          .persist (tradeThree.persistCall ⟨11, 2, 2, 2, 2⟩) 3] db
      ∧ db.trades.lookup 11 = some ⟨2, 1, "BTC-USD", 100, 3, 2, 2⟩
      ∧ db.filledMismatches = 0 := by
  obtain ⟨me, hrun⟩ := emptyEngine.run_of_trades (show (emptyEngine.handleAll 9
    [.new sellFive, .new buyThree]).map Prod.snd = some [tradeThree] by decide +kernel)
  have hval : ∀ o ∈ submitted [.new sellFive, .new buyThree], o.Validated := by
    simpa [submitted] using ⟨validated_sellFive, validated_buyThree⟩
  have hstorable : ∀ o ∈ submitted [.new sellFive, .new buyThree], o.Storable := by
    have hsell := validated_sellFive.storable (by decide +kernel) (by decide +kernel)
      (by decide +kernel) (by decide +kernel)
    have hbuy := validated_buyThree.storable (by decide +kernel) (by decide +kernel)
      (by decide +kernel) (by decide +kernel)
    simpa [submitted] using ⟨hsell, hbuy⟩
  have hsched : Scheduled (submitted [.new sellFive, .new buyThree]) [tradeThree]
      [.insertOrder sellFive 0, .insertOrder buyThree 1,
        .persist (tradeThree.persistCall ⟨11, 2, 2, 2, 2⟩) 3] := by
    refine .persist (.insertOrder (.insertOrder .nil (by decide) 0) (by decide) 1) tradeThree _ 3
      ?_ ?_
    · intro c now hc
      simp at hc
    · rintro id (rfl | rfl)
      · exact ⟨buyThree, 1, by simp, rfl⟩
      · exact ⟨sellFive, 0, by simp, rfl⟩
  obtain ⟨db, htrace, hstored, hquery⟩ := (trades_survive_precision emptyEngine_initial
    (by decide) hval hstorable hrun).2 _ _ (List.prefix_refl _) hsched
  refine ⟨⟨me, hrun⟩, db, htrace, ?_, hquery⟩
  exact hstored (tradeThree.persistCall ⟨11, 2, 2, 2, 2⟩) 3
    (List.mem_cons_of_mem _ (List.mem_cons_of_mem _ List.mem_cons_self))

/-- A sell order with nine decimals, and two buy orders that leave the
last of them to the second. -/
def sellNineDecimals : Order := { sellFive with quantity := 100000001 / 1000000000 }

def buyTenth : Order := { buyThree with quantity := 1 / 10 }

def buyAnotherTenth : Order := { buyTen with quantity := 1 / 10 }

/-- The second trade is of 0.000000001, which the column makes 0: no table
takes it. -/
theorem tiny_trade_refused :
    (∀ o ∈ submitted [.new sellNineDecimals, .new buyTenth, .new buyAnotherTenth], o.Validated)
    ∧ ∃ me t t', MatchingEngine.Run emptyEngine
        [.new sellNineDecimals, .new buyTenth, .new buyAnotherTenth] me [t, t']
      ∧ t'.quantity = 1 / 1000000000
      ∧ ∀ (s : Stamp) (db : TradeTables), db.insertTrade (t'.persistCall s).trade =
          .error (.wrapped "failed to execute insert trade" (.pq "23514")) := by
  refine ⟨?_, ?_⟩
  · simpa [submitted] using ⟨⟨⟨"seller", "BTC-USD", "sell", "limit", 100,
        100000001 / 1000000000⟩, 1, 0, by decide +kernel⟩,
      ⟨⟨"buyer", "BTC-USD", "buy", "limit", 101, 1 / 10⟩, 2, 1, by decide +kernel⟩,
      ⟨⟨"buyer", "BTC-USD", "buy", "limit", 101, 1 / 10⟩, 3, 2, by decide +kernel⟩⟩
  · obtain ⟨me, hrun⟩ := emptyEngine.run_of_trades (show (emptyEngine.handleAll 9
        [.new sellNineDecimals, .new buyTenth, .new buyAnotherTenth]).map Prod.snd =
      some [⟨2, 1, "BTC-USD", 100, 1 / 10, false, true, 1 / 10, 1 / 10, 0, 1 / 1000000000⟩,
        ⟨3, 1, "BTC-USD", 100, 1 / 1000000000, true, false, 1 / 1000000000,
          100000001 / 1000000000, 99999999 / 1000000000, 0⟩] by decide +kernel)
    refine ⟨me, _, _, hrun, rfl, fun s db => ?_⟩
    have hinst : varcharColumn 50 "BTC-USD" = .ok "BTC-USD" := by decide +kernel
    have hprice : numericColumn 100 = .ok 100 := by decide +kernel
    have hquantity : numericColumn (1 / 1000000000) = .ok 0 := by decide +kernel
    have hcheck : checkRow ((0 : Decimal) < 100 ∧ (0 : Decimal) < 0) = .error (.pq "23514") := by
      decide +kernel
    simp only [TradeTables.insertTrade, TradeRow.stored, Trade.persistCall, hinst, hprice,
      hquantity, hcheck, ok_bind]
    rfl

end TradingBackend
