import Mathlib.Data.List.SplitBy
import TradingBackend.BookView

/-!
# What is in a book

`contents` is a side of a book without its pointers: the price levels in
priority order, each with its price, its cached volume and the orders of
its queue, oldest first. In a well-formed book the flat list of resting
orders says it all (`WF.contents_eq`), so two books with the same resting
orders in the same order have the same contents.
-/

namespace TradingBackend

/-- A price level, without its pointers. -/
structure LevelContents where
  price : Decimal
  volume : Decimal
  orders : List Order
deriving DecidableEq, Repr

def LevelContents.ofOrders (orders : List Order) : LevelContents :=
  ⟨(orders.head?.map Order.price).getD 0, (orders.map Order.remainingQuantity).sum, orders⟩

namespace LevelContents

/-- A level as a book has it: it is made by its orders. -/
structure Proper (level : LevelContents) : Prop where
  nonempty : level.orders ≠ []
  price : ∀ o ∈ level.orders, o.price = level.price
  volume : level.volume = (level.orders.map Order.remainingQuantity).sum

theorem Proper.ofOrders_orders {level : LevelContents} (h : level.Proper) :
    ofOrders level.orders = level := by
  have hprice : (level.orders.head?.map Order.price).getD 0 = level.price := by
    cases horders : level.orders with
    | nil => exact absurd horders h.nonempty
    | cons o orders => exact h.price o (horders ▸ List.mem_cons_self ..)
  rw [ofOrders, hprice, ← h.volume]

/-- The queues of levels are the runs of equal prices among their orders. -/
theorem splitBy_flatten_orders {levels : List LevelContents}
    (hproper : ∀ level ∈ levels, level.Proper)
    (hprices : levels.Pairwise fun level level' => level.price ≠ level'.price) :
    (levels.map orders).flatten.splitBy (fun x y => x.price == y.price) = levels.map orders := by
  refine List.splitBy_flatten ?_ ?_ ?_
  · intro hnil
    obtain ⟨level, hl, heq⟩ := List.mem_map.mp hnil
    exact (hproper level hl).nonempty heq
  · refine List.forall_mem_map.mpr fun level hl => ?_
    refine (List.pairwise_of_forall_mem_list fun x hx y hy => ?_).isChain
    rw [(hproper level hl).price x hx, (hproper level hl).price y hy, beq_self_eq_true]
  · refine (List.pairwise_map.mpr ?_).isChain
    refine hprices.imp_of_mem fun {level level'} hl hl' hne => ?_
    refine ⟨(hproper level hl).nonempty, (hproper level' hl').nonempty, ?_⟩
    rw [(hproper level hl).price _ (List.getLast_mem _),
      (hproper level' hl').price _ (List.head_mem _)]
    exact beq_eq_false_iff_ne.mpr hne

end LevelContents

variable {T : Type} [OrderedTree T Decimal LevelRef]

namespace OrderBook

def ordersOf (ob : OrderBook T) (queue : List Element) : List Order :=
  queue.map fun e => ob.orderAt e.value

def contents (ob : OrderBook T) (isBid : Bool) : List LevelContents :=
  (ob.levels isBid).map fun l =>
    ⟨(ob.levelAt l).price, (ob.levelAt l).volume, ob.ordersOf (ob.levelAt l).orders⟩

/-- The resting orders of a side, in priority order. -/
def restingOrders (ob : OrderBook T) (isBid : Bool) : List Order :=
  ob.ordersOf (ob.elements isBid)

variable {ob ob' : OrderBook T} {b : Bool} {l : LevelRef}

theorem restingOrders_eq_flatten (ob : OrderBook T) (b : Bool) :
    ob.restingOrders b = ((ob.contents b).map LevelContents.orders).flatten := by
  rw [restingOrders, elements, ordersOf, contents, List.map_flatMap, List.map_map,
    List.flatMap_def]
  rfl

theorem mem_restingOrders {o : Order} :
    o ∈ ob.restingOrders b ↔ ∃ e ∈ ob.elements b, ob.orderAt e.value = o :=
  List.mem_map

theorem WF.mem_orders_iff (h : ob.WF) {id : UUID} :
    id ∈ ob.orders ↔ ∃ b, ∃ o ∈ ob.restingOrders b, o.id = id := by
  constructor
  · intro hid
    obtain ⟨location, hloc⟩ := Finmap.mem_iff.mp hid
    obtain ⟨⟨b, he⟩, rfl⟩ := h.indexed.mp hloc
    exact ⟨b, _, mem_restingOrders.mpr ⟨_, mem_elements.mpr ⟨_, he⟩, rfl⟩, rfl⟩
  · rintro ⟨b, o, ho, rfl⟩
    obtain ⟨e, he, rfl⟩ := mem_restingOrders.mp ho
    obtain ⟨l, he⟩ := mem_elements.mp he
    exact Finmap.mem_of_lookup_eq_some (h.lookup he)

theorem newOrder_restingOrders (h : ob.Layout) (o : Order) (b : Bool) :
    (ob.newOrder o).1.restingOrders b = ob.restingOrders b := by
  rw [restingOrders, restingOrders, (sameShape_newOrder ob o).elements]
  refine List.map_congr_left fun e he => ?_
  obtain ⟨l, he⟩ := mem_elements.mp he
  exact Function.update_of_ne (Nat.ne_of_lt (h.order_lt he)) ..

theorem WF.proper (h : ob.WF) : ∀ level ∈ ob.contents b, level.Proper := by
  refine List.forall_mem_map.mpr fun l hl => ?_
  have hl := mem_levels.mp hl
  refine ⟨fun hnil => h.layout.nonempty hl (List.map_eq_nil_iff.mp hnil), ?_, ?_⟩
  · exact List.forall_mem_map.mpr fun e he => h.layout.order_price ⟨hl, he⟩
  · rw [h.volumes hl, ordersOf, List.map_map]
    rfl

theorem Layout.contents_sorted (h : ob.Layout) (b : Bool) :
    (ob.contents b).Pairwise fun level level' => better b level.price level'.price :=
  List.pairwise_map.mpr (h.levels_sorted b)

theorem Layout.prices_ne (h : ob.Layout) (b : Bool) :
    (ob.contents b).Pairwise fun level level' => level.price ≠ level'.price :=
  (h.contents_sorted b).imp fun {level level'} hlt (heq : level.price = level'.price) =>
    better_irrefl b _ (heq ▸ hlt)

theorem WF.contents_eq (h : ob.WF) (b : Bool) :
    ob.contents b =
      ((ob.restingOrders b).splitBy fun x y => x.price == y.price).map LevelContents.ofOrders := by
  rw [restingOrders_eq_flatten,
    LevelContents.splitBy_flatten_orders h.proper (h.layout.prices_ne b), List.map_map]
  exact ((List.map_congr_left fun level hl => (h.proper level hl).ofOrders_orders).trans
    (List.map_id _)).symm

/-- The levels of a side are the ones its resting orders make. -/
theorem WF.contents_of_levels (h : ob.WF) {levels : List LevelContents}
    (hproper : ∀ level ∈ levels, level.Proper)
    (hprices : levels.Pairwise fun level level' => level.price ≠ level'.price)
    (horders : (levels.map LevelContents.orders).flatten = ob.restingOrders b) :
    ob.contents b = levels := by
  rw [h.contents_eq, ← horders, LevelContents.splitBy_flatten_orders hproper hprices, List.map_map]
  exact (List.map_congr_left fun level hl => (hproper level hl).ofOrders_orders).trans
    (List.map_id _)

theorem WF.contents_congr (h : ob.WF) (h' : ob'.WF)
    (heq : ob.restingOrders b = ob'.restingOrders b) : ob.contents b = ob'.contents b := by
  rw [h.contents_eq, h'.contents_eq, heq]

end OrderBook

end TradingBackend
