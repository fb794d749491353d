import Mathlib.Algebra.BigOperators.Group.List.Basic
import TradingBackend.OrderBook

/-!
# The representation invariant of the book

`WF` ties the four structures of the book together, in three parts that
the operations break and restore separately:

- `Layout`: the trees and the queues. Every level is filed under its own
  price, once, in one tree, and is not empty; a queue is in the order its
  elements were made; its orders belong to the side and the price.
- `Indexed`: the map. An id leads to a location exactly when the location
  is that of a queued order with this id.
- `Volumes`: the cached volume of every level.

A fill goes through an order pointer and leaves the volume of one level
stale, which is why `Volumes` is kept apart; `UpdateOrder` repairs it.
-/

namespace TradingBackend

variable {T : Type}

namespace OrderBook

/-! ## The quantity of a queue -/

def queued (ob : OrderBook T) (queue : List Element) : Decimal :=
  (queue.map fun e => (ob.orderAt e.value).remainingQuantity).sum

/-- A queue none of whose orders was written holds the same quantity. -/
theorem queued_congr {ob ob' : OrderBook T} {queue : List Element}
    (h : ∀ e ∈ queue, ob'.orderAt e.value = ob.orderAt e.value) :
    ob'.queued queue = ob.queued queue := by
  unfold queued
  rw [List.map_congr_left fun e he => by rw [h e he]]

theorem foldl_add_eq {α : Type} (f : α → Decimal) (l : List α) (v : Decimal) :
    l.foldl (fun v x => v + f x) v = v + (l.map f).sum := by
  induction l generalizing v with
  | nil => simp
  | cons x l ih => rw [List.foldl_cons, ih, List.map_cons, List.sum_cons, add_assoc]

theorem updateVolume_volume (ob : OrderBook T) (l : LevelRef) :
    ((ob.levelAt l).updateVolume ob.orderAt).volume = ob.queued (ob.levelAt l).orders := by
  simp only [PriceLevel.updateVolume, queued, foldl_add_eq, zero_add]

theorem queued_erase (ob : OrderBook T) {e : Element} {queue : List Element}
    (hmem : e ∈ queue) :
    ob.queued (queue.erase e) = ob.queued queue - (ob.orderAt e.value).remainingQuantity := by
  have hperm := (List.perm_cons_erase hmem).map fun e => (ob.orderAt e.value).remainingQuantity
  have hsum := hperm.sum_eq
  simp only [List.map_cons, List.sum_cons] at hsum
  simp only [queued, hsum, add_sub_cancel_left]

variable [OrderedTree T Decimal LevelRef]

/-! ## Reaching levels and elements -/

/-- The entries of a side in ascending price order. -/
def items (ob : OrderBook T) (isBid : Bool) : List (Decimal × LevelRef) :=
  OrderedTree.items (ob.side isBid)

def Filed (ob : OrderBook T) (isBid : Bool) (l : LevelRef) : Prop :=
  ∃ p, (p, l) ∈ ob.items isBid

/-- The element is reachable from the tree of the side, in level `l`. -/
def Holds (ob : OrderBook T) (isBid : Bool) (l : LevelRef) (e : Element) : Prop :=
  ob.Filed isBid l ∧ e ∈ (ob.levelAt l).orders

/-- The trees and the queues. A level is in one tree at most, under its own
price, and never empty; the elements of a queue are in the order in which they
were made, which is why queues are first in, first out; and an order is on its
side and at its price. -/
structure Layout (ob : OrderBook T) : Prop where
  price_eq : ∀ {b p l}, (p, l) ∈ ob.items b → (ob.levelAt l).price = p
  level_lt : ∀ {b l}, ob.Filed b l → l < ob.nextLevel
  one_side : ∀ {b b' l}, ob.Filed b l → ob.Filed b' l → b = b'
  nonempty : ∀ {b l}, ob.Filed b l → (ob.levelAt l).orders ≠ []
  fifo : ∀ {b l}, ob.Filed b l → (ob.levelAt l).orders.Pairwise fun e e' => e.id < e'.id
  element_lt : ∀ {b l e}, ob.Holds b l e → e.id < ob.nextElement
  order_lt : ∀ {b l e}, ob.Holds b l e → e.value < ob.nextOrder
  order_side : ∀ {b l e}, ob.Holds b l e → (ob.orderAt e.value).side.isBid = b
  order_price : ∀ {b l e}, ob.Holds b l e → (ob.orderAt e.value).price = (ob.levelAt l).price

/-- The map leads from the id of every queued order to its element and level,
and to nothing else, so that an id is queued once. -/
def Indexed (ob : OrderBook T) : Prop :=
  ∀ {id location}, ob.orders.lookup id = some location ↔
    (∃ b, ob.Holds b location.priceLevel location.element)
      ∧ (ob.orderAt location.element.value).id = id

/-- The volume a level has cached is what its queue has left. The worker breaks
this between a `Fill` and the `UpdateOrder` after it. -/
def Volumes (ob : OrderBook T) : Prop :=
  ∀ {b l}, ob.Filed b l → (ob.levelAt l).volume = ob.queued (ob.levelAt l).orders

/-- The representation invariant. Every operation of the book keeps it, and
every command of the worker. -/
structure WF (ob : OrderBook T) : Prop where
  layout : ob.Layout
  indexed : ob.Indexed
  volumes : ob.Volumes

/-! ## Consequences -/

section

variable {ob : OrderBook T}

theorem Layout.filed_iff (h : ob.Layout) {b : Bool} {l : LevelRef} :
    ob.Filed b l ↔ ((ob.levelAt l).price, l) ∈ ob.items b :=
  ⟨fun ⟨_, hp⟩ => h.price_eq hp ▸ hp, fun hp => ⟨_, hp⟩⟩

theorem Layout.level_unique (h : ob.Layout) {b : Bool} {l l' : LevelRef}
    (hl : ob.Filed b l) (hl' : ob.Filed b l')
    (hp : (ob.levelAt l).price = (ob.levelAt l').price) : l = l' :=
  OrderedTree.items_unique (hp ▸ h.filed_iff.mp hl) (h.filed_iff.mp hl')

theorem Layout.queue_nodup (h : ob.Layout) {b : Bool} {l : LevelRef} (hl : ob.Filed b l) :
    (ob.levelAt l).orders.Nodup :=
  (h.fifo hl).imp fun hlt heq => Nat.ne_of_lt hlt (congrArg Element.id heq)

theorem WF.lookup (h : ob.WF) {b : Bool} {l : LevelRef} {e : Element}
    (he : ob.Holds b l e) :
    ob.orders.lookup (ob.orderAt e.value).id = some ⟨l, e⟩ :=
  h.indexed.mpr ⟨⟨b, he⟩, rfl⟩

theorem WF.holds_unique (h : ob.WF) {b b' : Bool} {l l' : LevelRef} {e e' : Element}
    (he : ob.Holds b l e) (he' : ob.Holds b' l' e')
    (hid : (ob.orderAt e.value).id = (ob.orderAt e'.value).id) :
    b = b' ∧ l = l' ∧ e = e' := by
  have hloc := (h.lookup he).symm.trans ((congrArg ob.orders.lookup hid).trans (h.lookup he'))
  obtain ⟨rfl, rfl⟩ := OrderLocation.mk.injEq .. |>.mp (Option.some.inj hloc)
  exact ⟨h.layout.one_side he.1 he'.1, rfl, rfl⟩

end

/-! ## Steps that leave the shape alone

Fills, status changes and recomputed volumes touch neither the trees nor
the queues nor the map. -/

/-- `ob'` has the trees, queues and map of `ob`, and its orders have the
same id, side and price. -/
structure SameShape (ob ob' : OrderBook T) : Prop where
  items : ∀ b, ob'.items b = ob.items b
  price : ∀ l, (ob'.levelAt l).price = (ob.levelAt l).price
  queue : ∀ l, (ob'.levelAt l).orders = (ob.levelAt l).orders
  orders : ob'.orders = ob.orders
  nextLevel : ob'.nextLevel = ob.nextLevel
  nextElement : ob'.nextElement = ob.nextElement
  nextOrder : ob.nextOrder ≤ ob'.nextOrder
  id : ∀ r, r < ob.nextOrder → (ob'.orderAt r).id = (ob.orderAt r).id
  side : ∀ r, r < ob.nextOrder → (ob'.orderAt r).side = (ob.orderAt r).side
  orderPrice : ∀ r, r < ob.nextOrder → (ob'.orderAt r).price = (ob.orderAt r).price

namespace SameShape

variable {ob ob' ob'' : OrderBook T}

theorem trans (h : SameShape ob ob') (h' : SameShape ob' ob'') : SameShape ob ob'' where
  items b := (h'.items b).trans (h.items b)
  price l := (h'.price l).trans (h.price l)
  queue l := (h'.queue l).trans (h.queue l)
  orders := h'.orders.trans h.orders
  nextLevel := h'.nextLevel.trans h.nextLevel
  nextElement := h'.nextElement.trans h.nextElement
  nextOrder := h.nextOrder.trans h'.nextOrder
  id r hr := (h'.id r (hr.trans_le h.nextOrder)).trans (h.id r hr)
  side r hr := (h'.side r (hr.trans_le h.nextOrder)).trans (h.side r hr)
  orderPrice r hr := (h'.orderPrice r (hr.trans_le h.nextOrder)).trans (h.orderPrice r hr)

theorem filed_iff (h : SameShape ob ob') {b : Bool} {l : LevelRef} :
    ob'.Filed b l ↔ ob.Filed b l := by
  simp only [Filed, h.items]

theorem holds_iff (h : SameShape ob ob') {b : Bool} {l : LevelRef} {e : Element} :
    ob'.Holds b l e ↔ ob.Holds b l e := by
  simp only [Holds, h.filed_iff, h.queue]

theorem layout (h : SameShape ob ob') (hl : ob.Layout) : ob'.Layout where
  price_eq hp := (h.price _).trans (hl.price_eq (h.items _ ▸ hp))
  level_lt hf := h.nextLevel ▸ hl.level_lt (h.filed_iff.mp hf)
  one_side hf hf' := hl.one_side (h.filed_iff.mp hf) (h.filed_iff.mp hf')
  nonempty hf := h.queue _ ▸ hl.nonempty (h.filed_iff.mp hf)
  fifo hf := h.queue _ ▸ hl.fifo (h.filed_iff.mp hf)
  element_lt he := h.nextElement ▸ hl.element_lt (h.holds_iff.mp he)
  order_lt he := (hl.order_lt (h.holds_iff.mp he)).trans_le h.nextOrder
  order_side he := by
    have he := h.holds_iff.mp he
    rw [h.side _ (hl.order_lt he)]
    exact hl.order_side he
  order_price he := by
    have he := h.holds_iff.mp he
    rw [h.orderPrice _ (hl.order_lt he), h.price]
    exact hl.order_price he

theorem indexed (h : SameShape ob ob') (hl : ob.Layout) (hi : ob.Indexed) :
    ob'.Indexed := by
  intro id location
  rw [h.orders, hi]
  constructor
  · rintro ⟨⟨b, he⟩, hid⟩
    exact ⟨⟨b, h.holds_iff.mpr he⟩, (h.id _ (hl.order_lt he)).trans hid⟩
  · rintro ⟨⟨b, he⟩, hid⟩
    have he := h.holds_iff.mp he
    exact ⟨⟨b, he⟩, (h.id _ (hl.order_lt he)).symm.trans hid⟩

end SameShape

section

variable {ob : OrderBook T}

theorem sameShape_newOrder (ob : OrderBook T) (o : Order) :
    SameShape ob (ob.newOrder o).1 := by
  have hne : ∀ r, r < ob.nextOrder → (ob.newOrder o).1.orderAt r = ob.orderAt r :=
    fun r hr => Function.update_of_ne (Nat.ne_of_lt hr) ..
  exact ⟨fun _ => rfl, fun _ => rfl, fun _ => rfl, rfl, rfl, rfl, Nat.le_succ _,
    fun r hr => by rw [hne r hr], fun r hr => by rw [hne r hr], fun r hr => by rw [hne r hr]⟩

theorem sameShape_setOrder {r : OrderRef} {o : Order} (hid : o.id = (ob.orderAt r).id)
    (hside : o.side = (ob.orderAt r).side) (hprice : o.price = (ob.orderAt r).price) :
    SameShape ob (ob.setOrder r o) := by
  refine ⟨fun _ => rfl, fun _ => rfl, fun _ => rfl, rfl, rfl, rfl, le_rfl, ?_, ?_, ?_⟩ <;>
  · intro r' _
    by_cases hr : r' = r
    · subst hr; simpa [setOrder]
    · simp [setOrder, Function.update_of_ne hr]

theorem sameShape_updateVolume (ob : OrderBook T) (l : LevelRef)
    (orderAt : OrderRef → Order) :
    SameShape ob (ob.setLevel l ((ob.levelAt l).updateVolume orderAt)) := by
  refine ⟨fun _ => rfl, ?_, ?_, rfl, rfl, rfl, le_rfl, fun _ _ => rfl, fun _ _ => rfl,
    fun _ _ => rfl⟩ <;>
  · intro l'
    by_cases hl : l' = l
    · subst hl; simp [setLevel, PriceLevel.updateVolume]
    · simp [setLevel, Function.update_of_ne hl]

/-- Writing an order that is not queued keeps the invariant. -/
theorem WF.setOrder (h : ob.WF) {r : OrderRef} {o : Order}
    (hr : ∀ {b l e}, ob.Holds b l e → e.value ≠ r) (hid : o.id = (ob.orderAt r).id)
    (hside : o.side = (ob.orderAt r).side) (hprice : o.price = (ob.orderAt r).price) :
    (ob.setOrder r o).WF := by
  have hs := sameShape_setOrder hid hside hprice
  refine ⟨hs.layout h.layout, hs.indexed h.layout h.indexed, fun {b l} hf => ?_⟩
  have hf := hs.filed_iff.mp hf
  refine (h.volumes hf).trans (queued_congr fun e he => ?_).symm
  exact Function.update_of_ne (hr ⟨hf, he⟩) ..

theorem WF.setStatus (h : ob.WF) (r : OrderRef) (status : OrderStatus) :
    (ob.setOrder r { ob.orderAt r with status := status }).WF := by
  have hs : SameShape ob (ob.setOrder r { ob.orderAt r with status := status }) :=
    sameShape_setOrder rfl rfl rfl
  refine ⟨hs.layout h.layout, hs.indexed h.layout h.indexed, fun {b l} hf => ?_⟩
  refine (h.volumes (hs.filed_iff.mp hf)).trans
    (congrArg List.sum (List.map_congr_left fun e _ => ?_))
  by_cases he : e.value = r
  · simp only [OrderBook.setOrder, he, Function.update_self]
    rfl
  · simp only [OrderBook.setOrder, Function.update_of_ne he]

theorem WF.newOrder (h : ob.WF) (o : Order) : (ob.newOrder o).1.WF := by
  have hs := sameShape_newOrder ob o
  refine ⟨hs.layout h.layout, hs.indexed h.layout h.indexed, fun {b l} hf => ?_⟩
  have hf := hs.filed_iff.mp hf
  refine (h.volumes hf).trans (queued_congr fun e he => ?_).symm
  exact Function.update_of_ne (Nat.ne_of_lt (h.layout.order_lt ⟨hf, he⟩)) ..

/-- Recomputing the volume of the one level whose orders were written
repairs `Volumes`. -/
theorem volumes_updateVolume {l : LevelRef}
    (h : ∀ {b l'}, ob.Filed b l' → l' ≠ l →
      (ob.levelAt l').volume = ob.queued (ob.levelAt l').orders) :
    (ob.setLevel l ((ob.levelAt l).updateVolume ob.orderAt)).Volumes := by
  intro b l' hf
  have hf : ob.Filed b l' := hf
  by_cases hl : l' = l
  · subst hl
    simp only [setLevel, Function.update_self]
    exact updateVolume_volume ob l'
  · simp only [setLevel, Function.update_of_ne hl]
    exact h hf hl

/-- A book without levels, whatever is left in its memory. -/
theorem wf_of_no_level (hitems : ∀ b, ob.items b = []) (horders : ob.orders = ∅) : ob.WF := by
  have hfiled : ∀ {b l}, ¬ob.Filed b l := by
    rintro b l ⟨p, hp⟩
    rw [hitems] at hp
    cases hp
  refine ⟨⟨fun hp => absurd ⟨_, hp⟩ hfiled, fun hf => absurd hf hfiled,
    fun hf => absurd hf hfiled, fun hf => absurd hf hfiled, fun hf => absurd hf hfiled,
    fun he => absurd he.1 hfiled, fun he => absurd he.1 hfiled, fun he => absurd he.1 hfiled,
    fun he => absurd he.1 hfiled⟩, fun {id location} => ?_, fun hf => absurd hf hfiled⟩
  constructor
  · intro h
    rw [horders, Finmap.lookup_empty] at h
    cases h
  · rintro ⟨⟨b, he⟩, -⟩
    exact absurd he.1 hfiled

theorem newOrderBook_wf (instrument : String) : (newOrderBook instrument : OrderBook T).WF :=
  wf_of_no_level (fun b => by cases b <;> exact OrderedTree.items_empty) rfl

end

end OrderBook

end TradingBackend
