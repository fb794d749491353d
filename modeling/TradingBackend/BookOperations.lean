import TradingBackend.BookInvariant

/-!
# The operations keep the representation invariant

For the two operations that change the shape of the book the effect is
stated once, as a relation between the book before and the book after -
`Added` for `AddOrder`, `Detached` for the common part of `RemoveOrder`
and `CancelOrder` - and everything else is derived from the relation.
The insertion keeps `Layout` and `Volumes` whatever the id of the order;
only `Indexed` needs the id to be new.
-/

namespace TradingBackend

variable {T : Type} [OrderedTree T Decimal LevelRef]

namespace OrderBook

section

variable {ob : OrderBook T}

theorem mem_items_setSide {b b' : Bool} {t : T} {x : Decimal × LevelRef} :
    x ∈ (ob.setSide b t).items b' ↔
      if b' = b then x ∈ OrderedTree.items t else x ∈ ob.items b' := by
  cases b <;> cases b' <;> simp [setSide, items, side]

/-! ## Insertion -/

theorem getOrCreatePriceLevel_cases (ob : OrderBook T) (b : Bool) (p : Decimal) :
    (∃ l, (p, l) ∈ ob.items b ∧ ob.getOrCreatePriceLevel b p = (ob, l)) ∨
      ob.getOrCreatePriceLevel b p =
        ({ ob.setLevel ob.nextLevel (newPriceLevel p) with
            nextLevel := ob.nextLevel + 1 }.setSide b
          (OrderedTree.insert (ob.side b) p ob.nextLevel), ob.nextLevel)
        ∧ ∀ l, (p, l) ∉ ob.items b := by
  unfold getOrCreatePriceLevel
  cases hget : OrderedTree.get (ob.side b) p with
  | some l => exact Or.inl ⟨l, OrderedTree.get_eq_some.mp hget, rfl⟩
  | none => exact Or.inr ⟨rfl, OrderedTree.get_eq_none.mp hget⟩

/-- The element `AddOrder` makes. -/
def added (ob : OrderBook T) (order : OrderRef) : Element := ⟨ob.nextElement, order⟩

/-- `ob'` is `ob` with the order appended to the queue of level `l`. -/
structure Added (ob ob' : OrderBook T) (order : OrderRef) (l : LevelRef)
    (level : PriceLevel) : Prop where
  /-- The level as it was, or as it was made. -/
  source : ob.Filed (ob.orderAt order).side.isBid l ∧ level = ob.levelAt l ∨
    l = ob.nextLevel ∧ level = newPriceLevel (ob.orderAt order).price
  price_eq : level.price = (ob.orderAt order).price
  items : ∀ {b x}, x ∈ ob'.items b ↔
    x ∈ ob.items b ∨ b = (ob.orderAt order).side.isBid ∧ x = ((ob.orderAt order).price, l)
  level_self : ob'.levelAt l = level.addOrder ob.orderAt (ob.added order)
  level_other : ∀ {l'}, l' ≠ l → ob'.levelAt l' = ob.levelAt l'
  level_lt : l < ob'.nextLevel
  nextLevel : ob.nextLevel ≤ ob'.nextLevel
  nextElement : ob'.nextElement = ob.nextElement + 1
  nextOrder : ob'.nextOrder = ob.nextOrder
  orderAt : ob'.orderAt = ob.orderAt
  orders : ob'.orders = ob.orders.insert (ob.orderAt order).id ⟨l, ob.added order⟩

/-- `AddOrder` writes one level: one of the side, or a new one. -/
theorem addOrder_cases (ob : OrderBook T) (order : OrderRef) :
    (∃ l, ((ob.orderAt order).price, l) ∈ ob.items (ob.orderAt order).side.isBid
      ∧ ob.addOrder order = { ob with
          nextElement := ob.nextElement + 1
          levelAt := Function.update ob.levelAt l
            ((ob.levelAt l).addOrder ob.orderAt (ob.added order))
          orders := ob.orders.insert (ob.orderAt order).id ⟨l, ob.added order⟩ })
    ∨ (∀ l, ((ob.orderAt order).price, l) ∉ ob.items (ob.orderAt order).side.isBid)
      ∧ ob.addOrder order =
        { ob.setSide (ob.orderAt order).side.isBid (OrderedTree.insert
            (ob.side (ob.orderAt order).side.isBid) (ob.orderAt order).price ob.nextLevel) with
          nextLevel := ob.nextLevel + 1
          nextElement := ob.nextElement + 1
          levelAt := Function.update ob.levelAt ob.nextLevel
            ((newPriceLevel (ob.orderAt order).price).addOrder ob.orderAt (ob.added order))
          orders := ob.orders.insert (ob.orderAt order).id ⟨ob.nextLevel, ob.added order⟩ } := by
  rcases getOrCreatePriceLevel_cases ob (ob.orderAt order).side.isBid (ob.orderAt order).price
    with ⟨l, hl, heq⟩ | ⟨heq, hnew⟩
  · refine Or.inl ⟨l, hl, ?_⟩
    simp only [addOrder, heq]
    rfl
  · refine Or.inr ⟨hnew, ?_⟩
    simp only [addOrder, heq, setSide, setLevel, Function.update_self, Function.update_idem]
    rfl

theorem addOrder_added (h : ob.Layout) (order : OrderRef) :
    ∃ l level, Added ob (ob.addOrder order) order l level := by
  rcases ob.addOrder_cases order with ⟨l, hl, hadd⟩ | ⟨hnew, hadd⟩
  · refine ⟨l, ob.levelAt l, ?_⟩
    have hfiled : ob.Filed (ob.orderAt order).side.isBid l := ⟨_, hl⟩
    rw [hadd]
    refine ⟨Or.inl ⟨hfiled, rfl⟩, h.price_eq hl, fun {b x} => ?_, Function.update_self ..,
      fun hne => Function.update_of_ne hne .., h.level_lt hfiled, le_rfl, rfl, rfl, rfl, rfl⟩
    constructor
    · exact Or.inl
    · rintro (hx | ⟨rfl, rfl⟩)
      · exact hx
      · exact hl
  · refine ⟨ob.nextLevel, newPriceLevel (ob.orderAt order).price, ?_⟩
    rw [hadd]
    refine ⟨Or.inr ⟨rfl, rfl⟩, rfl, fun {b x} => ?_, Function.update_self ..,
      fun hne => Function.update_of_ne hne .., Nat.lt_succ_self _, Nat.le_succ _, rfl, rfl, rfl,
      rfl⟩
    refine mem_items_setSide.trans ?_
    split_ifs with hb
    · subst hb
      rw [OrderedTree.mem_items_insert, or_comm]
      exact or_congr ⟨And.left, fun hx => ⟨hx, fun hp => hnew x.2 (hp ▸ hx)⟩⟩
        ⟨fun hx => ⟨rfl, hx⟩, And.right⟩
    · exact ⟨Or.inl, fun hx => hx.resolve_right fun hb' => hb hb'.1⟩

namespace Added

variable {ob' : OrderBook T} {order : OrderRef} {l : LevelRef} {level : PriceLevel}

theorem filed_self (h : Added ob ob' order l level) (hl : ob.Layout) {b : Bool}
    (hf : ob.Filed b l) :
    b = (ob.orderAt order).side.isBid ∧ level = ob.levelAt l := by
  rcases h.source with ⟨hf', hlevel⟩ | ⟨rfl, -⟩
  · exact ⟨hl.one_side hf hf', hlevel⟩
  · exact absurd (hl.level_lt hf) (lt_irrefl _)

theorem filed_iff (h : Added ob ob' order l level) {b : Bool} {l' : LevelRef} :
    ob'.Filed b l' ↔ ob.Filed b l' ∨ b = (ob.orderAt order).side.isBid ∧ l' = l := by
  simp only [Filed, h.items, exists_or, Prod.mk.injEq]
  refine or_congr_right ⟨?_, ?_⟩
  · rintro ⟨p, hb, -, hl'⟩
    exact ⟨hb, hl'⟩
  · rintro ⟨hb, hl'⟩
    exact ⟨_, hb, rfl, hl'⟩

theorem holds_iff (h : Added ob ob' order l level) (hl : ob.Layout) {b : Bool}
    {l' : LevelRef} {e : Element} :
    ob'.Holds b l' e ↔ ob.Holds b l' e ∨
      b = (ob.orderAt order).side.isBid ∧ l' = l ∧ e = ob.added order := by
  by_cases hl' : l' = l
  · subst hl'
    simp only [Holds, h.filed_iff, h.level_self, PriceLevel.addOrder, List.mem_append,
      List.mem_singleton, and_true, true_and]
    constructor
    · rintro ⟨hf, he | rfl⟩
      · rcases h.source with ⟨hf', rfl⟩ | ⟨-, rfl⟩
        · refine Or.inl ⟨hf.elim id fun hb => ?_, he⟩
          rw [hb]
          exact hf'
        · cases he
      · rcases hf with hf | hb
        · exact Or.inr ⟨(h.filed_self hl hf).1, rfl⟩
        · exact Or.inr ⟨hb, rfl⟩
    · rintro (⟨hf, he⟩ | ⟨hb, rfl⟩)
      · exact ⟨Or.inl hf, Or.inl ((h.filed_self hl hf).2 ▸ he)⟩
      · exact ⟨Or.inr hb, Or.inr rfl⟩
  · simp only [Holds, h.filed_iff, h.level_other hl', hl', and_false, or_false, false_and]

theorem queue_sorted (h : Added ob ob' order l level) (hl : ob.Layout) :
    (level.orders ++ [ob.added order]).Pairwise fun e e' => e.id < e'.id := by
  rcases h.source with ⟨hf, rfl⟩ | ⟨-, rfl⟩
  · refine List.pairwise_append.mpr ⟨hl.fifo hf, List.pairwise_singleton .., ?_⟩
    intro e he e' he'
    rw [List.mem_singleton.mp he']
    exact hl.element_lt ⟨hf, he⟩
  · exact List.pairwise_singleton ..

theorem layout (h : Added ob ob' order l level) (hl : ob.Layout)
    (horder : order < ob.nextOrder) : ob'.Layout where
  price_eq {b p l'} hp := by
    rcases h.items.mp hp with hp | ⟨-, hp⟩
    · by_cases hl' : l' = l
      · subst hl'
        rw [h.level_self]
        have hlevel := (h.filed_self hl ⟨p, hp⟩).2
        rw [hlevel]
        exact hl.price_eq hp
      · rw [h.level_other hl']
        exact hl.price_eq hp
    · obtain ⟨rfl, rfl⟩ := Prod.mk.injEq .. |>.mp hp
      rw [h.level_self]
      exact h.price_eq
  level_lt {b l'} hf := by
    rcases h.filed_iff.mp hf with hf | ⟨-, rfl⟩
    · exact (hl.level_lt hf).trans_le h.nextLevel
    · exact h.level_lt
  one_side {b b' l'} hf hf' := by
    rcases h.filed_iff.mp hf with hf | ⟨rfl, rfl⟩
    · rcases h.filed_iff.mp hf' with hf' | ⟨rfl, rfl⟩
      · exact hl.one_side hf hf'
      · exact (h.filed_self hl hf).1
    · rcases h.filed_iff.mp hf' with hf' | ⟨rfl, -⟩
      · exact (h.filed_self hl hf').1.symm
      · rfl
  nonempty {b l'} hf := by
    by_cases hl' : l' = l
    · subst hl'
      rw [h.level_self]
      exact List.append_ne_nil_of_right_ne_nil _ (List.cons_ne_nil _ _)
    · rw [h.level_other hl']
      exact hl.nonempty ((h.filed_iff.mp hf).resolve_right fun hr => hl' hr.2)
  fifo {b l'} hf := by
    by_cases hl' : l' = l
    · subst hl'
      rw [h.level_self]
      exact h.queue_sorted hl
    · rw [h.level_other hl']
      exact hl.fifo ((h.filed_iff.mp hf).resolve_right fun hr => hl' hr.2)
  element_lt he := by
    rw [h.nextElement]
    rcases (h.holds_iff hl).mp he with he | ⟨-, -, rfl⟩
    · exact Nat.lt_succ_of_lt (hl.element_lt he)
    · exact Nat.lt_succ_self _
  order_lt he := by
    rw [h.nextOrder]
    rcases (h.holds_iff hl).mp he with he | ⟨-, -, rfl⟩
    · exact hl.order_lt he
    · exact horder
  order_side he := by
    rw [h.orderAt]
    rcases (h.holds_iff hl).mp he with he | ⟨rfl, -, rfl⟩
    · exact hl.order_side he
    · rfl
  order_price {b l' e} he := by
    rw [h.orderAt]
    rcases (h.holds_iff hl).mp he with he | ⟨-, rfl, rfl⟩
    · by_cases hl' : l' = l
      · subst hl'
        rw [h.level_self, (h.filed_self hl he.1).2]
        exact hl.order_price he
      · rw [h.level_other hl']
        exact hl.order_price he
    · rw [h.level_self]
      exact h.price_eq.symm

theorem volumes (h : Added ob ob' order l level) (hv : ob.Volumes) : ob'.Volumes := by
  intro b l' hf
  have hq : ∀ queue, ob'.queued queue = ob.queued queue := fun queue =>
    queued_congr fun e _ => by rw [h.orderAt]
  by_cases hl' : l' = l
  · subst hl'
    have hlevel : level.volume = ob.queued level.orders := by
      rcases h.source with ⟨hf', rfl⟩ | ⟨-, rfl⟩
      · exact hv hf'
      · rfl
    rw [h.level_self, hq]
    simp only [PriceLevel.addOrder, hlevel, queued, List.map_append, List.sum_append,
      List.map_cons, List.map_nil, List.sum_cons, List.sum_nil, add_zero]
  · rw [h.level_other hl', hq]
    exact hv ((h.filed_iff.mp hf).resolve_right fun hr => hl' hr.2)

theorem indexed (h : Added ob ob' order l level) (hl : ob.Layout) (hi : ob.Indexed)
    (hid : (ob.orderAt order).id ∉ ob.orders) : ob'.Indexed := by
  intro id location
  rw [h.orders, h.orderAt]
  have hnew : ob'.Holds (ob.orderAt order).side.isBid l (ob.added order) :=
    (h.holds_iff hl).mpr (Or.inr ⟨rfl, rfl, rfl⟩)
  by_cases heq : id = (ob.orderAt order).id
  · subst heq
    rw [Finmap.lookup_insert, Option.some.injEq]
    constructor
    · rintro rfl
      exact ⟨⟨_, hnew⟩, rfl⟩
    · rintro ⟨⟨b, he⟩, heq⟩
      rcases (h.holds_iff hl).mp he with he | ⟨-, hl', he'⟩
      · exact absurd (Finmap.mem_of_lookup_eq_some (hi.mpr ⟨⟨b, he⟩, heq⟩)) hid
      · obtain ⟨l', e'⟩ := location
        subst hl' he'
        rfl
  · rw [Finmap.lookup_insert_of_ne _ heq, hi]
    constructor
    · rintro ⟨⟨b, he⟩, heq⟩
      exact ⟨⟨b, (h.holds_iff hl).mpr (Or.inl he)⟩, heq⟩
    · rintro ⟨⟨b, he⟩, heq'⟩
      rcases (h.holds_iff hl).mp he with he | ⟨-, -, he'⟩
      · exact ⟨⟨b, he⟩, heq'⟩
      · exact absurd (heq'.symm.trans (by rw [he']; rfl)) heq

end Added

theorem addOrder_frame (ob : OrderBook T) (order : OrderRef) :
    (ob.addOrder order).instrument = ob.instrument ∧ (ob.addOrder order).orderAt = ob.orderAt
      ∧ (ob.addOrder order).nextOrder = ob.nextOrder := by
  rcases ob.addOrder_cases order with ⟨l, -, hadd⟩ | ⟨-, hadd⟩
  · rw [hadd]
    exact ⟨rfl, rfl, rfl⟩
  · rw [hadd]
    exact ⟨rfl, rfl, rfl⟩

theorem addOrder_instrument (ob : OrderBook T) (order : OrderRef) :
    (ob.addOrder order).instrument = ob.instrument :=
  (ob.addOrder_frame order).1

theorem addOrder_orderAt (ob : OrderBook T) (order : OrderRef) :
    (ob.addOrder order).orderAt = ob.orderAt :=
  (ob.addOrder_frame order).2.1

theorem addOrder_nextOrder (ob : OrderBook T) (order : OrderRef) :
    (ob.addOrder order).nextOrder = ob.nextOrder :=
  (ob.addOrder_frame order).2.2

theorem WF.addOrder (h : ob.WF) {order : OrderRef} (horder : order < ob.nextOrder)
    (hid : (ob.orderAt order).id ∉ ob.orders) : (ob.addOrder order).WF := by
  obtain ⟨l, level, hadd⟩ := addOrder_added h.layout order
  exact ⟨hadd.layout h.layout horder, hadd.indexed h.layout h.indexed hid,
    hadd.volumes h.volumes⟩

/-! ## Removal -/

/-- `ob'` is `ob` without the element `e` of level `l`, and without the
level if `e` was its last element. -/
structure Detached (ob ob' : OrderBook T) (l : LevelRef) (e : Element) : Prop where
  items : ∀ {b x}, x ∈ ob'.items b ↔
    x ∈ ob.items b ∧ ¬(x.2 = l ∧ (ob.levelAt l).orders.erase e = [])
  level_self : ob'.levelAt l = (ob.levelAt l).removeOrder ob.orderAt e
  level_other : ∀ {l'}, l' ≠ l → ob'.levelAt l' = ob.levelAt l'
  nextLevel : ob'.nextLevel = ob.nextLevel
  nextElement : ob'.nextElement = ob.nextElement
  nextOrder : ob'.nextOrder = ob.nextOrder
  orderAt : ob'.orderAt = ob.orderAt
  orders : ob'.orders = ob.orders.erase (ob.orderAt e.value).id

theorem detach_detached (h : ob.Layout) {b : Bool} {l : LevelRef} {e : Element}
    (he : ob.Holds b l e) :
    Detached ob (ob.detach (ob.orderAt e.value).id ⟨l, e⟩) l e := by
  have hempty : ((ob.setLevel l ((ob.levelAt l).removeOrder ob.orderAt e)).levelAt l).isEmpty
      = decide ((ob.levelAt l).orders.erase e = []) := by
    simp only [setLevel, Function.update_self, PriceLevel.isEmpty, PriceLevel.removeOrder,
      beq_eq_decide, List.length_eq_zero_iff]
  by_cases hlast : (ob.levelAt l).orders.erase e = []
  · -- the level goes: `Delete` by its price, in the tree of the order's side
    have hdet : ob.detach (ob.orderAt e.value).id ⟨l, e⟩ =
        { (ob.setLevel l ((ob.levelAt l).removeOrder ob.orderAt e)).removePriceLevel b
            (ob.levelAt l).price with
          orders := ob.orders.erase (ob.orderAt e.value).id } := by
      simp only [detach, hempty, hlast, decide_true, if_true, ← h.order_side he]
      simp only [setLevel, Function.update_self, PriceLevel.removeOrder]
      rfl
    rw [hdet]
    refine ⟨fun {b' x} => ?_, Function.update_self .., fun hne => Function.update_of_ne hne ..,
      rfl, rfl, rfl, rfl, rfl⟩
    refine mem_items_setSide.trans ?_
    have hkey : x ∈ ob.items b' → (x.2 = l ↔ b' = b ∧ x.1 = (ob.levelAt l).price) := by
      intro hx
      constructor
      · rintro rfl
        exact ⟨h.one_side ⟨x.1, hx⟩ he.1, (h.price_eq hx).symm⟩
      · rintro ⟨rfl, hp⟩
        exact h.level_unique ⟨x.1, hx⟩ he.1 ((h.price_eq hx).trans hp)
    split_ifs with hb
    · subst hb
      rw [OrderedTree.mem_items_delete]
      refine and_congr_right fun hx => ?_
      simp only [hkey hx, true_and, hlast, and_true]
    · refine ⟨fun hx => ⟨hx, fun hl => hb ((hkey hx).mp hl.1).1⟩, And.left⟩
  · have hdet : ob.detach (ob.orderAt e.value).id ⟨l, e⟩ =
        { ob.setLevel l ((ob.levelAt l).removeOrder ob.orderAt e) with
          orders := ob.orders.erase (ob.orderAt e.value).id } := by
      simp only [detach, hempty, hlast, decide_false, Bool.false_eq_true, if_false]
      rfl
    rw [hdet]
    refine ⟨fun {b' x} => ?_, Function.update_self .., fun hne => Function.update_of_ne hne ..,
      rfl, rfl, rfl, rfl, rfl⟩
    exact ⟨fun hx => ⟨hx, fun hl => hlast hl.2⟩, And.left⟩

theorem detach_instrument (ob : OrderBook T) (orderID : UUID) (location : OrderLocation) :
    (ob.detach orderID location).instrument = ob.instrument := by
  simp only [detach]
  split_ifs <;> rfl

namespace Detached

variable {ob' : OrderBook T} {l : LevelRef} {e : Element}

theorem filed_iff (h : Detached ob ob' l e) {b : Bool} {l' : LevelRef} :
    ob'.Filed b l' ↔ ob.Filed b l' ∧ ¬(l' = l ∧ (ob.levelAt l).orders.erase e = []) := by
  simp only [Filed, h.items, exists_and_right]

theorem holds_iff (h : Detached ob ob' l e) (hw : ob.WF) {b : Bool} (he : ob.Holds b l e)
    {b' : Bool} {l' : LevelRef} {e' : Element} :
    ob'.Holds b' l' e' ↔ ob.Holds b' l' e' ∧ e' ≠ e := by
  by_cases hl : l' = l
  · subst hl
    have hnodup := hw.layout.queue_nodup he.1
    simp only [Holds, h.filed_iff, h.level_self, PriceLevel.removeOrder, hnodup.mem_erase_iff]
    constructor
    · rintro ⟨⟨hf, -⟩, hne, hmem⟩
      exact ⟨⟨hf, hmem⟩, hne⟩
    · rintro ⟨⟨hf, hmem⟩, hne⟩
      refine ⟨⟨hf, fun hlast => ?_⟩, hne, hmem⟩
      have := hnodup.mem_erase_iff.mpr ⟨hne, hmem⟩
      rw [hlast.2] at this
      cases this
  · have hne : ob.Holds b' l' e' → e' ≠ e := by
      rintro he' rfl
      exact hl (hw.holds_unique he' he rfl).2.1
    simp only [Holds, h.filed_iff, h.level_other hl, hl, false_and, not_false_eq_true, and_true]
    exact ⟨fun he' => ⟨he', hne he'⟩, And.left⟩

theorem layout (h : Detached ob ob' l e) (hw : ob.WF) {b : Bool} (he : ob.Holds b l e) :
    ob'.Layout where
  price_eq {b' p l'} hp := by
    have hp := (h.items.mp hp).1
    by_cases hl : l' = l
    · subst hl
      rw [h.level_self]
      exact hw.layout.price_eq hp
    · rw [h.level_other hl]
      exact hw.layout.price_eq hp
  level_lt hf := h.nextLevel ▸ hw.layout.level_lt (h.filed_iff.mp hf).1
  one_side hf hf' := hw.layout.one_side (h.filed_iff.mp hf).1 (h.filed_iff.mp hf').1
  nonempty {b' l'} hf := by
    obtain ⟨hf, hlast⟩ := h.filed_iff.mp hf
    by_cases hl : l' = l
    · subst hl
      rw [h.level_self]
      exact fun hnil => hlast ⟨rfl, hnil⟩
    · rw [h.level_other hl]
      exact hw.layout.nonempty hf
  fifo {b' l'} hf := by
    have hf := (h.filed_iff.mp hf).1
    by_cases hl : l' = l
    · subst hl
      rw [h.level_self]
      exact (hw.layout.fifo hf).sublist List.erase_sublist
    · rw [h.level_other hl]
      exact hw.layout.fifo hf
  element_lt he' := h.nextElement ▸ hw.layout.element_lt ((h.holds_iff hw he).mp he').1
  order_lt he' := h.nextOrder ▸ hw.layout.order_lt ((h.holds_iff hw he).mp he').1
  order_side he' := h.orderAt ▸ hw.layout.order_side ((h.holds_iff hw he).mp he').1
  order_price {b' l' e'} he' := by
    have he' := ((h.holds_iff hw he).mp he').1
    rw [h.orderAt, hw.layout.order_price he']
    by_cases hl : l' = l
    · subst hl
      rw [h.level_self]
      rfl
    · rw [h.level_other hl]

theorem indexed (h : Detached ob ob' l e) (hw : ob.WF) {b : Bool} (he : ob.Holds b l e) :
    ob'.Indexed := by
  intro id location
  rw [h.orders, h.orderAt]
  simp only [h.holds_iff hw he]
  by_cases hid : id = (ob.orderAt e.value).id
  · subst hid
    rw [Finmap.lookup_erase]
    refine ⟨nofun, ?_⟩
    rintro ⟨⟨b', he', hne⟩, hid⟩
    exact absurd (hw.holds_unique he' he hid).2.2 hne
  · rw [Finmap.lookup_erase_ne hid, hw.indexed]
    constructor
    · rintro ⟨⟨b', he'⟩, hid'⟩
      exact ⟨⟨b', he', fun heq => hid (by rw [← hid', heq])⟩, hid'⟩
    · rintro ⟨⟨b', he', -⟩, hid'⟩
      exact ⟨⟨b', he'⟩, hid'⟩

theorem volumes (h : Detached ob ob' l e) (hw : ob.WF) {b : Bool} (he : ob.Holds b l e) :
    ob'.Volumes := by
  intro b' l' hf
  have hf := (h.filed_iff.mp hf).1
  have hq : ∀ queue, ob'.queued queue = ob.queued queue := fun queue =>
    queued_congr fun e _ => by rw [h.orderAt]
  by_cases hl : l' = l
  · subst hl
    rw [h.level_self, hq]
    simp only [PriceLevel.removeOrder, queued_erase ob he.2, hw.volumes hf]
  · rw [h.level_other hl, hq]
    exact hw.volumes hf

theorem wf (h : Detached ob ob' l e) (hw : ob.WF) {b : Bool} (he : ob.Holds b l e) :
    ob'.WF :=
  ⟨h.layout hw he, h.indexed hw he, h.volumes hw he⟩

end Detached

/-- What `RemoveOrder` and `CancelOrder` find for an id. -/
theorem WF.lookup_cases (h : ob.WF) (orderID : UUID) :
    ob.orders.lookup orderID = none ∨
      ∃ b l e, ob.Holds b l e ∧ (ob.orderAt e.value).id = orderID
        ∧ ob.orders.lookup orderID = some ⟨l, e⟩ := by
  cases hlook : ob.orders.lookup orderID with
  | none => exact Or.inl rfl
  | some location =>
      obtain ⟨⟨b, he⟩, hid⟩ := h.indexed.mp hlook
      exact Or.inr ⟨b, location.priceLevel, location.element, he, hid, rfl⟩

theorem WF.detach (h : ob.WF) {b : Bool} {l : LevelRef} {e : Element}
    (he : ob.Holds b l e) : (ob.detach (ob.orderAt e.value).id ⟨l, e⟩).WF :=
  (detach_detached h.layout he).wf h he

theorem WF.removeOrder (h : ob.WF) (orderID : UUID) : (ob.removeOrder orderID).1.WF := by
  rcases h.lookup_cases orderID with hnone | ⟨b, l, e, he, rfl, hsome⟩
  · simp only [OrderBook.removeOrder, hnone]
    exact h
  · simp only [OrderBook.removeOrder, hsome]
    exact h.detach he

theorem WF.cancelOrder (h : ob.WF) (orderID : UUID) : (ob.cancelOrder orderID).1.WF := by
  rcases h.lookup_cases orderID with hnone | ⟨b, l, e, he, rfl, hsome⟩
  · simp only [OrderBook.cancelOrder, hnone]
    exact h
  · simp only [OrderBook.cancelOrder, hsome]
    have hdet := detach_detached h.layout he
    exact (h.detach he).setStatus e.value .cancelled

/-! ## The other operations -/

/-- A level the operation finds for an id that was filled through its
pointer: every other level is as before, this one is recomputed. -/
theorem WF.fillQueued (h : ob.WF) {b : Bool} {l : LevelRef} {e : Element}
    (he : ob.Holds b l e) {o : Order} (hid : o.id = (ob.orderAt e.value).id)
    (hside : o.side = (ob.orderAt e.value).side)
    (hprice : o.price = (ob.orderAt e.value).price) :
    ((ob.setOrder e.value o).setLevel l
      ((ob.levelAt l).updateVolume (ob.setOrder e.value o).orderAt)).WF := by
  have hset : SameShape ob (ob.setOrder e.value o) := sameShape_setOrder hid hside hprice
  have hvol := sameShape_updateVolume (ob.setOrder e.value o) l (ob.setOrder e.value o).orderAt
  have hs := hset.trans hvol
  refine ⟨hs.layout h.layout, hs.indexed h.layout h.indexed,
    volumes_updateVolume fun {b' l'} hf hne => ?_⟩
  have hf := hset.filed_iff.mp hf
  refine (h.volumes hf).trans (queued_congr fun e' he' => ?_).symm
  refine Function.update_of_ne (fun heq => hne ?_) ..
  exact (h.holds_unique ⟨hf, he'⟩ he (by rw [heq])).2.1

theorem WF.updateOrder (h : ob.WF) (orderID : UUID) (newFilledQty : Decimal) :
    (ob.updateOrder orderID newFilledQty).WF := by
  rcases h.lookup_cases orderID with hnone | ⟨b, l, e, he, rfl, hsome⟩
  · simp only [OrderBook.updateOrder, hnone]
    exact h
  · simp only [OrderBook.updateOrder, hsome]
    exact h.fillQueued he rfl rfl rfl

theorem WF.addLimitOrder (h : ob.WF) {order : OrderRef} (horder : order < ob.nextOrder)
    (hid : (ob.orderAt order).id ∉ ob.orders) : (ob.addLimitOrder order).1.WF := by
  have hadd := h.addOrder horder hid
  unfold OrderBook.addLimitOrder
  split_ifs
  · exact h
  · dsimp only
    split_ifs
    · exact hadd.setStatus order .opened
    · exact hadd

theorem getBestPrice_filed {b : Bool} {l : LevelRef} (h : ob.getBestPrice b = some l) :
    ob.Filed b l := by
  unfold getBestPrice at h
  split_ifs at h
  · rw [OrderedTree.max_eq, Option.map_eq_some_iff] at h
    obtain ⟨x, hx, rfl⟩ := h
    exact ⟨x.1, List.mem_of_getLast? hx⟩
  · rw [OrderedTree.min_eq, Option.map_eq_some_iff] at h
    obtain ⟨x, hx, rfl⟩ := h
    exact ⟨x.1, List.mem_of_head? hx⟩

theorem lookup_foldl_erase {α : Type} (f : α → UUID) (id : UUID) :
    ∀ (l : List α) (m : Finmap fun _ : UUID => OrderLocation),
      (l.foldl (fun m x => m.erase (f x)) m).lookup id =
        if ∃ x ∈ l, f x = id then none else m.lookup id
  | [], m => by simp
  | x :: l, m => by
      rw [List.foldl_cons, lookup_foldl_erase f id l]
      by_cases hx : f x = id
      · simp [hx]
      · rw [Finmap.lookup_erase_ne (Ne.symm hx)]
        simp [hx]

/-- What popping level `l` does: it takes away the level and the ids of its
elements. -/
structure Popped (ob ob' : OrderBook T) (l : LevelRef) : Prop where
  orderAt : ob'.orderAt = ob.orderAt
  levelAt : ob'.levelAt = ob.levelAt
  nextOrder : ob'.nextOrder = ob.nextOrder
  nextLevel : ob'.nextLevel = ob.nextLevel
  nextElement : ob'.nextElement = ob.nextElement
  items : ∀ {b x}, x ∈ ob'.items b ↔ x ∈ ob.items b ∧ x.2 ≠ l
  orders : ob'.orders = (ob.levelAt l).orders.foldl
    (fun m e => m.erase (ob.orderAt e.value).id) ob.orders

theorem popBestLevel_popped (h : ob.Layout) {b : Bool} {l : LevelRef}
    (hbest : ob.getBestPrice b = some l) :
    (ob.popBestLevel b).2 = some l ∧ Popped ob (ob.popBestLevel b).1 l := by
  have hl := getBestPrice_filed hbest
  simp only [OrderBook.popBestLevel, hbest, true_and]
  refine ⟨rfl, rfl, rfl, rfl, rfl, fun {b' x} => ?_, rfl⟩
  refine mem_items_setSide.trans ?_
  split_ifs with hb
  · subst hb
    rw [OrderedTree.mem_items_delete]
    refine and_congr_right fun hx => not_congr ⟨fun hp => ?_, fun hp => ?_⟩
    · exact h.level_unique ⟨x.1, hx⟩ hl ((h.price_eq hx).trans hp)
    · rw [← hp, h.price_eq hx]
  · exact ⟨fun hx => ⟨hx, fun hp => hb (h.one_side ⟨x.1, hx⟩ (hp ▸ hl))⟩, And.left⟩

namespace Popped

variable {ob' : OrderBook T} {l l' : LevelRef} {b : Bool} {e : Element}

theorem filed_iff (h : Popped ob ob' l) : ob'.Filed b l' ↔ ob.Filed b l' ∧ l' ≠ l := by
  simp only [Filed, h.items, exists_and_right]

theorem holds_iff (h : Popped ob ob' l) : ob'.Holds b l' e ↔ ob.Holds b l' e ∧ l' ≠ l := by
  simp only [Holds, h.filed_iff, h.levelAt]
  exact and_right_comm

theorem layout (h : Popped ob ob' l) (hl : ob.Layout) : ob'.Layout where
  price_eq hp := by
    rw [h.levelAt]
    exact hl.price_eq (h.items.mp hp).1
  level_lt hf := h.nextLevel ▸ hl.level_lt (h.filed_iff.mp hf).1
  one_side hf hf' := hl.one_side (h.filed_iff.mp hf).1 (h.filed_iff.mp hf').1
  nonempty hf := by
    rw [h.levelAt]
    exact hl.nonempty (h.filed_iff.mp hf).1
  fifo hf := by
    rw [h.levelAt]
    exact hl.fifo (h.filed_iff.mp hf).1
  element_lt he := h.nextElement ▸ hl.element_lt (h.holds_iff.mp he).1
  order_lt he := h.nextOrder ▸ hl.order_lt (h.holds_iff.mp he).1
  order_side he := by
    rw [h.orderAt]
    exact hl.order_side (h.holds_iff.mp he).1
  order_price he := by
    rw [h.orderAt, h.levelAt]
    exact hl.order_price (h.holds_iff.mp he).1

theorem indexed (h : Popped ob ob' l) (hw : ob.WF) (hl : ob.Filed b l) : ob'.Indexed := by
  intro id location
  rw [h.orders, lookup_foldl_erase, h.orderAt]
  simp only [h.holds_iff]
  split_ifs with hgone
  · refine ⟨nofun, ?_⟩
    rintro ⟨⟨b, he, hne⟩, hid⟩
    obtain ⟨e, hmem, hid'⟩ := hgone
    exact absurd (hw.holds_unique he ⟨hl, hmem⟩ (hid.trans hid'.symm)).2.1 hne
  · rw [hw.indexed]
    refine ⟨?_, fun ⟨⟨b, he, _⟩, hid⟩ => ⟨⟨b, he⟩, hid⟩⟩
    rintro ⟨⟨b, he⟩, hid⟩
    exact ⟨⟨b, he, fun hl' => hgone ⟨location.element, hl' ▸ he.2, hid⟩⟩, hid⟩

theorem volumes (h : Popped ob ob' l) (hv : ob.Volumes) : ob'.Volumes := by
  intro b l' hf
  rw [h.levelAt, hv (h.filed_iff.mp hf).1]
  exact queued_congr fun e _ => by rw [h.orderAt]

theorem wf (h : Popped ob ob' l) (hw : ob.WF) (hl : ob.Filed b l) : ob'.WF :=
  ⟨h.layout hw.layout, h.indexed hw hl, h.volumes hw.volumes⟩

end Popped

theorem WF.popBestLevel (h : ob.WF) (isBid : Bool) : (ob.popBestLevel isBid).1.WF := by
  cases hbest : ob.getBestPrice isBid with
  | none =>
      simp only [OrderBook.popBestLevel, hbest]
      exact h
  | some l => exact (popBestLevel_popped h.layout hbest).2.wf h (getBestPrice_filed hbest)

theorem clear_wf (ob : OrderBook T) : ob.clear.WF :=
  wf_of_no_level (fun b => by cases b <;> exact OrderedTree.items_empty) rfl

end

end OrderBook

end TradingBackend
