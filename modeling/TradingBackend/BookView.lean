import Mathlib.Algebra.BigOperators.Group.Finset.Basic
import TradingBackend.BookOperations

/-!
# The book as two priority queues

`elements` flattens a side: best price first, and inside a price in
queue order. Under `Layout` this list is sorted by price-time priority
(`Before`) and so determined by its members, which turns every
statement about what an operation does to the list into one about which
elements it adds or takes away:

- an insertion is an `orderedInsert` behind everything of the same or a
  better price (`Added.elements_self`);
- a removal filters the element out (`Detached.elements`);
- the best level heads the list (`elements_eq_best`).
-/

namespace TradingBackend

/-- Price `p` has priority over `q`: a higher bid, a lower ask. -/
def better (isBid : Bool) (p q : Decimal) : Prop := if isBid then q < p else p < q

instance (isBid : Bool) (p q : Decimal) : Decidable (better isBid p q) :=
  inferInstanceAs (Decidable (if isBid then q < p else p < q))

section

variable {b : Bool} {p q r : Decimal}

theorem better_irrefl (b : Bool) (p : Decimal) : ¬better b p p := by
  cases b <;> exact lt_irrefl p

theorem better_asymm (h : better b p q) : ¬better b q p := by
  cases b <;> exact lt_asymm h

theorem better_trans (h : better b p q) (h' : better b q r) : better b p r := by
  cases b
  · exact lt_trans h h'
  · exact lt_trans h' h

theorem eq_or_better_of_not_better (h : ¬better b p q) : p = q ∨ better b q p := by
  cases b
  · exact (not_lt.mp h).eq_or_lt.imp_left Eq.symm
  · exact (not_lt.mp h).eq_or_lt

end

/-- Priority by price, and by `earlier` inside a price. -/
def Prior {α : Type} (isBid : Bool) (price : α → Decimal) (earlier : α → α → Prop) (x y : α) :
    Prop :=
  better isBid (price x) (price y) ∨ price x = price y ∧ earlier x y

/-- A list in priority order stays so when something later than all of it
goes behind everything its price does not beat. -/
theorem prior_orderedInsert {α : Type} {b : Bool} {price : α → Decimal}
    {earlier : α → α → Prop} {a : α} {l : List α} (hl : l.Pairwise (Prior b price earlier))
    (hnew : ∀ x ∈ l, earlier x a) :
    (l.orderedInsert (fun x y => better b (price x) (price y)) a).Pairwise
      (Prior b price earlier) := by
  induction l with
  | nil => exact List.pairwise_singleton ..
  | cons x l ih =>
      obtain ⟨hx, hl'⟩ := List.pairwise_cons.mp hl
      rw [List.orderedInsert]
      split_ifs with hbetter
      · refine List.pairwise_cons.mpr ⟨fun y hy => Or.inl ?_, hl⟩
        rcases List.mem_cons.mp hy with rfl | hy
        · exact hbetter
        · rcases hx y hy with hxy | ⟨hxy, -⟩
          · exact better_trans hbetter hxy
          · exact hxy ▸ hbetter
      · refine List.pairwise_cons.mpr
          ⟨fun y hy => ?_, ih hl' fun y hy => hnew y (List.mem_cons_of_mem _ hy)⟩
        rcases (List.mem_orderedInsert _).mp hy with rfl | hy
        · rcases eq_or_better_of_not_better hbetter with hp | hp
          · exact Or.inr ⟨hp.symm, hnew x (List.mem_cons_self ..)⟩
          · exact Or.inl hp
        · exact hx y hy

variable {T : Type}

namespace OrderBook

def priceOf (ob : OrderBook T) (e : Element) : Decimal := (ob.orderAt e.value).price

/-- Price-time priority: a better price, or the same price and made
earlier. -/
def Before (ob : OrderBook T) (isBid : Bool) (e e' : Element) : Prop :=
  better isBid (ob.priceOf e) (ob.priceOf e') ∨
    ob.priceOf e = ob.priceOf e' ∧ e.id < e'.id

section

variable {ob : OrderBook T} {b : Bool} {e e' e'' : Element}

theorem Before.asymm (h : ob.Before b e e') : ¬ob.Before b e' e := by
  rcases h with h | ⟨hp, hlt⟩
  · rintro (h' | ⟨hp', -⟩)
    · exact better_asymm h h'
    · exact better_irrefl b _ (hp' ▸ h)
  · rintro (h' | ⟨-, hlt'⟩)
    · exact better_irrefl b _ (hp ▸ h')
    · exact lt_asymm hlt hlt'

/-- Inserting the newest element behind all that its price does not beat
keeps the list sorted. -/
theorem pairwise_orderedInsert {queue : List Element} (hq : queue.Pairwise (ob.Before b))
    (hnew : ∀ x ∈ queue, x.id < e.id) :
    (queue.orderedInsert (fun x y => better b (ob.priceOf x) (ob.priceOf y)) e).Pairwise
      (ob.Before b) :=
  prior_orderedInsert hq hnew

theorem countOrders_eq (ob : OrderBook T) (items : List (Decimal × LevelRef)) :
    ob.countOrders items =
      ((items.map Prod.snd).flatMap fun l => (ob.levelAt l).orders).length := by
  have hfold : ∀ (items : List (Decimal × LevelRef)) (n : Nat),
      items.foldl (fun n x => n + (ob.levelAt x.2).orders.length) n =
        n + ((items.map Prod.snd).flatMap fun l => (ob.levelAt l).orders).length := by
    intro items
    induction items with
    | nil => simp
    | cons x items ih =>
        intro n
        rw [List.foldl_cons, ih, List.map_cons, List.flatMap_cons, List.length_append,
          Nat.add_assoc]
  rw [countOrders, hfold, Nat.zero_add]

end

variable [OrderedTree T Decimal LevelRef]

/-! ## The lists -/

/-- The levels of a side, best price first. -/
def levels (ob : OrderBook T) (isBid : Bool) : List LevelRef :=
  (if isBid then (ob.items isBid).reverse else ob.items isBid).map Prod.snd

def elements (ob : OrderBook T) (isBid : Bool) : List Element :=
  (ob.levels isBid).flatMap fun l => (ob.levelAt l).orders

section

variable {ob ob' : OrderBook T} {b : Bool}

theorem mem_levels {l : LevelRef} : l ∈ ob.levels b ↔ ob.Filed b l := by
  cases b <;> simp [levels, Filed]

theorem mem_elements {e : Element} : e ∈ ob.elements b ↔ ∃ l, ob.Holds b l e := by
  simp only [elements, List.mem_flatMap, mem_levels, Holds]

theorem getBestPrice_eq (ob : OrderBook T) (b : Bool) :
    ob.getBestPrice b = (ob.levels b).head? := by
  cases b
  · simp only [getBestPrice, levels, Bool.false_eq_true, if_false, OrderedTree.min_eq,
      List.head?_map]
    rfl
  · simp only [getBestPrice, levels, if_true, OrderedTree.max_eq, List.head?_map,
      List.head?_reverse]
    rfl

theorem Layout.levels_sorted (h : ob.Layout) (b : Bool) :
    (ob.levels b).Pairwise fun l l' =>
      better b (ob.levelAt l).price (ob.levelAt l').price := by
  have hitems : (ob.items b).Pairwise fun x y =>
      (ob.levelAt x.2).price < (ob.levelAt y.2).price := by
    refine (OrderedTree.items_sorted (ob.side b)).imp_of_mem fun {x y} hx hy hlt => ?_
    rw [h.price_eq hx, h.price_eq hy]
    exact hlt
  cases b
  · exact List.pairwise_map.mpr hitems
  · exact List.pairwise_map.mpr (List.pairwise_reverse.mpr hitems)

theorem Layout.levels_eq (h : ob.Layout) {ls : List LevelRef}
    (hs : ls.Pairwise fun l l' => better b (ob.levelAt l).price (ob.levelAt l').price)
    (hmem : ∀ l, l ∈ ls ↔ ob.Filed b l) : ob.levels b = ls :=
  eq_of_sorted (fun _ _ => better_asymm) (h.levels_sorted b) hs
    fun l => mem_levels.trans (hmem l).symm

theorem Layout.elements_sorted (h : ob.Layout) (b : Bool) :
    (ob.elements b).Pairwise (ob.Before b) := by
  refine List.pairwise_flatMap.mpr ⟨fun l hl => ?_, ?_⟩
  · have hl := mem_levels.mp hl
    refine (h.fifo hl).imp_of_mem fun he he' hlt => Or.inr ⟨?_, hlt⟩
    exact (h.order_price ⟨hl, he⟩).trans (h.order_price ⟨hl, he'⟩).symm
  · refine (h.levels_sorted b).imp_of_mem fun {l l'} hl hl' hlt e he e' he' => Or.inl ?_
    unfold priceOf
    rw [h.order_price ⟨mem_levels.mp hl, he⟩, h.order_price ⟨mem_levels.mp hl', he'⟩]
    exact hlt

theorem Layout.elements_nodup (h : ob.Layout) (b : Bool) : (ob.elements b).Nodup := by
  refine (h.elements_sorted b).imp ?_
  rintro e _ hlt rfl
  exact Before.asymm hlt hlt

/-- A list sorted by priority with the members of the side is the side. -/
theorem Layout.elements_eq (h : ob.Layout) {queue : List Element}
    (hq : queue.Pairwise (ob.Before b)) (hmem : ∀ e, e ∈ queue ↔ ∃ l, ob.Holds b l e) :
    ob.elements b = queue :=
  eq_of_sorted (fun _ _ => Before.asymm) (h.elements_sorted b) hq
    fun e => mem_elements.trans (hmem e).symm

theorem newOrderBook_elements (instrument : String) (b : Bool) :
    (newOrderBook instrument : OrderBook T).elements b = [] := by
  cases b <;> simp [OrderBook.elements, levels, items, side, newOrderBook, OrderedTree.items_empty]

/-! ## The effect of the operations -/

theorem SameShape.elements (h : SameShape ob ob') (b : Bool) :
    ob'.elements b = ob.elements b := by
  simp only [OrderBook.elements, levels, h.items, h.queue]

theorem Detached.elements {l : LevelRef} {e : Element} (h : Detached ob ob' l e) (hw : ob.WF)
    {b₀ : Bool} (he : ob.Holds b₀ l e) (b : Bool) :
    ob'.elements b = (ob.elements b).filter (· ≠ e) := by
  have hbefore : ob'.Before b = ob.Before b := by
    funext x y
    simp only [Before, priceOf, h.orderAt]
  refine (h.layout hw he).elements_eq ?_ fun x => ?_
  · rw [hbefore]
    exact (hw.layout.elements_sorted b).filter _
  · simp only [List.mem_filter, mem_elements, h.holds_iff hw he, ne_eq, decide_not,
      Bool.not_eq_true', decide_eq_false_iff_not, exists_and_right]

theorem Added.elements_self {order : OrderRef} {l : LevelRef} {level : PriceLevel}
    (h : Added ob ob' order l level) (hl : ob.Layout) (horder : order < ob.nextOrder) :
    ob'.elements (ob.orderAt order).side.isBid =
      (ob.elements (ob.orderAt order).side.isBid).orderedInsert
        (fun x y => better (ob.orderAt order).side.isBid (ob.priceOf x) (ob.priceOf y))
        (ob.added order) := by
  set b := (ob.orderAt order).side.isBid with hb
  have hbefore : ob'.Before b = ob.Before b := by
    funext x y
    simp only [Before, priceOf, h.orderAt]
  refine (h.layout hl horder).elements_eq ?_ fun x => ?_
  · rw [hbefore]
    refine pairwise_orderedInsert (hl.elements_sorted b) fun x hx => ?_
    obtain ⟨l', hx⟩ := mem_elements.mp hx
    exact hl.element_lt hx
  · simp only [List.mem_orderedInsert, mem_elements, h.holds_iff hl, exists_or, ← hb, true_and,
      exists_eq_left]
    exact or_comm

theorem Added.elements_other {order : OrderRef} {l : LevelRef} {level : PriceLevel}
    (h : Added ob ob' order l level) (hl : ob.Layout) (horder : order < ob.nextOrder)
    (hb : b ≠ (ob.orderAt order).side.isBid) : ob'.elements b = ob.elements b := by
  have hbefore : ob'.Before b = ob.Before b := by
    funext x y
    simp only [Before, priceOf, h.orderAt]
  refine (h.layout hl horder).elements_eq ?_ fun x => ?_
  · rw [hbefore]
    exact hl.elements_sorted b
  · simp only [mem_elements, h.holds_iff hl, hb, false_and, or_false]

/-! ## The best level -/

theorem elements_eq_best {l : LevelRef} (h : ob.getBestPrice b = some l) :
    ob.elements b =
      (ob.levelAt l).orders ++ (ob.levels b).tail.flatMap fun l => (ob.levelAt l).orders := by
  rw [getBestPrice_eq] at h
  rw [elements, List.eq_cons_of_mem_head? h, List.flatMap_cons, List.tail_cons]

theorem Popped.levels_self {l : LevelRef} (h : Popped ob ob' l) (hl : ob.Layout)
    (hbest : ob.getBestPrice b = some l) : ob.levels b = l :: ob'.levels b := by
  rw [getBestPrice_eq] at hbest
  have hcons := List.eq_cons_of_mem_head? hbest
  have hsorted := hl.levels_sorted b
  rw [hcons, List.pairwise_cons] at hsorted
  have hnot : l ∉ (ob.levels b).tail := fun hmem => better_irrefl b _ (hsorted.1 l hmem)
  have htail : ob'.levels b = (ob.levels b).tail := by
    refine (h.layout hl).levels_eq ?_ fun l' => ?_
    · rw [h.levelAt]
      exact hsorted.2
    · rw [h.filed_iff, ← mem_levels, hcons, List.mem_cons, List.tail_cons]
      refine ⟨fun hmem => ⟨Or.inr hmem, fun heq => hnot (heq ▸ hmem)⟩, ?_⟩
      rintro ⟨rfl | hmem, hne⟩
      · exact absurd rfl hne
      · exact hmem
  rw [htail]
  exact hcons

theorem Popped.levels_other {l : LevelRef} {b' : Bool} (h : Popped ob ob' l) (hl : ob.Layout)
    (hfiled : ob.Filed b l) (hb : b' ≠ b) : ob'.levels b' = ob.levels b' := by
  refine (h.layout hl).levels_eq ?_ fun l' => ?_
  · rw [h.levelAt]
    exact hl.levels_sorted b'
  · rw [h.filed_iff, mem_levels]
    refine ⟨fun hf => ⟨hf, ?_⟩, And.left⟩
    rintro rfl
    exact hb (hl.one_side hf hfiled)

theorem Layout.getBestPrice_none (h : ob.Layout) :
    ob.getBestPrice b = none ↔ ob.elements b = [] := by
  rw [getBestPrice_eq, List.head?_eq_none_iff, elements, List.flatMap_eq_nil_iff]
  constructor
  · intro hnil l hl
    rw [hnil] at hl
    cases hl
  · intro hall
    refine List.eq_nil_iff_forall_not_mem.mpr fun l hl => ?_
    exact h.nonempty (mem_levels.mp hl) (hall l hl)

/-- The price of the best level is the price of the first order. -/
theorem Layout.best_price (h : ob.Layout) {l : LevelRef} (hbest : ob.getBestPrice b = some l)
    {e : Element} {rest : List Element} (he : ob.elements b = e :: rest) :
    ob.Holds b l e ∧ (ob.levelAt l).price = ob.priceOf e := by
  have hl := getBestPrice_filed hbest
  have hsplit := elements_eq_best hbest
  cases hq : (ob.levelAt l).orders with
  | nil => exact absurd hq (h.nonempty hl)
  | cons x queue =>
      rw [hq, he, List.cons_append, List.cons.injEq] at hsplit
      have hx : ob.Holds b l e := ⟨hl, by rw [hq, hsplit.1]; exact List.mem_cons_self ..⟩
      exact ⟨hx, (h.order_price hx).symm⟩

/-! ## Sizes and volumes -/

theorem WF.ids_nodup (h : ob.WF) :
    ((ob.elements true ++ ob.elements false).map fun e => (ob.orderAt e.value).id).Nodup := by
  refine List.Nodup.map_on ?_ ?_
  · intro e he e' he' hid
    simp only [List.mem_append, mem_elements] at he he'
    have : ∀ {x}, (∃ l, ob.Holds true l x) ∨ (∃ l, ob.Holds false l x) → ∃ b l, ob.Holds b l x :=
      fun hx => hx.elim (⟨true, ·⟩) (⟨false, ·⟩)
    obtain ⟨b, l, he⟩ := this he
    obtain ⟨b', l', he'⟩ := this he'
    exact (h.holds_unique he he' hid).2.2
  · refine (h.layout.elements_nodup true).append (h.layout.elements_nodup false) ?_
    intro e he he'
    obtain ⟨l, he⟩ := mem_elements.mp he
    obtain ⟨l', he'⟩ := mem_elements.mp he'
    exact absurd (h.holds_unique he he' rfl).1 (by decide)

theorem WF.size_eq (h : ob.WF) :
    ob.size = (ob.elements true).length + (ob.elements false).length := by
  have hkeys : ob.orders.keys =
      ((ob.elements true ++ ob.elements false).map fun e => (ob.orderAt e.value).id).toFinset := by
    ext id
    simp only [Finmap.mem_keys, Finmap.mem_iff, h.indexed, List.mem_toFinset, List.mem_map,
      List.mem_append, mem_elements]
    constructor
    · rintro ⟨location, ⟨b, he⟩, hid⟩
      refine ⟨location.element, ?_, hid⟩
      cases b
      · exact Or.inr ⟨_, he⟩
      · exact Or.inl ⟨_, he⟩
    · rintro ⟨e, ⟨l, he⟩ | ⟨l, he⟩, hid⟩
      · exact ⟨⟨l, e⟩, ⟨_, he⟩, hid⟩
      · exact ⟨⟨l, e⟩, ⟨_, he⟩, hid⟩
  rw [size, hkeys, List.toFinset_card_of_nodup h.ids_nodup, List.length_map, List.length_append]

theorem getBidDepth_eq (ob : OrderBook T) : ob.getBidDepth = (ob.elements true).length :=
  countOrders_eq ob _

theorem getAskDepth_eq (ob : OrderBook T) : ob.getAskDepth = (ob.elements false).length :=
  countOrders_eq ob _

theorem WF.sideVolume_eq (h : ob.WF) (b : Bool) : ob.sideVolume b = ob.queued (ob.elements b) := by
  have hperm : (ob.levels b).Perm ((ob.items b).map Prod.snd) := by
    cases b
    · exact List.Perm.refl _
    · exact (List.reverse_perm _).map _
  have hvol : ob.sideVolume b = ((ob.levels b).map fun l => (ob.levelAt l).volume).sum := by
    rw [sideVolume, foldl_add_eq (fun x : Decimal × LevelRef => (ob.levelAt x.2).volume),
      zero_add, (hperm.map fun l => (ob.levelAt l).volume).sum_eq, List.map_map]
    rfl
  have hlevel : ∀ l ∈ ob.levels b,
      (ob.levelAt l).volume = ob.queued (ob.levelAt l).orders :=
    fun l hl => h.volumes (mem_levels.mp hl)
  rw [hvol, List.map_congr_left hlevel, elements, queued, List.map_flatMap,
    List.flatMap_def, List.sum_flatten, List.map_map]
  rfl

end

end OrderBook

end TradingBackend
