import Mathlib.Algebra.Order.BigOperators.Group.List
import Mathlib.Tactic.Linarith
import Mathlib.Tactic.Ring
import TradingBackend.PlainBook
import TradingBackend.Priority

/-!
# The volume at a price

The volume of the level at a price is what the orders of its side with that
price have left (`WF.volumeAt_eq`). So the three things a command does to the
volumes are read off the orders: its trades take their quantities away from
the opposing side, an order that rests adds what is left of it, and a
cancelled order takes away what was left.

Every order in the book can be filled further (`Stocked`), whatever orders
the run was made of; hence every trade moves something.
-/

namespace TradingBackend

def heldAt (m : OrderRef → Order) (p : Decimal) (queue : List Element) : Decimal :=
  ((queue.filter fun e => (m e.value).price = p).map fun e =>
    (m e.value).remainingQuantity).sum

def tradedAt (p : Decimal) (trades : List Trade) : Decimal :=
  ((trades.filter fun t => t.price = p).map Trade.quantity).sum

section

variable {m m' : OrderRef → Order} {p : Decimal} {e : Element} {queue queue' : List Element}

@[simp] theorem heldAt_nil : heldAt m p [] = 0 := rfl

theorem heldAt_cons : heldAt m p (e :: queue) =
    (if (m e.value).price = p then (m e.value).remainingQuantity else 0) + heldAt m p queue := by
  unfold heldAt
  split_ifs with h <;> simp [h]

theorem heldAt_append : heldAt m p (queue ++ queue') = heldAt m p queue + heldAt m p queue' := by
  simp [heldAt]

theorem heldAt_perm (h : queue.Perm queue') : heldAt m p queue = heldAt m p queue' :=
  ((h.filter _).map _).sum_eq

theorem heldAt_congr (h : ∀ e ∈ queue, m' e.value = m e.value) :
    heldAt m' p queue = heldAt m p queue := by
  induction queue with
  | nil => rfl
  | cons e queue ih =>
      rw [heldAt_cons, heldAt_cons, h e (List.mem_cons_self ..),
        ih fun x hx => h x (List.mem_cons_of_mem _ hx)]

/-- Where every order has something left, nothing is left at a price only if
no order has it. -/
theorem heldAt_eq_zero (h : ∀ e ∈ queue, 0 < (m e.value).remainingQuantity) :
    heldAt m p queue = 0 ↔ ∀ e ∈ queue, (m e.value).price ≠ p := by
  induction queue with
  | nil => simp
  | cons e queue ih =>
      obtain ⟨he, htail⟩ := List.forall_mem_cons.mp h
      have hnonneg : 0 ≤ heldAt m p queue := by
        refine List.sum_nonneg fun q hq => ?_
        obtain ⟨x, hx, rfl⟩ := List.mem_map.mp hq
        exact (htail x (List.mem_of_mem_filter hx)).le
      rw [heldAt_cons, List.forall_mem_cons, ← ih htail]
      split_ifs with hp
      · simp [hp, (add_pos_of_pos_of_nonneg he hnonneg).ne']
      · simp [hp]

theorem tradedAt_pos {trades : List Trade} (h : ∀ t ∈ trades, 0 < t.quantity) {t : Trade}
    (ht : t ∈ trades) : 0 < tradedAt t.price trades := by
  have hmem : t ∈ trades.filter fun t' => t'.price = t.price :=
    List.mem_filter.mpr ⟨ht, decide_eq_true rfl⟩
  refine List.sum_pos _ ?_ (List.ne_nil_of_mem (List.mem_map_of_mem hmem))
  rintro q hq
  obtain ⟨t', ht', rfl⟩ := List.mem_map.mp hq
  exact h t' (List.mem_of_mem_filter ht')

@[simp] theorem tradedAt_nil : tradedAt p [] = 0 := rfl

theorem tradedAt_snoc {trades : List Trade} {t : Trade} :
    tradedAt p (trades ++ [t]) = tradedAt p trades + if t.price = p then t.quantity else 0 := by
  unfold tradedAt
  split_ifs with h <;> simp [h]

/-! ## Walks -/

/-- The list of a walk: it does not hold the aggressor, and no order twice. -/
structure Clear (a : OrderRef) (queue : List Element) : Prop where
  ne : ∀ e ∈ queue, e.value ≠ a
  nodup : (queue.map Element.value).Nodup

variable {a : OrderRef}

theorem Clear.tail (h : Clear a (e :: queue)) : Clear a queue :=
  ⟨fun x hx => h.ne x (List.mem_cons_of_mem _ hx), (List.nodup_cons.mp h.nodup).2⟩

theorem heldAt_trade (h : Clear a (e :: queue)) :
    heldAt (tradeOrders m a e.value) p
        (if (tradeOrders m a e.value e.value).isFilled then queue else e :: queue) =
      heldAt m p (e :: queue) - if (m e.value).price = p then matchQty m a e.value else 0 := by
  have htail : heldAt (tradeOrders m a e.value) p queue = heldAt m p queue :=
    heldAt_congr fun x hx => tradeOrders_tail h.ne h.nodup hx
  have hleft : (tradeOrders m a e.value e.value).remainingQuantity =
      (m e.value).remainingQuantity - matchQty m a e.value := by
    rw [tradeOrders_resting (h.ne e (List.mem_cons_self ..)), Order.fill_remainingQuantity]
  by_cases hf : (tradeOrders m a e.value e.value).isFilled = true
  · have hzero := Order.isFilled_iff_remaining.mp hf
    rw [if_pos hf, htail, heldAt_cons]
    split_ifs
    · linarith
    · ring
  · rw [if_neg hf, heldAt_cons, heldAt_cons, htail, tradeOrders_price, hleft]
    split_ifs <;> ring

theorem walk_trades_eq_nil :
    (walk a m queue).trades = [] ↔ ¬(0 < (m a).remainingQuantity ∧ queue ≠ []) := by
  cases queue with
  | nil => simp [walk]
  | cons e queue =>
      by_cases hpos : 0 < (m a).remainingQuantity
      · by_cases hf : (tradeOrders m a e.value e.value).isFilled = true
        · simp [walk_filled hpos hf, hpos]
        · simp [walk_partly hpos hf, hpos]
      · simp [walk_done hpos, hpos]

theorem walk_of_trades_nil (h : (walk a m queue).trades = []) :
    walk a m queue = ⟨m, [], queue⟩ := by
  by_cases hpos : 0 < (m a).remainingQuantity
  · obtain rfl : queue = [] := by
      by_contra hne
      exact walk_trades_eq_nil.mp h ⟨hpos, hne⟩
    rfl
  · exact walk_done hpos

theorem walk_head (h : Clear a (e :: queue)) (hpos : 0 < (m a).remainingQuantity) :
    (walk a m (e :: queue)).orderAt e.value = (m e.value).fill (matchQty m a e.value) := by
  have hne := h.ne e (List.mem_cons_self ..)
  by_cases hf : (tradeOrders m a e.value e.value).isFilled = true
  · have hnodup := (List.nodup_cons.mp h.nodup).1
    rw [walk_filled hpos hf]
    dsimp only
    rw [walk_other hne fun x hx hvalue => hnodup (hvalue ▸ List.mem_map_of_mem hx),
      tradeOrders_resting hne]
  · rw [walk_partly hpos hf]
    exact tradeOrders_resting hne

theorem Clear.trade (h : Clear a (e :: queue)) :
    Clear a (if (tradeOrders m a e.value e.value).isFilled then queue else e :: queue) := by
  split_ifs
  · exact h.tail
  · exact h

/-- What a walk trades at a price is missing there afterwards. -/
theorem walk_heldAt (h : Clear a queue) :
    heldAt (walk a m queue).orderAt p (walk a m queue).left + tradedAt p (walk a m queue).trades =
      heldAt m p queue := by
  refine (walk_invariant (P := fun m' ts left => Clear a left
    ∧ heldAt m' p left + tradedAt p ts = heldAt m p queue) ?_ [] ⟨h, by simp⟩).2
  rintro m' ts e left ⟨hclear, hsum⟩ -
  have htraded : tradedAt p (ts ++ [tradeOf m' a e.value]) = tradedAt p ts
      + if (m' e.value).price = p then matchQty m' a e.value else 0 := tradedAt_snoc
  refine ⟨hclear.trade, ?_⟩
  rw [heldAt_trade hclear, htraded, ← hsum]
  ring

end

/-! ## Orders that can be filled -/

/-- The order buys or sells, is open, and something of it is left. -/
structure Order.Fillable (o : Order) : Prop where
  side : o.side ≠ .unknown
  remaining_pos : 0 < o.remainingQuantity
  canBeFilled : o.canBeFilled = true

theorem Order.Fillable.fill {o : Order} {q : Decimal} (h : o.Fillable)
    (hle : q ≤ o.remainingQuantity) (hf : ¬(o.fill q).isFilled = true) : (o.fill q).Fillable := by
  refine ⟨h.side, ?_, ?_⟩
  · refine lt_of_le_of_ne ?_ fun hzero => hf (isFilled_iff_remaining.mpr hzero.symm)
    rw [fill_remainingQuantity]
    exact sub_nonneg.mpr hle
  · have hstatus : (o.fill q).status = if (o.fill q).isPartiallyFilled then .partiallyFilled
        else o.status := if_neg hf
    rw [canBeFilled_iff, hstatus]
    split_ifs
    · exact Or.inr rfl
    · exact canBeFilled_iff.mp h.canBeFilled

section

variable {m : OrderRef → Order} {queue : List Element} {a : OrderRef}

/-- What a walk leaves of fillable orders is fillable, and its trades move
something. -/
theorem walk_fillable (h : Clear a queue) (hfill : ∀ e ∈ queue, (m e.value).Fillable) :
    (∀ e ∈ (walk a m queue).left, ((walk a m queue).orderAt e.value).Fillable)
      ∧ ∀ t ∈ (walk a m queue).trades, 0 < t.quantity := by
  refine (walk_invariant (P := fun m' ts left => Clear a left
    ∧ (∀ e ∈ left, (m' e.value).Fillable) ∧ ∀ t ∈ ts, 0 < t.quantity) ?_ []
    ⟨h, hfill, List.forall_mem_nil _⟩).2
  rintro m' ts e left ⟨hclear, hfill, hts⟩ hpos
  have he := hfill e (List.mem_cons_self ..)
  have htail : ∀ x ∈ left, (tradeOrders m' a e.value x.value).Fillable := fun x hx => by
    rw [tradeOrders_tail hclear.ne hclear.nodup hx]
    exact hfill x (List.mem_cons_of_mem _ hx)
  refine ⟨hclear.trade, ?_, List.forall_mem_append.mpr ⟨hts, List.forall_mem_singleton.mpr ?_⟩⟩
  · split_ifs with hf
    · exact htail
    · refine List.forall_mem_cons.mpr ⟨?_, htail⟩
      rw [tradeOrders_resting (hclear.ne e (List.mem_cons_self ..))] at hf ⊢
      exact he.fill (min_le_right ..) hf
  · exact lt_min hpos he.remaining_pos

end

/-! ## The book -/

namespace OrderBook

variable {T : Type} [OrderedTree T Decimal LevelRef] {ob : OrderBook T} {b : Bool} {p : Decimal}

/-- The volume of the level at a price, 0 if there is none. -/
def volumeAt (ob : OrderBook T) (isBid : Bool) (price : Decimal) : Decimal :=
  match OrderedTree.get (ob.side isBid) price with
  | none => 0
  | some l => (ob.levelAt l).volume

theorem Layout.get_eq_none (h : ob.Layout) :
    OrderedTree.get (ob.side b) p = none ↔ ∀ e ∈ ob.elements b, ob.priceOf e ≠ p := by
  constructor
  · rintro hnone e he rfl
    obtain ⟨l, he⟩ := mem_elements.mp he
    refine OrderedTree.get_eq_none.mp hnone l ?_
    rw [priceOf, h.order_price he]
    exact h.filed_iff.mp he.1
  · intro hall
    refine OrderedTree.get_eq_none.mpr fun l hl => ?_
    obtain ⟨e, he⟩ := List.exists_mem_of_ne_nil _ (h.nonempty (b := b) ⟨p, hl⟩)
    have hholds : ob.Holds b l e := ⟨⟨p, hl⟩, he⟩
    refine hall e (mem_elements.mpr ⟨l, hholds⟩) ?_
    rw [priceOf, h.order_price hholds, h.price_eq hl]

theorem Layout.filter_price (h : ob.Layout) {l : LevelRef} (hl : (p, l) ∈ ob.items b) :
    (ob.elements b).filter (fun e => (ob.orderAt e.value).price = p) = (ob.levelAt l).orders := by
  have hfiled : ob.Filed b l := ⟨p, hl⟩
  refine eq_of_sorted (r := ob.Before b) (fun _ _ => Before.asymm)
    ((h.elements_sorted b).filter _) ?_ fun e => ?_
  · refine (h.fifo hfiled).imp_of_mem fun he he' hlt => Or.inr ⟨?_, hlt⟩
    exact (h.order_price ⟨hfiled, he⟩).trans (h.order_price ⟨hfiled, he'⟩).symm
  · rw [List.mem_filter, decide_eq_true_iff, mem_elements]
    constructor
    · rintro ⟨⟨l', he⟩, rfl⟩
      obtain rfl := h.level_unique he.1 hfiled ((h.order_price he).symm.trans (h.price_eq hl).symm)
      exact he.2
    · exact fun he => ⟨⟨l, hfiled, he⟩, (h.order_price ⟨hfiled, he⟩).trans (h.price_eq hl)⟩

theorem WF.volumeAt_eq (h : ob.WF) (b : Bool) (p : Decimal) :
    ob.volumeAt b p = heldAt ob.orderAt p (ob.elements b) := by
  unfold volumeAt heldAt
  cases hget : OrderedTree.get (ob.side b) p with
  | none =>
      have hnone := h.layout.get_eq_none.mp hget
      rw [List.filter_eq_nil_iff.mpr fun e he => by simpa [priceOf] using hnone e he]
      rfl
  | some l =>
      have hl : (p, l) ∈ ob.items b := OrderedTree.get_eq_some.mp hget
      rw [h.layout.filter_price hl]
      exact h.volumes ⟨p, hl⟩

theorem Ready.clear {a : OrderRef} (h : ob.Ready a) {queue : List Element}
    (hsub : queue.Sublist (ob.elements b)) : Clear a queue :=
  ⟨fun _ he => h.ne_elements (hsub.subset he), (h.wf.values_nodup b).sublist (hsub.map _)⟩

end OrderBook

namespace MatchingEngine

variable {T : Type} [OrderedTree T Decimal LevelRef] {me me' : MatchingEngine T} {a : OrderRef}
  {trades : List Trade} {request : Request} {requests : List Request} {o : Order}

/-! ## Commands -/

/-- The orders in the book can be filled. -/
def Stocked (me : MatchingEngine T) : Prop :=
  ∀ b, ∀ e ∈ me.orderBook.elements b, (me.orderBook.orderAt e.value).Fillable

theorem clear_front (h : me.orderBook.Ready a) : Clear a (me.orderBook.front crosses a) :=
  h.clear (List.takeWhile_sublist _)

/-- The trades take their quantities away from the opposing side. -/
theorem Entered.volumeAt_opposing (h : Entered me me' a trades) (hready : me.orderBook.Ready a)
    (p : Decimal) :
    me'.orderBook.volumeAt (me.orderBook.opposing a) p =
      me.orderBook.volumeAt (me.orderBook.opposing a) p - tradedAt p trades := by
  set m := (walk a me.orderBook.orderAt (me.orderBook.front crosses a)).orderAt with hm
  have hsplit := me.orderBook.front_append_behind crosses a
  have hmem : ∀ e ∈ me.orderBook.behind crosses a, e ∈ me.orderBook.elements _ := fun e he =>
    hsplit ▸ List.mem_append_right _ he
  have hleft : heldAt me'.orderBook.orderAt p
      (walk a me.orderBook.orderAt (me.orderBook.front crosses a)).left =
      heldAt m p (walk a me.orderBook.orderAt (me.orderBook.front crosses a)).left := by
    refine heldAt_congr fun e he => ?_
    have hne := hready.ne_elements (OrderBook.mem_front (walk_left_suffix.subset he))
    rw [h.orderAt]
    exact Function.update_of_ne hne ..
  have hbehind : heldAt me'.orderBook.orderAt p (me.orderBook.behind crosses a) =
      heldAt me.orderBook.orderAt p (me.orderBook.behind crosses a) := by
    refine heldAt_congr fun e he => h.orderAt_of_ne (hready.ne_elements (hmem e he)) ?_
    intro x hx hvalue
    have hnodup := hready.wf.layout.elements_nodup (me.orderBook.opposing a)
    obtain ⟨-, rfl⟩ := hready.wf.element_unique (OrderBook.mem_front hx) (hmem e he) hvalue
    rw [← hsplit, List.nodup_append] at hnodup
    exact hnodup.2.2 x hx x he rfl
  have hwalk := walk_heldAt (m := me.orderBook.orderAt) (p := p) (clear_front hready)
  rw [h.wf.volumeAt_eq, hready.wf.volumeAt_eq, h.opposing, ← hsplit, heldAt_append, heldAt_append,
    hleft, hbehind, h.trades_eq, ← hwalk]
  ring

/-- An order that rests adds what is left of it to its side. -/
theorem Entered.volumeAt_own (h : Entered me me' a trades) (hready : me.orderBook.Ready a)
    (p : Decimal) :
    me'.orderBook.volumeAt (me.orderBook.orderAt a).side.isBid p =
      me.orderBook.volumeAt (me.orderBook.orderAt a).side.isBid p
        + if (me'.orderBook.orderAt a).Rests ∧ (me'.orderBook.orderAt a).price = p
          then (me'.orderBook.orderAt a).remainingQuantity else 0 := by
  have hold : heldAt me'.orderBook.orderAt p
      (me.orderBook.elements (me.orderBook.orderAt a).side.isBid) =
      heldAt me.orderBook.orderAt p
        (me.orderBook.elements (me.orderBook.orderAt a).side.isBid) := by
    refine heldAt_congr fun e he => h.orderAt_of_ne (hready.ne_elements he) ?_
    intro x hx hvalue
    have hside := (hready.wf.element_unique (OrderBook.mem_front hx) he hvalue).1
    exact absurd hside (Bool.not_ne_self _)
  rw [h.wf.volumeAt_eq, hready.wf.volumeAt_eq, h.own]
  by_cases hr : (me'.orderBook.orderAt a).Rests
  · rw [if_pos hr, heldAt_perm (List.perm_orderedInsert ..), heldAt_cons, hold]
    simp only [hr, true_and]
    exact add_comm ..
  · rw [if_neg hr, hold, if_neg fun hboth => hr hboth.1, add_zero]

/-- A cancelled order takes away what was left of it. -/
theorem Withdrawn.volumeAt {e : Element} (h : Withdrawn me me' e) (hw : me.orderBook.WF)
    {b : Bool} (he : e ∈ me.orderBook.elements b) (b' : Bool) (p : Decimal) :
    me'.orderBook.volumeAt b' p = me.orderBook.volumeAt b' p
      - if b' = b ∧ (me.orderBook.orderAt e.value).price = p
        then (me.orderBook.orderAt e.value).remainingQuantity else 0 := by
  have hrest : heldAt me'.orderBook.orderAt p ((me.orderBook.elements b').filter (· ≠ e)) =
      heldAt me.orderBook.orderAt p ((me.orderBook.elements b').filter (· ≠ e)) := by
    refine heldAt_congr fun x hx => ?_
    obtain ⟨hx, hne⟩ := List.mem_filter.mp hx
    have hvalue : x.value ≠ e.value := fun hvalue =>
      (of_decide_eq_true hne) (hw.element_unique hx he hvalue).2
    rw [h.orderAt, Function.update_of_ne hvalue]
  rw [h.wf.volumeAt_eq, hw.volumeAt_eq, h.elements, hrest]
  by_cases hb : b' = b
  · subst hb
    have hperm := heldAt_perm (m := me.orderBook.orderAt) (p := p) (List.perm_cons_erase he)
    have herase : (me.orderBook.elements b').erase e =
        (me.orderBook.elements b').filter (· ≠ e) := by
      rw [(hw.layout.elements_nodup b').erase_eq_filter]
      refine List.filter_congr fun x _ => ?_
      by_cases hx : x = e <;> simp [hx]
    rw [herase, heldAt_cons] at hperm
    simp only [true_and]
    rw [hperm, add_sub_cancel_left]
  · have hmem : e ∉ me.orderBook.elements b' := fun hmem =>
      hb (hw.element_unique hmem he rfl).1
    rw [if_neg fun hboth => hb hboth.1, sub_zero, List.filter_eq_self.mpr]
    exact fun x hx => decide_eq_true fun heq => hmem (heq ▸ hx)

/-! ## Runs -/

theorem Entered.remaining_nonneg (h : Entered me me' a trades) (hready : me.orderBook.Ready a)
    (hvalid : (me.orderBook.orderAt a).isValid = true) :
    0 ≤ (me'.orderBook.orderAt a).remainingQuantity := by
  rw [h.orderAt]
  dsimp only
  rw [Function.update_self, Order.closed_of_status Order.remainingQuantity fun _ _ => rfl]
  exact walk_nonneg (clear_front hready).ne
    (sub_nonneg.mpr (Order.isValid_iff.mp hvalid).2.2.2.2.2.2)

theorem Entered.trades_pos (h : Entered me me' a trades) (hready : me.orderBook.Ready a)
    (hstock : me.Stocked) : ∀ t ∈ trades, 0 < t.quantity := by
  rw [h.trades_eq]
  exact (walk_fillable (clear_front hready) fun e he => hstock _ e (OrderBook.mem_front he)).2

theorem Entered.stocked (h : Entered me me' a trades) (hready : me.orderBook.Ready a)
    (hvalid : (me.orderBook.orderAt a).isValid = true) (hstock : me.Stocked) : me'.Stocked := by
  intro b e he
  rcases (h.mem_elements hready.wf).mp he with ⟨hold, hfront⟩ | ⟨rfl, -, hrests⟩
  · have hne := hready.ne_elements hold
    by_cases hmem : e ∈ me.orderBook.front crosses a
    · have hleft := (walk_fillable (clear_front hready) fun e he =>
        hstock _ e (OrderBook.mem_front he)).1 e (hfront hmem)
      rw [h.orderAt]
      dsimp only
      rwa [Function.update_of_ne hne]
    · rw [h.orderAt_of_ne hne fun x hx hvalue => hmem ?_]
      · exact hstock b e hold
      · obtain ⟨-, rfl⟩ := hready.wf.element_unique (OrderBook.mem_front hx) hold hvalue
        exact hx
  · refine ⟨?_, lt_of_le_of_ne (h.remaining_nonneg hready hvalid) fun hzero => ?_, hrests.2.1⟩
    · rw [OrderBook.added, h.of_terms Order.side fun _ => rfl]
      rintro hside
      simpa [hside] using (Order.isValid_iff.mp hvalid).2.2.1
    · exact hrests.2.2 (Order.isFilled_iff_remaining.mpr hzero.symm)

theorem Stocked.alloc (h : me.Stocked) (hs : me.Sound requests) (o : Order) :
    (me.alloc o).Stocked := by
  intro b e he
  rw [(me.sameShape_alloc o).elements] at he
  rw [alloc_of_lt (hs.wf.value_lt he)]
  exact h b e he

theorem Handled.stocked (h : Handled me me' request trades) (hs : me.Sound requests)
    (hfresh : FreshIDs (requests ++ [request])) (hstock : me.Stocked) : me'.Stocked := by
  cases h with
  | @entered o trades hvalid h =>
      exact h.stocked (hs.ready hfresh) ((alloc_self me o).symm ▸ hvalid) (hstock.alloc hs o)
  | @rejected o hvalid h =>
      subst h
      intro b e he
      rw [reject_elements] at he
      have hne := (hs.ready hfresh).ne_elements he
      have horder : ((me.alloc o).reject me.orderBook.nextOrder).orderBook.orderAt e.value =
          (me.alloc o).orderBook.orderAt e.value := Function.update_of_ne hne ..
      rw [horder]
      exact hstock.alloc hs o b e he
  | @withdrawn b l e he h =>
      intro b' x hx
      rw [h.elements] at hx
      obtain ⟨hx, hne⟩ := List.mem_filter.mp hx
      have hvalue : x.value ≠ e.value := fun hvalue => (of_decide_eq_true hne)
        (hs.wf.element_unique hx (OrderBook.mem_elements.mpr ⟨l, he⟩) hvalue).2
      rw [h.orderAt, Function.update_of_ne hvalue]
      exact hstock b' x hx
  | notFound _ h => exact h ▸ hstock

theorem Run.stocked {me₀ : MatchingEngine T} (h₀ : me₀.Initial) (h : Run me₀ requests me trades)
    (hfresh : FreshIDs requests) : me.Stocked := by
  refine (h.induct h₀ (fun _ => True) (P := fun _ me _ => me.Stocked) ?_
    (fun hs hfresh _ hh hstock => hh.stocked hs hfresh hstock) hfresh fun _ _ => trivial).2
  obtain ⟨instrument, hbook⟩ := h₀
  intro b e he
  rw [hbook, OrderBook.newOrderBook_elements] at he
  cases he

end MatchingEngine

end TradingBackend
