import Mathlib.Tactic.Linarith
import TradingBackend.Engine

/-!
# The walk along a queue

What matching is for, without the book: an aggressor walks along a list
of resting orders and trades with one after the other. A trade only
writes the two orders (`tradeOrders`) and makes a `Trade` (`tradeOf`);
an order that is filled by it drops out of the list, and the walk ends
when the aggressor is filled or the list is exhausted.

`walk_invariant` is the induction rule: what every trade of the walk
preserves holds at its end. `walk_append` cuts a walk at a level
boundary, which is where the engine looks at the book again.
-/

namespace TradingBackend

/-! ## One trade -/

def matchQty (orderAt : OrderRef → Order) (a r : OrderRef) : Decimal :=
  min (orderAt a).remainingQuantity (orderAt r).remainingQuantity

/-- The orders after a trade of aggressor `a` with the resting order `r`. -/
def tradeOrders (orderAt : OrderRef → Order) (a r : OrderRef) : OrderRef → Order :=
  let q := matchQty orderAt a r
  let m := Function.update orderAt a ((orderAt a).fill q)
  Function.update m r ((m r).fill q)

def tradeOf (orderAt : OrderRef → Order) (a r : OrderRef) : Trade :=
  let m := tradeOrders orderAt a r
  let buyOrder := if (orderAt a).side = .buy then a else r
  let sellOrder := if (orderAt a).side = .buy then r else a
  { buyOrderID := (orderAt buyOrder).id
    sellOrderID := (orderAt sellOrder).id
    instrument := (orderAt a).instrument
    price := (orderAt r).price
    quantity := matchQty orderAt a r
    isBuyerPartialFill := decide ((m buyOrder).status = .partiallyFilled)
    isSellerPartialFill := decide ((m sellOrder).status = .partiallyFilled)
    buyerFilledQty := (m buyOrder).filledQuantity
    sellerFilledQty := (m sellOrder).filledQuantity
    buyerRemainingQty := (m buyOrder).remainingQuantity
    sellerRemainingQty := (m sellOrder).remainingQuantity }

def Trade.Names (t : Trade) (id : UUID) : Prop := t.buyOrderID = id ∨ t.sellOrderID = id

instance (t : Trade) (id : UUID) : Decidable (t.Names id) := inferInstanceAs (Decidable (_ ∨ _))

theorem tradeOf_names {m : OrderRef → Order} {a r : OrderRef} {id : UUID} :
    (tradeOf m a r).Names id ↔ (m a).id = id ∨ (m r).id = id := by
  by_cases hside : (m a).side = .buy
  · simp only [Trade.Names, tradeOf, hside, if_true]
  · simp only [Trade.Names, tradeOf, hside, if_false]
    exact or_comm

theorem OrderBook.executeTrade_eq {T : Type} (ob : OrderBook T) (a r : OrderRef) :
    ob.executeTrade a r =
      ({ ob with orderAt := tradeOrders ob.orderAt a r }, tradeOf ob.orderAt a r) := by
  by_cases hside : (ob.orderAt a).side = .buy
  · simp only [OrderBook.executeTrade, tradeOf, hside, if_true]
    rfl
  · simp only [OrderBook.executeTrade, tradeOf, hside, if_false]
    rfl

section

variable {m : OrderRef → Order} {a r r' : OrderRef}

theorem tradeOrders_aggressor (hne : r ≠ a) :
    tradeOrders m a r a = (m a).fill (matchQty m a r) := by
  simp only [tradeOrders, Function.update_of_ne (Ne.symm hne), Function.update_self]

theorem tradeOrders_resting (hne : r ≠ a) :
    tradeOrders m a r r = (m r).fill (matchQty m a r) := by
  simp only [tradeOrders, Function.update_self, Function.update_of_ne hne]

theorem tradeOrders_other (ha : r' ≠ a) (hr : r' ≠ r) : tradeOrders m a r r' = m r' := by
  simp only [tradeOrders, Function.update_of_ne hr, Function.update_of_ne ha]

/-- Anything a fill leaves alone, a trade leaves alone in every order. -/
theorem tradeOrders_of_fill {β : Type} (f : Order → β) (hf : ∀ o q, f (o.fill q) = f o)
    (m : OrderRef → Order) (a r r' : OrderRef) : f (tradeOrders m a r r') = f (m r') := by
  simp only [tradeOrders]
  by_cases hr : r' = r
  · subst hr
    rw [Function.update_self, hf]
    by_cases ha : r' = a
    · subst ha
      rw [Function.update_self, hf]
    · rw [Function.update_of_ne ha]
  · rw [Function.update_of_ne hr]
    by_cases ha : r' = a
    · subst ha
      rw [Function.update_self, hf]
    · rw [Function.update_of_ne ha]

@[simp] theorem tradeOrders_id : (tradeOrders m a r r').id = (m r').id :=
  tradeOrders_of_fill Order.id (fun _ _ => rfl) m a r r'

@[simp] theorem tradeOrders_side : (tradeOrders m a r r').side = (m r').side :=
  tradeOrders_of_fill Order.side (fun _ _ => rfl) m a r r'

@[simp] theorem tradeOrders_type : (tradeOrders m a r r').type = (m r').type :=
  tradeOrders_of_fill Order.type (fun _ _ => rfl) m a r r'

@[simp] theorem tradeOrders_price : (tradeOrders m a r r').price = (m r').price :=
  tradeOrders_of_fill Order.price (fun _ _ => rfl) m a r r'

@[simp] theorem tradeOrders_quantity : (tradeOrders m a r r').quantity = (m r').quantity :=
  tradeOrders_of_fill Order.quantity (fun _ _ => rfl) m a r r'

@[simp] theorem tradeOrders_instrument : (tradeOrders m a r r').instrument = (m r').instrument :=
  tradeOrders_of_fill Order.instrument (fun _ _ => rfl) m a r r'

theorem tradeOrders_tail {e x : Element} {queue : List Element}
    (hne : ∀ y ∈ e :: queue, y.value ≠ a) (hnodup : ((e :: queue).map Element.value).Nodup)
    (hx : x ∈ queue) : tradeOrders m a e.value x.value = m x.value := by
  rw [List.map_cons, List.nodup_cons] at hnodup
  refine tradeOrders_other (hne x (List.mem_cons_of_mem _ hx)) fun heq => ?_
  exact hnodup.1 (heq ▸ List.mem_map_of_mem hx)

theorem resting_isFilled (hne : r ≠ a) :
    (tradeOrders m a r r).isFilled = true ↔
      (m r).remainingQuantity ≤ (m a).remainingQuantity := by
  rw [Order.isFilled_iff_remaining, tradeOrders_resting hne, Order.fill_remainingQuantity,
    sub_eq_zero, matchQty, eq_comm, min_eq_right_iff]

/-- A trade that leaves something of the resting order fills the
aggressor. -/
theorem aggressor_filled (hne : r ≠ a) (h : ¬(tradeOrders m a r r).isFilled = true) :
    (tradeOrders m a r a).remainingQuantity = 0 := by
  rw [resting_isFilled hne, not_le] at h
  rw [tradeOrders_aggressor hne, Order.fill_remainingQuantity, matchQty, min_eq_left h.le, sub_self]

end

/-! ## The walk -/

structure Sweep where
  orderAt : OrderRef → Order
  trades : List Trade
  left : List Element

/-- The walk of aggressor `a` along a list of resting orders. -/
def walk (a : OrderRef) (orderAt : OrderRef → Order) : List Element → Sweep
  | [] => ⟨orderAt, [], []⟩
  | e :: queue =>
      if 0 < (orderAt a).remainingQuantity then
        let m := tradeOrders orderAt a e.value
        if (m e.value).isFilled then
          let s := walk a m queue
          ⟨s.orderAt, tradeOf orderAt a e.value :: s.trades, s.left⟩
        else ⟨m, [tradeOf orderAt a e.value], e :: queue⟩
      else ⟨orderAt, [], e :: queue⟩

section

variable {a : OrderRef} {m : OrderRef → Order} {e : Element} {queue : List Element}

theorem walk_done (h : ¬0 < (m a).remainingQuantity) : walk a m queue = ⟨m, [], queue⟩ := by
  cases queue with
  | nil => rfl
  | cons e queue => rw [walk, if_neg h]

theorem walk_filled (h : 0 < (m a).remainingQuantity)
    (hf : (tradeOrders m a e.value e.value).isFilled = true) :
    walk a m (e :: queue) =
      { walk a (tradeOrders m a e.value) queue with
        trades := tradeOf m a e.value :: (walk a (tradeOrders m a e.value) queue).trades } := by
  simp only [walk, h, hf, if_true]

theorem walk_partly (h : 0 < (m a).remainingQuantity)
    (hf : ¬(tradeOrders m a e.value e.value).isFilled = true) :
    walk a m (e :: queue) =
      ⟨tradeOrders m a e.value, [tradeOf m a e.value], e :: queue⟩ := by
  rw [walk, if_pos h]
  exact if_neg hf

/-- A walk is a trade with the first order and a walk along what is left
then. -/
theorem walk_step (queue : List Element) (hne : e.value ≠ a) (h : 0 < (m a).remainingQuantity) :
    walk a m (e :: queue) =
      let next := walk a (tradeOrders m a e.value)
        (if (tradeOrders m a e.value e.value).isFilled then queue else e :: queue)
      { next with trades := tradeOf m a e.value :: next.trades } := by
  by_cases hf : (tradeOrders m a e.value e.value).isFilled = true
  · rw [walk_filled h hf, if_pos hf]
  · have hdone : ¬0 < (tradeOrders m a e.value a).remainingQuantity := by
      rw [aggressor_filled hne hf]
      exact lt_irrefl 0
    rw [walk_partly h hf, if_neg hf, walk_done hdone]

/-- What every trade of a walk preserves holds at its end. `P` may speak
of the orders, the trades made so far and the list that is left. -/
theorem walk_invariant {P : (OrderRef → Order) → List Trade → List Element → Prop}
    (hstep : ∀ m ts e queue, P m ts (e :: queue) → 0 < (m a).remainingQuantity →
      P (tradeOrders m a e.value) (ts ++ [tradeOf m a e.value])
        (if (tradeOrders m a e.value e.value).isFilled then queue else e :: queue))
    (ts : List Trade) (h : P m ts queue) :
    P (walk a m queue).orderAt (ts ++ (walk a m queue).trades) (walk a m queue).left := by
  induction queue generalizing m ts with
  | nil => simpa [walk] using h
  | cons e queue ih =>
      by_cases hpos : 0 < (m a).remainingQuantity
      · have hnext := hstep m ts e queue h hpos
        by_cases hf : (tradeOrders m a e.value e.value).isFilled = true
        · rw [if_pos hf] at hnext
          rw [walk_filled hpos hf]
          simpa using ih _ hnext
        · rw [if_neg hf] at hnext
          rw [walk_partly hpos hf]
          exact hnext
      · rw [walk_done hpos]
        simpa using h

/-- The rule for what does not depend on the list that is left. -/
theorem walk_invariant_mem {P : (OrderRef → Order) → List Trade → Prop}
    (hstep : ∀ m ts, ∀ e ∈ queue, P m ts → 0 < (m a).remainingQuantity →
      P (tradeOrders m a e.value) (ts ++ [tradeOf m a e.value]))
    (h : P m []) : P (walk a m queue).orderAt (walk a m queue).trades := by
  refine (walk_invariant (P := fun m ts left => P m ts ∧ ∀ e ∈ left, e ∈ queue) ?_ []
    ⟨h, fun _ he => he⟩).1
  rintro m ts e left ⟨hP, hmem⟩ hpos
  refine ⟨hstep m ts e (hmem e (List.mem_cons_self ..)) hP hpos, ?_⟩
  split_ifs
  · exact fun x hx => hmem x (List.mem_cons_of_mem _ hx)
  · exact hmem

/-- Something is left of the list only when the aggressor is filled. -/
theorem walk_left (hne : ∀ e ∈ queue, e.value ≠ a) (h : (walk a m queue).left ≠ []) :
    ¬0 < ((walk a m queue).orderAt a).remainingQuantity := by
  induction queue generalizing m with
  | nil => exact absurd rfl h
  | cons e queue ih =>
      by_cases hpos : 0 < (m a).remainingQuantity
      · by_cases hf : (tradeOrders m a e.value e.value).isFilled = true
        · rw [walk_filled hpos hf] at h ⊢
          exact ih (fun x hx => hne x (List.mem_cons_of_mem _ hx)) h
        · rw [walk_partly hpos hf]
          dsimp only
          rw [aggressor_filled (hne e (List.mem_cons_self ..)) hf]
          exact lt_irrefl _
      · rw [walk_done hpos]
        exact hpos

theorem walk_left_suffix : (walk a m queue).left <:+ queue := by
  induction queue generalizing m with
  | nil => exact List.suffix_refl _
  | cons e queue ih =>
      by_cases hpos : 0 < (m a).remainingQuantity
      · by_cases hf : (tradeOrders m a e.value e.value).isFilled = true
        · rw [walk_filled hpos hf]
          exact ih.trans (List.suffix_cons ..)
        · rw [walk_partly hpos hf]
      · rw [walk_done hpos]

/-- A walk along two lists: along the first, then - if that one was
exhausted - along the second. -/
theorem walk_append (hne : ∀ e ∈ queue, e.value ≠ a) (rest : List Element) :
    walk a m (queue ++ rest) =
      if (walk a m queue).left = [] then
        { walk a (walk a m queue).orderAt rest with
          trades := (walk a m queue).trades
            ++ (walk a (walk a m queue).orderAt rest).trades }
      else { walk a m queue with left := (walk a m queue).left ++ rest } := by
  induction queue generalizing m with
  | nil => simp [walk]
  | cons e queue ih =>
      rw [List.cons_append]
      by_cases hpos : 0 < (m a).remainingQuantity
      · by_cases hf : (tradeOrders m a e.value e.value).isFilled = true
        · rw [walk_filled hpos hf, walk_filled hpos hf,
            ih fun x hx => hne x (List.mem_cons_of_mem _ hx)]
          by_cases hleft : (walk a (tradeOrders m a e.value) queue).left = []
          · simp [hleft]
          · simp [hleft]
        · rw [walk_partly hpos hf, walk_partly hpos hf]
          simp
      · rw [walk_done hpos, walk_done hpos]
        simp

/-- Anything a fill leaves alone, a walk leaves alone. -/
theorem walk_of_fill {β : Type} (f : Order → β) (hf : ∀ o q, f (o.fill q) = f o)
    (a : OrderRef) (m : OrderRef → Order) (queue : List Element) (r : OrderRef) :
    f ((walk a m queue).orderAt r) = f (m r) :=
  walk_invariant_mem (P := fun m' _ => f (m' r) = f (m r))
    (fun _ _ _ _ h _ => (tradeOrders_of_fill f hf ..).trans h) rfl

/-- Orders outside the list, other than the aggressor, are not touched. -/
theorem walk_other {r : OrderRef} (ha : r ≠ a) (hr : ∀ e ∈ queue, e.value ≠ r) :
    (walk a m queue).orderAt r = m r :=
  walk_invariant_mem (P := fun m' _ => m' r = m r)
    (fun _ _ e he h _ => (tradeOrders_other ha (hr e he).symm).trans h) rfl

theorem walk_gone (hne : ∀ e ∈ queue, e.value ≠ a) (hnodup : (queue.map Element.value).Nodup)
    {x : Element} (hx : x ∈ queue) :
    x ∈ (walk a m queue).left ∨ ((walk a m queue).orderAt x.value).isFilled = true := by
  induction queue generalizing m with
  | nil => cases hx
  | cons e queue ih =>
      rw [List.map_cons, List.nodup_cons] at hnodup
      have hne' : ∀ y ∈ queue, y.value ≠ a := fun y hy => hne y (List.mem_cons_of_mem _ hy)
      by_cases hpos : 0 < (m a).remainingQuantity
      · by_cases hf : (tradeOrders m a e.value e.value).isFilled = true
        · rw [walk_filled hpos hf]
          rcases List.mem_cons.mp hx with rfl | hx
          · refine Or.inr ?_
            dsimp only
            rw [walk_other (hne x (List.mem_cons_self ..))]
            · exact hf
            · exact fun y hy hvalue => hnodup.1 (hvalue ▸ List.mem_map_of_mem hy)
          · exact ih hne' hnodup.2 hx
        · rw [walk_partly hpos hf]
          exact Or.inl hx
      · rw [walk_done hpos]
        exact Or.inl hx

/-- The trades of a walk are between the aggressor and orders of the
list. -/
theorem walk_trades_names {t : Trade} (ht : t ∈ (walk a m queue).trades) :
    ∃ e ∈ queue, ∀ id, t.Names id ↔ (m a).id = id ∨ (m e.value).id = id := by
  refine (walk_invariant_mem (a := a) (m := m)
    (P := fun m' ts => (∀ r, (m' r).id = (m r).id) ∧ ∀ t ∈ ts, ∃ e ∈ queue, ∀ id,
      t.Names id ↔ (m a).id = id ∨ (m e.value).id = id) ?_
    ⟨fun _ => rfl, List.forall_mem_nil _⟩).2 t ht
  rintro m' ts e he ⟨hid, hts⟩ -
  refine ⟨fun r => tradeOrders_id.trans (hid r), List.forall_mem_append.mpr ⟨hts, ?_⟩⟩
  refine List.forall_mem_singleton.mpr ⟨e, he, fun id => ?_⟩
  rw [tradeOf_names, hid, hid]

theorem walk_nonneg (hne : ∀ e ∈ queue, e.value ≠ a) (h : 0 ≤ (m a).remainingQuantity) :
    0 ≤ ((walk a m queue).orderAt a).remainingQuantity := by
  refine walk_invariant_mem (P := fun m' _ => 0 ≤ (m' a).remainingQuantity)
    (fun m' _ e he _ _ => ?_) h
  rw [tradeOrders_aggressor (hne e he), Order.fill_remainingQuantity, sub_nonneg]
  exact min_le_left ..

/-- A walk ends with nothing left of the list, or nothing of the
aggressor. -/
theorem walk_left_eq_nil (hne : ∀ e ∈ queue, e.value ≠ a) (h : 0 < (m a).remainingQuantity)
    (hf : ¬((walk a m queue).orderAt a).isFilled = true) : (walk a m queue).left = [] := by
  by_contra hleft
  refine walk_left hne hleft (lt_of_le_of_ne (walk_nonneg hne h.le) fun hzero => hf ?_)
  exact Order.isFilled_iff_remaining.mpr hzero.symm

end

end TradingBackend
