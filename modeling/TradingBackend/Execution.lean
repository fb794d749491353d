import TradingBackend.Walk

/-!
# Execution against a list of orders

The walk without the memory: the resting orders are a list of values, and an
aggressor trades with them from the front. `walk_execute` says that a walk does
this to the orders its elements point at, as long as they point at different
orders. Two walks that start from different memories can so be compared by
comparing lists.
-/

namespace TradingBackend

def tradeBetween (a r : Order) : Trade :=
  let q := min a.remainingQuantity r.remainingQuantity
  let buyer := if a.side = .buy then a else r
  let seller := if a.side = .buy then r else a
  { buyOrderID := buyer.id
    sellOrderID := seller.id
    instrument := a.instrument
    price := r.price
    quantity := q
    isBuyerPartialFill := decide ((buyer.fill q).status = .partiallyFilled)
    isSellerPartialFill := decide ((seller.fill q).status = .partiallyFilled)
    buyerFilledQty := (buyer.fill q).filledQuantity
    sellerFilledQty := (seller.fill q).filledQuantity
    buyerRemainingQty := (buyer.fill q).remainingQuantity
    sellerRemainingQty := (seller.fill q).remainingQuantity }

/-- What is left of the aggressor and of the orders it met, and the trades. -/
structure Execution where
  aggressor : Order
  trades : List Trade
  left : List Order

/-- Aggressor `a` trades with the orders, front to back. -/
def execute (a : Order) : List Order → Execution
  | [] => ⟨a, [], []⟩
  | r :: queue =>
      if 0 < a.remainingQuantity then
        let q := min a.remainingQuantity r.remainingQuantity
        if r.remainingQuantity ≤ a.remainingQuantity then
          let x := execute (a.fill q) queue
          ⟨x.aggressor, tradeBetween a r :: x.trades, x.left⟩
        else ⟨a.fill q, [tradeBetween a r], r.fill q :: queue⟩
      else ⟨a, [], r :: queue⟩

section

variable {a r : Order} {queue : List Order}

theorem execute_done (h : ¬0 < a.remainingQuantity) : execute a queue = ⟨a, [], queue⟩ := by
  cases queue with
  | nil => rfl
  | cons r queue => rw [execute, if_neg h]

theorem execute_filled (h : 0 < a.remainingQuantity)
    (hr : r.remainingQuantity ≤ a.remainingQuantity) :
    execute a (r :: queue) =
      let x := execute (a.fill r.remainingQuantity) queue
      { x with trades := tradeBetween a r :: x.trades } := by
  simp only [execute, h, hr, if_true, min_eq_right]

theorem execute_partly (h : 0 < a.remainingQuantity)
    (hr : a.remainingQuantity < r.remainingQuantity) :
    execute a (r :: queue) =
      ⟨a.fill a.remainingQuantity, [tradeBetween a r], r.fill a.remainingQuantity :: queue⟩ := by
  simp only [execute, h, not_le.mpr hr, if_true, if_false, min_eq_left hr.le]

theorem execute_of_no_trades (h : (execute a queue).trades = []) :
    execute a queue = ⟨a, [], queue⟩ := by
  cases queue with
  | nil => rfl
  | cons r queue =>
      by_cases hpos : 0 < a.remainingQuantity
      · rcases le_or_gt r.remainingQuantity a.remainingQuantity with hr | hr
        · rw [execute_filled hpos hr] at h
          cases h
        · rw [execute_partly hpos hr] at h
          cases h
      · exact execute_done hpos

/-- What is left of the orders in front is not reached by more orders behind them. -/
theorem execute_append (queue rest : List Order) :
    execute a (queue ++ rest) =
      if (execute a queue).left = [] then
        { execute (execute a queue).aggressor rest with
          trades := (execute a queue).trades
            ++ (execute (execute a queue).aggressor rest).trades }
      else { execute a queue with left := (execute a queue).left ++ rest } := by
  induction queue generalizing a with
  | nil => simp [execute]
  | cons r queue ih =>
      rw [List.cons_append]
      by_cases hpos : 0 < a.remainingQuantity
      · rcases le_or_gt r.remainingQuantity a.remainingQuantity with hr | hr
        · rw [execute_filled hpos hr, execute_filled hpos hr, ih]
          by_cases hleft : (execute (a.fill r.remainingQuantity) queue).left = []
          · simp [hleft]
          · simp [hleft]
        · rw [execute_partly hpos hr, execute_partly hpos hr]
          simp
      · rw [execute_done hpos, execute_done hpos]
        simp

/-- Anything a fill leaves alone, an execution leaves alone in the aggressor. -/
theorem execute_aggressor_of_fill {β : Type} (f : Order → β) (hf : ∀ o q, f (o.fill q) = f o)
    (a : Order) (queue : List Order) : f (execute a queue).aggressor = f a := by
  induction queue generalizing a with
  | nil => rfl
  | cons r queue ih =>
      by_cases hpos : 0 < a.remainingQuantity
      · rcases le_or_gt r.remainingQuantity a.remainingQuantity with hr | hr
        · rw [execute_filled hpos hr]
          exact (ih _).trans (hf ..)
        · rw [execute_partly hpos hr]
          exact hf ..
      · rw [execute_done hpos]

theorem forall_mem_execute_left {P : Order → Prop} (hP : ∀ o q, P o → P (o.fill q))
    (h : ∀ o ∈ queue, P o) : ∀ o ∈ (execute a queue).left, P o := by
  induction queue generalizing a with
  | nil => exact List.forall_mem_nil _
  | cons r queue ih =>
      obtain ⟨hr, hqueue⟩ := List.forall_mem_cons.mp h
      by_cases hpos : 0 < a.remainingQuantity
      · rcases le_or_gt r.remainingQuantity a.remainingQuantity with hle | hlt
        · rw [execute_filled hpos hle]
          exact ih hqueue
        · rw [execute_partly hpos hlt]
          exact List.forall_mem_cons.mpr ⟨hP _ _ hr, hqueue⟩
      · rw [execute_done hpos]
        exact h

/-- More orders behind the list can only add trades. -/
theorem execute_trades_append (a : Order) (queue rest : List Order) :
    (execute a queue).trades <+: (execute a (queue ++ rest)).trades := by
  rw [execute_append]
  split_ifs
  · exact List.prefix_append ..
  · exact List.prefix_refl _

/-- What trades, fills and the remaining quantity do not depend on may be changed in
the aggressor. -/
theorem execute_map {f : Order → Order} (hfill : ∀ o q, f (o.fill q) = (f o).fill q)
    (hremaining : ∀ o, (f o).remainingQuantity = o.remainingQuantity)
    (htrade : ∀ o r, tradeBetween (f o) r = tradeBetween o r) (a : Order) (queue : List Order) :
    execute (f a) queue =
      { execute a queue with aggressor := f (execute a queue).aggressor } := by
  induction queue generalizing a with
  | nil => rfl
  | cons r queue ih =>
      by_cases hpos : 0 < a.remainingQuantity
      · have hpos' : 0 < (f a).remainingQuantity := (hremaining a).symm ▸ hpos
        rcases le_or_gt r.remainingQuantity a.remainingQuantity with hle | hlt
        · rw [execute_filled hpos' ((hremaining a).symm ▸ hle), execute_filled hpos hle, htrade,
            ← hfill, ih]
        · rw [execute_partly hpos' ((hremaining a).symm ▸ hlt), execute_partly hpos hlt, htrade,
            hremaining, hfill]
      · rw [execute_done hpos, execute_done ((hremaining a).symm ▸ hpos)]

theorem execute_nonneg (h : 0 ≤ a.remainingQuantity) :
    0 ≤ (execute a queue).aggressor.remainingQuantity := by
  induction queue generalizing a with
  | nil => exact h
  | cons r queue ih =>
      by_cases hpos : 0 < a.remainingQuantity
      · rcases le_or_gt r.remainingQuantity a.remainingQuantity with hle | hlt
        · rw [execute_filled hpos hle]
          refine ih ?_
          rw [Order.fill_remainingQuantity]
          exact sub_nonneg.mpr hle
        · rw [execute_partly hpos hlt]
          simp only [Order.fill_remainingQuantity, sub_self, le_refl]
      · rw [execute_done hpos]
        exact h

theorem execute_canBeFilled (h : a.canBeFilled = true) :
    (execute a queue).aggressor.canBeFilled = true
      ∨ (execute a queue).aggressor.isFilled = true := by
  induction queue generalizing a with
  | nil => exact Or.inl h
  | cons r queue ih =>
      by_cases hpos : 0 < a.remainingQuantity
      · rcases le_or_gt r.remainingQuantity a.remainingQuantity with hle | hlt
        · rw [execute_filled hpos hle]
          rcases Order.fill_canBeFilled h with hopen | hfilled
          · exact ih hopen
          · rw [execute_done (Order.isFilled_iff_remaining.mp hfilled).not_gt]
            exact Or.inr hfilled
        · rw [execute_partly hpos hlt]
          exact Order.fill_canBeFilled h
      · rw [execute_done hpos]
        exact Or.inl h

theorem execute_quantity_pos (h : ∀ r ∈ queue, 0 < r.remainingQuantity) :
    ∀ t ∈ (execute a queue).trades, 0 < t.quantity := by
  induction queue generalizing a with
  | nil => exact List.forall_mem_nil _
  | cons r queue ih =>
      obtain ⟨hr, hqueue⟩ := List.forall_mem_cons.mp h
      by_cases hpos : 0 < a.remainingQuantity
      · have hquantity : 0 < (tradeBetween a r).quantity := lt_min hpos hr
        rcases le_or_gt r.remainingQuantity a.remainingQuantity with hle | hlt
        · rw [execute_filled hpos hle]
          exact List.forall_mem_cons.mpr ⟨hquantity, ih hqueue⟩
        · rw [execute_partly hpos hlt]
          exact List.forall_mem_singleton.mpr hquantity
      · rw [execute_done hpos]
        exact List.forall_mem_nil _

end

/-! ## The walk executes -/

section

variable {a r : OrderRef} {m : OrderRef → Order} {e : Element} {queue : List Element}

theorem tradeOf_eq (hne : r ≠ a) : tradeOf m a r = tradeBetween (m a) (m r) := by
  by_cases hside : (m a).side = .buy
  · simp only [tradeOf, tradeBetween, if_pos hside, tradeOrders_aggressor hne,
      tradeOrders_resting hne, matchQty]
  · simp only [tradeOf, tradeBetween, if_neg hside, tradeOrders_aggressor hne,
      tradeOrders_resting hne, matchQty]

/-- The walk executes against the orders its elements point at. -/
theorem walk_execute (hne : ∀ x ∈ queue, x.value ≠ a) (hnodup : (queue.map Element.value).Nodup) :
    execute (m a) (queue.map fun x => m x.value) =
      let w := walk a m queue
      ⟨w.orderAt a, w.trades, w.left.map fun x => w.orderAt x.value⟩ := by
  induction queue generalizing m with
  | nil => rfl
  | cons e queue ih =>
      have hne' := hne e (List.mem_cons_self ..)
      have htail : (queue.map fun x => tradeOrders m a e.value x.value) =
          queue.map fun x => m x.value :=
        List.map_congr_left fun x hx => tradeOrders_tail hne hnodup hx
      rw [List.map_cons]
      by_cases hpos : 0 < (m a).remainingQuantity
      · by_cases hf : (tradeOrders m a e.value e.value).isFilled = true
        · have hle := (resting_isFilled hne').mp hf
          have hrest := ih (m := tradeOrders m a e.value)
            (fun x hx => hne x (List.mem_cons_of_mem _ hx)) (List.nodup_cons.mp hnodup).2
          rw [htail, tradeOrders_aggressor hne', matchQty, min_eq_right hle] at hrest
          rw [walk_filled hpos hf, execute_filled hpos hle, hrest, tradeOf_eq hne']
        · have hlt := not_le.mp fun hle => hf ((resting_isFilled hne').mpr hle)
          rw [walk_partly hpos hf, execute_partly hpos hlt, tradeOf_eq hne']
          dsimp only
          rw [List.map_cons, htail, tradeOrders_aggressor hne', tradeOrders_resting hne', matchQty,
            min_eq_left hlt.le]
      · rw [walk_done hpos, execute_done hpos]
        rfl

end

end TradingBackend
