import Mathlib.Data.List.DropRight
import TradingBackend.Greedy
import TradingBackend.LevelVolumes

/-!
# Splitting an order

One order of quantity `q₁ + q₂`, or two orders of quantities `q₁` and then `q₂`
on the same terms. Wherever the first of the two stops, in the middle of a
resting order, between two of them or past the last one, the second goes on
from there, and between them they do to the opposing side what the one order
does (`execute_split`). What the one order puts into the book the two put there
together.
-/

namespace TradingBackend

/-- An order on the terms of `o` with its own id, quantity and time. -/
def Order.part (o : Order) (id : UUID) (quantity : Decimal) (createdAt : Time) : Order :=
  { o with id := id, quantity := quantity, createdAt := createdAt }

/-- What trades of aggressors on side `side` take from the resting order `id` at a price. -/
def takenFrom (side : OrderSide) (id : UUID) (price : Decimal) (trades : List Trade) : Decimal :=
  (((trades.map (Trade.toFill side)).filter fun f => f.id = id ∧ f.price = price).map
    Fill.quantity).sum

section

variable {side : OrderSide} {id : UUID} {price : Decimal} {trades trades' : List Trade}

@[simp] theorem takenFrom_nil : takenFrom side id price [] = 0 := rfl

theorem takenFrom_append : takenFrom side id price (trades ++ trades') =
    takenFrom side id price trades + takenFrom side id price trades' := by
  simp only [takenFrom, List.map_append, List.filter_append, List.sum_append]

theorem takenFrom_cons {a r : Order} (hside : a.side = side) :
    takenFrom side id price (tradeBetween a r :: trades) =
      (if r.id = id ∧ r.price = price then min a.remainingQuantity r.remainingQuantity else 0)
        + takenFrom side id price trades := by
  unfold takenFrom
  rw [List.map_cons, ← hside, tradeBetween_toFill]
  split_ifs with h <;> simp [h]

end

/-! ## Two executions after each other -/

namespace Order

variable {o : Order} {q q' : Decimal}

/-- Where something is left, only the last filled quantity counts. -/
theorem setFilled_setFilled (hle : q ≤ q') (hlt : q' < o.quantity) :
    (o.setFilled q).setFilled q' = o.setFilled q' := by
  have hstatus : ((o.setFilled q).setFilled q').status = (o.setFilled q').status := by
    simp only [setFilled, nextStatus, isFilled, isPartiallyFilled, decide_eq_true_eq,
      if_neg hlt.ne, if_neg (hle.trans_lt hlt).ne]
    by_cases hpos : 0 < q'
    · rw [if_pos ⟨hpos, hlt⟩, if_pos ⟨hpos, hlt⟩]
    · have hnone : ¬(0 < q ∧ q < o.quantity) := fun h => hpos (h.1.trans_le hle)
      rw [if_neg fun h => hpos h.1, if_neg hnone, if_neg fun h => hpos h.1]
  exact congrArg (fun s => { o.setFilled q' with status := s }) hstatus

theorem fill_fill (hq' : 0 ≤ q') (h : q + q' < o.remainingQuantity) :
    (o.fill q).fill q' = o.fill (q + q') := by
  rw [fill, fill, fill, setFilled_filledQuantity, add_assoc]
  refine setFilled_setFilled (by linarith) ?_
  rw [remainingQuantity] at h
  linarith

end Order

/-- What the opposing side sees of two executions is the same. -/
structure Alike (side : OrderSide) (x x' : Execution) : Prop where
  left : x.left = x'.left
  remaining : x.aggressor.remainingQuantity = x'.aggressor.remainingQuantity
  taken : ∀ id price, takenFrom side id price x.trades = takenFrom side id price x'.trades

/-- Executions `x₁` and then `x₂` do together what `x` does. -/
structure Joined (side : OrderSide) (x x₁ x₂ : Execution) : Prop where
  left : x.left = x₂.left
  remaining : x.aggressor.remainingQuantity =
    x₁.aggressor.remainingQuantity + x₂.aggressor.remainingQuantity
  taken : ∀ id price, takenFrom side id price x.trades =
    takenFrom side id price x₁.trades + takenFrom side id price x₂.trades

section

variable {side : OrderSide} {a a₁ a₂ : Order} {queue : List Order}

/-- The opposing side sees of an aggressor the side and what it has left. -/
theorem execute_alike (hside : a.side = side) (hside₁ : a₁.side = side)
    (h : a.remainingQuantity = a₁.remainingQuantity) :
    Alike side (execute a queue) (execute a₁ queue) := by
  induction queue generalizing a a₁ with
  | nil => exact ⟨rfl, h, fun _ _ => rfl⟩
  | cons r queue ih =>
      by_cases hpos : 0 < a.remainingQuantity
      · have hpos₁ := h ▸ hpos
        rcases le_or_gt r.remainingQuantity a.remainingQuantity with hle | hlt
        · have hrest : Alike side (execute (a.fill r.remainingQuantity) queue)
              (execute (a₁.fill r.remainingQuantity) queue) :=
            ih hside hside₁ (by simp only [Order.fill_remainingQuantity, h])
          rw [execute_filled hpos hle, execute_filled hpos₁ (h ▸ hle)]
          refine ⟨hrest.left, hrest.remaining, fun id price => ?_⟩
          rw [takenFrom_cons hside, takenFrom_cons hside₁, h, hrest.taken]
        · rw [execute_partly hpos hlt, execute_partly hpos₁ (h ▸ hlt)]
          refine ⟨by rw [h], by simp only [Order.fill_remainingQuantity, h], fun id price => ?_⟩
          rw [takenFrom_cons hside, takenFrom_cons hside₁, h]
      · rw [execute_done hpos, execute_done (h ▸ hpos)]
        exact ⟨rfl, h, fun _ _ => rfl⟩

/-- The first order stops inside the resting order `r`, and the second goes on there. -/
theorem execute_split_within {r : Order} (hside : a.side = side) (hside₁ : a₁.side = side)
    (hside₂ : a₂.side = side) (h₁ : 0 < a₁.remainingQuantity) (h₂ : 0 ≤ a₂.remainingQuantity)
    (h : a.remainingQuantity = a₁.remainingQuantity + a₂.remainingQuantity)
    (hlt₁ : a₁.remainingQuantity < r.remainingQuantity) :
    Joined side (execute a (r :: queue)) (execute a₁ (r :: queue))
      (execute a₂ (r.fill a₁.remainingQuantity :: queue)) := by
  have hpos : 0 < a.remainingQuantity := h ▸ add_pos_of_pos_of_nonneg h₁ h₂
  have hr : (r.fill a₁.remainingQuantity).remainingQuantity =
      r.remainingQuantity - a₁.remainingQuantity := Order.fill_remainingQuantity
  rw [execute_partly h₁ hlt₁]
  rcases h₂.eq_or_lt with hzero | hpos₂
  · -- nothing is left to do
    have heq : a.remainingQuantity = a₁.remainingQuantity := by rw [h, ← hzero, add_zero]
    rw [execute_partly hpos (heq ▸ hlt₁), execute_done hzero.not_lt]
    refine ⟨by rw [heq], ?_, fun id price => ?_⟩
    · simp only [Order.fill_remainingQuantity, sub_self, ← hzero, add_zero]
    · rw [takenFrom_cons hside, takenFrom_cons hside₁, heq, takenFrom_nil, add_zero, add_zero]
  · rcases le_or_gt r.remainingQuantity a.remainingQuantity with hle | hlt
    · -- the second order fills `r`
      have hle₂ : (r.fill a₁.remainingQuantity).remainingQuantity ≤ a₂.remainingQuantity := by
        linarith
      have hrest : Alike side (execute (a.fill r.remainingQuantity) queue)
          (execute (a₂.fill (r.fill a₁.remainingQuantity).remainingQuantity) queue) := by
        refine execute_alike hside hside₂ ?_
        rw [Order.fill_remainingQuantity, Order.fill_remainingQuantity]
        linarith
      rw [execute_filled hpos hle, execute_filled hpos₂ hle₂]
      refine ⟨hrest.left, ?_, fun id price => ?_⟩
      · rw [Order.fill_remainingQuantity, sub_self, zero_add]
        exact hrest.remaining
      · dsimp only
        rw [takenFrom_cons hside, takenFrom_cons hside₁, takenFrom_cons hside₂, min_eq_right hle,
          min_eq_left hlt₁.le, min_eq_right hle₂, takenFrom_nil, add_zero, hrest.taken, ← add_assoc,
          Order.fill_id, Order.fill_price, hr]
        split_ifs <;> ring
    · -- and neither does the second
      have hlt₂ : a₂.remainingQuantity < (r.fill a₁.remainingQuantity).remainingQuantity := by
        linarith
      rw [execute_partly hpos hlt, execute_partly hpos₂ hlt₂]
      refine ⟨?_, ?_, fun id price => ?_⟩
      · rw [Order.fill_fill h₂ (h ▸ hlt), h]
      · simp only [Order.fill_remainingQuantity, sub_self, add_zero]
      · rw [takenFrom_cons hside, takenFrom_cons hside₁, takenFrom_cons hside₂, min_eq_left hlt.le,
          min_eq_left hlt₁.le, min_eq_left hlt₂.le, takenFrom_nil, add_zero, add_zero, add_zero,
          Order.fill_id, Order.fill_price, h]
        split_ifs <;> ring

theorem execute_split (hside : a.side = side) (hside₁ : a₁.side = side) (hside₂ : a₂.side = side)
    (h₁ : 0 ≤ a₁.remainingQuantity) (h₂ : 0 ≤ a₂.remainingQuantity)
    (h : a.remainingQuantity = a₁.remainingQuantity + a₂.remainingQuantity) :
    Joined side (execute a queue) (execute a₁ queue) (execute a₂ (execute a₁ queue).left) := by
  induction queue generalizing a a₁ with
  | nil => exact ⟨rfl, h, fun _ _ => (add_zero 0).symm⟩
  | cons r queue ih =>
      rcases h₁.eq_or_lt with hzero | hpos₁
      · -- the first order has nothing: the second does it alone
        have halike : Alike side (execute a (r :: queue)) (execute a₂ (r :: queue)) :=
          execute_alike hside hside₂ (by rw [h, ← hzero, zero_add])
        rw [execute_done hzero.not_lt]
        refine ⟨halike.left, ?_, fun id price => ?_⟩
        · rw [halike.remaining, ← hzero, zero_add]
        · rw [halike.taken, takenFrom_nil, zero_add]
      · rcases le_or_gt r.remainingQuantity a₁.remainingQuantity with hle₁ | hlt₁
        · -- the first order fills `r`
          have hpos : 0 < a.remainingQuantity := h ▸ add_pos_of_pos_of_nonneg hpos₁ h₂
          have hle : r.remainingQuantity ≤ a.remainingQuantity := by linarith
          have hrest : Joined side (execute (a.fill r.remainingQuantity) queue)
              (execute (a₁.fill r.remainingQuantity) queue) _ :=
            ih hside hside₁ (by rw [Order.fill_remainingQuantity]; linarith)
              (by simp only [Order.fill_remainingQuantity]; linarith)
          rw [execute_filled hpos hle, execute_filled hpos₁ hle₁]
          refine ⟨hrest.left, hrest.remaining, fun id price => ?_⟩
          dsimp only
          rw [takenFrom_cons hside, takenFrom_cons hside₁, min_eq_right hle, min_eq_right hle₁,
            hrest.taken, add_assoc]
        · have hwithin : Joined side (execute a (r :: queue)) (execute a₁ (r :: queue)) _ :=
            execute_split_within hside hside₁ hside₂ hpos₁ h₂ h hlt₁
          rwa [execute_partly hpos₁ hlt₁] at hwithin ⊢

end

/-! ## Two orders after each other -/

/-- What the orders of a list at price `p` have left. -/
def heldIn (p : Decimal) (queue : List Order) : Decimal :=
  ((queue.filter fun o => o.price = p).map Order.remainingQuantity).sum

theorem heldIn_cons (p : Decimal) (o : Order) (queue : List Order) :
    heldIn p (o :: queue) =
      (if o.price = p then o.remainingQuantity else 0) + heldIn p queue := by
  unfold heldIn
  split_ifs with h <;> simp [h]

namespace PlainBook

variable {book : PlainBook} {o o' : Order}

theorem heldIn_rest (p : Decimal) (b : Bool) (o : Order) (queue : List Order) :
    heldIn p (rest b o queue) =
      (if o.price = p then o.remainingQuantity else 0) + heldIn p queue := by
  rw [← heldIn_cons]
  exact (((List.perm_orderedInsert _ o queue).filter _).map _).sum_eq

/-- What a limit order has left goes to the volume at its price. -/
theorem heldIn_enter (book : PlainBook) (hvalid : o.isValid = true) (hopen : o.canBeFilled = true)
    (p : Decimal) :
    heldIn p (book.enter o o.side.isBid) =
      (if o.type = .limit ∧ o.price = p then (book.execution o).aggressor.remainingQuantity else 0)
        + heldIn p (book o.side.isBid) := by
  have hprice : (book.execution o).aggressor.closed.price = o.price :=
    (Order.closed_of_status Order.price (fun _ _ => rfl) _).trans
      (execute_aggressor_of_fill Order.price (fun _ _ => rfl) ..)
  have hremaining : (book.execution o).aggressor.closed.remainingQuantity =
      (book.execution o).aggressor.remainingQuantity :=
    Order.closed_of_status Order.remainingQuantity (fun _ _ => rfl) _
  rw [enter_self]
  simp only [rests_iff book hvalid hopen]
  by_cases hrests : o.type = .limit ∧ 0 < (book.execution o).aggressor.remainingQuantity
  · rw [if_pos hrests, heldIn_rest, hprice, hremaining]
    simp only [hrests.1, true_and]
  · rw [if_neg hrests]
    split_ifs with hlimit
    · have hnonneg : 0 ≤ (book.execution o).aggressor.remainingQuantity :=
        execute_nonneg (sub_nonneg.mpr (Order.isValid_iff.mp hvalid).2.2.2.2.2.2)
      rw [le_antisymm (not_lt.mp fun hpos => hrests ⟨hlimit.1, hpos⟩) hnonneg, zero_add]
    · exact (zero_add _).symm

/-- An order on the same terms finds what the first has left. -/
theorem front_enter (hside : o'.side = o.side) (hcrosses : crosses o' = crosses o) :
    (book.enter o).front o' = (book.execution o).left := by
  have hcross : ∀ r ∈ book.front o, crosses o r.price = true := by
    intro r hr
    rw [front] at hr
    have himp := List.mem_takeWhile_imp hr
    exact himp
  have hleft : ∀ r ∈ (book.execution o).left, crosses o r.price = true :=
    forall_mem_execute_left (P := fun r => crosses o r.price = true) (fun _ _ h => h) hcross
  have hbehind : (book.behind o).takeWhile (fun r => crosses o r.price) = [] := by
    refine List.append_left_eq_self.mp ((congrArg _ ?_).trans List.takeWhile_append_dropWhile)
    exact (List.dropWhile_idempotent ..).symm
  rw [front, hside, hcrosses, enter_other, List.takeWhile_append_of_pos hleft, hbehind,
    List.append_nil]

theorem behind_enter (hside : o'.side = o.side) (hcrosses : crosses o' = crosses o) :
    (book.enter o).behind o' = book.behind o := by
  have hfront := front_append_behind (book.enter o) o'
  rw [front_enter hside hcrosses, hside, enter_other] at hfront
  exact List.append_cancel_left hfront

section

variable {q₁ q₂ : Decimal}

theorem isValid_part {id : UUID} {q : Decimal} {t : Time} (ho : o.Submitted)
    (hq : 0 < q) (hquantity : 0 < o.quantity) : (o.part id q t).isValid = o.isValid := by
  have hfilled : (o.part id q t).filledQuantity = 0 := ho.filledQuantity
  rw [Bool.eq_iff_iff, Order.isValid_iff, Order.isValid_iff, hfilled, ho.filledQuantity]
  simp only [Order.part, hq, hq.le, hquantity, hquantity.le]

/-- What a part has left goes to the volume at the price of the whole. -/
theorem heldIn_enter_part {id : UUID} {q : Decimal} {t : Time} (book : PlainBook)
    (ho : o.Submitted) (hvalid : (o.part id q t).isValid = true) (p : Decimal) :
    heldIn p (book.enter (o.part id q t) o.side.isBid) =
      (if o.type = .limit ∧ o.price = p then
        (book.execution (o.part id q t)).aggressor.remainingQuantity else 0)
      + heldIn p (book o.side.isBid) :=
  heldIn_enter book hvalid (Order.canBeFilled_iff.mpr (Or.inl ho.status)) p

theorem split_enter (book : PlainBook) (id₁ id₂ : UUID) (t₁ t₂ : Time) (ho : o.Submitted)
    (hq₁ : 0 < q₁) (hq₂ : 0 < q₂) (hq : o.quantity = q₁ + q₂) :
    Joined o.side (book.execution o) (book.execution (o.part id₁ q₁ t₁))
        ((book.enter (o.part id₁ q₁ t₁)).execution (o.part id₂ q₂ t₂))
      ∧ book.enter o (!o.side.isBid) =
        (book.enter (o.part id₁ q₁ t₁)).enter (o.part id₂ q₂ t₂) (!o.side.isBid) := by
  have hfront : (book.enter (o.part id₁ q₁ t₁)).front (o.part id₂ q₂ t₂) =
      (book.execution (o.part id₁ q₁ t₁)).left := front_enter rfl rfl
  have hbehind : (book.enter (o.part id₁ q₁ t₁)).behind (o.part id₂ q₂ t₂) =
      book.behind (o.part id₁ q₁ t₁) := behind_enter rfl rfl
  have hremaining : ∀ id q t, (o.part id q t).remainingQuantity = q := fun id q t => by
    rw [Order.remainingQuantity, Order.part, ho.filledQuantity, sub_zero]
  have hjoined : Joined o.side (book.execution o) (book.execution (o.part id₁ q₁ t₁))
      ((book.enter (o.part id₁ q₁ t₁)).execution (o.part id₂ q₂ t₂)) := by
    rw [execution, execution, execution, hfront]
    refine execute_split rfl rfl rfl ?_ ?_ ?_
    · exact (hremaining ..).symm ▸ hq₁.le
    · exact (hremaining ..).symm ▸ hq₂.le
    · rw [hremaining, hremaining, Order.remainingQuantity, ho.filledQuantity, sub_zero, hq]
  refine ⟨hjoined, ?_⟩
  have hother : (book.enter (o.part id₁ q₁ t₁)).enter (o.part id₂ q₂ t₂) (!o.side.isBid) = _ :=
    enter_other ..
  rw [hother, enter_other, hbehind, hjoined.left]
  rfl

theorem split_handle (book : PlainBook) (id₁ id₂ : UUID) (t₁ t₂ : Time) (ho : o.Submitted)
    (hq₁ : 0 < q₁) (hq₂ : 0 < q₂) (hq : o.quantity = q₁ + q₂) :
    let one := [Request.new o]
    let two := [Request.new (o.part id₁ q₁ t₁), Request.new (o.part id₂ q₂ t₂)]
    book.handleAll one (!o.side.isBid) = book.handleAll two (!o.side.isBid)
      ∧ (∀ id price, takenFrom o.side id price (book.tradesAll one) =
        takenFrom o.side id price (book.tradesAll two))
      ∧ ∀ p, heldIn p (book.handleAll one o.side.isBid) =
        heldIn p (book.handleAll two o.side.isBid) := by
  have hpos : 0 < o.quantity := hq ▸ add_pos hq₁ hq₂
  have hvalid₁ : (o.part id₁ q₁ t₁).isValid = o.isValid := isValid_part ho hq₁ hpos
  have hvalid₂ : (o.part id₂ q₂ t₂).isValid = o.isValid := isValid_part ho hq₂ hpos
  simp only [handleAll, List.foldl_cons, List.foldl_nil, tradesAll, handle, trades, hvalid₁,
    hvalid₂, List.append_nil]
  split_ifs with hvalid
  · obtain ⟨hjoined, hother⟩ := split_enter book id₁ id₂ t₁ t₂ ho hq₁ hq₂ hq
    refine ⟨hother, fun id price => ?_, fun p => ?_⟩
    · rw [takenFrom_append, hjoined.taken]
    · rw [heldIn_enter_part _ ho (hvalid₂.trans hvalid),
        heldIn_enter_part _ ho (hvalid₁.trans hvalid),
        heldIn_enter _ hvalid (Order.canBeFilled_iff.mpr (Or.inl ho.status)), hjoined.remaining]
      split_ifs <;> ring
  · exact ⟨rfl, fun _ _ => rfl, fun _ => rfl⟩

end

end PlainBook

theorem OrderBook.WF.volumeAt_orders {T : Type} [OrderedTree T Decimal LevelRef]
    {ob : OrderBook T} (h : ob.WF) (b : Bool) (p : Decimal) :
    ob.volumeAt b p = heldIn p (ob.restingOrders b) := by
  rw [h.volumeAt_eq, heldAt, heldIn, restingOrders, ordersOf, List.filter_map, List.map_map]
  rfl

variable {T : Type} [OrderedTree T Decimal LevelRef]

/-- One order, or the same quantity in two orders one after the other: the opposing
side ends up the same, the same is taken from every resting order, and the own side
has the same volumes. -/
theorem splitting_keeps_outcome {me₀ me : MatchingEngine T} {requests : List Request}
    {trades₀ : List Trade} {o : Order} {id₁ id₂ : UUID} {q₁ q₂ : Decimal} {t₁ t₂ : Time}
    (h₀ : me₀.Initial) (hrun : MatchingEngine.Run me₀ requests me trades₀)
    (hfresh : FreshIDs (requests ++ [.new o]))
    (hfresh' : FreshIDs (requests ++ [.new (o.part id₁ q₁ t₁), .new (o.part id₂ q₂ t₂)]))
    (ho : o.Submitted) (hq₁ : 0 < q₁) (hq₂ : 0 < q₂) (hq : o.quantity = q₁ + q₂) :
    ∃ me₁ trades₁ me₂ trades₂,
      MatchingEngine.Run me [.new o] me₁ trades₁
      ∧ MatchingEngine.Run me [.new (o.part id₁ q₁ t₁), .new (o.part id₂ q₂ t₂)] me₂ trades₂
      ∧ me₁.orderBook.contents (!o.side.isBid) = me₂.orderBook.contents (!o.side.isBid)
      ∧ (∀ id price, takenFrom o.side id price trades₁ = takenFrom o.side id price trades₂)
      ∧ ∀ p, me₁.orderBook.volumeAt o.side.isBid p = me₂.orderBook.volumeAt o.side.isBid p := by
  have hs := hrun.sound h₀ hfresh.of_append
  obtain ⟨me₁, hrun₁, hs₁, hbook₁⟩ := hs.run_plain hfresh
  obtain ⟨me₂, hrun₂, hs₂, hbook₂⟩ := hs.run_plain hfresh'
  obtain ⟨hother, htaken, hheld⟩ :=
    PlainBook.split_handle me.orderBook.restingOrders id₁ id₂ t₁ t₂ ho hq₁ hq₂ hq
  refine ⟨me₁, _, me₂, _, hrun₁, hrun₂, hs₁.wf.contents_congr hs₂.wf ?_, htaken, fun p => ?_⟩
  · rw [hbook₁, hbook₂, hother]
  · rw [hs₁.wf.volumeAt_orders, hs₂.wf.volumeAt_orders, hbook₁, hbook₂, hheld]

/-- A buy order of 10 at 101 against a sell order of 5, or 3 and then 7: both
leave 5 to buy at 101. -/
theorem splitting_keeps_outcome_buy :
    ∃ me me₁ trades₁ me₂ trades₂,
      MatchingEngine.Run emptyEngine [.new sellFive] me []
      ∧ MatchingEngine.Run me [.new buyTen] me₁ trades₁
      ∧ MatchingEngine.Run me [.new (buyTen.part 4 3 3), .new (buyTen.part 5 7 4)] me₂ trades₂
      ∧ me₁.orderBook.contents false = me₂.orderBook.contents false
      ∧ me₁.orderBook.volumeAt true 101 = me₂.orderBook.volumeAt true 101 := by
  obtain ⟨me, hrun⟩ := MatchingEngine.run_of_trades
    (show (emptyEngine.handleAll 9 [.new sellFive]).map Prod.snd = some [] by decide +kernel)
  have ho : buyTen.Submitted := ⟨rfl, rfl⟩
  have hfresh : FreshIDs [.new sellFive, .new (buyTen.part 4 3 3), .new (buyTen.part 5 7 4)] := by
    decide
  obtain ⟨me₁, trades₁, me₂, trades₂, hrun₁, hrun₂, hother, -, hown⟩ :=
    splitting_keeps_outcome emptyEngine_initial hrun (by decide) hfresh ho
      (show (0 : Decimal) < 3 by decide) (show (0 : Decimal) < 7 by decide) (by decide +kernel)
  exact ⟨me, me₁, trades₁, me₂, trades₂, hrun, hrun₁, hrun₂, hother, hown 101⟩

end TradingBackend
