import TradingBackend.MatchOrder

/-!
# Commands keep the book well formed

`processCommand` as a whole: a command returns, with one result whatever
the fuel (`processCommand_det`), and `command_cases` says everything it
can do. The book operations and the commands together are the ways the
rest of the program can touch a book; `Operations` are their finite
sequences, and the representation invariant holds after each of them.
-/

namespace TradingBackend

variable {T : Type} [OrderedTree T Decimal LevelRef]

namespace MatchingEngine

section

variable {me me' : MatchingEngine T} {a : OrderRef}

/-! ## Fuel -/

theorem matchOrder_mono {n m : Nat} {r : MatchingEngine T × List Trade} (hnm : n ≤ m)
    (h : me.matchOrder n a = some r) : me.matchOrder m a = some r := by
  unfold matchOrder at h ⊢
  dsimp only at h ⊢
  split_ifs at h ⊢ with hvalid hmarket
  · cases hm : matchMarketOrder n me a with
    | none => rw [hm] at h; cases h
    | some s =>
        have hm' : matchMarketOrder m me a = some s :=
          Loop.iterate_mono (sweepBody_mono (fun _ _ => true) (unmatched a) a) hnm hm
        rwa [hm', ← hm]
  · cases hm : matchLimitOrder n me a with
    | none => rw [hm] at h; cases h
    | some s =>
        have hm' : matchLimitOrder m me a = some s :=
          Loop.iterate_mono (sweepBody_mono canMatch id a) hnm hm
        rwa [hm', ← hm]
  · exact h

theorem processCommand_mono {n m : Nat} {c : OrderCommand} {r : MatchingEngine T × CommandResponse}
    (hnm : n ≤ m) (h : me.processCommand n c = some r) : me.processCommand m c = some r := by
  cases c with
  | new order =>
      cases hm : me.matchOrder n order with
      | none => simp only [processCommand, hm] at h; cases h
      | some s =>
          simp only [processCommand, hm] at h
          simp only [processCommand, matchOrder_mono hnm hm]
          exact h
  | cancel orderID => exact h
  | unknown type => exact h

theorem processCommand_det {n m : Nat} {c : OrderCommand}
    {r r' : MatchingEngine T × CommandResponse} (h : me.processCommand n c = some r)
    (h' : me.processCommand m c = some r') : r = r' :=
  Loop.eq_of_mono (f := (me.processCommand · c)) processCommand_mono h h'

/-! ## What a command does -/

/-- A `CANCEL` command found element `e` under its id. -/
structure Withdrawn (me me' : MatchingEngine T) (e : Element) : Prop where
  frame : Frame me me'
  wf : me'.orderBook.WF
  orderAt : me'.orderBook.orderAt = Function.update me.orderBook.orderAt e.value
    { me.orderBook.orderAt e.value with status := .cancelled }
  elements : ∀ b, me'.orderBook.elements b = (me.orderBook.elements b).filter (· ≠ e)
  nextElement : me'.orderBook.nextElement = me.orderBook.nextElement

/-- Everything a command can do, given that the book is well formed and a
new order is not in it. -/
inductive Effected (me me' : MatchingEngine T) : OrderCommand → CommandResponse → Prop where
  | entered {order trades} (hvalid : (me.orderBook.orderAt order).isValid = true)
      (h : Entered me me' order trades) : Effected me me' (.new order) ⟨trades, none, some order⟩
  | rejected {order} (hvalid : ¬(me.orderBook.orderAt order).isValid = true)
      (h : me' = me.reject order) : Effected me me' (.new order) ⟨[], none, some order⟩
  | withdrawn {b l e} (he : me.orderBook.Holds b l e) (h : Withdrawn me me' e) :
      Effected me me' (.cancel (me.orderBook.orderAt e.value).id) ⟨[], none, some e.value⟩
  | notFound {orderID} (hid : orderID ∉ me.orderBook.orders) (h : me' = me) :
      Effected me me' (.cancel orderID) ⟨[], some (.orderNotFound orderID), none⟩
  | unknown {type} (h : me' = me) :
      Effected me me' (.unknown type) ⟨[], some (.unknownCommandType type), none⟩

/-- A new order can be matched: it is a pointer into memory and its id is
not in the book. -/
def Admissible (me : MatchingEngine T) : OrderCommand → Prop
  | .new a => a < me.orderBook.nextOrder ∧ (me.orderBook.orderAt a).id ∉ me.orderBook.orders
  | .cancel _ => True
  | .unknown _ => True

instance (me : MatchingEngine T) (c : OrderCommand) : Decidable (me.Admissible c) :=
  match c with
  | .new _ => inferInstanceAs (Decidable (_ ∧ _))
  | .cancel _ => isTrue trivial
  | .unknown _ => isTrue trivial

theorem withdrawn_cancelOrder (h : me.orderBook.WF) {b : Bool} {l : LevelRef} {e : Element}
    (he : me.orderBook.Holds b l e) (effects : List Effect) :
    Withdrawn me { me with
      orderBook := (me.orderBook.cancelOrder (me.orderBook.orderAt e.value).id).1
      effects := effects } e := by
  have hdet := OrderBook.detach_detached h.layout he
  have hcancel : (me.orderBook.cancelOrder (me.orderBook.orderAt e.value).id).1 =
      (me.orderBook.detach (me.orderBook.orderAt e.value).id ⟨l, e⟩).setOrder e.value
        { me.orderBook.orderAt e.value with status := .cancelled } := by
    simp only [OrderBook.cancelOrder, h.lookup he, hdet.orderAt]
  have hsame : OrderBook.SameShape (me.orderBook.detach (me.orderBook.orderAt e.value).id ⟨l, e⟩)
      (me.orderBook.cancelOrder (me.orderBook.orderAt e.value).id).1 := by
    rw [hcancel]
    refine OrderBook.sameShape_setOrder ?_ ?_ ?_ <;> rw [hdet.orderAt]
  refine ⟨⟨rfl, rfl, rfl, rfl, ?_, ?_⟩, h.cancelOrder _, ?_, fun b' => ?_, ?_⟩
  · rw [hcancel]
    exact OrderBook.detach_instrument me.orderBook (me.orderBook.orderAt e.value).id ⟨l, e⟩
  · rw [hcancel]
    exact hdet.nextOrder
  · rw [hcancel, OrderBook.setOrder, hdet.orderAt]
  · exact (hsame.elements b').trans (hdet.elements h he b')
  · exact hsame.nextElement.trans hdet.nextElement

/-- A command returns, and does one of the five things. -/
theorem processCommand_total (h : me.orderBook.WF) {c : OrderCommand} (hc : me.Admissible c) :
    ∃ fuel me' response, me.processCommand fuel c = some (me', response)
      ∧ Effected me me' c response := by
  cases c with
  | new a =>
      obtain ⟨fuel, me', trades, hrun, hspec⟩ := matchOrder_spec ⟨h, hc.2, hc.1⟩
      refine ⟨fuel, me', ⟨trades, none, some a⟩, by simp only [processCommand, hrun], ?_⟩
      split_ifs at hspec with hvalid
      · exact .entered hvalid hspec
      · obtain ⟨rfl, rfl⟩ := hspec
        exact .rejected hvalid rfl
  | cancel orderID =>
      rcases h.lookup_cases orderID with hnone | ⟨b, l, e, he, rfl, hsome⟩
      · refine ⟨0, me, _, ?_, .notFound (Finmap.lookup_eq_none.mp hnone) rfl⟩
        simp only [processCommand, OrderBook.cancelOrder, hnone]
      · have hcancel : (me.orderBook.cancelOrder (me.orderBook.orderAt e.value).id) =
            ((me.orderBook.cancelOrder (me.orderBook.orderAt e.value).id).1, some e.value) := by
          simp only [OrderBook.cancelOrder, hsome]
        obtain ⟨effects, hrun⟩ : ∃ effects,
            me.processCommand 0 (.cancel (me.orderBook.orderAt e.value).id) =
              some ({ me with
                orderBook := (me.orderBook.cancelOrder (me.orderBook.orderAt e.value).id).1
                effects := effects }, ⟨[], none, some e.value⟩) :=
          ⟨_, by rw [processCommand, hcancel]; rfl⟩
        exact ⟨0, _, _, hrun, .withdrawn he (withdrawn_cancelOrder h he effects)⟩
  | unknown type => exact ⟨0, me, _, rfl, .unknown rfl⟩

theorem command_cases (h : me.orderBook.WF) {c : OrderCommand} (hc : me.Admissible c) {fuel : Nat}
    {response : CommandResponse} (hrun : me.processCommand fuel c = some (me', response)) :
    Effected me me' c response := by
  obtain ⟨fuel', me'', response', hrun', heff⟩ := processCommand_total h hc
  obtain ⟨rfl, rfl⟩ := Prod.mk.injEq .. |>.mp (processCommand_det hrun hrun')
  exact heff

/-- Every command keeps the representation invariant. -/
theorem Effected.wf {c : OrderCommand} {response : CommandResponse}
    (h : Effected me me' c response) (hw : me.orderBook.WF) : me'.orderBook.WF := by
  cases h with
  | entered _ h => exact h.wf
  | rejected _ h =>
      rw [h]
      exact hw.setStatus _ .rejected
  | withdrawn _ h => exact h.wf
  | notFound _ h => exact h ▸ hw
  | unknown h => exact h ▸ hw

end

/-! ## Operation sequences -/

/-- An operation on the book of an engine, or a command to the engine.
`newOrder` is a caller making an order for one of the others. -/
inductive Operation where
  | newOrder (o : Order)
  | addOrder (order : OrderRef)
  | addLimitOrder (order : OrderRef)
  | removeOrder (orderID : UUID)
  | cancelOrder (orderID : UUID)
  | updateOrder (orderID : UUID) (newFilledQty : Decimal)
  | popBestLevel (isBid : Bool)
  | clear
  | command (c : OrderCommand)

/-- An inserted order has an id that is not in the book. -/
def InsertsFresh (me : MatchingEngine T) : Operation → Prop
  | .addOrder order => me.Admissible (.new order)
  | .addLimitOrder order => me.Admissible (.new order)
  | .command c => me.Admissible c
  | _ => True

instance (me : MatchingEngine T) (op : Operation) : Decidable (me.InsertsFresh op) :=
  match op with
  | .addOrder order => inferInstanceAs (Decidable (me.Admissible (.new order)))
  | .addLimitOrder order => inferInstanceAs (Decidable (me.Admissible (.new order)))
  | .command c => inferInstanceAs (Decidable (me.Admissible c))
  | .newOrder _ | .removeOrder _ | .cancelOrder _ | .updateOrder .. | .popBestLevel _ | .clear =>
      isTrue trivial

def perform (fuel : Nat) (me : MatchingEngine T) : Operation → Option (MatchingEngine T)
  | .newOrder o => some { me with orderBook := (me.orderBook.newOrder o).1 }
  | .addOrder order => some { me with orderBook := me.orderBook.addOrder order }
  | .addLimitOrder order => some { me with orderBook := (me.orderBook.addLimitOrder order).1 }
  | .removeOrder orderID => some { me with orderBook := (me.orderBook.removeOrder orderID).1 }
  | .cancelOrder orderID => some { me with orderBook := (me.orderBook.cancelOrder orderID).1 }
  | .updateOrder orderID newFilledQty =>
      some { me with orderBook := me.orderBook.updateOrder orderID newFilledQty }
  | .popBestLevel isBid => some { me with orderBook := (me.orderBook.popBestLevel isBid).1 }
  | .clear => some { me with orderBook := me.orderBook.clear }
  | .command c => (me.processCommand fuel c).map Prod.fst

/-- `me` is reached from `me₀` by the operations. -/
inductive Operations (me₀ : MatchingEngine T) : List Operation → MatchingEngine T → Prop where
  | nil : Operations me₀ [] me₀
  | snoc {ops me me' op fuel} (h : Operations me₀ ops me) (hfresh : me.InsertsFresh op)
      (hop : me.perform fuel op = some me') : Operations me₀ (ops ++ [op]) me'

theorem perform_wf {me me' : MatchingEngine T} {op : Operation} {fuel : Nat}
    (h : me.orderBook.WF) (hfresh : me.InsertsFresh op) (hop : me.perform fuel op = some me') :
    me'.orderBook.WF := by
  cases op with
  | newOrder o =>
      obtain rfl := Option.some.inj hop
      exact h.newOrder o
  | addOrder order =>
      obtain rfl := Option.some.inj hop
      exact h.addOrder hfresh.1 hfresh.2
  | addLimitOrder order =>
      obtain rfl := Option.some.inj hop
      exact h.addLimitOrder hfresh.1 hfresh.2
  | removeOrder orderID =>
      obtain rfl := Option.some.inj hop
      exact h.removeOrder orderID
  | cancelOrder orderID =>
      obtain rfl := Option.some.inj hop
      exact h.cancelOrder orderID
  | updateOrder orderID newFilledQty =>
      obtain rfl := Option.some.inj hop
      exact h.updateOrder orderID newFilledQty
  | popBestLevel isBid =>
      obtain rfl := Option.some.inj hop
      exact h.popBestLevel isBid
  | clear =>
      obtain rfl := Option.some.inj hop
      exact OrderBook.clear_wf me.orderBook
  | command c =>
      obtain ⟨⟨me'', response⟩, hrun, rfl⟩ := Option.map_eq_some_iff.mp hop
      exact (command_cases h hfresh hrun).wf h

theorem perform_total {me : MatchingEngine T} (op : Operation) (h : me.orderBook.WF)
    (hfresh : me.InsertsFresh op) : ∃ fuel me', me.perform fuel op = some me' := by
  cases op with
  | command c =>
      obtain ⟨fuel, me', response, hrun, -⟩ := processCommand_total h hfresh
      exact ⟨fuel, me', by rw [perform, hrun]; rfl⟩
  | _ => exact ⟨0, _, rfl⟩

theorem Operations.wf {me₀ me : MatchingEngine T} {ops : List Operation}
    (h : Operations me₀ ops me) (h₀ : me₀.orderBook.WF) : me.orderBook.WF := by
  induction h with
  | nil => exact h₀
  | snoc _ hfresh hop ih => exact perform_wf ih hfresh hop

end MatchingEngine

namespace OrderBook

/-- The agreement of the structures of the book, as their users see it. -/
structure Consistent (ob : OrderBook T) : Prop where
  /-- The ids in the map are those of the reachable elements, one each. -/
  keys : Set.BijOn (fun e => (ob.orderAt e.value).id) {e | ∃ b l, ob.Holds b l e}
    {id | id ∈ ob.orders}
  elements_nodup : (ob.elements true ++ ob.elements false).Nodup
  /-- A location is the level and the element that hold the order. -/
  location : ∀ {id location}, ob.orders.lookup id = some location →
    (∃ b, ob.Holds b location.priceLevel location.element)
      ∧ (ob.orderAt location.element.value).id = id
  side : ∀ {b l e}, ob.Holds b l e → (b = true ↔ (ob.orderAt e.value).side = .buy)
  price : ∀ {b l e}, ob.Holds b l e → (ob.levelAt l).price = (ob.orderAt e.value).price
  level_unique : ∀ {b l l'}, ob.Filed b l → ob.Filed b l' →
    (ob.levelAt l).price = (ob.levelAt l').price → l = l'
  level_nonempty : ∀ {b l}, ob.Filed b l → (ob.levelAt l).orders ≠ []
  volume : ∀ {b l}, ob.Filed b l → (ob.levelAt l).volume =
    ((ob.levelAt l).orders.map fun e => (ob.orderAt e.value).remainingQuantity).sum
  size : ob.size = ob.getBidDepth + ob.getAskDepth
  depth : ob.getDepth =
    (((ob.elements true).map fun e => (ob.orderAt e.value).remainingQuantity).sum,
      ((ob.elements false).map fun e => (ob.orderAt e.value).remainingQuantity).sum)

theorem WF.consistent {ob : OrderBook T} (h : ob.WF) : ob.Consistent where
  keys := by
    refine ⟨?_, ?_, ?_⟩
    · rintro e ⟨b, l, he⟩
      exact Finmap.mem_of_lookup_eq_some (h.lookup he)
    · rintro e ⟨b, l, he⟩ e' ⟨b', l', he'⟩ hid
      exact (h.holds_unique he he' hid).2.2
    · intro id hid
      obtain ⟨location, hloc⟩ := Finmap.mem_iff.mp hid
      obtain ⟨⟨b, he⟩, hid⟩ := h.indexed.mp hloc
      exact ⟨location.element, ⟨b, _, he⟩, hid⟩
  elements_nodup := h.ids_nodup.of_map
  location := h.indexed.mp
  side he := by
    rw [← h.layout.order_side he, OrderSide.isBid, decide_eq_true_iff]
  price he := (h.layout.order_price he).symm
  level_unique := h.layout.level_unique
  level_nonempty := h.layout.nonempty
  volume := h.volumes
  size := by rw [h.size_eq, getBidDepth_eq, getAskDepth_eq]
  depth := by
    rw [getDepth, h.sideVolume_eq, h.sideVolume_eq]
    rfl

end OrderBook

/-- The representation invariant: after any operations and commands that
insert no id twice, the two trees, the queues, the map and the volumes
of a book agree. -/
theorem operations_consistent {me₀ me : MatchingEngine T} {instrument : String}
    {ops : List MatchingEngine.Operation} (h₀ : me₀.orderBook = newOrderBook instrument)
    (h : MatchingEngine.Operations me₀ ops me) : me.orderBook.Consistent :=
  (h.wf (h₀ ▸ OrderBook.newOrderBook_wf instrument)).consistent

theorem operations_consistent_trade :
    ∃ me : MatchingEngine (SortedItems Decimal LevelRef),
      MatchingEngine.Operations (newMatchingEngine "BTC-USD")
        [.newOrder sellFive, .addOrder 0, .newOrder buyThree, .command (.new 1)] me
      ∧ me.orderBook.Consistent := by
  have hmade : MatchingEngine.Operations
      (newMatchingEngine (T := SortedItems Decimal LevelRef) "BTC-USD") [.newOrder sellFive] _ :=
    .snoc .nil trivial (show MatchingEngine.perform 0 _ (.newOrder sellFive) = some _ from rfl)
  have hresting := (hmade.snoc (by decide)
      (show MatchingEngine.perform 0 _ (.addOrder 0) = some _ from rfl)).snoc (by trivial)
    (show MatchingEngine.perform 0 _ (.newOrder buyThree) = some _ from rfl)
  obtain ⟨fuel, me, hop⟩ := MatchingEngine.perform_total (.command (.new 1))
    (hresting.wf (OrderBook.newOrderBook_wf _)) (by decide)
  have h := hresting.snoc (by decide) hop
  exact ⟨me, h, operations_consistent rfl h⟩

end TradingBackend
