import TradingBackend.Commutation
import TradingBackend.OutOfReach

/-!
# Cancellation

A `CANCEL` command takes the order out of its queue and leaves the rest of the
book alone: the level it was in has one order less or is gone, every other level
is as it was. So it undoes a `NEW` command that did not trade, and an id that is
not in the book is an error that changes nothing.

After a `CANCEL` command the id is in no queue, and `OutOfReach` says what
follows: no later command trades with it, unless it brings the id in again.
-/

namespace TradingBackend

/-- A level without the order with this id; none if there is no other order. -/
def LevelContents.without (orderID : UUID) (level : LevelContents) : Option LevelContents :=
  if ∀ o ∈ level.orders, o.id ≠ orderID then some level
  else
    let orders := level.orders.filter fun o => o.id ≠ orderID
    if orders = [] then none else some (ofOrders orders)

namespace LevelContents

variable {level level' : LevelContents} {orderID : UUID}

theorem ofOrders_proper {orders : List Order} (hne : orders ≠ []) {price : Decimal}
    (hprice : ∀ o ∈ orders, o.price = price) :
    (ofOrders orders).Proper ∧ (ofOrders orders).price = price := by
  have heq : (ofOrders orders).price = price := by
    cases orders with
    | nil => exact absurd rfl hne
    | cons o orders => exact hprice o (List.mem_cons_self ..)
  exact ⟨⟨hne, fun o ho => (hprice o ho).trans heq.symm, rfl⟩, heq⟩

/-- What is left of a level has its price and the other orders. -/
theorem Proper.without (h : level.Proper) (hw : level.without orderID = some level') :
    level'.Proper ∧ level'.price = level.price
      ∧ level'.orders = level.orders.filter fun o => o.id ≠ orderID := by
  unfold LevelContents.without at hw
  dsimp only at hw
  split_ifs at hw with hother hnil
  · obtain rfl := Option.some.inj hw
    exact ⟨h, rfl, (List.filter_eq_self.mpr fun o ho => decide_eq_true (hother o ho)).symm⟩
  · obtain rfl := Option.some.inj hw
    have hproper := ofOrders_proper hnil fun o ho => h.price o (List.mem_of_mem_filter ho)
    exact ⟨hproper.1, hproper.2, rfl⟩

theorem without_eq_none (hw : level.without orderID = none) :
    level.orders.filter (fun o => o.id ≠ orderID) = [] := by
  unfold LevelContents.without at hw
  dsimp only at hw
  split_ifs at hw with hother hnil
  exact hnil

theorem filterMap_without_orders {levels : List LevelContents}
    (h : ∀ level ∈ levels, level.Proper) :
    ((levels.filterMap (without orderID)).map orders).flatten =
      (levels.map orders).flatten.filter fun o => o.id ≠ orderID := by
  induction levels with
  | nil => rfl
  | cons level levels ih =>
      obtain ⟨hlevel, hlevels⟩ := List.forall_mem_cons.mp h
      rw [List.map_cons, List.flatten_cons, List.filter_append, ← ih hlevels]
      cases hw : level.without orderID with
      | none => rw [List.filterMap_cons_none hw, without_eq_none hw, List.nil_append]
      | some level' =>
          rw [List.filterMap_cons_some hw, List.map_cons, List.flatten_cons,
            (hlevel.without hw).2.2]

end LevelContents

variable {T : Type} [OrderedTree T Decimal LevelRef]

theorem OrderBook.WF.contents_without {ob ob' : OrderBook T} (h : ob.WF) (h' : ob'.WF) {b : Bool}
    {orderID : UUID}
    (horders : ob'.restingOrders b = (ob.restingOrders b).filter fun o => o.id ≠ orderID) :
    ob'.contents b = (ob.contents b).filterMap (LevelContents.without orderID) := by
  refine h'.contents_of_levels ?_ ?_ ?_
  · intro level' hlevel'
    obtain ⟨level, hlevel, hw⟩ := List.mem_filterMap.mp hlevel'
    exact ((h.proper level hlevel).without hw).1
  · refine List.pairwise_filterMap.mpr ((h.layout.prices_ne b).imp_of_mem ?_)
    intro level₁ level₂ hlevel₁ hlevel₂ hne level₁' hw₁ level₂' hw₂
    rwa [((h.proper level₁ hlevel₁).without hw₁).2.1, ((h.proper level₂ hlevel₂).without hw₂).2.1]
  · rw [LevelContents.filterMap_without_orders h.proper, ← restingOrders_eq_flatten, horders]

theorem PlainBook.cancel_new {book : PlainBook} {o : Order} (h : book.trades (.new o) = [])
    (hid : ∀ b, ∀ r ∈ book b, r.id ≠ o.id) :
    book.handleAll [.new o, .cancel o.id] = book := by
  have hkeep : ∀ b, (book b).filter (fun r => r.id ≠ o.id) = book b := fun b =>
    List.filter_eq_self.mpr fun r hr => decide_eq_true (hid b r hr)
  funext b
  simp only [PlainBook.handleAll, List.foldl_cons, List.foldl_nil]
  show (book.handle (.new o) b).filter (fun r => r.id ≠ o.id) = book b
  rw [PlainBook.handle_of_no_trades h]
  split_ifs
  · rw [PlainBook.filter_rest_of_neg (by simp), hkeep]
  · exact hkeep b

namespace MatchingEngine

variable {me me' : MatchingEngine T} {requests : List Request} {o : Order} {orderID : UUID}
  {fuel : Nat} {response : CommandResponse} {b : Bool} {e : Element}

/-! ## The answer of a `CANCEL` command -/

/-- The order is in the book: it is returned, and nothing else leaves its place. -/
theorem cancel_resting (h : me.orderBook.WF) (he : e ∈ me.orderBook.elements b) :
    ∃ fuel me', me.handle fuel (.cancel (me.orderBook.orderAt e.value).id) =
        some (me', ⟨[], none, some e.value⟩) ∧ Withdrawn me me' e := by
  obtain ⟨l, hl⟩ := OrderBook.mem_elements.mp he
  obtain ⟨fuel, me', response, hrun, heff⟩ := processCommand_total h
    (c := .cancel (me.orderBook.orderAt e.value).id) trivial
  generalize hid : (me.orderBook.orderAt e.value).id = orderID at hrun heff ⊢
  cases heff with
  | @withdrawn b' l' x hx hw =>
      obtain ⟨-, -, rfl⟩ := h.holds_unique hx hl hid.symm
      exact ⟨fuel, me', hrun, hw⟩
  | notFound hnot =>
      exact absurd (Finmap.mem_of_lookup_eq_some (hid ▸ h.lookup hl)) hnot

/-- The id is not in the book: an error, and nothing is changed. -/
theorem cancel_not_resting (hid : orderID ∉ me.orderBook.orders) (fuel : Nat) :
    me.handle fuel (.cancel orderID) = some (me, ⟨[], some (.orderNotFound orderID), none⟩) := by
  simp only [handle, processCommand, OrderBook.cancelOrder, Finmap.lookup_eq_none.mpr hid]

/-- A `CANCEL` command that finds its order takes the id out of every queue. -/
theorem Withdrawn.barred (h : Withdrawn me me' e) (hw : me.orderBook.WF)
    (he : e ∈ me.orderBook.elements b) : Barred (me.orderBook.orderAt e.value).id me' := by
  intro b' l x hx
  have hx := OrderBook.mem_elements.mpr ⟨l, hx⟩
  rw [h.elements] at hx
  obtain ⟨hx, hne⟩ := List.mem_filter.mp hx
  obtain ⟨l₁, hx₁⟩ := OrderBook.mem_elements.mp hx
  obtain ⟨l₂, he₂⟩ := OrderBook.mem_elements.mp he
  have hid : (me.orderBook.orderAt x.value).id ≠ (me.orderBook.orderAt e.value).id := fun hid =>
    of_decide_eq_true hne (hw.holds_unique hx₁ he₂ hid).2.2
  have hvalue : x.value ≠ e.value := fun hvalue => hid (by rw [hvalue])
  rw [h.frame.nextOrder, h.orderAt, Function.update_of_ne hvalue]
  exact ⟨hw.value_lt hx, hid⟩

theorem cancel_barred (h : me.orderBook.WF)
    (hstep : me.handle fuel (.cancel orderID) = some (me', response))
    (hok : response.error = none) : Barred orderID me' := by
  by_cases hid : orderID ∈ me.orderBook.orders
  · obtain ⟨b, o, ho, rfl⟩ := h.mem_orders_iff.mp hid
    obtain ⟨e, he, rfl⟩ := OrderBook.mem_restingOrders.mp ho
    obtain ⟨fuel', me'', hrun, hw⟩ := cancel_resting h he
    obtain ⟨rfl, rfl⟩ := Prod.mk.injEq .. |>.mp (handle_det hstep hrun)
    exact hw.barred h he
  · obtain ⟨rfl, rfl⟩ := Prod.mk.injEq .. |>.mp
      (handle_det hstep (cancel_not_resting hid fuel))
    cases hok

/-! ## `NEW` and `CANCEL` -/

/-- A `NEW` command that does not trade is undone by a `CANCEL` command. -/
theorem cancel_undoes_new (h : me.Sound requests) (hfresh : FreshIDs (requests ++ [.new o])) :
    ∃ fuel me₁ response, me.handle fuel (.new o) = some (me₁, response)
      ∧ (response.trades = [] → ∃ fuel' me₂ response',
          me₁.handle fuel' (.cancel o.id) = some (me₂, response')
          ∧ ∀ b, me₂.orderBook.contents b = me.orderBook.contents b) := by
  obtain ⟨fuel, me₁, response, hstep, hh⟩ := handle_total h hfresh
  obtain ⟨hbook, htrades⟩ := hh.plain h hfresh
  refine ⟨fuel, me₁, response, hstep, fun hquiet => ?_⟩
  have hs := h.step hh
  have hfresh' : FreshIDs (requests ++ [.new o] ++ [.cancel o.id]) := by
    rwa [FreshIDs, submitted_append_cancel]
  obtain ⟨fuel', me₂, response', hstep', hh'⟩ := handle_total hs hfresh'
  refine ⟨fuel', me₂, response', hstep', fun b => ?_⟩
  refine (hh'.wf hs.wf).contents_congr h.wf ?_
  rw [(hh'.plain hs hfresh').1, hbook]
  refine congrFun (PlainBook.cancel_new (htrades ▸ hquiet) fun b r hr heq => ?_) b
  obtain ⟨e, he, rfl⟩ := OrderBook.mem_restingOrders.mp hr
  exact h.id_ne hfresh (h.wf.value_lt he) heq

end MatchingEngine

/-- Cancellation, from every book that requests with fresh ids lead to. First,
for every new order that makes no trade, `CANCEL` after `NEW` gives the levels
back, with their prices, volumes and queues. Second, `CANCEL` of a resting order
returns it and takes it out of its level, and no more. Third, `CANCEL` of another
id is an error and changes nothing. Fourth, no trade after a successful `CANCEL`
names the id, whatever the later requests are, as long as none of them brings in
an order with this id. -/
theorem cancel_undoes_and_is_final {me₀ me : MatchingEngine T} {requests : List Request}
    {trades₀ : List Trade} (h₀ : me₀.Initial) (hrun : MatchingEngine.Run me₀ requests me trades₀)
    (hfresh : FreshIDs requests) :
    (∀ o, FreshIDs (requests ++ [.new o]) →
      ∃ fuel me₁ response, me.handle fuel (.new o) = some (me₁, response)
        ∧ (response.trades = [] → ∃ fuel' me₂ response',
            me₁.handle fuel' (.cancel o.id) = some (me₂, response')
            ∧ ∀ b, me₂.orderBook.contents b = me.orderBook.contents b))
    ∧ (∀ b, ∀ e ∈ me.orderBook.elements b, ∃ fuel me',
        me.handle fuel (.cancel (me.orderBook.orderAt e.value).id) =
          some (me', ⟨[], none, some e.value⟩)
        ∧ me'.orderBook.orderAt e.value =
          { me.orderBook.orderAt e.value with status := .cancelled }
        ∧ ∀ b', me'.orderBook.contents b' = (me.orderBook.contents b').filterMap
          (LevelContents.without (me.orderBook.orderAt e.value).id))
    ∧ (∀ orderID, (∀ b, ∀ o ∈ me.orderBook.restingOrders b, o.id ≠ orderID) → ∃ fuel,
        me.handle fuel (.cancel orderID) =
          some (me, ⟨[], some (.orderNotFound orderID), none⟩))
    ∧ (∀ orderID fuel me₁ response, me.handle fuel (.cancel orderID) = some (me₁, response) →
        response.error = none →
        ∀ requests' me₂ trades', MatchingEngine.Run me₁ requests' me₂ trades' →
        (∀ o ∈ submitted requests', o.id ≠ orderID) → ∀ t ∈ trades', ¬t.Names orderID) := by
  have hs := hrun.sound h₀ hfresh
  refine ⟨fun o hnew => MatchingEngine.cancel_undoes_new hs hnew, fun b e he => ?_,
    fun orderID hid => ?_, fun orderID fuel me₁ response hstep hok requests' me₂ trades' hrun' hnew
      => ((MatchingEngine.cancel_barred hs.wf hstep hok).run hrun' hnew).2⟩
  · obtain ⟨fuel, me', hstep, hw⟩ := MatchingEngine.cancel_resting hs.wf he
    refine ⟨fuel, me', hstep, ?_, fun b' => ?_⟩
    · rw [hw.orderAt, Function.update_self]
    · exact hs.wf.contents_without hw.wf (hw.restingOrders hs.wf he b')
  · refine ⟨0, MatchingEngine.cancel_not_resting (fun hmem => ?_) 0⟩
    obtain ⟨b, o, ho, heq⟩ := hs.wf.mem_orders_iff.mp hmem
    exact hid b o ho heq

/-- A partial fill, and then the cancellation of `sellBehind` from the middle of
a book with a queue of two, a second level and a bid. -/
theorem cancel_undoes_and_is_final_sell :
    ∃ me trades fuel me', MatchingEngine.Run emptyEngine (bothSides ++ [.new buyThree]) me trades
      ∧ me.handle fuel (.cancel sellBehind.id) = some (me', ⟨[], none, some 1⟩)
      ∧ me'.orderBook.contents false =
        [⟨100, 2, [{ sellFive with filledQuantity := 3, status := .partiallyFilled }]⟩,
          ⟨102, 5, [sellHigher]⟩]
      ∧ me'.orderBook.contents true = [⟨99, 3, [buyLower]⟩]
      ∧ ∀ requests' me₂ trades', MatchingEngine.Run me' requests' me₂ trades' →
        (∀ o ∈ submitted requests', o.id ≠ sellBehind.id) →
          ∀ t ∈ trades', ¬t.Names sellBehind.id := by
  obtain ⟨trades, hrun⟩ := MatchingEngine.after_run
    (show (emptyEngine.handleAll 9 (bothSides ++ [.new buyThree])).isSome = true by decide +kernel)
  obtain ⟨-, hresting, -, hfinal⟩ :=
    cancel_undoes_and_is_final emptyEngine_initial hrun (by decide)
  obtain ⟨fuel, me', hstep, -, hcontents⟩ := hresting false ⟨1, 1⟩ (by decide +kernel)
  have hid : ((emptyEngine.after 9 (bothSides ++ [.new buyThree])).orderBook.orderAt 1).id =
      sellBehind.id := by
    decide +kernel
  rw [hid] at hstep hcontents
  exact ⟨_, trades, fuel, me', hrun, hstep, (hcontents false).trans (by decide +kernel),
    (hcontents true).trans (by decide +kernel), hfinal _ _ _ _ hstep rfl⟩

end TradingBackend
