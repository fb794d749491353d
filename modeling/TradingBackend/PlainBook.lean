import TradingBackend.BookContents
import TradingBackend.Execution
import TradingBackend.LifeCycle

/-!
# A book without pointers

What the engine is for: the state is two lists of orders, best price first and
oldest first inside a price. A `NEW` command executes the order against the
front of the opposing list and puts what is left of it behind everything its
price does not beat; a `CANCEL` command takes an order off its list.

`Handled.plain` is the refinement: seen through `restingOrders`, every request
does this and makes these trades. In a well-formed book the resting orders
determine the levels (`WF.contents_congr`), so whatever two sequences of
requests do to the lists, they do to levels, prices, volumes and queues.
-/

namespace TradingBackend

/-- The resting orders of the two sides. -/
abbrev PlainBook := Bool → List Order

namespace PlainBook

/-- The part of the opposing side that crosses. -/
def front (book : PlainBook) (o : Order) : List Order :=
  (book !o.side.isBid).takeWhile fun r => crosses o r.price

/-- The part of the opposing side behind the front. -/
def behind (book : PlainBook) (o : Order) : List Order :=
  (book !o.side.isBid).dropWhile fun r => crosses o r.price

def execution (book : PlainBook) (o : Order) : Execution := execute o (book.front o)

/-- Put an order behind everything its price does not beat. -/
def rest (isBid : Bool) (o : Order) (queue : List Order) : List Order :=
  queue.orderedInsert (fun x y => better isBid x.price y.price) o

def enter (book : PlainBook) (o : Order) : PlainBook := fun b =>
  let x := book.execution o
  if b = o.side.isBid then
    if x.aggressor.closed.Rests then rest b x.aggressor.closed (book b) else book b
  else x.left ++ book.behind o

def handle (book : PlainBook) : Request → PlainBook
  | .new o => if o.isValid then book.enter o else book
  | .cancel orderID => fun b => (book b).filter fun o => o.id ≠ orderID

def trades (book : PlainBook) : Request → List Trade
  | .new o => if o.isValid then (book.execution o).trades else []
  | .cancel _ => []

theorem enter_self (book : PlainBook) (o : Order) :
    book.enter o o.side.isBid =
      if (book.execution o).aggressor.closed.Rests then
        rest o.side.isBid (book.execution o).aggressor.closed (book o.side.isBid)
      else book o.side.isBid :=
  if_pos rfl

theorem enter_other (book : PlainBook) (o : Order) :
    book.enter o (!o.side.isBid) = (book.execution o).left ++ book.behind o :=
  if_neg (Bool.not_ne_self _)

theorem front_append_behind (book : PlainBook) (o : Order) :
    book.front o ++ book.behind o = book (!o.side.isBid) :=
  List.takeWhile_append_dropWhile

/-- What goes into the book is what an execution leaves of a limit order. -/
theorem rests_iff {o : Order} (book : PlainBook) (hvalid : o.isValid = true)
    (hopen : o.canBeFilled = true) :
    (book.execution o).aggressor.closed.Rests ↔
      o.type = .limit ∧ 0 < (book.execution o).aggressor.remainingQuantity := by
  have htype : (book.execution o).aggressor.type = o.type :=
    execute_aggressor_of_fill Order.type (fun _ _ => rfl) ..
  have hnonneg : 0 ≤ (book.execution o).aggressor.remainingQuantity :=
    execute_nonneg (sub_nonneg.mpr (Order.isValid_iff.mp hvalid).2.2.2.2.2.2)
  by_cases hlimit : o.type = .limit
  · rw [Order.closed_of_ne_market (by rw [htype, hlimit]; nofun), Order.Rests, htype]
    refine and_congr_right fun _ => ?_
    rw [lt_iff_le_and_ne, and_iff_right hnonneg, ne_comm, Ne, ← Order.isFilled_iff_remaining]
    exact ⟨fun hr => hr.2, fun hf => ⟨(execute_canBeFilled hopen).resolve_right hf, hf⟩⟩
  · refine iff_of_false (fun hr => hlimit ?_) fun hr => hlimit hr.1
    rw [← htype, ← hr.1, Order.closed_of_status Order.type (fun _ _ => rfl)]

/-! ## Several requests -/

def handleAll (book : PlainBook) (requests : List Request) : PlainBook :=
  requests.foldl handle book

def tradesAll (book : PlainBook) : List Request → List Trade
  | [] => []
  | request :: requests => book.trades request ++ (book.handle request).tradesAll requests

theorem handleAll_snoc (book : PlainBook) (requests : List Request) (request : Request) :
    book.handleAll (requests ++ [request]) = (book.handleAll requests).handle request :=
  List.foldl_concat ..

theorem tradesAll_snoc (book : PlainBook) (requests : List Request) (request : Request) :
    book.tradesAll (requests ++ [request]) =
      book.tradesAll requests ++ (book.handleAll requests).trades request := by
  induction requests generalizing book with
  | nil => exact List.append_nil _
  | cons first requests ih =>
      rw [List.cons_append, tradesAll, ih, tradesAll, List.append_assoc]
      rfl

/-! ## Orders that do not trade -/

section

variable {book : PlainBook} {o o' : Order} {b : Bool} {queue : List Order}

/-- An order that does not trade goes into its list or leaves the book alone. -/
theorem handle_of_no_trades (h : book.trades (.new o) = []) (b : Bool) :
    book.handle (.new o) b =
      if b = o.side.isBid ∧ o.isValid = true ∧ o.Rests then rest b o (book b) else book b := by
  rw [trades] at h
  rw [handle]
  split_ifs at h ⊢ with hvalid hrests hrests
  · obtain ⟨rfl, -, hrests⟩ := hrests
    rw [enter_self, execution, execute_of_no_trades h]
    dsimp only
    rw [Order.closed_of_rests hrests, if_pos hrests]
  · by_cases hb : b = o.side.isBid
    · subst hb
      have hnot : ¬o.closed.Rests := fun hclosed =>
        hrests ⟨rfl, hvalid, Order.rests_of_closed hclosed⟩
      rw [enter_self, execution, execute_of_no_trades h]
      exact if_neg hnot
    · obtain rfl := Bool.eq_not_of_ne hb
      rw [enter_other, execution, execute_of_no_trades h]
      exact front_append_behind book o
  · exact absurd hrests.2.1 hvalid
  · rfl

theorem rest_nil : rest b o [] = [o] := rfl

theorem rest_cons (b : Bool) (o r : Order) (queue : List Order) :
    rest b o (r :: queue) =
      if better b o.price r.price then o :: r :: queue else r :: rest b o queue :=
  List.orderedInsert_cons ..

theorem rest_of_better (h : ∀ r ∈ queue, better b o.price r.price) :
    rest b o queue = o :: queue := by
  cases queue with
  | nil => rfl
  | cons r queue => rw [rest_cons, if_pos (h r (List.mem_cons_self ..))]

theorem filter_rest_of_neg {p : Order → Bool} (ho : ¬p o = true) :
    (rest b o queue).filter p = queue.filter p := by
  induction queue with
  | nil => exact List.filter_cons_of_neg ho
  | cons r queue ih =>
      rw [rest_cons]
      split_ifs
      · exact List.filter_cons_of_neg ho
      · rw [List.filter_cons, List.filter_cons, ih]

/-- An order finds its place whether others have left or not. -/
theorem filter_rest_of_pos {p : Order → Bool} (ho : p o = true)
    (hqueue : queue.Pairwise fun x y => ¬better b y.price x.price) :
    (rest b o queue).filter p = rest b o (queue.filter p) := by
  induction queue with
  | nil => exact List.filter_cons_of_pos ho
  | cons r queue ih =>
      obtain ⟨hr, hqueue⟩ := List.pairwise_cons.mp hqueue
      by_cases hbetter : better b o.price r.price
      · -- the order stands before all the rest of the list
        have hall : ∀ x ∈ r :: queue, better b o.price x.price := by
          refine List.forall_mem_cons.mpr ⟨hbetter, fun x hx => ?_⟩
          rcases eq_or_better_of_not_better (hr x hx) with heq | hlt
          · exact heq ▸ hbetter
          · exact better_trans hbetter hlt
        rw [rest_of_better hall, rest_of_better fun x hx => hall x (List.mem_of_mem_filter hx),
          List.filter_cons_of_pos ho]
      · rw [rest_cons, if_neg hbetter, List.filter_cons, List.filter_cons, ih hqueue]
        split_ifs
        · rw [rest_cons, if_neg hbetter]
        · rfl

theorem rest_comm (h : o.price ≠ o'.price) :
    rest b o (rest b o' queue) = rest b o' (rest b o queue) := by
  have hone : ¬better b o.price o'.price → better b o'.price o.price := fun hnot =>
    (eq_or_better_of_not_better hnot).resolve_left h
  induction queue with
  | nil =>
      simp only [rest_nil, rest_cons]
      by_cases hlt : better b o.price o'.price
      · rw [if_pos hlt, if_neg (better_asymm hlt)]
      · rw [if_neg hlt, if_pos (hone hlt)]
  | cons r queue ih =>
      by_cases ho : better b o.price r.price
      · by_cases ho' : better b o'.price r.price
        · by_cases hlt : better b o.price o'.price
          · simp only [rest_cons, ho, ho', hlt, better_asymm hlt, if_true, if_false]
          · simp only [rest_cons, ho, ho', hlt, hone hlt, if_true, if_false]
        · have hlt : ¬better b o'.price o.price := fun hlt => ho' (better_trans hlt ho)
          simp only [rest_cons, ho, ho', hlt, if_true, if_false]
      · by_cases ho' : better b o'.price r.price
        · have hlt : ¬better b o.price o'.price := fun hlt => ho (better_trans hlt ho')
          simp only [rest_cons, ho, ho', hlt, if_true, if_false]
        · simp only [rest_cons, ho, ho', if_false, ih]

end

end PlainBook

variable {T : Type} [OrderedTree T Decimal LevelRef]

namespace OrderBook

variable {ob : OrderBook T} {a : OrderRef}

theorem front_orders (ob : OrderBook T) (a : OrderRef) :
    PlainBook.front ob.restingOrders (ob.orderAt a) = ob.ordersOf (ob.front crosses a) := by
  rw [PlainBook.front, restingOrders, ordersOf, List.takeWhile_map]
  rfl

theorem behind_orders (ob : OrderBook T) (a : OrderRef) :
    PlainBook.behind ob.restingOrders (ob.orderAt a) = ob.ordersOf (ob.behind crosses a) := by
  rw [PlainBook.behind, restingOrders, ordersOf, List.dropWhile_map]
  rfl

theorem Ready.execution_eq (h : ob.Ready a) :
    PlainBook.execution ob.restingOrders (ob.orderAt a) =
      let w := walk a ob.orderAt (ob.front crosses a)
      ⟨w.orderAt a, w.trades, w.left.map fun e => w.orderAt e.value⟩ := by
  rw [PlainBook.execution, front_orders]
  refine walk_execute (fun e he => h.ne_elements (mem_front he)) ?_
  exact (h.wf.values_nodup _).sublist ((List.takeWhile_sublist _).map _)

theorem Ready.restingOrders_opposing (h : ob.Ready a) {ob' : OrderBook T} {o : Order}
    (horderAt : ob'.orderAt =
      Function.update (walk a ob.orderAt (ob.front crosses a)).orderAt a o)
    (helements : ob'.elements (ob.opposing a) =
      (walk a ob.orderAt (ob.front crosses a)).left ++ ob.behind crosses a) :
    ob'.restingOrders (ob.opposing a) =
      (PlainBook.execution ob.restingOrders (ob.orderAt a)).left
        ++ PlainBook.behind ob.restingOrders (ob.orderAt a) := by
  rw [restingOrders, ordersOf, helements, List.map_append, h.execution_eq, behind_orders, ordersOf,
    horderAt]
  have hnodup := h.wf.values_nodup (ob.opposing a)
  rw [← ob.front_append_behind crosses, List.map_append, List.nodup_append] at hnodup
  congr 1
  · refine List.map_congr_left fun e he => ?_
    exact Function.update_of_ne (h.ne_elements (mem_front (walk_left_suffix.subset he))) ..
  · refine List.map_congr_left fun e he => ?_
    have hmem : e ∈ ob.elements (ob.opposing a) := by
      rw [← ob.front_append_behind crosses]
      exact List.mem_append_right _ he
    have hne := h.ne_elements hmem
    refine (Function.update_of_ne hne ..).trans (walk_other hne fun x hx => ?_)
    exact hnodup.2.2 _ (List.mem_map_of_mem hx) _ (List.mem_map_of_mem he)

end OrderBook

namespace MatchingEngine

variable {me me' : MatchingEngine T} {a : OrderRef} {trades : List Trade} {request : Request}
  {requests : List Request} {o : Order} {e : Element} {b : Bool}

/-! ## A `NEW` command -/

/-- Only the aggressor and the front of the opposing side are written. -/
theorem Entered.orderAt_of_ne (h : Entered me me' a trades) {r : OrderRef} (ha : r ≠ a)
    (hr : ∀ e ∈ me.orderBook.front crosses a, e.value ≠ r) :
    me'.orderBook.orderAt r = me.orderBook.orderAt r := by
  rw [h.orderAt]
  dsimp only
  rw [Function.update_of_ne ha, walk_other ha hr]

theorem Entered.orderAt_self (h : Entered me me' a trades) (hready : me.orderBook.Ready a) :
    me'.orderBook.orderAt a =
      (PlainBook.execution me.orderBook.restingOrders
        (me.orderBook.orderAt a)).aggressor.closed := by
  rw [hready.execution_eq, h.orderAt]
  exact Function.update_self ..

theorem Entered.restingOrders_own (h : Entered me me' a trades) (hready : me.orderBook.Ready a) :
    me'.orderBook.restingOrders (me.orderBook.orderAt a).side.isBid =
      if (me'.orderBook.orderAt a).Rests then
        PlainBook.rest (me.orderBook.orderAt a).side.isBid (me'.orderBook.orderAt a)
          (me.orderBook.restingOrders (me.orderBook.orderAt a).side.isBid)
      else me.orderBook.restingOrders (me.orderBook.orderAt a).side.isBid := by
  have hkeep : ∀ e ∈ me.orderBook.elements (me.orderBook.orderAt a).side.isBid,
      me'.orderBook.orderAt e.value = me.orderBook.orderAt e.value := by
    intro e he
    refine h.orderAt_of_ne (hready.ne_elements he) fun x hx hvalue => ?_
    have hside := (hready.wf.element_unique (OrderBook.mem_front hx) he hvalue).1
    exact Bool.not_ne_self _ hside
  have hprice : ∀ r, (me'.orderBook.orderAt r).price = (me.orderBook.orderAt r).price :=
    h.of_terms Order.price fun _ => rfl
  rw [OrderBook.restingOrders, OrderBook.ordersOf, h.own]
  split_ifs
  · rw [PlainBook.rest, List.map_orderedInsert _
      (fun x y : Order => better (me.orderBook.orderAt a).side.isBid x.price y.price)]
    · exact congrArg (List.orderedInsert _ _) (List.map_congr_left hkeep)
    · exact fun x _ => by rw [hprice, hprice]; rfl
    · exact fun x _ => by rw [hprice, hprice]; rfl
  · exact List.map_congr_left hkeep

theorem Entered.plain (h : Entered me me' a trades) (hready : me.orderBook.Ready a) :
    me'.orderBook.restingOrders =
        PlainBook.enter me.orderBook.restingOrders (me.orderBook.orderAt a)
      ∧ trades =
        (PlainBook.execution me.orderBook.restingOrders (me.orderBook.orderAt a)).trades := by
  refine ⟨funext fun b => ?_, h.trades_eq.trans (by rw [hready.execution_eq])⟩
  by_cases hb : b = (me.orderBook.orderAt a).side.isBid
  · subst hb
    rw [h.restingOrders_own hready, PlainBook.enter_self, ← h.orderAt_self hready]
  · obtain rfl := Bool.eq_not_of_ne hb
    rw [PlainBook.enter_other]
    exact hready.restingOrders_opposing h.orderAt h.opposing

/-! ## A `CANCEL` command -/

theorem Withdrawn.restingOrders (h : Withdrawn me me' e) (hw : me.orderBook.WF)
    (he : e ∈ me.orderBook.elements b) (b' : Bool) :
    me'.orderBook.restingOrders b' = (me.orderBook.restingOrders b').filter
      fun o => o.id ≠ (me.orderBook.orderAt e.value).id := by
  obtain ⟨l, hl⟩ := OrderBook.mem_elements.mp he
  have hid : ∀ x ∈ me.orderBook.elements b', x ≠ e ↔
      (me.orderBook.orderAt x.value).id ≠ (me.orderBook.orderAt e.value).id := by
    intro x hx
    obtain ⟨l', hl'⟩ := OrderBook.mem_elements.mp hx
    exact not_congr ⟨fun heq => by rw [heq], fun hid => (hw.holds_unique hl' hl hid).2.2⟩
  rw [OrderBook.restingOrders, OrderBook.ordersOf, h.elements, OrderBook.restingOrders,
    OrderBook.ordersOf, List.filter_map,
    List.filter_congr fun x hx => decide_eq_decide.mpr (hid x hx)]
  refine List.map_congr_left fun x hx => ?_
  obtain ⟨hmem, hne⟩ := List.mem_filter.mp hx
  rw [h.orderAt, Function.update_of_ne]
  intro hvalue
  exact (of_decide_eq_true hne) (by rw [hvalue])

theorem filter_id_of_not_mem (hw : me.orderBook.WF) {orderID : UUID}
    (hid : orderID ∉ me.orderBook.orders) (b : Bool) :
    (me.orderBook.restingOrders b).filter (fun o => o.id ≠ orderID) =
      me.orderBook.restingOrders b := by
  refine List.filter_eq_self.mpr fun o ho => decide_eq_true fun heq => hid ?_
  exact hw.mem_orders_iff.mpr ⟨b, o, ho, heq⟩

/-! ## The refinement -/

theorem Sound.restingOrders_alloc (h : me.Sound requests) (o : Order) :
    (me.alloc o).orderBook.restingOrders = me.orderBook.restingOrders :=
  funext fun b => OrderBook.newOrder_restingOrders h.wf.layout o b

/-- Every request does to the resting orders what it does to a plain book. -/
theorem Handled.plain (h : Handled me me' request trades) (hs : me.Sound requests)
    (hfresh : FreshIDs (requests ++ [request])) :
    me'.orderBook.restingOrders = PlainBook.handle me.orderBook.restingOrders request
      ∧ trades = PlainBook.trades me.orderBook.restingOrders request := by
  cases h with
  | @entered o trades hvalid h =>
      have hplain := h.plain (hs.ready hfresh)
      rw [alloc_self, hs.restingOrders_alloc] at hplain
      simpa only [PlainBook.handle, PlainBook.trades, if_pos hvalid] using hplain
  | @rejected o hvalid h =>
      rw [PlainBook.handle, PlainBook.trades, if_neg hvalid, if_neg hvalid]
      refine ⟨funext fun b => ?_, rfl⟩
      rw [← hs.restingOrders_alloc o, h, OrderBook.restingOrders, OrderBook.ordersOf,
        reject_elements]
      refine List.map_congr_left fun e he => ?_
      exact Function.update_of_ne ((hs.ready hfresh).ne_elements he) ..
  | withdrawn he h =>
      exact ⟨funext (h.restingOrders hs.wf (OrderBook.mem_elements.mpr ⟨_, he⟩)), rfl⟩
  | notFound hid h =>
      refine ⟨funext fun b => ?_, rfl⟩
      rw [h]
      exact (filter_id_of_not_mem hs.wf hid b).symm

/-- The run lemma: so do requests one after the other. -/
theorem Run.plain {requests' : List Request} {trades' : List Trade}
    (h : Run me requests' me' trades') (hs : me.Sound requests)
    (hfresh : FreshIDs (requests ++ requests')) :
    me'.Sound (requests ++ requests')
      ∧ me'.orderBook.restingOrders = PlainBook.handleAll me.orderBook.restingOrders requests'
      ∧ trades' = PlainBook.tradesAll me.orderBook.restingOrders requests' := by
  induction h with
  | nil => exact ⟨by rwa [List.append_nil], rfl, rfl⟩
  | snoc _ hstep ih =>
      rw [← List.append_assoc] at hfresh ⊢
      obtain ⟨hs', hbook, htrades⟩ := ih hfresh.of_append
      have hh := handle_cases hs' hfresh hstep
      obtain ⟨hbook', htrades'⟩ := hh.plain hs' hfresh
      refine ⟨hs'.step hh, ?_, ?_⟩
      · rw [hbook', hbook, PlainBook.handleAll_snoc]
      · rw [htrades', htrades, hbook, PlainBook.tradesAll_snoc]

/-- Requests with fresh ids have a run, and it is the one of the plain book. -/
theorem Sound.run_plain {requests' : List Request} (h : me.Sound requests)
    (hfresh : FreshIDs (requests ++ requests')) :
    ∃ me', Run me requests' me' (PlainBook.tradesAll me.orderBook.restingOrders requests')
      ∧ me'.Sound (requests ++ requests')
      ∧ me'.orderBook.restingOrders =
        PlainBook.handleAll me.orderBook.restingOrders requests' := by
  obtain ⟨me', trades', hrun, hs'⟩ := h.run_total requests' hfresh
  obtain ⟨-, hbook, rfl⟩ := hrun.plain h hfresh
  exact ⟨me', hrun, hs', hbook⟩

end MatchingEngine

end TradingBackend
