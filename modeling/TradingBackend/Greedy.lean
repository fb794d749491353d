import Mathlib.Algebra.Order.BigOperators.Group.List
import TradingBackend.PlainBook
import TradingBackend.Uncrossed

/-!
# Matching is greedy

The specification of matching on plain lists: a side is the list of its
offers, best price first and oldest first inside a price, and an
incoming quantity eats into the list from the front. An execution
against a list of orders computes this (`execute_greedy`), hence the loops
over trees, levels and linked lists do, and a remainder goes behind
everything its price does not beat.
-/

namespace TradingBackend

/-- A resting order, as the specification sees it. -/
structure Offer where
  id : UUID
  price : Decimal
  remaining : Decimal
deriving DecidableEq, Repr

/-- A trade: with which offer, at which price, how much. -/
structure Fill where
  id : UUID
  price : Decimal
  quantity : Decimal
deriving DecidableEq, Repr

structure Outcome where
  fills : List Fill
  offers : List Offer
  remaining : Decimal
deriving DecidableEq, Repr

/-- Trade the quantity `q` against the offers, front to back. -/
def greedy (q : Decimal) : List Offer → Outcome
  | [] => ⟨[], [], q⟩
  | offer :: offers =>
      if 0 < q then
        let fill : Fill := ⟨offer.id, offer.price, min q offer.remaining⟩
        if offer.remaining ≤ q then
          let outcome := greedy (q - fill.quantity) offers
          ⟨fill :: outcome.fills, outcome.offers, outcome.remaining⟩
        else
          ⟨[fill], { offer with remaining := offer.remaining - fill.quantity } :: offers,
            q - fill.quantity⟩
      else ⟨[], offer :: offers, q⟩

section

variable {q : Decimal} {offer : Offer} {offers : List Offer}

theorem greedy_done (h : ¬0 < q) : greedy q offers = ⟨[], offers, q⟩ := by
  cases offers with
  | nil => rfl
  | cons offer offers => rw [greedy, if_neg h]

theorem greedy_filled (h : 0 < q) (hle : offer.remaining ≤ q) :
    greedy q (offer :: offers) =
      let outcome := greedy (q - offer.remaining) offers
      { outcome with fills := ⟨offer.id, offer.price, offer.remaining⟩ :: outcome.fills } := by
  simp only [greedy, h, hle, if_true, min_eq_right]

theorem greedy_partly (h : 0 < q) (hlt : q < offer.remaining) :
    greedy q (offer :: offers) =
      ⟨[⟨offer.id, offer.price, q⟩], { offer with remaining := offer.remaining - q } :: offers,
        0⟩ := by
  simp only [greedy, h, not_le.mpr hlt, if_true, if_false, min_eq_left hlt.le, sub_self]

theorem greedy_remaining (hq : 0 ≤ q) (hoffers : ∀ offer ∈ offers, 0 ≤ offer.remaining) :
    (greedy q offers).remaining = q - min q (offers.map Offer.remaining).sum := by
  induction offers generalizing q with
  | nil => rw [greedy, List.map_nil, List.sum_nil, min_eq_right hq, sub_zero]
  | cons offer offers ih =>
      obtain ⟨hoffer, hrest⟩ := List.forall_mem_cons.mp hoffers
      have hsum : 0 ≤ (offers.map Offer.remaining).sum :=
        List.sum_nonneg (List.forall_mem_map.mpr hrest)
      rw [List.map_cons, List.sum_cons]
      by_cases hpos : 0 < q
      · rcases le_or_gt offer.remaining q with hle | hlt
        · rw [greedy_filled hpos hle]
          dsimp only
          rw [ih (sub_nonneg.mpr hle) hrest, sub_sub]
          congr 1
          rw [← min_add_add_left, add_sub_cancel]
        · rw [greedy_partly hpos hlt, min_eq_left (hlt.le.trans (le_add_of_nonneg_right hsum)),
            sub_self]
      · obtain rfl : q = 0 := le_antisymm (not_lt.mp hpos) hq
        rw [greedy_done hpos, min_eq_left (add_nonneg hoffer hsum), sub_zero]

end

/-- Put an offer behind everything its price does not beat. -/
def place (isBid : Bool) (offer : Offer) (offers : List Offer) : List Offer :=
  (offers.takeWhile fun x => ¬better isBid offer.price x.price)
    ++ offer :: offers.dropWhile fun x => ¬better isBid offer.price x.price

/-- The resting order a trade of an aggressor on side `side` is with. -/
def Trade.toFill (side : OrderSide) (t : Trade) : Fill :=
  ⟨if side = .buy then t.sellOrderID else t.buyOrderID, t.price, t.quantity⟩

def Trade.aggressorID (side : OrderSide) (t : Trade) : UUID :=
  if side = .buy then t.buyOrderID else t.sellOrderID

def offerOf (m : OrderRef → Order) (e : Element) : Offer :=
  ⟨(m e.value).id, (m e.value).price, (m e.value).remainingQuantity⟩

/-- The offers of a side, best price first, oldest first inside a price. -/
def OrderBook.offers {T : Type} [OrderedTree T Decimal LevelRef] (ob : OrderBook T)
    (isBid : Bool) : List Offer :=
  (ob.elements isBid).map (offerOf ob.orderAt)

/-! ## Executions are greedy -/

def Order.offer (o : Order) : Offer := ⟨o.id, o.price, o.remainingQuantity⟩

theorem tradeBetween_toFill (a r : Order) : (tradeBetween a r).toFill a.side =
    ⟨r.id, r.price, min a.remainingQuantity r.remainingQuantity⟩ := by
  by_cases hside : a.side = .buy
  · simp only [Trade.toFill, tradeBetween, if_pos hside]
  · simp only [Trade.toFill, tradeBetween, if_neg hside]

theorem Order.fill_offer (o : Order) (q : Decimal) :
    (o.fill q).offer = { o.offer with remaining := o.remainingQuantity - q } := by
  rw [offer, fill_remainingQuantity]
  rfl

theorem execute_greedy (a : Order) (queue : List Order) :
    greedy a.remainingQuantity (queue.map Order.offer) =
      ⟨(execute a queue).trades.map (Trade.toFill a.side), (execute a queue).left.map Order.offer,
        (execute a queue).aggressor.remainingQuantity⟩ := by
  induction queue generalizing a with
  | nil => rfl
  | cons r queue ih =>
      rw [List.map_cons]
      by_cases hpos : 0 < a.remainingQuantity
      · rcases le_or_gt r.remainingQuantity a.remainingQuantity with hle | hlt
        · have hrest := ih (a.fill r.remainingQuantity)
          rw [Order.fill_remainingQuantity] at hrest
          have hle' : r.offer.remaining ≤ a.remainingQuantity := hle
          rw [greedy_filled hpos hle', execute_filled hpos hle, List.map_cons,
            tradeBetween_toFill, min_eq_right hle]
          exact congrArg (fun g : Outcome => Outcome.mk (_ :: g.fills) g.offers g.remaining) hrest
        · have hlt' : a.remainingQuantity < r.offer.remaining := hlt
          rw [greedy_partly hpos hlt', execute_partly hpos hlt, List.map_cons,
            List.map_cons, List.map_nil, tradeBetween_toFill, min_eq_left hlt.le,
            Order.fill_offer, Order.fill_remainingQuantity, sub_self]
          rfl
      · rw [greedy_done hpos, execute_done hpos]
        rfl

section

variable {a : OrderRef} {m : OrderRef → Order} {e : Element} {queue : List Element}

theorem tradeOf_aggressorID : (tradeOf m a e.value).aggressorID (m a).side = (m a).id := by
  by_cases hside : (m a).side = .buy
  · simp only [Trade.aggressorID, tradeOf, if_pos hside]
  · simp only [Trade.aggressorID, tradeOf, if_neg hside]

theorem walk_aggressorID {t : Trade} (ht : t ∈ (walk a m queue).trades) :
    t.aggressorID (m a).side = (m a).id := by
  refine (walk_invariant_mem (a := a) (m := m)
    (P := fun m' ts => ((m' a).side = (m a).side ∧ (m' a).id = (m a).id)
      ∧ ∀ t ∈ ts, t.aggressorID (m a).side = (m a).id)
    ?_ ⟨⟨rfl, rfl⟩, List.forall_mem_nil _⟩).2 t ht
  rintro m' ts e - ⟨⟨hside, hid⟩, hts⟩ -
  refine ⟨⟨tradeOrders_side.trans hside, tradeOrders_id.trans hid⟩,
    List.forall_mem_append.mpr ⟨hts, List.forall_mem_singleton.mpr ?_⟩⟩
  rw [← hside, ← hid]
  exact tradeOf_aggressorID

end

theorem exists_offer_of_fill {q : Decimal} {offers : List Offer} {fill : Fill}
    (h : fill ∈ (greedy q offers).fills) :
    ∃ offer ∈ offers, fill.id = offer.id ∧ fill.price = offer.price := by
  induction offers generalizing q with
  | nil => cases h
  | cons offer offers ih =>
      rw [greedy] at h
      split_ifs at h
      · rcases List.mem_cons.mp h with rfl | h
        · exact ⟨offer, List.mem_cons_self .., rfl, rfl⟩
        · obtain ⟨x, hx, heq⟩ := ih h
          exact ⟨x, List.mem_cons_of_mem _ hx, heq⟩
      · obtain rfl := List.mem_singleton.mp h
        exact ⟨offer, List.mem_cons_self .., rfl, rfl⟩
      · cases h

/-! ## The engine is greedy -/

variable {T : Type} [OrderedTree T Decimal LevelRef]

namespace OrderBook

/-- The offers an incoming order may trade with. -/
def crossing (ob : OrderBook T) (o : Order) : List Offer :=
  (ob.offers !o.side.isBid).filter fun offer => crosses o offer.price

/-- The other offers of the opposing side. -/
def notCrossing (ob : OrderBook T) (o : Order) : List Offer :=
  (ob.offers !o.side.isBid).filter fun offer => !crosses o offer.price

/-- `ob'` and the trades are what the specification makes of the order
`o` entering the book `ob`. -/
structure Refines (ob ob' : OrderBook T) (o : Order) (trades : List Trade) : Prop where
  front : ob.offers (!o.side.isBid) = ob.crossing o ++ ob.notCrossing o
  fills : trades.map (Trade.toFill o.side) = (greedy o.remainingQuantity (ob.crossing o)).fills
  aggressor : ∀ t ∈ trades, t.aggressorID o.side = o.id
  opposing : ob'.offers (!o.side.isBid) =
    (greedy o.remainingQuantity (ob.crossing o)).offers ++ ob.notCrossing o
  own : ob'.offers o.side.isBid =
    if o.type = .limit ∧ 0 < (greedy o.remainingQuantity (ob.crossing o)).remaining then
      place o.side.isBid
        ⟨o.id, o.price, (greedy o.remainingQuantity (ob.crossing o)).remaining⟩
        (ob.offers o.side.isBid)
    else ob.offers o.side.isBid
  limit : o.type = .limit → ∀ t ∈ trades,
    if o.side = .buy then t.price ≤ o.price else o.price ≤ t.price

/-- The specification reads only the offers of a book. -/
theorem Refines.congr {ob₁ ob ob' : OrderBook T} {o : Order} {trades : List Trade}
    (h : ob₁.Refines ob' o trades) (hoffers : ∀ b, ob₁.offers b = ob.offers b) :
    ob.Refines ob' o trades := by
  have hcrossing : ob₁.crossing o = ob.crossing o := by rw [crossing, hoffers]; rfl
  have hnot : ob₁.notCrossing o = ob.notCrossing o := by rw [notCrossing, hoffers]; rfl
  obtain ⟨hfront, hfills, hagg, hopp, hown, hlimit⟩ := h
  rw [hoffers, hcrossing, hnot] at hfront
  rw [hcrossing] at hfills hown hopp
  rw [hnot] at hopp
  rw [hoffers] at hown
  exact ⟨hfront, hfills, hagg, hopp, hown, hlimit⟩

section

variable {ob : OrderBook T} {a : OrderRef}

theorem Layout.crossing_eq (h : ob.Layout) :
    ob.crossing (ob.orderAt a) = (ob.front crosses a).map (offerOf ob.orderAt) := by
  rw [h.front_eq, crossing, offers, List.filter_map]
  rfl

theorem Layout.notCrossing_eq (h : ob.Layout) :
    ob.notCrossing (ob.orderAt a) = (ob.behind crosses a).map (offerOf ob.orderAt) := by
  rw [h.behind_eq, notCrossing, offers, List.filter_map]
  rfl

theorem crossing_orders (h : ob.Layout) :
    ob.crossing (ob.orderAt a) =
      (PlainBook.front ob.restingOrders (ob.orderAt a)).map Order.offer := by
  rw [h.crossing_eq, front_orders, ordersOf, List.map_map]
  rfl

theorem notCrossing_orders (h : ob.Layout) :
    ob.notCrossing (ob.orderAt a) =
      (PlainBook.behind ob.restingOrders (ob.orderAt a)).map Order.offer := by
  rw [h.notCrossing_eq, behind_orders, ordersOf, List.map_map]
  rfl

theorem offers_eq (ob : OrderBook T) (b : Bool) :
    ob.offers b = (ob.restingOrders b).map Order.offer := by
  rw [restingOrders, ordersOf, List.map_map]
  rfl

/-- The specification, on the execution against the plain book. -/
theorem greedy_execution (h : ob.Layout) :
    greedy (ob.orderAt a).remainingQuantity (ob.crossing (ob.orderAt a)) =
      let x := PlainBook.execution ob.restingOrders (ob.orderAt a)
      ⟨x.trades.map (Trade.toFill (ob.orderAt a).side), x.left.map Order.offer,
        x.aggressor.remainingQuantity⟩ := by
  rw [crossing_orders h]
  exact execute_greedy ..

theorem Ready.greedy_eq (h : ob.Ready a) :
    greedy (ob.orderAt a).remainingQuantity (ob.crossing (ob.orderAt a)) =
      let w := walk a ob.orderAt (ob.front crosses a)
      ⟨w.trades.map (Trade.toFill (ob.orderAt a).side), w.left.map (offerOf w.orderAt),
        (w.orderAt a).remainingQuantity⟩ := by
  rw [greedy_execution h.wf.layout, h.execution_eq]
  dsimp only
  rw [List.map_map]
  rfl

/-- Placing an offer is what putting its order into the list is. -/
theorem rest_offer (isBid : Bool) (o : Order) (queue : List Order) :
    (PlainBook.rest isBid o queue).map Order.offer =
      place isBid o.offer (queue.map Order.offer) := by
  rw [PlainBook.rest, List.orderedInsert_eq_take_drop, List.map_append, List.map_cons, place,
    List.takeWhile_map, List.dropWhile_map]
  rfl

end

end OrderBook

namespace MatchingEngine

variable {me me' : MatchingEngine T} {a : OrderRef} {trades : List Trade} {e : Element}

theorem Sound.offers_alloc {requests : List Request} (h : me.Sound requests) (o : Order)
    (b : Bool) : (me.alloc o).orderBook.offers b = me.orderBook.offers b := by
  rw [OrderBook.offers, OrderBook.offers, (me.sameShape_alloc o).elements]
  refine List.map_congr_left fun e he => ?_
  simp only [offerOf, alloc_of_lt (h.wf.value_lt he)]

theorem Sound.crossing_alloc {requests : List Request} (h : me.Sound requests) (o : Order) :
    (me.alloc o).orderBook.crossing o = me.orderBook.crossing o := by
  rw [OrderBook.crossing, h.offers_alloc]
  rfl

theorem Entered.offers_opposing (h : Entered me me' a trades) (hready : me.orderBook.Ready a) :
    me'.orderBook.offers (me.orderBook.opposing a) =
      (greedy (me.orderBook.orderAt a).remainingQuantity
        (me.orderBook.crossing (me.orderBook.orderAt a))).offers
      ++ me.orderBook.notCrossing (me.orderBook.orderAt a) := by
  rw [OrderBook.offers_eq, hready.restingOrders_opposing h.orderAt h.opposing, List.map_append,
    OrderBook.greedy_execution hready.wf.layout, OrderBook.notCrossing_orders hready.wf.layout]

/-- What goes into the book is what the specification leaves of a limit
order. -/
theorem Entered.rests_iff (h : Entered me me' a trades) (hready : me.orderBook.Ready a)
    (hvalid : (me.orderBook.orderAt a).isValid = true)
    (hopen : (me.orderBook.orderAt a).canBeFilled = true) :
    (me'.orderBook.orderAt a).Rests ↔ (me.orderBook.orderAt a).type = .limit
      ∧ 0 < (greedy (me.orderBook.orderAt a).remainingQuantity
          (me.orderBook.crossing (me.orderBook.orderAt a))).remaining := by
  rw [h.orderAt_self hready, PlainBook.rests_iff _ hvalid hopen,
    OrderBook.greedy_execution hready.wf.layout]

theorem Entered.offers_own (h : Entered me me' a trades) (hready : me.orderBook.Ready a)
    (hvalid : (me.orderBook.orderAt a).isValid = true)
    (hopen : (me.orderBook.orderAt a).canBeFilled = true) :
    me'.orderBook.offers (me.orderBook.orderAt a).side.isBid =
      let o := me.orderBook.orderAt a
      let remaining := (greedy o.remainingQuantity (me.orderBook.crossing o)).remaining
      if o.type = .limit ∧ 0 < remaining then
        place o.side.isBid ⟨o.id, o.price, remaining⟩ (me.orderBook.offers o.side.isBid)
      else me.orderBook.offers o.side.isBid := by
  have hoffer : (me'.orderBook.orderAt a).offer =
      ⟨(me.orderBook.orderAt a).id, (me.orderBook.orderAt a).price,
        (greedy (me.orderBook.orderAt a).remainingQuantity
          (me.orderBook.crossing (me.orderBook.orderAt a))).remaining⟩ := by
    rw [Order.offer, h.of_terms Order.id (fun _ => rfl), h.of_terms Order.price (fun _ => rfl),
      OrderBook.greedy_execution hready.wf.layout, h.orderAt_self hready,
      Order.closed_of_status Order.remainingQuantity (fun _ _ => rfl)]
  dsimp only
  rw [OrderBook.offers_eq, h.restingOrders_own hready]
  simp only [h.rests_iff hready hvalid hopen]
  split_ifs
  · rw [OrderBook.rest_offer, hoffer, OrderBook.offers_eq]
  · rw [OrderBook.offers_eq]

theorem Entered.fills (h : Entered me me' a trades) (hready : me.orderBook.Ready a) :
    trades.map (Trade.toFill (me.orderBook.orderAt a).side) =
      (greedy (me.orderBook.orderAt a).remainingQuantity
        (me.orderBook.crossing (me.orderBook.orderAt a))).fills := by
  rw [hready.greedy_eq, h.trades_eq]

/-- A `NEW` command does what the specification says. -/
theorem Entered.refines (h : Entered me me' a trades) (hready : me.orderBook.Ready a)
    (hvalid : (me.orderBook.orderAt a).isValid = true)
    (hopen : (me.orderBook.orderAt a).canBeFilled = true) :
    me.orderBook.Refines me'.orderBook (me.orderBook.orderAt a) trades := by
  have hfills := h.fills hready
  refine ⟨?_, hfills, fun t ht => walk_aggressorID (h.trades_eq ▸ ht),
    h.offers_opposing hready, h.offers_own hready hvalid hopen, fun hlimit t ht => ?_⟩
  · rw [hready.wf.layout.crossing_eq, hready.wf.layout.notCrossing_eq, ← List.map_append,
      OrderBook.front_append_behind]
    rfl
  · obtain ⟨offer, hoffer, -, hprice⟩ := exists_offer_of_fill
      (hfills ▸ List.mem_map_of_mem ht)
    have hcross := (List.mem_filter.mp hoffer).2
    simp only [crosses, hlimit, canMatch, reduceCtorEq, decide_false, Bool.false_or] at hcross
    rw [show t.price = offer.price from hprice]
    split_ifs with hside
    · rw [if_pos hside] at hcross
      exact of_decide_eq_true hcross
    · rw [if_neg hside] at hcross
      exact of_decide_eq_true hcross

end MatchingEngine

/-- Matching refines the greedy specification, from every book that
requests lead to. -/
theorem matchOrder_refines_greedy {me₀ me : MatchingEngine T} {requests : List Request}
    {trades₀ : List Trade} {o : Order} (h₀ : me₀.Initial)
    (hrun : MatchingEngine.Run me₀ requests me trades₀)
    (hfresh : FreshIDs (requests ++ [.new o])) (hvalid : o.isValid = true)
    (hopen : o.canBeFilled = true) :
    ∃ fuel me' trades,
      (me.alloc o).matchOrder fuel me.orderBook.nextOrder = some (me', trades)
      ∧ me.orderBook.Refines me'.orderBook o trades := by
  have hs := hrun.sound h₀ hfresh.of_append
  have hready := hs.ready hfresh
  have ho := MatchingEngine.alloc_self me o
  obtain ⟨fuel, me', trades, hmatch, hspec⟩ := MatchingEngine.matchOrder_spec hready
  rw [if_pos (ho.symm ▸ hvalid)] at hspec
  have href := hspec.refines hready (ho.symm ▸ hvalid) (ho.symm ▸ hopen)
  rw [ho] at href
  exact ⟨fuel, me', trades, hmatch, href.congr (hs.offers_alloc o)⟩

/-- `buyTen` takes the whole queue at 100, the level at 102 is out of its limit,
and what is left of it goes in front of the bid at 99. -/
theorem matchOrder_refines_greedy_buy :
    ∃ (me : MatchingEngine (SortedItems Decimal LevelRef)) (trades₀ : List Trade),
      MatchingEngine.Run emptyEngine bothSides me trades₀
      ∧ ∃ fuel me' trades,
          (me.alloc buyTen).matchOrder fuel me.orderBook.nextOrder = some (me', trades)
          ∧ trades.map (Trade.toFill .buy) = [⟨sellFive.id, 100, 5⟩, ⟨sellBehind.id, 100, 3⟩]
          ∧ me'.orderBook.offers false = [⟨sellHigher.id, 102, 5⟩]
          ∧ me'.orderBook.offers true = [⟨buyTen.id, 101, 2⟩, ⟨buyLower.id, 99, 3⟩] := by
  obtain ⟨trades₀, hrun⟩ := MatchingEngine.after_run
    (show (emptyEngine.handleAll 9 bothSides).isSome = true by decide +kernel)
  obtain ⟨fuel, me', trades, hmatch, href⟩ := matchOrder_refines_greedy (o := buyTen)
    emptyEngine_initial hrun (by decide) (by decide) (by decide)
  exact ⟨_, trades₀, hrun, fuel, me', trades, hmatch, href.fills.trans (by decide +kernel),
    href.opposing.trans (by decide +kernel), href.own.trans (by decide +kernel)⟩

/-- A limit order that passes `IsValid`, which does not look at the status. -/
def buyClosed : Order := { buyLower with status := .cancelled }

/-- An order that is neither open nor partially filled makes no trade here and is
not queued either: `matchOrder` adds only what `CanBeFilled`. -/
theorem closed_order_not_queued :
    let me := emptyEngine.after 9 [.new sellFive]
    (∃ trades₀, MatchingEngine.Run emptyEngine [.new sellFive] me trades₀)
    ∧ FreshIDs ([.new sellFive] ++ [.new buyClosed]) ∧ buyClosed.isValid = true
    ∧ ∃ me', (me.alloc buyClosed).matchOrder 9 me.orderBook.nextOrder = some (me', [])
      ∧ me'.orderBook.offers true = []
      ∧ ¬me.orderBook.Refines me'.orderBook buyClosed [] := by
  intro me
  have hmatch : ((me.alloc buyClosed).matchOrder 9 me.orderBook.nextOrder).map
      (fun r => (r.2, r.1.orderBook.offers true)) = some ([], []) := by decide +kernel
  obtain ⟨⟨me', trades⟩, hsome, heq⟩ := Option.map_eq_some_iff.mp hmatch
  obtain ⟨rfl, hown⟩ := Prod.mk.inj heq
  refine ⟨MatchingEngine.after_run (by decide +kernel), by decide, by decide, me', hsome, hown,
    fun href => ?_⟩
  have hplaced : me'.orderBook.offers true = [⟨buyClosed.id, 99, 3⟩] :=
    href.own.trans (by decide +kernel)
  rw [hown] at hplaced
  cases hplaced

end TradingBackend
