import TradingBackend.BookView
import TradingBackend.Walk

/-!
# Matching sweeps the book

The three nested loops of the engine against the one-pass `walk`. The
relation `Swept` says what a loop has done to the engine: the orders and
the trades are those of the walk along a part `swept` of the opposing
side, and that side is what the walk left of it followed by the part
`rest` the loop did not look at. `matchAgainstPriceLevel` sweeps the
queue of one level, and the outer loops sweep, level by level, every
order whose price the aggressor accepts.

Nothing is assumed about the quantities: every trade fills the resting
order or the aggressor, whatever is left of them.
-/

namespace TradingBackend

variable {T : Type}

namespace MatchingEngine

/-- What matching never writes. -/
structure Frame (me me' : MatchingEngine T) : Prop where
  tradeHandler : me'.tradeHandler = me.tradeHandler
  wsTradeHandler : me'.wsTradeHandler = me.wsTradeHandler
  wsOrderbookHandler : me'.wsOrderbookHandler = me.wsOrderbookHandler
  wsOrderUpdateHandler : me'.wsOrderUpdateHandler = me.wsOrderUpdateHandler
  instrument : me'.orderBook.instrument = me.orderBook.instrument
  nextOrder : me'.orderBook.nextOrder = me.orderBook.nextOrder

theorem Frame.refl (me : MatchingEngine T) : Frame me me := ⟨rfl, rfl, rfl, rfl, rfl, rfl⟩

theorem Frame.trans {me me' me'' : MatchingEngine T} (h : Frame me me') (h' : Frame me' me'') :
    Frame me me'' :=
  ⟨h'.tradeHandler.trans h.tradeHandler, h'.wsTradeHandler.trans h.wsTradeHandler,
    h'.wsOrderbookHandler.trans h.wsOrderbookHandler,
    h'.wsOrderUpdateHandler.trans h.wsOrderUpdateHandler, h'.instrument.trans h.instrument,
    h'.nextOrder.trans h.nextOrder⟩

end MatchingEngine

variable [OrderedTree T Decimal LevelRef]

namespace OrderBook

/-- The book can match `a`: it is well formed and `a` is not in it. -/
structure Ready (ob : OrderBook T) (a : OrderRef) : Prop where
  wf : ob.WF
  absent : (ob.orderAt a).id ∉ ob.orders
  allocated : a < ob.nextOrder

section

variable {ob : OrderBook T} {a : OrderRef} {b : Bool} {l : LevelRef} {e : Element}

theorem Ready.ne (h : ob.Ready a) (he : ob.Holds b l e) : e.value ≠ a := by
  rintro rfl
  exact h.absent (Finmap.mem_of_lookup_eq_some (h.wf.lookup he))

theorem Ready.ne_elements (h : ob.Ready a) (he : e ∈ ob.elements b) : e.value ≠ a := by
  obtain ⟨l, he⟩ := mem_elements.mp he
  exact h.ne he

/-! ## One trade -/

/-- The book after a trade with the order of element `e` of level `l`,
filled or not, and after `UpdateOrder`. -/
def traded (ob : OrderBook T) (a : OrderRef) (l : LevelRef) (e : Element) : OrderBook T :=
  { ob with
    orderAt := tradeOrders ob.orderAt a e.value
    levelAt := Function.update ob.levelAt l
      ((ob.levelAt l).updateVolume (tradeOrders ob.orderAt a e.value)) }

/-- `UpdateOrder` finds the resting order under its id and writes what
`Fill` wrote through the pointer; the volume is all it changes. -/
theorem updateOrder_executeTrade (h : ob.Ready a) (he : ob.Holds b l e) :
    (ob.executeTrade a e.value).1.updateOrder (tradeOrders ob.orderAt a e.value e.value).id
      (tradeOrders ob.orderAt a e.value e.value).filledQuantity = ob.traded a l e := by
  have hfill : (tradeOrders ob.orderAt a e.value e.value).setFilled
      (tradeOrders ob.orderAt a e.value e.value).filledQuantity =
      tradeOrders ob.orderAt a e.value e.value := by
    rw [tradeOrders_resting (h.ne he)]
    exact Order.fill_setFilled
  rw [tradeOrders_id, executeTrade_eq]
  simp only [updateOrder, h.wf.lookup he, setOrder, setLevel, hfill, Function.update_eq_self,
    traded]

theorem sameShape_traded (ob : OrderBook T) (a : OrderRef) (l : LevelRef) (e : Element) :
    SameShape ob (ob.traded a l e) := by
  have hvol := sameShape_updateVolume ob l (tradeOrders ob.orderAt a e.value)
  exact { hvol with
    id := fun _ _ => tradeOrders_id
    side := fun _ _ => tradeOrders_side
    orderPrice := fun _ _ => tradeOrders_price }

theorem Ready.traded (h : ob.Ready a) (he : ob.Holds b l e) : (ob.traded a l e).Ready a := by
  refine ⟨?_, ?_, h.allocated⟩
  · -- the aggressor is in no queue, so its fill leaves the volumes alone
    have haggr : (ob.setOrder a ((ob.orderAt a).fill (matchQty ob.orderAt a e.value))).WF :=
      h.wf.setOrder h.ne rfl rfl rfl
    exact haggr.fillQueued he rfl rfl rfl
  · show (tradeOrders ob.orderAt a e.value a).id ∉ ob.orders
    rw [tradeOrders_id]
    exact h.absent

end

end OrderBook

namespace MatchingEngine

variable {me me' me'' : MatchingEngine T} {a : OrderRef} {b : Bool} {l : LevelRef} {e : Element}
  {queue rest swept : List Element} {trades trades' : List Trade}

/-- Whether the trade with the order of element `e` takes it out of the
book. -/
def Consumed (me : MatchingEngine T) (a : OrderRef) (e : Element) : Prop :=
  (tradeOrders me.orderBook.orderAt a e.value e.value).isFilled = true

instance (me : MatchingEngine T) (a : OrderRef) (e : Element) : Decidable (me.Consumed a e) :=
  inferInstanceAs (Decidable (_ = true))

/-- The engine after one iteration of the loop over a level. -/
def afterTrade (me : MatchingEngine T) (a : OrderRef) (e : Element) : MatchingEngine T :=
  { me with orderBook := (me.orderBook.executeTrade a e.value).1 }.settleResting e.value

theorem afterTrade_filled (h : me.orderBook.Ready a) (he : me.orderBook.Holds b l e)
    (hf : me.Consumed a e) :
    me.afterTrade a e =
      let ob := (me.orderBook.traded a l e).detach
        ((me.orderBook.traded a l e).orderAt e.value).id ⟨l, e⟩
      let removed := ob.orderAt e.value
      { me with orderBook := ob }.publishOrderbookChange removed.feedSide .remove removed.price 0
        removed.remainingQuantity := by
  have hupd := OrderBook.updateOrder_executeTrade h he
  have hlook := (h.traded he).wf.lookup ((me.orderBook.sameShape_traded a l e).holds_iff.mpr he)
  have hf : ((me.orderBook.traded a l e).orderAt e.value).isFilled = true := hf
  unfold afterTrade settleResting
  simp only [OrderBook.executeTrade_eq] at hupd ⊢
  rw [hupd, if_pos hf]
  simp only [OrderBook.removeOrder, hlook]

theorem afterTrade_partly (h : me.orderBook.Ready a) (he : me.orderBook.Holds b l e)
    (hf : ¬me.Consumed a e) :
    me.afterTrade a e = { me with orderBook := me.orderBook.traded a l e } := by
  have hupd := OrderBook.updateOrder_executeTrade h he
  have hf : ¬((me.orderBook.traded a l e).orderAt e.value).isFilled = true := hf
  unfold afterTrade settleResting
  simp only [OrderBook.executeTrade_eq] at hupd ⊢
  rw [hupd, if_neg hf]

/-- What a trade with the first order of the queue of level `l` does. -/
structure Settled (me me' : MatchingEngine T) (a : OrderRef) (b : Bool) (l : LevelRef)
    (e : Element) (queue rest : List Element) : Prop where
  frame : Frame me me'
  nextElement : me'.orderBook.nextElement = me.orderBook.nextElement
  ready : me'.orderBook.Ready a
  orderAt : me'.orderBook.orderAt = tradeOrders me.orderBook.orderAt a e.value
  level : (me'.orderBook.levelAt l).orders = if me.Consumed a e then queue else e :: queue
  elements : me'.orderBook.elements b =
    (if me.Consumed a e then queue else e :: queue) ++ rest
  elements_other : me'.orderBook.elements (!b) = me.orderBook.elements (!b)
  holds : ∀ x ∈ (me'.orderBook.levelAt l).orders, me'.orderBook.Holds b l x

theorem afterTrade_settled (h : me.orderBook.Ready a)
    (hlevel : (me.orderBook.levelAt l).orders = e :: queue)
    (hel : me.orderBook.elements b = e :: queue ++ rest)
    (hholds : ∀ x ∈ (me.orderBook.levelAt l).orders, me.orderBook.Holds b l x) :
    Settled me (me.afterTrade a e) a b l e queue rest := by
  have he := hholds e (hlevel ▸ List.mem_cons_self ..)
  have hsame := me.orderBook.sameShape_traded a l e
  have hready := h.traded he
  by_cases hf : me.Consumed a e
  · have he' := hsame.holds_iff.mpr he
    have hdet := OrderBook.detach_detached hready.wf.layout he'
    have hlevel' : ((me.orderBook.traded a l e).levelAt l).orders = e :: queue :=
      (hsame.queue l).trans hlevel
    have hnodup := hready.wf.layout.elements_nodup b
    rw [hsame.elements, hel, List.cons_append, List.nodup_cons] at hnodup
    rw [afterTrade_filled h he hf]
    set ob := (me.orderBook.traded a l e).detach
      ((me.orderBook.traded a l e).orderAt e.value).id ⟨l, e⟩ with hob
    have hgone : ((ob.levelAt l)).orders = queue := by
      rw [hdet.level_self]
      simp only [PriceLevel.removeOrder, hlevel', List.erase_cons_head]
    refine ⟨⟨rfl, rfl, rfl, rfl, OrderBook.detach_instrument .., hdet.nextOrder⟩,
      hdet.nextElement, ⟨hdet.wf hready.wf he', ?_, hdet.nextOrder ▸ hready.allocated⟩,
      hdet.orderAt, hgone.trans (if_pos hf).symm, ?_, ?_, ?_⟩
    · show (ob.orderAt a).id ∉ ob.orders
      rw [hdet.orders, hdet.orderAt, Finmap.mem_erase]
      exact fun hmem => hready.absent hmem.2
    · rw [if_pos hf]
      refine (hdet.elements hready.wf he' b).trans ?_
      rw [hsame.elements, hel, List.cons_append, List.filter_cons_of_neg (by simp),
        List.filter_eq_self]
      exact fun x hx => decide_eq_true fun heq => hnodup.1 (heq ▸ hx)
    · refine (hdet.elements hready.wf he' (!b)).trans ?_
      rw [hsame.elements, List.filter_eq_self]
      refine fun x hx => decide_eq_true fun heq => ?_
      obtain ⟨l', hx⟩ := OrderBook.mem_elements.mp hx
      exact absurd (h.wf.holds_unique (heq ▸ hx) he rfl).1 (by cases b <;> decide)
    · intro x hx
      have hx : x ∈ queue := hgone ▸ hx
      refine (hdet.holds_iff hready.wf he').mpr ⟨hsame.holds_iff.mpr ?_, fun heq => ?_⟩
      · exact hholds x (hlevel ▸ List.mem_cons_of_mem _ hx)
      · exact hnodup.1 (heq ▸ List.mem_append_left _ hx)
  · rw [afterTrade_partly h he hf]
    refine ⟨⟨rfl, rfl, rfl, rfl, rfl, rfl⟩, rfl, hready, rfl, ?_, ?_, hsame.elements _, ?_⟩
    · rw [if_neg hf]
      exact (hsame.queue l).trans hlevel
    · rw [if_neg hf]
      exact (hsame.elements b).trans hel
    · intro x hx
      exact hsame.holds_iff.mpr (hholds x ((hsame.queue l) ▸ hx))

/-! ## Sweeps -/

/-- The engine went from `me` to `me'` by the walk of `a` along `swept`,
the front of side `b`. -/
structure Swept (me me' : MatchingEngine T) (a : OrderRef) (b : Bool)
    (swept rest : List Element) (trades : List Trade) : Prop where
  frame : Frame me me'
  nextElement : me'.orderBook.nextElement = me.orderBook.nextElement
  ready : me'.orderBook.Ready a
  orderAt : me'.orderBook.orderAt = (walk a me.orderBook.orderAt swept).orderAt
  trades_eq : trades = (walk a me.orderBook.orderAt swept).trades
  elements : me'.orderBook.elements b = (walk a me.orderBook.orderAt swept).left ++ rest
  elements_other : me'.orderBook.elements (!b) = me.orderBook.elements (!b)

namespace Swept

/-- Anything a fill leaves alone, a sweep leaves alone. -/
theorem of_fill {β : Type} (f : Order → β) (hf : ∀ o q, f (o.fill q) = f o)
    (h : Swept me me' a b swept rest trades) (r : OrderRef) :
    f (me'.orderBook.orderAt r) = f (me.orderBook.orderAt r) := by
  rw [h.orderAt]
  exact walk_of_fill f hf ..

theorem done (h : me.orderBook.Ready a) (hel : me.orderBook.elements b = swept ++ rest)
    (hdone : 0 < (me.orderBook.orderAt a).remainingQuantity → swept = []) :
    Swept me me a b swept rest [] := by
  have hwalk : walk a me.orderBook.orderAt swept = ⟨me.orderBook.orderAt, [], swept⟩ := by
    by_cases hpos : 0 < (me.orderBook.orderAt a).remainingQuantity
    · rw [hdone hpos]
      rfl
    · exact walk_done hpos
  refine ⟨Frame.refl me, rfl, h, ?_, ?_, ?_, rfl⟩ <;> rw [hwalk]
  exact hel

/-- One trade, and then a sweep of what is left of the queue. -/
theorem trade (hs : Settled me me' a b l e queue rest) (hne : e.value ≠ a)
    (hpos : 0 < (me.orderBook.orderAt a).remainingQuantity)
    (h : Swept me' me'' a b (me'.orderBook.levelAt l).orders rest trades) :
    Swept me me'' a b (e :: queue) rest (tradeOf me.orderBook.orderAt a e.value :: trades) := by
  have hwalk := walk_step queue hne hpos
  have hnext : walk a me'.orderBook.orderAt (me'.orderBook.levelAt l).orders = walk a
      (tradeOrders me.orderBook.orderAt a e.value)
      (if me.Consumed a e then queue else e :: queue) := by
    rw [hs.orderAt, hs.level]
  refine ⟨hs.frame.trans h.frame, h.nextElement.trans hs.nextElement, h.ready, ?_, ?_, ?_,
    h.elements_other.trans hs.elements_other⟩
  · rw [h.orderAt, hnext, hwalk]
    rfl
  · rw [h.trades_eq, hnext, hwalk]
    rfl
  · rw [h.elements, hnext, hwalk]
    rfl

/-- Two sweeps, the second one along the orders behind the first. -/
theorem append {swept' : List Element} (hne : ∀ e ∈ swept, e.value ≠ a)
    (h : Swept me me' a b swept (swept' ++ rest) trades)
    (hleft : (walk a me.orderBook.orderAt swept).left = [])
    (h' : Swept me' me'' a b swept' rest trades') :
    Swept me me'' a b (swept ++ swept') rest (trades ++ trades') := by
  have hwalk := walk_append (m := me.orderBook.orderAt) hne swept'
  rw [if_pos hleft, ← h.orderAt] at hwalk
  refine ⟨h.frame.trans h'.frame, h'.nextElement.trans h.nextElement, h'.ready, ?_, ?_, ?_,
    h'.elements_other.trans h.elements_other⟩
  · rw [hwalk, h'.orderAt]
  · rw [hwalk, h.trades_eq, h'.trades_eq]
  · rw [hwalk, h'.elements]

/-- A sweep that ends before the end of a list is a sweep of the list. -/
theorem extend {swept' : List Element} (hne : ∀ e ∈ swept, e.value ≠ a)
    (h : Swept me me' a b swept (swept' ++ rest) trades)
    (hdone : ¬0 < (me'.orderBook.orderAt a).remainingQuantity) :
    Swept me me' a b (swept ++ swept') rest trades := by
  by_cases hleft : (walk a me.orderBook.orderAt swept).left = []
  · rw [← List.append_nil trades]
    refine h.append hne hleft (done h.ready ?_ fun hpos => absurd hpos hdone)
    rw [h.elements, hleft, List.nil_append]
  · have hwalk := walk_append (m := me.orderBook.orderAt) hne swept'
    rw [if_neg hleft] at hwalk
    refine ⟨h.frame, h.nextElement, h.ready, ?_, ?_, ?_, h.elements_other⟩
    · rw [hwalk, h.orderAt]
    · rw [hwalk, h.trades_eq]
    · rw [hwalk, h.elements, List.append_assoc]

end Swept

/-! ## The loop over a level -/

/-- The invariant of the loop over level `l`: the scan is at the front of
the queue as long as there is something to trade. -/
structure Scanning (a : OrderRef) (b : Bool) (l : LevelRef) (rest : List Element)
    (s : LevelScan T) : Prop where
  ready : s.engine.orderBook.Ready a
  elements : s.engine.orderBook.elements b = (s.engine.orderBook.levelAt l).orders ++ rest
  holds : ∀ x ∈ (s.engine.orderBook.levelAt l).orders, s.engine.orderBook.Holds b l x
  front : 0 < (s.engine.orderBook.orderAt a).remainingQuantity →
    s.element = (s.engine.orderBook.levelAt l).orders.head?

theorem scanBody_trade {s : LevelScan T} (he : s.element = some e)
    (hpos : 0 < (s.engine.orderBook.orderAt a).remainingQuantity) :
    scanBody a l s = .inr ⟨s.engine.afterTrade a e,
      nextElement e (s.engine.orderBook.levelAt l).orders,
      s.trades ++ [tradeOf s.engine.orderBook.orderAt a e.value]⟩ := by
  simp only [scanBody, he, hpos, if_true, afterTrade, OrderBook.executeTrade_eq]

theorem scanBody_exit {s : LevelScan T}
    (h : s.element = none ∨ ¬0 < (s.engine.orderBook.orderAt a).remainingQuantity) :
    scanBody a l s = .inl (s.engine, s.trades) := by
  unfold scanBody
  split
  · rfl
  · rename_i he
    rw [if_neg (h.resolve_left (by rw [he]; nofun))]

theorem scanBody_mono (a : OrderRef) (l : LevelRef) :
    Loop.Mono fun _ (s : LevelScan T) => some (scanBody a l s) := fun _ _ _ _ _ hb => hb

/-- The scan trades with the first order of the queue and stays at the
front. -/
theorem Scanning.step {s : LevelScan T} (h : Scanning a b l rest s) (he : s.element = some e)
    (hpos : 0 < (s.engine.orderBook.orderAt a).remainingQuantity) :
    ∃ queue, (s.engine.orderBook.levelAt l).orders = e :: queue
      ∧ Settled s.engine (s.engine.afterTrade a e) a b l e queue rest
      ∧ Scanning a b l rest ⟨s.engine.afterTrade a e,
          nextElement e (s.engine.orderBook.levelAt l).orders,
          s.trades ++ [tradeOf s.engine.orderBook.orderAt a e.value]⟩ := by
  obtain ⟨queue, hq⟩ : ∃ queue, (s.engine.orderBook.levelAt l).orders = e :: queue := by
    cases horders : (s.engine.orderBook.levelAt l).orders with
    | nil => rw [h.front hpos, horders] at he; cases he
    | cons x queue =>
        rw [h.front hpos, horders, List.head?_cons, Option.some.injEq] at he
        exact ⟨queue, by rw [he]⟩
  have hs := afterTrade_settled h.ready hq (by rw [h.elements, hq]) h.holds
  refine ⟨queue, hq, hs, hs.ready, hs.elements.trans (by rw [hs.level]), hs.holds, fun hpos' => ?_⟩
  -- the aggressor still has a remainder, so the resting order is gone
  have hgone : s.engine.Consumed a e := by
    by_contra hf
    have hzero := aggressor_filled (h.ready.ne (h.holds e (hq ▸ List.mem_cons_self ..))) hf
    dsimp only at hpos'
    rw [hs.orderAt, hzero] at hpos'
    exact lt_irrefl 0 hpos'
  dsimp only
  rw [hs.level, if_pos hgone, hq, nextElement, if_pos rfl]

theorem matchAgainstPriceLevel_swept (h : me.orderBook.Ready a)
    (hel : me.orderBook.elements b = (me.orderBook.levelAt l).orders ++ rest)
    (hholds : ∀ x ∈ (me.orderBook.levelAt l).orders, me.orderBook.Holds b l x) :
    ∃ fuel me' trades, me.matchAgainstPriceLevel fuel a l = some (me', trades)
      ∧ Swept me me' a b (me.orderBook.levelAt l).orders rest trades := by
  -- a trade takes the first order off the queue or leaves nothing to trade
  let variant (s : LevelScan T) : Nat := (s.engine.orderBook.levelAt l).orders.length
    + if 0 < (s.engine.orderBook.orderAt a).remainingQuantity then 1 else 0
  let post (s : LevelScan T) (r : MatchingEngine T × List Trade) : Prop :=
    ∃ ts, r.2 = s.trades ++ ts
      ∧ Swept s.engine r.1 a b (s.engine.orderBook.levelAt l).orders rest ts
  have hloop := Loop.iterate_total (scanBody_mono a l) (Scanning a b l rest) variant post ?_
    ⟨me, (me.orderBook.levelAt l).orders.head?, []⟩ ⟨h, hel, hholds, fun _ => rfl⟩
  · obtain ⟨fuel, ⟨me', ts⟩, hrun, ts', hts, hswept⟩ := hloop
    obtain rfl : ts = ts' := hts
    exact ⟨fuel, me', ts, hrun, hswept⟩
  · intro s hs
    by_cases hgo : s.element = none ∨ ¬0 < (s.engine.orderBook.orderAt a).remainingQuantity
    · refine ⟨0, _, congrArg some (scanBody_exit hgo), [], (List.append_nil _).symm,
        Swept.done hs.ready hs.elements fun hpos => ?_⟩
      rw [← List.head?_eq_none_iff, ← hs.front hpos]
      exact hgo.resolve_right (not_not_intro hpos)
    · rw [not_or, not_not] at hgo
      obtain ⟨e, he⟩ := Option.ne_none_iff_exists'.mp hgo.1
      obtain ⟨queue, hq, hset, hscan⟩ := hs.step he hgo.2
      have hne := hs.ready.ne (hs.holds e (hq ▸ List.mem_cons_self ..))
      refine ⟨0, _, congrArg some (scanBody_trade he hgo.2), hscan, ?_, ?_⟩
      · simp only [variant, hset.level, hq, if_pos hgo.2, List.length_cons]
        by_cases hf : s.engine.Consumed a e
        · rw [if_pos hf]
          split_ifs <;> omega
        · have hzero := aggressor_filled hne hf
          rw [← hset.orderAt] at hzero
          rw [if_neg hf, hzero, if_neg (lt_irrefl 0), List.length_cons]
          omega
      · rintro ⟨me', ts⟩ ⟨ts', hts, hswept⟩
        refine ⟨_ :: ts', ?_, hq ▸ hswept.trade hset hne hgo.2⟩
        rw [hts, List.append_assoc]
        rfl

end MatchingEngine

end TradingBackend
