import TradingBackend.Effects
import TradingBackend.LevelVolumes

/-!
# The feeds

What a consumer of the engine's effects knows: the sum of the size changes at
a price (`changeFeed`), the last size a WebSocket client got for a price
(`wsFeed`), the last update of an order (`updateFeed`).

Of everything a command does to the book and the orders the engine tells a
part. A trade changes the volume of a level and a resting order, and neither is
told: the removal of a filled order is published with the size 0 it has by
then. So the sum of changes stays ahead of the volume by what was traded there.
The WebSocket gets the size of the new order and not of its level, and nothing
about a cancel. Order updates are about the new order only, and only if it is
valid.

For each feed the commands after which it is still exact are given by what the
command finds, and a run keeps the feeds exact if and only if it is made of
such commands.
-/

namespace TradingBackend

def OrderSide.ofBid (isBid : Bool) : OrderSide := if isBid then .buy else .sell

theorem OrderSide.ofBid_inj {b b' : Bool} : OrderSide.ofBid b = OrderSide.ofBid b' ↔ b = b' := by
  cases b <;> cases b' <;> decide

theorem Order.feedSide_eq {o : Order} (h : o.side ≠ .unknown) :
    o.feedSide = .ofBid o.side.isBid := by
  cases hside : o.side with
  | buy | sell => simp [feedSide, hside, OrderSide.ofBid, OrderSide.isBid]
  | unknown => exact absurd hside h

/-! ## Readings of the effects -/

namespace Effect

/-- `NewSize - OldSize` of an `OrderbookChange` event for a side and a
price. -/
def change (side : OrderSide) (price : Decimal) : Effect → Decimal
  | .orderbookChange event =>
      if event.side = side ∧ event.price = price then event.newSize - event.oldSize else 0
  | _ => 0

/-- The size of a call of `wsOrderbookHandler` for a side and a price. -/
def wsSize (side : OrderSide) (price : Decimal) : Effect → Option Decimal
  | .wsOrderbook _ side' price' size => if side' = side ∧ price' = price then some size else none
  | _ => none

def update (orderID : UUID) : Effect → Option Order
  | .wsOrderUpdate order => if order.id = orderID then some order else none
  | _ => none

end Effect

/-- The last thing that `f` finds in the effects. -/
def lastOf {β : Type} (f : Effect → Option β) (effects : List Effect) : Option β :=
  (effects.filterMap f).getLast?

/-- The sum of the size changes published for a side and a price. -/
def changeFeed (effects : List Effect) (side : OrderSide) (price : Decimal) : Decimal :=
  (effects.map (Effect.change side price)).sum

/-- The last size sent for a side and a price, 0 if there is none. -/
def wsFeed (effects : List Effect) (side : OrderSide) (price : Decimal) : Decimal :=
  (lastOf (Effect.wsSize side price) effects).getD 0

def updateFeed (effects : List Effect) (orderID : UUID) : Option Order :=
  lastOf (Effect.update orderID) effects

section

variable {β : Type} {f : Effect → Option β} {es es' : List Effect} {side : OrderSide}
  {price : Decimal} {id : UUID} {x : Effect}

theorem lastOf_append : lastOf f (es ++ es') = (lastOf f es').or (lastOf f es) := by
  simp [lastOf]

theorem lastOf_eq_none (h : ∀ x ∈ es, f x = none) : lastOf f es = none := by
  rw [lastOf, List.filterMap_eq_nil_iff.mpr h, List.getLast?_nil]

theorem changeFeed_append :
    changeFeed (es ++ es') side price = changeFeed es side price + changeFeed es' side price := by
  simp [changeFeed]

theorem changeFeed_eq_zero (h : ∀ x ∈ es, x.change side price = 0) :
    changeFeed es side price = 0 := by
  rw [changeFeed, List.map_congr_left h]
  simp

namespace Effect.Idle

theorem change_eq (h : x.Idle) : x.change side price = 0 := by
  obtain ⟨event, rfl, hsize⟩ := h
  simp [Effect.change, hsize]

theorem wsSize_eq (h : x.Idle) : x.wsSize side price = none := by
  obtain ⟨event, rfl, -⟩ := h
  rfl

theorem update_eq (h : x.Idle) : x.update id = none := by
  obtain ⟨event, rfl, -⟩ := h
  rfl

end Effect.Idle

end

namespace MatchingEngine

section

variable {T : Type} {me me' : MatchingEngine T} {a : OrderRef} {trades : List Trade}
  {side : OrderSide} {price : Decimal} {id : UUID} {x : Effect}

theorem mem_announcedTrades (h : x ∈ me.announcedTrades trades) :
    ∃ t, x = .tradeHandler t ∨ x = .newTrade t ∨ x = .wsTrade t := by
  simp only [announcedTrades, List.mem_append] at h
  rcases h with (h | h) | h
  · split_ifs at h
    · obtain ⟨t, -, rfl⟩ := List.mem_map.mp h
      exact ⟨t, Or.inl rfl⟩
    · cases h
  · obtain ⟨t, -, rfl⟩ := List.mem_map.mp h
    exact ⟨t, Or.inr (Or.inl rfl)⟩
  · split_ifs at h
    · obtain ⟨t, -, rfl⟩ := List.mem_map.mp h
      exact ⟨t, Or.inr (Or.inr rfl)⟩
    · cases h

theorem mem_announced (h : x ∈ me.announced a trades) :
    x ∈ me.announcedTrades trades ∨ x = .wsOrderUpdate (me.orderBook.orderAt a) := by
  rcases List.mem_append.mp h with h | h
  · exact Or.inl h
  · split_ifs at h
    · exact Or.inr (List.mem_singleton.mp h)
    · cases h

theorem changeFeed_announced : changeFeed (me.announced a trades) side price = 0 := by
  refine changeFeed_eq_zero fun x hx => ?_
  rcases mem_announced hx with hx | rfl
  · obtain ⟨t, rfl | rfl | rfl⟩ := mem_announcedTrades hx <;> rfl
  · rfl

theorem wsSize_announced : lastOf (Effect.wsSize side price) (me.announced a trades) = none := by
  refine lastOf_eq_none fun x hx => ?_
  rcases mem_announced hx with hx | rfl
  · obtain ⟨t, rfl | rfl | rfl⟩ := mem_announcedTrades hx <;> rfl
  · rfl

theorem update_announced (hhandler : me.wsOrderUpdateHandler = true) :
    lastOf (Effect.update id) (me.announced a trades) =
      if (me.orderBook.orderAt a).id = id then some (me.orderBook.orderAt a) else none := by
  have htrades : lastOf (Effect.update id) (me.announcedTrades trades) = none := by
    refine lastOf_eq_none fun x hx => ?_
    obtain ⟨t, rfl | rfl | rfl⟩ := mem_announcedTrades hx <;> rfl
  rw [announced, if_pos hhandler, lastOf_append, htrades, Option.or_none]
  by_cases hid : (me.orderBook.orderAt a).id = id <;> simp [lastOf, Effect.update, hid]

theorem changeFeed_rested : changeFeed (me.rested a) side price =
    if (me.orderBook.orderAt a).Rests ∧ (me.orderBook.orderAt a).feedSide = side
        ∧ (me.orderBook.orderAt a).price = price
      then (me.orderBook.orderAt a).remainingQuantity else 0 := by
  by_cases hrests : (me.orderBook.orderAt a).Rests
  · cases hws : me.wsOrderbookHandler <;> simp [rested, hrests, hws, changeFeed, Effect.change]
  · simp [rested, hrests, changeFeed]

theorem wsSize_rested (hhandler : me.wsOrderbookHandler = true) :
    lastOf (Effect.wsSize side price) (me.rested a) =
      if (me.orderBook.orderAt a).Rests ∧ (me.orderBook.orderAt a).feedSide = side
          ∧ (me.orderBook.orderAt a).price = price
        then some (me.orderBook.orderAt a).remainingQuantity else none := by
  by_cases hrests : (me.orderBook.orderAt a).Rests
  · by_cases hkey : (me.orderBook.orderAt a).feedSide = side
        ∧ (me.orderBook.orderAt a).price = price
    · simp [rested, hrests, hhandler, lastOf, Effect.wsSize, hkey]
    · simp [rested, hrests, hhandler, lastOf, Effect.wsSize, hkey]
  · simp [rested, hrests, lastOf]

theorem update_rested : lastOf (Effect.update id) (me.rested a) = none := by
  unfold rested
  dsimp only
  split_ifs <;> rfl

theorem cancelled_updateFeed {e : Element}
    (heffects : me'.effects = me.effects ++ [me.cancelled e]) (id : UUID) :
    updateFeed me'.effects id = updateFeed me.effects id := by
  rw [updateFeed, heffects, lastOf_append, lastOf_eq_none (List.forall_mem_singleton.mpr rfl),
    Option.none_or]
  rfl

theorem entered_feeds {idle : List Effect} {b : Bool} {p : Decimal}
    (hws : me'.wsOrderbookHandler = true) (hside : (me'.orderBook.orderAt a).side ≠ .unknown)
    (hidle : ∀ x ∈ idle, x.Idle)
    (heffects : me'.effects = me.effects ++ idle ++ me'.rested a ++ me'.announced a trades) :
    let here := (me'.orderBook.orderAt a).Rests ∧ (me'.orderBook.orderAt a).side.isBid = b
      ∧ (me'.orderBook.orderAt a).price = p
    changeFeed me'.effects (.ofBid b) p = changeFeed me.effects (.ofBid b) p
        + (if here then (me'.orderBook.orderAt a).remainingQuantity else 0)
      ∧ wsFeed me'.effects (.ofBid b) p =
        if here then (me'.orderBook.orderAt a).remainingQuantity
        else wsFeed me.effects (.ofBid b) p := by
  have hfeed : (me'.orderBook.orderAt a).feedSide = .ofBid b ↔
      (me'.orderBook.orderAt a).side.isBid = b := by
    rw [Order.feedSide_eq hside, OrderSide.ofBid_inj]
  have hidleWs : lastOf (Effect.wsSize (.ofBid b) p) idle = none :=
    lastOf_eq_none fun x hx => (hidle x hx).wsSize_eq
  dsimp only
  constructor
  · rw [heffects, changeFeed_append, changeFeed_append, changeFeed_append, changeFeed_announced,
      changeFeed_rested, changeFeed_eq_zero fun x hx => (hidle x hx).change_eq, add_zero, add_zero]
    simp only [hfeed]
  · rw [wsFeed, heffects, lastOf_append, lastOf_append, lastOf_append, wsSize_announced,
      wsSize_rested hws, hidleWs, Option.none_or, Option.none_or]
    simp only [hfeed]
    split_ifs <;> rfl

end

section

variable {T : Type} [OrderedTree T Decimal LevelRef] {me me' : MatchingEngine T} {a : OrderRef}
  {trades : List Trade} {request : Request} {requests : List Request} {o : Order}

/-! ## Commands that trade -/

/-- The order trades: something of it is left, and it accepts the best
opposing price. -/
def Crossed (me : MatchingEngine T) (o : Order) : Prop :=
  0 < o.remainingQuantity ∧ ∃ l ∈ me.orderBook.getBestPrice (!o.side.isBid),
    crosses o (me.orderBook.levelAt l).price = true

instance (me : MatchingEngine T) (o : Order) : Decidable (me.Crossed o) :=
  inferInstanceAs (Decidable (_ ∧ _))

/-- The front is there if the best opposing price is accepted. -/
theorem front_ne_nil (h : me.orderBook.Layout) :
    me.orderBook.front crosses a ≠ [] ↔
      ∃ l ∈ me.orderBook.getBestPrice (me.orderBook.opposing a),
        crosses (me.orderBook.orderAt a) (me.orderBook.levelAt l).price = true := by
  cases hbest : me.orderBook.getBestPrice (me.orderBook.opposing a) with
  | none => simp [OrderBook.front, h.getBestPrice_none.mp hbest]
  | some l =>
      simp only [Option.mem_some_iff, exists_eq_left']
      constructor
      · exact fun hne => by_contra fun hacc => hne (OrderBook.front_eq_nil h hbest hacc)
      · intro hacc
        obtain ⟨rest, -, hfront, -⟩ := OrderBook.front_best h hbest hacc
        rw [hfront]
        simp [h.nonempty (OrderBook.getBestPrice_filed hbest)]

theorem Entered.trades_eq_nil (h : Entered (me.alloc o) me' me.orderBook.nextOrder trades)
    (hready : (me.alloc o).orderBook.Ready me.orderBook.nextOrder) :
    trades = [] ↔ ¬me.Crossed o := by
  have hcrossed : me.Crossed o ↔ 0 < o.remainingQuantity
      ∧ (me.alloc o).orderBook.front crosses me.orderBook.nextOrder ≠ [] := by
    rw [front_ne_nil hready.wf.layout, OrderBook.opposing, alloc_self]
    rfl
  rw [h.trades_eq, walk_trades_eq_nil, alloc_self, hcrossed]

theorem Entered.orderAt_of_nil (h : Entered (me.alloc o) me' me.orderBook.nextOrder []) :
    me'.orderBook.orderAt =
      Function.update me.orderBook.orderAt me.orderBook.nextOrder o.closed := by
  have hwalk := walk_of_trades_nil h.trades_eq.symm
  rw [h.orderAt, hwalk]
  dsimp only
  rw [alloc_self]
  exact Function.update_idem ..

/-! ## The feeds of the book -/

/-- Both feeds give the volume of every level. -/
def FeedsExact (me : MatchingEngine T) : Prop :=
  ∀ b p, changeFeed me.effects (.ofBid b) p = me.orderBook.volumeAt b p
    ∧ wsFeed me.effects (.ofBid b) p = me.orderBook.volumeAt b p

/-- The commands that the feeds of the book tell: a valid order trades with
nobody and rests, if it does, at a price without a level; a cancel finds
nothing. -/
def Plain (me : MatchingEngine T) : Request → Prop
  | .new o => o.isValid = true → ¬me.Crossed o
      ∧ (o.Rests → OrderedTree.get (me.orderBook.side o.side.isBid) o.price = none)
  | .cancel orderID => orderID ∉ me.orderBook.orders

instance (me : MatchingEngine T) (request : Request) : Decidable (me.Plain request) :=
  match request with
  | .new _ => inferInstanceAs (Decidable (_ → _ ∧ (_ → _)))
  | .cancel _ => inferInstanceAs (Decidable (_ ∉ _))

theorem Stocked.volumeAt_eq_zero (h : me.Stocked) (hw : me.orderBook.WF) {b : Bool} {p : Decimal} :
    me.orderBook.volumeAt b p = 0 ↔ OrderedTree.get (me.orderBook.side b) p = none := by
  rw [hw.volumeAt_eq, hw.layout.get_eq_none]
  exact heldAt_eq_zero fun e he => (h b e he).remaining_pos

/-- What a valid new order, `o'` when its matching is over, does to the feeds
and to the volumes. -/
structure Entry (me me' : MatchingEngine T) (o o' : Order) (trades : List Trade) : Prop where
  change_own : ∀ p, changeFeed me'.effects (.ofBid o.side.isBid) p =
    changeFeed me.effects (.ofBid o.side.isBid) p
      + if o'.Rests ∧ o'.price = p then o'.remainingQuantity else 0
  ws_own : ∀ p, wsFeed me'.effects (.ofBid o.side.isBid) p =
    if o'.Rests ∧ o'.price = p then o'.remainingQuantity
    else wsFeed me.effects (.ofBid o.side.isBid) p
  volume_own : ∀ p, me'.orderBook.volumeAt o.side.isBid p =
    me.orderBook.volumeAt o.side.isBid p
      + if o'.Rests ∧ o'.price = p then o'.remainingQuantity else 0
  change_opposing : ∀ p, changeFeed me'.effects (.ofBid !o.side.isBid) p =
    changeFeed me.effects (.ofBid !o.side.isBid) p
  ws_opposing : ∀ p, wsFeed me'.effects (.ofBid !o.side.isBid) p =
    wsFeed me.effects (.ofBid !o.side.isBid) p
  volume_opposing : ∀ p, me'.orderBook.volumeAt (!o.side.isBid) p =
    me.orderBook.volumeAt (!o.side.isBid) p - tradedAt p trades

theorem entered_entry {idle : List Effect} (hws : me'.wsOrderbookHandler = true)
    (hready : (me.alloc o).orderBook.Ready me.orderBook.nextOrder) (hvalid : o.isValid = true)
    (h : Entered (me.alloc o) me' me.orderBook.nextOrder trades) (hidle : ∀ x ∈ idle, x.Idle)
    (heffects : me'.effects = me.effects ++ idle ++ me'.rested me.orderBook.nextOrder
      ++ me'.announced me.orderBook.nextOrder trades) :
    Entry me me' o (me'.orderBook.orderAt me.orderBook.nextOrder) trades := by
  have hside : (me'.orderBook.orderAt me.orderBook.nextOrder).side = o.side := by
    rw [h.of_terms Order.side fun _ => rfl, alloc_self]
  have hunknown : o.side ≠ .unknown := by
    rintro hunknown
    simpa [hunknown] using (Order.isValid_iff.mp hvalid).2.2.1
  have hfeeds := fun b p => entered_feeds (b := b) (p := p) hws (hside ▸ hunknown) hidle heffects
  simp only [hside] at hfeeds
  have hown := h.volumeAt_own hready
  have hopposing := h.volumeAt_opposing hready
  simp only [OrderBook.opposing, alloc_self] at hown hopposing
  exact
    { change_own := fun p => by simpa using (hfeeds o.side.isBid p).1
      ws_own := fun p => by simpa using (hfeeds o.side.isBid p).2
      volume_own := hown
      change_opposing := fun p => by simpa using (hfeeds (!o.side.isBid) p).1
      ws_opposing := fun p => by simpa using (hfeeds (!o.side.isBid) p).2
      volume_opposing := hopposing }

theorem FeedsExact.entry_iff {o' : Order} (hexact : me.FeedsExact) (h : Entry me me' o o' trades)
    (htrades : ∀ t ∈ trades, 0 < t.quantity) :
    me'.FeedsExact ↔
      trades = [] ∧ (o'.Rests → me.orderBook.volumeAt o.side.isBid o'.price = 0) := by
  constructor
  · intro hexact'
    refine ⟨?_, fun hrests => ?_⟩
    · by_contra hne
      obtain ⟨t, ht⟩ := List.exists_mem_of_ne_nil _ hne
      have hpos := tradedAt_pos htrades ht
      have hchange := (hexact' (!o.side.isBid) t.price).1
      rw [h.change_opposing, h.volume_opposing, (hexact _ _).1] at hchange
      linarith
    · have hvolume := (hexact' o.side.isBid o'.price).2
      rw [h.ws_own, h.volume_own, if_pos ⟨hrests, rfl⟩, if_pos ⟨hrests, rfl⟩] at hvolume
      linarith
  · rintro ⟨rfl, hjoins⟩ b p
    obtain rfl | hb := eq_or_ne b o.side.isBid
    · rw [h.change_own, h.ws_own, h.volume_own, (hexact _ _).1]
      refine ⟨rfl, ?_⟩
      split_ifs with hhere
      · obtain ⟨hrests, rfl⟩ := hhere
        rw [hjoins hrests, zero_add]
      · rw [(hexact _ _).2, add_zero]
    · obtain rfl : b = !o.side.isBid := Bool.eq_not_of_ne hb
      rw [h.change_opposing, h.ws_opposing, h.volume_opposing, tradedAt_nil, sub_zero]
      exact hexact _ p

/-- A valid new order leaves the feeds exact if and only if it makes no trade
and does not join a level. -/
theorem FeedsExact.entered_iff (hexact : me.FeedsExact)
    (h : Entered (me.alloc o) me' me.orderBook.nextOrder trades)
    (hentry : Entry me me' o (me'.orderBook.orderAt me.orderBook.nextOrder) trades)
    (hready : (me.alloc o).orderBook.Ready me.orderBook.nextOrder) (hvalid : o.isValid = true)
    (hstock : (me.alloc o).Stocked) : me'.FeedsExact ↔ me.Plain (.new o) := by
  have hzero : ∀ p, me.orderBook.volumeAt o.side.isBid p = 0 ↔
      OrderedTree.get (me.orderBook.side o.side.isBid) p = none := fun p =>
    hstock.volumeAt_eq_zero hready.wf
  rw [hexact.entry_iff hentry (h.trades_pos hready hstock)]
  simp only [Plain, hvalid, forall_const, hzero]
  rw [← h.trades_eq_nil hready]
  refine and_congr_right fun hnil => ?_
  subst hnil
  rw [h.orderAt_of_nil, Function.update_self]
  constructor
  · intro hjoins hrests
    rw [Order.closed_of_rests hrests] at hjoins
    exact hjoins hrests
  · intro hjoins hclosed
    have hrests := Order.rests_of_closed hclosed
    rw [Order.closed_of_rests hrests]
    exact hjoins hrests

/-- Nothing about a cancel is sent to the WebSocket. -/
theorem FeedsExact.not_withdrawn (hexact : me.FeedsExact) {b : Bool} {l : LevelRef} {e : Element}
    (he : me.orderBook.Holds b l e) (h : Withdrawn me me' e) (hw : me.orderBook.WF)
    (hstock : me.Stocked) (heffects : me'.effects = me.effects ++ [me.cancelled e]) :
    ¬me'.FeedsExact := by
  intro hexact'
  have hmem := OrderBook.mem_elements.mpr ⟨l, he⟩
  have hpos := (hstock b e hmem).remaining_pos
  have hws := (hexact' b (me.orderBook.orderAt e.value).price).2
  rw [h.volumeAt hw hmem, if_pos ⟨rfl, rfl⟩, wsFeed, heffects, lastOf_append,
    lastOf_eq_none (List.forall_mem_singleton.mpr rfl), Option.none_or] at hws
  have hbefore := (hexact b (me.orderBook.orderAt e.value).price).2
  rw [wsFeed] at hbefore
  linarith

theorem Told.feeds_iff (h : Told me me' request trades) (hs : me.Sound requests)
    (hfresh : FreshIDs (requests ++ [request])) (hstock : me.Stocked)
    (hws : me.wsOrderbookHandler = true) (hexact : me.FeedsExact) :
    me'.FeedsExact ↔ me.Plain request := by
  cases h with
  | @entered o trades idle hvalid hent hidle heffects =>
      have hready := hs.ready hfresh
      have hws' : me'.wsOrderbookHandler = true := hent.frame.wsOrderbookHandler.trans hws
      exact hexact.entered_iff hent (entered_entry hws' hready hvalid hent hidle heffects) hready
        hvalid (hstock.alloc hs o)
  | rejected hvalid heq =>
      subst heq
      exact iff_of_true hexact fun hvalid' => absurd hvalid' hvalid
  | withdrawn he hwith heffects =>
      refine iff_of_false (hexact.not_withdrawn he hwith hs.wf hstock heffects) fun hplain => ?_
      exact hplain (Finmap.mem_of_lookup_eq_some (hs.wf.lookup he))
  | notFound hid heq =>
      subst heq
      exact iff_of_true hexact hid

theorem Initial.feedsExact {me₀ : MatchingEngine T} (h₀ : me₀.Initial)
    (heffects : me₀.effects = []) : me₀.FeedsExact := by
  intro b p
  rw [h₀.sound.wf.volumeAt_eq, heffects]
  obtain ⟨instrument, hbook⟩ := h₀
  rw [hbook, OrderBook.newOrderBook_elements]
  exact ⟨rfl, rfl⟩

/-- The two feeds give the volumes of the book after every command exactly if
every command is plain where it comes: an order that trades, an order that
joins a level and a cancel that finds its order each spoil them. -/
theorem feeds_exact_iff {me₀ : MatchingEngine T} (h₀ : me₀.Initial) (heffects : me₀.effects = [])
    (hws : me₀.wsOrderbookHandler = true) (hrun : Run me₀ requests me trades)
    (hfresh : FreshIDs requests) :
    (∀ requests' me' trades', requests' <+: requests → Run me₀ requests' me' trades' →
        ∀ b p, changeFeed me'.effects (.ofBid b) p = me'.orderBook.volumeAt b p
          ∧ wsFeed me'.effects (.ofBid b) p = me'.orderBook.volumeAt b p) ↔
      RunWith Plain me₀ requests me trades := by
  refine hrun.kept_iff (P := FeedsExact) h₀ (h₀.feedsExact heffects) ?_ hfresh
  intro requests me trades request me' trades' hrun hfresh hs htold hexact
  exact htold.feeds_iff hs hfresh (hrun.stocked h₀ hfresh.of_append)
    ((hrun.handlers h₀ hfresh.of_append).1.trans hws) hexact

end

end MatchingEngine

def listenedEngine : MatchingEngine (SortedItems Decimal LevelRef) :=
  { emptyEngine with wsOrderbookHandler := true, wsOrderUpdateHandler := true }

theorem listenedEngine_initial : listenedEngine.Initial := ⟨_, rfl⟩

theorem feeds_exact_two_levels :
    ∃ me trades, MatchingEngine.Run listenedEngine [.new sellFive, .new sellHigher] me trades
      ∧ ∀ b p, changeFeed me.effects (.ofBid b) p = me.orderBook.volumeAt b p
        ∧ wsFeed me.effects (.ofBid b) p = me.orderBook.volumeAt b p := by
  have h₀ : MatchingEngine.RunWith MatchingEngine.Plain listenedEngine [] _ _ := .nil
  obtain ⟨_, hfirst⟩ := h₀.handled 9 (.new sellFive) (by decide +kernel) (by decide +kernel)
  obtain ⟨_, hrun⟩ := hfirst.handled 9 (.new sellHigher) (by decide +kernel) (by decide +kernel)
  exact ⟨_, _, hrun.run, (MatchingEngine.feeds_exact_iff listenedEngine_initial rfl rfl hrun.run
    (by decide)).mpr hrun _ _ _ (List.prefix_refl _) hrun.run⟩

/-- A partial fill: both feeds still have 5 of the level, the book 2. -/
theorem fill_not_in_feeds :
    let me := listenedEngine.after 9 [.new sellFive, .new buyThree]
    FreshIDs [.new sellFive, .new buyThree]
      ∧ (∃ trades, MatchingEngine.Run listenedEngine [.new sellFive, .new buyThree] me trades)
      ∧ changeFeed me.effects (.ofBid false) 100 = 5 ∧ wsFeed me.effects (.ofBid false) 100 = 5
      ∧ me.orderBook.volumeAt false 100 = 2 :=
  ⟨by decide, MatchingEngine.after_run (by decide +kernel), by decide +kernel, by decide +kernel,
    by decide +kernel⟩

namespace MatchingEngine

section

variable {T : Type} [OrderedTree T Decimal LevelRef] {me me' : MatchingEngine T}
  {trades : List Trade} {request : Request} {requests : List Request} {o : Order}

/-! ## The updates of the orders -/

/-- The last update of every order is up to date. -/
def UpdatesExact (me : MatchingEngine T) : Prop :=
  ∀ r < me.orderBook.nextOrder,
    (updateFeed me.effects (me.orderBook.orderAt r).id).map
        (fun o => (o.status, o.filledQuantity)) =
      some ((me.orderBook.orderAt r).status, (me.orderBook.orderAt r).filledQuantity)

/-- The commands that concern the new order alone: it is valid and trades
with nobody; a cancel finds nothing. -/
def Solitary (me : MatchingEngine T) : Request → Prop
  | .new o => o.isValid = true ∧ ¬me.Crossed o
  | .cancel orderID => orderID ∉ me.orderBook.orders

instance (me : MatchingEngine T) (request : Request) : Decidable (me.Solitary request) :=
  match request with
  | .new _ => inferInstanceAs (Decidable (_ ∧ _))
  | .cancel _ => inferInstanceAs (Decidable (_ ∉ _))

theorem Entered.id_eq (h : Entered (me.alloc o) me' me.orderBook.nextOrder trades) :
    (me'.orderBook.orderAt me.orderBook.nextOrder).id = o.id := by
  rw [h.of_terms Order.id fun _ => rfl, alloc_self]

theorem entered_updateFeed {idle : List Effect} (hhandler : me'.wsOrderUpdateHandler = true)
    (h : Entered (me.alloc o) me' me.orderBook.nextOrder trades) (hidle : ∀ x ∈ idle, x.Idle)
    (heffects : me'.effects = me.effects ++ idle ++ me'.rested me.orderBook.nextOrder
      ++ me'.announced me.orderBook.nextOrder trades) (id : UUID) :
    updateFeed me'.effects id =
      if o.id = id then some (me'.orderBook.orderAt me.orderBook.nextOrder)
      else updateFeed me.effects id := by
  have hidle' : lastOf (Effect.update id) idle = none :=
    lastOf_eq_none fun x hx => (hidle x hx).update_eq
  rw [updateFeed, heffects, lastOf_append, lastOf_append, lastOf_append, update_announced hhandler,
    update_rested, hidle', Option.none_or, Option.none_or, h.id_eq]
  split_ifs <;> rfl

theorem Told.updateFeed_of_ne (h : Told me me' request trades)
    (hhandler : me'.wsOrderUpdateHandler = true) {id : UUID}
    (hid : ∀ o, request = .new o → o.id ≠ id) :
    updateFeed me'.effects id = updateFeed me.effects id := by
  cases h with
  | entered _ hent hidle heffects =>
      rw [entered_updateFeed hhandler hent hidle heffects, if_neg (hid _ rfl)]
  | rejected _ heq => exact heq ▸ rfl
  | withdrawn _ _ heffects => exact cancelled_updateFeed heffects id
  | notFound _ heq => exact heq ▸ rfl

theorem Run.updateFeed_eq_none {me₀ : MatchingEngine T} (h₀ : me₀.Initial)
    (heffects : me₀.effects = []) (hhandler : me₀.wsOrderUpdateHandler = true)
    (h : Run me₀ requests me trades) (hfresh : FreshIDs requests) {id : UUID}
    (hid : id ∉ (submitted requests).map Order.id) : updateFeed me.effects id = none := by
  induction h with
  | nil => rw [heffects]; rfl
  | @snoc requests me trades request fuel me' response h hstep ih =>
      have hsound := h.sound h₀ hfresh.of_append
      have htold := handle_told hsound hfresh hstep
      have hhandler' := ((h.snoc hstep).handlers h₀ hfresh).2.trans hhandler
      rw [submitted, List.filterMap_append, List.map_append, List.mem_append, not_or] at hid
      rw [htold.updateFeed_of_ne hhandler' ?_]
      · exact ih hfresh.of_append hid.1
      · rintro o rfl rfl
        exact hid.2 (List.mem_singleton_self _)

/-- The order at the front of a command that trades is filled further. -/
theorem Entered.filled_front (h : Entered (me.alloc o) me' me.orderBook.nextOrder trades)
    (hready : (me.alloc o).orderBook.Ready me.orderBook.nextOrder) (hstock : (me.alloc o).Stocked)
    (hne : trades ≠ []) :
    ∃ r < me.orderBook.nextOrder, (me.orderBook.orderAt r).filledQuantity
      < (me'.orderBook.orderAt r).filledQuantity := by
  rw [h.trades_eq, Ne, walk_trades_eq_nil, not_not] at hne
  obtain ⟨hpos, hne⟩ := hne
  obtain ⟨e, queue, hfront⟩ := List.exists_cons_of_ne_nil hne
  have he : e ∈ (me.alloc o).orderBook.elements _ :=
    OrderBook.mem_front (hfront ▸ List.mem_cons_self ..)
  have hr : e.value < me.orderBook.nextOrder := Nat.lt_of_le_of_ne
    (Nat.le_of_lt_succ (hready.wf.value_lt he)) (hready.ne_elements he)
  have horder : me'.orderBook.orderAt e.value = (me.orderBook.orderAt e.value).fill
      (matchQty (me.alloc o).orderBook.orderAt me.orderBook.nextOrder e.value) := by
    rw [h.orderAt]
    dsimp only
    rw [Function.update_of_ne (hready.ne_elements he), hfront,
      walk_head (hfront ▸ clear_front hready) hpos, alloc_of_lt hr]
  refine ⟨e.value, hr, ?_⟩
  rw [horder]
  exact lt_add_of_pos_right _ (lt_min hpos (hstock _ e he).remaining_pos)

theorem UpdatesExact.entered_iff (hexact : me.UpdatesExact) {idle : List Effect}
    (hhandler : me'.wsOrderUpdateHandler = true) (hs : me.Sound requests)
    (hfresh : FreshIDs (requests ++ [.new o])) (hvalid : o.isValid = true)
    (h : Entered (me.alloc o) me' me.orderBook.nextOrder trades) (hidle : ∀ x ∈ idle, x.Idle)
    (heffects : me'.effects = me.effects ++ idle ++ me'.rested me.orderBook.nextOrder
      ++ me'.announced me.orderBook.nextOrder trades) (hstock : (me.alloc o).Stocked) :
    me'.UpdatesExact ↔ me.Solitary (.new o) := by
  have hready := hs.ready hfresh
  have hfeed := entered_updateFeed hhandler h hidle heffects
  have hnext : me'.orderBook.nextOrder = me.orderBook.nextOrder + 1 := h.frame.nextOrder
  -- the orders that were there before have their ids, and other ones than the new order
  have hold : ∀ r < me.orderBook.nextOrder, updateFeed me'.effects (me'.orderBook.orderAt r).id =
      updateFeed me.effects (me.orderBook.orderAt r).id := by
    intro r hr
    rw [h.of_terms Order.id fun _ => rfl, alloc_of_lt hr, hfeed,
      if_neg (hs.id_ne hfresh hr).symm]
  rw [Solitary, and_iff_right hvalid, ← h.trades_eq_nil hready]
  constructor
  · intro hexact'
    by_contra hne
    obtain ⟨r, hr, hlt⟩ := h.filled_front hready hstock hne
    have hafter := hexact' r (hnext ▸ Nat.lt_succ_of_lt hr)
    rw [hold r hr, hexact r hr] at hafter
    exact hlt.ne (congrArg Prod.snd (Option.some.inj hafter))
  · rintro rfl r hr
    rcases Nat.lt_succ_iff_lt_or_eq.mp (hnext ▸ hr) with hr | rfl
    · have horder : me'.orderBook.orderAt r = me.orderBook.orderAt r := by
        rw [h.orderAt_of_nil, Function.update_of_ne (Nat.ne_of_lt hr)]
      rw [hold r hr, hexact r hr, horder]
    · rw [h.id_eq, hfeed, if_pos rfl]
      rfl

theorem Told.updates_iff (h : Told me me' request trades) (hs : me.Sound requests)
    (hfresh : FreshIDs (requests ++ [request])) (hstock : me.Stocked)
    (hhandler : me'.wsOrderUpdateHandler = true)
    (hnone : ∀ o, request = .new o → updateFeed me.effects o.id = none)
    (hexact : me.UpdatesExact) : me'.UpdatesExact ↔ me.Solitary request := by
  cases h with
  | @entered o trades idle hvalid hent hidle heffects =>
      exact hexact.entered_iff hhandler hs hfresh hvalid hent hidle heffects (hstock.alloc hs o)
  | @rejected o hvalid heq =>
      refine iff_of_false (fun hexact' => ?_) fun hsolitary => hvalid hsolitary.1
      subst heq
      have hlast := hexact' me.orderBook.nextOrder (Nat.lt_succ_self _)
      have hid : (((me.alloc o).reject me.orderBook.nextOrder).orderBook.orderAt
          me.orderBook.nextOrder).id = o.id := by
        simp only [reject, OrderBook.setOrder, Function.update_self]
        rw [alloc_self]
      have hfeed : updateFeed ((me.alloc o).reject me.orderBook.nextOrder).effects o.id = none :=
        hnone o rfl
      rw [hid, hfeed] at hlast
      cases hlast
  | @withdrawn b l e he hwith heffects =>
      refine iff_of_false (fun hexact' => ?_) fun hsolitary =>
        hsolitary (Finmap.mem_of_lookup_eq_some (hs.wf.lookup he))
      have hr := hs.wf.layout.order_lt he
      have hstatus := Order.canBeFilled_iff.mp
        (hstock b e (OrderBook.mem_elements.mpr ⟨l, he⟩)).canBeFilled
      have hafter := hexact' e.value (hwith.frame.nextOrder ▸ hr)
      rw [hwith.orderAt, Function.update_self, cancelled_updateFeed heffects,
        hexact e.value hr] at hafter
      have hcancelled : (me.orderBook.orderAt e.value).status = .cancelled :=
        congrArg Prod.fst (Option.some.inj hafter)
      simp [hcancelled] at hstatus
  | notFound hid heq =>
      subst heq
      exact iff_of_true hexact hid

/-- The last update of every order shows its status and filled quantity after
every command exactly if every command concerns its own order alone: a trade
changes a resting order, a rejected order and a cancelled one are not told. -/
theorem updates_exact_iff {me₀ : MatchingEngine T} (h₀ : me₀.Initial) (heffects : me₀.effects = [])
    (hhandler : me₀.wsOrderUpdateHandler = true) (hrun : Run me₀ requests me trades)
    (hfresh : FreshIDs requests) :
    (∀ requests' me' trades', requests' <+: requests → Run me₀ requests' me' trades' →
        ∀ r < me'.orderBook.nextOrder,
          (updateFeed me'.effects (me'.orderBook.orderAt r).id).map
              (fun o => (o.status, o.filledQuantity)) =
            some ((me'.orderBook.orderAt r).status, (me'.orderBook.orderAt r).filledQuantity)) ↔
      RunWith Solitary me₀ requests me trades := by
  refine hrun.kept_iff (P := UpdatesExact) h₀ ?_ ?_ hfresh
  · obtain ⟨instrument, hbook⟩ := h₀
    intro r hr
    rw [hbook] at hr
    exact absurd hr (Nat.not_lt_zero r)
  · intro requests me trades request me' trades' hrun hfresh hs htold hexact
    refine htold.updates_iff hs hfresh (hrun.stocked h₀ hfresh.of_append) ?_ ?_ hexact
    · exact htold.handled.handlers.2.trans
        ((hrun.handlers h₀ hfresh.of_append).2.trans hhandler)
    · rintro o rfl
      refine hrun.updateFeed_eq_none h₀ heffects hhandler hfresh.of_append ?_
      rw [FreshIDs, submitted_append_new, List.map_append, List.nodup_append] at hfresh
      exact fun hmem => hfresh.2.2 _ hmem _ (List.mem_singleton_self _) rfl

end

end MatchingEngine

theorem updates_exact_two_orders :
    ∃ me trades, MatchingEngine.Run listenedEngine [.new sellFive, .new sellHigher] me trades
      ∧ ∀ r < me.orderBook.nextOrder,
        (updateFeed me.effects (me.orderBook.orderAt r).id).map
            (fun o => (o.status, o.filledQuantity)) =
          some ((me.orderBook.orderAt r).status, (me.orderBook.orderAt r).filledQuantity) := by
  have h₀ : MatchingEngine.RunWith MatchingEngine.Solitary listenedEngine [] _ _ := .nil
  obtain ⟨_, hfirst⟩ := h₀.handled 9 (.new sellFive) (by decide +kernel) (by decide +kernel)
  obtain ⟨_, hrun⟩ := hfirst.handled 9 (.new sellHigher) (by decide +kernel) (by decide +kernel)
  exact ⟨_, _, hrun.run, (MatchingEngine.updates_exact_iff listenedEngine_initial rfl rfl hrun.run
    (by decide)).mpr hrun _ _ _ (List.prefix_refl _) hrun.run⟩

/-- A partial fill: the last update of the resting order has it open and
unfilled, and 3 of it are filled. -/
theorem fill_not_updated :
    let me := listenedEngine.after 9 [.new sellFive, .new buyThree]
    FreshIDs [.new sellFive, .new buyThree]
      ∧ (∃ trades, MatchingEngine.Run listenedEngine [.new sellFive, .new buyThree] me trades)
      ∧ (me.orderBook.orderAt 0).id = sellFive.id
      ∧ (updateFeed me.effects sellFive.id).map (fun o => (o.status, o.filledQuantity)) =
        some (.opened, 0)
      ∧ ((me.orderBook.orderAt 0).status, (me.orderBook.orderAt 0).filledQuantity) =
        (.partiallyFilled, 3) :=
  ⟨by decide, MatchingEngine.after_run (by decide +kernel), by decide +kernel, by decide +kernel,
    by decide +kernel⟩

end TradingBackend
