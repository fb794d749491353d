import TradingBackend.GoStrings
import TradingBackend.Greedy
import TradingBackend.LevelVolumes

/-!
# The order book over HTTP

`GetOrderBook` of `api/router.go` shows the best levels of both sides with
their sizes and, beside each level, what there is up to it
(`CumulativeDepth`). The query is the function `req.URL.Query().Get`: the
empty string where a parameter is missing. The time is an argument.

What is shown is what trades: a limit order at the price of a level trades
with the levels up to it and with no other (`depth_crossing`), so it
trades the cumulative depth of that level if its quantity is not less.

Left out: `response_time_ms` and the headers, and the answer if there is no
order book, since `NewMatchingEngine` makes one.
-/

namespace TradingBackend

/-- `OrderBookLevel` of `api/router.go`. -/
structure OrderBookLevel where
  price : Decimal
  size : Decimal
  cumulativeDepth : Decimal
deriving DecidableEq, Repr

/-- `FreshnessMetadata`, without the two fields that nobody sets. -/
structure FreshnessMetadata where
  lastUpdateTime : Int
  ageMs : Int
  snapshotAvailable : Bool
  isStale : Bool
  staleThresholdMs : Int
deriving DecidableEq, Repr

structure OrderBookResponse where
  instrument : String
  bids : List OrderBookLevel
  asks : List OrderBookLevel
  totalBidVolume : Decimal
  totalAskVolume : Decimal
  bidDepth : List Decimal
  askDepth : List Decimal
  timestamp : Int
  freshness : Option FreshnessMetadata
  source : String
deriving DecidableEq, Repr

/-- What the loop over the levels of a side builds. -/
structure SideDepth where
  levels : List OrderBookLevel
  depth : List Decimal
  total : Decimal
  cumulative : Decimal

namespace SideDepth

def empty : SideDepth := ⟨[], [], 0, 0⟩

/-- The body of the loop. -/
def add (side : SideDepth) (level : PriceLevel) : SideDepth :=
  let size := level.volume
  let cumulative := side.cumulative + size
  { levels := side.levels ++ [⟨level.price, size, cumulative⟩]
    depth := side.depth ++ [cumulative]
    total := side.total + size
    cumulative := cumulative }

/-- The loop. -/
def ofLevels (levels : List PriceLevel) : SideDepth := levels.foldl add empty

end SideDepth

/-- A parameter that counts only if it is a positive number. -/
def positiveParam (text : String) (default : Int) : Int :=
  if text ≠ "" then
    match atoi text with
    | some parsed => if parsed > 0 then parsed else default
    | none => default
  else default

/-- `Router.GetOrderBook`. Any number of levels that parses is handed to
`GetTopLevels`, so that a request can make it panic (see there). -/
def getOrderBook {T : Type} [OrderedTree T Decimal LevelRef] (query : String → String)
    (currentTime : Int) (hasSnapshotManager : Bool) (ob : OrderBook T) : OrderBookResponse :=
  let instrument := if query "instrument" = "" then "BTC-USD" else query "instrument"
  let levels := positiveParam (query "levels") 20
  let staleThresholdMs := positiveParam (query "stale_threshold_ms") 5000
  let (bidLevels, askLevels) := ob.getTopLevels levels.toNat
  let bids := SideDepth.ofLevels (bidLevels.map ob.levelAt)
  let asks := SideDepth.ofLevels (askLevels.map ob.levelAt)
  { instrument := instrument
    bids := bids.levels
    asks := asks.levels
    totalBidVolume := bids.total
    totalAskVolume := asks.total
    bidDepth := bids.depth
    askDepth := asks.depth
    timestamp := currentTime
    freshness :=
      if query "freshness" = "true" then
        some ⟨currentTime, 0, hasSnapshotManager, false, staleThresholdMs⟩
      else none
    source := "in-memory" }

namespace OrderBookResponse

def side (response : OrderBookResponse) (isBid : Bool) : List OrderBookLevel :=
  if isBid then response.bids else response.asks

def totalVolume (response : OrderBookResponse) (isBid : Bool) : Decimal :=
  if isBid then response.totalBidVolume else response.totalAskVolume

end OrderBookResponse

/-! ## The loop -/

namespace SideDepth

variable {levels : List PriceLevel}

theorem ofLevels_snoc (levels : List PriceLevel) (level : PriceLevel) :
    ofLevels (levels ++ [level]) = (ofLevels levels).add level :=
  List.foldl_append ..

theorem ofLevels_cumulative (levels : List PriceLevel) :
    (ofLevels levels).cumulative = (levels.map PriceLevel.volume).sum := by
  induction levels using List.reverseRecOn with
  | nil => rfl
  | append_singleton levels level ih =>
      rw [ofLevels_snoc, add, ih, List.map_append, List.sum_append, List.map_singleton,
        List.sum_singleton]

theorem ofLevels_total (levels : List PriceLevel) :
    (ofLevels levels).total = (ofLevels levels).cumulative := by
  induction levels using List.reverseRecOn with
  | nil => rfl
  | append_singleton levels level ih => rw [ofLevels_snoc, add, ih]

/-- A level that is shown has the sum of the volumes up to it. -/
theorem exists_cut {shown : OrderBookLevel} (h : shown ∈ (ofLevels levels).levels) :
    ∃ before level after, levels = before ++ level :: after
      ∧ shown = ⟨level.price, level.volume,
        ((before ++ [level]).map PriceLevel.volume).sum⟩ := by
  induction levels using List.reverseRecOn with
  | nil => cases h
  | append_singleton levels level ih =>
      rw [ofLevels_snoc] at h
      rcases List.mem_append.mp h with h | h
      · obtain ⟨before, level', after, rfl, hshown⟩ := ih h
        exact ⟨before, level', after ++ [level], by simp, hshown⟩
      · refine ⟨levels, level, [], rfl, (List.mem_singleton.mp h).trans ?_⟩
        rw [ofLevels_cumulative, List.map_append, List.sum_append, List.map_singleton,
          List.sum_singleton]

end SideDepth

variable {T : Type} [OrderedTree T Decimal LevelRef]

def shownLevels (query : String → String) : Nat := (positiveParam (query "levels") 20).toNat

namespace OrderBook

variable {ob : OrderBook T} {b : Bool} {o : Order}

theorem getOrderBook_side (query : String → String) (now : Int) (snapshots : Bool)
    (ob : OrderBook T) (b : Bool) :
    (getOrderBook query now snapshots ob).side b =
      (SideDepth.ofLevels (((ob.levels b).take (shownLevels query)).map ob.levelAt)).levels := by
  cases b
  · simp [getOrderBook, OrderBookResponse.side, getTopLevels, levels, shownLevels, items,
      OrderBook.side]
  · simp [getOrderBook, OrderBookResponse.side, getTopLevels, levels, shownLevels, items,
      OrderBook.side]

theorem getOrderBook_totalVolume (query : String → String) (now : Int) (snapshots : Bool)
    (ob : OrderBook T) (b : Bool) :
    (getOrderBook query now snapshots ob).totalVolume b =
      (((ob.levels b).take (shownLevels query)).map fun l => (ob.levelAt l).volume).sum := by
  have htotal : (getOrderBook query now snapshots ob).totalVolume b =
      (SideDepth.ofLevels (((ob.levels b).take (shownLevels query)).map ob.levelAt)).total := by
    cases b <;> simp [getOrderBook, OrderBookResponse.totalVolume, getTopLevels, levels,
      shownLevels, items, OrderBook.side]
  rw [htotal, SideDepth.ofLevels_total, SideDepth.ofLevels_cumulative, List.map_map]
  rfl

/-- A limit order trades at a price unless its own price is better for the
other side. -/
theorem crosses_limit (hlimit : o.type = .limit) (p : Decimal) :
    crosses o p = true ↔ ¬better (!o.side.isBid) o.price p := by
  have hcan : crosses o p = MatchingEngine.canMatch o p := by
    rw [crosses, hlimit]
    rfl
  rw [hcan, MatchingEngine.canMatch]
  by_cases hbuy : o.side = .buy
  · simp [better, OrderSide.isBid, hbuy]
  · simp [better, OrderSide.isBid, hbuy]

/-- What the queues of some levels hold is what their volumes say. -/
theorem WF.queued_levels (h : ob.WF) {ls : List LevelRef} (hls : ∀ l ∈ ls, ob.Filed b l) :
    ob.queued (ls.flatMap fun l => (ob.levelAt l).orders) =
      (ls.map fun l => (ob.levelAt l).volume).sum := by
  have hlevel : ∀ l ∈ ls, (ob.levelAt l).volume = ob.queued (ob.levelAt l).orders :=
    fun l hl => h.volumes (hls l hl)
  rw [List.map_congr_left hlevel, queued, List.map_flatMap, List.flatMap_def, List.sum_flatten,
    List.map_map]
  rfl

omit [OrderedTree T Decimal LevelRef] in
theorem offers_remaining (ob : OrderBook T) (queue : List Element) :
    ((queue.map (offerOf ob.orderAt)).map Offer.remaining).sum = ob.queued queue := by
  rw [List.map_map]
  rfl

/-- A limit order at the price of a level crosses the orders of the levels
up to it. -/
theorem WF.depth_crossing (h : ob.WF) (hlimit : o.type = .limit)
    {before after : List LevelRef} {l : LevelRef}
    (hcut : ob.levels (!o.side.isBid) = before ++ l :: after)
    (hprice : o.price = (ob.levelAt l).price) :
    ((ob.crossing o).map Offer.remaining).sum =
      ((before ++ [l]).map fun l => (ob.levelAt l).volume).sum := by
  have hsorted := h.layout.levels_sorted (!o.side.isBid)
  have hfiled : ∀ x ∈ ob.levels (!o.side.isBid), ob.Filed (!o.side.isBid) x := fun x =>
    mem_levels.mp
  rw [hcut] at hsorted hfiled
  obtain ⟨-, hafter, hbefore⟩ := List.pairwise_append.mp hsorted
  have hafter := (List.pairwise_cons.mp hafter).1
  have hpriceOf : ∀ {x e}, x ∈ before ++ l :: after → e ∈ (ob.levelAt x).orders →
      (offerOf ob.orderAt e).price = (ob.levelAt x).price := fun hx he =>
    h.layout.order_price ⟨hfiled _ hx, he⟩
  have hsplit : ob.elements (!o.side.isBid) =
      (before ++ [l]).flatMap (fun x => (ob.levelAt x).orders)
        ++ after.flatMap fun x => (ob.levelAt x).orders := by
    rw [elements, hcut, List.append_cons, List.flatMap_append]
  -- the levels before are better, those after are worse
  have hin : ∀ e ∈ (before ++ [l]).flatMap (fun x => (ob.levelAt x).orders),
      crosses o (offerOf ob.orderAt e).price = true := by
    intro e hmem
    obtain ⟨x, hx, he⟩ := List.mem_flatMap.mp hmem
    rw [crosses_limit hlimit, hprice]
    rcases List.mem_append.mp hx with hx | hx
    · rw [hpriceOf (List.mem_append_left _ hx) he]
      exact better_asymm (hbefore x hx l List.mem_cons_self)
    · obtain rfl := List.mem_singleton.mp hx
      rw [hpriceOf (List.mem_append_right _ List.mem_cons_self) he]
      exact better_irrefl _ _
  have hout : ∀ e ∈ after.flatMap (fun x => (ob.levelAt x).orders),
      ¬crosses o (offerOf ob.orderAt e).price = true := by
    intro e hmem
    obtain ⟨x, hx, he⟩ := List.mem_flatMap.mp hmem
    rw [crosses_limit hlimit, hprice, not_not,
      hpriceOf (List.mem_append_right _ (List.mem_cons_of_mem _ hx)) he]
    exact hafter x hx
  have hcrossing : ob.crossing o =
      ((before ++ [l]).flatMap fun x => (ob.levelAt x).orders).map (offerOf ob.orderAt) := by
    have hkeep := List.filter_eq_self (p := fun offer : Offer => crosses o offer.price) |>.mpr
      (List.forall_mem_map.mpr hin)
    have hdrop := List.filter_eq_nil_iff (p := fun offer : Offer => crosses o offer.price) |>.mpr
      (List.forall_mem_map.mpr hout)
    rw [crossing, offers, hsplit, List.map_append, List.filter_append, hkeep, hdrop,
      List.append_nil]
  rw [hcrossing, offers_remaining, h.queued_levels fun x hx => hfiled x ?_]
  rw [List.append_cons]
  exact List.mem_append_left _ hx

theorem WF.depth_crossing_market (h : ob.WF) (hmarket : o.type = .market) :
    ((ob.crossing o).map Offer.remaining).sum =
      ((ob.levels (!o.side.isBid)).map fun l => (ob.levelAt l).volume).sum := by
  have hall : ob.crossing o = ob.offers (!o.side.isBid) :=
    List.filter_eq_self.mpr fun offer _ => by rw [crosses, hmarket]; rfl
  rw [hall, offers, offers_remaining, elements]
  exact h.queued_levels fun l hl => mem_levels.mp hl

end OrderBook

/-! ## What trades -/

/-- What is traded and what is left make up the quantity. -/
theorem greedy_fills_sum {q : Decimal} {offers : List Offer} :
    ((greedy q offers).fills.map Fill.quantity).sum = q - (greedy q offers).remaining := by
  induction offers generalizing q with
  | nil => rw [greedy, List.map_nil, List.sum_nil, sub_self]
  | cons offer offers ih =>
      by_cases hpos : 0 < q
      · rcases le_or_gt offer.remaining q with hle | hlt
        · rw [greedy_filled hpos hle]
          dsimp only
          rw [List.map_cons, List.sum_cons, ih]
          ring
        · rw [greedy_partly hpos hlt]
          simp
      · rw [greedy_done hpos]
        simp

/-- Trades that are fills of the specification take what there is, up to the
quantity. -/
theorem traded_of_fills {trades : List Trade} {side : OrderSide} {q : Decimal}
    {offers : List Offer} (hfills : trades.map (Trade.toFill side) = (greedy q offers).fills)
    (hq : 0 ≤ q) (hoffers : ∀ offer ∈ offers, 0 ≤ offer.remaining) :
    (trades.map Trade.quantity).sum = min q (offers.map Offer.remaining).sum := by
  have hsum : trades.map Trade.quantity = (trades.map (Trade.toFill side)).map Fill.quantity := by
    rw [List.map_map]
    rfl
  rw [hsum, hfills, greedy_fills_sum, greedy_remaining hq hoffers, sub_sub_cancel]

/-- The depth that is shown beside a level is what a limit order at its
price trades at once, or its quantity if that is less; and the total of a
side that is shown as a whole is what a market order trades. -/
theorem displayed_depth_trades {me₀ me : MatchingEngine T} {requests : List Request}
    {trades₀ : List Trade} {o : Order} (h₀ : me₀.Initial)
    (hrun : MatchingEngine.Run me₀ requests me trades₀)
    (hfresh : FreshIDs (requests ++ [.new o])) (hvalid : o.isValid = true)
    (query : String → String) (now : Int) (snapshots : Bool) :
    let response := getOrderBook query now snapshots me.orderBook
    ∃ fuel me' answer, me.handle fuel (.new o) = some (me', answer)
      ∧ (o.type = .limit → ∀ level ∈ response.side (!o.side.isBid), o.price = level.price →
        (answer.trades.map Trade.quantity).sum = min o.remainingQuantity level.cumulativeDepth)
      ∧ (o.type = .market → (me.orderBook.levels !o.side.isBid).length ≤ shownLevels query →
        (answer.trades.map Trade.quantity).sum =
          min o.remainingQuantity (response.totalVolume !o.side.isBid)) := by
  intro response
  have hs := hrun.sound h₀ hfresh.of_append
  have hstock := hrun.stocked h₀ hfresh.of_append
  have ho := MatchingEngine.alloc_self me o
  obtain ⟨fuel, me', answer, hhandle, hhandled⟩ := MatchingEngine.handle_total hs hfresh
  refine ⟨fuel, me', answer, hhandle, ?_⟩
  generalize answer.trades = trades at hhandled
  cases hhandled with
  | rejected hinvalid => exact absurd hvalid hinvalid
  | entered _ hentered =>
      have hfills := hentered.fills (hs.ready hfresh)
      rw [ho, hs.crossing_alloc o] at hfills
      have hq : 0 ≤ o.remainingQuantity :=
        sub_nonneg.mpr (Order.isValid_iff.mp hvalid).2.2.2.2.2.2
      have htraded := traded_of_fills hfills hq fun offer hoffer => by
        obtain ⟨e, he, rfl⟩ := List.mem_map.mp (List.mem_filter.mp hoffer).1
        exact (hstock _ e he).remaining_pos.le
      refine ⟨fun hlimit level hlevel hprice => ?_, fun hmarket hlength => ?_⟩
      · rw [OrderBook.getOrderBook_side] at hlevel
        obtain ⟨before, pl, after, hcut, rfl⟩ := SideDepth.exists_cut hlevel
        obtain ⟨before, rest, hlevels, rfl, hrest⟩ := List.map_eq_append_iff.mp hcut
        obtain ⟨l, after, rfl, rfl, rfl⟩ := List.map_eq_cons_iff.mp hrest
        have hall : me.orderBook.levels (!o.side.isBid) = before ++ l ::
            (after ++ (me.orderBook.levels !o.side.isBid).drop (shownLevels query)) := by
          rw [← List.cons_append, ← List.append_assoc, ← hlevels, List.take_append_drop]
        rw [htraded, hs.wf.depth_crossing hlimit hall hprice, ← List.map_singleton,
          ← List.map_append, List.map_map]
        rfl
      · rw [htraded, hs.wf.depth_crossing_market hmarket, OrderBook.getOrderBook_totalVolume,
          List.take_of_length_le hlength]

/-- Two levels of 5: a buy order of 12 at the second price trades 10. -/
theorem displayed_depth_trades_two_levels :
    let o : Order := { buyTen with price := 102, quantity := 12 }
    let me := emptyEngine.after 9 [.new sellFive, .new sellHigher]
    (getOrderBook (fun _ => "") 0 false me.orderBook).asks = [⟨100, 5, 5⟩, ⟨102, 5, 10⟩]
    ∧ ∃ fuel me' answer, me.handle fuel (.new o) = some (me', answer)
      ∧ (answer.trades.map Trade.quantity).sum = 10 := by
  intro o me
  have hasks : (getOrderBook (fun _ => "") 0 false me.orderBook).asks =
      [⟨100, 5, 5⟩, ⟨102, 5, 10⟩] := by decide +kernel
  obtain ⟨trades, hrun⟩ := MatchingEngine.after_run
    (show (emptyEngine.handleAll 9 [.new sellFive, .new sellHigher]).isSome = true by
      decide +kernel)
  obtain ⟨fuel, me', answer, hhandle, hlimit, -⟩ := displayed_depth_trades (o := o)
    emptyEngine_initial hrun (by decide) (by decide) (fun _ => "") 0 false
  refine ⟨hasks, fuel, me', answer, hhandle, (hlimit rfl ⟨102, 5, 10⟩ ?_ rfl).trans ?_⟩
  · show _ ∈ (getOrderBook (fun _ => "") 0 false me.orderBook).asks
    rw [hasks]
    decide
  · decide +kernel

end TradingBackend
