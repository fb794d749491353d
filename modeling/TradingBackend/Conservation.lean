import Mathlib.Algebra.BigOperators.Group.Finset.Piecewise
import TradingBackend.LifeCycle

/-!
# Conservation of quantity

The trades of a run are its ledger: what an order has filled is the sum
of the trades that name it, what is bought is what is sold, and what a
trade reports about its two orders is the ledger up to itself.

`Balanced` says this of an order memory and a list of trades. One trade
keeps it (`Balanced.trade`), hence a walk does, hence a command, hence a
run; the rest of a command writes nothing the ledger looks at
(`Balanced.congr`) or adds an order that no trade names
(`Balanced.extend`).
-/

namespace TradingBackend

/-- The quantity of the trades that name an order. -/
def filledBy (trades : List Trade) (id : UUID) : Decimal :=
  ((trades.filter fun t => t.Names id).map Trade.quantity).sum

theorem filledBy_snoc (trades : List Trade) (t : Trade) (id : UUID) :
    filledBy (trades ++ [t]) id = filledBy trades id + if t.Names id then t.quantity else 0 := by
  rw [filledBy, List.filter_append, List.map_append, List.sum_append, filledBy]
  by_cases h : t.Names id
  · simp [h]
  · simp [h]

theorem filledBy_eq_zero {trades : List Trade} {id : UUID} (h : ∀ t ∈ trades, ¬t.Names id) :
    filledBy trades id = 0 := by
  rw [filledBy, List.filter_eq_nil_iff.mpr fun t ht => by simpa using h t ht]
  rfl

/-! ## The ledger -/

/-- What a trade says about one of its orders, given the trades before
it. -/
structure Reported (n : Nat) (m : OrderRef → Order) (before : List Trade) (id : UUID)
    (filledQty remainingQty : Decimal) (isPartialFill : Bool) : Prop where
  order : ∃ r < n, (m r).id = id ∧ filledQty + remainingQty = (m r).quantity
  filled : filledQty = filledBy before id
  isPartial : isPartialFill = true ↔ 0 < remainingQty

/-- What a trade says about its two orders. -/
def Accurate (n : Nat) (m : OrderRef → Order) (before : List Trade) (t : Trade) : Prop :=
  Reported n m (before ++ [t]) t.buyOrderID t.buyerFilledQty t.buyerRemainingQty
      t.isBuyerPartialFill
    ∧ Reported n m (before ++ [t]) t.sellOrderID t.sellerFilledQty t.sellerRemainingQty
        t.isSellerPartialFill

def sideTotal (n : Nat) (m : OrderRef → Order) (side : OrderSide) : Decimal :=
  ∑ r ∈ Finset.range n with (m r).side = side, (m r).filledQuantity

/-- The ledger of the first `n` orders is balanced: every order has filled what
its trades say, the two sides have filled the same, and each trade reports what
its orders had filled right after it. -/
structure Balanced (n : Nat) (m : OrderRef → Order) (trades : List Trade) : Prop where
  ids : ∀ r < n, ∀ r' < n, (m r).id = (m r').id → r = r'
  positive : ∀ t ∈ trades, 0 < t.quantity
  filled : ∀ r < n, (m r).filledQuantity = filledBy trades (m r).id
  totals : sideTotal n m .buy = sideTotal n m .sell
  accurate : ∀ before t after, trades = before ++ t :: after → Accurate n m before t

section

variable {n : Nat} {m m' : OrderRef → Order} {trades : List Trade} {a : OrderRef} {e : Element}

theorem Reported.congr {before : List Trade} {id : UUID} {f q : Decimal} {p : Bool}
    (h : Reported n m before id f q p) (hid : ∀ r < n, (m' r).id = (m r).id)
    (hquantity : ∀ r < n, (m' r).quantity = (m r).quantity) : Reported n m' before id f q p := by
  obtain ⟨⟨r, hr, hrid, hsum⟩, hf, hp⟩ := h
  exact ⟨⟨r, hr, (hid r hr).trans hrid, hsum.trans (hquantity r hr).symm⟩, hf, hp⟩

theorem Balanced.congr (h : Balanced n m trades) (hid : ∀ r < n, (m' r).id = (m r).id)
    (hside : ∀ r < n, (m' r).side = (m r).side)
    (hquantity : ∀ r < n, (m' r).quantity = (m r).quantity)
    (hfilled : ∀ r < n, (m' r).filledQuantity = (m r).filledQuantity) : Balanced n m' trades := by
  have htotal : ∀ side, sideTotal n m' side = sideTotal n m side := by
    intro side
    simp only [sideTotal, Finset.sum_filter]
    refine Finset.sum_congr rfl fun r hr => ?_
    rw [hside r (Finset.mem_range.mp hr), hfilled r (Finset.mem_range.mp hr)]
  refine ⟨fun r hr r' hr' heq => ?_, h.positive, fun r hr => ?_, ?_, fun before t after ht => ?_⟩
  · rw [hid r hr, hid r' hr'] at heq
    exact h.ids r hr r' hr' heq
  · rw [hid r hr, hfilled r hr]
    exact h.filled r hr
  · rw [htotal, htotal]
    exact h.totals
  · obtain ⟨hb, hs⟩ := h.accurate before t after ht
    exact ⟨hb.congr hid hquantity, hs.congr hid hquantity⟩

/-- Writing the status of an order, or anything else the ledger does not
look at. -/
theorem Balanced.update (h : Balanced n m trades) {r : OrderRef} {o : Order}
    (hid : o.id = (m r).id) (hside : o.side = (m r).side) (hquantity : o.quantity = (m r).quantity)
    (hfilled : o.filledQuantity = (m r).filledQuantity) :
    Balanced n (Function.update m r o) trades := by
  have hof : ∀ {β : Type} (f : Order → β), f o = f (m r) →
      ∀ r', f (Function.update m r o r') = f (m r') := by
    intro β f hf r'
    by_cases hr : r' = r
    · rw [hr, Function.update_self, hf]
    · rw [Function.update_of_ne hr]
  exact h.congr (fun r' _ => hof Order.id hid r') (fun r' _ => hof Order.side hside r')
    (fun r' _ => hof Order.quantity hquantity r')
    fun r' _ => hof Order.filledQuantity hfilled r'

theorem Balanced.named (h : Balanced n m trades) {t : Trade} (ht : t ∈ trades) {id : UUID}
    (hid : t.Names id) : ∃ r < n, (m r).id = id := by
  obtain ⟨before, after, hsplit⟩ := List.append_of_mem ht
  obtain ⟨hb, hs⟩ := h.accurate before t after hsplit
  rcases hid with rfl | rfl
  · obtain ⟨r, hr, hrid, -⟩ := hb.order
    exact ⟨r, hr, hrid⟩
  · obtain ⟨r, hr, hrid, -⟩ := hs.order
    exact ⟨r, hr, hrid⟩

theorem Balanced.extend (h : Balanced n m trades) (hid : ∀ r < n, (m r).id ≠ (m n).id)
    (hzero : (m n).filledQuantity = 0) : Balanced (n + 1) m trades := by
  have htotal : ∀ side, sideTotal (n + 1) m side = sideTotal n m side := by
    intro side
    simp only [sideTotal, Finset.sum_filter, Finset.sum_range_succ, hzero, ite_self, add_zero]
  refine ⟨fun r hr r' hr' heq => ?_, h.positive, fun r hr => ?_, ?_, fun before t after ht => ?_⟩
  · rcases Nat.lt_succ_iff_lt_or_eq.mp hr with hr | rfl
    · rcases Nat.lt_succ_iff_lt_or_eq.mp hr' with hr' | rfl
      · exact h.ids r hr r' hr' heq
      · exact absurd heq (hid r hr)
    · rcases Nat.lt_succ_iff_lt_or_eq.mp hr' with hr' | rfl
      · exact absurd heq.symm (hid r' hr')
      · rfl
  · rcases Nat.lt_succ_iff_lt_or_eq.mp hr with hr | rfl
    · exact h.filled r hr
    · rw [hzero, filledBy_eq_zero]
      intro t ht hnames
      obtain ⟨r', hr', hrid⟩ := h.named ht hnames
      exact hid r' hr' hrid
  · rw [htotal, htotal]
    exact h.totals
  · obtain ⟨⟨⟨r, hr, hb⟩, hbf, hbp⟩, ⟨⟨r', hr', hs⟩, hsf, hsp⟩⟩ := h.accurate before t after ht
    exact ⟨⟨⟨r, Nat.lt_succ_of_lt hr, hb⟩, hbf, hbp⟩, ⟨⟨r', Nat.lt_succ_of_lt hr', hs⟩, hsf, hsp⟩⟩

/-! ## One trade -/

theorem tradeOrders_filledQuantity (hne : e.value ≠ a) (r : OrderRef) :
    (tradeOrders m a e.value r).filledQuantity = (m r).filledQuantity
      + ((if r = a then matchQty m a e.value else 0)
        + if r = e.value then matchQty m a e.value else 0) := by
  by_cases ha : r = a
  · subst ha
    rw [tradeOrders_aggressor hne, Order.fill_filledQuantity, if_pos rfl, if_neg (Ne.symm hne),
      add_zero]
  · by_cases he : r = e.value
    · subst he
      rw [tradeOrders_resting hne, Order.fill_filledQuantity, if_neg ha, if_pos rfl, zero_add]
    · rw [tradeOrders_other ha he, if_neg ha, if_neg he, add_zero, add_zero]

theorem sideTotal_trade (hne : e.value ≠ a) (ha : a < n) (he : e.value < n) (side : OrderSide) :
    sideTotal n (tradeOrders m a e.value) side = sideTotal n m side
      + ((if (m a).side = side then matchQty m a e.value else 0)
        + if (m e.value).side = side then matchQty m a e.value else 0) := by
  have hterm : ∀ r, (if (tradeOrders m a e.value r).side = side
        then (tradeOrders m a e.value r).filledQuantity else 0) =
      (if (m r).side = side then (m r).filledQuantity else 0)
        + ((if r = a then if (m a).side = side then matchQty m a e.value else 0 else 0)
          + if r = e.value then if (m e.value).side = side then matchQty m a e.value else 0
            else 0) := by
    intro r
    rw [tradeOrders_side, tradeOrders_filledQuantity hne]
    by_cases hside : (m r).side = side
    · rw [if_pos hside, if_pos hside]
      congr 2
      · by_cases hr : r = a
        · rw [if_pos hr, if_pos hr, ← hr, if_pos hside]
        · rw [if_neg hr, if_neg hr]
      · by_cases hr : r = e.value
        · rw [if_pos hr, if_pos hr, ← hr, if_pos hside]
        · rw [if_neg hr, if_neg hr]
    · rw [if_neg hside, if_neg hside]
      have hzero : ∀ x, (if r = x then if (m x).side = side then matchQty m a e.value else 0
          else 0) = 0 := by
        intro x
        split_ifs with hr hx
        · exact absurd (hr ▸ hx) hside
        · rfl
        · rfl
      rw [hzero, hzero, add_zero, add_zero]
  simp only [sideTotal, Finset.sum_filter]
  rw [Finset.sum_congr rfl fun r _ => hterm r, Finset.sum_add_distrib, Finset.sum_add_distrib,
    Finset.sum_ite_eq', Finset.sum_ite_eq', if_pos (Finset.mem_range.mpr ha),
    if_pos (Finset.mem_range.mpr he)]

/-- The two orders of a trade are on opposite sides. -/
def Opposite (o o' : Order) : Prop :=
  o.side = .buy ∧ o'.side = .sell ∨ o.side = .sell ∧ o'.side = .buy

theorem reported_fill {r : OrderRef} {q : Decimal} (hr : r < n) (ho : (m r).Live) (hpos : 0 < q)
    (hq : q ≤ (m r).remainingQuantity) (horder : m' r = (m r).fill q)
    (hfilled : (m' r).filledQuantity = filledBy trades (m' r).id) :
    Reported n m' trades (m r).id (m' r).filledQuantity (m' r).remainingQuantity
      (decide ((m' r).status = .partiallyFilled)) := by
  have hid : (m' r).id = (m r).id := by rw [horder, Order.fill_id]
  refine ⟨⟨r, hr, hid, add_sub_cancel ..⟩, hid ▸ hfilled, ?_⟩
  rw [decide_eq_true_iff, horder]
  exact ho.fill_partly hpos hq

/-- What a trade reports is the ledger it is the last entry of. -/
theorem accurate_trade (hfits : Fits a m e) (ha : a < n) (he : e.value < n)
    (hfilled : ∀ r < n, (tradeOrders m a e.value r).filledQuantity =
      filledBy (trades ++ [tradeOf m a e.value]) (tradeOrders m a e.value r).id) :
    Accurate n (tradeOrders m a e.value) trades (tradeOf m a e.value) := by
  have haggr := reported_fill ha hfits.aggressor hfits.pos hfits.le_aggressor
    (tradeOrders_aggressor hfits.ne) (hfilled a ha)
  have hrest := reported_fill he hfits.resting hfits.pos hfits.le_resting
    (tradeOrders_resting hfits.ne) (hfilled e.value he)
  by_cases hside : (m a).side = .buy
  · refine ⟨?_, ?_⟩
    · convert haggr using 1 <;> simp only [tradeOf, if_pos hside]
    · convert hrest using 1 <;> simp only [tradeOf, if_pos hside]
  · refine ⟨?_, ?_⟩
    · convert hrest using 1 <;> simp only [tradeOf, if_neg hside]
    · convert haggr using 1 <;> simp only [tradeOf, if_neg hside]

theorem Balanced.trade (h : Balanced n m trades) (hfits : Fits a m e) (ha : a < n)
    (he : e.value < n) (hsides : Opposite (m a) (m e.value)) :
    Balanced n (tradeOrders m a e.value) (trades ++ [tradeOf m a e.value]) := by
  have hfilled : ∀ r < n, (tradeOrders m a e.value r).filledQuantity =
      filledBy (trades ++ [tradeOf m a e.value]) (tradeOrders m a e.value r).id := by
    intro r hr
    rw [tradeOrders_filledQuantity hfits.ne, tradeOrders_id, filledBy_snoc, h.filled r hr]
    congr 1
    by_cases hra : r = a
    · subst hra
      rw [if_pos rfl, if_neg (Ne.symm hfits.ne), add_zero, if_pos (tradeOf_names.mpr (Or.inl rfl))]
      rfl
    · by_cases hre : r = e.value
      · subst hre
        rw [if_neg hra, if_pos rfl, zero_add, if_pos (tradeOf_names.mpr (Or.inr rfl))]
        rfl
      · rw [if_neg hra, if_neg hre, add_zero, if_neg]
        rw [tradeOf_names]
        rintro (hid | hid)
        · exact hra (h.ids a ha r hr hid).symm
        · exact hre (h.ids e.value he r hr hid).symm
  refine ⟨fun r hr r' hr' heq => ?_, fun t ht => ?_, hfilled, ?_, fun before t after hsplit => ?_⟩
  · rw [tradeOrders_id, tradeOrders_id] at heq
    exact h.ids r hr r' hr' heq
  · rcases List.mem_append.mp ht with ht | ht
    · exact h.positive t ht
    · rw [List.mem_singleton.mp ht]
      exact hfits.pos
  · rw [sideTotal_trade hfits.ne ha he, sideTotal_trade hfits.ne ha he, h.totals]
    rcases hsides with ⟨hbuy, hsell⟩ | ⟨hsell, hbuy⟩
    · simp [hbuy, hsell]
    · simp [hbuy, hsell]
  · rcases List.eq_nil_or_concat after with rfl | ⟨after, t', rfl⟩
    · obtain ⟨rfl, ht⟩ := List.append_inj' hsplit rfl
      obtain rfl := List.singleton_inj.mp ht
      exact accurate_trade hfits ha he hfilled
    · rw [List.concat_eq_append, ← List.cons_append, ← List.append_assoc] at hsplit
      obtain ⟨hb, hs⟩ := h.accurate before t after (List.append_inj' hsplit rfl).1
      exact ⟨hb.congr (fun _ _ => tradeOrders_id) fun _ _ => tradeOrders_quantity,
        hs.congr (fun _ _ => tradeOrders_id) fun _ _ => tradeOrders_quantity⟩

/-! ## Walks, commands, runs -/

theorem Balanced.walk {queue : List Element} (h : Balanced n m trades) (hl : Lined a m queue)
    (ha : a < n) (hlt : ∀ e ∈ queue, e.value < n)
    (hsides : ∀ e ∈ queue, Opposite (m a) (m e.value)) :
    Balanced n (walk a m queue).orderAt (trades ++ (walk a m queue).trades) := by
  refine (hl.invariant
    (P := fun m' ts => (∀ r, (m' r).side = (m r).side) ∧ Balanced n m' ts) ?_ trades
    ⟨fun _ => rfl, h⟩).2
  rintro m' ts e he hfits ⟨hside, hbal⟩
  refine ⟨fun r => tradeOrders_side.trans (hside r), hbal.trade hfits ha (hlt e he) ?_⟩
  rw [Opposite, hside, hside]
  exact hsides e he

end

namespace MatchingEngine

variable {T : Type} [OrderedTree T Decimal LevelRef] {me me' : MatchingEngine T}
  {requests : List Request} {request : Request} {trades trades' : List Trade} {o : Order}

/-- The orders a valid order trades with are on the other side. -/
theorem LifeCycle.opposite (h : me.LifeCycle) (hs : me.Sound requests) (hvalid : o.isValid = true)
    {e : Element} (he : e ∈ (me.alloc o).orderBook.front crosses me.orderBook.nextOrder) :
    Opposite o (me.orderBook.orderAt e.value) := by
  have he := OrderBook.mem_front he
  rw [(me.sameShape_alloc o).elements, OrderBook.opposing, alloc_self] at he
  have hside := hs.wf.element_side he
  obtain ⟨-, hvalid', -⟩ := h.live hs.wf he
  have hto : (me.orderBook.orderAt e.value).side = .buy
      ∨ (me.orderBook.orderAt e.value).side = .sell := (Order.isValid_iff.mp hvalid').2.2.1
  rcases (Order.isValid_iff.mp hvalid).2.2.1 with hbuy | hsell
  · refine Or.inl ⟨hbuy, hto.resolve_left fun hbuy' => ?_⟩
    rw [hbuy, hbuy'] at hside
    exact absurd hside (by decide)
  · refine Or.inr ⟨hsell, hto.resolve_right fun hsell' => ?_⟩
    rw [hsell, hsell'] at hside
    exact absurd hside (by decide)

theorem balanced_alloc (h : Balanced me.orderBook.nextOrder me.orderBook.orderAt trades)
    (hs : me.Sound requests) (hfresh : FreshIDs (requests ++ [.new o])) (ho : o.Submitted) :
    Balanced (me.orderBook.nextOrder + 1) (me.alloc o).orderBook.orderAt trades := by
  have hold : ∀ r < me.orderBook.nextOrder,
      (me.alloc o).orderBook.orderAt r = me.orderBook.orderAt r := fun r hr => alloc_of_lt hr
  refine (h.congr (fun r hr => by rw [hold r hr]) (fun r hr => by rw [hold r hr])
    (fun r hr => by rw [hold r hr]) fun r hr => by rw [hold r hr]).extend ?_ ?_
  · intro r hr
    rw [hold r hr, alloc_self]
    exact hs.id_ne hfresh hr
  · rw [alloc_self]
    exact ho.filledQuantity

theorem Handled.balanced (hh : Handled me me' request trades') (hlife : me.LifeCycle)
    (hs : me.Sound requests) (hfresh : FreshIDs (requests ++ [request]))
    (ho : ∀ o, request = .new o → o.Submitted)
    (h : Balanced me.orderBook.nextOrder me.orderBook.orderAt trades) :
    Balanced me'.orderBook.nextOrder me'.orderBook.orderAt (trades ++ trades') := by
  cases hh with
  | @entered o trades' hvalid hent =>
      have hlined := hlife.lined hs hfresh (ho o rfl) hvalid
      have hlt : ∀ e ∈ (me.alloc o).orderBook.front crosses me.orderBook.nextOrder,
          e.value < me.orderBook.nextOrder := by
        intro e he
        have he := OrderBook.mem_front he
        rw [(me.sameShape_alloc o).elements] at he
        exact hs.wf.value_lt he
      have hwalk := (balanced_alloc h hs hfresh (ho o rfl)).walk hlined (Nat.lt_succ_self _)
        (fun e he => Nat.lt_succ_of_lt (hlt e he)) fun e he => by
          rw [alloc_self, alloc_of_lt (hlt e he)]
          exact hlife.opposite hs hvalid he
      rw [hent.frame.nextOrder, hent.trades_eq, hent.orderAt]
      exact hwalk.update (Order.closed_of_status Order.id (fun _ _ => rfl) _)
        (Order.closed_of_status Order.side (fun _ _ => rfl) _)
        (Order.closed_of_status Order.quantity (fun _ _ => rfl) _)
        (Order.closed_of_status Order.filledQuantity (fun _ _ => rfl) _)
  | @rejected o hvalid heq =>
      subst heq
      rw [List.append_nil]
      exact (balanced_alloc h hs hfresh (ho o rfl)).update rfl rfl rfl rfl
  | @withdrawn b l e he hwith =>
      rw [List.append_nil, hwith.frame.nextOrder, hwith.orderAt]
      exact h.update rfl rfl rfl rfl
  | notFound hid heq =>
      rw [List.append_nil, heq]
      exact h

theorem Run.balanced {me₀ : MatchingEngine T} (h₀ : me₀.Initial) (h : Run me₀ requests me trades)
    (hfresh : FreshIDs requests) (hok : ∀ o ∈ submitted requests, o.Submitted) :
    me.LifeCycle ∧ Balanced me.orderBook.nextOrder me.orderBook.orderAt trades := by
  refine (h.induct h₀ Order.Submitted
    (P := fun _ me ts => me.LifeCycle ∧ Balanced me.orderBook.nextOrder me.orderBook.orderAt ts)
    ⟨Run.nil.lifeCycle h₀ List.nodup_nil (List.forall_mem_nil _), ?_⟩ ?_ hfresh hok).2
  · rw [h₀.sound.nextOrder]
    refine ⟨nofun, List.forall_mem_nil _, nofun, ?_, fun before t after hnil => ?_⟩
    · simp [sideTotal, submitted]
    · simp at hnil
  · rintro requests me trades request me' trades' hs hfresh ho hh ⟨hlife, hbal⟩
    exact ⟨hlife.step hs hfresh ho hh, hh.balanced hlife hs hfresh ho hbal⟩

end MatchingEngine

section

variable {T : Type} [OrderedTree T Decimal LevelRef]

/-- Conservation of quantity over a run: what the orders have filled is
what the trades say, no more than was ordered, as much bought as sold;
and every trade reports its two orders as they were right after it. -/
theorem quantity_conserved {me₀ me : MatchingEngine T} {requests : List Request}
    {trades : List Trade} (h₀ : me₀.Initial) (hfresh : FreshIDs requests)
    (hsubmitted : ∀ o ∈ submitted requests, o.filledQuantity = 0 ∧ o.status = .opened)
    (hrun : MatchingEngine.Run me₀ requests me trades) :
    (∀ t ∈ trades, 0 < t.quantity)
      ∧ (∀ (r : Nat) (o : Order), (submitted requests)[r]? = some o →
          (me.orderBook.orderAt r).filledQuantity = filledBy trades o.id
            ∧ 0 ≤ (me.orderBook.orderAt r).filledQuantity
            ∧ (0 ≤ o.quantity → (me.orderBook.orderAt r).filledQuantity ≤ o.quantity))
      ∧ ∑ r ∈ Finset.range (submitted requests).length with
            (me.orderBook.orderAt r).side = .buy, (me.orderBook.orderAt r).filledQuantity =
          ∑ r ∈ Finset.range (submitted requests).length with
            (me.orderBook.orderAt r).side = .sell, (me.orderBook.orderAt r).filledQuantity
      ∧ ∀ before t after, trades = before ++ t :: after →
          ((∃ buyer ∈ submitted requests, buyer.id = t.buyOrderID
              ∧ t.buyerFilledQty + t.buyerRemainingQty = buyer.quantity)
            ∧ t.buyerFilledQty = filledBy (before ++ [t]) t.buyOrderID
            ∧ (t.isBuyerPartialFill = true ↔ 0 < t.buyerRemainingQty))
          ∧ (∃ seller ∈ submitted requests, seller.id = t.sellOrderID
              ∧ t.sellerFilledQty + t.sellerRemainingQty = seller.quantity)
            ∧ t.sellerFilledQty = filledBy (before ++ [t]) t.sellOrderID
            ∧ (t.isSellerPartialFill = true ↔ 0 < t.sellerRemainingQty) := by
  have hok : ∀ o ∈ submitted requests, o.Submitted := fun o ho =>
    ⟨(hsubmitted o ho).1, (hsubmitted o ho).2⟩
  have hs := hrun.sound h₀ hfresh
  obtain ⟨hlife, hbal⟩ := hrun.balanced h₀ hfresh hok
  have hreported : ∀ {before id f q p}, Reported me.orderBook.nextOrder me.orderBook.orderAt
      before id f q p → (∃ o ∈ submitted requests, o.id = id ∧ f + q = o.quantity)
        ∧ f = filledBy before id ∧ (p = true ↔ 0 < q) := by
    rintro before id f q p ⟨⟨r, hr, hid, hsum⟩, hf, hp⟩
    obtain ⟨o, ho, hterms⟩ := hs.exists_submitted hr
    refine ⟨⟨o, List.mem_of_getElem? ho, ?_, ?_⟩, hf, hp⟩
    · rw [← hid, Order.eq_of_terms Order.id (fun _ => rfl) hterms]
    · rw [hsum, Order.eq_of_terms Order.quantity (fun _ => rfl) hterms]
  refine ⟨hbal.positive, fun r o ho => ?_, hs.nextOrder ▸ hbal.totals, fun before t after ht => ?_⟩
  · have hr : r < me.orderBook.nextOrder := hs.nextOrder ▸ (List.getElem?_eq_some_iff.mp ho).1
    have hterms := hs.terms r o ho
    rw [← Order.eq_of_terms Order.id (fun _ => rfl) hterms,
      ← Order.eq_of_terms Order.quantity (fun _ => rfl) hterms]
    exact ⟨hbal.filled r hr, (hlife r hr).bounds⟩
  · obtain ⟨hb, hs⟩ := hbal.accurate before t after ht
    exact ⟨hreported hb, hreported hs⟩

theorem quantity_conserved_filled :
    ∃ (me : MatchingEngine (SortedItems Decimal LevelRef)) (trades : List Trade),
      MatchingEngine.Run (newMatchingEngine "BTC-USD") fillAndCancel me trades
      ∧ (me.orderBook.orderAt 0).filledQuantity = filledBy trades sellFive.id
      ∧ (me.orderBook.orderAt 0).filledQuantity ≤ sellFive.quantity := by
  have h₀ : (newMatchingEngine (T := SortedItems Decimal LevelRef) "BTC-USD").Initial := ⟨_, rfl⟩
  obtain ⟨me, trades, hrun⟩ := MatchingEngine.run_total h₀ fillAndCancel (by decide)
  obtain ⟨hfilled, -, hle⟩ :=
    (quantity_conserved h₀ (by decide) (by decide) hrun).2.1 0 sellFive rfl
  exact ⟨me, trades, hrun, hfilled, hle (by decide)⟩

end

end TradingBackend
