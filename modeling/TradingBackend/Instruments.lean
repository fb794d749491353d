import TradingBackend.BookContents
import TradingBackend.Greedy
import TradingBackend.Handlers

/-!
# Instruments

An engine is made for one instrument, and nothing on the way of an order
compares the order's instrument with it: not `validateOrderRequest`, not
`IsValid`, not the book. `Isolated` says that no foreign order got in. It
is kept by exactly the requests that meet `Native`: the order has the
instrument of the book, or nothing can come of it.
-/

namespace TradingBackend

/-- The order with this id was submitted, with this instrument. -/
def SubmittedUnder (requests : List Request) (id : UUID) (instrument : String) : Prop :=
  ∃ o ∈ submitted requests, o.id = id ∧ o.instrument = instrument

theorem SubmittedUnder.append {requests : List Request} {id : UUID} {instrument : String}
    (h : SubmittedUnder requests id instrument) (request : Request) :
    SubmittedUnder (requests ++ [request]) id instrument := by
  obtain ⟨o, ho, hid, hinst⟩ := h
  refine ⟨o, ?_, hid, hinst⟩
  rw [submitted, List.filterMap_append]
  exact List.mem_append_left _ ho

variable {T : Type} [OrderedTree T Decimal LevelRef]

namespace MatchingEngine

/-- Every trade is between two orders of the book's instrument, and so is
every resting order. -/
structure Isolated (me : MatchingEngine T) (requests : List Request) (trades : List Trade) :
    Prop where
  trades : ∀ t ∈ trades, SubmittedUnder requests t.buyOrderID me.orderBook.instrument
    ∧ SubmittedUnder requests t.sellOrderID me.orderBook.instrument
  resting : ∀ b, ∀ e ∈ me.orderBook.elements b,
    (me.orderBook.orderAt e.value).instrument = me.orderBook.instrument

/-- An order of the book's instrument, or a market order that finds no
offer. -/
def Native (me : MatchingEngine T) : Request → Prop
  | .cancel _ => True
  | .new o => o.instrument = me.orderBook.instrument
      ∨ o.type = .market ∧ me.orderBook.crossing o = []

instance (me : MatchingEngine T) (request : Request) : Decidable (me.Native request) :=
  match request with
  | .cancel _ => isTrue trivial
  | .new _ => inferInstanceAs (Decidable (_ ∨ _ ∧ _))

section

variable {me me' : MatchingEngine T} {requests : List Request} {request : Request}
  {trades trades' : List Trade} {o : Order}

theorem Handled.instrument (hh : Handled me me' request trades) :
    me'.orderBook.instrument = me.orderBook.instrument := by
  cases hh with
  | entered _ h => exact h.frame.instrument
  | rejected _ h => rw [h]; rfl
  | withdrawn _ h => exact h.frame.instrument
  | notFound _ h => rw [h]

/-- A resting order is one of those submitted, as far as its id and its
instrument go. -/
theorem Sound.submittedUnder (hs : me.Sound requests) {r : OrderRef}
    (hr : r < me.orderBook.nextOrder) :
    SubmittedUnder requests (me.orderBook.orderAt r).id (me.orderBook.orderAt r).instrument := by
  obtain ⟨o, ho, hterms⟩ := hs.exists_submitted hr
  exact ⟨o, List.mem_of_getElem? ho, (Order.eq_of_terms Order.id (fun _ => rfl) hterms).symm,
    (Order.eq_of_terms Order.instrument (fun _ => rfl) hterms).symm⟩

theorem Entered.names (h : Entered (me.alloc o) me' me.orderBook.nextOrder trades)
    (hs : me.Sound requests) {t : Trade} (ht : t ∈ trades) :
    ∃ b, ∃ e ∈ me.orderBook.elements b, ∀ id,
      t.Names id ↔ o.id = id ∨ (me.orderBook.orderAt e.value).id = id := by
  rw [h.trades_eq] at ht
  obtain ⟨e, he, hnames⟩ := walk_trades_names ht
  have hmem := OrderBook.mem_front he
  rw [(me.sameShape_alloc o).elements] at hmem
  rw [alloc_self, alloc_of_lt (hs.wf.value_lt hmem)] at hnames
  exact ⟨_, e, hmem, hnames⟩

theorem Entered.trades_ne_nil (h : Entered (me.alloc o) me' me.orderBook.nextOrder trades)
    (hs : me.Sound requests) (hfresh : FreshIDs (requests ++ [.new o])) (ho : o.Submitted)
    (hvalid : o.isValid = true) (hcross : me.orderBook.crossing o ≠ []) : trades ≠ [] := by
  intro hnil
  have hgreedy := (hs.ready hfresh).greedy_eq
  rw [alloc_self, hs.crossing_alloc] at hgreedy
  have hfills := congrArg Outcome.fills hgreedy
  rw [h.trades_eq] at hnil
  simp only [hnil, List.map_nil] at hfills
  have hpos : 0 < o.remainingQuantity := by
    rw [Order.remainingQuantity, ho.filledQuantity, sub_zero]
    exact (Order.isValid_iff.mp hvalid).2.2.2.2.1
  cases hoffers : me.orderBook.crossing o with
  | nil => exact hcross hoffers
  | cons offer offers =>
      rw [hoffers] at hfills
      unfold greedy at hfills
      rw [if_pos hpos] at hfills
      split at hfills <;> cases hfills

/-- An order that finds no offer stays in the book if it is a limit order,
and makes no trade. -/
theorem Entered.no_offer (h : Entered (me.alloc o) me' me.orderBook.nextOrder trades)
    (hs : me.Sound requests) (hfresh : FreshIDs (requests ++ [.new o])) (ho : o.Submitted)
    (hvalid : o.isValid = true) (hcross : me.orderBook.crossing o = []) :
    trades = [] ∧ ((me'.orderBook.orderAt me.orderBook.nextOrder).Rests ↔ o.type = .limit) := by
  have hready := hs.ready hfresh
  have hgreedy := hready.greedy_eq
  rw [alloc_self, hs.crossing_alloc, hcross] at hgreedy
  have hpos : 0 < o.remainingQuantity := by
    rw [Order.remainingQuantity, ho.filledQuantity, sub_zero]
    exact (Order.isValid_iff.mp hvalid).2.2.2.2.1
  constructor
  · rw [h.trades_eq]
    exact List.map_eq_nil_iff.mp (congrArg Outcome.fills hgreedy).symm
  · rw [h.rests_iff hready (by rw [alloc_self]; exact hvalid)
      (by rw [alloc_self]; exact Order.canBeFilled_iff.mpr (Or.inl ho.status)),
      alloc_self, hs.crossing_alloc, hcross]
    exact and_iff_left hpos

theorem Isolated.step (h : me.Isolated requests trades) (hs : me.Sound requests)
    (hfresh : FreshIDs (requests ++ [request])) (ho : ∀ o, request = .new o → o.Validated)
    (hh : Handled me me' request trades') (hok : me.Native request) :
    me'.Isolated (requests ++ [request]) (trades ++ trades') := by
  have hinst := hh.instrument
  have hkeep : ∀ {b e}, e ∈ me.orderBook.elements b →
      (me'.orderBook.orderAt e.value).instrument = me.orderBook.instrument := by
    intro b e he
    have hterms := hh.terms (hs.wf.value_lt he)
    rw [Order.eq_of_terms Order.instrument (fun _ => rfl) hterms]
    exact h.resting b e he
  have hbefore : ∀ t ∈ trades,
      SubmittedUnder (requests ++ [request]) t.buyOrderID me.orderBook.instrument
      ∧ SubmittedUnder (requests ++ [request]) t.sellOrderID me.orderBook.instrument :=
    fun t ht => ⟨(h.trades t ht).1.append request, (h.trades t ht).2.append request⟩
  cases hh with
  | @entered o trades' hvalid hent =>
      have hsub := (ho o rfl).submitted
      have hmem := fun {b} {e : Element} => hent.mem_elements (b := b) (e := e) (hs.wf.newOrder o)
      have hold := fun {b} {e : Element} (he : e ∈ (me.alloc o).orderBook.elements b) =>
        hkeep ((me.sameShape_alloc o).elements b ▸ he)
      rcases hok with hnative | ⟨hmarket, hcross⟩
      · have hown : SubmittedUnder (requests ++ [.new o]) o.id me.orderBook.instrument := by
          refine ⟨o, ?_, rfl, hnative⟩
          rw [submitted_append_new]
          exact List.mem_append_right _ (List.mem_singleton_self o)
        have hnew : ∀ t ∈ trades', ∀ id, t.Names id →
            SubmittedUnder (requests ++ [.new o]) id me.orderBook.instrument := by
          intro t ht id hid
          obtain ⟨b, e, he, hnames⟩ := hent.names hs ht
          rcases (hnames id).mp hid with rfl | rfl
          · exact hown
          · rw [← h.resting b e he]
            exact (hs.submittedUnder (hs.wf.value_lt he)).append _
        constructor
        · rw [hinst]
          refine List.forall_mem_append.mpr ⟨hbefore, fun t ht => ?_⟩
          exact ⟨hnew t ht _ (Or.inl rfl), hnew t ht _ (Or.inr rfl)⟩
        · rw [hinst]
          intro b e he
          rcases hmem.mp he with ⟨he, -⟩ | ⟨rfl, -⟩
          · exact hold he
          · show (me'.orderBook.orderAt me.orderBook.nextOrder).instrument = _
            rw [hent.of_terms Order.instrument fun _ => rfl, alloc_self]
            exact hnative
      · obtain ⟨rfl, hrests⟩ := hent.no_offer hs hfresh hsub hvalid hcross
        constructor
        · rw [hinst, List.append_nil]
          exact hbefore
        · rw [hinst]
          intro b e he
          rcases hmem.mp he with ⟨he, -⟩ | ⟨-, -, hr⟩
          · exact hold he
          · exact absurd (hmarket.symm.trans (hrests.mp hr)) nofun
  | @rejected o hvalid heq => exact absurd (ho o rfl).isValid hvalid
  | withdrawn he hwith =>
      constructor
      · rw [hinst, List.append_nil]
        exact hbefore
      · rw [hinst]
        intro b e' he'
        rw [hwith.elements] at he'
        exact hkeep (List.mem_filter.mp he').1
  | notFound hid heq =>
      subst heq
      constructor
      · rw [List.append_nil]
        exact hbefore
      · exact h.resting

theorem Isolated.native (h : me'.Isolated (requests ++ [request]) (trades ++ trades'))
    (hs : me.Sound requests) (hfresh : FreshIDs (requests ++ [request]))
    (ho : ∀ o, request = .new o → o.Validated) (hh : Handled me me' request trades') :
    me.Native request := by
  have hinst := hh.instrument
  cases hh with
  | @entered o trades' hvalid hent =>
      have hsub := (ho o rfl).submitted
      by_cases hcross : me.orderBook.crossing o = []
      · by_cases hmarket : o.type = .market
        · exact Or.inr ⟨hmarket, hcross⟩
        · -- a limit order that finds no offer rests
          have htype := (Order.isValid_iff.mp hvalid).2.2.2.1.resolve_right hmarket
          have hrests := (hent.no_offer hs hfresh hsub hvalid hcross).2.mpr htype
          have hnew := h.resting _ _ ((hent.mem_elements (hs.wf.newOrder o)).mpr
            (Or.inr ⟨rfl, rfl, hrests⟩))
          change (me'.orderBook.orderAt me.orderBook.nextOrder).instrument = _ at hnew
          rw [hent.of_terms Order.instrument fun _ => rfl, alloc_self, hinst] at hnew
          exact Or.inl hnew
      · -- an order that finds an offer trades
        obtain ⟨t, ht⟩ := List.exists_mem_of_ne_nil _
          (hent.trades_ne_nil hs hfresh hsub hvalid hcross)
        obtain ⟨b, e, -, hnames⟩ := hent.names hs ht
        have hunder : SubmittedUnder (requests ++ [.new o]) o.id me.orderBook.instrument := by
          have hpair := h.trades t (List.mem_append_right _ ht)
          rw [hinst] at hpair
          rcases (hnames o.id).mpr (Or.inl rfl) with hid | hid
          · exact hid ▸ hpair.1
          · exact hid ▸ hpair.2
        obtain ⟨o', ho', hid, hnative⟩ := hunder
        rw [submitted_append_new] at ho'
        have hsame : o' = o := by
          rw [FreshIDs, submitted_append_new] at hfresh
          exact List.inj_on_of_nodup_map hfresh ho'
            (List.mem_append_right _ (List.mem_singleton_self o)) hid
        exact Or.inl (hsame ▸ hnative)
  | @rejected o hvalid heq => exact absurd (ho o rfl).isValid hvalid
  | withdrawn he hwith => trivial
  | notFound hid heq => trivial

theorem Initial.isolated {me₀ : MatchingEngine T} (h₀ : me₀.Initial) : me₀.Isolated [] [] := by
  obtain ⟨instrument, hbook⟩ := h₀
  refine ⟨List.forall_mem_nil _, fun b e he => ?_⟩
  rw [hbook, OrderBook.newOrderBook_elements] at he
  cases he

theorem RunWith.isolated {me₀ : MatchingEngine T} (h₀ : me₀.Initial)
    (h : RunWith Native me₀ requests me trades) (hfresh : FreshIDs requests)
    (hval : ∀ o ∈ submitted requests, o.Validated) : me.Isolated requests trades := by
  induction h with
  | nil => exact h₀.isolated
  | @snoc requests me trades request fuel me' response hprev hstep hok ih =>
      have happ : submitted (requests ++ [request]) = submitted requests ++ submitted [request] :=
        List.filterMap_append ..
      have hs := hprev.run.sound h₀ hfresh.of_append
      have hprev := ih hfresh.of_append fun o ho => hval o (happ ▸ List.mem_append_left _ ho)
      refine hprev.step hs hfresh (fun o ho => hval o ?_) (handle_cases hs hfresh hstep) hok
      rw [happ, ho]
      exact List.mem_append_right _ (List.mem_singleton_self o)

end

end MatchingEngine

/-- In a run all of whose orders have the instrument of the engine, or are
market orders that find no offer, no trade and no resting order is of
another instrument; the first request that is different lets one in. -/
theorem instrument_isolation {me₀ me : MatchingEngine T} {requests : List Request}
    {trades : List Trade} (h₀ : me₀.Initial) (hfresh : FreshIDs requests)
    (hval : ∀ o ∈ submitted requests, o.Validated)
    (hrun : MatchingEngine.RunWith MatchingEngine.Native me₀ requests me trades) :
    me.Isolated requests trades
    ∧ ∀ request fuel me' response, FreshIDs (requests ++ [request]) →
        (∀ o, request = .new o → o.Validated) →
        me.handle fuel request = some (me', response) →
        (me'.Isolated (requests ++ [request]) (trades ++ response.trades)
          ↔ me.Native request) := by
  have hiso := hrun.isolated h₀ hfresh hval
  refine ⟨hiso, fun request fuel me' response hfresh' ho hstep => ?_⟩
  have hs := hrun.run.sound h₀ hfresh
  have hh := MatchingEngine.handle_cases hs hfresh' hstep
  exact ⟨fun h => h.native hs hfresh' ho hh, hiso.step hs hfresh' ho hh⟩

def sellForeign : Order := { sellFive with instrument := "ETH-USD" }

theorem validated_sellForeign : sellForeign.Validated :=
  ⟨⟨"seller", "ETH-USD", "sell", "limit", 100, 5⟩, 1, 0, by decide +kernel⟩

theorem validated_sellHigher : sellHigher.Validated :=
  ⟨⟨"seller", "BTC-USD", "sell", "limit", 102, 5⟩, 4, 0, by decide +kernel⟩

def marketForeign : Order := { sellForeign with id := 7, type := .market, price := 0 }

theorem validated_marketForeign : marketForeign.Validated :=
  ⟨⟨"seller", "ETH-USD", "sell", "market", 0, 5⟩, 7, 0, by decide +kernel⟩

/-- Two resting orders, a market order of another instrument that finds no bid,
and a trade. -/
def nativeRequests : List Request :=
  [.new sellFive, .new sellHigher, .new marketForeign, .new buyThree]

theorem instrument_isolation_resting :
    ∃ (me : MatchingEngine (SortedItems Decimal LevelRef)) (trades : List Trade),
      MatchingEngine.RunWith MatchingEngine.Native emptyEngine nativeRequests me trades
      ∧ me.Isolated nativeRequests trades
      ∧ (me.orderBook.restingOrders false).map (fun o => (o.id, o.filledQuantity)) =
        [(sellFive.id, 3), (sellHigher.id, 0)] := by
  have h₀ : MatchingEngine.RunWith MatchingEngine.Native emptyEngine [] _ _ := .nil
  obtain ⟨_, hfive⟩ := h₀.handled 9 (.new sellFive) (by decide +kernel) (by decide +kernel)
  obtain ⟨_, hhigher⟩ := hfive.handled 9 (.new sellHigher) (by decide +kernel) (by decide +kernel)
  obtain ⟨_, hmarket⟩ := hhigher.handled 9 (.new marketForeign) (by decide +kernel)
    (by decide +kernel)
  obtain ⟨_, hrun⟩ := hmarket.handled 9 (.new buyThree) (by decide +kernel) (by decide +kernel)
  have hval : ∀ o ∈ submitted nativeRequests, o.Validated := by
    simpa [nativeRequests, submitted] using ⟨validated_sellFive, validated_sellHigher,
      validated_marketForeign, validated_buyThree⟩
  exact ⟨_, _, hrun, (instrument_isolation emptyEngine_initial (by decide) hval hrun).1,
    by decide +kernel⟩

/-- An order of another instrument rests in the book, and an order of the
book's instrument trades with it. -/
theorem foreign_order_trades :
    (∀ o ∈ submitted [.new sellForeign, .new buyThree], o.Validated)
    ∧ (emptyEngine.after 9 [.new sellForeign]).orderBook.restingOrders false = [sellForeign]
    ∧ ∃ me trades, MatchingEngine.Run emptyEngine [.new sellForeign, .new buyThree] me trades
      ∧ me.orderBook.instrument = "BTC-USD"
      ∧ trades.map (fun t => (t.buyOrderID, t.sellOrderID))
          = [(buyThree.id, sellForeign.id)] := by
  refine ⟨?_, by decide +kernel, ?_⟩
  · simpa [submitted] using ⟨validated_sellForeign, validated_buyThree⟩
  · cases hall : emptyEngine.handleAll 9 [.new sellForeign, .new buyThree] with
    | none => exact absurd hall (by decide +kernel)
    | some r =>
        obtain ⟨me, trades⟩ := r
        have hinst : (emptyEngine.handleAll 9 [.new sellForeign, .new buyThree]).map
            (fun r => (r.1.orderBook.instrument, r.2.map fun t => (t.buyOrderID, t.sellOrderID)))
            = some ("BTC-USD", [(buyThree.id, sellForeign.id)]) := by
          decide +kernel
        rw [hall, Option.map_some, Option.some.injEq, Prod.mk.injEq] at hinst
        exact ⟨me, trades, MatchingEngine.handleAll_run hall, hinst.1, hinst.2⟩

end TradingBackend
