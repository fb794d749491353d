import TradingBackend.PlainBook

/-!
# Independent commands commute

Two commands that do not trade change the lists of resting orders at different
places: they put in or take out one order each. Whichever is processed first,
the lists are the same in the end, hence the levels and the map of ids are. A
level may be made by the one command and be there already for the other, or
be dropped and made again; the lists do not show it.

Orders of one side and one price do not commute: they queue up.
-/

namespace TradingBackend

/-- Requests of which neither is about the order, or the place in the book, of
the other. -/
inductive Independent : Request → Request → Prop where
  | new_new {o o' : Order} (h : (o.side, o.price) ≠ (o'.side, o'.price)) :
      Independent (.new o) (.new o')
  | cancel_cancel {orderID orderID' : UUID} (h : orderID ≠ orderID') :
      Independent (.cancel orderID) (.cancel orderID')
  | cancel_new {orderID : UUID} {o : Order} (h : o.id ≠ orderID) :
      Independent (.cancel orderID) (.new o)

/-- Valid orders of one kind of side are of one side. -/
theorem Order.side_eq_of_isValid {o o' : Order} (ho : o.isValid = true) (ho' : o'.isValid = true)
    (h : o.side.isBid = o'.side.isBid) : o.side = o'.side := by
  have hside := (Order.isValid_iff.mp ho).2.2.1
  have hside' := (Order.isValid_iff.mp ho').2.2.1
  rcases hside with hside | hside <;> rcases hside' with hside' | hside' <;>
    rw [hside, hside'] at h ⊢ <;> cases h

namespace PlainBook

variable {book : PlainBook} {o o' : Order} {request request' : Request}

/-- The lists of a book: better prices first. -/
def Sorted (book : PlainBook) : Prop :=
  ∀ b, (book b).Pairwise fun x y => ¬better b y.price x.price

theorem new_new_comm (h : (o.side, o.price) ≠ (o'.side, o'.price))
    (hquiet : book.tradesAll [.new o, .new o'] = [])
    (hquiet' : book.tradesAll [.new o', .new o] = []) :
    book.handleAll [.new o, .new o'] = book.handleAll [.new o', .new o] := by
  simp only [tradesAll, List.append_nil, List.append_eq_nil_iff] at hquiet hquiet'
  funext b
  simp only [handleAll, List.foldl_cons, List.foldl_nil]
  rw [handle_of_no_trades hquiet.2, handle_of_no_trades hquiet.1, handle_of_no_trades hquiet'.2,
    handle_of_no_trades hquiet'.1]
  split_ifs with ho' ho ho
  · refine rest_comm fun hprice => h (Prod.ext_iff.mpr ⟨?_, hprice.symm ▸ rfl⟩)
    exact Order.side_eq_of_isValid ho.2.1 ho'.2.1 (ho.1.symm.trans ho'.1)
  · rfl
  · rfl
  · rfl

theorem cancel_cancel_comm (orderID orderID' : UUID) :
    book.handleAll [.cancel orderID, .cancel orderID'] =
      book.handleAll [.cancel orderID', .cancel orderID] := by
  funext b
  simp only [handleAll, List.foldl_cons, List.foldl_nil, handle]
  exact List.filter_comm ..

theorem cancel_new_comm (hsorted : book.Sorted) {orderID : UUID} (h : o.id ≠ orderID)
    (hquiet : book.tradesAll [.cancel orderID, .new o] = [])
    (hquiet' : book.tradesAll [.new o, .cancel orderID] = []) :
    book.handleAll [.cancel orderID, .new o] = book.handleAll [.new o, .cancel orderID] := by
  simp only [tradesAll, List.append_nil, List.append_eq_nil_iff] at hquiet hquiet'
  funext b
  simp only [handleAll, List.foldl_cons, List.foldl_nil]
  rw [handle_of_no_trades hquiet.2]
  simp only [handle.eq_2]
  rw [handle_of_no_trades hquiet'.1]
  split_ifs
  · exact (filter_rest_of_pos (decide_eq_true h) (hsorted b)).symm
  · rfl

/-- Independent requests that do not trade lead to the same lists. -/
theorem handleAll_comm (h : Independent request request') (hsorted : book.Sorted)
    (hquiet : book.tradesAll [request, request'] = [])
    (hquiet' : book.tradesAll [request', request] = []) :
    book.handleAll [request, request'] = book.handleAll [request', request] := by
  cases h with
  | new_new h => exact new_new_comm h hquiet hquiet'
  | cancel_cancel => exact cancel_cancel_comm ..
  | cancel_new h => exact cancel_new_comm hsorted h hquiet hquiet'

end PlainBook

variable {T : Type} [OrderedTree T Decimal LevelRef]

theorem OrderBook.Layout.sorted {ob : OrderBook T} (h : ob.Layout) :
    PlainBook.Sorted ob.restingOrders := by
  refine fun b => List.pairwise_map.mpr ((h.elements_sorted b).imp ?_)
  rintro e e' (hbetter | ⟨hprice, -⟩)
  · exact better_asymm hbetter
  · intro hbetter
    have heq : (ob.orderAt e.value).price = (ob.orderAt e'.value).price := hprice
    rw [heq] at hbetter
    exact better_irrefl b _ hbetter

theorem FreshIDs.swap {requests : List Request} {request request' : Request}
    (h : FreshIDs (requests ++ [request, request'])) :
    FreshIDs (requests ++ [request', request]) := by
  have hperm : (requests ++ [request, request']).Perm (requests ++ [request', request]) :=
    (List.Perm.swap ..).append_left requests
  exact ((hperm.filterMap _).map Order.id).nodup_iff.mp h

/-- Two independent commands, of which neither makes a trade first or second,
lead to the same book whichever is processed first: levels, prices, volumes,
queues and ids are the same. -/
theorem independent_commands_commute {me₀ me : MatchingEngine T} {requests : List Request}
    {trades₀ : List Trade} {request request' : Request} (h₀ : me₀.Initial)
    (hrun : MatchingEngine.Run me₀ requests me trades₀)
    (hfresh : FreshIDs (requests ++ [request, request'])) (h : Independent request request') :
    ∃ me₁ trades₁ me₂ trades₂, MatchingEngine.Run me [request, request'] me₁ trades₁
      ∧ MatchingEngine.Run me [request', request] me₂ trades₂
      ∧ (trades₁ = [] → trades₂ = [] →
        (∀ b, me₁.orderBook.contents b = me₂.orderBook.contents b)
        ∧ ∀ id, id ∈ me₁.orderBook.orders ↔ id ∈ me₂.orderBook.orders) := by
  have hs := hrun.sound h₀ hfresh.of_append_left
  obtain ⟨me₁, hrun₁, hs₁, hbook₁⟩ := hs.run_plain hfresh
  obtain ⟨me₂, hrun₂, hs₂, hbook₂⟩ := hs.run_plain hfresh.swap
  refine ⟨me₁, _, me₂, _, hrun₁, hrun₂, fun hquiet hquiet' => ?_⟩
  have hbook : me₁.orderBook.restingOrders = me₂.orderBook.restingOrders := by
    rw [hbook₁, hbook₂]
    exact PlainBook.handleAll_comm h hs.wf.layout.sorted hquiet hquiet'
  refine ⟨fun b => hs₁.wf.contents_congr hs₂.wf (congrFun hbook b), fun id => ?_⟩
  rw [hs₁.wf.mem_orders_iff, hs₂.wf.mem_orders_iff, hbook]

/-- Two sell orders at different prices. -/
theorem independent_commands_commute_sells :
    ∃ me₁ me₂, MatchingEngine.Run emptyEngine [.new sellFive, .new sellHigher] me₁ []
      ∧ MatchingEngine.Run emptyEngine [.new sellHigher, .new sellFive] me₂ []
      ∧ (∀ b, me₁.orderBook.contents b = me₂.orderBook.contents b)
      ∧ ∀ id, id ∈ me₁.orderBook.orders ↔ id ∈ me₂.orderBook.orders := by
  have h : Independent (.new sellFive) (.new sellHigher) := .new_new (by decide)
  obtain ⟨me₁, trades₁, me₂, trades₂, hrun₁, hrun₂, hsame⟩ :=
    independent_commands_commute emptyEngine_initial .nil (by decide) h
  obtain ⟨_, hquiet₁⟩ := MatchingEngine.run_of_trades
    (show (emptyEngine.handleAll 9 [.new sellFive, .new sellHigher]).map Prod.snd = some [] by
      decide +kernel)
  obtain ⟨_, hquiet₂⟩ := MatchingEngine.run_of_trades
    (show (emptyEngine.handleAll 9 [.new sellHigher, .new sellFive]).map Prod.snd = some [] by
      decide +kernel)
  obtain ⟨rfl, rfl⟩ := hrun₁.det hquiet₁
  obtain ⟨rfl, rfl⟩ := hrun₂.det hquiet₂
  exact ⟨me₁, me₂, hrun₁, hrun₂, hsame rfl rfl⟩

end TradingBackend
