import TradingBackend.LifeCycle

/-!
# The book is never crossed

A price that an order accepts is accepted by it at every better price,
so the front of a sorted side is all of the side that crosses
(`Layout.front_eq`), and nothing behind the front does. An order that
goes into the book has no front left, hence the best bid stays below the
best ask.
-/

namespace TradingBackend

/-- In a sorted list a property of the better elements ends where it
first fails. -/
theorem while_eq_filter {α : Type} {r : α → α → Prop} {p : α → Bool}
    (hp : ∀ x y, r x y → p y = true → p x = true) {l : List α} (hl : l.Pairwise r) :
    l.takeWhile p = l.filter p ∧ l.dropWhile p = l.filter fun x => !p x := by
  induction l with
  | nil => exact ⟨rfl, rfl⟩
  | cons x l ih =>
      obtain ⟨hx, hl⟩ := List.pairwise_cons.mp hl
      by_cases hpx : p x = true
      · rw [List.takeWhile_cons_of_pos hpx, List.dropWhile_cons_of_pos hpx,
          List.filter_cons_of_pos hpx, List.filter_cons_of_neg (by simpa using hpx)]
        exact ⟨congrArg _ (ih hl).1, (ih hl).2⟩
      · have hall : ∀ y ∈ l, ¬p y = true := fun y hy hpy => hpx (hp x y (hx y hy) hpy)
        rw [List.takeWhile_cons_of_neg hpx, List.dropWhile_cons_of_neg hpx,
          List.filter_cons_of_neg hpx, List.filter_cons_of_pos (by simpa using hpx),
          List.filter_eq_nil_iff.mpr hall, List.filter_eq_self.mpr fun y hy => by
            simpa using hall y hy]
        exact ⟨rfl, rfl⟩

section

variable {T : Type} {ob : OrderBook T} {a : OrderRef} {e e' : Element}

/-- An order that trades at a price trades at the prices before it. -/
theorem OrderBook.Before.accepted (h : ob.Before (ob.opposing a) e e')
    (hacc : ob.accepted crosses a e' = true) : ob.accepted crosses a e = true := by
  simp only [OrderBook.accepted, crosses, Bool.or_eq_true, decide_eq_true_eq,
    MatchingEngine.canMatch] at hacc ⊢
  refine hacc.imp_right fun hmatch => ?_
  rcases h with hbetter | ⟨hprice, -⟩
  · by_cases hside : (ob.orderAt a).side = .buy
    · simp only [opposing, OrderSide.isBid, hside, decide_true, better, Bool.not_true,
        Bool.false_eq_true, if_false, if_true, decide_eq_true_eq] at hbetter hmatch ⊢
      exact hbetter.le.trans hmatch
    · simp only [opposing, OrderSide.isBid, hside, decide_false, better, Bool.not_false,
        if_false, if_true, decide_eq_true_eq] at hbetter hmatch ⊢
      exact hmatch.trans hbetter.le
  · rwa [hprice]

end

variable {T : Type} [OrderedTree T Decimal LevelRef]

namespace OrderBook

variable {ob : OrderBook T} {a : OrderRef}

theorem Layout.front_eq (h : ob.Layout) :
    ob.front crosses a = (ob.elements (ob.opposing a)).filter (ob.accepted crosses a) :=
  (while_eq_filter (fun _ _ hlt hacc => hlt.accepted hacc) (h.elements_sorted _)).1

theorem Layout.behind_eq (h : ob.Layout) :
    ob.behind crosses a = (ob.elements (ob.opposing a)).filter fun e => !ob.accepted crosses a e :=
  (while_eq_filter (fun _ _ hlt hacc => hlt.accepted hacc) (h.elements_sorted _)).2

/-- Every bid is below every ask. -/
def Uncrossed (ob : OrderBook T) : Prop :=
  ∀ bid ∈ ob.elements true, ∀ ask ∈ ob.elements false, ob.priceOf bid < ob.priceOf ask

theorem Uncrossed.best (h : ob.Uncrossed) (hl : ob.Layout) :
    ob.elements true = [] ∨ ob.elements false = [] ∨
      ∃ bid ask, ob.getBestBid = some bid ∧ ob.getBestAsk = some ask
        ∧ (ob.levelAt bid).price < (ob.levelAt ask).price ∧ 0 < ob.getSpread := by
  cases hbid : ob.elements true with
  | nil => exact Or.inl rfl
  | cons x bids =>
      cases hask : ob.elements false with
      | nil => exact Or.inr (Or.inl rfl)
      | cons y asks =>
          have hbest : ∀ b e rest, ob.elements b = e :: rest →
              ∃ l, ob.getBestPrice b = some l ∧ (ob.levelAt l).price = ob.priceOf e := by
            intro b e rest he
            cases hb : ob.getBestPrice b with
            | none => rw [hl.getBestPrice_none.mp hb] at he; cases he
            | some l => exact ⟨l, rfl, (hl.best_price hb he).2⟩
          obtain ⟨bid, hbid', hpx⟩ := hbest true x bids hbid
          obtain ⟨ask, hask', hpy⟩ := hbest false y asks hask
          have hlt : (ob.levelAt bid).price < (ob.levelAt ask).price := by
            rw [hpx, hpy]
            exact h x (hbid ▸ List.mem_cons_self ..) y (hask ▸ List.mem_cons_self ..)
          refine Or.inr (Or.inr ⟨bid, ask, hbid', hask', hlt, ?_⟩)
          simp only [getSpread, hbid', hask']
          exact sub_pos.mpr hlt

end OrderBook

namespace MatchingEngine

variable {me me' : MatchingEngine T} {a : OrderRef} {trades : List Trade} {request : Request}
  {requests : List Request} {o : Order} {e : Element} {b : Bool}

theorem Entered.left_eq_nil (h : Entered me me' a trades) (hready : me.orderBook.Ready a)
    (hvalid : (me.orderBook.orderAt a).isValid = true)
    (hrests : (me'.orderBook.orderAt a).Rests) :
    (walk a me.orderBook.orderAt (me.orderBook.front crosses a)).left = [] := by
  have hne : ∀ e ∈ me.orderBook.front crosses a, e.value ≠ a := fun e he =>
    hready.ne_elements (OrderBook.mem_front he)
  have hnonneg : 0 ≤ (me.orderBook.orderAt a).remainingQuantity :=
    sub_nonneg.mpr (Order.isValid_iff.mp hvalid).2.2.2.2.2.2
  have horder : me'.orderBook.orderAt a = Order.closed _ :=
    (congrFun h.orderAt a).trans (Function.update_self ..)
  by_contra hleft
  have hdone := walk_left hne hleft
  refine hrests.2.2 ?_
  rw [Order.isFilled_iff_remaining, horder,
    Order.closed_of_status Order.remainingQuantity (fun _ _ => rfl)]
  exact le_antisymm (not_lt.mp hdone) (walk_nonneg hne hnonneg)

/-- What goes into the book does not cross what is left on the other
side. -/
theorem Entered.not_accepted (h : Entered me me' a trades) (hready : me.orderBook.Ready a)
    (hvalid : (me.orderBook.orderAt a).isValid = true)
    (hrests : (me'.orderBook.orderAt a).Rests)
    (he : e ∈ me'.orderBook.elements (me.orderBook.opposing a)) :
    ¬me.orderBook.accepted crosses a e = true := by
  rw [h.opposing, h.left_eq_nil hready hvalid hrests, List.nil_append,
    hready.wf.layout.behind_eq, List.mem_filter] at he
  simpa using he.2

theorem Entered.uncrossed (h : Entered me me' a trades) (hready : me.orderBook.Ready a)
    (hvalid : (me.orderBook.orderAt a).isValid = true) (hu : me.orderBook.Uncrossed) :
    me'.orderBook.Uncrossed := by
  have hprice : ∀ e, me'.orderBook.priceOf e = me.orderBook.priceOf e := fun e =>
    h.of_terms Order.price (fun _ => rfl) e.value
  intro bid hbid ask hask
  rw [hprice, hprice]
  rcases (h.mem_elements hready.wf).mp hbid with ⟨hbid', -⟩ | ⟨rfl, hown, hrests⟩
  · rcases (h.mem_elements hready.wf).mp hask with ⟨hask', -⟩ | ⟨rfl, hown, hrests⟩
    · exact hu bid hbid' ask hask'
    · -- a new ask against an old bid
      have hopp : me.orderBook.opposing a = true := by rw [OrderBook.opposing, ← hown]; rfl
      have hnot := h.not_accepted hready hvalid hrests (e := bid) (hopp ▸ hbid)
      have hside : (me.orderBook.orderAt a).side ≠ .buy := of_decide_eq_false hown.symm
      have htype : (me.orderBook.orderAt a).type ≠ .market := by
        rw [← h.of_terms Order.type (fun _ => rfl), hrests.1]
        decide
      simp only [OrderBook.accepted, crosses, htype, decide_false, Bool.false_or, canMatch,
        if_neg hside, decide_eq_true_eq, not_le] at hnot
      exact hnot
  · have hopp : me.orderBook.opposing a = false := by rw [OrderBook.opposing, ← hown]; rfl
    have hnot := h.not_accepted hready hvalid hrests (e := ask) (hopp ▸ hask)
    have hside : (me.orderBook.orderAt a).side = .buy := of_decide_eq_true hown.symm
    have htype : (me.orderBook.orderAt a).type ≠ .market := by
      rw [← h.of_terms Order.type (fun _ => rfl), hrests.1]
      decide
    simp only [OrderBook.accepted, crosses, htype, decide_false, Bool.false_or, canMatch,
      if_pos hside, decide_eq_true_eq, not_le] at hnot
    exact hnot

theorem Handled.uncrossed (hh : Handled me me' request trades) (hs : me.Sound requests)
    (hfresh : FreshIDs (requests ++ [request])) (hu : me.orderBook.Uncrossed) :
    me'.orderBook.Uncrossed := by
  have halloc : ∀ o, (me.alloc o).orderBook.Uncrossed := by
    intro o bid hbid ask hask
    rw [(me.sameShape_alloc o).elements] at hbid hask
    simp only [OrderBook.priceOf, alloc_of_lt (hs.wf.value_lt hbid),
      alloc_of_lt (hs.wf.value_lt hask)]
    exact hu bid hbid ask hask
  rcases hh.entered_or_subset with ⟨o, rfl, hvalid, hent⟩ | hsub
  · exact hent.uncrossed (hs.ready hfresh) ((alloc_self me o).symm ▸ hvalid) (halloc o)
  · intro bid hbid ask hask
    have hprice : ∀ {b e}, e ∈ me.orderBook.elements b →
        me'.orderBook.priceOf e = me.orderBook.priceOf e := fun he =>
      Order.eq_of_terms Order.price (fun _ => rfl) (hh.terms (hs.wf.value_lt he))
    rw [hprice (hsub _ hbid), hprice (hsub _ hask)]
    exact hu bid (hsub _ hbid) ask (hsub _ hask)

theorem Run.uncrossed {me₀ : MatchingEngine T} (h₀ : me₀.Initial)
    (h : Run me₀ requests me trades) (hfresh : FreshIDs requests) : me.orderBook.Uncrossed := by
  refine (h.induct h₀ (fun _ => True) (P := fun _ me _ => me.orderBook.Uncrossed) ?_
    (fun hs hfresh _ hh hu => hh.uncrossed hs hfresh hu) hfresh fun _ _ => trivial).2
  obtain ⟨instrument, hbook⟩ := h₀
  intro bid hbid
  rw [hbook, OrderBook.newOrderBook_elements] at hbid
  cases hbid

end MatchingEngine

/-- The book is neither crossed nor locked after any request. -/
theorem book_uncrossed {me₀ me : MatchingEngine T} {requests : List Request}
    {trades : List Trade} (h₀ : me₀.Initial) (hfresh : FreshIDs requests)
    (hrun : MatchingEngine.Run me₀ requests me trades) :
    me.orderBook.elements true = [] ∨ me.orderBook.elements false = [] ∨
      ∃ bid ask, me.orderBook.getBestBid = some bid ∧ me.orderBook.getBestAsk = some ask
        ∧ (me.orderBook.levelAt bid).price < (me.orderBook.levelAt ask).price
        ∧ 0 < me.orderBook.getSpread := by
  have hs := hrun.sound h₀ hfresh
  exact (hrun.uncrossed h₀ hfresh).best hs.wf.layout

/-- After a trade that leaves the rest of `buyTen` as the best bid: the book has
bids at 101 and 99 and an ask at 102. -/
theorem book_uncrossed_after_trade :
    ∃ (me : MatchingEngine (SortedItems Decimal LevelRef)) (trades : List Trade),
      MatchingEngine.Run emptyEngine (bothSides ++ [.new buyTen]) me trades
      ∧ (me.orderBook.elements true).length = 2 ∧ (me.orderBook.elements false).length = 1
      ∧ ∃ bid ask, me.orderBook.getBestBid = some bid ∧ me.orderBook.getBestAsk = some ask
        ∧ (me.orderBook.levelAt bid).price < (me.orderBook.levelAt ask).price
        ∧ 0 < me.orderBook.getSpread := by
  obtain ⟨trades, hrun⟩ := MatchingEngine.after_run
    (show (emptyEngine.handleAll 9 (bothSides ++ [.new buyTen])).isSome = true by decide +kernel)
  refine ⟨_, trades, hrun, by decide +kernel, by decide +kernel, ?_⟩
  exact (book_uncrossed emptyEngine_initial (by decide) hrun).resolve_left (by decide +kernel)
    |>.resolve_left (by decide +kernel)

end TradingBackend
