import Mathlib.Data.List.TakeWhile
import TradingBackend.Matching

/-!
# `matchOrder`

The outer loops and the command around them. `matchMarketOrder` and
`matchLimitOrder` are one loop (`sweepBody`) with two parameters, the
prices the order accepts and what happens when the opposing side is
empty, and the loop sweeps the `front` of the opposing side.

`matchOrder_spec` is what the rest of the development uses: a `NEW`
command returns, and its effect on the book is the rejection of an
invalid order or a sweep followed by `closed` and `rested`.
-/

namespace TradingBackend

variable {T : Type}

/-- The order trades at the price: any price for a market order. -/
def crosses (o : Order) (levelPrice : Decimal) : Bool :=
  decide (o.type = .market) || MatchingEngine.canMatch o levelPrice

namespace Order

/-- An order when its matching is over: a market order with a remainder
gets its final status. -/
def closed (o : Order) : Order :=
  if o.type = .market ∧ 0 < o.remainingQuantity then
    { o with status := if 0 < o.filledQuantity then .partiallyFilled else .rejected }
  else o

/-- The order goes into the book when its matching is over. -/
def Rests (o : Order) : Prop := o.type = .limit ∧ o.canBeFilled ∧ ¬o.isFilled

instance (o : Order) : Decidable o.Rests := inferInstanceAs (Decidable (_ ∧ _ ∧ _))

theorem closed_of_ne_market {o : Order} (h : o.type ≠ .market) : o.closed = o :=
  if_neg fun hm => h hm.1

/-- Anything the status does not matter for is left alone. -/
theorem closed_of_status {β : Type} (f : Order → β)
    (hf : ∀ o s, f { o with status := s } = f o) (o : Order) : f o.closed = f o := by
  unfold closed
  split_ifs
  · exact hf ..
  · exact hf ..
  · rfl

theorem closed_of_rests {o : Order} (h : o.Rests) : o.closed = o :=
  closed_of_ne_market (by rw [h.1]; nofun)

theorem rests_of_closed {o : Order} (h : o.closed.Rests) : o.Rests := by
  have htype : o.type = .limit :=
    (closed_of_status Order.type (fun _ _ => rfl) o).symm.trans h.1
  rwa [closed_of_ne_market (by rw [htype]; nofun)] at h

end Order

namespace OrderBook

def opposing (ob : OrderBook T) (a : OrderRef) : Bool := !(ob.orderAt a).side.isBid

/-- Order `a` accepts the price of a resting order. -/
def accepted (ob : OrderBook T) (accepts : Order → Decimal → Bool) (a : OrderRef)
    (e : Element) : Bool :=
  accepts (ob.orderAt a) (ob.priceOf e)

variable [OrderedTree T Decimal LevelRef]

/-- The part of the opposing side with accepted prices. -/
def front (ob : OrderBook T) (accepts : Order → Decimal → Bool) (a : OrderRef) : List Element :=
  (ob.elements (ob.opposing a)).takeWhile (ob.accepted accepts a)

/-- The part of the opposing side behind the front. -/
def behind (ob : OrderBook T) (accepts : Order → Decimal → Bool) (a : OrderRef) :
    List Element :=
  (ob.elements (ob.opposing a)).dropWhile (ob.accepted accepts a)

section

variable {ob : OrderBook T} {accepts : Order → Decimal → Bool} {a : OrderRef} {l : LevelRef}

theorem front_append_behind (ob : OrderBook T) (accepts : Order → Decimal → Bool) (a : OrderRef) :
    ob.front accepts a ++ ob.behind accepts a = ob.elements (ob.opposing a) :=
  List.takeWhile_append_dropWhile

theorem mem_front {e : Element} (he : e ∈ ob.front accepts a) :
    e ∈ ob.elements (ob.opposing a) :=
  (List.takeWhile_prefix _).subset he

/-- The front begins with the best level if its price is accepted. -/
theorem front_best (h : ob.Layout) (hbest : ob.getBestPrice (ob.opposing a) = some l)
    (hacc : accepts (ob.orderAt a) (ob.levelAt l).price = true) :
    ∃ rest, ob.elements (ob.opposing a) = (ob.levelAt l).orders ++ rest
      ∧ ob.front accepts a = (ob.levelAt l).orders ++ rest.takeWhile (ob.accepted accepts a)
      ∧ ob.behind accepts a = rest.dropWhile (ob.accepted accepts a) := by
  have hall : ∀ e ∈ (ob.levelAt l).orders, ob.accepted accepts a e = true := by
    intro e he
    rw [accepted, priceOf, h.order_price ⟨getBestPrice_filed hbest, he⟩]
    exact hacc
  refine ⟨_, elements_eq_best hbest, ?_, ?_⟩
  · rw [front, elements_eq_best hbest]
    exact List.takeWhile_append_of_pos hall
  · rw [behind, elements_eq_best hbest]
    exact List.dropWhile_append_of_pos hall

/-- The front is empty if the price of the best level is not accepted. -/
theorem front_eq_nil (h : ob.Layout) (hbest : ob.getBestPrice (ob.opposing a) = some l)
    (hacc : ¬accepts (ob.orderAt a) (ob.levelAt l).price = true) : ob.front accepts a = [] := by
  cases hel : ob.elements (ob.opposing a) with
  | nil => rw [front, hel, List.takeWhile_nil]
  | cons e rest =>
      rw [front, hel]
      refine List.takeWhile_cons_of_neg ?_
      rwa [accepted, ← (h.best_price hbest hel).2]

end

end OrderBook

namespace MatchingEngine

/-- The status a market order gets when the opposing side is empty. -/
def unmatched (order : OrderRef) (me : MatchingEngine T) : MatchingEngine T :=
  let o := me.orderBook.orderAt order
  let status := if 0 < o.filledQuantity then .partiallyFilled else .rejected
  { me with orderBook := me.orderBook.setOrder order { o with status := status } }

/-- The engine when the loop of `matchMarketOrder` is left. -/
def close (me : MatchingEngine T) (a : OrderRef) : MatchingEngine T :=
  { me with orderBook := me.orderBook.setOrder a (me.orderBook.orderAt a).closed }

theorem close_eq (me : MatchingEngine T) (a : OrderRef) :
    me.close a = if (me.orderBook.orderAt a).type = .market
        ∧ 0 < (me.orderBook.orderAt a).remainingQuantity
      then unmatched a me else me := by
  by_cases h : (me.orderBook.orderAt a).type = .market
      ∧ 0 < (me.orderBook.orderAt a).remainingQuantity
  · rw [if_pos h, close, Order.closed, if_pos h]
    rfl
  · rw [if_neg h, close, Order.closed, if_neg h, OrderBook.setOrder, Function.update_eq_self]

theorem close_cases (me : MatchingEngine T) (a : OrderRef) :
    me.close a = me ∨ me.close a = unmatched a me := by
  rw [close_eq]
  split_ifs
  · exact Or.inr rfl
  · exact Or.inl rfl

/-- Anything the status does not matter for is left alone. -/
theorem close_of_status {β : Type} (f : Order → β) (hf : ∀ o s, f { o with status := s } = f o)
    (me : MatchingEngine T) (a r : OrderRef) :
    f ((me.close a).orderBook.orderAt r) = f (me.orderBook.orderAt r) := by
  by_cases hr : r = a
  · subst hr
    simp only [close, OrderBook.setOrder, Function.update_self]
    exact Order.closed_of_status f hf _
  · simp only [close, OrderBook.setOrder, Function.update_of_ne hr]

def reject (me : MatchingEngine T) (a : OrderRef) : MatchingEngine T :=
  let o := me.orderBook.orderAt a
  { me with orderBook := me.orderBook.setOrder a { o with status := .rejected } }

theorem announce_eq (me : MatchingEngine T) (a : OrderRef) (trades : List Trade) :
    ∃ effects, me.announce a trades = { me with effects := effects } := by
  refine ⟨(me.announce a trades).effects, ?_⟩
  simp only [announce]
  split_ifs <;> rfl

variable [OrderedTree T Decimal LevelRef]

/-! ## One loop for both order types -/

def sweepBody (accepts : Order → Decimal → Bool)
    (onEmpty : MatchingEngine T → MatchingEngine T) (order : OrderRef) (fuel : Nat)
    (s : MatchingEngine T × List Trade) :
    Option ((MatchingEngine T × List Trade) ⊕ (MatchingEngine T × List Trade)) :=
  if 0 < (s.1.orderBook.orderAt order).remainingQuantity then
    match s.1.bestOpposing order with
    | none => some (.inl (onEmpty s.1, s.2))
    | some bestLevel =>
        if accepts (s.1.orderBook.orderAt order) (s.1.orderBook.levelAt bestLevel).price then
          matchLevel fuel order bestLevel s
        else some (.inl s)
  else some (.inl s)

theorem limitBody_eq (order : OrderRef) :
    limitBody (T := T) order = sweepBody canMatch id order := rfl

theorem bestOpposing_eq (me : MatchingEngine T) (a : OrderRef) :
    me.bestOpposing a = me.orderBook.getBestPrice (me.orderBook.opposing a) := by
  unfold bestOpposing OrderBook.opposing OrderSide.isBid
  split_ifs with h
  · rw [h]
    rfl
  · rw [decide_eq_false h]
    rfl

theorem matchAgainstPriceLevel_mono {n m : Nat} {me : MatchingEngine T} {a : OrderRef}
    {l : LevelRef} {r : MatchingEngine T × List Trade} (hnm : n ≤ m)
    (h : me.matchAgainstPriceLevel n a l = some r) : me.matchAgainstPriceLevel m a l = some r :=
  Loop.iterate_mono (scanBody_mono a l) hnm h

theorem sweepBody_mono (accepts : Order → Decimal → Bool)
    (onEmpty : MatchingEngine T → MatchingEngine T) (order : OrderRef) :
    Loop.Mono (sweepBody accepts onEmpty order) := by
  intro n m s o hnm h
  unfold sweepBody at h ⊢
  split_ifs at h ⊢ with hpos
  · cases hbest : s.1.bestOpposing order with
    | none => simpa only [hbest] using h
    | some l =>
        simp only [hbest] at h ⊢
        split_ifs at h ⊢ with hacc
        · unfold matchLevel at h ⊢
          cases hm : s.1.matchAgainstPriceLevel n order l with
          | none => simp only [hm] at h; cases h
          | some r =>
              rw [matchAgainstPriceLevel_mono hnm hm]
              simpa only [hm] using h
        · exact h
  · exact h

section

variable {me me' : MatchingEngine T} {a : OrderRef} {accepts : Order → Decimal → Bool}
  {onEmpty : MatchingEngine T → MatchingEngine T} {b : Bool} {swept rest : List Element}
  {trades : List Trade}

theorem Swept.accepted (hacc : ∀ o q, accepts (o.fill q) = accepts o)
    (h : Swept me me' a b swept rest trades) :
    me'.orderBook.accepted accepts a = me.orderBook.accepted accepts a := by
  funext e
  simp only [OrderBook.accepted, OrderBook.priceOf]
  rw [h.of_fill accepts hacc, h.of_fill Order.price fun _ _ => rfl]

theorem Swept.opposing (h : Swept me me' a b swept rest trades) :
    me'.orderBook.opposing a = me.orderBook.opposing a := by
  simp only [OrderBook.opposing]
  rw [h.of_fill Order.side fun _ _ => rfl]

/-- One iteration with an accepted best level: it sweeps the level, and
leaves the loop exactly if the order is filled. -/
theorem matchLevel_swept (h : me.orderBook.Ready a) {l : LevelRef}
    (hbest : me.orderBook.getBestPrice b = some l)
    (hel : me.orderBook.elements b = (me.orderBook.levelAt l).orders ++ rest) (ts : List Trade) :
    ∃ fuel me' trades,
      matchLevel fuel a l (me, ts) =
        some (if (me'.orderBook.orderAt a).isFilled then .inl (me', ts ++ trades)
          else .inr (me', ts ++ trades))
      ∧ Swept me me' a b (me.orderBook.levelAt l).orders rest trades := by
  obtain ⟨fuel, me', trades, hrun, hswept⟩ := matchAgainstPriceLevel_swept h hel
    fun x hx => ⟨OrderBook.getBestPrice_filed hbest, hx⟩
  refine ⟨fuel, me', trades, ?_, hswept⟩
  simp only [matchLevel, hrun]
  split_ifs <;> rfl

/-- What the loop achieves from its head `s`: the aggressor sweeps the front of
the opposing side. A loop that runs out of levels also does `onEmpty`, which
gives a market order its final status. -/
def LoopPost (accepts : Order → Decimal → Bool) (onEmpty : MatchingEngine T → MatchingEngine T)
    (a : OrderRef) (s r : MatchingEngine T × List Trade) : Prop :=
  ∃ me' trades,
    r = (if 0 < (me'.orderBook.orderAt a).remainingQuantity
          ∧ me'.orderBook.elements (s.1.orderBook.opposing a) = []
        then onEmpty me' else me', s.2 ++ trades)
    ∧ Swept s.1 me' a (s.1.orderBook.opposing a) (s.1.orderBook.front accepts a)
        (s.1.orderBook.behind accepts a) trades

/-- The loop leaves the engine as it is when there is nothing to do. -/
theorem LoopPost.idle {s : MatchingEngine T × List Trade} (h : s.1.orderBook.Ready a)
    (hidle : 0 < (s.1.orderBook.orderAt a).remainingQuantity → s.1.orderBook.front accepts a = [])
    (hnil : ¬(0 < (s.1.orderBook.orderAt a).remainingQuantity
      ∧ s.1.orderBook.elements (s.1.orderBook.opposing a) = [])) :
    LoopPost accepts onEmpty a s s := by
  refine ⟨s.1, [], ?_, Swept.done h (OrderBook.front_append_behind ..).symm hidle⟩
  rw [if_neg hnil, List.append_nil]

/-- The iteration that sweeps the best level and fills the order. -/
theorem LoopPost.filled {s : MatchingEngine T × List Trade} {queue : List Element}
    (hval : ∀ e ∈ queue, e.value ≠ a)
    (hfront : s.1.orderBook.front accepts a = queue ++ rest.takeWhile
      (s.1.orderBook.accepted accepts a))
    (hbehind : s.1.orderBook.behind accepts a = rest.dropWhile (s.1.orderBook.accepted accepts a))
    (h : Swept s.1 me' a (s.1.orderBook.opposing a) queue rest trades)
    (hf : (me'.orderBook.orderAt a).isFilled = true) :
    LoopPost accepts onEmpty a s (me', s.2 ++ trades) := by
  have hzero : ¬0 < (me'.orderBook.orderAt a).remainingQuantity := by
    rw [Order.isFilled_iff_remaining.mp hf]
    exact lt_irrefl 0
  refine ⟨me', trades, by rw [if_neg fun hnil => hzero hnil.1], ?_⟩
  rw [hfront, hbehind]
  exact Swept.extend hval (by rwa [List.takeWhile_append_dropWhile]) hzero

/-- The iteration that sweeps the best level and goes on. -/
theorem LoopPost.next {s : MatchingEngine T × List Trade} {queue : List Element}
    (hacc : ∀ o q, accepts (o.fill q) = accepts o) (hval : ∀ e ∈ queue, e.value ≠ a)
    (hfront : s.1.orderBook.front accepts a = queue ++ rest.takeWhile
      (s.1.orderBook.accepted accepts a))
    (hbehind : s.1.orderBook.behind accepts a = rest.dropWhile (s.1.orderBook.accepted accepts a))
    (h : Swept s.1 me' a (s.1.orderBook.opposing a) queue rest trades)
    (hleft : (walk a s.1.orderBook.orderAt queue).left = []) {r : MatchingEngine T × List Trade}
    (hr : LoopPost accepts onEmpty a (me', s.2 ++ trades) r) :
    LoopPost accepts onEmpty a s r := by
  have hrest : me'.orderBook.elements (s.1.orderBook.opposing a) = rest := by
    rw [h.elements, hleft, List.nil_append]
  obtain ⟨me'', trades', rfl, h'⟩ := hr
  refine ⟨me'', trades ++ trades', by rw [h.opposing, List.append_assoc], ?_⟩
  simp only [OrderBook.front, OrderBook.behind, h.opposing, h.accepted hacc, hrest] at h'
  rw [hfront, hbehind]
  exact Swept.append hval (by rwa [List.takeWhile_append_dropWhile]) hleft h'

theorem sweepBody_progress (hacc : ∀ o q, accepts (o.fill q) = accepts o)
    (s : MatchingEngine T × List Trade) (h : s.1.orderBook.Ready a) :
    ∃ fuel o, sweepBody accepts onEmpty a fuel s = some o
      ∧ Loop.Progress (fun s => s.1.orderBook.Ready a)
          (fun s => (s.1.orderBook.elements (s.1.orderBook.opposing a)).length)
          (LoopPost accepts onEmpty a) s o := by
  have hlayout := h.wf.layout
  by_cases hpos : 0 < (s.1.orderBook.orderAt a).remainingQuantity
  · cases hbest : s.1.orderBook.getBestPrice (s.1.orderBook.opposing a) with
    | none =>
        have hnil := hlayout.getBestPrice_none.mp hbest
        refine ⟨0, .inl (onEmpty s.1, s.2), ?_, s.1, [], ?_, ?_⟩
        · simp only [sweepBody, hpos, if_true, bestOpposing_eq, hbest]
        · rw [if_pos ⟨hpos, hnil⟩, List.append_nil]
        · refine Swept.done h (OrderBook.front_append_behind ..).symm fun _ => ?_
          rw [OrderBook.front, hnil, List.takeWhile_nil]
    | some l =>
        have hfiled := OrderBook.getBestPrice_filed hbest
        by_cases haccl : accepts (s.1.orderBook.orderAt a) (s.1.orderBook.levelAt l).price = true
        · obtain ⟨rest, hel, hfront, hbehind⟩ := OrderBook.front_best hlayout hbest haccl
          obtain ⟨fuel, me', trades, hrun, hswept⟩ := matchLevel_swept h hbest hel s.2
          have hval : ∀ e ∈ (s.1.orderBook.levelAt l).orders, e.value ≠ a :=
            fun e he => h.ne ⟨hfiled, he⟩
          have hbody : sweepBody accepts onEmpty a fuel s = matchLevel fuel a l s := by
            simp only [sweepBody, hpos, if_true, bestOpposing_eq, hbest, if_pos haccl]
          refine ⟨fuel, _, hbody.trans hrun, ?_⟩
          split_ifs with hf
          · exact LoopPost.filled hval hfront hbehind hswept hf
          · have hleft := walk_left_eq_nil hval hpos (hswept.orderAt ▸ hf)
            refine ⟨hswept.ready, ?_, fun r => LoopPost.next hacc hval hfront hbehind hswept hleft⟩
            dsimp only
            rw [hswept.opposing, hswept.elements, hleft, List.nil_append, hel, List.length_append]
            exact Nat.lt_add_of_pos_left (List.length_pos_iff.mpr (hlayout.nonempty hfiled))
        · refine ⟨0, .inl s, ?_, LoopPost.idle h
            (fun _ => OrderBook.front_eq_nil hlayout hbest haccl) fun hnil => ?_⟩
          · simp only [sweepBody, hpos, if_true, bestOpposing_eq, hbest, if_neg haccl]
          · rw [hlayout.getBestPrice_none.mpr hnil.2] at hbest
            cases hbest
  · refine ⟨0, .inl s, ?_, LoopPost.idle h (fun hpos' => absurd hpos' hpos) fun hnil => ?_⟩
    · simp only [sweepBody, hpos, if_false]
    · exact hpos hnil.1

/-- The loop sweeps the accepted front of the opposing side. -/
theorem sweep_swept (accepts : Order → Decimal → Bool)
    (onEmpty : MatchingEngine T → MatchingEngine T)
    (hacc : ∀ o q, accepts (o.fill q) = accepts o) (h : me.orderBook.Ready a) :
    ∃ fuel r, Loop.iterate (sweepBody accepts onEmpty a) fuel (me, []) = some r
      ∧ LoopPost accepts onEmpty a (me, []) r :=
  Loop.iterate_total (sweepBody_mono accepts onEmpty a) _ _ _ (sweepBody_progress hacc) (me, []) h

/-! ## Market and limit orders -/

/-- Both loops sweep the part of the opposing side that crosses. -/
theorem matched_swept (h : me.orderBook.Ready a) :
    ∃ fuel me' trades,
      (if (me.orderBook.orderAt a).type = .market then me.matchMarketOrder fuel a
        else me.matchLimitOrder fuel a) = some (me'.close a, trades)
      ∧ Swept me me' a (me.orderBook.opposing a) (me.orderBook.front crosses a)
          (me.orderBook.behind crosses a) trades := by
  by_cases hmarket : (me.orderBook.orderAt a).type = .market
  · obtain ⟨fuel, r, hrun, me', trades, rfl, hswept⟩ := sweep_swept (fun _ _ => true)
      (unmatched a) (fun _ _ => rfl) h
    have hcross : me.orderBook.accepted crosses a = me.orderBook.accepted (fun _ _ => true) a := by
      funext e
      simp only [OrderBook.accepted, crosses, hmarket, decide_true, Bool.true_or]
    have hfront : me.orderBook.front crosses a = me.orderBook.front (fun _ _ => true) a := by
      rw [OrderBook.front, hcross, OrderBook.front]
    have hbehind : me.orderBook.behind crosses a = me.orderBook.behind (fun _ _ => true) a := by
      rw [OrderBook.behind, hcross, OrderBook.behind]
    rw [← hfront, ← hbehind] at hswept
    refine ⟨fuel, me', trades, ?_, hswept⟩
    have htype := (hswept.of_fill Order.type (fun _ _ => rfl) a).trans hmarket
    have hnil : 0 < (me'.orderBook.orderAt a).remainingQuantity →
        me'.orderBook.elements (me.orderBook.opposing a) = [] := by
      intro hpos
      have hleft : (walk a me.orderBook.orderAt (me.orderBook.front crosses a)).left = [] := by
        by_contra hne
        exact walk_left (fun e he => h.ne_elements (OrderBook.mem_front he)) hne
          (hswept.orderAt ▸ hpos)
      rw [hswept.elements, hleft, hbehind, OrderBook.behind, List.nil_append,
        List.dropWhile_eq_nil_iff]
      exact fun _ _ => rfl
    rw [if_pos hmarket, close_eq, htype]
    refine hrun.trans ?_
    simp only [true_and, and_iff_left_of_imp hnil, List.nil_append]
  · obtain ⟨fuel, r, hrun, me', trades, rfl, hswept⟩ := sweep_swept canMatch id
      (fun _ _ => rfl) h
    have hcross : me.orderBook.accepted crosses a = me.orderBook.accepted canMatch a := by
      funext e
      simp only [OrderBook.accepted, crosses, hmarket, decide_false, Bool.false_or]
    refine ⟨fuel, me', trades, ?_, ?_⟩
    · have htype := hswept.of_fill Order.type (fun _ _ => rfl) a
      rw [if_neg hmarket, close_eq, htype, if_neg fun hm => hmarket hm.1]
      refine hrun.trans ?_
      rw [id, ite_self, List.nil_append]
    · unfold OrderBook.front OrderBook.behind
      rw [hcross]
      exact hswept

theorem sameShape_close (me : MatchingEngine T) (a : OrderRef) :
    OrderBook.SameShape me.orderBook (me.close a).orderBook :=
  OrderBook.sameShape_setOrder (Order.closed_of_status Order.id (fun _ _ => rfl) _)
    (Order.closed_of_status Order.side (fun _ _ => rfl) _)
    (Order.closed_of_status Order.price (fun _ _ => rfl) _)

theorem close_wf (h : me.orderBook.Ready a) : (me.close a).orderBook.WF :=
  h.wf.setOrder h.ne (Order.closed_of_status Order.id (fun _ _ => rfl) _)
    (Order.closed_of_status Order.side (fun _ _ => rfl) _)
    (Order.closed_of_status Order.price (fun _ _ => rfl) _)

/-! ## The whole command -/

theorem restOrder_eq (me : MatchingEngine T) (a : OrderRef) :
    ∃ effects, me.restOrder a = { me with
      orderBook := if (me.orderBook.orderAt a).Rests then me.orderBook.addOrder a
        else me.orderBook
      effects := effects } := by
  unfold restOrder
  by_cases h : (me.orderBook.orderAt a).Rests
  · rw [if_pos h]
    refine ⟨(me.restOrder a).effects, ?_⟩
    have h' : (me.orderBook.orderAt a).type = .limit ∧ (me.orderBook.orderAt a).canBeFilled
      ∧ ¬(me.orderBook.orderAt a).isFilled := h
    simp only [restOrder, if_pos h']
    split_ifs <;> rfl
  · rw [if_neg h]
    exact ⟨me.effects, if_neg h⟩

/-- What a `NEW` command does with a valid order: `a` walks along the
part of the opposing side that crosses, and what is left of it may go
into the book, behind everything its price does not beat. -/
structure Entered (me me' : MatchingEngine T) (a : OrderRef) (trades : List Trade) : Prop where
  frame : Frame me me'
  wf : me'.orderBook.WF
  trades_eq : trades =
    (walk a me.orderBook.orderAt (me.orderBook.front crosses a)).trades
  orderAt : me'.orderBook.orderAt =
    let m := (walk a me.orderBook.orderAt (me.orderBook.front crosses a)).orderAt
    Function.update m a (m a).closed
  opposing : me'.orderBook.elements (me.orderBook.opposing a) =
    (walk a me.orderBook.orderAt (me.orderBook.front crosses a)).left
      ++ me.orderBook.behind crosses a
  own : me'.orderBook.elements (me.orderBook.orderAt a).side.isBid =
    if (me'.orderBook.orderAt a).Rests then
      (me.orderBook.elements (me.orderBook.orderAt a).side.isBid).orderedInsert
        (fun x y => better (me.orderBook.orderAt a).side.isBid (me.orderBook.priceOf x)
          (me.orderBook.priceOf y)) (me.orderBook.added a)
    else me.orderBook.elements (me.orderBook.orderAt a).side.isBid
  nextElement : me'.orderBook.nextElement =
    me.orderBook.nextElement + if (me'.orderBook.orderAt a).Rests then 1 else 0

theorem entered_of_swept
    (h : Swept me me' a (me.orderBook.opposing a) (me.orderBook.front crosses a)
      (me.orderBook.behind crosses a) trades) :
    Entered me (((me'.close a).restOrder a).announce a trades) a trades := by
  obtain ⟨effects, hrest⟩ := (me'.close a).restOrder_eq a
  obtain ⟨effects', hann⟩ := ((me'.close a).restOrder a).announce_eq a trades
  rw [hann, hrest]
  have hid := close_of_status Order.id (fun _ _ => rfl) me' a a
  have hsame := me'.sameShape_close a
  have hwf := close_wf h.ready
  have hopp : (me'.close a).orderBook.elements (me.orderBook.opposing a) =
      (walk a me.orderBook.orderAt (me.orderBook.front crosses a)).left
        ++ me.orderBook.behind crosses a :=
    (hsame.elements _).trans h.elements
  have hown : (me'.close a).orderBook.elements (me.orderBook.orderAt a).side.isBid =
      me.orderBook.elements (me.orderBook.orderAt a).side.isBid := by
    rw [hsame.elements]
    simpa only [OrderBook.opposing, Bool.not_not] using h.elements_other
  have horderAt : (me'.close a).orderBook.orderAt =
      Function.update (walk a me.orderBook.orderAt (me.orderBook.front crosses a)).orderAt a
        ((walk a me.orderBook.orderAt (me.orderBook.front crosses a)).orderAt a).closed := by
    rw [← h.orderAt]
    rfl
  obtain ⟨hf1, hf2, hf3, hf4, hf5, hf6⟩ := h.frame
  by_cases hr : ((me'.close a).orderBook.orderAt a).Rests
  · have hside : ((me'.close a).orderBook.orderAt a).side = (me.orderBook.orderAt a).side :=
      (close_of_status Order.side (fun _ _ => rfl) me' a a).trans
        (h.of_fill Order.side (fun _ _ => rfl) a)
    have hprice : (me'.close a).orderBook.priceOf = me.orderBook.priceOf := by
      funext e
      exact (close_of_status Order.price (fun _ _ => rfl) me' a e.value).trans
        (h.of_fill Order.price (fun _ _ => rfl) e.value)
    have hadded : (me'.close a).orderBook.added a = me.orderBook.added a := by
      rw [OrderBook.added, OrderBook.added, ← h.nextElement]
      rfl
    obtain ⟨l, level, hadd⟩ := OrderBook.addOrder_added hwf.layout a
    have hr' : (((me'.close a).orderBook.addOrder a).orderAt a).Rests := by
      rwa [hadd.orderAt]
    simp only [if_pos hr]
    refine ⟨⟨hf1, hf2, hf3, hf4, ?_, ?_⟩, ?_, h.trades_eq, hadd.orderAt.trans horderAt, ?_, ?_, ?_⟩
    · exact (OrderBook.addOrder_instrument ..).trans hf5
    · exact hadd.nextOrder.trans hf6
    · refine hwf.addOrder h.ready.allocated ?_
      rw [hid]
      exact h.ready.absent
    · refine (hadd.elements_other hwf.layout h.ready.allocated ?_).trans hopp
      rw [hside]
      exact Bool.not_ne_self _
    · rw [if_pos hr', ← hown]
      have hself := hadd.elements_self hwf.layout h.ready.allocated
      rw [hside, hprice, hadded] at hself
      exact hself
    · rw [if_pos hr', hadd.nextElement, ← h.nextElement]
      rfl
  · simp only [if_neg hr]
    exact ⟨⟨hf1, hf2, hf3, hf4, hf5, hf6⟩, hwf, h.trades_eq, horderAt, hopp,
      hown.trans (if_neg hr).symm, h.nextElement.trans (by rw [if_neg hr]; rfl)⟩

/-- `matchOrder` returns: it rejects an invalid order, and enters a valid
one. -/
theorem matchOrder_spec (h : me.orderBook.Ready a) :
    ∃ fuel me' trades, me.matchOrder fuel a = some (me', trades)
      ∧ if (me.orderBook.orderAt a).isValid then Entered me me' a trades
        else trades = [] ∧ me' = me.reject a := by
  by_cases hvalid : (me.orderBook.orderAt a).isValid = true
  · obtain ⟨fuel, me', trades, hrun, hswept⟩ := matched_swept h
    refine ⟨fuel, ((me'.close a).restOrder a).announce a trades, trades, ?_, ?_⟩
    · simp only [matchOrder, if_pos hvalid, hrun]
    · rw [if_pos hvalid]
      exact entered_of_swept hswept
  · refine ⟨0, me.reject a, [], ?_, ?_⟩
    · simp only [matchOrder, if_neg hvalid]
      rfl
    · rw [if_neg hvalid]
      exact ⟨rfl, rfl⟩

end

end MatchingEngine

end TradingBackend
