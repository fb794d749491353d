import TradingBackend.BookContents
import TradingBackend.Commands

/-!
# Draining a side

`PopBestLevel` called again and again until it returns nil. A pop takes the
best level off the side and its ids off the map and writes no level and no
order (`Popped`), so the levels come out in the order of `levels`, each with
the queue it had in the book, and what stays is the other side.
-/

namespace TradingBackend

variable {T : Type} [OrderedTree T Decimal LevelRef]

namespace OrderBook

/-- One call of `PopBestLevel` by a caller who collects the levels. -/
def drainBody (isBid : Bool) (_ : Nat) (s : OrderBook T × List LevelRef) :
    Option ((OrderBook T × List LevelRef) ⊕ (OrderBook T × List LevelRef)) :=
  match s.1.popBestLevel isBid with
  | (ob, none) => some (.inl (ob, s.2))
  | (ob, some l) => some (.inr (ob, s.2 ++ [l]))

/-- `PopBestLevel` until it returns nil: the book and the levels returned. -/
def drain (fuel : Nat) (ob : OrderBook T) (isBid : Bool) :
    Option (OrderBook T × List LevelRef) :=
  Loop.iterate (drainBody isBid) fuel (ob, [])

structure Drained (isBid : Bool) (ob ob' : OrderBook T) : Prop where
  wf : ob'.WF
  orderAt : ob'.orderAt = ob.orderAt
  levelAt : ob'.levelAt = ob.levelAt
  self : ob'.levels isBid = []
  other : ob'.levels (!isBid) = ob.levels (!isBid)

variable {ob ob' ob'' : OrderBook T} {b : Bool} {l : LevelRef}

theorem drainBody_mono (b : Bool) : Loop.Mono (drainBody (T := T) b) :=
  fun _ _ _ _ _ h => h

theorem drainBody_none (hbest : ob.getBestPrice b = none) (n : Nat) (popped : List LevelRef) :
    drainBody b n (ob, popped) = some (.inl (ob, popped)) := by
  simp only [drainBody, popBestLevel, hbest]

theorem drainBody_some (hl : ob.Layout) (hbest : ob.getBestPrice b = some l) (n : Nat)
    (popped : List LevelRef) :
    ∃ ob', Popped ob ob' l ∧ drainBody b n (ob, popped) = some (.inr (ob', popped ++ [l])) := by
  obtain ⟨hret, hpop⟩ := popBestLevel_popped hl hbest
  refine ⟨_, hpop, ?_⟩
  simp only [drainBody, popBestLevel, hbest]

theorem Popped.drained (h : Popped ob ob' l) (hl : ob.Layout) (hfiled : ob.Filed b l)
    (hd : Drained b ob' ob'') : Drained b ob ob'' where
  wf := hd.wf
  orderAt := hd.orderAt.trans h.orderAt
  levelAt := hd.levelAt.trans h.levelAt
  self := hd.self
  other := hd.other.trans (h.levels_other hl hfiled (Bool.not_ne_self b))

/-- The loop ends, and the levels it has collected are those of the side. -/
theorem drain_total (h : ob.WF) (b : Bool) :
    ∃ fuel ob', ob.drain fuel b = some (ob', ob.levels b) ∧ Drained b ob ob' := by
  have hloop := Loop.iterate_total (drainBody_mono (T := T) b) (fun s => s.1.WF)
    (fun s => (s.1.levels b).length)
    (fun s r => r.2 = s.2 ++ s.1.levels b ∧ Drained b s.1 r.1) ?_ (ob, []) h
  · obtain ⟨fuel, ⟨ob', popped⟩, hrun, hpopped, hd⟩ := hloop
    obtain rfl : popped = ob.levels b := hpopped
    exact ⟨fuel, ob', hrun, hd⟩
  · rintro ⟨ob, popped⟩ (hw : ob.WF)
    cases hbest : ob.getBestPrice b with
    | none =>
        refine ⟨0, _, drainBody_none hbest 0 popped, ?_⟩
        have hnil : ob.levels b = [] := by
          rw [← List.head?_eq_none_iff, ← getBestPrice_eq]
          exact hbest
        exact ⟨by rw [hnil, List.append_nil], hw, rfl, rfl, hnil, rfl⟩
    | some l =>
        have hfiled := getBestPrice_filed hbest
        obtain ⟨ob', hpop, hbody⟩ := drainBody_some hw.layout hbest 0 popped
        have hlevels := hpop.levels_self hw.layout hbest
        refine ⟨0, _, hbody, hpop.wf hw hfiled, ?_, ?_⟩
        · show (ob'.levels b).length < (ob.levels b).length
          rw [hlevels]
          exact Nat.lt_succ_self _
        · rintro r ⟨hr, hd⟩
          refine ⟨?_, hpop.drained hw.layout hfiled hd⟩
          rw [hr, hlevels, List.append_assoc, List.singleton_append]

namespace Drained

theorem contents_other (h : Drained b ob ob') : ob'.contents (!b) = ob.contents (!b) := by
  simp only [contents, ordersOf, h.other, h.levelAt, h.orderAt]

theorem elements_other (h : Drained b ob ob') : ob'.elements (!b) = ob.elements (!b) := by
  simp only [elements, h.other, h.levelAt]

theorem elements_self (h : Drained b ob ob') : ob'.elements b = [] := by
  rw [elements, h.self, List.flatMap_nil]

theorem mem_orders (h : Drained b ob ob') (id : UUID) :
    id ∈ ob'.orders ↔ ∃ e ∈ ob.elements (!b), (ob.orderAt e.value).id = id := by
  rw [h.wf.mem_orders_iff, ← h.elements_other, ← h.orderAt]
  simp only [mem_restingOrders]
  constructor
  · rintro ⟨b', _, ⟨e, he, rfl⟩, rfl⟩
    by_cases hb : b' = b
    · rw [hb, h.elements_self] at he
      cases he
    · exact ⟨e, Bool.eq_not_of_ne hb ▸ he, rfl⟩
  · rintro ⟨e, he, rfl⟩
    exact ⟨_, _, ⟨e, he, rfl⟩, rfl⟩

end Drained

end OrderBook

/-- Draining a side of a book that any operations have led to: the calls come to
an end, the levels they return descend in price on the bid side and ascend on
the ask side, every order of the side is in the queue of one of them and in its
place there, and the book left has the other side as it was and its ids only. -/
theorem drain_in_priority_order {me₀ me : MatchingEngine T} {instrument : String}
    {ops : List MatchingEngine.Operation} (h₀ : me₀.orderBook = newOrderBook instrument)
    (h : MatchingEngine.Operations me₀ ops me) (b : Bool) :
    ∃ fuel ob' popped, me.orderBook.drain fuel b = some (ob', popped)
      ∧ (popped.map fun l => (ob'.levelAt l).price).Pairwise
          (fun p q => if b then q < p else p < q)
      ∧ (popped.flatMap fun l => (ob'.levelAt l).orders) = me.orderBook.elements b
      ∧ (me.orderBook.elements b).Nodup
      ∧ (popped.map fun l => LevelContents.mk (ob'.levelAt l).price (ob'.levelAt l).volume
          (ob'.ordersOf (ob'.levelAt l).orders)) = me.orderBook.contents b
      ∧ ob'.popBestLevel b = (ob', none) ∧ ob'.contents b = []
      ∧ ob'.contents (!b) = me.orderBook.contents (!b)
      ∧ ∀ id, id ∈ ob'.orders ↔
          ∃ e ∈ me.orderBook.elements (!b), (me.orderBook.orderAt e.value).id = id := by
  have hw := h.wf (h₀ ▸ OrderBook.newOrderBook_wf instrument)
  obtain ⟨fuel, ob', hrun, hd⟩ := OrderBook.drain_total hw b
  have hnone : ob'.getBestPrice b = none := by rw [OrderBook.getBestPrice_eq, hd.self]; rfl
  refine ⟨fuel, ob', _, hrun, ?_, ?_, hw.layout.elements_nodup b, ?_, ?_, ?_,
    hd.contents_other, hd.mem_orders⟩
  · rw [hd.levelAt]
    exact List.pairwise_map.mpr (hw.layout.levels_sorted b)
  · rw [hd.levelAt, OrderBook.elements]
  · simp only [OrderBook.ordersOf, OrderBook.contents, hd.levelAt, hd.orderAt]
  · simp only [OrderBook.popBestLevel, hnone]
  · rw [OrderBook.contents, hd.self, List.map_nil]

theorem MatchingEngine.Operations.added {me₀ me me' : MatchingEngine T}
    {ops : List MatchingEngine.Operation} (h : MatchingEngine.Operations me₀ ops me) (o : Order)
    (hnew : me.perform 0 (.newOrder o) = some me')
    (hfresh : me'.InsertsFresh (.addOrder me.orderBook.nextOrder)) :
    MatchingEngine.Operations me₀ (ops ++ [.newOrder o] ++ [.addOrder me.orderBook.nextOrder])
      { me' with orderBook := me'.orderBook.addOrder me.orderBook.nextOrder } :=
  .snoc (.snoc h trivial hnew) hfresh
    (show me'.perform 0 (.addOrder me.orderBook.nextOrder) = _ from rfl)

/-- A queue of two and a second level on the ask side, and a bid. -/
def addFour : List MatchingEngine.Operation :=
  [.newOrder sellHigher, .addOrder 0, .newOrder sellFive, .addOrder 1, .newOrder sellBehind,
    .addOrder 2, .newOrder buyLower, .addOrder 3]

theorem drain_in_priority_order_asks :
    ∃ (me : MatchingEngine (SortedItems Decimal LevelRef)) (fuel : Nat) (ob' : OrderBook _)
      (popped : List LevelRef),
      MatchingEngine.Operations (newMatchingEngine "BTC-USD") addFour me
      ∧ me.orderBook.drain fuel false = some (ob', popped)
      ∧ (popped.flatMap fun l => (ob'.levelAt l).orders).map Element.value = [1, 2, 0]
      ∧ ob'.contents false = [] ∧ ob'.contents true = [⟨99, 3, [buyLower]⟩] := by
  have h₀ : MatchingEngine.Operations
      (newMatchingEngine (T := SortedItems Decimal LevelRef) "BTC-USD") [] _ := .nil
  have h := h₀.added sellHigher rfl (by decide +kernel) |>.added sellFive rfl (by decide +kernel)
    |>.added sellBehind rfl (by decide +kernel) |>.added buyLower rfl (by decide +kernel)
  obtain ⟨fuel, ob', popped, hrun, -, hqueues, -, -, -, hempty, hother, -⟩ :=
    drain_in_priority_order rfl h false
  refine ⟨_, fuel, ob', popped, h, hrun, ?_, hempty, hother.trans (by decide +kernel)⟩
  rw [hqueues]
  decide +kernel

end TradingBackend
