import TradingBackend.Priority
import TradingBackend.Trace
import TradingBackend.Uncrossed

/-!
# The worker, step by step

`processCommand` of `engine/matching_engine.go` is not one step for the
other goroutines: the worker takes the lock of the book for each call of it
and fills orders in between, without the lock. Here the worker is a machine
whose steps are what it does between two moments at which another goroutine
can get hold of the book.

The commands of the machine are those of `Run`, one after the other
(`worker_books`), and at every moment in between the book is laid out as
between commands, not crossed, and finds its orders by id. Only the volume of a
level can be wrong: when an order of it has been filled and `UpdateOrder` not
yet been called, it is too large by that fill (`inFlight`).
-/

namespace TradingBackend

/-- A call of `matchAgainstPriceLevel`: the order, the level, and the trades
that were made before. -/
structure LevelCall where
  order : OrderRef
  level : LevelRef
  trades : List Trade

inductive WorkerPhase where
  /-- Between two commands. -/
  | waiting
  /-- At the head of the loop of `matchMarketOrder` or `matchLimitOrder`. -/
  | matching (order : OrderRef) (trades : List Trade)
  /-- At the head of the loop of `matchAgainstPriceLevel`. -/
  | scanning (call : LevelCall) (element : Option Element) (trades : List Trade)
  /-- After the two `Fill`s. -/
  | filled (call : LevelCall) (element : Element) (next : Option Element) (trades : List Trade)
  /-- After `UpdateOrder`. -/
  | updated (call : LevelCall) (element : Element) (next : Option Element) (trades : List Trade)
  /-- After the loop of `matchMarketOrder` or `matchLimitOrder`. -/
  | matched (order : OrderRef) (trades : List Trade)

structure Worker (T : Type) where
  engine : MatchingEngine T
  phase : WorkerPhase

inductive WorkerEvent where
  | accept (request : Request)
  | work
  | answer (trades : List Trade)

namespace WorkerEvent

def accepted? : WorkerEvent → Option Request
  | accept request => some request
  | _ => none

def answered? : WorkerEvent → Option (List Trade)
  | answer trades => some trades
  | _ => none

end WorkerEvent

variable {T : Type} [OrderedTree T Decimal LevelRef]

namespace MatchingEngine

/-- The two `Fill`s in `matchAgainstPriceLevel`. -/
def fillBoth (me : MatchingEngine T) (aggressor resting : OrderRef) : MatchingEngine T :=
  { me with orderBook := (me.orderBook.executeTrade aggressor resting).1 }

/-- The call of `UpdateOrder` in `matchAgainstPriceLevel`. -/
def updateResting (me : MatchingEngine T) (resting : OrderRef) : MatchingEngine T :=
  { me with
    orderBook := me.orderBook.updateOrder (me.orderBook.orderAt resting).id
      (me.orderBook.orderAt resting).filledQuantity }

/-- The call of `RemoveOrder` in `matchAgainstPriceLevel`. -/
def removeResting (me : MatchingEngine T) (resting : OrderRef) : MatchingEngine T :=
  match me.orderBook.removeOrder (me.orderBook.orderAt resting).id with
  | (ob, none) => { me with orderBook := ob }
  | (ob, some removed) =>
      let removedOrder := ob.orderAt removed
      { me with orderBook := ob }.publishOrderbookChange removedOrder.feedSide .remove
        removedOrder.price 0 removedOrder.remainingQuantity

theorem settleResting_eq (me : MatchingEngine T) (resting : OrderRef) :
    me.settleResting resting =
      if ((me.updateResting resting).orderBook.orderAt resting).isFilled then
        (me.updateResting resting).removeResting resting
      else me.updateResting resting :=
  rfl

end MatchingEngine

theorem OrderBook.SameShape.uncrossed {ob ob' : OrderBook T} (h : SameShape ob ob')
    (hl : ob.Layout) (hu : ob.Uncrossed) : ob'.Uncrossed := by
  have hprice : ∀ {b e}, e ∈ ob.elements b → ob'.priceOf e = ob.priceOf e := fun he => by
    obtain ⟨l, he⟩ := mem_elements.mp he
    exact h.orderPrice _ (hl.order_lt he)
  intro bid hbid ask hask
  rw [h.elements] at hbid hask
  rw [hprice hbid, hprice hask]
  exact hu bid hbid ask hask

namespace Worker

inductive Step (w : Worker T) : WorkerEvent → Worker T → Prop where
  | accept {o} (hphase : w.phase = .waiting) (hvalid : o.isValid = true) :
      Step w (.accept (.new o)) ⟨w.engine.alloc o, .matching w.engine.orderBook.nextOrder []⟩
  | reject {o} (hphase : w.phase = .waiting) (hvalid : ¬o.isValid = true) :
      Step w (.accept (.new o))
        ⟨(w.engine.alloc o).reject w.engine.orderBook.nextOrder, .waiting⟩
  | cancel {orderID fuel me response} (hphase : w.phase = .waiting)
      (h : w.engine.processCommand fuel (.cancel orderID) = some (me, response)) :
      Step w (.accept (.cancel orderID)) ⟨me, .waiting⟩
  | call {order trades level} (hphase : w.phase = .matching order trades)
      (hcalls : w.engine.Calls order level) :
      Step w .work
        ⟨w.engine, .scanning ⟨order, level, trades⟩ (w.engine.orderBook.levelAt level).orders.head?
          []⟩
  | leave {order trades} (hphase : w.phase = .matching order trades)
      (hcalls : ∀ level, ¬w.engine.Calls order level) :
      Step w .work ⟨w.engine.close order, .matched order trades⟩
  | fill {call element trades} (hphase : w.phase = .scanning call (some element) trades)
      (hpos : 0 < (w.engine.orderBook.orderAt call.order).remainingQuantity) :
      Step w .work
        ⟨w.engine.fillBoth call.order element.value,
          .filled call element (nextElement element (w.engine.orderBook.levelAt call.level).orders)
            (trades ++ [(w.engine.orderBook.executeTrade call.order element.value).2])⟩
  | update {call element next trades} (hphase : w.phase = .filled call element next trades) :
      Step w .work ⟨w.engine.updateResting element.value, .updated call element next trades⟩
  | remove {call element next trades} (hphase : w.phase = .updated call element next trades)
      (hfilled : (w.engine.orderBook.orderAt element.value).isFilled = true) :
      Step w .work ⟨w.engine.removeResting element.value, .scanning call next trades⟩
  | keep {call element next trades} (hphase : w.phase = .updated call element next trades)
      (hfilled : ¬(w.engine.orderBook.orderAt element.value).isFilled = true) :
      Step w .work ⟨w.engine, .scanning call next trades⟩
  | endLevel {call element trades} (hphase : w.phase = .scanning call element trades)
      (hend : element = none
        ∨ ¬0 < (w.engine.orderBook.orderAt call.order).remainingQuantity) :
      Step w .work
        ⟨w.engine,
          if (w.engine.orderBook.orderAt call.order).isFilled then
            .matched call.order (call.trades ++ trades)
          else .matching call.order (call.trades ++ trades)⟩
  | finish {order trades} (hphase : w.phase = .matched order trades) :
      Step w (.answer trades) ⟨(w.engine.restOrder order).announce order trades, .waiting⟩

/-- What the volume of a level does not know of yet. -/
def inFlight (w : Worker T) (level : LevelRef) : Decimal :=
  match w.phase with
  | .filled call _ _ trades =>
      if call.level = level then (trades.getLast?.map Trade.quantity).getD 0 else 0
  | _ => 0

end Worker

namespace MatchingEngine

/-! ## In the course of a command -/

/-- In the course of `matchOrder` for `a`, which began in `me`, the call has
`scan` at the head of its loop. -/
def Visits (me : MatchingEngine T) (a : OrderRef) (call : LevelCall) (scan : LevelScan T) : Prop :=
  call.order = a ∧ ∃ me₁, Loop.Heads (me.matchBody a) (me, []) (me₁, call.trades)
    ∧ me₁.Calls a call.level ∧ me₁.ScansFrom a call.level scan

/-- The worker is in the course of `matchOrder` for `a`, which began in `me`. -/
inductive Inside (me : MatchingEngine T) (a : OrderRef) : Worker T → Prop where
  | matching {me₁ trades} (h : Loop.Heads (me.matchBody a) (me, []) (me₁, trades)) :
      Inside me a ⟨me₁, .matching a trades⟩
  | scanning {call me₁ element trades} (h : me.Visits a call ⟨me₁, element, trades⟩) :
      Inside me a ⟨me₁, .scanning call element trades⟩
  | filled {call me₁ e trades} (h : me.Visits a call ⟨me₁, some e, trades⟩)
      (hpos : 0 < (me₁.orderBook.orderAt a).remainingQuantity) :
      Inside me a ⟨me₁.fillBoth a e.value,
        .filled call e (nextElement e (me₁.orderBook.levelAt call.level).orders)
          (trades ++ [tradeOf me₁.orderBook.orderAt a e.value])⟩
  | updated {call me₁ e trades} (h : me.Visits a call ⟨me₁, some e, trades⟩)
      (hpos : 0 < (me₁.orderBook.orderAt a).remainingQuantity) :
      Inside me a ⟨(me₁.fillBoth a e.value).updateResting e.value,
        .updated call e (nextElement e (me₁.orderBook.levelAt call.level).orders)
          (trades ++ [tradeOf me₁.orderBook.orderAt a e.value])⟩
  | matched {me₁ trades fuel}
      (h : Loop.iterate (me.matchBody a) fuel (me, []) = some (me₁, trades)) :
      Inside me a ⟨me₁, .matched a trades⟩

/-! ## The loops -/

section

variable {me me₁ : MatchingEngine T} {a : OrderRef} {l : LevelRef} {n : Nat}
  {s : MatchingEngine T × List Trade} {scan : LevelScan T} {call : LevelCall} {e : Element}
  {trades : List Trade}

theorem matchBody_mono (me : MatchingEngine T) (a : OrderRef) : Loop.Mono (me.matchBody a) := by
  intro n m s o hnm h
  by_cases hmarket : (me.orderBook.orderAt a).type = .market
  · simp only [matchBody, if_pos hmarket] at h ⊢
    exact sweepBody_mono (fun _ _ => true) (unmatched a) a n m s o hnm h
  · simp only [matchBody, if_neg hmarket] at h ⊢
    exact sweepBody_mono canMatch id a n m s o hnm h

theorem matchLevel_of_exit (hscan : s.1.ScansFrom a l scan)
    (hend : scan.element = none ∨ ¬0 < (scan.engine.orderBook.orderAt a).remainingQuantity) :
    ∃ n, matchLevel n a l s =
      some (if (scan.engine.orderBook.orderAt a).isFilled
        then .inl (scan.engine, s.2 ++ scan.trades)
        else .inr (scan.engine, s.2 ++ scan.trades)) := by
  obtain ⟨n, hn⟩ := Loop.Heads.iterate (scanBody_mono a l) hscan (n := 1)
    (Loop.iterate_succ_exit (congrArg some (scanBody_exit hend)))
  refine ⟨n, ?_⟩
  simp only [matchLevel, matchAgainstPriceLevel, hn]
  split_ifs <;> rfl

theorem matchOrder_of_iterate (hvalid : (me.orderBook.orderAt a).isValid = true)
    (h : Loop.iterate (me.matchBody a) n (me, []) = some (me₁, trades)) :
    me.matchOrder n a = some ((me₁.restOrder a).announce a trades, trades) := by
  have hloop : (if (me.orderBook.orderAt a).type = .market then me.matchMarketOrder n a
      else me.matchLimitOrder n a) = some (me₁, trades) := by
    rw [← h]
    split_ifs with hmarket
    · exact congrArg (Loop.iterate · n (me, [])) (funext₂ fun _ _ => (if_pos hmarket).symm)
    · exact congrArg (Loop.iterate · n (me, [])) (funext₂ fun _ _ => (if_neg hmarket).symm)
  simp only [matchOrder, if_pos hvalid, hloop]

theorem Visits.trade (h : me.Visits a call ⟨me₁, some e, trades⟩)
    (hpos : 0 < (me₁.orderBook.orderAt a).remainingQuantity) :
    me.Visits a call ⟨(me₁.fillBoth a e.value).settleResting e.value,
      nextElement e (me₁.orderBook.levelAt call.level).orders,
      trades ++ [tradeOf me₁.orderBook.orderAt a e.value]⟩ := by
  obtain ⟨horder, me₂, hheads, hcalls, hscan⟩ := h
  exact ⟨horder, me₂, hheads, hcalls, hscan.tail ⟨0, congrArg some (scanBody_trade rfl hpos)⟩⟩

theorem type_of_heads (hready : me.orderBook.Ready a)
    (h : Loop.Heads (me.matchBody a) (me, []) s) :
    (s.1.orderBook.orderAt a).type = (me.orderBook.orderAt a).type :=
  (heads_underway hready h).of_terms Order.type (fun _ => rfl) a

/-- A step in the course of a command stays in it or ends it. -/
theorem Inside.step (hready : me.orderBook.Ready a)
    (hvalid : (me.orderBook.orderAt a).isValid = true) {w w' : Worker T} {ev : WorkerEvent}
    (h : me.Inside a w) (hstep : w.Step ev w') :
    (ev = .work ∧ me.Inside a w')
      ∨ ∃ me' trades fuel, ev = .answer trades ∧ w' = ⟨me', .waiting⟩
        ∧ me.matchOrder fuel a = some (me', trades) := by
  cases hstep with
  | accept hphase | reject hphase | cancel hphase => cases h <;> cases hphase
  | call hphase hcalls =>
      cases h with
      | matching h =>
          cases hphase
          exact Or.inl ⟨rfl, .scanning ⟨rfl, _, h, hcalls, .refl⟩⟩
      | _ => cases hphase
  | leave hphase hcalls =>
      cases h with
      | matching h =>
          cases hphase
          obtain ⟨n, hn⟩ := Loop.Heads.iterate (matchBody_mono me a) h (n := 1)
            (Loop.iterate_succ_exit (matchBody_leave (type_of_heads hready h) hcalls))
          exact Or.inl ⟨rfl, .matched hn⟩
      | _ => cases hphase
  | fill hphase hpos =>
      cases h with
      | scanning h =>
          cases hphase
          obtain rfl := h.1
          rw [OrderBook.executeTrade_eq]
          exact Or.inl ⟨rfl, .filled h hpos⟩
      | _ => cases hphase
  | update hphase =>
      cases h with
      | filled h hpos =>
          cases hphase
          exact Or.inl ⟨rfl, .updated h hpos⟩
      | _ => cases hphase
  | remove hphase hfilled =>
      cases h with
      | updated h hpos =>
          cases hphase
          have hnext := h.trade hpos
          rw [settleResting_eq, if_pos hfilled] at hnext
          exact Or.inl ⟨rfl, .scanning hnext⟩
      | _ => cases hphase
  | keep hphase hfilled =>
      cases h with
      | updated h hpos =>
          cases hphase
          have hnext := h.trade hpos
          rw [settleResting_eq, if_neg hfilled] at hnext
          exact Or.inl ⟨rfl, .scanning hnext⟩
      | _ => cases hphase
  | endLevel hphase hend =>
      cases h with
      | scanning h =>
          cases hphase
          obtain ⟨rfl, me₂, hheads, hcalls, hscan⟩ := h
          obtain ⟨n, hn⟩ := matchLevel_of_exit (s := (me₂, _)) hscan hend
          rw [← matchBody_calls (type_of_heads hready hheads) hcalls] at hn
          refine Or.inl ⟨rfl, ?_⟩
          split_ifs at hn ⊢
          · obtain ⟨m, hm⟩ := Loop.Heads.iterate (matchBody_mono me _) hheads
              (Loop.iterate_succ_exit hn)
            exact .matched hm
          · exact .matching (hheads.tail ⟨n, hn⟩)
      | _ => cases hphase
  | finish hphase =>
      cases h with
      | matched h =>
          cases hphase
          exact Or.inr ⟨_, _, _, rfl, rfl, matchOrder_of_iterate hvalid h⟩
      | _ => cases hphase

end

/-! ## Between commands and in them -/

/-- What the events have led to: the commands that were answered are a run,
and the worker waits or is in the course of one more. -/
inductive Reached (me₀ : MatchingEngine T) (es : List WorkerEvent) : Worker T → Prop where
  | waiting {me} (hrun : Run me₀ (es.filterMap WorkerEvent.accepted?) me
        (es.filterMap WorkerEvent.answered?).flatten) :
      Reached me₀ es ⟨me, .waiting⟩
  | inside {me requests o w} (hvalid : o.isValid = true)
      (hrequests : es.filterMap WorkerEvent.accepted? = requests ++ [.new o])
      (hrun : Run me₀ requests me (es.filterMap WorkerEvent.answered?).flatten)
      (hinside : (me.alloc o).Inside me.orderBook.nextOrder w) :
      Reached me₀ es w

section

variable {me₀ me me₁ : MatchingEngine T} {es : List WorkerEvent} {ev : WorkerEvent}
  {w w' : Worker T}

theorem handle_reject {o : Order} (hvalid : ¬o.isValid = true) :
    me.handle 0 (.new o) = some ((me.alloc o).reject me.orderBook.nextOrder,
      ⟨[], none, some me.orderBook.nextOrder⟩) := by
  have hmatch : (me.alloc o).matchOrder 0 me.orderBook.nextOrder =
      some ((me.alloc o).reject me.orderBook.nextOrder, []) := by
    simp only [matchOrder, reject, alloc_self, if_neg hvalid]
  simp only [handle, processCommand, OrderBook.newOrder, hmatch]

theorem cancel_trades {orderID : UUID} {fuel : Nat} {response : CommandResponse}
    (h : me.processCommand fuel (.cancel orderID) = some (me₁, response)) :
    response.trades = [] := by
  simp only [processCommand] at h
  split at h <;> cases h <;> rfl

theorem Reached.handled {request : Request}
    (hrun : Run me₀ (es.filterMap WorkerEvent.accepted?) me
      (es.filterMap WorkerEvent.answered?).flatten)
    {fuel : Nat} {response : CommandResponse}
    (hstep : me.handle fuel request = some (me₁, response)) (hnone : response.trades = []) :
    Reached me₀ (es ++ [.accept request]) ⟨me₁, .waiting⟩ := by
  refine .waiting ?_
  have hnext := hrun.snoc hstep
  rw [hnone, List.append_nil] at hnext
  rw [history_snoc, history_snoc]
  exact (List.append_nil _).symm ▸ hnext

theorem Reached.step (h₀ : me₀.Initial)
    (hfresh : FreshIDs ((es ++ [ev]).filterMap WorkerEvent.accepted?)) (h : Reached me₀ es w)
    (hstep : w.Step ev w') : Reached me₀ (es ++ [ev]) w' := by
  cases h with
  | @waiting me hrun =>
      cases hstep with
      | @accept o hphase hvalid =>
          refine .inside hvalid (history_snoc ..) ?_ (.matching .refl)
          rw [history_snoc]
          exact (List.append_nil _).symm ▸ hrun
      | @reject o hphase hvalid =>
          exact Reached.handled hrun (handle_reject hvalid) rfl
      | @cancel orderID fuel me' response hphase h =>
          have hhandle : me.handle fuel (.cancel orderID) = some (me', response) := h
          exact Reached.handled hrun hhandle (cancel_trades h)
      | call hphase | leave hphase | fill hphase | update hphase | remove hphase | keep hphase
      | endLevel hphase | finish hphase => cases hphase
  | @inside me requests o _ hvalid hrequests hrun hinside =>
      have hfresh' : FreshIDs (requests ++ [.new o]) := by
        rw [history_snoc, hrequests] at hfresh
        exact hfresh.of_append_left
      have hready := (hrun.sound h₀ hfresh'.of_append).ready hfresh'
      have hvalid' : ((me.alloc o).orderBook.orderAt me.orderBook.nextOrder).isValid = true := by
        rwa [alloc_self]
      rcases hinside.step hready hvalid' hstep with
        ⟨rfl, hinside⟩ | ⟨me', trades, fuel, rfl, rfl, hmatch⟩
      · have hsame :
            (es ++ [WorkerEvent.work]).filterMap WorkerEvent.accepted? = requests ++ [.new o] := by
          rw [history_snoc, hrequests]
          exact List.append_nil _
        refine .inside hvalid hsame ?_ hinside
        rw [history_snoc]
        exact (List.append_nil _).symm ▸ hrun
      · have hhandle : me.handle fuel (.new o)
            = some (me', ⟨trades, none, some me.orderBook.nextOrder⟩) := by
          simp only [handle, processCommand, OrderBook.newOrder, hmatch]
        refine .waiting ?_
        have hnext := hrun.snoc hhandle
        rw [history_snoc, history_snoc, hrequests, List.flatten_append]
        simpa [WorkerEvent.accepted?, WorkerEvent.answered?] using hnext

theorem reached (h₀ : me₀.Initial) (h : Trace Worker.Step ⟨me₀, .waiting⟩ es w)
    (hfresh : FreshIDs (es.filterMap WorkerEvent.accepted?)) : Reached me₀ es w := by
  induction h with
  | nil => exact .waiting .nil
  | snoc _ hstep ih =>
      refine (ih ?_).step h₀ hfresh hstep
      rw [history_snoc] at hfresh
      exact hfresh.of_append_left

/-! ## Every run is one of the worker -/

/-- The worker gets from `w` to `w'` without accepting or answering. -/
def Works : Worker T → Worker T → Prop :=
  Relation.ReflTransGen fun w w' => w.Step .work w'

theorem Works.trace (h : Works w w') :
    ∃ n, Trace Worker.Step w (List.replicate n .work) w' := by
  induction h with
  | refl => exact ⟨0, .nil⟩
  | tail _ hstep ih =>
      obtain ⟨n, hn⟩ := ih
      exact ⟨n + 1, List.replicate_succ' ▸ hn.snoc hstep⟩

end

section

variable {me me₁ : MatchingEngine T} {a : OrderRef} {l : LevelRef} {n : Nat}
  {s : MatchingEngine T × List Trade} {scan : LevelScan T} {trades : List Trade}
  {out : (MatchingEngine T × List Trade) ⊕ (MatchingEngine T × List Trade)}

theorem works_level (ts : List Trade) (h : me.ScansFrom a l scan) :
    Works ⟨me, .scanning ⟨a, l, ts⟩ (me.orderBook.levelAt l).orders.head? []⟩
      ⟨scan.engine, .scanning ⟨a, l, ts⟩ scan.element scan.trades⟩ := by
  refine h.invariant (P := fun scan => Works _ ⟨scan.engine, .scanning ⟨a, l, ts⟩ scan.element
    scan.trades⟩) ?_ .refl
  rintro scan scan' - haround hworks
  obtain ⟨e, he, hpos, rfl⟩ := around_scan haround
  rw [he] at hworks
  have hworks := (hworks.tail (.fill rfl hpos)).tail (.update rfl)
  dsimp only at hworks ⊢
  rw [OrderBook.executeTrade_eq] at hworks
  have hafter := (scan.engine.fillBoth a e.value).settleResting_eq e.value
  change scan.engine.afterTrade a e = _ at hafter
  by_cases hfilled : (((scan.engine.fillBoth a e.value).updateResting e.value).orderBook.orderAt
      e.value).isFilled = true
  · rw [hafter, if_pos hfilled]
    exact hworks.tail (.remove rfl hfilled)
  · rw [hafter, if_neg hfilled]
    exact hworks.tail (.keep rfl hfilled)

theorem works_call (hcalls : s.1.Calls a l) (h : matchLevel n a l s = some out) :
    Works ⟨s.1, .matching a s.2⟩
      (out.elim (fun r => ⟨r.1, .matched a r.2⟩) fun r => ⟨r.1, .matching a r.2⟩) := by
  obtain ⟨scan, hscan, hend, rfl⟩ := matchLevel_exit h
  have hcall : Worker.Step ⟨s.1, .matching a s.2⟩ .work
      ⟨s.1, .scanning ⟨a, l, s.2⟩ (s.1.orderBook.levelAt l).orders.head? []⟩ := .call rfl hcalls
  have hworks := (works_level s.2 hscan).head hcall
  refine (hworks.tail (.endLevel rfl hend)).trans ?_
  dsimp only
  split_ifs <;> exact .refl

theorem works_matching (hready : me.orderBook.Ready a)
    (h : Loop.Heads (me.matchBody a) (me, []) s) :
    Works ⟨me, .matching a []⟩ ⟨s.1, .matching a s.2⟩ := by
  refine h.invariant (P := fun s => Works _ ⟨s.1, .matching a s.2⟩) ?_ .refl
  rintro s s' hheads ⟨n, haround⟩ hworks
  obtain ⟨l, hcalls, hlevel⟩ := (matchBody_cases (type_of_heads hready hheads)
    haround).resolve_right nofun
  exact hworks.trans (works_call hcalls hlevel)

theorem works_matched (hready : me.orderBook.Ready a)
    (h : Loop.iterate (me.matchBody a) n (me, []) = some (me₁, trades)) :
    Works ⟨me, .matching a []⟩ ⟨me₁, .matched a trades⟩ := by
  obtain ⟨s, m, hheads, hexit⟩ := Loop.iterate_heads h
  refine (works_matching hready hheads).trans ?_
  rcases matchBody_cases (type_of_heads hready hheads) hexit with
    ⟨l, hcalls, hlevel⟩ | ⟨hcalls, hout⟩
  · exact works_call hcalls hlevel
  · obtain ⟨rfl, rfl⟩ := Prod.mk.injEq .. |>.mp (Sum.inl.inj hout)
    exact .single (.leave rfl hcalls)

theorem handle_worker {requests : List Request} {request : Request} {response : CommandResponse}
    (hs : me.Sound requests) (hfresh : FreshIDs (requests ++ [request]))
    (h : me.handle n request = some (me₁, response)) :
    ∃ es, Trace Worker.Step ⟨me, .waiting⟩ es ⟨me₁, .waiting⟩
      ∧ es.filterMap WorkerEvent.accepted? = [request]
      ∧ (es.filterMap WorkerEvent.answered?).flatten = response.trades := by
  cases request with
  | cancel orderID =>
      have hcancel : me.processCommand n (.cancel orderID) = some (me₁, response) := h
      exact ⟨[.accept (.cancel orderID)], .snoc .nil (.cancel rfl hcancel), rfl,
        (cancel_trades hcancel).symm⟩
  | new o =>
      by_cases hvalid : o.isValid = true
      · have hready := hs.ready hfresh
        cases hmatch : (me.alloc o).matchOrder n me.orderBook.nextOrder with
        | none => simp only [handle, processCommand, OrderBook.newOrder, hmatch] at h; cases h
        | some r =>
            simp only [handle, processCommand, OrderBook.newOrder, hmatch] at h
            obtain ⟨rfl, rfl⟩ := Prod.mk.injEq .. |>.mp (Option.some.inj h)
            obtain ⟨me', hrun, heq⟩ := matchOrder_iterate ((alloc_self me o).symm ▸ hvalid) hmatch
            obtain ⟨m, hworks⟩ := (works_matched hready hrun).trace
            have haccept : Worker.Step ⟨me, .waiting⟩ (.accept (.new o))
                ⟨me.alloc o, .matching me.orderBook.nextOrder []⟩ := .accept rfl hvalid
            have htrace := (Trace.nil.next _ haccept).append
              (hworks.next (.answer r.2) (.finish rfl))
            rw [← heq] at htrace
            exact ⟨_, htrace, by simp [WorkerEvent.accepted?],
              by simp [List.filterMap_cons, WorkerEvent.answered?]⟩
      · obtain ⟨rfl, rfl⟩ := Prod.mk.injEq .. |>.mp (handle_det h (handle_reject hvalid))
        exact ⟨[.accept (.new o)], .snoc .nil (.reject rfl hvalid), rfl, rfl⟩

theorem Run.worker {me₀ : MatchingEngine T} {requests : List Request} (h₀ : me₀.Initial)
    (h : Run me₀ requests me trades) (hfresh : FreshIDs requests) :
    ∃ es, Trace Worker.Step ⟨me₀, .waiting⟩ es ⟨me, .waiting⟩
      ∧ es.filterMap WorkerEvent.accepted? = requests
      ∧ (es.filterMap WorkerEvent.answered?).flatten = trades := by
  induction h with
  | nil => exact ⟨[], .nil, rfl, rfl⟩
  | snoc h hstep ih =>
      obtain ⟨es, hes, haccepted, hanswered⟩ := ih hfresh.of_append
      obtain ⟨es', hes', haccepted', hanswered'⟩ :=
        handle_worker (h.sound h₀ hfresh.of_append) hfresh hstep
      refine ⟨es ++ es', hes.append hes', ?_, ?_⟩
      · rw [List.filterMap_append, haccepted, haccepted']
      · rw [List.filterMap_append, List.flatten_append, hanswered, hanswered']

end

/-! ## The book at every moment -/

/-- What a goroutine that gets hold of the book can rely on, at any moment. It
is `WF` but for the volumes, which lag behind by the fill that is under way. -/
structure Visible (w : Worker T) : Prop where
  layout : w.engine.orderBook.Layout
  indexed : w.engine.orderBook.Indexed
  uncrossed : w.engine.orderBook.Uncrossed
  volumes : ∀ {b l}, w.engine.orderBook.Filed b l → (w.engine.orderBook.levelAt l).volume =
    w.engine.orderBook.queued (w.engine.orderBook.levelAt l).orders + w.inFlight l
  idle : ∀ {l}, (∀ b, ¬w.engine.orderBook.Filed b l) → w.inFlight l = 0

section

variable {me me₁ : MatchingEngine T} {a : OrderRef} {b : Bool} {l : LevelRef} {n : Nat}
  {s : MatchingEngine T × List Trade} {scan : LevelScan T} {call : LevelCall} {e : Element}
  {trades : List Trade} {queue rest : List Element} {w : Worker T}

theorem visible_of_wf (hwf : w.engine.orderBook.WF) (hu : w.engine.orderBook.Uncrossed)
    (hflight : ∀ l, w.inFlight l = 0) : Visible w :=
  ⟨hwf.layout, hwf.indexed, hu, fun hf => by rw [hflight, add_zero, hwf.volumes hf],
    fun _ => hflight _⟩

theorem Underway.uncrossed (h : Underway me me₁ a b) (hu : me.orderBook.Uncrossed) :
    me₁.orderBook.Uncrossed := by
  have hsub : ∀ b', me₁.orderBook.elements b' ⊆ me.orderBook.elements b' := by
    intro b'
    by_cases hb : b' = b
    · rw [hb]
      exact h.subset
    · obtain rfl : b' = !b := Bool.eq_not_of_ne hb
      rw [h.elements_other]
      exact List.Subset.refl _
  have hprice : ∀ e, me₁.orderBook.priceOf e = me.orderBook.priceOf e := fun e =>
    h.of_terms Order.price (fun _ => rfl) e.value
  intro bid hbid ask hask
  rw [hprice, hprice]
  exact hu bid (hsub _ hbid) ask (hsub _ hask)

theorem Visits.scanning (hready : me.orderBook.Ready a) (h : me.Visits a call scan) :
    (∃ rest, Scanning a (me.orderBook.opposing a) call.level rest scan)
      ∧ Underway me scan.engine a (me.orderBook.opposing a) := by
  obtain ⟨-, me₂, hheads, hcalls, hscan⟩ := h
  have hu := heads_underway hready hheads
  exact hu.level hready (hu.best hcalls) hscan

theorem Underway.close (h : Underway me me₁ a b) :
    Underway me (me₁.close a) a b := by
  have hsame := sameShape_close me₁ a
  refine ⟨⟨close_wf h.ready, ?_, h.ready.allocated⟩, fun r => ?_, ?_, ?_, fun e he => ?_,
    fun r ha hr => ?_⟩
  · show ((me₁.close a).orderBook.orderAt a).id ∉ me₁.orderBook.orders
    rw [close_of_status Order.id fun _ _ => rfl]
    exact h.ready.absent
  · rw [close_of_status Order.terms (fun _ _ => rfl)]
    exact h.terms r
  · rw [hsame.elements]
    exact h.subset
  · rw [hsame.elements]
    exact h.elements_other
  · rw [hsame.elements, close_of_status Order.isFilled (fun _ _ => rfl)]
    exact h.gone e he
  · exact (Function.update_of_ne ha ..).trans (h.orderAt r ha hr)

theorem matched_underway (hready : me.orderBook.Ready a)
    (h : Loop.iterate (me.matchBody a) n (me, []) = some (me₁, trades)) :
    Underway me me₁ a (me.orderBook.opposing a) := by
  obtain ⟨s, m, hheads, hexit⟩ := Loop.iterate_heads h
  have hu := heads_underway hready hheads
  rcases matchBody_cases (type_of_heads hready hheads) hexit with
    ⟨l, hcalls, hlevel⟩ | ⟨-, hout⟩
  · obtain ⟨scan, hscan, hout | hout⟩ := matchLevel_cases hlevel
    · cases hout
      exact (hu.level hready (hu.best hcalls) hscan).2
    · cases hout
  · obtain ⟨rfl, rfl⟩ := Prod.mk.injEq .. |>.mp (Sum.inl.inj hout)
    exact hu.close

theorem sameShape_fillBoth (me : MatchingEngine T) (a r : OrderRef) :
    OrderBook.SameShape me.orderBook (me.fillBoth a r).orderBook := by
  rw [fillBoth, OrderBook.executeTrade_eq]
  exact ⟨fun _ => rfl, fun _ => rfl, fun _ => rfl, rfl, rfl, rfl, le_rfl,
    fun _ _ => tradeOrders_id, fun _ _ => tradeOrders_side, fun _ _ => tradeOrders_price⟩

omit [OrderedTree T Decimal LevelRef] in
theorem fillBoth_levelAt (me : MatchingEngine T) (a r : OrderRef) :
    (me.fillBoth a r).orderBook.levelAt = me.orderBook.levelAt := by
  rw [fillBoth, OrderBook.executeTrade_eq]

theorem fillBoth_volumes (hready : me.orderBook.Ready a)
    (hqueue : (me.orderBook.levelAt l).orders = e :: queue) (he : me.orderBook.Holds b l e)
    {b' : Bool} {l' : LevelRef} (hf : me.orderBook.Filed b' l') :
    (me.orderBook.levelAt l').volume =
      (me.fillBoth a e.value).orderBook.queued (me.orderBook.levelAt l').orders
        + if l = l' then matchQty me.orderBook.orderAt a e.value else 0 := by
  have hfills : (me.fillBoth a e.value).orderBook.orderAt =
      tradeOrders me.orderBook.orderAt a e.value := by
    rw [fillBoth, OrderBook.executeTrade_eq]
  have hother : ∀ x ∈ (me.orderBook.levelAt l').orders, x ≠ e →
      (me.fillBoth a e.value).orderBook.orderAt x.value = me.orderBook.orderAt x.value := by
    intro x hx hne
    rw [hfills]
    refine tradeOrders_other (hready.ne ⟨hf, hx⟩) fun heq => hne ?_
    exact (hready.wf.holds_unique ⟨hf, hx⟩ he (by rw [heq])).2.2
  rw [hready.wf.volumes hf]
  by_cases hl : l = l'
  · subst hl
    have hnodup := hready.wf.layout.queue_nodup hf
    rw [hqueue, List.nodup_cons] at hnodup
    rw [hqueue] at hother ⊢
    have hrest : (me.fillBoth a e.value).orderBook.queued queue = me.orderBook.queued queue :=
      OrderBook.queued_congr fun x hx => hother x (List.mem_cons_of_mem _ hx) fun heq =>
        hnodup.1 (heq ▸ hx)
    have hcons : ∀ ob : OrderBook T, ob.queued (e :: queue) =
        (ob.orderAt e.value).remainingQuantity + ob.queued queue := fun ob => by
      rw [OrderBook.queued, List.map_cons, List.sum_cons]
      rfl
    rw [hcons, hcons, hrest, hfills, tradeOrders_resting (hready.ne he),
      Order.fill_remainingQuantity, if_pos rfl, add_right_comm, sub_add_cancel]
  · rw [if_neg hl, add_zero]
    refine (OrderBook.queued_congr fun x hx => hother x hx fun heq => hl ?_).symm
    subst heq
    exact (hready.wf.holds_unique ⟨hf, hx⟩ he rfl).2.1.symm

theorem Inside.visible (hready : me.orderBook.Ready a) (hu : me.orderBook.Uncrossed)
    (h : me.Inside a w) : Visible w := by
  cases h with
  | matching h =>
      have hunder := heads_underway hready h
      exact visible_of_wf hunder.ready.wf (hunder.uncrossed hu) fun _ => rfl
  | scanning h =>
      have hunder := (h.scanning hready).2
      exact visible_of_wf hunder.ready.wf (hunder.uncrossed hu) fun _ => rfl
  | @filled call me₁ e trades h hpos =>
      obtain ⟨⟨rest, hs⟩, hunder⟩ := h.scanning hready
      obtain ⟨queue, hqueue, -⟩ := hs.step rfl hpos
      have he := hs.holds e (hqueue ▸ List.mem_cons_self ..)
      have hsame := sameShape_fillBoth me₁ a e.value
      have hwf := hunder.ready.wf
      refine ⟨hsame.layout hwf.layout, hsame.indexed hwf.layout hwf.indexed,
        hsame.uncrossed hwf.layout (hunder.uncrossed hu), fun {b l} hf => ?_, fun {l} hf => ?_⟩
      · have hvolume := fillBoth_volumes hunder.ready hqueue he (hsame.filed_iff.mp hf)
        simp only [fillBoth_levelAt, Worker.inFlight, List.getLast?_concat, Option.map_some,
          Option.getD_some]
        exact hvolume
      · refine if_neg ?_
        rintro rfl
        exact hf _ (hsame.filed_iff.mpr he.1)
  | @updated call me₁ e trades h hpos =>
      obtain ⟨⟨rest, hs⟩, hunder⟩ := h.scanning hready
      obtain ⟨queue, hqueue, -⟩ := hs.step rfl hpos
      have he := hs.holds e (hqueue ▸ List.mem_cons_self ..)
      have hbook : ((me₁.fillBoth a e.value).updateResting e.value).orderBook =
          me₁.orderBook.traded a call.level e := by
        rw [← OrderBook.updateOrder_executeTrade hunder.ready he]
        simp only [updateResting, fillBoth, OrderBook.executeTrade_eq]
      have hready₁ := hunder.ready
      refine visible_of_wf (hbook ▸ (hready₁.traded he).wf) ?_ fun _ => rfl
      rw [hbook]
      exact (me₁.orderBook.sameShape_traded a call.level e).uncrossed hready₁.wf.layout
        (hunder.uncrossed hu)
  | matched h =>
      have hunder := matched_underway hready h
      exact visible_of_wf hunder.ready.wf (hunder.uncrossed hu) fun _ => rfl

end

theorem Reached.visible {me₀ : MatchingEngine T} {es : List WorkerEvent} {w : Worker T}
    (h₀ : me₀.Initial) (hfresh : FreshIDs (es.filterMap WorkerEvent.accepted?))
    (h : Reached me₀ es w) : Visible w := by
  cases h with
  | waiting hrun =>
      exact visible_of_wf (hrun.sound h₀ hfresh).wf (hrun.uncrossed h₀ hfresh) fun _ => rfl
  | @inside me requests o _ hvalid hrequests hrun hinside =>
      rw [hrequests] at hfresh
      have hsound := hrun.sound h₀ hfresh.of_append
      refine hinside.visible (hsound.ready hfresh) ?_
      exact (me.sameShape_alloc o).uncrossed hsound.wf.layout (hrun.uncrossed h₀ hfresh.of_append)

end MatchingEngine

/-- The worker handles the requests one after the other, each as `Run` does
it. Whenever another goroutine looks, in the middle of a command or between
two of them, the book is laid out as it should be, an id leads to its order,
every bid is below every ask, and the volume of a level is that of its orders,
except that a fill may be missing in it whose order `UpdateOrder` has not been
called for. -/
theorem worker_books {me₀ : MatchingEngine T} (h₀ : me₀.Initial) {requests : List Request}
    (hfresh : FreshIDs requests) :
    (∀ me trades, MatchingEngine.Run me₀ requests me trades ↔
      ∃ es, Trace Worker.Step ⟨me₀, .waiting⟩ es ⟨me, .waiting⟩
        ∧ es.filterMap WorkerEvent.accepted? = requests
        ∧ (es.filterMap WorkerEvent.answered?).flatten = trades)
    ∧ ∀ es w, Trace Worker.Step ⟨me₀, .waiting⟩ es w →
        es.filterMap WorkerEvent.accepted? = requests →
        w.engine.orderBook.Layout ∧ w.engine.orderBook.Indexed ∧ w.engine.orderBook.Uncrossed
        ∧ ∀ b l, w.engine.orderBook.Filed b l → (w.engine.orderBook.levelAt l).volume =
            w.engine.orderBook.queued (w.engine.orderBook.levelAt l).orders + w.inFlight l := by
  refine ⟨fun me trades => ⟨fun h => h.worker h₀ hfresh, ?_⟩, ?_⟩
  · rintro ⟨es, h, rfl, rfl⟩
    cases MatchingEngine.reached h₀ h hfresh with
    | waiting hrun => exact hrun
    | inside _ _ _ hinside => cases hinside
  · rintro es w h rfl
    have hvisible := (MatchingEngine.reached h₀ h hfresh).visible h₀ hfresh
    exact ⟨hvisible.layout, hvisible.indexed, hvisible.uncrossed, fun _ _ => hvisible.volumes⟩

/-- Three of five have been filled, and the level still shows five. -/
theorem worker_books_fill :
    ∃ es w, Trace Worker.Step ⟨emptyEngine, .waiting⟩ es w
      ∧ es.filterMap WorkerEvent.accepted? = [.new sellFive, .new buyThree]
      ∧ w.engine.orderBook.Uncrossed ∧ (w.engine.orderBook.levelAt 0).volume = 5
      ∧ w.engine.orderBook.queued (w.engine.orderBook.levelAt 0).orders = 2
      ∧ w.inFlight 0 = 3 := by
  obtain ⟨trades, hrun⟩ := MatchingEngine.after_run
    (show (emptyEngine.handleAll 9 [.new sellFive]).isSome = true by decide +kernel)
  obtain ⟨es, hes, haccepted, -⟩ := hrun.worker emptyEngine_initial (by decide)
  set me := emptyEngine.after 9 [.new sellFive] with hme
  have hnext : me.orderBook.nextOrder = 1 := by decide +kernel
  have haccept : Worker.Step ⟨me, .waiting⟩ (.accept (.new buyThree))
      ⟨me.alloc buyThree, .matching me.orderBook.nextOrder []⟩ := .accept rfl (by decide)
  rw [hnext] at haccept
  have hcalls : (me.alloc buyThree).Calls 1 0 :=
    ⟨by decide +kernel, by decide +kernel, by decide +kernel⟩
  have hcall : Worker.Step ⟨me.alloc buyThree, .matching 1 []⟩ .work ⟨me.alloc buyThree, .scanning
      ⟨1, 0, []⟩ ((me.alloc buyThree).orderBook.levelAt 0).orders.head? []⟩ := .call rfl hcalls
  have hhead : ((me.alloc buyThree).orderBook.levelAt 0).orders.head? = some ⟨0, 0⟩ := by
    decide +kernel
  rw [hhead] at hcall
  have htrace := ((hes.next _ haccept).next _ hcall).next _ (.fill rfl (by decide +kernel))
  have haccepted' : (es ++ [WorkerEvent.accept (.new buyThree)] ++ [WorkerEvent.work]
      ++ [WorkerEvent.work]).filterMap WorkerEvent.accepted? = [.new sellFive, .new buyThree] := by
    rw [history_snoc, history_snoc, history_snoc, haccepted]
    rfl
  have hfresh : FreshIDs [.new sellFive, .new buyThree] := by decide
  have hbooks := (worker_books emptyEngine_initial hfresh).2 _ _ htrace haccepted'
  exact ⟨_, _, htrace, haccepted', hbooks.2.2.1, by decide +kernel, by decide +kernel,
    by decide +kernel⟩

end TradingBackend
