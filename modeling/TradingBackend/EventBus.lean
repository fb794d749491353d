import TradingBackend.Effects
import TradingBackend.Fanout

/-!
# The event bus

`EventBus` of `engine/events.go`. `Publish` takes the listeners of the type
under the mutex and starts a goroutine for each of them after that; the
goroutine calls the listener with the event. Listeners may be subscribed and
unsubscribed in the meantime, by other goroutines.

A listener is told of every trade of the engine, once for each time it was
subscribed; but the goroutines run in any order, and there is no order of the
trades in which it could not be told.

A listener is a value that can be called; what it does is left out. The
events are the effects of the engine that go to the bus.
-/

namespace TradingBackend

/-- `EventType` of `engine/events.go`. -/
inductive BusEventType where
  | newTrade
  | orderPlaced
  | orderFilled
  | orderCancelled
  | orderbookChange
deriving DecidableEq

/-- The type of the event, for an effect that goes to the bus. -/
def Effect.busType : Effect → Option BusEventType
  | .orderbookChange _ => some .orderbookChange
  | .newTrade _ => some .newTrade
  | _ => none

def Effect.trade? : Effect → Option Trade
  | .newTrade t => some t
  | _ => none

def Effect.onBus (x : Effect) : Bool := x.busType.isSome

structure EventBus (L : Type) where
  listeners : BusEventType → List L

variable {L : Type}

namespace EventBus

def new : EventBus L := ⟨fun _ => []⟩

def subscribe (eb : EventBus L) (eventType : BusEventType) (listener : L) : EventBus L :=
  ⟨Function.update eb.listeners eventType (eb.listeners eventType ++ [listener])⟩

def unsubscribe (eb : EventBus L) (eventType : BusEventType) : EventBus L :=
  ⟨Function.update eb.listeners eventType []⟩

end EventBus

inductive BusEvent (L : Type) where
  | subscribe (eventType : BusEventType) (listener : L)
  | unsubscribe (eventType : BusEventType)
  | dispatch (x : FanoutEvent L Effect)

namespace BusEvent

def dispatched? : BusEvent L → Option (FanoutEvent L Effect)
  | dispatch x => some x
  | _ => none

def published? (e : BusEvent L) : Option Effect := e.dispatched?.bind FanoutEvent.published?

def Keeps (eventType : BusEventType) : BusEvent L → Prop
  | subscribe eventType' _ => eventType' ≠ eventType
  | unsubscribe eventType' => eventType' ≠ eventType
  | dispatch _ => True

end BusEvent

def tradeCall (d : L × Effect) : Option (L × Trade) := d.2.trade?.map fun t => (d.1, t)

def BusEvent.tradeCall? (e : BusEvent L) : Option (L × Trade) :=
  e.dispatched?.bind fun x => x.called?.bind tradeCall

/-- The bus, and the calls of `Publish` and goroutines that are under way. -/
structure Dispatching (L : Type) where
  bus : EventBus L
  fanout : Fanout L Effect

namespace Dispatching

inductive Step (s : Dispatching L) : BusEvent L → Dispatching L → Prop where
  | subscribe {eventType listener} :
      Step s (.subscribe eventType listener) { s with bus := s.bus.subscribe eventType listener }
  | unsubscribe {eventType} :
      Step s (.unsubscribe eventType) { s with bus := s.bus.unsubscribe eventType }
  | publish {event eventType fanout} (htype : event.busType = some eventType)
      (hstep : s.fanout.Step (.publish event (s.bus.listeners eventType)) fanout) :
      Step s (.dispatch (.publish event (s.bus.listeners eventType))) { s with fanout := fanout }
  | run {x fanout} (hx : x.published? = none) (hstep : s.fanout.Step x fanout) :
      Step s (.dispatch x) { s with fanout := fanout }

/-- The steps that leave the listeners of trades alone. -/
def TradeStep : Dispatching L → BusEvent L → Dispatching L → Prop :=
  Where Step fun _ e => e.Keeps .newTrade

variable {bus : EventBus L} {s s' : Dispatching L} {e : BusEvent L} {es : List (BusEvent L)}

theorem step_keeps (h : s.TradeStep e s') :
    s'.bus.listeners .newTrade = s.bus.listeners .newTrade := by
  obtain ⟨hkeeps, hstep⟩ := h
  cases hstep with
  | subscribe => exact Function.update_of_ne (Ne.symm hkeeps) ..
  | unsubscribe => exact Function.update_of_ne (Ne.symm hkeeps) ..
  | publish | run => rfl

theorem keeps (h : Trace TradeStep s es s') :
    s'.bus.listeners .newTrade = s.bus.listeners .newTrade :=
  h.invariant (P := fun _ s' => s'.bus.listeners .newTrade = s.bus.listeners .newTrade) rfl
    fun hbefore hstep => (step_keeps hstep).trans hbefore

theorem fanout_trace (h : Trace TradeStep s es s') :
    Trace Fanout.Step s.fanout (es.filterMap BusEvent.dispatched?) s'.fanout := by
  induction h with
  | nil => exact .nil
  | snoc _ hstep ih =>
      obtain ⟨-, hstep⟩ := hstep
      rw [history_snoc]
      cases hstep with
      | subscribe | unsubscribe => exact (List.append_nil _).symm ▸ ih
      | publish _ hstep | run _ hstep => exact ih.snoc hstep

/-- The calls with trades that are due when the listeners are told of the
trades. -/
def tradeCalls (listeners : List L) (trades : List Trade) : List (L × Trade) :=
  trades.flatMap fun t => listeners.map fun l => (l, t)

theorem filterMap_tradeCall (listeners : List L) (event : Effect) :
    (listeners.map fun l => (l, event)).filterMap tradeCall =
      tradeCalls listeners event.trade?.toList := by
  cases h : event.trade? with
  | none =>
      refine List.filterMap_eq_nil_iff.mpr fun d hd => ?_
      obtain ⟨l, -, rfl⟩ := List.mem_map.mp hd
      rw [tradeCall, h, Option.map_none]
  | some t =>
      rw [tradeCalls, Option.toList_some, List.flatMap_singleton, List.filterMap_map,
        ← List.filterMap_eq_map]
      refine congrArg (List.filterMap · listeners) (funext fun l => ?_)
      rw [Function.comp_apply, tradeCall, h, Option.map_some]
      rfl

theorem trade?_of_busType {event : Effect} {eventType : BusEventType}
    (htype : event.busType = some eventType) (hne : eventType ≠ .newTrade) :
    event.trade? = none := by
  cases event with
  | newTrade t =>
      cases htype
      exact absurd rfl hne
  | orderbookChange | tradeHandler | wsTrade | wsOrderbook | wsOrderUpdate => rfl

theorem step_due (h : s.TradeStep e s') :
    (e.dispatched?.toList.flatMap FanoutEvent.due).filterMap tradeCall =
      tradeCalls (s.bus.listeners .newTrade) (e.published?.toList.filterMap Effect.trade?) := by
  obtain ⟨-, hstep⟩ := h
  cases hstep with
  | subscribe | unsubscribe => rfl
  | @publish event eventType fanout htype hstep =>
      change (List.flatMap FanoutEvent.due [.publish event (s.bus.listeners eventType)]).filterMap
        tradeCall = tradeCalls _ (List.filterMap Effect.trade? [event])
      have hevent : [event].filterMap Effect.trade? = event.trade?.toList :=
        history_snoc Effect.trade? [] event
      rw [List.flatMap_singleton, FanoutEvent.due, filterMap_tradeCall, hevent]
      by_cases heq : eventType = .newTrade
      · rw [heq]
      · rw [trade?_of_busType htype heq]
        rfl
  | @run x fanout hx hstep =>
      cases x with
      | publish => cases hx
      | spawn | done | call => rfl

theorem due_trades (h : Trace TradeStep s es s') :
    ((es.filterMap BusEvent.dispatched?).flatMap FanoutEvent.due).filterMap tradeCall =
      tradeCalls (s.bus.listeners .newTrade)
        ((es.filterMap BusEvent.published?).filterMap Effect.trade?) := by
  induction h with
  | nil => rfl
  | snoc hbefore hstep ih =>
      rw [history_snoc, history_snoc, List.flatMap_append, List.filterMap_append,
        List.filterMap_append, ih, step_due hstep, keeps hbefore, tradeCalls, tradeCalls,
        tradeCalls, List.flatMap_append]

theorem filterMap_tradeCall? (es : List (BusEvent L)) :
    es.filterMap BusEvent.tradeCall? =
      ((es.filterMap BusEvent.dispatched?).filterMap FanoutEvent.called?).filterMap tradeCall := by
  rw [List.filterMap_filterMap, List.filterMap_filterMap]
  rfl

/-- When nothing is outstanding, the calls with trades are those that were
due. -/
theorem tradeCalls_perm (h : Trace TradeStep ⟨bus, .idle⟩ es s)
    (hidle : s.fanout.outstanding = 0) :
    (es.filterMap BusEvent.tradeCall?).Perm (tradeCalls (bus.listeners .newTrade)
      ((es.filterMap BusEvent.published?).filterMap Effect.trade?)) := by
  have haccount := Fanout.account (fanout_trace h)
  rw [hidle, add_zero, Fanout.outstanding_idle, zero_add] at haccount
  rw [filterMap_tradeCall?, ← due_trades h]
  exact (Multiset.coe_eq_coe.mp haccount).filterMap tradeCall

theorem published?_dispatch (xs : List (FanoutEvent L Effect)) :
    (xs.map BusEvent.dispatch).filterMap BusEvent.published? =
      xs.filterMap FanoutEvent.published? := by
  rw [List.filterMap_map]
  rfl

theorem dispatched?_dispatch (xs : List (FanoutEvent L Effect)) :
    (xs.map BusEvent.dispatch).filterMap BusEvent.dispatched? = xs := by
  rw [List.filterMap_map]
  exact List.filterMap_some

/-- The loops and goroutines run while nobody subscribes or publishes. -/
theorem dispatch_trace (bus : EventBus L) {f f' : Fanout L Effect}
    {xs : List (FanoutEvent L Effect)} (h : Trace Fanout.Step f xs f')
    (hxs : xs.filterMap FanoutEvent.published? = []) :
    Trace TradeStep ⟨bus, f⟩ (xs.map .dispatch) ⟨bus, f'⟩ := by
  induction h with
  | nil => exact .nil
  | @snoc xs f₁ x f₂ _ hstep ih =>
      rw [List.filterMap_append, List.append_eq_nil_iff] at hxs
      have hx := List.filterMap_eq_nil_iff.mp hxs.2 x (List.mem_singleton_self x)
      rw [List.map_append]
      exact (ih hxs.1).snoc ⟨trivial, .run hx hstep⟩

/-- Everything is published before a listener is called: `Publish` has started
all its goroutines when the next one begins. -/
theorem publish_all (bus : EventBus L) {events : List Effect}
    (hbus : ∀ x ∈ events, x.onBus = true) :
    ∃ es f, Trace TradeStep ⟨bus, .idle⟩ es ⟨bus, f⟩ ∧ f.loops = 0
      ∧ es.filterMap BusEvent.published? = events
      ∧ (es.filterMap BusEvent.dispatched?).filterMap FanoutEvent.called? = [] := by
  induction events using List.reverseRecOn with
  | nil => exact ⟨[], .idle, .nil, rfl, rfl, rfl⟩
  | append_singleton events x ih =>
      obtain ⟨hevents, hx⟩ := List.forall_mem_append.mp hbus
      obtain ⟨es, f, hes, -, hpublished, hcalled⟩ := ih hevents
      obtain ⟨eventType, htype⟩ := Option.isSome_iff_exists.mp (hx x (List.mem_singleton_self x))
      have hpublish := hes.next (.dispatch (.publish x (bus.listeners eventType)))
        ⟨trivial, .publish htype .publish⟩
      obtain ⟨xs, f', hxs, hloops, hcalls, hquiet⟩ := Fanout.loops_end
        { f with loops := (x, bus.listeners eventType) ::ₘ f.loops }
      refine ⟨_, f', hpublish.append (dispatch_trace bus hxs hquiet), hloops, ?_, ?_⟩
      · rw [List.filterMap_append, history_snoc, hpublished, published?_dispatch, hquiet,
          List.append_nil]
        rfl
      · rw [List.filterMap_append, history_snoc, List.filterMap_append, List.filterMap_append,
          hcalled, dispatched?_dispatch, hcalls]
        rfl

theorem exists_tradeCalls (bus : EventBus L) (events : List Effect)
    (hbus : ∀ x ∈ events, x.onBus = true) {calls : List (L × Trade)}
    (hcalls : calls.Perm
      (tradeCalls (bus.listeners .newTrade) (events.filterMap Effect.trade?))) :
    ∃ es, Trace TradeStep ⟨bus, .idle⟩ es ⟨bus, .idle⟩
      ∧ es.filterMap BusEvent.published? = events ∧ es.filterMap BusEvent.tradeCall? = calls := by
  obtain ⟨es, f, hes, -, hpublished, hcalled⟩ := publish_all bus hbus
  have hdue := due_trades hes
  have haccount := Fanout.account (fanout_trace hes)
  rw [hcalled, Fanout.outstanding_idle, zero_add, Multiset.coe_nil, zero_add] at haccount
  rw [hpublished] at hdue
  obtain ⟨ds, hds, hfound⟩ := exists_perm_filterMap (hdue.symm ▸ hcalls)
  obtain ⟨xs, hxs, hmade, hquiet⟩ :=
    Fanout.any_order ((Multiset.coe_eq_coe.mpr hds).trans haccount.symm)
  refine ⟨es ++ xs.map .dispatch, hes.append (dispatch_trace bus hxs hquiet), ?_, ?_⟩
  · rw [List.filterMap_append, hpublished, published?_dispatch, hquiet, List.append_nil]
  · rw [filterMap_tradeCall?, List.filterMap_append, List.filterMap_append, hcalled,
      List.nil_append, dispatched?_dispatch, hmade, hfound]

end Dispatching

/-! ## The trades of the engine -/

namespace MatchingEngine

variable {T : Type}

theorem newTrades_idle {effects : List Effect} (h : ∀ x ∈ effects, x.Idle) :
    effects.filterMap Effect.trade? = [] := by
  refine List.filterMap_eq_nil_iff.mpr fun x hx => ?_
  obtain ⟨event, rfl, -⟩ := h x hx
  rfl

theorem newTrades_rested (me : MatchingEngine T) (a : OrderRef) :
    (me.rested a).filterMap Effect.trade? = [] := by
  simp only [rested]
  split_ifs <;> rfl

theorem newTrades_announced (me : MatchingEngine T) (a : OrderRef) (trades : List Trade) :
    (me.announced a trades).filterMap Effect.trade? = trades := by
  have hhandler : (trades.map Effect.tradeHandler).filterMap Effect.trade? = [] := by
    simp [Effect.trade?]
  have hbus : (trades.map Effect.newTrade).filterMap Effect.trade? = trades := by
    rw [List.filterMap_map]
    exact List.filterMap_some
  have hws : (trades.map Effect.wsTrade).filterMap Effect.trade? = [] := by
    simp [Effect.trade?]
  simp only [announced, announcedTrades, List.filterMap_append]
  split_ifs <;> simp [hhandler, hbus, hws, Effect.trade?]

variable [OrderedTree T Decimal LevelRef] {me₀ me me' : MatchingEngine T} {request : Request}
  {requests : List Request} {trades : List Trade}

theorem Told.newTrades (h : Told me me' request trades) :
    me'.effects.filterMap Effect.trade? = me.effects.filterMap Effect.trade? ++ trades := by
  cases h with
  | @entered o trades idle hvalid h hidle heffects =>
      rw [heffects, List.filterMap_append, List.filterMap_append, List.filterMap_append,
        newTrades_idle hidle, newTrades_rested, newTrades_announced, List.append_nil,
        List.append_nil]
  | rejected hvalid h =>
      rw [h, List.append_nil]
      rfl
  | withdrawn he h heffects =>
      rw [heffects, List.filterMap_append]
      rfl
  | notFound hid h => rw [h, List.append_nil]

/-- The engine publishes the trades it makes, in their order. -/
theorem Run.newTrades (h₀ : me₀.Initial) (heffects : me₀.effects = [])
    (h : Run me₀ requests me trades) (hfresh : FreshIDs requests) :
    me.effects.filterMap Effect.trade? = trades := by
  induction h with
  | nil => rw [heffects]; rfl
  | snoc h hstep ih =>
      have htold := handle_told (h.sound h₀ hfresh.of_append) hfresh hstep
      rw [htold.newTrades, ih hfresh.of_append]

end MatchingEngine

/-- When the bus has done what the engine published in a run, its listeners
have been called with every trade of the run, each listener as often as it is
subscribed; and they can have been called in any order at all. -/
theorem trade_listeners_called_iff {T : Type} [OrderedTree T Decimal LevelRef]
    {me₀ me : MatchingEngine T} {requests : List Request} {trades : List Trade}
    (h₀ : me₀.Initial) (heffects : me₀.effects = [])
    (hrun : MatchingEngine.Run me₀ requests me trades) (hfresh : FreshIDs requests)
    (bus : EventBus L) (calls : List (L × Trade)) :
    (∃ es s, Trace (Where Dispatching.Step fun _ e => e.Keeps .newTrade) ⟨bus, .idle⟩ es s
        ∧ es.filterMap BusEvent.published? = me.effects.filter Effect.onBus
        ∧ s.fanout.outstanding = 0 ∧ es.filterMap BusEvent.tradeCall? = calls)
      ↔ calls.Perm (trades.flatMap fun t => (bus.listeners .newTrade).map fun l => (l, t)) := by
  have htrades : (me.effects.filter Effect.onBus).filterMap Effect.trade? = trades := by
    rw [← hrun.newTrades h₀ heffects hfresh, List.filterMap_filter]
    refine List.filterMap_congr fun x _ => ?_
    cases x <;> rfl
  constructor
  · rintro ⟨es, s, h, hpublished, hidle, rfl⟩
    have hperm := Dispatching.tradeCalls_perm h hidle
    rwa [hpublished, htrades] at hperm
  · intro hcalls
    rw [← htrades] at hcalls
    obtain ⟨es, hes, hpublished, hmade⟩ := Dispatching.exists_tradeCalls bus
      (me.effects.filter Effect.onBus) (fun _ hx => (List.mem_filter.mp hx).2) hcalls
    exact ⟨es, ⟨bus, .idle⟩, hes, hpublished, Fanout.outstanding_idle, hmade⟩

/-- Two listeners are told of one trade, the second one first. -/
theorem trade_listeners_called_twice :
    let bus := (EventBus.new.subscribe .newTrade "first").subscribe .newTrade "second"
    ∃ me t, MatchingEngine.Run emptyEngine [.new sellFive, .new buyThree] me [t]
      ∧ ∃ es s, Trace (Where Dispatching.Step fun _ e => e.Keeps .newTrade) ⟨bus, .idle⟩ es s
        ∧ es.filterMap BusEvent.published? = me.effects.filter Effect.onBus
        ∧ s.fanout.outstanding = 0
        ∧ es.filterMap BusEvent.tradeCall? = [("second", t), ("first", t)] := by
  intro bus
  obtain ⟨trades, hrun⟩ := MatchingEngine.after_run
    (show (emptyEngine.handleAll 9 [.new sellFive, .new buyThree]).isSome = true by
      decide +kernel)
  have htrades := hrun.newTrades emptyEngine_initial rfl (by decide)
  have hone : ((emptyEngine.after 9 [.new sellFive, .new buyThree]).effects.filterMap
      Effect.trade?).length = 1 := by decide +kernel
  rw [htrades] at hone
  obtain ⟨t, rfl⟩ := List.length_eq_one_iff.mp hone
  refine ⟨_, t, hrun, ?_⟩
  refine (trade_listeners_called_iff emptyEngine_initial rfl hrun (by decide) bus _).mpr ?_
  exact .swap ..

end TradingBackend
