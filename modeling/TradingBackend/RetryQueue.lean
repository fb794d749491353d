import TradingBackend.EventStore
import TradingBackend.Ledger
import TradingBackend.Goroutines

/-!
# The retry queue

`persistence/retry_queue.go`: `SafeOrderEventStore` writes an event to the
store and, when that fails, hands it to `EventRetryQueue`, whose
processor tries it again. An event that failed waits in the channel
`queue`, or in `failedEvents` when the channel is full or the attempts
are used up, and from there a tick puts it into the channel again.

The steps are what the source does between two points where another
goroutine can come in: a `select` on the channel, a section under `mu`, a
write to the store. The store is a parameter: a write that succeeds is a
step of it, a write may fail at any time and then changes nothing. `Stop`
and `Start` can leave more than one processor, so there are as many as
there are goroutines.

Left out: `LastError` and the `CreatedAt` of an event, which are logged
only. `Order` is a pointer, but the fields that are written of it do not
change. A second `close` of `stopCh` ends the program and is not a step.
-/

namespace TradingBackend

inductive OrderEventType where
  | created
  | filled
  | partiallyFilled
  | cancelled
  | rejected
  | updated
deriving DecidableEq

/-! ## The calls -/

namespace OrderEventStore

/-- `RecordOrderCreated`: the call of the `record_` function. -/
def recordOrderCreated (order : Order) : RecordCall :=
  ⟨order.id, .created order.clientID order.instrument order.side order.type order.price
    order.quantity, order.createdAt⟩

def recordOrderFill (orderID : UUID) (fillQuantity newFilledQuantity : Decimal)
    (newStatus : OrderStatus) (tradeID : Option UUID) (timestamp : Time) : RecordCall :=
  ⟨orderID, .fill fillQuantity newFilledQuantity newStatus tradeID, timestamp⟩

def recordOrderCancelled (orderID : UUID) (reason : Option String) (timestamp : Time) :
    RecordCall :=
  ⟨orderID, .cancelled reason, timestamp⟩

def recordOrderRejected (orderID : UUID) (reason : String) (timestamp : Time) : RecordCall :=
  ⟨orderID, .rejected reason, timestamp⟩

end OrderEventStore

structure QueuedEvent where
  eventType : OrderEventType
  order : Option Order
  orderID : UUID
  fillQuantity : Decimal
  filledQuantity : Decimal
  status : OrderStatus
  tradeID : Option UUID
  reason : Option String
  timestamp : Time
  attempts : Int
deriving DecidableEq

namespace EventRetryQueue

def queueOrderCreated (order : Order) : QueuedEvent :=
  ⟨.created, some order, 0, 0, 0, .unset, none, none, order.createdAt, 1⟩

def queueOrderFill (orderID : UUID) (fillQuantity filledQuantity : Decimal) (status : OrderStatus)
    (tradeID : Option UUID) (timestamp : Time) : QueuedEvent :=
  ⟨if status = .partiallyFilled then .partiallyFilled else .filled, none, orderID,
    fillQuantity, filledQuantity, status, tradeID, none, timestamp, 1⟩

def queueOrderCancelled (orderID : UUID) (reason : Option String) (timestamp : Time) :
    QueuedEvent :=
  ⟨.cancelled, none, orderID, 0, 0, .unset, none, reason, timestamp, 1⟩

def queueOrderRejected (orderID : UUID) (reason : String) (timestamp : Time) : QueuedEvent :=
  ⟨.rejected, none, orderID, 0, 0, .unset, none, some reason, timestamp, 1⟩

end EventRetryQueue

/-- A call of a method of `SafeOrderEventStore`. -/
inductive SafeCall where
  | created (order : Order)
  | fill (orderID : UUID) (fillQuantity filledQuantity : Decimal) (status : OrderStatus)
      (tradeID : Option UUID) (timestamp : Time)
  | cancelled (orderID : UUID) (reason : Option String) (timestamp : Time)
  | rejected (orderID : UUID) (reason : String) (timestamp : Time)
deriving DecidableEq

def SafeCall.record : SafeCall → RecordCall
  | .created order => OrderEventStore.recordOrderCreated order
  | .fill orderID fillQuantity filledQuantity status tradeID timestamp =>
      OrderEventStore.recordOrderFill orderID fillQuantity filledQuantity status tradeID timestamp
  | .cancelled orderID reason timestamp =>
      OrderEventStore.recordOrderCancelled orderID reason timestamp
  | .rejected orderID reason timestamp =>
      OrderEventStore.recordOrderRejected orderID reason timestamp

def SafeCall.queued : SafeCall → QueuedEvent
  | .created order => EventRetryQueue.queueOrderCreated order
  | .fill orderID fillQuantity filledQuantity status tradeID timestamp =>
      EventRetryQueue.queueOrderFill orderID fillQuantity filledQuantity status tradeID timestamp
  | .cancelled orderID reason timestamp =>
      EventRetryQueue.queueOrderCancelled orderID reason timestamp
  | .rejected orderID reason timestamp =>
      EventRetryQueue.queueOrderRejected orderID reason timestamp

/-- The `switch` of `retryEvent`: the call it makes. An event of another
type makes none and counts as persisted; one of type created without an
order would be a nil dereference. -/
def QueuedEvent.retry (event : QueuedEvent) : Option RecordCall :=
  match event.eventType with
  | .created => event.order.map OrderEventStore.recordOrderCreated
  | .filled | .partiallyFilled =>
      some (OrderEventStore.recordOrderFill event.orderID event.fillQuantity event.filledQuantity
        event.status event.tradeID event.timestamp)
  | .cancelled =>
      some (OrderEventStore.recordOrderCancelled event.orderID event.reason event.timestamp)
  | .rejected =>
      some (OrderEventStore.recordOrderRejected event.orderID (event.reason.getD "")
        event.timestamp)
  | .updated => none

theorem SafeCall.retry_queued (c : SafeCall) (attempts : Int) :
    { c.queued with attempts := attempts }.retry = some c.record := by
  cases c with
  | fill orderID fillQuantity filledQuantity status tradeID timestamp =>
      by_cases h : status = .partiallyFilled <;>
        simp [SafeCall.queued, SafeCall.record, EventRetryQueue.queueOrderFill,
          QueuedEvent.retry, h]
  | created | cancelled | rejected => rfl

/-! ## The goroutines -/

abbrev EventID := Nat

/-- Where a goroutine goes on once its event is in the channel or in
`failedEvents`. -/
inductive Cont where
  /-- A `Queue` method returns. -/
  | caller
  /-- `retryEvent` returns to the loop of the processor. -/
  | processor
  /-- The loop of `retryFailedEvents`, with the events still to come. -/
  | retrying (rest : List EventID)
deriving DecidableEq

inductive QueueRole where
  | absent
  /-- A method of `SafeOrderEventStore`, before it writes to the store. -/
  | writing (id : EventID) (c : SafeCall)
  /-- Before a `select` that sends to the channel or else goes on. -/
  | offering (id : EventID) (k : Cont)
  /-- Before the section of `recordFailedEvent`. -/
  | parking (id : EventID) (k : Cont)
  /-- The processor, before its `select`. -/
  | waiting
  /-- `retryEvent`, before it writes to the store. -/
  | attempting (id : EventID)
  /-- The loop of `retryFailedEvents`. -/
  | retrying (rest : List EventID)
  /-- `Start`, after its section. -/
  | starting
  /-- `Stop`, after its section. -/
  | closing
  /-- `Stop`, at `wg.Wait`. -/
  | joining
deriving DecidableEq

def Cont.resume : Cont → QueueRole
  | .caller => .absent
  | .processor => .waiting
  | .retrying rest => .retrying rest

/-- The settings of `NewEventRetryQueue`. -/
structure QueueConfig where
  queueSize : Nat
  maxRetries : Int

/-- `EventRetryQueue` and its goroutines over a store; `events` is what
the pointers of type `*QueuedEvent` point to. -/
structure RetryQueue (σ : Type) where
  store : σ
  queue : List EventID
  failedEvents : List EventID
  events : EventID → Option QueuedEvent
  nextEvent : EventID
  running : Bool
  stopClosed : Bool
  wg : Nat
  roles : GoID → QueueRole

/-- The steps; `id` is the event that is moved. -/
inductive QueueEvent where
  | record (g : GoID) (id : EventID) (c : SafeCall)
  | queueOrder (g : GoID) (id : EventID) (c : SafeCall)
  | written (g : GoID) (id : EventID)
  | writeFailed (g : GoID) (id : EventID)
  | send (g : GoID) (id : EventID) (k : Cont)
  | handOver (g : GoID) (id : EventID) (k : Cont) (p : GoID)
  | full (g : GoID) (id : EventID)
  | recordFailedEvent (g : GoID) (id : EventID) (k : Cont)
  | take (p : GoID) (id : EventID)
  | persisted (p : GoID) (id : EventID)
  | attemptFailed (p : GoID) (id : EventID)
  | retryFailedEvents (p : GoID)
  | reset (p : GoID) (id : EventID)
  | retried (p : GoID)
  | exit (p : GoID)
  | start (g : GoID)
  | spawn (g p : GoID)
  | stop (g : GoID)
  | closeStop (g : GoID)
  | join (g : GoID)

namespace RetryQueue

variable {σ : Type}

def new (store : σ) : RetryQueue σ :=
  ⟨store, [], [], fun _ => none, 0, false, false, 0, fun _ => .absent⟩

def move (s : RetryQueue σ) (g : GoID) (role : QueueRole) : RetryQueue σ :=
  { s with roles := Function.update s.roles g role }

/-- Write the event that a pointer points to. -/
def setEvent (s : RetryQueue σ) (id : EventID) (event : QueuedEvent) : RetryQueue σ :=
  { s with events := Function.update s.events id (some event) }

/-- The goroutine after a failed attempt: `Attempts` is not below
`maxRetries`, or the event is to be queued again. -/
def afterFailure (cfg : QueueConfig) (id : EventID) (event : QueuedEvent) : QueueRole :=
  if event.attempts ≥ cfg.maxRetries then .parking id .processor else .offering id .processor

inductive Step (cfg : QueueConfig) (record : σ → RecordCall → Option σ) (s : RetryQueue σ) :
    QueueEvent → RetryQueue σ → Prop where
  -- the methods of `SafeOrderEventStore` and the `Queue` methods
  | record {g c} (h : s.roles g = .absent) :
      Step cfg record s (.record g s.nextEvent c)
        { s.move g (.writing s.nextEvent c) with nextEvent := s.nextEvent + 1 }
  | queueOrder {g c} (h : s.roles g = .absent) :
      Step cfg record s (.queueOrder g s.nextEvent c)
        { (s.setEvent s.nextEvent c.queued).move g (.offering s.nextEvent .caller) with
          nextEvent := s.nextEvent + 1 }
  | written {g id c store'} (h : s.roles g = .writing id c)
      (hstore : record s.store c.record = some store') :
      Step cfg record s (.written g id) { s.move g .absent with store := store' }
  | writeFailed {g id c} (h : s.roles g = .writing id c) :
      Step cfg record s (.writeFailed g id)
        ((s.setEvent id c.queued).move g (.offering id .caller))
  -- `case eq.queue <- event`, into the buffer or to a processor at its `select`
  | send {g id k} (h : s.roles g = .offering id k) (hroom : s.queue.length < cfg.queueSize) :
      Step cfg record s (.send g id k) { s.move g k.resume with queue := s.queue ++ [id] }
  | handOver {g id k p} (h : s.roles g = .offering id k) (hp : s.roles p = .waiting)
      (hempty : s.queue = []) :
      Step cfg record s (.handOver g id k p) ((s.move g k.resume).move p (.attempting id))
  | full {g id k} (h : s.roles g = .offering id k) (hfull : cfg.queueSize ≤ s.queue.length) :
      Step cfg record s (.full g id) (s.move g (.parking id k))
  | recordFailedEvent {g id k} (h : s.roles g = .parking id k) :
      Step cfg record s (.recordFailedEvent g id k)
        { s.move g k.resume with failedEvents := s.failedEvents ++ [id] }
  -- the processor
  | take {p id rest} (h : s.roles p = .waiting) (hqueue : s.queue = id :: rest) :
      Step cfg record s (.take p id) { s.move p (.attempting id) with queue := rest }
  | persisted {p id event c store'} (h : s.roles p = .attempting id)
      (hevent : s.events id = some event) (hc : event.retry = some c)
      (hstore : record s.store c = some store') :
      Step cfg record s (.persisted p id) { s.move p .waiting with store := store' }
  | attemptFailed {p id event} (h : s.roles p = .attempting id)
      (hevent : s.events id = some event) :
      Step cfg record s (.attemptFailed p id)
        ((s.setEvent id { event with attempts := event.attempts + 1 }).move p
          (afterFailure cfg id { event with attempts := event.attempts + 1 }))
  | retryFailedEvents {p} (h : s.roles p = .waiting) :
      Step cfg record s (.retryFailedEvents p)
        { s.move p (.retrying s.failedEvents) with failedEvents := [] }
  | reset {p id rest event} (h : s.roles p = .retrying (id :: rest))
      (hevent : s.events id = some event) :
      Step cfg record s (.reset p id)
        ((s.setEvent id { event with attempts := 0 }).move p (.offering id (.retrying rest)))
  | retried {p} (h : s.roles p = .retrying []) : Step cfg record s (.retried p) (s.move p .waiting)
  | exit {p} (h : s.roles p = .waiting) (hstop : s.stopClosed = true) :
      Step cfg record s (.exit p) { s.move p .absent with wg := s.wg - 1 }
  -- `Start` and `Stop`, which do nothing when there is nothing to do
  | start {g} (h : s.roles g = .absent) (hrun : s.running = false) :
      Step cfg record s (.start g) { s.move g .starting with running := true }
  | spawn {g p} (h : s.roles g = .starting) (hp : s.roles p = .absent) :
      Step cfg record s (.spawn g p)
        { (s.move g .absent).move p .waiting with wg := s.wg + 1 }
  | stop {g} (h : s.roles g = .absent) (hrun : s.running = true) :
      Step cfg record s (.stop g) { s.move g .closing with running := false }
  | closeStop {g} (h : s.roles g = .closing) (hstop : s.stopClosed = false) :
      Step cfg record s (.closeStop g) { s.move g .joining with stopClosed := true }
  | join {g} (h : s.roles g = .joining) (hwg : s.wg = 0) :
      Step cfg record s (.join g) (s.move g .absent)

end RetryQueue

/-! ## Where the events are -/

def QueueRole.callerHand : QueueRole → List EventID
  | .writing id _ => [id]
  | .offering id .caller => [id]
  | .parking id .caller => [id]
  | _ => []

def QueueRole.processorHand : QueueRole → List EventID
  | .offering id .processor => [id]
  | .offering id (.retrying rest) => id :: rest
  | .parking id .processor => [id]
  | .parking id (.retrying rest) => id :: rest
  | .attempting id => [id]
  | .retrying rest => rest
  | _ => []

inductive EventPlace where
  | persisted
  | queue
  | failedEvents
  | processor (g : GoID)
  | caller (g : GoID)
deriving DecidableEq

/-- The hand of a goroutine that is to go on at `k`. -/
def Cont.place (g : GoID) : Cont → EventPlace
  | .caller => .caller g
  | _ => .processor g

/-- How far an event is: issued and in the hand of its caller, accepted by
the queue, or persisted. -/
inductive EventStage where
  | unborn
  | issued
  | accepted
  | persisted
deriving DecidableEq

def EventPlace.stage : Option EventPlace → EventStage
  | none => .unborn
  | some (.caller _) => .issued
  | some .persisted => .persisted
  | some _ => .accepted

namespace QueueEvent

/-- The stage that an event leaves and the one it enters. -/
def change : QueueEvent → Option (EventID × EventStage × EventStage)
  | .record _ id _ => some (id, .unborn, .issued)
  | .queueOrder _ id _ => some (id, .unborn, .issued)
  | .written _ id => some (id, .issued, .persisted)
  | .send _ id .caller => some (id, .issued, .accepted)
  | .handOver _ id .caller _ => some (id, .issued, .accepted)
  | .recordFailedEvent _ id .caller => some (id, .issued, .accepted)
  | .persisted _ id => some (id, .accepted, .persisted)
  | _ => none

def persisted? : QueueEvent → Option EventID
  | .written _ id => some id
  | .persisted _ id => some id
  | _ => none

/-- The event that a `Queue` method leaves to the queue. -/
def accepted? : QueueEvent → Option EventID
  | .send _ id .caller => some id
  | .handOver _ id .caller _ => some id
  | .recordFailedEvent _ id .caller => some id
  | _ => none

def issued? : QueueEvent → Option SafeCall
  | .record _ _ c => some c
  | .queueOrder _ _ c => some c
  | _ => none

end QueueEvent

/-- The abstract machine: an event goes through the stages one after
another, and the other events stay where they are. -/
def StageStep (stage : EventID → EventStage) (e : QueueEvent) (stage' : EventID → EventStage) :
    Prop :=
  match e.change with
  | none => stage' = stage
  | some (id, before, after) => stage id = before ∧ stage' = Function.update stage id after

namespace RetryQueue

variable {σ : Type}

def contents (persisted : List EventID) (s : RetryQueue σ) : EventPlace → List EventID
  | .persisted => persisted
  | .queue => s.queue
  | .failedEvents => s.failedEvents
  | .processor g => (s.roles g).processorHand
  | .caller g => (s.roles g).callerHand

end RetryQueue

/-! ### What a step does to the hands -/

/-- Both hands hold what they held. -/
structure QueueRole.Keeps (role role' : QueueRole) : Prop where
  caller : role'.callerHand = role.callerHand
  processor : role'.processorHand = role.processorHand

/-- One hand of goroutine `g` gives up its first event. -/
inductive QueueRole.GivesUp (g : GoID) (role role' : QueueRole) (id : EventID) :
    EventPlace → Prop where
  | caller (hcaller : role.callerHand = id :: role'.callerHand)
      (hprocessor : role'.processorHand = role.processorHand) : GivesUp g role role' id (.caller g)
  | processor (hprocessor : role.processorHand = id :: role'.processorHand)
      (hcaller : role'.callerHand = role.callerHand) : GivesUp g role role' id (.processor g)

theorem Cont.offering_givesUp (g : GoID) (id : EventID) (k : Cont) :
    QueueRole.GivesUp g (.offering id k) k.resume id (k.place g) := by
  cases k <;> constructor <;> rfl

theorem Cont.parking_givesUp (g : GoID) (id : EventID) (k : Cont) :
    QueueRole.GivesUp g (.parking id k) k.resume id (k.place g) := by
  cases k <;> constructor <;> rfl

theorem Cont.full_keeps (id : EventID) (k : Cont) :
    QueueRole.Keeps (.offering id k) (.parking id k) := by
  cases k <;> exact ⟨rfl, rfl⟩

namespace RetryQueue

variable {σ : Type} {cfg : QueueConfig} {record : σ → RecordCall → Option σ} {s s' : RetryQueue σ}
  {P : List EventID} {place : EventID → Option EventPlace} {g : GoID} {id : EventID}
  {role : QueueRole} {contents' : EventPlace → List EventID}

/-- A goroutine at another role stays there while `g` goes on. -/
theorem roles_other {p : GoID} {role₀ role₁ : QueueRole} (role : QueueRole) (hg : s.roles g = role₀)
    (hp : s.roles p = role₁) (hne : role₁ ≠ role₀) : p ≠ g ∧ (s.move g role).roles p = role₁ := by
  have hpg : p ≠ g := by
    rintro rfl
    exact hne (hp.symm.trans hg)
  exact ⟨hpg, (Function.update_of_ne hpg ..).trans hp⟩

theorem contents_move (r : EventPlace) :
    (s.move g role).contents P r =
      if r = .caller g then role.callerHand
      else if r = .processor g then role.processorHand else s.contents P r := by
  cases r with
  | persisted | queue | failedEvents => rfl
  | processor g' =>
      by_cases hg : g' = g <;> simp [contents, move, hg]
  | caller g' =>
      by_cases hg : g' = g <;> simp [contents, move, hg]

/-- What has been reported persisted is read at one place only. -/
theorem contents_of_ne_persisted {P' : List EventID} {r : EventPlace} (hr : r ≠ .persisted) :
    s.contents P' r = s.contents P r := by
  cases r with
  | persisted => exact absurd rfl hr
  | queue | failedEvents | processor | caller => rfl

theorem contents_keeps (hg : QueueRole.Keeps (s.roles g) role) (r : EventPlace) :
    (s.move g role).contents P r = s.contents P r := by
  rw [contents_move]
  split
  · rename_i hr
    rw [hr]
    exact hg.caller
  · split
    · rename_i hr
      rw [hr]
      exact hg.processor
    · rfl

/-- A goroutine gives an event up, and it comes to the end of a place. -/
theorem placed_give {p q : EventPlace} (h : Placed (s.contents P) place)
    (hg : QueueRole.GivesUp g (s.roles g) role id p) (hcaller : q ≠ .caller g)
    (hprocessor : q ≠ .processor g) (hput : contents' q = s.contents P q ++ [id])
    (hrest : ∀ r, r ≠ q → contents' r = (s.move g role).contents P r) :
    place id = some p ∧ Placed contents' (Function.update place id (some q)) := by
  have hput' : (contents' q).Perm (id :: s.contents P q) := by
    rw [hput]
    exact List.perm_append_singleton ..
  cases hg with
  | caller hhand hother =>
      have htake : s.contents P (.caller g) = id :: contents' (.caller g) := by
        rw [hrest _ (Ne.symm hcaller), contents_move, if_pos rfl]
        exact hhand
      have hmem : id ∈ s.contents P (.caller g) := htake ▸ List.mem_cons_self
      refine ⟨(h.mem_iff _ _).mp hmem,
        h.move (Ne.symm hcaller) (htake ▸ List.Perm.refl _) hput' ?_⟩
      intro r hrp hrq
      rw [hrest r hrq, contents_move, if_neg hrp]
      split
      · rename_i hr
        rw [hr]
        exact hother
      · rfl
  | processor hhand hother =>
      have htake : s.contents P (.processor g) = id :: contents' (.processor g) := by
        rw [hrest _ (Ne.symm hprocessor), contents_move, if_neg nofun, if_pos rfl]
        exact hhand
      have hmem : id ∈ s.contents P (.processor g) := htake ▸ List.mem_cons_self
      refine ⟨(h.mem_iff _ _).mp hmem,
        h.move (Ne.symm hprocessor) (htake ▸ List.Perm.refl _) hput' ?_⟩
      intro r hrp hrq
      rw [hrest r hrq, contents_move]
      split
      · rename_i hr
        rw [hr]
        exact hother
      · rfl

theorem placed_issue (h : Placed (s.contents P) place) (hid : place id = none)
    (hg : s.roles g = .absent) (hcaller : role.callerHand = [id])
    (hprocessor : role.processorHand = []) :
    Placed ((s.move g role).contents P) (Function.update place id (some (.caller g))) := by
  apply h.enter hid
  · rw [contents_move, if_pos rfl, hcaller]
    simp [contents, hg, QueueRole.callerHand]
  · intro r hr
    rw [contents_move, if_neg hr]
    split
    · rename_i hr'
      rw [hr', hprocessor]
      simp [contents, hg, QueueRole.processorHand]
    · rfl

theorem placed_take {rest : List EventID} (h : Placed (s.contents P) place)
    (hg : s.roles g = .waiting) (hqueue : s.queue = id :: rest) :
    place id = some .queue
      ∧ Placed (({ s.move g (.attempting id) with queue := rest } : RetryQueue σ).contents P)
          (Function.update place id (some (.processor g))) := by
  have hmem : id ∈ s.contents P .queue := by
    show id ∈ s.queue
    rw [hqueue]
    exact List.mem_cons_self
  refine ⟨(h.mem_iff _ _).mp hmem, h.move (p := .queue) nofun ?_ ?_ ?_⟩
  · show s.queue.Perm (id :: rest)
    rw [hqueue]
  · simp [contents, move, hg, QueueRole.processorHand]
  · intro r hrp hrq
    cases r with
    | persisted | failedEvents => rfl
    | queue => exact absurd rfl hrp
    | processor g' =>
        have hne : g' ≠ g := fun heq => hrq (heq ▸ rfl)
        simp [contents, move, hne]
    | caller g' =>
        by_cases heq : g' = g <;> simp [contents, move, heq, hg, QueueRole.callerHand]

theorem placed_retryFailedEvents (h : Placed (s.contents P) place) (hg : s.roles g = .waiting) :
    Placed (({ s.move g (.retrying s.failedEvents) with failedEvents := [] } :
        RetryQueue σ).contents P)
      fun x => if place x = some .failedEvents then some (.processor g) else place x := by
  apply h.moveAll (p := .failedEvents) (q := .processor g) nofun
  · simp [contents, hg, QueueRole.processorHand]
  · rfl
  · simp [contents, move, QueueRole.processorHand]
  · intro r hrp hrq
    cases r with
    | persisted | queue => rfl
    | failedEvents => exact absurd rfl hrp
    | processor g' =>
        have hne : g' ≠ g := fun heq => hrq (heq ▸ rfl)
        simp [contents, move, hne]
    | caller g' =>
        by_cases heq : g' = g <;> simp [contents, move, heq, hg, QueueRole.callerHand]

/-! ### The stages -/

theorem stage_update (q : EventPlace) :
    (fun x => EventPlace.stage (Function.update place id (some q) x))
      = Function.update (fun x => EventPlace.stage (place x)) id (EventPlace.stage (some q)) := by
  funext x
  by_cases hx : x = id
  · subst hx
    simp
  · simp [hx]

theorem stage_same {q : EventPlace} (h : EventPlace.stage (place id) = EventPlace.stage (some q)) :
    (fun x => EventPlace.stage (Function.update place id (some q) x))
      = fun x => EventPlace.stage (place x) := by
  rw [stage_update, ← h]
  exact Function.update_eq_self id fun x => EventPlace.stage (place x)

def Fresh (s : RetryQueue σ) (place : EventID → Option EventPlace) : Prop :=
  ∀ id, s.nextEvent ≤ id ↔ place id = none

theorem Fresh.update {p q : EventPlace} (h : s.Fresh place) (hid : place id = some p)
    (hnext : s'.nextEvent = s.nextEvent) : s'.Fresh (Function.update place id (some q)) := by
  intro x
  rw [hnext, h x]
  by_cases hx : x = id
  · subst hx
    simp [hid]
  · rw [Function.update_of_ne hx]

theorem Fresh.enter {q : EventPlace} (h : s.Fresh place) (hnext : s'.nextEvent = s.nextEvent + 1) :
    s'.Fresh (Function.update place s.nextEvent (some q)) := by
  intro x
  rw [hnext]
  by_cases hx : x = s.nextEvent
  · subst hx
    simp
  · rw [Function.update_of_ne hx, ← h x]
    exact ⟨Nat.le_of_succ_le, fun hle => Nat.lt_of_le_of_ne hle (Ne.symm hx)⟩

/-- Every step keeps each event in one place, and moves at most one of
them on to its next stage. -/
def Advances (P : List EventID) (place : EventID → Option EventPlace) (e : QueueEvent)
    (s' : RetryQueue σ) : Prop :=
  ∃ place', Placed (s'.contents (P ++ e.persisted?.toList)) place' ∧ s'.Fresh place'
    ∧ StageStep (fun x => EventPlace.stage (place x)) e (fun x => EventPlace.stage (place' x))

theorem advances_same {e : QueueEvent} (h : Placed (s.contents P) place) (hfresh : s.Fresh place)
    (he : e.persisted? = none) (hchange : e.change = none)
    (hsame : ∀ r, s'.contents P r = s.contents P r) (hnext : s'.nextEvent = s.nextEvent) :
    Advances P place e s' := by
  refine ⟨place, ?_, ?_, ?_⟩
  · rw [he, Option.toList_none, List.append_nil]
    exact h.congr hsame
  · intro x
    rw [hnext]
    exact hfresh x
  · unfold StageStep
    rw [hchange]

theorem advances_move {e : QueueEvent} {p q : EventPlace} (hfresh : s.Fresh place)
    (hid : place id = some p)
    (hplaced : Placed (s'.contents (P ++ e.persisted?.toList)) (Function.update place id (some q)))
    (hchange : e.change = some (id, EventPlace.stage (some p), EventPlace.stage (some q))
      ∨ e.change = none ∧ EventPlace.stage (some p) = EventPlace.stage (some q))
    (hnext : s'.nextEvent = s.nextEvent) : Advances P place e s' := by
  refine ⟨_, hplaced, hfresh.update hid hnext, ?_⟩
  unfold StageStep
  rcases hchange with hchange | ⟨hchange, hstage⟩
  · rw [hchange]
    exact ⟨congrArg EventPlace.stage hid, stage_update q⟩
  · rw [hchange]
    exact stage_same (by rw [hid, hstage])

theorem advances_issue {e : QueueEvent} (h : Placed (s.contents P) place)
    (hfresh : s.Fresh place) (hg : s.roles g = .absent) (hcaller : role.callerHand = [s.nextEvent])
    (hprocessor : role.processorHand = []) (he : e.persisted? = none)
    (hchange : e.change = some (s.nextEvent, .unborn, .issued))
    (hsame : ∀ r, s'.contents P r = (s.move g role).contents P r)
    (hnext : s'.nextEvent = s.nextEvent + 1) : Advances P place e s' := by
  have hid : place s.nextEvent = none := (hfresh s.nextEvent).mp le_rfl
  refine ⟨_, ?_, hfresh.enter (q := .caller g) hnext, ?_⟩
  · rw [he, Option.toList_none, List.append_nil]
    exact (placed_issue h hid hg hcaller hprocessor).congr hsame
  · unfold StageStep
    rw [hchange]
    exact ⟨congrArg EventPlace.stage hid, stage_update _⟩

theorem advances_give {e : QueueEvent} {P' : List EventID} (role : QueueRole) {role₀ : QueueRole}
    (p q : EventPlace) (h : Placed (s.contents P) place) (hfresh : s.Fresh place)
    (hg : s.roles g = role₀) (hgives : QueueRole.GivesUp g role₀ role id p)
    (hcaller : q ≠ .caller g) (hprocessor : q ≠ .processor g)
    (hP : P ++ e.persisted?.toList = P') (hput : s'.contents P' q = s.contents P q ++ [id])
    (hrest : ∀ r, r ≠ q → s'.contents P' r = (s.move g role).contents P r)
    (hchange : e.change = some (id, EventPlace.stage (some p), EventPlace.stage (some q))
      ∨ e.change = none ∧ EventPlace.stage (some p) = EventPlace.stage (some q))
    (hnext : s'.nextEvent = s.nextEvent) : Advances P place e s' := by
  obtain ⟨hid, hplaced⟩ := placed_give h (hg ▸ hgives) hcaller hprocessor hput hrest
  exact advances_move hfresh hid (hP ▸ hplaced) hchange hnext

theorem advances_keeps {e : QueueEvent} (role : QueueRole) {role₀ : QueueRole}
    (h : Placed (s.contents P) place) (hfresh : s.Fresh place) (hg : s.roles g = role₀)
    (hkeeps : role₀.Keeps role) (he : e.persisted? = none) (hchange : e.change = none)
    (hsame : ∀ r, s'.contents P r = (s.move g role).contents P r)
    (hnext : s'.nextEvent = s.nextEvent) : Advances P place e s' :=
  advances_same h hfresh he hchange
    (fun r => (hsame r).trans (contents_keeps (hg ▸ hkeeps) r)) hnext

theorem afterFailure_keeps (event : QueuedEvent) :
    QueueRole.Keeps (.attempting id) (afterFailure cfg id event) := by
  unfold afterFailure
  split <;> exact ⟨rfl, rfl⟩

theorem Step.placed {e : QueueEvent} (hstep : Step cfg record s e s')
    (h : Placed (s.contents P) place) (hfresh : s.Fresh place) : Advances P place e s' := by
  cases hstep with
  | record hg => exact advances_issue h hfresh hg rfl rfl rfl rfl (fun _ => rfl) rfl
  | queueOrder hg => exact advances_issue h hfresh hg rfl rfl rfl rfl (fun _ => rfl) rfl
  | @written g _ _ _ hg hstore =>
      exact advances_give .absent (.caller g) .persisted h hfresh hg (.caller rfl rfl) nofun nofun
        rfl rfl (fun _ => contents_of_ne_persisted) (.inl rfl) rfl
  | @writeFailed _ id _ hg =>
      exact advances_keeps (.offering id .caller) h hfresh hg ⟨rfl, rfl⟩ rfl rfl (fun _ => rfl) rfl
  | @send g id k hg hroom =>
      refine advances_give k.resume (k.place g) .queue h hfresh hg (k.offering_givesUp g id)
        (by nofun) (by nofun) (List.append_nil P) rfl ?_ ?_ rfl
      · intro r hr
        cases r with
        | queue => exact absurd rfl hr
        | persisted | failedEvents | processor | caller => rfl
      · cases k with
        | caller => exact .inl rfl
        | processor | retrying => exact .inr ⟨rfl, rfl⟩
  | @handOver g id k p hg hp hempty =>
      obtain ⟨hne, -⟩ := roles_other k.resume hg hp nofun
      refine advances_give k.resume (k.place g) (.processor p) h hfresh hg
        (k.offering_givesUp g id) nofun (fun heq => hne (EventPlace.processor.inj heq))
        (List.append_nil P) ?_ ?_ ?_ rfl
      · simp [contents, move, hp, QueueRole.processorHand]
      · intro r hr
        rw [contents_move, if_neg hr]
        split
        · rename_i hcaller
          rw [hcaller]
          simp [contents, move, hne, hp, QueueRole.callerHand]
        · rfl
      · cases k with
        | caller => exact .inl rfl
        | processor | retrying => exact .inr ⟨rfl, rfl⟩
  | @full _ id k hg hfull =>
      exact advances_keeps (.parking id k) h hfresh hg (k.full_keeps id) rfl rfl (fun _ => rfl) rfl
  | @recordFailedEvent g id k hg =>
      refine advances_give k.resume (k.place g) .failedEvents h hfresh hg (k.parking_givesUp g id)
        (by nofun) (by nofun) (List.append_nil P) rfl ?_ ?_ rfl
      · intro r hr
        cases r with
        | failedEvents => exact absurd rfl hr
        | persisted | queue | processor | caller => rfl
      · cases k with
        | caller => exact .inl rfl
        | processor | retrying => exact .inr ⟨rfl, rfl⟩
  | @take p _ _ hg hqueue =>
      obtain ⟨hid, hplaced⟩ := placed_take h hg hqueue
      exact advances_move (q := .processor p) hfresh hid ((List.append_nil P).symm ▸ hplaced)
        (.inr ⟨rfl, rfl⟩) rfl
  | @persisted p _ _ _ _ hg hevent hc hstore =>
      exact advances_give .waiting (.processor p) .persisted h hfresh hg (.processor rfl rfl)
        nofun nofun rfl rfl (fun _ => contents_of_ne_persisted) (.inl rfl) rfl
  | attemptFailed hg hevent =>
      exact advances_keeps _ h hfresh hg (afterFailure_keeps _) rfl rfl (fun _ => rfl) rfl
  | retryFailedEvents hg =>
      refine ⟨_, (List.append_nil P).symm ▸ placed_retryFailedEvents h hg, ?_, ?_⟩
      · intro x
        show s.nextEvent ≤ x ↔ (if place x = some .failedEvents then _ else place x) = none
        rw [hfresh x]
        split <;> simp [*]
      · funext x
        show EventPlace.stage (if place x = some .failedEvents then _ else place x) = _
        split
        · rename_i hx
          rw [hx]
          rfl
        · rfl
  | @reset _ id rest _ hg hevent =>
      exact advances_keeps (.offering id (.retrying rest)) h hfresh hg ⟨rfl, rfl⟩ rfl rfl
        (fun _ => rfl) rfl
  | retried hg => exact advances_keeps .waiting h hfresh hg ⟨rfl, rfl⟩ rfl rfl (fun _ => rfl) rfl
  | exit hg hstop =>
      exact advances_keeps .absent h hfresh hg ⟨rfl, rfl⟩ rfl rfl (fun _ => rfl) rfl
  | start hg hrun =>
      exact advances_keeps .starting h hfresh hg ⟨rfl, rfl⟩ rfl rfl (fun _ => rfl) rfl
  | @spawn g p hg hp =>
      obtain ⟨-, habsent⟩ := roles_other .absent hg hp nofun
      have hg' : QueueRole.Keeps (s.roles g) .absent := by
        rw [hg]
        exact ⟨rfl, rfl⟩
      have hp' : QueueRole.Keeps ((s.move g .absent).roles p) .waiting := by
        rw [habsent]
        exact ⟨rfl, rfl⟩
      exact advances_same h hfresh rfl rfl
        (fun r => (contents_keeps hp' r).trans (contents_keeps hg' r)) rfl
  | stop hg hrun => exact advances_keeps .closing h hfresh hg ⟨rfl, rfl⟩ rfl rfl (fun _ => rfl) rfl
  | closeStop hg hstop =>
      exact advances_keeps .joining h hfresh hg ⟨rfl, rfl⟩ rfl rfl (fun _ => rfl) rfl
  | join hg hwg => exact advances_keeps .absent h hfresh hg ⟨rfl, rfl⟩ rfl rfl (fun _ => rfl) rfl

end RetryQueue

/-! ## Whole runs -/

theorem QueueEvent.change_cases {e : QueueEvent} {id : EventID} {before after : EventStage}
    (h : e.change = some (id, before, after)) :
    before = .unborn ∧ after = .issued ∨ before = .issued ∧ after = .persisted
      ∨ before = .issued ∧ after = .accepted ∨ before = .accepted ∧ after = .persisted := by
  cases e with
  | record | queueOrder | written | persisted => simp_all [QueueEvent.change]
  | send g id k => cases k <;> simp_all [QueueEvent.change]
  | handOver g id k p => cases k <;> simp_all [QueueEvent.change]
  | recordFailedEvent g id k => cases k <;> simp_all [QueueEvent.change]
  | writeFailed | full | take | attemptFailed | retryFailedEvents | reset | retried | exit | start
  | spawn | stop | closeStop | join => cases h

theorem QueueEvent.change_of_accepted {e : QueueEvent} {id : EventID} (h : e.accepted? = some id) :
    e.change = some (id, .issued, .accepted) := by
  cases e with
  | send g id k => cases k <;> simp_all [QueueEvent.change, QueueEvent.accepted?]
  | handOver g id k p => cases k <;> simp_all [QueueEvent.change, QueueEvent.accepted?]
  | recordFailedEvent g id k => cases k <;> simp_all [QueueEvent.change, QueueEvent.accepted?]
  | record | queueOrder | written | persisted | writeFailed | full | take | attemptFailed
  | retryFailedEvents | reset | retried | exit | start | spawn | stop | closeStop | join => cases h

/-- The queue is responsible for the event, or has done its work. -/
def EventStage.Kept (stage : EventStage) : Prop := stage = .accepted ∨ stage = .persisted

/-- What is accepted stays accepted or is persisted. -/
theorem StageStep.kept {stage stage' : EventID → EventStage} {e : QueueEvent} {id : EventID}
    (h : StageStep stage e stage') (hkept : (stage id).Kept) : (stage' id).Kept := by
  unfold StageStep at h
  cases hchange : e.change with
  | none =>
      rw [hchange] at h
      rw [h]
      exact hkept
  | some change =>
      obtain ⟨moved, before, after⟩ := change
      rw [hchange] at h
      obtain ⟨hbefore, rfl⟩ := h
      by_cases hid : id = moved
      · subst hid
        rw [hbefore] at hkept
        rw [Function.update_self]
        rcases QueueEvent.change_cases hchange with
          ⟨rfl, rfl⟩ | ⟨rfl, rfl⟩ | ⟨rfl, rfl⟩ | ⟨rfl, rfl⟩
        · rcases hkept with hkept | hkept <;> cases hkept
        · exact .inr rfl
        · exact .inl rfl
        · exact .inr rfl
      · rw [Function.update_of_ne hid]
        exact hkept

theorem StageStep.accepted {stage stage' : EventID → EventStage} {e : QueueEvent} {id : EventID}
    (h : StageStep stage e stage') (hid : e.accepted? = some id) : (stage' id).Kept := by
  unfold StageStep at h
  rw [QueueEvent.change_of_accepted hid] at h
  rw [h.2, Function.update_self]
  exact .inl rfl

namespace RetryQueue

variable {σ : Type} {cfg : QueueConfig} {record : σ → RecordCall → Option σ} {s : RetryQueue σ}
  {store : σ} {es : List QueueEvent}

/-- In every state each event is in one place, and the queue keeps those
it has accepted. -/
theorem placed (h : Trace (Step cfg record) (new store) es s) :
    ∃ place, Placed (s.contents (es.filterMap QueueEvent.persisted?)) place ∧ s.Fresh place
      ∧ ∀ id ∈ es.filterMap QueueEvent.accepted?, (EventPlace.stage (place id)).Kept := by
  refine h.invariant (P := fun es s => ∃ place,
    Placed (s.contents (es.filterMap QueueEvent.persisted?)) place ∧ s.Fresh place
      ∧ ∀ id ∈ es.filterMap QueueEvent.accepted?, (EventPlace.stage (place id)).Kept) ?_ ?_
  · refine ⟨fun _ => none, Placed.empty ?_, ?_, List.forall_mem_nil _⟩
    · intro p
      cases p <;> rfl
    · intro id
      simp [new]
  · rintro es s e s' ⟨place, hplaced, hfresh, hkept⟩ hstep
    obtain ⟨place', hplaced', hfresh', hstage⟩ := hstep.placed hplaced hfresh
    refine ⟨place', ?_, hfresh', ?_⟩
    · rw [history_snoc]
      exact hplaced'
    · intro id hid
      rw [history_snoc] at hid
      rcases List.mem_append.mp hid with hid | hid
      · exact hstage.kept (hkept id hid)
      · exact hstage.accepted (Option.mem_toList.mp hid)

end RetryQueue

/-- At every state of every run each event that was issued is in one place
and there once, and an event that the queue has accepted is persisted, in
the channel, in `failedEvents` or in the hand of a processor. -/
theorem retry_queue_conserves {σ : Type} {cfg : QueueConfig} {record : σ → RecordCall → Option σ}
    {store : σ} {es : List QueueEvent} {s : RetryQueue σ}
    (h : Trace (RetryQueue.Step cfg record) (RetryQueue.new store) es s) :
    (∀ id < s.nextEvent, ∃ p,
        (s.contents (es.filterMap QueueEvent.persisted?) p).count id = 1
          ∧ ∀ q, id ∈ s.contents (es.filterMap QueueEvent.persisted?) q → q = p)
      ∧ ∀ id ∈ es.filterMap QueueEvent.accepted?, ∃ p, (∀ g, p ≠ .caller g)
          ∧ (s.contents (es.filterMap QueueEvent.persisted?) p).count id = 1
          ∧ ∀ q, id ∈ s.contents (es.filterMap QueueEvent.persisted?) q → q = p := by
  obtain ⟨place, hplaced, hfresh, hkept⟩ := RetryQueue.placed h
  have hone : ∀ id p, place id = some p →
      (s.contents (es.filterMap QueueEvent.persisted?) p).count id = 1
        ∧ ∀ q, id ∈ s.contents (es.filterMap QueueEvent.persisted?) q → q = p := by
    intro id p hid
    have hmem := (hplaced.mem_iff p id).mpr hid
    exact ⟨List.count_eq_one_of_mem (hplaced.nodup p) hmem,
      fun q hq => hplaced.eq_of_mem hq hmem⟩
  constructor
  · intro id hlt
    have hsome : place id ≠ none := fun hnone => Nat.not_le_of_lt hlt ((hfresh id).mpr hnone)
    obtain ⟨p, hp⟩ := Option.ne_none_iff_exists'.mp hsome
    exact ⟨p, hone id p hp⟩
  · intro id hid
    have hstage := hkept id hid
    cases hp : place id with
    | none =>
        rw [hp] at hstage
        rcases hstage with hstage | hstage <;> cases hstage
    | some p =>
        refine ⟨p, ?_, hone id p hp⟩
        rintro g rfl
        rw [hp] at hstage
        rcases hstage with hstage | hstage <;> cases hstage

/-- A cancellation is queued, tried in vain and parked. -/
theorem retry_queue_conserves_parked :
    ∃ s, Trace (RetryQueue.Step ⟨1, 2⟩ fun _ _ => some ()) (RetryQueue.new ())
        [.queueOrder 0 0 (.cancelled 1 none 5), .send 0 0 .caller, .start 1, .spawn 1 2, .take 2 0,
          .attemptFailed 2 0, .recordFailedEvent 2 0 .processor] s
      ∧ ∃ p, (∀ g, p ≠ .caller g) ∧ (s.contents [] p).count 0 = 1
          ∧ ∀ q, 0 ∈ s.contents [] q → q = p := by
  have h₀ : Trace (RetryQueue.Step ⟨1, 2⟩ fun _ _ => some ()) (RetryQueue.new ()) [] _ := .nil
  have h₁ := h₀.next (.queueOrder 0 0 (.cancelled 1 none 5)) (.queueOrder rfl)
    |>.next (.send 0 0 .caller) (.send rfl Nat.one_pos)
    |>.next (.start 1) (.start rfl rfl) |>.next (.spawn 1 2) (.spawn rfl rfl)
    |>.next (.take 2 0) (.take rfl rfl) |>.next (.attemptFailed 2 0) (.attemptFailed rfl rfl)
    |>.next (.recordFailedEvent 2 0 .processor) (.recordFailedEvent rfl)
  exact ⟨_, h₁, (retry_queue_conserves h₁).2 0 List.mem_cons_self⟩

end TradingBackend
