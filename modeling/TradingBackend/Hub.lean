import TradingBackend.Goroutines
import Mathlib.Data.Finset.Insert

/-!
# The WebSocket hub

`websocket/hub.go` and `websocket/client.go`: the goroutine of `Hub.Run`, the
goroutines that the batch timer starts, and for every client its handler,
which registers and starts it, and its two pumps. What is done under a mutex
is one step, and so is a rendezvous on `register` or `unregister`. A topic's
set of subscribers is a map, so it is passed by reference: a broadcast fetches
the reference in one section and sends to whoever is in the set in another.

A send on a closed channel panics, and so does closing it again; here the
channel counts both. Every client goes through the phases of `Phase`, and what
holds in each of them (`Standing`) is kept by every step of every goroutine.

`P` is what the messages carry. `Run` and the read pumps get any messages at any
time, and a socket may fail at any time: the channels that feed `Run` are left
out, and so are the sockets, with the cleanup of idle clients that closes them.
Left out are also activity times, timestamps, log lines and `GetStats`.
-/

namespace TradingBackend.Websocket

abbrev Topic := String

def topicOrderbookDeltas : Topic := "orderbook_deltas"

def topicTrades : Topic := "trades"

def topicOrders : Topic := "orders"

def validTopics : List Topic := [topicOrderbookDeltas, topicTrades, topicOrders]

inductive MessageData (κ P : Type) where
  | none
  | text (field text : String)
  | welcome (client : κ) (message : String) (topics : List String)
  | payload (p : P)
  | batch (ps : List P)

structure Message (κ P : Type) where
  type : String
  topic : String
  data : MessageData κ P

structure ClientMessage where
  action : String
  topic : String

/-- A client's `send`, with the number of times it was closed and the number
of sends after that. -/
structure Channel (κ P : Type) where
  buffer : List (Message κ P)
  closes : Nat
  lateSends : Nat

def sendBufferSize : Nat := 256

namespace Channel

variable {κ P : Type}

/-- `make(chan []byte, sendBufferSize)`. -/
def new : Channel κ P := ⟨[], 0, 0⟩

/-- A send that skips the message if the buffer is full. -/
def send (ch : Channel κ P) (message : Message κ P) : Channel κ P :=
  if 0 < ch.closes then { ch with lateSends := ch.lateSends + 1 }
  else if ch.buffer.length < sendBufferSize then { ch with buffer := ch.buffer ++ [message] }
  else ch

def close (ch : Channel κ P) : Channel κ P := { ch with closes := ch.closes + 1 }

/-- The write pump takes a message out. -/
def receive (ch : Channel κ P) : Channel κ P := { ch with buffer := ch.buffer.tail }

end Channel

/-! ## Clients -/

/-- What a message makes the read pump do. -/
inductive ClientOp (κ P : Type) where
  | subscribe (topic : Topic)
  | unsubscribe (topic : Topic)
  | send (message : Message κ P)

section

variable {κ P : Type}

/-- What the read pump gets from the hub's `snapshotProvider`. -/
structure SnapshotProvider (P : Type) where
  getOrderbookSnapshot : String → Nat → P
  getTradesSnapshot : String → Nat → P
  getOrdersSnapshot : String → P

/-- `clientID` of a client; nothing sets it. -/
def clientID : String := ""

def sendError (errorMsg : String) : ClientOp κ P := .send ⟨"error", "", .text "error" errorMsg⟩

def sendPong : ClientOp κ P := .send ⟨"pong", "", .none⟩

def sendSnapshot (provider : Option (SnapshotProvider P)) (topic : Topic) :
    List (ClientOp κ P) :=
  match provider with
  | none => []
  | some provider =>
      if topic = topicOrderbookDeltas then
        [.send ⟨"snapshot", topic, .payload (provider.getOrderbookSnapshot "BTC-USD" 20)⟩]
      else if topic = topicTrades then
        [.send ⟨"snapshot", topic, .payload (provider.getTradesSnapshot "BTC-USD" 50)⟩]
      else if topic = topicOrders then
        [.send ⟨"snapshot", topic, .payload (provider.getOrdersSnapshot clientID)⟩]
      else []

def handleSubscribe (provider : Option (SnapshotProvider P)) (topic : Topic) :
    List (ClientOp κ P) :=
  if topic ∉ validTopics then [sendError ("Invalid topic: " ++ topic)]
  else
    [.subscribe topic,
      .send ⟨"subscribed", topic, .text "message" ("Successfully subscribed to " ++ topic)⟩]
      ++ sendSnapshot provider topic

def handleUnsubscribe (topic : Topic) : List (ClientOp κ P) :=
  [.unsubscribe topic,
    .send ⟨"unsubscribed", topic, .text "message" ("Successfully unsubscribed from " ++ topic)⟩]

/-- `handleResync`; `subscriptions` is the client's own map. -/
def handleResync (subscriptions : Finset Topic) (provider : Option (SnapshotProvider P))
    (topic : Topic) : List (ClientOp κ P) :=
  if topic ∉ validTopics then [sendError ("Invalid topic for resync: " ++ topic)]
  else if topic ∉ subscriptions then [sendError ("Not subscribed to topic: " ++ topic)]
  else
    sendSnapshot provider topic
      ++ [.send ⟨"resynced", topic, .text "message" ("Fresh snapshot sent for " ++ topic)⟩]

/-- `handleMessage`; there is no message if it could not be decoded. -/
def handleMessage (subscriptions : Finset Topic) (provider : Option (SnapshotProvider P)) :
    Option ClientMessage → List (ClientOp κ P)
  | none => [sendError "Invalid message format"]
  | some msg =>
      match msg.action with
      | "subscribe" => handleSubscribe provider msg.topic
      | "unsubscribe" => handleUnsubscribe msg.topic
      | "ping" => [sendPong]
      | "resync" => handleResync subscriptions provider msg.topic
      | action => [sendError ("Unknown action: " ++ action)]

/-- What `Start` sends. -/
def welcome (c : κ) : Message κ P :=
  ⟨"welcome", "",
    .welcome c "Connected to trading engine WebSocket" ["orderbook_deltas", "trades", "orders"]⟩

end

/-- Where a client is: its handler until `Start` has returned, then its read
pump. -/
inductive ClientRole (κ P : Type) where
  | absent
  | registering
  | starting
  | reading
  | handling (ops : List (ClientOp κ P))
  | unregistering
  | done

/-! ## The hub -/

/-- Where a goroutine is in `broadcastToTopic`. -/
inductive Cast (κ P : Type) where
  | fetching (topic : Topic) (message : Message κ P)
  | fetched (set : Nat) (message : Message κ P)
  | delivering (set : Nat) (message : Message κ P)

/-- Where `Run` is. -/
inductive LoopRole (κ P : Type) where
  | selecting
  | registering (c : κ)
  | unregistering (c : κ)
  | batching (delta : P)
  | casting (cast : Cast κ P)

/-- Where a goroutine of the timer is in `flushOrderbookDeltas`. -/
inductive FlushRole (κ P : Type) where
  | absent
  | armed
  | casting (cast : Cast κ P)
  | clearing

/-- `Hub` with its goroutines and clients. The sets of subscribers are
`sets`, by their reference; `own` and `send` are fields of the clients. -/
structure Hub (κ P : Type) where
  clients : Finset κ
  subscriptions : List (Topic × Nat)
  sets : Nat → Finset κ
  nextSet : Nat
  own : κ → Finset Topic
  send : κ → Channel κ P
  pendingDeltas : List P
  batchTimer : Bool
  batchMutex : Option GoID
  loop : LoopRole κ P
  timers : GoID → FlushRole κ P
  roles : κ → ClientRole κ P

/-- The steps. A broadcast is made by `Run` or by a goroutine of the
timer. -/
inductive HubEvent (κ P : Type) where
  | accept (c : κ)
  | register (c : κ)
  | registered (c : κ)
  | start (c : κ)
  | read (c : κ) (message : Option ClientMessage) (provider : Option (SnapshotProvider P))
  | perform (c : κ)
  | handled (c : κ)
  | hangUp (c : κ)
  | unregister (c : κ)
  | unregistered (c : κ)
  | receive (c : κ)
  | delta (p : P)
  | batched (g : GoID)
  | trade (p : P)
  | order (p : P)
  | flush (g : GoID)
  | fetch (who : Option GoID)
  | check (who : Option GoID)
  | deliver (who : Option GoID)
  | flushed (g : GoID)

namespace Hub

variable {κ P : Type} [DecidableEq κ]

def new : Hub κ P :=
  { clients := ∅
    subscriptions := []
    sets := fun _ => ∅
    nextSet := 0
    own := fun _ => ∅
    send := fun _ => .new
    pendingDeltas := []
    batchTimer := false
    batchMutex := none
    loop := .selecting
    timers := fun _ => .absent
    roles := fun _ => .absent }

def move (h : Hub κ P) (c : κ) (role : ClientRole κ P) : Hub κ P :=
  { h with roles := Function.update h.roles c role }

def moveTimer (h : Hub κ P) (g : GoID) (role : FlushRole κ P) : Hub κ P :=
  { h with timers := Function.update h.timers g role }

def sendMessage (h : Hub κ P) (c : κ) (message : Message κ P) : Hub κ P :=
  { h with send := Function.update h.send c ((h.send c).send message) }

def subscribe (h : Hub κ P) (c : κ) (topic : Topic) : Hub κ P :=
  match h.subscriptions.lookup topic with
  | some set => { h with sets := Function.update h.sets set (insert c (h.sets set)) }
  | none =>
      { h with
        subscriptions := (topic, h.nextSet) :: h.subscriptions
        sets := Function.update h.sets h.nextSet {c}
        nextSet := h.nextSet + 1 }

def unsubscribe (h : Hub κ P) (c : κ) (topic : Topic) : Hub κ P :=
  match h.subscriptions.lookup topic with
  | some set => { h with sets := Function.update h.sets set ((h.sets set).erase c) }
  | none => h

/-- What the read pump does next; it notes its topics in the client. -/
def perform (h : Hub κ P) (c : κ) : ClientOp κ P → Hub κ P
  | .subscribe topic =>
      { h.subscribe c topic with own := Function.update h.own c (insert topic (h.own c)) }
  | .unsubscribe topic =>
      { h.unsubscribe c topic with own := Function.update h.own c ((h.own c).erase topic) }
  | .send message => h.sendMessage c message

/-- The section of `Run` for a client that unregisters: it goes out of the
set of every topic. -/
def unregisterClient (h : Hub κ P) (c : κ) : Hub κ P :=
  if c ∈ h.clients then
    { h with
      sets := fun set =>
        if set ∈ h.subscriptions.map Prod.snd then (h.sets set).erase c else h.sets set
      clients := h.clients.erase c
      send := Function.update h.send c (h.send c).close }
  else h

/-- The broadcast that `Run`, or a goroutine of the timer, is in. -/
def casting (h : Hub κ P) : Option GoID → Option (Cast κ P)
  | none =>
      match h.loop with
      | .casting cast => some cast
      | _ => none
  | some g =>
      match h.timers g with
      | .casting cast => some cast
      | _ => none

/-- The broadcast goes on to `next`, or returns to whoever makes it. -/
def recast (h : Hub κ P) (next : Option (Cast κ P)) : Option GoID → Hub κ P
  | none => { h with loop := next.elim .selecting .casting }
  | some g => h.moveTimer g (next.elim .clearing .casting)

def deliver (h : Hub κ P) (set : Nat) (message : Message κ P) : Hub κ P :=
  { h with
    send := fun c => if c ∈ h.sets set then (h.send c).send message else h.send c }

inductive Step (h : Hub κ P) : HubEvent κ P → Hub κ P → Prop where
  | accept {c} (hc : h.roles c = .absent) : Step h (.accept c) (h.move c .registering)
  | register {c} (hloop : h.loop = .selecting) (hc : h.roles c = .registering) :
      Step h (.register c) ({ h with loop := .registering c }.move c .starting)
  | registered {c} (hloop : h.loop = .registering c) :
      Step h (.registered c) { h with clients := insert c h.clients, loop := .selecting }
  | start {c} (hc : h.roles c = .starting) :
      Step h (.start c) ((h.sendMessage c (welcome c)).move c .reading)
  | read {c message provider} (hc : h.roles c = .reading) :
      Step h (.read c message provider)
        (h.move c (.handling (handleMessage (h.own c) provider message)))
  | perform {c op ops} (hc : h.roles c = .handling (op :: ops)) :
      Step h (.perform c) ((h.perform c op).move c (.handling ops))
  | handled {c} (hc : h.roles c = .handling []) : Step h (.handled c) (h.move c .reading)
  | hangUp {c} (hc : h.roles c = .reading) : Step h (.hangUp c) (h.move c .unregistering)
  | unregister {c} (hloop : h.loop = .selecting) (hc : h.roles c = .unregistering) :
      Step h (.unregister c) ({ h with loop := .unregistering c }.move c .done)
  | unregistered {c} (hloop : h.loop = .unregistering c) :
      Step h (.unregistered c) { h.unregisterClient c with loop := .selecting }
  | receive {c} : Step h (.receive c)
      { h with send := Function.update h.send c (h.send c).receive }
  | delta {p} (hloop : h.loop = .selecting) : Step h (.delta p) { h with loop := .batching p }
  | batched {g p} (hloop : h.loop = .batching p) (hmutex : h.batchMutex = none)
      (htimer : h.batchTimer = true) :
      Step h (.batched g) { h with pendingDeltas := h.pendingDeltas ++ [p], loop := .selecting }
  | armed {g p} (hloop : h.loop = .batching p) (hmutex : h.batchMutex = none)
      (htimer : h.batchTimer = false) (hg : h.timers g = .absent) :
      Step h (.batched g)
        ({ h with
            pendingDeltas := h.pendingDeltas ++ [p]
            batchTimer := true
            loop := .selecting }.moveTimer g .armed)
  | trade {p} (hloop : h.loop = .selecting) :
      Step h (.trade p)
        (h.recast (some (.fetching topicTrades ⟨"trade", topicTrades, .payload p⟩)) none)
  | order {p} (hloop : h.loop = .selecting) :
      Step h (.order p)
        (h.recast (some (.fetching topicOrders ⟨"order", topicOrders, .payload p⟩)) none)
  | flush {g} (hg : h.timers g = .armed) (hmutex : h.batchMutex = none)
      (hdeltas : h.pendingDeltas ≠ []) :
      Step h (.flush g)
        ({ h with batchMutex := some g }.recast
          (some (.fetching topicOrderbookDeltas
            ⟨"orderbook_delta_batch", topicOrderbookDeltas, .batch h.pendingDeltas⟩))
          (some g))
  | flushNothing {g} (hg : h.timers g = .armed) (hmutex : h.batchMutex = none)
      (hdeltas : h.pendingDeltas = []) :
      Step h (.flush g) ({ h with batchTimer := false }.moveTimer g .absent)
  | fetch {who topic message} (hwho : h.casting who = some (.fetching topic message)) :
      Step h (.fetch who)
        (h.recast ((h.subscriptions.lookup topic).map (.fetched · message)) who)
  | check {who set message} (hwho : h.casting who = some (.fetched set message)) :
      Step h (.check who)
        (h.recast (if h.sets set = ∅ then none else some (.delivering set message)) who)
  | deliver {who set message} (hwho : h.casting who = some (.delivering set message)) :
      Step h (.deliver who) ((h.deliver set message).recast none who)
  | flushed {g} (hg : h.timers g = .clearing) :
      Step h (.flushed g)
        ({ h with pendingDeltas := [], batchTimer := false, batchMutex := none }.moveTimer g
          .absent)

end Hub

end TradingBackend.Websocket
