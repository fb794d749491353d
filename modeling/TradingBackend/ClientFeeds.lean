import TradingBackend.ClientPhases
import TradingBackend.Relay

/-!
# What a client is shown of a feed

`Run` broadcasts the trades and the order updates itself, one after the
other. To a client it is a relay: it has at most one item in hand, and the
client's channel and the socket behind it get what it passes on. It drops
an item for a client that is not in the set of the topic or whose buffer is
full.

The goroutines of the timer and the client's own read pump send on the same
channel at the same time; what they send is of neither feed (`Tagged`).

`Feed` ranges over the two feeds. A client is paired with what its write
pump has taken out of its channel; the pump's frames, which join the
messages that are waiting with newlines, are left out.
-/

namespace TradingBackend.Websocket

variable {κ P : Type}

/-- The feeds that `Run` broadcasts itself. -/
inductive Feed where
  | trades
  | orders
deriving DecidableEq

namespace Feed

def topic : Feed → Topic
  | trades => topicTrades
  | orders => topicOrders

def type : Feed → String
  | trades => "trade"
  | orders => "order"

def message (feed : Feed) (p : P) : Message κ P := ⟨feed.type, feed.topic, .payload p⟩

def given? (feed : Feed) : HubEvent κ P → Option P
  | .trade p => if feed = trades then some p else none
  | .order p => if feed = orders then some p else none
  | _ => none

def payload? (feed : Feed) (message : Message κ P) : Option P :=
  if message.type = feed.type then
    match message.data with
    | .payload p => some p
    | _ => none
  else none

theorem payload_message (feed feed' : Feed) (p : P) :
    feed.payload? (feed'.message p : Message κ P) = if feed = feed' then some p else none := by
  cases feed <;> cases feed' <;> simp [payload?, message, type]

end Feed

def Message.Other (message : Message κ P) : Prop := ∀ feed : Feed, feed.payload? message = none

theorem Message.other_of_type {message : Message κ P} (htrade : message.type ≠ "trade")
    (horder : message.type ≠ "order") : message.Other := by
  intro feed
  cases feed
  · exact if_neg htrade
  · exact if_neg horder

def ClientOp.Other : ClientOp κ P → Prop
  | .send message => message.Other
  | _ => True

theorem sendSnapshot_other (provider : Option (SnapshotProvider P)) (topic : Topic) :
    ∀ op ∈ (sendSnapshot provider topic : List (ClientOp κ P)), op.Other := by
  have hsnapshot : ∀ p : P, (⟨"snapshot", topic, .payload p⟩ : Message κ P).Other := fun _ =>
    Message.other_of_type (by simp) (by simp)
  unfold sendSnapshot
  cases provider with
  | none => exact List.forall_mem_nil _
  | some provider =>
      dsimp only
      split_ifs
      · exact List.forall_mem_singleton.mpr (hsnapshot _)
      · exact List.forall_mem_singleton.mpr (hsnapshot _)
      · exact List.forall_mem_singleton.mpr (hsnapshot _)
      · exact List.forall_mem_nil _

/-- What a client is sent in answer to its messages is of neither feed. -/
theorem handleMessage_other (subscriptions : Finset Topic)
    (provider : Option (SnapshotProvider P)) (message : Option ClientMessage) :
    ∀ op ∈ (handleMessage subscriptions provider message : List (ClientOp κ P)), op.Other := by
  have hsend : ∀ {type topic : String} {data : MessageData κ P}, type ≠ "trade" →
      type ≠ "order" → (ClientOp.send ⟨type, topic, data⟩ : ClientOp κ P).Other :=
    fun htrade horder => Message.other_of_type htrade horder
  have herror : ∀ text : String, (sendError text : ClientOp κ P).Other := fun _ =>
    hsend (by simp) (by simp)
  unfold handleMessage
  split
  · exact List.forall_mem_singleton.mpr (herror _)
  · split
    · unfold handleSubscribe
      split
      · exact List.forall_mem_singleton.mpr (herror _)
      · refine List.forall_mem_append.mpr ⟨?_, sendSnapshot_other provider _⟩
        exact List.forall_mem_cons.mpr
          ⟨trivial, List.forall_mem_singleton.mpr (hsend (by simp) (by simp))⟩
    · exact List.forall_mem_cons.mpr
        ⟨trivial, List.forall_mem_singleton.mpr (hsend (by simp) (by simp))⟩
    · exact List.forall_mem_singleton.mpr (hsend (by simp) (by simp))
    · unfold handleResync
      split
      · exact List.forall_mem_singleton.mpr (herror _)
      · split
        · exact List.forall_mem_singleton.mpr (herror _)
        · refine List.forall_mem_append.mpr ⟨sendSnapshot_other provider _, ?_⟩
          exact List.forall_mem_singleton.mpr (hsend (by simp) (by simp))
    · exact List.forall_mem_singleton.mpr (herror _)

/-! ## Broadcasts -/

namespace Cast

def message : Cast κ P → Message κ P
  | fetching _ message | fetched _ message | delivering _ message => message

/-- The broadcast is of an item of the feed, and the set it has got hold of
is that of the feed's topic. -/
def Of (subscriptions : List (Topic × Nat)) (feed : Feed) (p : P) : Cast κ P → Prop
  | fetching topic message => topic = feed.topic ∧ message = feed.message p
  | fetched set message | delivering set message =>
      subscriptions.lookup feed.topic = some set ∧ message = feed.message p

theorem Of.message_eq {subscriptions : List (Topic × Nat)} {feed : Feed} {p : P} {cast : Cast κ P}
    (h : cast.Of subscriptions feed p) : cast.message = feed.message p := by
  cases cast <;> exact h.2

end Cast

/-- What `Run` has in hand for the feed. -/
def LoopRole.inFlight (feed : Feed) : LoopRole κ P → Option P
  | .casting cast => feed.payload? cast.message
  | _ => none

namespace Hub

variable {h h' : Hub κ P} {c : κ} {e : HubEvent κ P} {feed : Feed}

theorem casting_none {cast : Cast κ P} (hcast : h.casting none = some cast) :
    h.loop = .casting cast := by
  simp only [casting] at hcast
  split at hcast
  · next hloop => rw [hloop, Option.some.inj hcast]
  · cases hcast

theorem casting_some {g : GoID} {cast : Cast κ P} (hcast : h.casting (some g) = some cast) :
    h.timers g = .casting cast := by
  simp only [casting] at hcast
  split at hcast
  · next hg => rw [hg, Option.some.inj hcast]
  · cases hcast

/-- Who sends what. Only `Run` broadcasts trades and order updates; what the
timers broadcast, and what a client is sent in answer to its own messages, is
of neither feed. -/
structure Tagged (h : Hub κ P) : Prop where
  loop : ∀ cast, h.loop = .casting cast → ∃ feed p, cast.Of h.subscriptions feed p
  timers : ∀ g cast, h.timers g = .casting cast → cast.message.Other
  ops : ∀ c ops, h.roles c = .handling ops → ∀ op ∈ ops, op.Other

namespace Tagged

theorem new : (new : Hub κ P).Tagged where
  loop _ hcast := by cases hcast
  timers _ _ hcast := by cases hcast
  ops _ _ hops := by cases hops

/-- A step that begins no broadcast and gives no client anything to do.
Topics keep their sets. -/
theorem frame (ht : h.Tagged)
    (hloop : ∀ cast, h'.loop = .casting cast → h.loop = .casting cast)
    (hlookup : ∀ {topic set}, h.subscriptions.lookup topic = some set →
      h'.subscriptions.lookup topic = some set)
    (htimers : ∀ g cast, h'.timers g = .casting cast → h.timers g = .casting cast)
    (hroles : ∀ c ops, h'.roles c = .handling ops → h.roles c = .handling ops) : h'.Tagged where
  loop cast hcast := by
    obtain ⟨feed, p, hof⟩ := ht.loop cast (hloop cast hcast)
    refine ⟨feed, p, ?_⟩
    cases cast with
    | fetching => exact hof
    | fetched | delivering => exact ⟨hlookup hof.1, hof.2⟩
  timers g cast hcast := ht.timers g cast (htimers g cast hcast)
  ops c ops hops := ht.ops c ops (hroles c ops hops)

end Tagged

/-- A value that an update does not write was there before. -/
theorem of_update {α β : Type} [DecidableEq α] {f : α → β} {a b : α} {v w : β}
    (hw : Function.update f a v b = w) (hv : v ≠ w) : f b = w := by
  by_cases hb : b = a
  · subst hb
    rw [Function.update_self] at hw
    exact absurd hw hv
  · rwa [Function.update_of_ne hb] at hw

theorem lookup_subscribe [DecidableEq κ] {topic topic' : Topic} {set : Nat}
    (hset : h.subscriptions.lookup topic = some set) :
    (h.subscribe c topic').subscriptions.lookup topic = some set := by
  unfold subscribe
  split
  · exact hset
  · next hnone =>
      have hne : (topic == topic') = false := by
        refine beq_false_of_ne ?_
        rintro rfl
        rw [hnone] at hset
        cases hset
      rwa [List.lookup_cons, hne]

theorem Tagged.recast (ht : h.Tagged) {who : Option GoID} {cast : Cast κ P}
    (hwho : h.casting who = some cast) {next : Option (Cast κ P)}
    (hnext : ∀ cast' ∈ next, cast'.message = cast.message
      ∧ ∀ feed p, cast.Of h.subscriptions feed p → cast'.Of h.subscriptions feed p) :
    (h.recast next who).Tagged := by
  cases who with
  | none =>
      refine ⟨fun cast' hcast' => ?_, ht.timers, ht.ops⟩
      obtain ⟨feed, p, hof⟩ := ht.loop cast (casting_none hwho)
      cases next with
      | none => cases hcast'
      | some next =>
          obtain rfl := LoopRole.casting.inj hcast'
          exact ⟨feed, p, (hnext _ rfl).2 feed p hof⟩
  | some g =>
      refine ⟨ht.loop, fun g' cast' hcast' => ?_, ht.ops⟩
      cases next with
      | none => exact ht.timers g' cast' (of_update hcast' nofun)
      | some next =>
          by_cases heq : cast' = next
          · subst heq
            rw [(hnext _ rfl).1]
            exact ht.timers g cast (casting_some hwho)
          · exact ht.timers g' cast' (of_update hcast' fun h => heq (FlushRole.casting.inj h).symm)

variable [DecidableEq κ]

theorem perform_frame (h : Hub κ P) (c : κ) (op : ClientOp κ P) :
    (h.perform c op).loop = h.loop ∧ (h.perform c op).timers = h.timers
      ∧ (h.perform c op).roles = h.roles := by
  cases op with
  | send => exact ⟨rfl, rfl, rfl⟩
  | subscribe topic =>
      simp only [perform, subscribe]
      split <;> exact ⟨rfl, rfl, rfl⟩
  | unsubscribe topic =>
      simp only [perform, unsubscribe]
      split <;> exact ⟨rfl, rfl, rfl⟩

theorem Tagged.handling (ht : h.Tagged) {ops : List (ClientOp κ P)}
    (hops : ∀ op ∈ ops, op.Other) : (h.move c (.handling ops)).Tagged := by
  refine ⟨ht.loop, ht.timers, fun c' ops' hops' => ?_⟩
  by_cases heq : ops' = ops
  · exact heq ▸ hops
  · exact ht.ops c' ops' (of_update hops' fun h => heq (ClientRole.handling.inj h).symm)

theorem lookup_perform {topic : Topic} {set : Nat} (op : ClientOp κ P)
    (hset : h.subscriptions.lookup topic = some set) :
    (h.perform c op).subscriptions.lookup topic = some set := by
  cases op with
  | send => exact hset
  | subscribe topic' => exact lookup_subscribe hset
  | unsubscribe topic' =>
      simp only [perform, unsubscribe]
      split <;> exact hset

theorem Tagged.step (ht : h.Tagged) (hstep : h.Step e h') : h'.Tagged := by
  have hmove : ∀ {c : κ} {role : ClientRole κ P}, (∀ ops, role ≠ .handling ops) →
      ∀ c' ops, Function.update h.roles c role c' = .handling ops → h.roles c' = .handling ops :=
    fun hrole _ _ hops => of_update hops (hrole _)
  have htimer : ∀ {g : GoID} {role : FlushRole κ P}, (∀ cast, role ≠ .casting cast) →
      ∀ g' cast, Function.update h.timers g role g' = .casting cast →
        h.timers g' = .casting cast :=
    fun hrole _ _ hcast => of_update hcast (hrole _)
  cases hstep with
  | accept => exact ht.frame (fun _ => id) id (fun _ _ => id) (hmove nofun)
  | register => exact ht.frame nofun id (fun _ _ => id) (hmove nofun)
  | registered => exact ht.frame nofun id (fun _ _ => id) fun _ _ => id
  | start => exact ht.frame (fun _ => id) id (fun _ _ => id) (hmove nofun)
  | read => exact ht.handling (handleMessage_other _ _ _)
  | @perform c op ops hc =>
      obtain ⟨hloop, htimers, hroles⟩ := h.perform_frame c op
      have hperform : (h.perform c op).Tagged := ht.frame (fun _ => (hloop ▸ ·))
        (lookup_perform op) (fun _ _ => (htimers ▸ ·)) fun _ _ => (hroles ▸ ·)
      exact hperform.handling (List.forall_mem_cons.mp (ht.ops c _ hc)).2
  | handled => exact ht.frame (fun _ => id) id (fun _ _ => id) (hmove nofun)
  | hangUp => exact ht.frame (fun _ => id) id (fun _ _ => id) (hmove nofun)
  | unregister => exact ht.frame nofun id (fun _ _ => id) (hmove nofun)
  | unregistered =>
      unfold unregisterClient
      split
      · exact ht.frame nofun id (fun _ _ => id) fun _ _ => id
      · exact ht.frame nofun id (fun _ _ => id) fun _ _ => id
  | receive => exact ht.frame (fun _ => id) id (fun _ _ => id) fun _ _ => id
  | delta => exact ht.frame nofun id (fun _ _ => id) fun _ _ => id
  | batched => exact ht.frame nofun id (fun _ _ => id) fun _ _ => id
  | armed => exact ht.frame nofun id (htimer nofun) fun _ _ => id
  | @trade p hloop =>
      refine ⟨fun cast hcast => ⟨.trades, p, ?_⟩, ht.timers, ht.ops⟩
      obtain rfl := LoopRole.casting.inj hcast
      exact ⟨rfl, rfl⟩
  | @order p hloop =>
      refine ⟨fun cast hcast => ⟨.orders, p, ?_⟩, ht.timers, ht.ops⟩
      obtain rfl := LoopRole.casting.inj hcast
      exact ⟨rfl, rfl⟩
  | flush hg hmutex hdeltas =>
      refine ⟨ht.loop, fun g' cast' hcast' => ?_, ht.ops⟩
      by_cases heq : cast' = .fetching topicOrderbookDeltas
          ⟨"orderbook_delta_batch", topicOrderbookDeltas, .batch h.pendingDeltas⟩
      · rw [heq]
        exact Message.other_of_type (by simp [Cast.message]) (by simp [Cast.message])
      · exact ht.timers g' cast' (of_update hcast' fun h => heq (FlushRole.casting.inj h).symm)
  | flushNothing => exact ht.frame (fun _ => id) id (htimer nofun) fun _ _ => id
  | fetch hwho =>
      refine ht.recast hwho fun cast' hcast' => ?_
      obtain ⟨set, hset, rfl⟩ := Option.mem_map.mp hcast'
      refine ⟨rfl, fun feed p hof => ?_⟩
      obtain ⟨rfl, hmessage⟩ := hof
      exact ⟨hset, hmessage⟩
  | check hwho =>
      refine ht.recast hwho fun cast' hcast' => ?_
      split at hcast'
      · cases hcast'
      · obtain rfl := Option.some.inj hcast'
        exact ⟨rfl, fun _ _ hof => hof⟩
  | @deliver who set message hwho =>
      have hdeliver : (h.deliver set message).Tagged := ⟨ht.loop, ht.timers, ht.ops⟩
      exact hdeliver.recast hwho nofun
  | flushed => exact ht.frame (fun _ => id) id (htimer nofun) fun _ _ => id

end Hub

/-! ## The channel -/

namespace Channel

variable {ch : Channel κ P} {message : Message κ P} {feed : Feed}

theorem send_of_room (hopen : ch.closes = 0) (hroom : ch.buffer.length < sendBufferSize) :
    (ch.send message).buffer = ch.buffer ++ [message] := by
  rw [send, if_neg (by simp [hopen]), if_pos hroom]

theorem send_of_full (hfull : ¬ch.buffer.length < sendBufferSize) :
    (ch.send message).buffer = ch.buffer := by
  unfold send
  split_ifs <;> rfl

theorem send_other (hother : feed.payload? message = none) :
    (ch.send message).buffer.filterMap feed.payload? = ch.buffer.filterMap feed.payload? := by
  unfold send
  split
  · rfl
  · split
    · simp [hother]
    · rfl

end Channel

namespace Hub

variable {h h' : Hub κ P} {c : κ} {e : HubEvent κ P} {feed : Feed}

def Subscribed (h : Hub κ P) (c : κ) (topic : Topic) : Prop :=
  ∃ set, h.subscriptions.lookup topic = some set ∧ c ∈ h.sets set

/-- The client is in the set of the feed's topic and has room for a
message. -/
def Listens (h : Hub κ P) (c : κ) (feed : Feed) : Prop :=
  h.Subscribed c feed.topic ∧ (h.send c).buffer.length < sendBufferSize

theorem Subscribed.mem {topic : Topic} {set : Nat} (hs : h.Subscribed c topic)
    (hset : h.subscriptions.lookup topic = some set) : c ∈ h.sets set := by
  obtain ⟨set', hset', hc⟩ := hs
  rw [hset] at hset'
  rwa [Option.some.inj hset']

/-- What the client has been shown of the feed: what its write pump has
taken out, and what waits in its channel. -/
def shown (feed : Feed) (c : κ) (s : Hub κ P × List (Message κ P)) : List P :=
  (s.2 ++ (s.1.send c).buffer).filterMap feed.payload?

def relay (feed : Feed) (c : κ) (s : Hub κ P × List (Message κ P)) : Relay P :=
  ⟨shown feed c s, s.1.loop.inFlight feed⟩

theorem relay_eq {w : List (Message κ P)}
    (hbuffer : (h'.send c).buffer.filterMap feed.payload? =
      (h.send c).buffer.filterMap feed.payload?)
    (hloop : h'.loop.inFlight feed = h.loop.inFlight feed) :
    relay feed c (h', w) = relay feed c (h, w) := by
  simp only [relay, shown, List.filterMap_append, hbuffer, hloop]

variable [DecidableEq κ]

def takes (h : Hub κ P) (c : κ) : HubEvent κ P → List (Message κ P)
  | .receive c' => if c' = c then (h.send c).buffer.head?.toList else []
  | _ => []

/-- The steps of the hub, with what the write pump of `c` has taken out. -/
def FeedStep (c : κ) (s : Hub κ P × List (Message κ P)) (e : HubEvent κ P)
    (s' : Hub κ P × List (Message κ P)) : Prop :=
  s.1.Step e s'.1 ∧ s'.2 = s.2 ++ s.1.takes c e

theorem unregisterClient_buffer (c' : κ) :
    ((h.unregisterClient c').send c).buffer = (h.send c).buffer := by
  unfold unregisterClient
  split
  · by_cases hc : c = c'
    · subst hc
      simp [Channel.close]
    · simp [hc]
  · rfl

theorem sendMessage_other {c' : κ} {message : Message κ P} (hother : feed.payload? message = none) :
    ((h.sendMessage c' message).send c).buffer.filterMap feed.payload? =
      (h.send c).buffer.filterMap feed.payload? := by
  by_cases hc : c = c'
  · subst hc
    simp only [sendMessage, Function.update_self]
    exact Channel.send_other hother
  · simp only [sendMessage, Function.update_of_ne hc]

theorem perform_other {c' : κ} {op : ClientOp κ P} (hother : op.Other) :
    ((h.perform c' op).send c).buffer.filterMap feed.payload? =
      (h.send c).buffer.filterMap feed.payload? := by
  cases op with
  | send message => exact sendMessage_other (hother feed)
  | subscribe topic =>
      simp only [perform, subscribe]
      split <;> rfl
  | unsubscribe topic =>
      simp only [perform, unsubscribe]
      split <;> rfl

theorem relay_receive {w : List (Message κ P)} (c' : κ) :
    relay feed c ({ h with send := Function.update h.send c' (h.send c').receive },
      w ++ h.takes c (.receive c')) = relay feed c (h, w) := by
  by_cases hc : c' = c
  · subst hc
    simp only [relay, shown, takes, if_pos, Function.update_self, Channel.receive]
    rw [List.append_assoc]
    cases (h.send c').buffer <;> rfl
  · simp only [relay, shown, takes, if_neg hc, List.append_nil,
      Function.update_of_ne (Ne.symm hc)]

omit [DecidableEq κ] in
/-- The end of a broadcast that does not reach the client. -/
theorem relay_drop {w : List (Message κ P)} {cast : Cast κ P} {feed' : Feed} {p : P}
    (hloop : h.loop = .casting cast) (hof : cast.Of h.subscriptions feed' p)
    (hloop' : h'.loop = .selecting)
    (hbuffer : (h'.send c).buffer.filterMap feed.payload? =
      (h.send c).buffer.filterMap feed.payload?)
    (hlossy : feed = feed' → ¬h.Listens c feed) :
    Relay.Step (¬h.Listens c feed) (relay feed c (h, w)) none (relay feed c (h', w)) := by
  have hhand : h.loop.inFlight feed = if feed = feed' then some p else none := by
    rw [hloop, LoopRole.inFlight, hof.message_eq, Feed.payload_message]
  have hhand' : h'.loop.inFlight feed = none := by rw [hloop']; rfl
  by_cases hfeed : feed = feed'
  · rw [if_pos hfeed] at hhand
    have heq : relay feed c (h', w) = ⟨(relay feed c (h, w)).passed, none⟩ := by
      simp only [relay, shown, List.filterMap_append, hbuffer, hhand']
    rw [heq]
    exact .drop hhand (hlossy hfeed)
  · rw [if_neg hfeed] at hhand
    rw [relay_eq hbuffer (hhand'.trans hhand.symm)]
    exact .idle

/-- `Run` passes on what it has in hand to a client that listens. -/
theorem Tagged.relay_deliver (ht : h.Tagged) {w : List (Message κ P)} {set : Nat}
    {message : Message κ P} (hopen : ∀ set, c ∈ h.sets set → (h.send c).closes = 0)
    (hloop : h.loop = .casting (.delivering set message)) :
    Relay.Step (¬h.Listens c feed) (relay feed c (h, w)) none
      (relay feed c ((h.deliver set message).recast none none, w)) := by
  obtain ⟨feed', p, hof⟩ := ht.loop _ hloop
  obtain ⟨hset, hmessage⟩ := id hof
  have hhand : h.loop.inFlight feed = if feed = feed' then some p else none := by
    rw [hloop, LoopRole.inFlight, hof.message_eq, Feed.payload_message]
  by_cases hc : c ∈ h.sets set
  · have hsend : ((h.deliver set message).recast none none).send c = (h.send c).send message :=
      if_pos hc
    by_cases hfeed : feed = feed'
    · subst hfeed
      by_cases hroom : (h.send c).buffer.length < sendBufferSize
      · rw [if_pos rfl] at hhand
        have heq : relay feed c ((h.deliver set message).recast none none, w) =
            ⟨(relay feed c (h, w)).passed ++ [p], none⟩ := by
          simp only [relay, shown, hsend, Channel.send_of_room (hopen set hc) hroom]
          rw [← List.append_assoc, history_snoc, hmessage, Feed.payload_message, if_pos rfl]
          rfl
        rw [heq]
        exact .pass hhand
      · refine relay_drop hloop hof rfl ?_ fun _ hlistens => hroom hlistens.2
        rw [hsend, Channel.send_of_full hroom]
    · refine relay_drop hloop hof rfl ?_ fun heq => absurd heq hfeed
      rw [hsend]
      exact Channel.send_other (by rw [hmessage, Feed.payload_message, if_neg hfeed])
  · refine relay_drop hloop hof rfl ?_ fun hfeed hlistens => hc (hlistens.1.mem (hfeed ▸ hset))
    exact congrArg (fun ch : Channel κ P => ch.buffer.filterMap feed.payload?) (if_neg hc)

omit [DecidableEq κ] in
theorem relay_take {w : List (Message κ P)} (hloop : h.loop = .selecting) (feed' : Feed) (p : P) :
    Relay.Step (¬h.Listens c feed) (relay feed c (h, w)) (if feed = feed' then some p else none)
      (relay feed c (h.recast (some (.fetching feed'.topic (feed'.message p))) none, w)) := by
  have hhand : h.loop.inFlight feed = none := by rw [hloop]; rfl
  have hhand' : (h.recast (some (.fetching feed'.topic (feed'.message p))) none).loop.inFlight
      feed = if feed = feed' then some p else none := Feed.payload_message feed feed' p
  by_cases hfeed : feed = feed'
  · rw [if_pos hfeed] at hhand' ⊢
    have heq : relay feed c (h.recast (some (.fetching feed'.topic (feed'.message p))) none, w) =
        { relay feed c (h, w) with hand := some p } :=
      congrArg (Relay.mk (shown feed c (h, w))) hhand'
    rw [heq]
    exact .take hhand
  · rw [if_neg hfeed] at hhand' ⊢
    have heq : relay feed c (h.recast (some (.fetching feed'.topic (feed'.message p))) none, w) =
        relay feed c (h, w) := relay_eq rfl (hhand'.trans hhand.symm)
    rw [heq]
    exact .idle

omit [DecidableEq κ] in
/-- `Run` goes on with the broadcast, or ends it because there is nobody in
the set. -/
theorem relay_go {w : List (Message κ P)} {cast : Cast κ P} {next : Option (Cast κ P)}
    {feed' : Feed} {p : P} (hloop : h.loop = .casting cast)
    (hof : cast.Of h.subscriptions feed' p)
    (hnext : ∀ cast' ∈ next, cast'.message = cast.message)
    (hlossy : next = none → feed = feed' → ¬h.Listens c feed) :
    Relay.Step (¬h.Listens c feed) (relay feed c (h, w)) none
      (relay feed c (h.recast next none, w)) := by
  cases next with
  | none => exact relay_drop hloop hof rfl rfl (hlossy rfl)
  | some cast' =>
      have hhand : (h.recast (some cast') none).loop.inFlight feed = h.loop.inFlight feed := by
        rw [hloop]
        exact congrArg feed.payload? (hnext cast' rfl)
      have heq : relay feed c (h.recast (some cast') none, w) = relay feed c (h, w) :=
        relay_eq rfl hhand
      rw [heq]
      exact .idle

theorem Step.relay (hstep : h.Step e h') (ht : h.Tagged)
    (hopen : ∀ set, c ∈ h.sets set → (h.send c).closes = 0) (feed : Feed)
    (w : List (Message κ P)) :
    Relay.Step (¬h.Listens c feed) (relay feed c (h, w)) (feed.given? e)
      (relay feed c (h', w ++ h.takes c e)) := by
  have hkeep : ∀ {h' : Hub κ P} {given : Option P},
      Relay.Step (¬h.Listens c feed) (Hub.relay feed c (h, w)) given (Hub.relay feed c (h', w)) →
      Relay.Step (¬h.Listens c feed) (Hub.relay feed c (h, w)) given
        (Hub.relay feed c (h', w ++ [])) := by
    intro h' given hstep
    rwa [List.append_nil]
  have hidle : ∀ {h' : Hub κ P}, (h'.send c).buffer.filterMap feed.payload? =
      (h.send c).buffer.filterMap feed.payload? → h'.loop.inFlight feed = h.loop.inFlight feed →
      Relay.Step (¬h.Listens c feed) (Hub.relay feed c (h, w)) none
        (Hub.relay feed c (h', w ++ [])) := by
    intro h' hbuffer hloop
    rw [List.append_nil, relay_eq hbuffer hloop]
    exact .idle
  -- `Run` turns from one thing to another, and neither is a broadcast
  have hturn : ∀ {loop loop' : LoopRole κ P}, h.loop = loop → loop.inFlight feed = none →
      loop'.inFlight feed = none → loop'.inFlight feed = h.loop.inFlight feed := by
    rintro loop loop' rfl hnone hnone'
    rw [hnone, hnone']
  cases hstep with
  | accept | read | handled | hangUp => exact hidle rfl rfl
  | register hloop | registered hloop | unregister hloop | delta hloop | batched hloop
  | armed hloop => exact hidle rfl (hturn hloop rfl rfl)
  | @start c' =>
      have hother : (welcome c' : Message κ P).Other :=
        Message.other_of_type (by simp [welcome]) (by simp [welcome])
      exact hidle (sendMessage_other (hother feed)) rfl
  | @perform c' op ops hc =>
      have hother := ht.ops c' _ hc op (List.mem_cons_self ..)
      exact hidle (perform_other hother) (congrArg _ (h.perform_frame c' op).1)
  | unregistered hloop =>
      exact hidle (congrArg _ (unregisterClient_buffer _)) (hturn hloop rfl rfl)
  | receive =>
      rw [relay_receive]
      exact .idle
  | @trade p hloop => exact hkeep (relay_take hloop .trades p)
  | @order p hloop => exact hkeep (relay_take hloop .orders p)
  | flush | flushNothing | flushed => exact hidle rfl rfl
  | @fetch who topic message hwho =>
      cases who with
      | some g => exact hidle rfl rfl
      | none =>
          have hloop := casting_none hwho
          obtain ⟨feed', p, hof⟩ := ht.loop _ hloop
          refine hkeep (relay_go hloop hof (fun cast' hcast' => ?_) fun hnone hfeed hlistens => ?_)
          · obtain ⟨set, -, rfl⟩ := Option.mem_map.mp hcast'
            rfl
          · obtain ⟨set, hset, -⟩ := hlistens.1
            rw [hof.1, ← hfeed, hset] at hnone
            cases hnone
  | @check who set message hwho =>
      cases who with
      | some g => exact hidle rfl rfl
      | none =>
          have hloop := casting_none hwho
          obtain ⟨feed', p, hof⟩ := ht.loop _ hloop
          refine hkeep (relay_go hloop hof (fun cast' hcast' => ?_) fun hnone hfeed hlistens => ?_)
          · split at hcast'
            · cases hcast'
            · obtain rfl := Option.some.inj hcast'
              rfl
          · have hmem := hlistens.1.mem (hfeed ▸ hof.1)
            split at hnone
            · next hempty =>
                rw [hempty] at hmem
                exact Finset.notMem_empty c hmem
            · cases hnone
  | @deliver who set message hwho =>
      cases who with
      | none => exact hkeep (ht.relay_deliver hopen (casting_none hwho))
      | some g =>
          refine hidle ?_ rfl
          by_cases hc : c ∈ h.sets set
          · have hother := ht.timers g _ (casting_some hwho) feed
            exact Eq.trans (congrArg (fun ch : Channel κ P => ch.buffer.filterMap feed.payload?)
              (if_pos hc)) (Channel.send_other hother)
          · exact congrArg (fun ch : Channel κ P => ch.buffer.filterMap feed.payload?) (if_neg hc)

/-! ## Whole runs -/

/-- What holds of the hub and the client in every run. -/
structure Ready (h : Hub κ P) (c : κ) : Prop where
  tagged : h.Tagged
  reach : h.Reach
  standing : ∃ p, h.Standing c p

theorem Ready.new (c : κ) : (new : Hub κ P).Ready c :=
  ⟨.new, by simp [Reach, Hub.new], .fresh, .new c⟩

theorem Ready.step (hr : h.Ready c) (hstep : h.Step e h') : h'.Ready c := by
  obtain ⟨p, hs⟩ := hr.standing
  obtain ⟨p', -, hs'⟩ := hstep.standing hr.reach hs
  exact ⟨hr.tagged.step hstep, hstep.reach hr.reach, p', hs'⟩

theorem Ready.closes (hr : h.Ready c) {set : Nat} (hc : c ∈ h.sets set) :
    (h.send c).closes = 0 := by
  obtain ⟨p, hs⟩ := hr.standing
  rw [hs.closes, if_neg fun hgone => hs.sets (.inr hgone) set hc]

variable {s s' : Hub κ P × List (Message κ P)} {es : List (HubEvent κ P)}

theorem FeedStep.relay (hstep : FeedStep c s e s') (hr : s.1.Ready c) (feed : Feed) :
    Relay.Step (¬s.1.Listens c feed) (relay feed c s) (feed.given? e) (relay feed c s') := by
  obtain ⟨h', w'⟩ := s'
  obtain ⟨hstep, rfl⟩ := hstep
  exact hstep.relay hr.tagged (fun _ => hr.closes) feed s.2

theorem ready_of_trace (hrun : Trace (FeedStep c) s es s') (hr : s.1.Ready c) : s'.1.Ready c :=
  hrun.invariant (P := fun _ s => s.1.Ready c) hr fun hr hstep => hr.step hstep.1

theorem relay_sublist (hrun : Trace (FeedStep c) (new, []) es s) (feed : Feed) :
    (relay feed c s).items.Sublist (es.filterMap feed.given?) := by
  refine (hrun.invariant (P := fun es s => s.1.Ready c
    ∧ (relay feed c s).items.Sublist (es.filterMap feed.given?)) ⟨.new c, .slnil⟩ ?_).2
  rintro es s e s' ⟨hr, hsub⟩ hstep
  rw [history_snoc]
  exact ⟨hr.step hstep.1, (hstep.relay hr feed).items_sublist.trans (hsub.append_right _)⟩

theorem relay_lossless (hr : s.1.Ready c)
    (hrun : Trace (Where (FeedStep c) fun s _ => s.1.Listens c feed) s es s') :
    (relay feed c s').items = (relay feed c s).items ++ es.filterMap feed.given? := by
  refine (hrun.invariant (P := fun es s' => s'.1.Ready c
    ∧ (relay feed c s').items = (relay feed c s).items ++ es.filterMap feed.given?)
    ⟨hr, (List.append_nil _).symm⟩ ?_).2
  rintro es s₁ e s₂ ⟨hr, heq⟩ ⟨hlistens, hstep⟩
  rw [history_snoc, ← List.append_assoc, ← heq]
  exact ⟨hr.step hstep.1, (hstep.relay hr feed).items_eq (not_not_intro hlistens)⟩

/-- Whatever the interleaving, a client is shown trades and order updates
that `Run` was given, in their order, each at most once; and as long as it is
in the set of the topic and its buffer is not full, it is shown all of them,
up to the one that `Run` has in hand. -/
theorem client_shown_in_order (hrun : Trace (FeedStep c) (new, []) es s) (feed : Feed) :
    (shown feed c s).Sublist (es.filterMap feed.given?)
    ∧ ∀ es' s', Trace (Where (FeedStep c) fun s _ => s.1.Listens c feed) s es' s' →
        shown feed c s' ++ (s'.1.loop.inFlight feed).toList =
          shown feed c s ++ (s.1.loop.inFlight feed).toList ++ es'.filterMap feed.given? := by
  refine ⟨(List.sublist_append_left ..).trans (relay_sublist hrun feed), fun es' s' hrun' => ?_⟩
  exact relay_lossless (ready_of_trace hrun (.new c)) hrun'

def subscribing : List (HubEvent Nat Nat) :=
  [.accept 0, .register 0, .registered 0, .start 0,
    .read 0 (some ⟨"subscribe", topicTrades⟩) none, .perform 0, .perform 0, .handled 0]

def oneTrade : List (HubEvent Nat Nat) :=
  [.trade 7, .fetch none, .check none, .deliver none]

theorem feed_next {s₀ : Hub κ P × List (Message κ P)} (hrun : Trace (FeedStep c) s₀ es s)
    (e : HubEvent κ P) (hstep : s.1.Step e h') :
    Trace (FeedStep c) s₀ (es ++ [e]) (h', s.2 ++ s.1.takes c e) :=
  hrun.snoc ⟨hstep, rfl⟩

theorem listening_start {s₀ : Hub κ P × List (Message κ P)} (feed : Feed)
    (_ : Trace (FeedStep c) s₀ es s) :
    Trace (Where (FeedStep c) fun s _ => s.1.Listens c feed) s [] s :=
  .nil

theorem listening_next {s₀ : Hub κ P × List (Message κ P)}
    (hrun : Trace (Where (FeedStep c) fun s _ => s.1.Listens c feed) s₀ es s)
    (e : HubEvent κ P) (hlistens : s.1.Listens c feed) (hstep : s.1.Step e h') :
    Trace (Where (FeedStep c) fun s _ => s.1.Listens c feed) s₀ (es ++ [e])
      (h', s.2 ++ s.1.takes c e) :=
  hrun.snoc ⟨hlistens, hstep, rfl⟩

theorem client_shown_one_trade :
    ∃ s s' : Hub Nat Nat × List (Message Nat Nat),
      Trace (FeedStep 0) (new, []) subscribing s
      ∧ Trace (Where (FeedStep 0) fun s _ => s.1.Listens 0 .trades) s oneTrade s'
      ∧ shown .trades 0 s' ++ (s'.1.loop.inFlight .trades).toList = [7] := by
  have h₀ : Trace (FeedStep 0) ((new, []) : Hub Nat Nat × List (Message Nat Nat)) [] (new, []) :=
    .nil
  have h₁ := feed_next h₀ (.accept 0) (.accept rfl)
  have h₂ := feed_next h₁ (.register 0) (.register rfl rfl)
  have h₃ := feed_next h₂ (.registered 0) (.registered rfl)
  have h₄ := feed_next h₃ (.start 0) (.start rfl)
  have h₅ := feed_next h₄ (.read 0 (some ⟨"subscribe", topicTrades⟩) none) (.read rfl)
  have h₆ := feed_next h₅ (.perform 0) (.perform rfl)
  have h₇ := feed_next h₆ (.perform 0) (.perform rfl)
  have hrun := feed_next h₇ (.handled 0) (.handled rfl)
  have hlistens : ∀ {s : Hub Nat Nat × List (Message Nat Nat)},
      s.1.subscriptions = [(topicTrades, 0)] → s.1.sets 0 = {0} →
      (s.1.send 0).buffer.length < 256 → s.1.Listens 0 .trades := by
    intro s hsubs hsets hroom
    refine ⟨⟨0, ?_, ?_⟩, hroom⟩
    · rw [hsubs]
      rfl
    · rw [hsets]
      exact Finset.mem_singleton_self 0
  have k₀ := listening_start .trades hrun
  have k₁ := listening_next k₀ (.trade 7) (hlistens rfl rfl (by decide)) (.trade rfl)
  have k₂ := listening_next k₁ (.fetch none) (hlistens rfl rfl (by decide)) (.fetch rfl)
  have k₃ := listening_next k₂ (.check none) (hlistens rfl rfl (by decide)) (.check rfl)
  have hrun' := listening_next k₃ (.deliver none) (hlistens rfl rfl (by decide)) (.deliver rfl)
  exact ⟨_, _, hrun, hrun', (client_shown_in_order hrun .trades).2 _ _ hrun'⟩

end Hub

end TradingBackend.Websocket
