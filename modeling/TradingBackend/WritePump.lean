import TradingBackend.ClientFeeds
import TradingBackend.LinePump

/-!
# What goes over the wire

`writePump` is the only goroutine that receives from a client's channel. It
writes the messages that are waiting into one frame, with newlines between
them. The hub and the client's read pump go on while it does.

The marshalled messages are the lines of a codec: `json.Marshal` writes no
newline. The timestamps of the messages are left out, and so are messages that
cannot be marshalled. The pump is there from the beginning; until `Start` there
is nothing for it to take.
-/

namespace TradingBackend.Websocket

deriving instance DecidableEq for MessageData
deriving instance DecidableEq for Message

variable {κ P β : Type}

/-- The hub, and the write pump of one client with what it has taken out of
the client's channel and what it has sent. -/
structure Wire (κ P β : Type) where
  hub : Hub κ P
  taken : List (Message κ P)
  phase : PumpPhase β
  frames : List (WireFrame β)

inductive WireEvent (κ P : Type) where
  | hub (e : HubEvent κ P)
  | pump (e : PumpEvent)

namespace Channel

/-- What becomes of a channel when nobody receives from it. -/
inductive Moves (ch : Channel κ P) : Channel κ P → Prop where
  | same : Moves ch ch
  | send {message} : Moves ch (ch.send message)
  | close : Moves ch ch.close

def pipe (ch : Channel κ P) (taken : List (Message κ P)) (phase : PumpPhase β)
    (frames : List (WireFrame β)) : Pipe (Message κ P) β :=
  ⟨ch.buffer, decide (0 < ch.closes), taken, phase, frames⟩

theorem Moves.pipe {ch ch' : Channel κ P} (h : ch.Moves ch') (taken : List (Message κ P))
    (phase : PumpPhase β) (frames : List (WireFrame β)) :
    Pipe.Moves sendBufferSize (ch.pipe taken phase frames) (ch'.pipe taken phase frames) := by
  cases h with
  | same => exact .same
  | close =>
      have hclosed : ch.close.pipe taken phase frames =
          { ch.pipe taken phase frames with closed := true } := by
        simp [Channel.pipe, Channel.close]
      rw [hclosed]
      exact .close
  | @send message =>
      unfold Channel.send
      split
      · exact .same
      · rename_i hopen
        split
        · rename_i hroom
          exact .send (decide_eq_false hopen) hroom
        · exact .same

end Channel

namespace Hub

variable [DecidableEq κ] {h h' : Hub κ P} {e : HubEvent κ P} {c : κ}

theorem channel_sendMessage (c' : κ) (message : Message κ P) :
    (h.send c).Moves ((h.sendMessage c' message).send c) := by
  by_cases hc : c = c'
  · subst hc
    simp only [sendMessage, Function.update_self]
    exact .send
  · simp only [sendMessage, Function.update_of_ne hc]
    exact .same

theorem channel_perform (c' : κ) (op : ClientOp κ P) :
    (h.send c).Moves ((h.perform c' op).send c) := by
  cases op with
  | send message => exact channel_sendMessage c' message
  | subscribe topic =>
      simp only [perform, subscribe]
      split <;> exact .same
  | unsubscribe topic =>
      simp only [perform, unsubscribe]
      split <;> exact .same

theorem channel_unregisterClient (c' : κ) :
    (h.send c).Moves ((h.unregisterClient c').send c) := by
  unfold unregisterClient
  split
  · by_cases hc : c = c'
    · subst hc
      simp only [Function.update_self]
      exact .close
    · simp only [Function.update_of_ne hc]
      exact .same
  · exact .same

omit [DecidableEq κ] in
theorem channel_recast (next : Option (Cast κ P)) (who : Option GoID) :
    (h.recast next who).send = h.send := by
  cases who <;> rfl

theorem Step.channel (hstep : h.Step e h') (he : e ≠ .receive c) :
    (h.send c).Moves (h'.send c) := by
  cases hstep with
  | start => exact channel_sendMessage _ _
  | perform => exact channel_perform _ _
  | unregistered => exact channel_unregisterClient _
  | @receive c' =>
      have hc : c ≠ c' := fun hc => he (congrArg HubEvent.receive hc.symm)
      simp only [Function.update_of_ne hc]
      exact .same
  | deliver hwho =>
      rw [channel_recast]
      simp only [Hub.deliver]
      split
      · exact .send
      · exact .same
  | fetch =>
      rw [channel_recast]
      exact .same
  | check =>
      rw [channel_recast]
      exact .same
  | _ => exact .same

end Hub

namespace Wire

section Steps

variable [DecidableEq κ]

def start : Wire κ P β := ⟨.new, [], .selecting, []⟩

def pipe (c : κ) (w : Wire κ P β) : Pipe (Message κ P) β :=
  (w.hub.send c).pipe w.taken w.phase w.frames

/-- The hub moves, or the write pump of `c`. -/
inductive Step (codec : LineCodec (Message κ P) β) (c : κ) (w : Wire κ P β) :
    WireEvent κ P → Wire κ P β → Prop where
  | hub {e hub'} (hstep : w.hub.Step e hub') (he : e ≠ .receive c) :
      Step codec c w (.hub e) { w with hub := hub' }
  | pump {e p'} (hstep : Pipe.PumpStep codec (w.pipe c) e p') :
      Step codec c w (.pump e)
        ⟨if e.takes then
            { w.hub with send := Function.update w.hub.send c (w.hub.send c).receive }
          else w.hub,
          p'.taken, p'.phase, p'.frames⟩

end Steps

variable [DecidableEq κ] [DecidableEq β] {codec : LineCodec (Message κ P) β} {c : κ}
  {w w' : Wire κ P β} {e : WireEvent κ P} {es : List (WireEvent κ P)}

omit [DecidableEq β] in
theorem pipe_pump {e : PumpEvent} {p' : Pipe (Message κ P) β}
    (hstep : Pipe.PumpStep codec (w.pipe c) e p') :
    pipe c ⟨if e.takes then
        { w.hub with send := Function.update w.hub.send c (w.hub.send c).receive }
      else w.hub, p'.taken, p'.phase, p'.frames⟩ = p' := by
  cases hstep <;> simp [pipe, Channel.pipe, PumpEvent.takes, Pipe.receive, Channel.receive]

theorem Step.sound (h : (w.pipe c).Sound codec sendBufferSize) (hstep : Step codec c w e w') :
    (w'.pipe c).Sound codec sendBufferSize := by
  cases hstep with
  | hub hstep he => exact h.moves ((hstep.channel he).pipe ..)
  | pump hstep =>
      rw [pipe_pump hstep]
      exact h.step hstep

theorem sound (hrun : Trace (Step codec c) start es w) :
    (w.pipe c).Sound codec sendBufferSize :=
  hrun.invariant (P := fun _ w => (w.pipe c).Sound codec sendBufferSize) Pipe.sound_empty
    fun h hstep => hstep.sound h

/-- The event of the hub, for which a message that is taken out counts. -/
def hubEvent? (c : κ) : WireEvent κ P → Option (HubEvent κ P)
  | .hub e => some e
  | .pump e => if e.takes then some (.receive c) else none

omit [DecidableEq β] in
theorem Step.feed {d : HubEvent κ P} (hstep : Step codec c w e w') (he : hubEvent? c e = some d) :
    Hub.FeedStep c (w.hub, w.taken) d (w'.hub, w'.taken) := by
  cases hstep with
  | @hub e _ hstep hne =>
      obtain rfl := Option.some.inj he
      have htakes : w.hub.takes c e = [] := by
        cases e with
        | receive c' => exact if_neg fun hc => hne (congrArg HubEvent.receive hc)
        | _ => rfl
      refine ⟨hstep, ?_⟩
      rw [htakes, List.append_nil]
  | @pump e p' hstep =>
      by_cases htakes : e.takes = true
      · obtain rfl : HubEvent.receive c = d := by simpa [hubEvent?, htakes] using he
        refine ⟨?_, ?_⟩
        · simp only [htakes, if_true]
          exact .receive
        · have htaken := hstep.taken
          rw [if_pos htakes] at htaken
          simp only [Hub.takes, if_true]
          exact htaken
      · simp [hubEvent?, htakes] at he

omit [DecidableEq β] in
theorem Step.no_feed (hstep : Step codec c w e w') (he : hubEvent? c e = none) :
    (w'.hub, w'.taken) = (w.hub, w.taken) := by
  cases hstep with
  | hub hstep _ => cases he
  | @pump e p' hstep =>
      have htakes : ¬e.takes = true := fun htakes => by simp [hubEvent?, htakes] at he
      have htaken := hstep.taken
      rw [if_neg htakes, List.append_nil] at htaken
      simp only [if_neg htakes]
      exact congrArg (Prod.mk w.hub) htaken

omit [DecidableEq β] in
theorem feed_trace (hrun : Trace (Step codec c) start es w) :
    Trace (Hub.FeedStep c) (.new, []) (es.filterMap (hubEvent? c)) (w.hub, w.taken) := by
  obtain ⟨s, htrace, rfl⟩ := hrun.simulate (f := hubEvent? c)
    (R := fun w s => (w.hub, w.taken) = s) rfl
    (by
      rintro w e w' _ d hd rfl hstep
      exact ⟨_, hstep.feed hd, rfl⟩)
    (by
      rintro w e w' _ hd rfl hstep
      exact hstep.no_feed hd)
  exact htrace

/-- What the client reads: every line of the frames is a message. -/
def received (codec : LineCodec (Message κ P) β) (w : Wire κ P β) : List (Message κ P) :=
  (w.frames.flatMap (Pipe.lines codec)).filterMap codec.decode

omit [DecidableEq κ] [DecidableEq β] in
theorem filterMap_decode (codec : LineCodec (Message κ P) β) (messages : List (Message κ P)) :
    (messages.map codec.encode).filterMap codec.decode = messages := by
  rw [List.filterMap_map]
  exact (List.filterMap_congr fun m _ => codec.decode_encode m).trans List.filterMap_some

/-- For any interleaving of the hub, the client's read pump, the timer's
goroutines and the write pump: what the client reads, line by line, are the
messages that were taken out of its channel, in their order and none of them
broken, and of a feed it reads only what `Run` was given, in that order. If
the last it reads is the close frame, it has read everything that was ever put
into its channel. The pump never blocks while it writes a frame, and a frame
has at most 257 messages. -/
theorem wire_in_order (hrun : Trace (Step codec c) start es w) :
    w.received codec <+: w.taken
    ∧ (∀ line ∈ w.frames.flatMap (Pipe.lines codec), (codec.decode line).isSome = true)
    ∧ (∀ feed : Feed, ((w.received codec).filterMap feed.payload?).Sublist
        ((es.filterMap (hubEvent? c)).filterMap feed.given?))
    ∧ (.close ∈ w.frames → w.received codec = w.taken ∧ (w.hub.send c).buffer = [])
    ∧ (∀ frame n, w.phase = .writing frame (some n) → n ≤ (w.hub.send c).buffer.length)
    ∧ ∀ frame ∈ w.frames, (Pipe.lines codec frame).length ≤ 257 := by
  have hsound := sound hrun
  have hlines : w.frames.flatMap (Pipe.lines codec) <+: w.taken.map codec.encode :=
    hsound.sent_prefix
  have hreceived : w.received codec <+: w.taken := by
    have hdecoded := hlines.filterMap codec.decode
    rwa [filterMap_decode] at hdecoded
  refine ⟨hreceived, ?_, ?_, ?_, ?_, hsound.sizes⟩
  · intro line hline
    obtain ⟨m, -, rfl⟩ := List.mem_map.mp (hlines.subset hline)
    rw [codec.decode_encode, Option.isSome_some]
  · intro feed
    have hshown : ((w.received codec).filterMap feed.payload?).Sublist
        (Hub.shown feed c (w.hub, w.taken)) :=
      (hreceived.sublist.trans (List.sublist_append_left ..)).filterMap _
    exact (hshown.trans (List.sublist_append_left ..)).trans
      (Hub.relay_sublist (feed_trace hrun) feed)
  · intro hclose
    obtain ⟨hsent, hqueue⟩ := hsound.of_close hclose
    refine ⟨?_, hqueue⟩
    exact (congrArg (List.filterMap codec.decode) hsent).trans (filterMap_decode ..)
  · intro frame n hphase
    exact ((hsound.writing hphase).1.room n rfl).1

/-- A codec whose bytes are messages, with one more for the newline. -/
def tokens : LineCodec (Message Nat Nat) (Option (Message Nat Nat)) where
  newline := none
  encode m := [some m]
  decode
    | [some m] => some m
    | _ => none
  decode_encode _ := rfl
  newline_notMem m := by simp

omit [DecidableEq β] in
theorem hub_next {h' : Hub κ P} (hrun : Trace (Step codec c) start es w) (e : HubEvent κ P)
    (hstep : w.hub.Step e h') (he : e ≠ .receive c) :
    Trace (Step codec c) start (es ++ [.hub e]) { w with hub := h' } :=
  hrun.snoc (.hub hstep he)

/-- A client that sends a ping while the welcome is being written reads one
frame with two lines. -/
theorem wire_in_order_ping :
    ∃ (es : List (WireEvent Nat Nat)) (w : Wire Nat Nat (Option (Message Nat Nat))),
      Trace (Step tokens 0) start es w
      ∧ w.frames = [.text [some (welcome 0), none, some ⟨"pong", "", .none⟩], .close]
      ∧ w.received tokens = w.taken := by
  have h₀ : Trace (Step tokens 0) (start : Wire Nat Nat (Option (Message Nat Nat))) [] start :=
    .nil
  have h₁ := hub_next h₀ (.accept 0) (.accept rfl) (by simp)
  have h₂ := hub_next h₁ (.register 0) (.register rfl rfl) (by simp)
  have h₃ := hub_next h₂ (.registered 0) (.registered rfl) (by simp)
  have h₄ := hub_next h₃ (.start 0) (.start rfl) (by simp)
  have h₅ := h₄.next (.pump .take) (.pump (.take rfl rfl))
  have h₆ := hub_next h₅ (.read 0 (some ⟨"ping", ""⟩) none) (.read rfl) (by simp)
  have h₇ := hub_next h₆ (.perform 0) (.perform rfl) (by simp)
  have h₈ := h₇.next (.pump .count) (.pump (.count rfl))
  have h₉ := h₈.next (.pump .more) (.pump (.more rfl rfl))
  have h₁₀ := h₉.next (.pump .flush) (.pump (.flush rfl))
  have h₁₁ := hub_next h₁₀ (.handled 0) (.handled rfl) (by simp)
  have h₁₂ := hub_next h₁₁ (.hangUp 0) (.hangUp rfl) (by simp)
  have h₁₃ := hub_next h₁₂ (.unregister 0) (.unregister rfl rfl) (by simp)
  have h₁₄ := hub_next h₁₃ (.unregistered 0) (.unregistered rfl) (by simp)
  have h₁₅ := h₁₄.next (.pump .finish) (.pump (.finish rfl rfl rfl))
  exact ⟨_, _, h₁₅, rfl, ((wire_in_order h₁₅).2.2.2.1 (by simp)).1⟩

end Wire

end TradingBackend.Websocket
