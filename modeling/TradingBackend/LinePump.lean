import Mathlib.Data.List.Infix
import Mathlib.Order.Basic
import TradingBackend.Trace

/-!
# A pump that writes messages in lines

Messages wait in a bounded channel. A pump takes one out, writes it into a
frame, asks how many more are waiting, adds that many to the frame with a
newline before each, and sends the frame. Between any two of its steps
messages may be put into the channel, and the channel may be closed.

As nobody else takes messages out, those that were counted are there when
they are taken, and the lines of the frames are the messages in their order
(`Pipe.Sound`).
-/

namespace TradingBackend

structure LineCodec (α β : Type) where
  newline : β
  encode : α → List β
  decode : List β → Option α
  decode_encode : ∀ a, decode (encode a) = some a
  newline_notMem : ∀ a, newline ∉ encode a

inductive WireFrame (β : Type) where
  | text (bytes : List β)
  | ping
  | close

/-- Where the pump is. `left` is how many of the messages it has counted are
still to be taken, once it has counted them. -/
inductive PumpPhase (β : Type) where
  | selecting
  | writing (frame : List β) (left : Option Nat)
  | stopped

/-- The channel, what has been taken out of it, and the pump with the frames
it has sent. -/
structure Pipe (α β : Type) where
  queue : List α
  closed : Bool
  taken : List α
  phase : PumpPhase β
  frames : List (WireFrame β)

inductive PumpEvent where
  | take
  | takeFails
  | count
  | more
  | moreClosed
  | flush
  | flushFails
  | ping
  | pingFails
  | finish

namespace PumpEvent

/-- Whether a message is taken out. -/
def takes : PumpEvent → Bool
  | take | takeFails | more => true
  | _ => false

end PumpEvent

namespace Pipe

section Steps

variable {α β : Type}

def empty : Pipe α β := ⟨[], false, [], .selecting, []⟩

def receive (p : Pipe α β) (a : α) : Pipe α β :=
  { p with queue := p.queue.tail, taken := p.taken ++ [a] }

inductive PumpStep (codec : LineCodec α β) (p : Pipe α β) : PumpEvent → Pipe α β → Prop where
  | take {a} (hphase : p.phase = .selecting) (ha : p.queue.head? = some a) :
      PumpStep codec p .take { p.receive a with phase := .writing (codec.encode a) none }
  | takeFails {a} (hphase : p.phase = .selecting) (ha : p.queue.head? = some a) :
      PumpStep codec p .takeFails { p.receive a with phase := .stopped }
  | count {frame} (hphase : p.phase = .writing frame none) :
      PumpStep codec p .count { p with phase := .writing frame (some p.queue.length) }
  | more {frame n a} (hphase : p.phase = .writing frame (some (n + 1)))
      (ha : p.queue.head? = some a) :
      PumpStep codec p .more
        { p.receive a with
          phase := .writing (frame ++ codec.newline :: codec.encode a) (some n) }
  -- a receive from a channel that is closed and empty gives no message
  | moreClosed {frame n} (hphase : p.phase = .writing frame (some (n + 1)))
      (hqueue : p.queue = []) (hclosed : p.closed = true) :
      PumpStep codec p .moreClosed
        { p with phase := .writing (frame ++ [codec.newline]) (some n) }
  | flush {frame} (hphase : p.phase = .writing frame (some 0)) :
      PumpStep codec p .flush { p with phase := .selecting, frames := p.frames ++ [.text frame] }
  | flushFails {frame} (hphase : p.phase = .writing frame (some 0)) :
      PumpStep codec p .flushFails { p with phase := .stopped }
  | ping (hphase : p.phase = .selecting) :
      PumpStep codec p .ping { p with frames := p.frames ++ [.ping] }
  | pingFails (hphase : p.phase = .selecting) :
      PumpStep codec p .pingFails { p with phase := .stopped }
  | finish (hphase : p.phase = .selecting) (hqueue : p.queue = []) (hclosed : p.closed = true) :
      PumpStep codec p .finish { p with phase := .stopped, frames := p.frames ++ [.close] }

/-- What others do to the channel: a message goes in, or is dropped, or the
channel is closed. -/
inductive Moves (capacity : Nat) (p : Pipe α β) : Pipe α β → Prop where
  | same : Moves capacity p p
  | send {a} (hopen : p.closed = false) (hroom : p.queue.length < capacity) :
      Moves capacity p { p with queue := p.queue ++ [a] }
  | close : Moves capacity p { p with closed := true }

end Steps

variable {α β : Type} [DecidableEq β] {codec : LineCodec α β} {capacity : Nat} {p p' : Pipe α β}
  {e : PumpEvent}

omit [DecidableEq β] in
theorem PumpStep.taken (hstep : PumpStep codec p e p') :
    p'.taken = p.taken ++ if e.takes then p.queue.head?.toList else [] := by
  cases hstep with
  | take _ ha => simp [PumpEvent.takes, receive, ha]
  | takeFails _ ha => simp [PumpEvent.takes, receive, ha]
  | more _ ha => simp [PumpEvent.takes, receive, ha]
  | _ => simp [PumpEvent.takes]

def lines (codec : LineCodec α β) : WireFrame β → List (List β)
  | .text bytes => bytes.splitOn codec.newline
  | _ => []

def sent (codec : LineCodec α β) (p : Pipe α β) : List (List β) := p.frames.flatMap (lines codec)

theorem splitOn_encode (codec : LineCodec α β) (a : α) :
    (codec.encode a).splitOn codec.newline = [codec.encode a] :=
  List.splitOn_eq_singleton (codec.newline_notMem a)

omit [DecidableEq β] in
theorem map_encode_snoc (codec : LineCodec α β) (taken : List α) (a : α) :
    (taken ++ [a]).map codec.encode = taken.map codec.encode ++ [codec.encode a] :=
  List.map_append

/-- A frame that is being written, after the lines `before`. What was counted
is among the `waiting` messages of the channel. -/
structure Writing (codec : LineCodec α β) (capacity : Nat) (before : List (List β))
    (taken : List α) (waiting : Nat) (frame : List β) (left : Option Nat) : Prop where
  lines : before ++ frame.splitOn codec.newline = taken.map codec.encode
  first : left = none → (frame.splitOn codec.newline).length = 1
  room : ∀ n, left = some n →
    n ≤ waiting ∧ (frame.splitOn codec.newline).length + n ≤ capacity + 1

section Writing

variable {before : List (List β)} {taken : List α} {waiting waiting' : Nat} {frame : List β}
  {left : Option Nat} {a : α} {n : Nat}

theorem Writing.start (h : before = taken.map codec.encode) :
    Writing codec capacity before (taken ++ [a]) waiting (codec.encode a) none where
  lines := by rw [splitOn_encode, h, map_encode_snoc]
  first _ := by rw [splitOn_encode, List.length_singleton]
  room n hn := by cases hn

theorem Writing.count (h : Writing codec capacity before taken waiting frame none)
    (hcapacity : waiting ≤ capacity) :
    Writing codec capacity before taken waiting frame (some waiting) where
  lines := h.lines
  first hnone := by cases hnone
  room n hn := by
    cases hn
    rw [h.first rfl]
    exact ⟨le_rfl, by omega⟩

theorem Writing.more (h : Writing codec capacity before taken waiting frame (some (n + 1))) :
    Writing codec capacity before (taken ++ [a]) (waiting - 1)
      (frame ++ codec.newline :: codec.encode a) (some n) := by
  have hsplit : (frame ++ codec.newline :: codec.encode a).splitOn codec.newline =
      frame.splitOn codec.newline ++ [codec.encode a] := by
    rw [List.splitOn_append_cons_self, splitOn_encode]
  obtain ⟨hwaiting, hroom⟩ := h.room (n + 1) rfl
  constructor
  · rw [hsplit, ← List.append_assoc, h.lines, map_encode_snoc]
  · intro hnone
    cases hnone
  · intro m hm
    cases hm
    rw [hsplit, List.length_append, List.length_singleton]
    omega

theorem Writing.grow (h : Writing codec capacity before taken waiting frame left)
    (hle : waiting ≤ waiting') : Writing codec capacity before taken waiting' frame left :=
  ⟨h.lines, h.first, fun n hn => ⟨(h.room n hn).1.trans hle, (h.room n hn).2⟩⟩

end Writing

/-- The frames and what has been taken out of the channel, wherever the pump
is. Messages are lost only when it stops for an error. -/
def Written (codec : LineCodec α β) (capacity : Nat) (p : Pipe α β) : PumpPhase β → Prop
  | .selecting => p.sent codec = p.taken.map codec.encode ∧ .close ∉ p.frames
  | .writing frame left =>
      Writing codec capacity (p.sent codec) p.taken p.queue.length frame left ∧ .close ∉ p.frames
  | .stopped => p.sent codec <+: p.taken.map codec.encode
      ∧ (.close ∈ p.frames → p.sent codec = p.taken.map codec.encode ∧ p.queue = []
        ∧ p.closed = true)

/-- What holds in every run. A frame has at most one message more than the
channel can hold, because the pump looks at the length of the channel once. -/
structure Sound (codec : LineCodec α β) (capacity : Nat) (p : Pipe α β) : Prop where
  bounded : p.queue.length ≤ capacity
  written : Written codec capacity p p.phase
  sizes : ∀ frame ∈ p.frames, (lines codec frame).length ≤ capacity + 1

theorem sound_empty : Sound codec capacity empty :=
  ⟨Nat.zero_le _, ⟨rfl, List.not_mem_nil⟩, List.forall_mem_nil _⟩

theorem Sound.selecting (h : Sound codec capacity p) (hphase : p.phase = .selecting) :
    p.sent codec = p.taken.map codec.encode ∧ .close ∉ p.frames := by
  have hw := h.written
  rwa [hphase] at hw

theorem Sound.writing {frame : List β} {left : Option Nat} (h : Sound codec capacity p)
    (hphase : p.phase = .writing frame left) :
    Writing codec capacity (p.sent codec) p.taken p.queue.length frame left
    ∧ .close ∉ p.frames := by
  have hw := h.written
  rwa [hphase] at hw

/-- The lines that have been sent are messages that were taken out. -/
theorem Sound.sent_prefix (h : Sound codec capacity p) :
    p.sent codec <+: p.taken.map codec.encode := by
  cases hphase : p.phase with
  | selecting => exact (h.selecting hphase).1 ▸ List.prefix_rfl
  | writing frame left => exact ⟨_, (h.writing hphase).1.lines⟩
  | stopped =>
      have hw := h.written
      rw [hphase] at hw
      exact hw.1

theorem Sound.of_close (h : Sound codec capacity p) (hclose : .close ∈ p.frames) :
    p.sent codec = p.taken.map codec.encode ∧ p.queue = [] := by
  cases hphase : p.phase with
  | selecting => exact absurd hclose (h.selecting hphase).2
  | writing frame left => exact absurd hclose (h.writing hphase).2
  | stopped =>
      have hw := h.written
      rw [hphase] at hw
      exact ⟨(hw.2 hclose).1, (hw.2 hclose).2.1⟩

/-- What others do to the channel does not disturb the pump. -/
theorem Sound.moves (h : Sound codec capacity p) (hmoves : Moves capacity p p') :
    Sound codec capacity p' := by
  obtain ⟨hbounded, hwritten, hsizes⟩ := h
  cases hmoves with
  | same => exact ⟨hbounded, hwritten, hsizes⟩
  | @send a hopen hroom =>
      have hlength : (p.queue ++ [a]).length = p.queue.length + 1 := List.length_append
      refine ⟨hlength.trans_le hroom, ?_, hsizes⟩
      cases hphase : p.phase <;> rw [hphase] at hwritten
      case selecting => exact hwritten
      case writing => exact ⟨hwritten.1.grow ((Nat.le_succ _).trans hlength.ge), hwritten.2⟩
      case stopped =>
        refine ⟨hwritten.1, fun hclose => ?_⟩
        cases hopen.symm.trans (hwritten.2 hclose).2.2
  | close =>
      refine ⟨hbounded, ?_, hsizes⟩
      cases hphase : p.phase <;> rw [hphase] at hwritten
      case selecting => exact hwritten
      case writing => exact hwritten
      case stopped =>
        exact ⟨hwritten.1, fun hclose => ⟨(hwritten.2 hclose).1, (hwritten.2 hclose).2.1, rfl⟩⟩

theorem sent_snoc (codec : LineCodec α β) (frames : List (WireFrame β)) (frame : WireFrame β) :
    (frames ++ [frame]).flatMap (lines codec) =
      frames.flatMap (lines codec) ++ lines codec frame := by
  rw [List.flatMap_append, List.flatMap_singleton]

theorem Sound.step (h : Sound codec capacity p) (hstep : PumpStep codec p e p') :
    Sound codec capacity p' := by
  have htail : p.queue.tail.length = p.queue.length - 1 := List.length_tail
  have htail' : p.queue.tail.length ≤ capacity :=
    (htail.trans_le (Nat.sub_le _ _)).trans h.bounded
  cases hstep with
  | take hphase _ =>
      obtain ⟨hsent, hnot⟩ := h.selecting hphase
      exact ⟨htail', ⟨.start hsent, hnot⟩, h.sizes⟩
  | @takeFails a hphase _ =>
      obtain ⟨hsent, hnot⟩ := h.selecting hphase
      refine ⟨htail', ⟨⟨[codec.encode a], ?_⟩, fun hclose => absurd hclose hnot⟩, h.sizes⟩
      exact (congrArg (· ++ [codec.encode a]) hsent).trans (map_encode_snoc ..).symm
  | count hphase =>
      obtain ⟨hw, hnot⟩ := h.writing hphase
      exact ⟨h.bounded, ⟨hw.count h.bounded, hnot⟩, h.sizes⟩
  | more hphase _ =>
      obtain ⟨hw, hnot⟩ := h.writing hphase
      exact ⟨htail', ⟨hw.more.grow htail.ge, hnot⟩, h.sizes⟩
  | moreClosed hphase hqueue hclosed =>
      -- what was counted is still there
      have hle := ((h.writing hphase).1.room _ rfl).1
      rw [hqueue] at hle
      exact absurd hle (Nat.not_succ_le_zero _)
  | @flush frame hphase =>
      obtain ⟨hw, hnot⟩ := h.writing hphase
      refine ⟨h.bounded, ⟨?_, ?_⟩, ?_⟩
      · exact (sent_snoc ..).trans hw.lines
      · simpa using hnot
      · refine List.forall_mem_append.mpr ⟨h.sizes, List.forall_mem_singleton.mpr ?_⟩
        exact (hw.room 0 rfl).2
  | @flushFails frame hphase =>
      obtain ⟨hw, hnot⟩ := h.writing hphase
      exact ⟨h.bounded, ⟨⟨_, hw.lines⟩, fun hclose => absurd hclose hnot⟩, h.sizes⟩
  | ping hphase =>
      obtain ⟨hsent, hnot⟩ := h.selecting hphase
      refine ⟨h.bounded, ?_, ?_⟩
      · rw [hphase]
        exact ⟨((sent_snoc ..).trans (List.append_nil _)).trans hsent, by simpa using hnot⟩
      · refine List.forall_mem_append.mpr ⟨h.sizes, List.forall_mem_singleton.mpr ?_⟩
        exact Nat.zero_le _
  | pingFails hphase =>
      obtain ⟨hsent, hnot⟩ := h.selecting hphase
      exact ⟨h.bounded, ⟨hsent ▸ List.prefix_rfl, fun hclose => absurd hclose hnot⟩, h.sizes⟩
  | finish hphase hqueue hclosed =>
      obtain ⟨hsent, -⟩ := h.selecting hphase
      have hall := ((sent_snoc codec p.frames .close).trans (List.append_nil _)).trans hsent
      refine ⟨h.bounded, ⟨⟨[], (List.append_nil _).trans hall⟩,
        fun _ => ⟨hall, hqueue, hclosed⟩⟩, ?_⟩
      refine List.forall_mem_append.mpr ⟨h.sizes, List.forall_mem_singleton.mpr ?_⟩
      exact Nat.zero_le _

end Pipe

end TradingBackend
