import TradingBackend.Batcher
import TradingBackend.Hub

/-!
# Batches of order book deltas

`Run` and `flushOrderbookDeltas` of `websocket/hub.go` are a `Batcher`
(`Hub.batcher`): the other steps of the hub do not touch the pending
deltas, their timer or their mutex. A flush keeps the mutex while it
broadcasts, so `Run` may have received a delta that it cannot add yet.

What has been flushed is read off the messages that the goroutines of the
timer begin to broadcast. The message is marshalled before the slice is
truncated, so it carries the deltas that were pending.
-/

namespace TradingBackend.Websocket

variable {κ P : Type}

/-- The delta `Run` has received and not yet added. -/
def LoopRole.hand : LoopRole κ P → Option P
  | .batching delta => some delta
  | _ => none

def FlushRole.phase : FlushRole κ P → TimerPhase
  | .absent => .absent
  | .armed => .armed
  | .casting _ => .flushing
  | .clearing => .flushing

theorem FlushRole.eq_armed {role : FlushRole κ P} (h : role.phase = .armed) :
    role = .armed := by
  cases role with
  | armed => rfl
  | _ => cases h

def FlushRole.batch : FlushRole κ P → List (List P)
  | .casting (.fetching _ message) =>
      match message.data with
      | .batch ps => [ps]
      | _ => []
  | _ => []

namespace HubEvent

def batcher : HubEvent κ P → Option (BatcherEvent P GoID)
  | .delta p => some (.receive p)
  | .batched g => some (.add g)
  | .flush g => some (.flush g)
  | .flushed g => some (.flushed g)
  | _ => none

def receivedDelta : HubEvent κ P → Option P
  | .delta p => some p
  | _ => none

theorem filterMap_batcher (es : List (HubEvent κ P)) :
    (es.filterMap batcher).filterMap Batcher.received = es.filterMap receivedDelta := by
  rw [List.filterMap_filterMap]
  congr 1
  funext e
  cases e <;> rfl

end HubEvent

namespace Hub

/-- The batches that a step begins to broadcast, as the state after it
shows. -/
def flushes (h : Hub κ P) : HubEvent κ P → List (List P)
  | .flush g => (h.timers g).batch
  | _ => []

def batcher (h : Hub κ P) (batches : List (List P)) : Batcher P GoID where
  pending := h.pendingDeltas
  timer := h.batchTimer
  mutex := h.batchMutex
  hand := h.loop.hand
  phases g := (h.timers g).phase
  handed := batches

variable {h h' : Hub κ P} {batches : List (List P)}

theorem batcher_moveTimer (g : GoID) (role : FlushRole κ P) :
    (h.moveTimer g role).batcher batches = (h.batcher batches).moveTimer g role.phase := by
  simp only [moveTimer, batcher, Batcher.moveTimer, Batcher.mk.injEq, true_and, and_true]
  funext g'
  by_cases hg : g' = g
  · subst hg
    rw [Function.update_self, Function.update_self]
  · rw [Function.update_of_ne hg, Function.update_of_ne hg]

theorem flushes_moveTimer (g : GoID) (role : FlushRole κ P) :
    (h.moveTimer g role).flushes (.flush g) = role.batch :=
  congrArg FlushRole.batch (Function.update_self ..)

theorem batcher_recast {who : Option GoID} {cast : Cast κ P} (hwho : h.casting who = some cast)
    (next : Option (Cast κ P)) : (h.recast next who).batcher batches = h.batcher batches := by
  cases who with
  | none =>
      simp only [casting] at hwho
      split at hwho
      · next hloop => cases next <;> simp [recast, batcher, hloop, LoopRole.hand]
      · cases hwho
  | some g =>
      simp only [casting] at hwho
      split at hwho
      · next hg =>
          have hphase : (h.batcher batches).phases g = .flushing := by
            simp [batcher, hg, FlushRole.phase]
          have hnext : (next.elim FlushRole.clearing FlushRole.casting).phase = .flushing := by
            cases next <;> rfl
          rw [recast, batcher_moveTimer, hnext, ← hphase, Batcher.moveTimer,
            Function.update_eq_self]
      · cases hwho

variable [DecidableEq κ]

/-- The steps of the hub, with the batches that have been flushed. -/
def BatchStep (s : Hub κ P × List (List P)) (e : HubEvent κ P) (s' : Hub κ P × List (List P)) :
    Prop :=
  s.1.Step e s'.1 ∧ s'.2 = s.2 ++ s'.1.flushes e

theorem batch_next {es : List (HubEvent κ P)} (htrace : Trace BatchStep (new, []) es (h, batches))
    (e : HubEvent κ P) (hstep : h.Step e h') :
    Trace BatchStep (new, []) (es ++ [e]) (h', batches ++ h'.flushes e) :=
  htrace.snoc ⟨hstep, rfl⟩

theorem exists_batches {es : List (HubEvent κ P)} (h : Trace Step (new : Hub κ P) es h') :
    ∃ batches, Trace BatchStep (new, []) es (h', batches) := by
  induction h with
  | nil => exact ⟨[], .nil⟩
  | @snoc es h e h' _ hstep ih =>
      obtain ⟨batches, htrace⟩ := ih
      exact ⟨batches ++ h'.flushes e, batch_next htrace e hstep⟩

theorem batcher_perform (c : κ) (op : ClientOp κ P) :
    (h.perform c op).batcher batches = h.batcher batches := by
  cases op with
  | subscribe topic =>
      simp only [perform, subscribe]
      split <;> rfl
  | unsubscribe topic =>
      simp only [perform, unsubscribe]
      split <;> rfl
  | send message => rfl

theorem Step.batcher_some {e : HubEvent κ P} (hstep : h.Step e h')
    {d : BatcherEvent P GoID} (he : e.batcher = some d) :
    Batcher.Step (h.batcher batches) d (h'.batcher (batches ++ h'.flushes e)) := by
  have hphase {g : GoID} {role : FlushRole κ P} (hg : h.timers g = role) :
      (h.batcher batches).phases g = role.phase := congrArg FlushRole.phase hg
  have hhand {role : LoopRole κ P} (hloop : h.loop = role) :
      (h.batcher batches).hand = role.hand := congrArg LoopRole.hand hloop
  have hnil {h' : Hub κ P} {e : HubEvent κ P} (he : ∀ g, e ≠ .flush g) :
      batches ++ h'.flushes e = batches := by
    cases e <;> first | exact List.append_nil _ | exact absurd rfl (he _)
  cases hstep with
  | delta hloop =>
      obtain rfl := Option.some.inj he
      rw [hnil (by simp)]
      exact .receive (hhand hloop)
  | batched hloop hmutex htimer =>
      obtain rfl := Option.some.inj he
      rw [hnil (by simp)]
      exact .add (hhand hloop) hmutex htimer
  | armed hloop hmutex htimer hg =>
      obtain rfl := Option.some.inj he
      rw [hnil (by simp), batcher_moveTimer]
      exact .arm (hhand hloop) hmutex htimer (hphase hg)
  | flush hg hmutex hdeltas =>
      obtain rfl := Option.some.inj he
      rw [recast, flushes_moveTimer, batcher_moveTimer]
      exact .flush (hphase hg) hmutex hdeltas
  | flushNothing hg hmutex hdeltas =>
      obtain rfl := Option.some.inj he
      have hbatch : (FlushRole.absent : FlushRole κ P).batch = [] := rfl
      rw [flushes_moveTimer, hbatch, List.append_nil, batcher_moveTimer]
      exact .flushNothing (hphase hg) hmutex hdeltas
  | flushed hg =>
      obtain rfl := Option.some.inj he
      rw [hnil (by simp), batcher_moveTimer]
      exact .flushed (hphase hg)
  | _ => cases he

theorem Step.batcher_none {e : HubEvent κ P} (hstep : h.Step e h') (he : e.batcher = none) :
    h'.batcher (batches ++ h'.flushes e) = h.batcher batches := by
  have hnone : h'.flushes e = [] := by
    cases e <;> first | rfl | cases he
  rw [hnone, List.append_nil]
  cases hstep with
  | accept hc => rfl
  | register hloop hc => simp [batcher, move, hloop, LoopRole.hand]
  | registered hloop => simp [batcher, hloop, LoopRole.hand]
  | start hc => rfl
  | read hc => rfl
  | perform hc => exact batcher_perform ..
  | handled hc => rfl
  | hangUp hc => rfl
  | unregister hloop hc => simp [batcher, move, hloop, LoopRole.hand]
  | unregistered hloop =>
      unfold unregisterClient
      split <;> simp [batcher, hloop, LoopRole.hand]
  | receive => rfl
  | trade hloop => simp [batcher, recast, hloop, LoopRole.hand]
  | order hloop => simp [batcher, recast, hloop, LoopRole.hand]
  | fetch hwho => exact batcher_recast hwho _
  | check hwho => exact batcher_recast hwho _
  | deliver hwho => exact batcher_recast (h := Hub.deliver ..) hwho _
  | _ => cases he

theorem batcher_trace {es : List (HubEvent κ P)}
    (h : Trace BatchStep (new, []) es (h', batches)) :
    Trace Batcher.Step .new (es.filterMap HubEvent.batcher) (h'.batcher batches) := by
  have hsim : ∃ b, Trace Batcher.Step .new (es.filterMap HubEvent.batcher) b
      ∧ b = h'.batcher batches := by
    refine h.simulate (R := fun s b => b = s.1.batcher s.2) rfl ?_ ?_
    · rintro s e s' b d he rfl ⟨hstep, hbatches⟩
      refine ⟨_, ?_, rfl⟩
      rw [hbatches]
      exact hstep.batcher_some he
    · rintro s e s' b he rfl ⟨hstep, hbatches⟩
      rw [hbatches]
      exact (hstep.batcher_none he).symm
  obtain ⟨b, htrace, rfl⟩ := hsim
  exact htrace

/-- While no flush is under way, the batches flushed so far and then the
pending deltas are the deltas received, in order, up to the one that `Run` is
about to add; and if there are pending deltas then a timer is armed that has
not begun its flush. While a flush is under way its batch is the pending
deltas still, so that truncating their slice afterwards loses none of them and
the message, which refers to the same slice, does not change under the
broadcast. -/
theorem deltas_batched_in_order {es : List (HubEvent κ P)}
    (h : Trace BatchStep (new, []) es (h', batches)) :
    (h'.batchMutex = none →
      batches.flatten ++ h'.pendingDeltas ++ h'.loop.hand.toList
        = es.filterMap HubEvent.receivedDelta
      ∧ (h'.pendingDeltas ≠ [] → ∃ g, h'.timers g = .armed))
    ∧ ∀ g, h'.batchMutex = some g →
        (h'.timers g).phase = .flushing
        ∧ (∃ before, batches = before ++ [h'.pendingDeltas])
        ∧ batches.flatten ++ h'.loop.hand.toList = es.filterMap HubEvent.receivedDelta := by
  have hsound := Batcher.sound (batcher_trace h)
  rw [HubEvent.filterMap_batcher] at hsound
  refine ⟨fun hmutex => ⟨hsound.inOrder.of_free hmutex, fun hpending => ?_⟩,
    fun g hmutex => ⟨hsound.flushing hmutex, hsound.inOrder.of_held hmutex⟩⟩
  obtain ⟨g, hg⟩ := hsound.exists_armed hmutex hpending
  exact ⟨g, FlushRole.eq_armed hg⟩

/-- Two deltas, of which the second comes while the first is flushed to
nobody, and is added when the flush is over. -/
theorem two_deltas_batched :
    ∃ h' : Hub Nat String,
      Trace BatchStep (new, [])
        [.delta "a", .batched 0, .flush 0, .delta "b", .fetch (some 0), .flushed 0, .batched 1]
        (h', [["a"]])
      ∧ h'.pendingDeltas = ["b"] ∧ ∃ g, h'.timers g = .armed := by
  have h₀ : Trace BatchStep ((new : Hub Nat String), []) [] (new, []) := .nil
  have h₁ := batch_next h₀ (.delta "a") (.delta rfl)
  have h₂ := batch_next h₁ (.batched 0) (.armed rfl rfl rfl rfl)
  have h₃ := batch_next h₂ (.flush 0) (.flush rfl rfl (List.cons_ne_nil _ _))
  have h₄ := batch_next h₃ (.delta "b") (.delta rfl)
  have h₅ := batch_next h₄ (.fetch (some 0)) (.fetch rfl)
  have h₆ := batch_next h₅ (.flushed 0) (.flushed rfl)
  have h₇ := batch_next h₆ (.batched 1) (.armed rfl rfl rfl rfl)
  exact ⟨_, h₇, rfl, ((deltas_batched_in_order h₇).1 rfl).2 (List.cons_ne_nil _ _)⟩

end Hub

end TradingBackend.Websocket
