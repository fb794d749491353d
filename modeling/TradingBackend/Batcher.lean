import Mathlib.Logic.Function.Basic
import TradingBackend.Trace

/-!
# A batch that a timer flushes

Items are received one at a time and added to a batch; the first one arms a
timer, and the timer hands the batch over and empties it. Adding and
flushing exclude each other by a mutex, but a flush is two steps: the batch
is handed over in one and emptied in another, and an item may be received
in between.

Whatever the order of the steps, nothing is lost, handed over twice or put
out of order, and a batch that is not empty has a timer (`Sound`).
-/

namespace TradingBackend

inductive TimerPhase where
  | absent
  | armed
  | flushing
deriving DecidableEq

/-- The batch, its timer and mutex, and the batches that have been handed
over. `hand` is an item that is received and not yet added. -/
structure Batcher (α ι : Type) where
  pending : List α
  timer : Bool
  mutex : Option ι
  hand : Option α
  phases : ι → TimerPhase
  handed : List (List α)

inductive BatcherEvent (α ι : Type) where
  | receive (a : α)
  | add (i : ι)
  | flush (i : ι)
  | flushed (i : ι)

namespace Batcher

variable {α ι : Type} [DecidableEq ι]

def new : Batcher α ι := ⟨[], false, none, none, fun _ => .absent, []⟩

def moveTimer (b : Batcher α ι) (i : ι) (phase : TimerPhase) : Batcher α ι :=
  { b with phases := Function.update b.phases i phase }

inductive Step (b : Batcher α ι) : BatcherEvent α ι → Batcher α ι → Prop where
  | receive {a} (hhand : b.hand = none) : Step b (.receive a) { b with hand := some a }
  | add {i a} (hhand : b.hand = some a) (hmutex : b.mutex = none) (htimer : b.timer = true) :
      Step b (.add i) { b with pending := b.pending ++ [a], hand := none }
  | arm {i a} (hhand : b.hand = some a) (hmutex : b.mutex = none) (htimer : b.timer = false)
      (hi : b.phases i = .absent) :
      Step b (.add i)
        ({ b with pending := b.pending ++ [a], hand := none, timer := true }.moveTimer i .armed)
  | flush {i} (hi : b.phases i = .armed) (hmutex : b.mutex = none) (hpending : b.pending ≠ []) :
      Step b (.flush i)
        ({ b with mutex := some i, handed := b.handed ++ [b.pending] }.moveTimer i .flushing)
  | flushNothing {i} (hi : b.phases i = .armed) (hmutex : b.mutex = none)
      (hpending : b.pending = []) :
      Step b (.flush i) ({ b with timer := false }.moveTimer i .absent)
  | flushed {i} (hi : b.phases i = .flushing) :
      Step b (.flushed i)
        ({ b with pending := [], timer := false, mutex := none }.moveTimer i .absent)

def received : BatcherEvent α ι → Option α
  | .receive a => some a
  | _ => none

/-- All timers are absent but one. -/
def only (i : ι) (phase : TimerPhase) : ι → TimerPhase :=
  Function.update (fun _ => .absent) i phase

/-- There is never more than one timer: it is armed with the first item of a
batch and has emptied the batch before the next one is armed. -/
inductive Mode (b : Batcher α ι) : Prop where
  | idle (hphases : b.phases = fun _ => .absent) (htimer : b.timer = false)
      (hmutex : b.mutex = none) (hpending : b.pending = [])
  | armed (i : ι) (hphases : b.phases = only i .armed) (htimer : b.timer = true)
      (hmutex : b.mutex = none)
  | flushing (i : ι) (hphases : b.phases = only i .flushing) (htimer : b.timer = true)
      (hmutex : b.mutex = some i)

/-- The items in their order: those of the batches that have been handed over
and emptied, the batch, and what is in hand. A batch that has been handed over
and not yet emptied is the one that is pending. -/
def InOrder (items : List α) (b : Batcher α ι) : Prop :=
  ∃ before, b.handed = before ++ (if b.mutex = none then [] else [b.pending])
    ∧ before.flatten ++ b.pending ++ b.hand.toList = items

/-- What holds when `items` have been received. -/
structure Sound (items : List α) (b : Batcher α ι) : Prop where
  inOrder : InOrder items b
  mode : Mode b

theorem sound_new : Sound [] (new : Batcher α ι) :=
  ⟨⟨[], rfl, rfl⟩, .idle rfl rfl rfl rfl⟩

@[simp] theorem only_self (i : ι) (phase : TimerPhase) : only i phase i = phase :=
  Function.update_self ..

theorem eq_of_only {i j : ι} {phase phase' : TimerPhase} (h : only i phase j = phase')
    (hphase : phase' ≠ .absent) : i = j ∧ phase = phase' := by
  by_cases hij : j = i
  · subst hij
    exact ⟨rfl, by simpa using h⟩
  · rw [only, Function.update_of_ne hij] at h
    exact absurd h.symm hphase

theorem update_only (i : ι) (phase phase' : TimerPhase) :
    Function.update (only i phase) i phase' = only i phase' :=
  Function.update_idem ..

theorem only_absent (i : ι) : only i .absent = fun _ => .absent :=
  Function.update_eq_self i _

variable {items : List α} {b b' : Batcher α ι} {e : BatcherEvent α ι} {i : ι}

theorem Mode.of_armed (h : Mode b) (hi : b.phases i = .armed) :
    b.phases = only i .armed ∧ b.timer = true := by
  cases h with
  | idle hphases => simp [hphases] at hi
  | armed j hphases htimer =>
      rw [hphases] at hi
      obtain ⟨rfl, -⟩ := eq_of_only hi (by decide)
      exact ⟨hphases, htimer⟩
  | flushing j hphases =>
      rw [hphases] at hi
      exact absurd (eq_of_only hi (by decide)).2 (by decide)

/-- A timer that flushes is the only one, and holds the mutex. -/
theorem Mode.of_flushing (h : Mode b) (hi : b.phases i = .flushing) :
    b.phases = only i .flushing ∧ b.mutex = some i := by
  cases h with
  | idle hphases => simp [hphases] at hi
  | armed j hphases =>
      rw [hphases] at hi
      exact absurd (eq_of_only hi (by decide)).2 (by decide)
  | flushing j hphases _ hmutex =>
      rw [hphases] at hi
      obtain ⟨rfl, -⟩ := eq_of_only hi (by decide)
      exact ⟨hphases, hmutex⟩

theorem Mode.step (h : Mode b) (hstep : Step b e b') : Mode b' := by
  cases hstep with
  | receive hhand =>
      cases h with
      | idle hphases htimer hmutex hpending => exact .idle hphases htimer hmutex hpending
      | armed i hphases htimer hmutex => exact .armed i hphases htimer hmutex
      | flushing i hphases htimer hmutex => exact .flushing i hphases htimer hmutex
  | add hhand hmutex htrue =>
      cases h with
      | idle _ htimer => simp [htrue] at htimer
      | armed i hphases htimer => exact .armed i hphases htimer hmutex
      | flushing i _ _ hmutex' => simp [hmutex] at hmutex'
  | @arm i a hhand hmutex hfalse hi =>
      cases h with
      | idle hphases => exact .armed i (by rw [moveTimer, hphases]; rfl) rfl hmutex
      | armed i _ htimer => simp [hfalse] at htimer
      | flushing i _ htimer => simp [hfalse] at htimer
  | @flush i hi hmutex hpending =>
      obtain ⟨hphases, htimer⟩ := h.of_armed hi
      exact .flushing i (by rw [moveTimer, hphases, update_only]) htimer rfl
  | @flushNothing i hi hmutex hpending =>
      obtain ⟨hphases, -⟩ := h.of_armed hi
      exact .idle (by rw [moveTimer, hphases, update_only, only_absent]) rfl hmutex hpending
  | @flushed i hi =>
      obtain ⟨hphases, -⟩ := h.of_flushing hi
      exact .idle (by rw [moveTimer, hphases, update_only, only_absent]) rfl rfl rfl

theorem InOrder.step (h : InOrder items b) (hmode : Mode b) (hstep : Step b e b') :
    InOrder (items ++ (received e).toList) b' := by
  obtain ⟨before, hhanded, horder⟩ := h
  cases hstep with
  | receive hhand => exact ⟨before, hhanded, by simp [← horder, hhand, received]⟩
  | add hhand hmutex htrue =>
      rw [if_pos hmutex] at hhanded
      exact ⟨before, by simp [hmutex, hhanded], by simp [← horder, hhand, received]⟩
  | arm hhand hmutex hfalse hi =>
      rw [if_pos hmutex] at hhanded
      exact ⟨before, by simp [moveTimer, hmutex, hhanded],
        by simp [moveTimer, ← horder, hhand, received]⟩
  | flush hi hmutex hpending =>
      rw [if_pos hmutex, List.append_nil] at hhanded
      exact ⟨before, by simp [moveTimer, hhanded], by simp [moveTimer, ← horder, received]⟩
  | flushNothing hi hmutex hpending =>
      exact ⟨before, hhanded, by simp [moveTimer, ← horder, received]⟩
  | flushed hi =>
      -- the batch that was handed over is the one that is emptied
      rw [if_neg (by simp [(hmode.of_flushing hi).2])] at hhanded
      exact ⟨before ++ [b.pending], by simp [moveTimer, hhanded],
        by simp [moveTimer, ← horder, received]⟩

theorem Sound.step (h : Sound items b) (hstep : Step b e b') :
    Sound (items ++ (received e).toList) b' :=
  ⟨h.inOrder.step h.mode hstep, h.mode.step hstep⟩

theorem sound {es : List (BatcherEvent α ι)} (h : Trace Step new es b) :
    Sound (es.filterMap received) b :=
  h.invariant (P := fun es b => Sound (es.filterMap received) b) sound_new fun hsound hstep => by
    rw [history_snoc]
    exact hsound.step hstep

omit [DecidableEq ι] in
theorem InOrder.of_free (h : InOrder items b) (hmutex : b.mutex = none) :
    b.handed.flatten ++ b.pending ++ b.hand.toList = items := by
  obtain ⟨before, hhanded, horder⟩ := h
  rw [if_pos hmutex, List.append_nil] at hhanded
  rw [hhanded, horder]

omit [DecidableEq ι] in
/-- While the mutex is held, the batch that was handed over last is still
the one that is pending. -/
theorem InOrder.of_held (h : InOrder items b) (hmutex : b.mutex = some i) :
    (∃ before, b.handed = before ++ [b.pending])
    ∧ b.handed.flatten ++ b.hand.toList = items := by
  obtain ⟨before, hhanded, horder⟩ := h
  rw [if_neg (by simp [hmutex])] at hhanded
  exact ⟨⟨before, hhanded⟩, by simp [hhanded, ← horder]⟩

/-- A batch that waits has an armed timer, unless it is being flushed. -/
theorem Sound.exists_armed (h : Sound items b) (hmutex : b.mutex = none)
    (hpending : b.pending ≠ []) : ∃ i, b.phases i = .armed := by
  cases h.mode with
  | idle _ _ _ hnil => exact absurd hnil hpending
  | armed i hphases => exact ⟨i, by simp [hphases]⟩
  | flushing i _ _ hsome => simp [hmutex] at hsome

/-- Who holds the mutex is the timer that flushes. -/
theorem Sound.flushing (h : Sound items b) (hmutex : b.mutex = some i) :
    b.phases i = .flushing := by
  cases h.mode with
  | idle _ _ hnone => simp [hmutex] at hnone
  | armed _ _ _ hnone => simp [hmutex] at hnone
  | flushing j hphases _ hsome =>
      rw [hmutex] at hsome
      obtain rfl := Option.some.inj hsome
      simp [hphases]

end Batcher

end TradingBackend
