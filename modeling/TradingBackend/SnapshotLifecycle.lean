import Mathlib.Data.List.Count
import TradingBackend.Trace

/-!
# Start and Stop of the snapshot manager

`Start` sets `running` under the mutex and only then adds to the wait group
and starts the loop; `Stop` resets `running` under the mutex and only then
closes `stopCh` and waits. `stopCh` is made once, with the manager. So a `Start`
can come between the two halves of a `Stop`, and a `Stop` between those of a
`Start`.

The goroutines that are at the same place are interchangeable, so the state
says how many there are of them. A snapshot is taken from `tick` to `saved`,
whether or not it can be saved, and the last one of a loop from `shutdown` to
`savedFinal`. When `stopCh` is closed and the ticker has ticked, the loop takes
either case of its `select`.

The wait group is that of the standard library. A `Wait` that finds the counter
at zero returns; another one goes to sleep. The `Done` that takes the counter to
zero wakes the sleepers up, and it resets their number only then: an `Add` that
comes in between panics, and so does a `Wait` that is woken up and finds the
counter in use again.

A panic ends the process. Those in `TakeSnapshot` are left out.
-/

namespace TradingBackend

inductive LifeEvent where
  | start
  | startRefused
  | add
  | spawn
  | stop
  | stopRefused
  | close
  | sleep
  | release
  | stopped
  | reused
  | tick
  | saved
  | shutdown
  | savedFinal
  | done
deriving DecidableEq

/-- Whether a loop takes a snapshot, or has taken it. -/
def LifeEvent.isSnapshot : LifeEvent → Bool
  | tick | saved | shutdown | savedFinal => true
  | _ => false

inductive LifePanic where
  /-- `close of closed channel`. -/
  | closedTwice
  /-- `WaitGroup misuse: Add called concurrently with Wait`. -/
  | addDuringWait
  /-- `WaitGroup is reused before previous Wait has returned`. -/
  | reused
  /-- `non-positive interval for NewTicker`. -/
  | ticker
deriving DecidableEq

/-- The flags and the wait group of a `SnapshotManager`, and how many calls
are before `wg.Add`, `go` and `close`, how many are at the start of `wg.Wait`,
asleep in it and woken up, and how many loops are in their `select`, in a
snapshot, in their last one, and about to return. -/
structure SnapshotLife where
  running : Bool
  closed : Bool
  panic : Option LifePanic
  wg : Nat
  adding : Nat
  going : Nat
  closing : Nat
  waiting : Nat
  asleep : Nat
  woken : Nat
  looping : Nat
  taking : Nat
  finishing : Nat
  leaving : Nat

namespace SnapshotLife

def new : SnapshotLife := ⟨false, false, none, 0, 0, 0, 0, 0, 0, 0, 0, 0, 0, 0⟩

/-- A loop begins with `NewTicker`, which is taken together with the `go` that
starts it. -/
inductive Step (interval : Int) (s : SnapshotLife) : LifeEvent → SnapshotLife → Prop where
  -- `Start`
  | start (hcalm : s.panic = none) (hrunning : s.running = false) :
      Step interval s .start { s with running := true, adding := s.adding + 1 }
  | startRefused (hcalm : s.panic = none) (hrunning : s.running = true) :
      Step interval s .startRefused s
  | add {n} (hcalm : s.panic = none) (hn : s.adding = n + 1) :
      Step interval s .add
        { s with
          adding := n, wg := s.wg + 1, going := s.going + 1
          panic := if s.wg = 0 ∧ 0 < s.asleep then some .addDuringWait else none }
  | spawn {n} (hcalm : s.panic = none) (hn : s.going = n + 1) :
      Step interval s .spawn
        { s with
          going := n, looping := s.looping + 1
          panic := if interval ≤ 0 then some .ticker else none }
  -- `Stop`
  | stop (hcalm : s.panic = none) (hrunning : s.running = true) :
      Step interval s .stop { s with running := false, closing := s.closing + 1 }
  | stopRefused (hcalm : s.panic = none) (hrunning : s.running = false) :
      Step interval s .stopRefused s
  | close {n} (hcalm : s.panic = none) (hn : s.closing = n + 1) :
      Step interval s .close
        { s with
          closing := n, closed := true, waiting := s.waiting + 1
          panic := if s.closed then some .closedTwice else none }
  | sleep {n} (hcalm : s.panic = none) (hn : s.waiting = n + 1) (hwg : 0 < s.wg) :
      Step interval s .sleep { s with waiting := n, asleep := s.asleep + 1 }
  | stopped {n} (hcalm : s.panic = none) (hn : s.waiting = n + 1) (hwg : s.wg = 0) :
      Step interval s .stopped { s with waiting := n }
  | stoppedWoken {n} (hcalm : s.panic = none) (hn : s.woken = n + 1) (hwg : s.wg = 0)
      (hasleep : s.asleep = 0) : Step interval s .stopped { s with woken := n }
  | reused {n} (hcalm : s.panic = none) (hn : s.woken = n + 1)
      (hused : ¬(s.wg = 0 ∧ s.asleep = 0)) :
      Step interval s .reused { s with woken := n, panic := some .reused }
  -- `snapshotLoop`
  | tick {n} (hcalm : s.panic = none) (hn : s.looping = n + 1) :
      Step interval s .tick { s with looping := n, taking := s.taking + 1 }
  | saved {n} (hcalm : s.panic = none) (hn : s.taking = n + 1) :
      Step interval s .saved { s with taking := n, looping := s.looping + 1 }
  | shutdown {n} (hcalm : s.panic = none) (hn : s.looping = n + 1) (hclosed : s.closed = true) :
      Step interval s .shutdown { s with looping := n, finishing := s.finishing + 1 }
  | savedFinal {n} (hcalm : s.panic = none) (hn : s.finishing = n + 1) :
      Step interval s .savedFinal { s with finishing := n, leaving := s.leaving + 1 }
  | done {n m} (hcalm : s.panic = none) (hn : s.leaving = n + 1) (hm : s.wg = m + 1) :
      Step interval s .done { s with leaving := n, wg := m }
  -- the end of the `Done` that found sleepers
  | release (hcalm : s.panic = none) (hwg : s.wg = 0) (hasleep : 0 < s.asleep) :
      Step interval s .release { s with asleep := 0, woken := s.woken + s.asleep }

/-! ## Where everybody is -/

/-- Every call and every loop is somewhere: `c` says how often each event has
happened. -/
structure Account (interval : Int) (c : LifeEvent → Nat) (s : SnapshotLife) : Prop where
  running : c .start = c .stop + if s.running then 1 else 0
  adding : s.adding + c .add = c .start
  going : s.going + c .spawn = c .add
  loops : s.looping + s.taking + s.finishing + s.leaving + c .done = c .spawn
  wg : s.wg + c .done = c .add
  finals : s.leaving + c .done = c .savedFinal
  closing : s.closing + c .close = c .stop
  waits : s.waiting + s.asleep + s.woken + c .stopped + c .reused = c .close
  closed : s.closed = true ↔ 1 ≤ c .close
  closedTwice : s.panic = some .closedTwice ↔ 2 ≤ c .close
  ticker : s.panic = some .ticker ↔ interval ≤ 0 ∧ 1 ≤ c .spawn

theorem account_new (interval : Int) : Account interval (fun _ => 0) new := by
  constructor <;> simp [new]

variable {interval : Int} {c : LifeEvent → Nat} {es es' : List LifeEvent}
  {s s' s'' : SnapshotLife} {e : LifeEvent}

theorem Account.step (h : Account interval c s) (hstep : Step interval s e s') :
    Account interval (fun e' => c e' + if e = e' then 1 else 0) s' := by
  obtain ⟨hrunning, hadding, hgoing, hloops, hwg, hfinals, hclosing, hwaits, hclosed, htwice,
    hticker⟩ := h
  -- a step takes a goroutine from one place to the next, in both terms of an equation
  cases hstep <;> constructor <;> simp only [reduceCtorEq, ↓reduceIte, Nat.add_zero] <;> try omega
  -- the flags are left
  all_goals simp_all <;> omega

theorem account (h : Trace (Step interval) new es s) : Account interval (fun e => es.count e) s :=
  h.invariant (P := fun es s => Account interval (fun e => es.count e) s) (account_new interval)
    fun {es _ e _} haccount hstep => by
      have hsnoc : (fun e' => (es ++ [e]).count e') =
          fun e' => es.count e' + if e = e' then 1 else 0 := by
        funext e'
        rw [List.count_append, List.count_singleton]
        simp
      rw [hsnoc]
      exact haccount.step hstep

/-- Without a panic, one `Stop` at most is in `wg.Wait`. -/
theorem Account.one_waits (h : Account interval c s) (hcalm : s.panic = none) :
    s.waiting + s.asleep + s.woken ≤ 1 := by
  have hwaits := h.waits
  have htwice : ¬2 ≤ c .close := fun hmany => by
    rw [h.closedTwice.mpr hmany] at hcalm
    cases hcalm
  omega

/-! ## A wait group in use -/

/-- A `Stop` went to sleep in `wg.Wait`, and has not returned. -/
def Sleeping (es : List LifeEvent) (during : List LifeEvent) : Prop :=
  ∃ before, es = before ++ .sleep :: during ∧ .stopped ∉ during

/-- A call of `wg.Add` came while a `Stop` was in `wg.Wait`. -/
def AddedDuringWait (es : List LifeEvent) : Prop :=
  ∃ during, Sleeping es during ∧ .add ∈ during

theorem Sleeping.snoc {during : List LifeEvent} (h : Sleeping es during) (he : e ≠ .stopped) :
    Sleeping (es ++ [e]) (during ++ [e]) := by
  obtain ⟨before, rfl, hnot⟩ := h
  refine ⟨before, by rw [List.append_assoc]; rfl, ?_⟩
  rw [List.mem_append, List.mem_singleton, not_or]
  exact ⟨hnot, he.symm⟩

theorem AddedDuringWait.snoc (h : AddedDuringWait es) (he : e ≠ .stopped) :
    AddedDuringWait (es ++ [e]) := by
  obtain ⟨during, hsleeping, hadd⟩ := h
  exact ⟨_, hsleeping.snoc he, List.mem_append_left _ hadd⟩

theorem Sleeping.add {during : List LifeEvent} (h : Sleeping es during) :
    AddedDuringWait (es ++ [.add]) :=
  ⟨_, h.snoc (by decide), List.mem_append_right _ (List.mem_singleton_self _)⟩

/-- The counter is in use under a `Stop` that was woken up only if there was an
`Add` in the meantime. -/
structure Overlap (es : List LifeEvent) (s : SnapshotLife) : Prop where
  sleeping : 0 < s.asleep + s.woken → ∃ during, Sleeping es during
  woken : 0 < s.woken → 0 < s.wg → AddedDuringWait es
  panic : s.panic = some .addDuringWait ∨ s.panic = some .reused → AddedDuringWait es

theorem Overlap.of_awake (hawake : s.asleep + s.woken = 0)
    (hpanic : s.panic = some .addDuringWait ∨ s.panic = some .reused → AddedDuringWait es) :
    Overlap es s :=
  ⟨fun hpos => by omega, fun hpos => by omega, hpanic⟩

theorem Overlap.step (h : Overlap es s) (hone : s.panic = none → s.waiting + s.asleep + s.woken ≤ 1)
    (hstep : Step interval s e s') : Overlap (es ++ [e]) s' := by
  obtain ⟨hsleeping, hwoken, hpanic⟩ := h
  have hasleep : e ≠ .stopped → 0 < s.asleep + s.woken →
      ∃ during, Sleeping (es ++ [e]) during := fun he hpos => by
    obtain ⟨during, hduring⟩ := hsleeping hpos
    exact ⟨_, hduring.snoc he⟩
  have hinuse : e ≠ .stopped → 0 < s.woken → 0 < s.wg → AddedDuringWait (es ++ [e]) :=
    fun he hpos hwg => (hwoken hpos hwg).snoc he
  cases hstep with
  | start hcalm | startRefused hcalm | stop hcalm | stopRefused hcalm | tick hcalm | saved hcalm
  | shutdown hcalm | savedFinal hcalm =>
      exact ⟨hasleep (by decide), hinuse (by decide), fun hp => by simp [hcalm] at hp⟩
  | spawn | close =>
      refine ⟨hasleep (by decide), hinuse (by decide), fun hp => ?_⟩
      split_ifs at hp <;> simp at hp
  | add hcalm =>
      have hadd : 0 < s.asleep + s.woken → AddedDuringWait (es ++ [.add]) := fun hpos => by
        obtain ⟨during, hduring⟩ := hsleeping hpos
        exact hduring.add
      refine ⟨hasleep (by decide), fun hpos _ => hadd (Nat.add_pos_right _ hpos), fun hp => ?_⟩
      split_ifs at hp with hused
      · exact hadd (Nat.add_pos_left hused.2 _)
      · simp at hp
  | sleep hcalm hn =>
      have := hone hcalm
      refine ⟨fun _ => ⟨[], es, rfl, List.not_mem_nil⟩, fun hpos => ?_, fun hp => ?_⟩
      · simp only at hpos
        omega
      · simp [hcalm] at hp
  | stopped hcalm hn | stoppedWoken hcalm hn =>
      have := hone hcalm
      exact .of_awake (by simp only; omega) fun hp => by simp [hcalm] at hp
  | reused hcalm hn hused =>
      -- the counter is in use, since nobody else is asleep
      have := hone hcalm
      exact .of_awake (by simp only; omega) fun _ => hinuse (by decide) (by omega) (by omega)
  | done hcalm hn hm =>
      refine ⟨hasleep (by decide), fun hpos _ => hinuse (by decide) hpos (by omega), fun hp => ?_⟩
      simp [hcalm] at hp
  | release hcalm hwg =>
      refine ⟨fun hpos => hasleep (by decide) ?_, fun _ hpos => ?_, fun hp => ?_⟩
      · simp only at hpos
        omega
      · simp only at hpos
        omega
      · simp [hcalm] at hp

theorem overlap (h : Trace (Step interval) new es s) : Overlap es s := by
  induction h with
  | nil => exact ⟨by simp [new], by simp [new], by simp [new]⟩
  | snoc hbefore hstep ih => exact ih.step (account hbefore).one_waits hstep

/-- The last loop is about to call `Done`, and a `Start` to call `Add`. -/
theorem exists_panic (hcalm : s.panic = none) (hasleep : 0 < s.asleep) (hwg : s.wg = 1)
    (hleaving : 0 < s.leaving) (hadding : 0 < s.adding) :
    (∃ s', Trace (Step interval) s [.done, .add] s' ∧ s'.panic = some .addDuringWait)
    ∧ ∃ s', Trace (Step interval) s [.done, .release, .add, .reused] s'
      ∧ s'.panic = some .reused := by
  have h₀ : Trace (Step interval) s [] s := .nil
  obtain ⟨running, closed, panic, wg, adding, going, closing, waiting, asleep, woken, looping,
    taking, finishing, leaving⟩ := s
  obtain ⟨n, rfl⟩ := Nat.exists_eq_add_of_lt hleaving
  obtain ⟨m, rfl⟩ := Nat.exists_eq_add_of_lt hadding
  obtain ⟨k, rfl⟩ := Nat.exists_eq_add_of_lt hasleep
  obtain rfl : panic = none := hcalm
  obtain rfl : wg = 1 := hwg
  have hdone := h₀.next .done (.done rfl rfl rfl)
  constructor
  · refine ⟨_, hdone.next .add (.add rfl rfl), ?_⟩
    simp
  · have hadd := hdone.next .release (.release rfl rfl hasleep) |>.next .add (.add rfl rfl)
    refine ⟨_, hadd.next .reused (.reused ?_ rfl ?_), rfl⟩
    · simp
    · simp

/-! ## After Stop -/

/-- No loop is there, and none is on its way. -/
structure Quiet (s : SnapshotLife) : Prop where
  going : s.going = 0
  loops : s.looping + s.taking + s.finishing + s.leaving = 0

theorem Quiet.step (h : Quiet s) (hstep : Step interval s e s') (hadd : e ≠ .add) :
    Quiet s' ∧ e.isSnapshot = false := by
  obtain ⟨hgoing, hloops⟩ := h
  cases hstep with
  | add => exact absurd rfl hadd
  | spawn _ hn => omega
  | tick _ hn => omega
  | saved _ hn => omega
  | shutdown _ hn => omega
  | savedFinal _ hn => omega
  | done _ hn => omega
  | _ => exact ⟨⟨hgoing, hloops⟩, rfl⟩

theorem Quiet.run (h : Quiet s) (htrace : Trace (Step interval) s es s') (hadd : .add ∉ es) :
    Quiet s' ∧ ∀ e ∈ es, e.isSnapshot = false := by
  induction htrace with
  | nil => exact ⟨h, List.forall_mem_nil _⟩
  | snoc _ hstep ih =>
      rw [List.mem_append, List.mem_singleton, not_or] at hadd
      obtain ⟨hquiet, hnone⟩ := ih hadd.1
      obtain ⟨hquiet', he⟩ := hquiet.step hstep (Ne.symm hadd.2)
      exact ⟨hquiet', List.forall_mem_append.mpr ⟨hnone, List.forall_mem_singleton.mpr he⟩⟩

/-- A call that has not come to `wg.Add` adds only after it has passed the
check of `Start`. -/
theorem no_add (h : s.adding = 0) (htrace : Trace (Step interval) s es s') (hstart : .start ∉ es) :
    s'.adding = 0 ∧ .add ∉ es := by
  induction htrace with
  | nil => exact ⟨h, List.not_mem_nil⟩
  | @snoc es s₁ e s₂ _ hstep ih =>
      rw [List.mem_append, List.mem_singleton, not_or] at hstart
      obtain ⟨hadding, hnot⟩ := ih hstart.1
      have hlast : s₂.adding = 0 ∧ e ≠ .add := by
        cases hstep with
        | start => exact absurd rfl hstart.2
        | add _ hn => omega
        | _ => exact ⟨hadding, by decide⟩
      refine ⟨hlast.1, ?_⟩
      rw [List.mem_append, List.mem_singleton, not_or]
      exact ⟨hnot, Ne.symm hlast.2⟩

/-- A `Stop` returns from `wg.Wait`, and nobody else is in it. -/
theorem stopped_cases (haccount : Account interval c s) (hstep : Step interval s .stopped s') :
    s.panic = none ∧ s.wg = 0 ∧ s.closed = true
      ∧ s' = { s with waiting := 0, asleep := 0, woken := 0 } := by
  have hclosed := haccount.closed
  have hwaits := haccount.waits
  cases hstep with
  | stopped hcalm hn hwg | stoppedWoken hcalm hn hwg =>
      have hone := haccount.one_waits hcalm
      refine ⟨hcalm, hwg, hclosed.mpr (by omega), ?_⟩
      congr 1 <;> omega

/-- Whatever the order of the calls and of the steps of the loops. There are
four ways to panic: the second `Stop` that finds the manager running closes the
channel again, for which it must have been started twice; a loop starts with an
interval that is not positive; and a `wg.Add` meets a `Stop` in `wg.Wait`, or
a `Stop` that was woken up finds it has. The last two need no second `Stop`:
they do happen when a `Start` comes to `wg.Add` just as the last loop ends.

When a `Stop` returns, every loop that was in the wait group has taken its last
snapshot; if all calls of `Start` had come so far, no snapshot is taken from
then on until the manager is started again; but one that had not takes a
snapshot after `Stop` has returned. -/
theorem snapshot_manager_stops (h : Trace (Step interval) new es s) :
    (s.panic = some .closedTwice ↔ 2 ≤ es.count .close) ∧ es.count .close ≤ es.count .start
    ∧ (s.panic = some .ticker ↔ interval ≤ 0 ∧ 1 ≤ es.count .spawn)
    ∧ (s.panic = some .addDuringWait ∨ s.panic = some .reused → AddedDuringWait es)
    ∧ (s.panic = none → 0 < s.asleep → s.wg = 1 → 0 < s.leaving → 0 < s.adding →
        (∃ s', Trace (Step interval) s [.done, .add] s' ∧ s'.panic = some .addDuringWait)
        ∧ ∃ s', Trace (Step interval) s [.done, .release, .add, .reused] s'
          ∧ s'.panic = some .reused)
    ∧ ∀ s', Step interval s .stopped s' →
      es.count .savedFinal = es.count .add
      ∧ (es.count .add = es.count .start →
        ∀ es' s'', Trace (Step interval) s' es' s'' → .start ∉ es' →
          ∀ e ∈ es', e.isSnapshot = false)
      ∧ (0 < interval → es.count .add < es.count .start →
        ∃ s'', Trace (Step interval) s' [.add, .spawn, .shutdown, .savedFinal] s''
          ∧ s''.panic = none) := by
  have haccount := account h
  have hrunning := haccount.running
  have hclosing := haccount.closing
  have hadding := haccount.adding
  refine ⟨haccount.closedTwice, ?_, haccount.ticker, (overlap h).panic, exists_panic,
    fun s' hstep => ?_⟩
  · split at hrunning <;> omega
  · have hgoing := haccount.going
    have hloops := haccount.loops
    have hcounted := haccount.wg
    have hfinals := haccount.finals
    obtain ⟨hcalm, hwg, hclosed, rfl⟩ := stopped_cases haccount hstep
    refine ⟨by omega, fun hall es' s'' htrace hstart => ?_, fun hpos hless => ?_⟩
    · have hquiet : Quiet { s with waiting := 0, asleep := 0, woken := 0 } :=
        ⟨by simp only; omega, by simp only; omega⟩
      have hnone : { s with waiting := 0, asleep := 0, woken := 0 }.adding = 0 := by
        simp only
        omega
      exact (hquiet.run htrace (no_add hnone htrace hstart).2).2
    · obtain ⟨m, hm⟩ := Nat.exists_eq_succ_of_ne_zero (show s.adding ≠ 0 by omega)
      have h₀ : Trace (Step interval) { s with waiting := 0, asleep := 0, woken := 0 } [] _ := .nil
      have hadd := h₀.next .add (.add hcalm hm)
      have hspawn := hadd.next .spawn (.spawn (if_neg (by simp)) rfl)
      have hshutdown := hspawn.next .shutdown (.shutdown (if_neg (by omega)) rfl hclosed)
      exact ⟨_, hshutdown.next .savedFinal (.savedFinal (if_neg (by omega)) rfl),
        if_neg (by omega)⟩

/-- First, `Stop` comes when `Start` has set `running` and no more. Second, the
manager is started again before its only `Stop` closes the channel. -/
theorem snapshot_manager_stops_early :
    (∃ s s' s'', Trace (Step 1) new [.start, .stop, .close] s ∧ Step 1 s .stopped s'
      ∧ Trace (Step 1) s' [.add, .spawn, .shutdown, .savedFinal] s'')
    ∧ ∃ s s', Trace (Step 1) new
        [.start, .add, .spawn, .stop, .start, .close, .sleep, .shutdown, .savedFinal] s
      ∧ Trace (Step 1) s [.done, .release, .add, .reused] s' ∧ s'.panic = some .reused := by
  have h₀ : Trace (Step 1) new [] new := .nil
  have hstart := h₀.next .start (.start rfl rfl)
  constructor
  · have hclose := hstart.next .stop (.stop rfl rfl) |>.next .close (.close rfl rfl)
    have hstops := (snapshot_manager_stops hclose).2.2.2.2.2 _ (.stopped rfl rfl rfl)
    obtain ⟨s'', hlate, _⟩ := hstops.2.2 (by decide) (by decide)
    exact ⟨_, _, s'', hclose, .stopped rfl rfl rfl, hlate⟩
  · have hspawn := hstart.next .add (.add rfl rfl) |>.next .spawn (.spawn rfl rfl)
    have hagain := hspawn.next .stop (.stop rfl rfl) |>.next .start (.start rfl rfl)
    have hsleep := hagain.next .close (.close rfl rfl) |>.next .sleep (.sleep rfl rfl (by decide))
    have hsaved := hsleep.next .shutdown (.shutdown rfl rfl rfl)
      |>.next .savedFinal (.savedFinal rfl rfl)
    obtain ⟨s', hpanics⟩ := ((snapshot_manager_stops hsaved).2.2.2.2.1 rfl (by decide) rfl
      (by decide) (by decide)).2
    exact ⟨_, s', hsaved, hpanics⟩

end SnapshotLife

end TradingBackend
