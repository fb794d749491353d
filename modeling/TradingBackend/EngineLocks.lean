import TradingBackend.LockProgress

/-!
# The locks of the engine

The matching engine, its book and its event bus have a `sync.RWMutex` each. A
goroutine that uses the engine goes through the critical sections of the
methods it calls, one call after the other; what it does between two sections
(a message to the worker, the wait for the answer) takes no lock.

No method takes a lock inside a section but `GetStats`, which calls `IsRunning`
and `Size` while it holds the engine's lock to read. `Size` is harmless, since
the book's lock always comes last. `IsRunning` asks for the engine's lock
again: if a writer has come in between, as the worker does with every command,
the caller waits for the writer and the writer for the caller.
-/

namespace TradingBackend

inductive EngineLock where
  | engine
  | book
  | eventBus
deriving DecidableEq

def EngineLock.rank : EngineLock → Nat
  | .engine => 0
  | .book => 1
  | .eventBus => 2

/-- The methods that take a lock, and the critical sections of the others:
`countCommand` of `processCommand`, `checkRunning` and `countBlock` of
`SubmitOrder` and `CancelOrder`, `readOrderbookHandler` and `readHandlers` of
`matchOrder`, `recordDebugInfo` of `matchAgainstPriceLevel`. -/
inductive EngineCall where
  | enableDebugMode
  | isDebugMode
  | setDebugLogger
  | getTradeDebugInfo
  | clearTradeDebugInfo
  | debugLog
  | setTradeHandler
  | setWebSocketHandlers
  | start
  | stop (running : Bool)
  | isRunning
  | countCommand
  | checkRunning
  | countBlock
  | readOrderbookHandler
  | readHandlers
  | recordDebugInfo
  | getStats
  | inspectChannelStatus
  | addOrder
  | addLimitOrder
  | removeOrder
  | cancelOrder
  | getOrder
  | updateOrder
  | getBestBid
  | getBestAsk
  | peekBest
  | popBestLevel
  | getSpread
  | getDepth
  | getTopLevels
  | clear
  | size
  | getBidDepth
  | getAskDepth
  | subscribe
  | publish
  | unsubscribe
  | getListenerCount
deriving DecidableEq

namespace EngineCall

def readLock (lock : EngineLock) : Sections EngineLock := .hold .read lock .done .done

def writeLock (lock : EngineLock) : Sections EngineLock := .hold .write lock .done .done

def sections : EngineCall → Sections EngineLock
  | enableDebugMode => writeLock .engine
  | isDebugMode => readLock .engine
  | setDebugLogger => writeLock .engine
  | getTradeDebugInfo => readLock .engine
  | clearTradeDebugInfo => writeLock .engine
  | debugLog => readLock .engine
  | setTradeHandler => writeLock .engine
  | setWebSocketHandlers => writeLock .engine
  | start => writeLock .engine
  -- an engine that does not run is not stopped
  | stop running =>
      if running then (writeLock .engine).append (writeLock .engine) else writeLock .engine
  | isRunning => readLock .engine
  | countCommand => writeLock .engine
  | checkRunning => readLock .engine
  | countBlock => writeLock .engine
  | readOrderbookHandler => readLock .engine
  | readHandlers => readLock .engine
  | recordDebugInfo => writeLock .engine
  -- the map is built before the deferred unlock: `me.IsRunning()`, then `me.orderBook.Size()`
  | getStats => .hold .read .engine ((readLock .engine).append (readLock .book)) .done
  | inspectChannelStatus => readLock .engine
  | addOrder => writeLock .book
  | addLimitOrder => writeLock .book
  | removeOrder => writeLock .book
  | cancelOrder => writeLock .book
  | getOrder => readLock .book
  | updateOrder => writeLock .book
  | getBestBid => readLock .book
  | getBestAsk => readLock .book
  | peekBest => readLock .book
  | popBestLevel => writeLock .book
  | getSpread => readLock .book
  | getDepth => readLock .book
  | getTopLevels => readLock .book
  | clear => writeLock .book
  | size => readLock .book
  | getBidDepth => readLock .book
  | getAskDepth => readLock .book
  | subscribe => writeLock .eventBus
  | publish => readLock .eventBus
  | unsubscribe => writeLock .eventBus
  | getListenerCount => readLock .eventBus

/-- `processCommand` for a cancellation; the worker answers when it is through. -/
def processCancel (found : Bool) : List EngineCall :=
  [countCommand, debugLog, debugLog, cancelOrder, debugLog]
    ++ (if found then [publish] else []) ++ [debugLog]

def program : List EngineCall → Sections EngineLock
  | [] => .done
  | call :: calls => call.sections.append (program calls)

/-- What is opened inside what, by a goroutine with these calls. -/
def Inside (calls : List EngineCall) (a b : LockMode × EngineLock) : Prop :=
  a.2.rank < b.2.rank ∨ .getStats ∈ calls ∧ a = (.read, .engine) ∧ b = (.read, .engine)

theorem nested_sections {calls : List EngineCall} {call : EngineCall} (h : call ∈ calls) :
    call.sections.Nested (Inside calls) [] := by
  have hone : ∀ mode lock,
      (Sections.hold mode lock .done .done).Nested (Inside calls) [] :=
    fun mode lock => ⟨List.forall_mem_nil _, trivial, trivial⟩
  cases call with
  | getStats =>
      refine ⟨List.forall_mem_nil _, ⟨?_, trivial, ?_, trivial, trivial⟩, trivial⟩
      · exact List.forall_mem_singleton.mpr (.inr ⟨h, rfl, rfl⟩)
      · exact List.forall_mem_singleton.mpr (.inl Nat.zero_lt_one)
  | stop running =>
      cases running with
      | false => exact hone _ _
      | true => exact (hone _ _).append (hone _ _)
  | _ => exact hone _ _

theorem nested_program {calls : List EngineCall} :
    ∀ {rest : List EngineCall}, rest ⊆ calls → (program rest).Nested (Inside calls) []
  | [], _ => trivial
  | _ :: _, h =>
      (nested_sections (h List.mem_cons_self)).append
        (nested_program (List.cons_subset.mp h).2)

end EngineCall

namespace LockSystem

open EngineCall
open LockUser (Stays)

variable {ι : Type} {calls : ι → List EngineCall} {is : List ι} {s : LockSystem ι EngineLock}
  {i j : ι}

/-- The goroutines that use the engine, with the calls they make. -/
def callers (calls : ι → List EngineCall) : LockSystem ι EngineLock :=
  .start fun i => program (calls i)

theorem ranked_inside (calls : ι → List EngineCall) :
    Ranked EngineLock.rank fun i => Inside (calls i) := by
  rintro i a b (hlt | ⟨_, rfl, rfl⟩)
  · exact .inl hlt
  · exact .inr ⟨rfl, rfl⟩

theorem Sound.eq_of_caught (h : Sound (fun i => Inside (calls i)) s) {lock : EngineLock}
    (hcaught : Caught s i lock) : .getStats ∈ calls i ∧ lock = .engine := by
  rcases h.inside_next hcaught.holds hcaught.asks.2 with hlt | ⟨hmem, heq, _⟩
  · exact absurd hlt (Nat.lt_irrefl _)
  · exact ⟨hmem, (Prod.mk.inj heq).2⟩

variable [DecidableEq ι]

theorem callers_sound (h : Trace Step (callers calls) is s) :
    Sound (fun i => Inside (calls i)) s :=
  sound (ranked_inside calls) (fun i => nested_program (List.Subset.refl (calls i))) h

/-- The locks of the engine, for any goroutines and any calls. They can be in
a deadlock only with a `GetStats` that is caught between its two read locks;
once it is, no goroutine that needs the engine's lock ever gets it; and it is
caught if a writer comes just then. Without `GetStats` all critical sections
can be left from wherever the goroutines are. What a call waits for outside
them, such as the worker's answer, is not part of this. -/
theorem engine_deadlocks [Fintype ι] (h : Trace Step (callers calls) is s) :
    (Deadlock s → ∃ i, .getStats ∈ calls i ∧ Caught s i .engine)
    ∧ (∀ i, Caught s i .engine → ∀ is' s', Trace Step s is' s' → Caught s' i .engine
      ∧ ∀ j mode, (s j).next = some (mode, .engine) → Stays (s j) (s' j))
    ∧ (∀ i j rest, i ≠ j → (s i).todo = program (.getStats :: rest) → (s i).asked = false →
      (s j).next = some (.write, .engine) → (s j).asked = false →
      (∀ x, ¬(s x).Excludes .engine) → ∃ s', Trace Step s [i, j, i] s' ∧ Caught s' i .engine)
    ∧ ((∀ i, .getStats ∉ calls i) → ∃ is' s', Trace Step s is' s' ∧ ∀ i, (s' i).Finished)
    ∧ is.length ≤ 3 * ∑ i, (program (calls i)).count := by
  have hsound := callers_sound h
  have hranked := ranked_inside calls
  refine ⟨?_, ?_, ?_, ?_, length_le h⟩
  · intro hdead
    obtain ⟨i, lock, hcaught⟩ := hdead.caught hsound hranked
    obtain ⟨hmem, rfl⟩ := hsound.eq_of_caught hcaught
    exact ⟨i, hmem, hcaught⟩
  · intro i hcaught is' s' htrace
    exact hcaught.kept hsound hranked htrace
  · intro i j rest hij htodo hi hj hj' hfree
    exact exists_caught hij htodo rfl hi hj hj' hfree
  · intro hnone
    refine exists_finish hranked (fun i lock hinside => ?_) hsound
    rcases hinside with hlt | ⟨hmem, _⟩
    · exact Nat.lt_irrefl _ hlt
    · exact hnone i hmem

/-- One goroutine asks for the statistics when the worker begins with a
cancellation. -/
def statsAndCancel : Bool → List EngineCall
  | true => [.getStats]
  | false => processCancel true

/-- The worker never counts the command. -/
theorem engine_deadlocks_cancel :
    ∃ s, Trace Step (callers statsAndCancel) [true, false, true] s ∧ Caught s true .engine
      ∧ (s false).next = some (.write, .engine)
      ∧ ∀ is' s', Trace Step s is' s' → (s' false).todo = (s false).todo := by
  have hfree : ∀ x, ¬(callers statsAndCancel x).Excludes .engine :=
    fun x hx => absurd (hx.holds rfl) List.not_mem_nil
  have hstart : Trace Step (callers statsAndCancel) [] (callers statsAndCancel) := .nil
  obtain ⟨s, htrace, hcaught⟩ := (engine_deadlocks hstart).2.2.1
    true false [] (by decide) rfl rfl rfl rfl hfree
  have hnext : (s false).next = some (.write, .engine) := by
    obtain ⟨j, hj⟩ := hcaught.writer
    cases j with
    | false => exact hj.2
    | true => cases hcaught.asks.2.symm.trans hj.2
  refine ⟨s, htrace, hcaught, hnext, fun is' s' htrace' => ?_⟩
  exact (((engine_deadlocks htrace).2.1 true hcaught is' s' htrace').2 false _ hnext).todo

end LockSystem

end TradingBackend
