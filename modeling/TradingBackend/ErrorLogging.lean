import TradingBackend.FixedWindow
import TradingBackend.RateLimiter
import TradingBackend.Trace

/-!
# How often an error is logged

`ErrorRateLimiter` of `logging/logger.go`: an error is logged five times in
the minute that begins when it is first seen, and counted after that. The
next time it is seen when the minute is over, the count is reported. A sweep
forgets the errors that were not logged for ten minutes, and with them what
was counted and not reported.

Both methods run under one mutex, so a run is a sequence of calls with the
times of a clock that does not go back. A map of entries is a function.
-/

namespace TradingBackend.Logging

structure ErrorEntry where
  count : Nat
  firstSeen : Time
  lastLogged : Time
  suppressed : Nat

def rateLimitWindow : Duration := 60 * 1000000000

def maxErrorsPerMin : Nat := 5

/-- The age at which `cleanup` deletes an entry. -/
def cleanupAge : Duration := 10 * 60 * 1000000000

structure ErrorRateLimiter where
  errorCounts : String → Option ErrorEntry

namespace ErrorRateLimiter

def new : ErrorRateLimiter := ⟨fun _ => none⟩

def put (rl : ErrorRateLimiter) (errorKey : String) (entry : ErrorEntry) : ErrorRateLimiter :=
  ⟨Function.update rl.errorCounts errorKey (some entry)⟩

/-- `ShouldLog`: `shouldLog`, `suppressedCount` and the limiter after it. -/
def shouldLog (rl : ErrorRateLimiter) (errorKey : String) (now : Time) :
    Bool × Nat × ErrorRateLimiter :=
  match rl.errorCounts errorKey with
  | none => (true, 0, rl.put errorKey ⟨1, now, now, 0⟩)
  | some entry =>
      if now - entry.firstSeen > rateLimitWindow then
        (true, entry.suppressed, rl.put errorKey ⟨1, now, now, 0⟩)
      else
        let entry := { entry with count := entry.count + 1 }
        if entry.count ≤ maxErrorsPerMin then
          (true, 0, rl.put errorKey { entry with lastLogged := now })
        else (false, 0, rl.put errorKey { entry with suppressed := entry.suppressed + 1 })

/-- The entries that `cleanup` deletes. -/
def isOld (now : Time) (entry : ErrorEntry) : Bool := now - entry.lastLogged > cleanupAge

def cleanup (rl : ErrorRateLimiter) (now : Time) : ErrorRateLimiter :=
  ⟨fun key => (rl.errorCounts key).filter fun entry => !isOld now entry⟩

/-- What has been suppressed and not reported. -/
def pending (rl : ErrorRateLimiter) (key : String) : Nat :=
  ((rl.errorCounts key).map ErrorEntry.suppressed).getD 0

def forgets (rl : ErrorRateLimiter) (now : Time) (key : String) : Nat :=
  rl.pending key - (rl.cleanup now).pending key

end ErrorRateLimiter

/-! ## Calls -/

/-- The limiter, and the time of the last call. -/
structure Clocked where
  limiter : ErrorRateLimiter
  clock : Time

inductive Event where
  | asked (errorKey : String) (now : Time) (shouldLog : Bool) (suppressedCount : Nat)
  | swept (now : Time) (forgotten : String → Nat)

inductive Step (s : Clocked) : Event → Clocked → Prop where
  | ask {errorKey now shouldLog suppressedCount limiter} (hnow : s.clock ≤ now)
      (h : s.limiter.shouldLog errorKey now = (shouldLog, suppressedCount, limiter)) :
      Step s (.asked errorKey now shouldLog suppressedCount) ⟨limiter, now⟩
  | sweep {now} (hnow : s.clock ≤ now) :
      Step s (.swept now (s.limiter.forgets now)) ⟨s.limiter.cleanup now, now⟩

namespace Event

variable (key : String)

def logged? : Event → Option Time
  | asked errorKey now true _ => if errorKey = key then some now else none
  | _ => none

def suppressed : Event → Nat
  | asked errorKey _ false _ => if errorKey = key then 1 else 0
  | _ => 0

def reported : Event → Nat
  | asked errorKey _ _ suppressedCount => if errorKey = key then suppressedCount else 0
  | _ => 0

def forgotten : Event → Nat
  | swept _ forgotten => forgotten key
  | _ => 0

end Event

def logged (key : String) (es : List Event) : List Time := es.filterMap (Event.logged? key)

/-! ## One call -/

/-- What `ShouldLog` does to the entry of its key. -/
inductive Answer (now : Time) : Option ErrorEntry → Bool → Nat → ErrorEntry → Prop where
  | first : Answer now none true 0 ⟨1, now, now, 0⟩
  | expired {e} (hover : e.firstSeen + rateLimitWindow < now) :
      Answer now (some e) true e.suppressed ⟨1, now, now, 0⟩
  | logged {e} (hin : now ≤ e.firstSeen + rateLimitWindow) (hcount : e.count < maxErrorsPerMin) :
      Answer now (some e) true 0 { e with count := e.count + 1, lastLogged := now }
  | suppressed {e} (hin : now ≤ e.firstSeen + rateLimitWindow)
      (hcount : maxErrorsPerMin ≤ e.count) :
      Answer now (some e) false 0
        { e with count := e.count + 1, suppressed := e.suppressed + 1 }

theorem shouldLog_spec {rl rl' : ErrorRateLimiter} {key : String} {now : Time} {log : Bool}
    {n : Nat} (h : rl.shouldLog key now = (log, n, rl')) :
    ∃ entry, Answer now (rl.errorCounts key) log n entry ∧ rl' = rl.put key entry := by
  unfold ErrorRateLimiter.shouldLog at h
  cases hentry : rl.errorCounts key with
  | none =>
      rw [hentry] at h
      cases h
      exact ⟨_, .first, rfl⟩
  | some e =>
      rw [hentry] at h
      dsimp only at h
      split_ifs at h with hover hcount
      · cases h
        exact ⟨_, .expired (lt_sub_iff_add_lt'.mp hover), rfl⟩
      · cases h
        exact ⟨_, .logged (sub_le_iff_le_add'.mp (not_lt.mp hover)) hcount, rfl⟩
      · cases h
        exact ⟨_, .suppressed (sub_le_iff_le_add'.mp (not_lt.mp hover))
          (Nat.le_of_lt_succ (not_le.mp hcount)), rfl⟩

/-! ## Whole runs -/

section

open FixedWindow

/-- The times at which an error was logged, and its entry. -/
def Kept (clock : Time) (times : List Time) : Option ErrorEntry → Prop
  | none => (∀ x ∈ times, x + rateLimitWindow < clock) ∧ Bounded rateLimitWindow 4 times
  | some e =>
      Opened rateLimitWindow 4 times e.firstSeen (min e.count maxErrorsPerMin)
        ∧ e.firstSeen ≤ clock ∧ e.lastLogged ≤ clock ∧ ∀ x ∈ times, x ≤ e.lastLogged

variable {clock now : Time} {times : List Time} {entry : Option ErrorEntry}

theorem Kept.bounded (h : Kept clock times entry) : Bounded rateLimitWindow 4 times := by
  cases entry with
  | none => exact h.2
  | some e => exact h.1.bound

theorem Kept.wait (h : Kept clock times entry) (hnow : clock ≤ now) : Kept now times entry := by
  cases entry with
  | none => exact ⟨fun x hx => (h.1 x hx).trans_le hnow, h.2⟩
  | some e => exact ⟨h.1, h.2.1.trans hnow, h.2.2.1.trans hnow, h.2.2.2⟩

theorem Kept.clean (h : Kept now times entry) :
    Kept now times (entry.filter fun e => !ErrorRateLimiter.isOld now e) := by
  cases entry with
  | none => exact h
  | some e =>
      by_cases hold : ErrorRateLimiter.isOld now e = true
      · rw [Option.filter_some_neg (by simp [hold])]
        refine ⟨fun x hx => ?_, h.bounded⟩
        have hle := h.2.2.2 x hx
        have hold : e.lastLogged + cleanupAge < now :=
          lt_sub_iff_add_lt'.mp (of_decide_eq_true hold)
        have hage : rateLimitWindow ≤ cleanupAge := by decide
        linarith
      · rw [Option.filter_some_pos (by simpa using hold)]
        exact h

theorem le_snoc (h : ∀ x ∈ times, x ≤ now) : ∀ x ∈ times ++ [now], x ≤ now := by
  intro x hx
  rcases List.mem_append.mp hx with hx | hx
  · exact h x hx
  · exact (List.mem_singleton.mp hx).le

theorem Kept.answer (h : Kept now times entry) {log : Bool} {n : Nat} {e' : ErrorEntry}
    (hanswer : Answer now entry log n e') :
    Kept now (times ++ if log then [now] else []) (some e') := by
  have hwidth : 0 ≤ rateLimitWindow := by decide
  cases hanswer with
  | first =>
      refine ⟨Opened.first hwidth h.1 h.2, le_rfl, le_rfl, le_snoc fun x hx => ?_⟩
      have hlt := h.1 x hx
      linarith
  | expired hover =>
      refine ⟨h.1.next hwidth hover, le_rfl, le_rfl, le_snoc fun x hx => ?_⟩
      exact (h.2.2.2 x hx).trans h.2.2.1
  | @logged e hin hcount =>
      have hmin : min e.count maxErrorsPerMin = e.count := min_eq_left hcount.le
      have hmin' : min (e.count + 1) maxErrorsPerMin = e.count + 1 := min_eq_left hcount
      have hopened := h.1
      rw [hmin] at hopened
      refine ⟨?_, h.2.1, le_rfl, le_snoc fun x hx => (h.2.2.2 x hx).trans h.2.2.1⟩
      rw [hmin']
      exact hopened.grant (Nat.le_of_lt_succ hcount) h.2.1 hin
  | @suppressed e hin hcount =>
      have hmin : min (e.count + 1) maxErrorsPerMin = min e.count maxErrorsPerMin := by
        rw [min_eq_right hcount, min_eq_right (Nat.le_succ_of_le hcount)]
      rw [if_neg Bool.false_ne_true, List.append_nil]
      refine ⟨?_, h.2⟩
      rw [hmin]
      exact h.1

/-- What was suppressed has been reported, or forgotten, or is pending. -/
theorem Answer.account {log : Bool} {n : Nat} {e' : ErrorEntry}
    (h : Answer now entry log n e') :
    ((entry.map ErrorEntry.suppressed).getD 0) + (if log then 0 else 1) = n + e'.suppressed := by
  cases h with
  | first => rfl
  | expired => rfl
  | logged => exact (Nat.zero_add _).symm
  | suppressed => exact (Nat.zero_add _).symm

end

/-- What holds of an error after the events `es`. Every suppressed occurrence is
reported with a later log line, forgotten by a cleanup, or still counted. -/
structure Tracked (key : String) (es : List Event) (s : Clocked) : Prop where
  kept : Kept s.clock (logged key es) (s.limiter.errorCounts key)
  account : (es.map (Event.suppressed key)).sum = (es.map (Event.reported key)).sum
    + (es.map (Event.forgotten key)).sum + s.limiter.pending key

theorem pending_cleanup_le (rl : ErrorRateLimiter) (now : Time) (key : String) :
    (rl.cleanup now).pending key ≤ rl.pending key := by
  cases hentry : rl.errorCounts key with
  | none => simp [ErrorRateLimiter.pending, ErrorRateLimiter.cleanup, hentry]
  | some e =>
      simp only [ErrorRateLimiter.pending, ErrorRateLimiter.cleanup, hentry, Option.filter_some]
      split_ifs
      · exact le_rfl
      · exact Nat.zero_le _

theorem sum_map_snoc (f : Event → Nat) (es : List Event) (e : Event) :
    ((es ++ [e]).map f).sum = (es.map f).sum + f e := by
  rw [List.map_append, List.sum_append, List.map_singleton, List.sum_singleton]

namespace Tracked

variable {key : String} {es : List Event} {s s' : Clocked} {e : Event}

theorem ask (h : Tracked key es s) {now : Time} {log : Bool} {n : Nat} {entry : ErrorEntry}
    (hnow : s.clock ≤ now) (hanswer : Answer now (s.limiter.errorCounts key) log n entry) :
    Tracked key (es ++ [.asked key now log n]) ⟨s.limiter.put key entry, now⟩ := by
  have hentry : (s.limiter.put key entry).errorCounts key = some entry := Function.update_self ..
  refine ⟨?_, ?_⟩
  · have hkept := (h.kept.wait hnow).answer hanswer
    have hlogged : logged key (es ++ [.asked key now log n]) =
        logged key es ++ if log then [now] else [] := by
      rw [logged, history_snoc]
      cases log <;> simp [Event.logged?, logged]
    rw [hlogged, hentry]
    exact hkept
  · have haccount := hanswer.account
    have hbefore := h.account
    rw [sum_map_snoc, sum_map_snoc, sum_map_snoc]
    unfold ErrorRateLimiter.pending at hbefore ⊢
    rw [hentry]
    cases log <;> simp [Event.suppressed, Event.reported, Event.forgotten] at haccount ⊢ <;> omega

theorem ask_other (h : Tracked key es s) {errorKey : String} {now : Time} {log : Bool} {n : Nat}
    (entry : ErrorEntry) (hnow : s.clock ≤ now) (hne : errorKey ≠ key) :
    Tracked key (es ++ [.asked errorKey now log n]) ⟨s.limiter.put errorKey entry, now⟩ := by
  have hentry : (s.limiter.put errorKey entry).errorCounts key = s.limiter.errorCounts key :=
    Function.update_of_ne hne.symm ..
  refine ⟨?_, ?_⟩
  · have hlogged : logged key (es ++ [.asked errorKey now log n]) = logged key es := by
      rw [logged, history_snoc]
      cases log <;> simp [Event.logged?, hne, logged]
    rw [hlogged, hentry]
    exact h.kept.wait hnow
  · have hbefore := h.account
    rw [sum_map_snoc, sum_map_snoc, sum_map_snoc]
    unfold ErrorRateLimiter.pending at hbefore ⊢
    rw [hentry]
    cases log <;> simpa [Event.suppressed, Event.reported, Event.forgotten, hne] using hbefore

theorem step (h : Tracked key es s) (hstep : Step s e s') : Tracked key (es ++ [e]) s' := by
  cases hstep with
  | @ask errorKey now log n limiter hnow hlog =>
      obtain ⟨entry, hanswer, rfl⟩ := shouldLog_spec hlog
      by_cases hkey : errorKey = key
      · subst hkey
        exact h.ask hnow hanswer
      · exact h.ask_other entry hnow hkey
  | @sweep now hnow =>
      refine ⟨?_, ?_⟩
      · have hlogged : logged key (es ++ [.swept now (s.limiter.forgets now)]) = logged key es := by
          rw [logged, history_snoc]
          exact List.append_nil _
        rw [hlogged]
        exact (h.kept.wait hnow).clean
      · have hle := pending_cleanup_le s.limiter now key
        have hbefore := h.account
        rw [sum_map_snoc, sum_map_snoc, sum_map_snoc]
        simp only [Event.suppressed, Event.reported, Event.forgotten, ErrorRateLimiter.forgets]
        omega

end Tracked

theorem tracked {es : List Event} {s : Clocked} {clock : Time}
    (h : Trace Step ⟨.new, clock⟩ es s) (key : String) : Tracked key es s := by
  refine h.invariant (P := Tracked key) ⟨?_, rfl⟩ Tracked.step
  exact ⟨List.forall_mem_nil _, fun _ => Nat.zero_le _⟩

/-- In any minute an error is logged at most nine times, however often it is
seen and whatever is swept; and what was suppressed has been reported, or
was forgotten by a sweep, or is still to be reported. -/
theorem error_logs_bounded {es : List Event} {s : Clocked} {clock : Time}
    (h : Trace Step ⟨.new, clock⟩ es s) (key : String) :
    (∀ t, FixedWindow.inSpan rateLimitWindow t (logged key es) ≤ 9)
    ∧ (es.map (Event.suppressed key)).sum = (es.map (Event.reported key)).sum
        + (es.map (Event.forgotten key)).sum + s.limiter.pending key :=
  ⟨(tracked h key).kept.bounded, (tracked h key).account⟩

theorem ask_next {s₀ s : Clocked} {es : List Event} (h : Trace Step s₀ es s) (errorKey : String)
    (now : Time) (hnow : s.clock ≤ now) :
    Trace Step s₀
      (es ++ [.asked errorKey now (s.limiter.shouldLog errorKey now).1
        (s.limiter.shouldLog errorKey now).2.1])
      ⟨(s.limiter.shouldLog errorKey now).2.2, now⟩ :=
  h.snoc (.ask hnow rfl)

/-- An error that is seen once, four times a minute later and five times right
after that is logged nine times in a minute. -/
theorem error_logs_bounded_nine :
    ∃ es s, Trace Step ⟨.new, 0⟩ es s
      ∧ FixedWindow.inSpan rateLimitWindow rateLimitWindow (logged "insert" es) = 9
      ∧ ∀ t, FixedWindow.inSpan rateLimitWindow t (logged "insert" es) ≤ 9 := by
  have h₀ : Trace Step ⟨.new, 0⟩ [] ⟨.new, 0⟩ := .nil
  have h₁ := ask_next h₀ "insert" 0 (by decide)
  have h₂ := ask_next h₁ "insert" 60000000000 (by decide)
  have h₃ := ask_next h₂ "insert" 60000000000 (by decide)
  have h₄ := ask_next h₃ "insert" 60000000000 (by decide)
  have h₅ := ask_next h₄ "insert" 60000000000 (by decide)
  have h₆ := ask_next h₅ "insert" 60000000001 (by decide)
  have h₇ := ask_next h₆ "insert" 60000000001 (by decide)
  have h₈ := ask_next h₇ "insert" 60000000001 (by decide)
  have h₉ := ask_next h₈ "insert" 60000000001 (by decide)
  have h := ask_next h₉ "insert" 60000000001 (by decide)
  exact ⟨_, _, h, by decide +kernel, (error_logs_bounded h "insert").1⟩

end TradingBackend.Logging
