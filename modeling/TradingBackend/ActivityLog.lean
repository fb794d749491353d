import TradingBackend.RateLimiter
import Mathlib.Data.List.Induction

/-!
# The log of suspicious activity

The first half of `validation/security_guards.go`: for every source the
number of its suspicious inputs and the time of the first. A source is
blocked for `SuspicionResetDuration` from its first offence on. What it does
later is counted but never leads to a block again (`offender_blocked_iff`),
unless somebody calls `ResetStats`.

`time.Now` is read twice by `LogSuspiciousInput`, once by `ShouldBlock`; the
readings come with the calls. Left out: the lines that are written to the
logger, with the input type, the payload and the level that only go there.
-/

namespace TradingBackend

inductive SuspicionLevel where
  | low
  | medium
  | high
  | critical
deriving DecidableEq, Repr

/-- `SecurityConfig`, without the two fields that the logger's lines depend
on. -/
structure SecurityConfig where
  enableLogging : Bool
  blockAfterAttempts : Int
  suspicionResetDuration : Duration
deriving DecidableEq

def defaultSecurityConfig : SecurityConfig := ⟨true, 5, hour⟩

structure ActivityStats where
  count : Nat
  firstSeen : Time
  lastSeen : Time
  patterns : List String
  suspicionLevel : SuspicionLevel
deriving DecidableEq

structure SuspiciousActivityLogger where
  attempts : String → Option ActivityStats
  config : SecurityConfig

def newSuspiciousActivityLogger (config : Option SecurityConfig) : SuspiciousActivityLogger :=
  ⟨fun _ => none, config.getD defaultSecurityConfig⟩

namespace SuspiciousActivityLogger

def escalate (config : SecurityConfig) (stats : ActivityStats) (pattern : String) (now : Time) :
    ActivityStats :=
  let count := stats.count + 1
  { stats with
    count := count
    lastSeen := now
    patterns := stats.patterns ++ [pattern]
    suspicionLevel :=
      if config.blockAfterAttempts ≤ count then .critical
      else if 3 ≤ count then .high
      else if 2 ≤ count then .medium
      else stats.suspicionLevel }

def logSuspiciousInput (sal : SuspiciousActivityLogger) (source pattern : String)
    (created now : Time) : SuspiciousActivityLogger :=
  if ¬sal.config.enableLogging then sal
  else
    let stats := (sal.attempts source).getD ⟨0, created, 0, [], .low⟩
    { sal with
      attempts := Function.update sal.attempts source
        (some (escalate sal.config stats pattern now)) }

def shouldBlock (sal : SuspiciousActivityLogger) (source : String) (now : Time) : Bool :=
  match sal.attempts source with
  | none => false
  | some stats =>
      if sal.config.blockAfterAttempts ≤ stats.count then
        if now - stats.firstSeen < sal.config.suspicionResetDuration then true else false
      else false

def resetStats (sal : SuspiciousActivityLogger) (source : String) : SuspiciousActivityLogger :=
  { sal with attempts := Function.update sal.attempts source none }

end SuspiciousActivityLogger

/-- A call of `LogSuspiciousInput`, or of `ResetStats`. -/
inductive ActivityEvent where
  | log (source pattern : String) (created now : Time)
  | reset (source : String)
deriving DecidableEq

namespace SuspiciousActivityLogger

def step (sal : SuspiciousActivityLogger) : ActivityEvent → SuspiciousActivityLogger
  | .log source pattern created now => sal.logSuspiciousInput source pattern created now
  | .reset source => sal.resetStats source

def run (config : SecurityConfig) (es : List ActivityEvent) : SuspiciousActivityLogger :=
  es.foldl step (newSuspiciousActivityLogger (some config))

end SuspiciousActivityLogger

/-! ## What the statistics say -/

/-- An input that was logged: the two readings of the clock. -/
structure Attempt where
  created : Time
  now : Time
deriving DecidableEq

def attemptsOf (source : String) : List ActivityEvent → List Attempt :=
  List.filterMap fun
    | .log source' _ created now => if source' = source then some ⟨created, now⟩ else none
    | .reset _ => none

/-- The number of inputs of a source that were logged after `s`, and not
after `t`. -/
def loggedIn (source : String) (s t : Time) (es : List ActivityEvent) : Nat :=
  (attemptsOf source es).countP fun a => s < a.now ∧ a.now ≤ t

theorem attemptsOf_append (source : String) (es es' : List ActivityEvent) :
    attemptsOf source (es ++ es') = attemptsOf source es ++ attemptsOf source es' :=
  List.filterMap_append

/-- The number of inputs and the time of the first. -/
structure ActivityStats.Counts (stats : ActivityStats) (first : Attempt) (rest : List Attempt) :
    Prop where
  count : stats.count = rest.length + 1
  firstSeen : stats.firstSeen = first.created

namespace SuspiciousActivityLogger

variable {config : SecurityConfig} {sal : SuspiciousActivityLogger} {source : String}
  {es : List ActivityEvent} {e : ActivityEvent} {as : List Attempt}

/-- What the logger has about a source after the inputs `as`. -/
def Knows (sal : SuspiciousActivityLogger) (source : String) : List Attempt → Prop
  | [] => sal.attempts source = none
  | first :: rest => ∃ stats, sal.attempts source = some stats ∧ stats.Counts first rest

theorem run_append (config : SecurityConfig) (es : List ActivityEvent) (e : ActivityEvent) :
    run config (es ++ [e]) = (run config es).step e := by
  rw [run, List.foldl_append]
  rfl

theorem step_config (sal : SuspiciousActivityLogger) (e : ActivityEvent) :
    (sal.step e).config = sal.config := by
  cases e with
  | log source pattern created now =>
      unfold step logSuspiciousInput
      split_ifs <;> rfl
  | reset source => rfl

theorem Knows.log (h : sal.Knows source as) (henabled : sal.config.enableLogging = true)
    (pattern : String) (created now : Time) :
    (sal.logSuspiciousInput source pattern created now).Knows source (as ++ [⟨created, now⟩]) := by
  have hself : (sal.logSuspiciousInput source pattern created now).attempts source
      = some (escalate sal.config ((sal.attempts source).getD ⟨0, created, 0, [], .low⟩) pattern
        now) := by
    simp [logSuspiciousInput, henabled]
  cases as with
  | nil =>
      refine ⟨_, hself, ?_⟩
      have hnone : sal.attempts source = none := h
      rw [hnone]
      exact ⟨rfl, rfl⟩
  | cons first rest =>
      obtain ⟨stats, hstats, hcounts⟩ := h
      refine ⟨_, hself, ?_⟩
      rw [hstats, Option.getD_some]
      exact ⟨by simp [escalate, hcounts.count], hcounts.firstSeen⟩

theorem Knows.congr {sal' : SuspiciousActivityLogger} (h : sal.Knows source as)
    (heq : sal'.attempts source = sal.attempts source) : sal'.Knows source as := by
  cases as with
  | nil => exact heq.trans h
  | cons first rest =>
      unfold Knows
      rw [heq]
      exact h

/-- The statistics of a source go by its own inputs. -/
theorem Knows.step (h : sal.Knows source as) (henabled : sal.config.enableLogging = true)
    (he : e ≠ .reset source) : (sal.step e).Knows source (as ++ attemptsOf source [e]) := by
  cases e with
  | log source' pattern created now =>
      by_cases heq : source' = source
      · subst heq
        simpa [attemptsOf, SuspiciousActivityLogger.step] using h.log henabled pattern created now
      · have hne : source ≠ source' := Ne.symm heq
        simpa [attemptsOf, heq] using h.congr
          (by simp [SuspiciousActivityLogger.step, logSuspiciousInput, henabled, hne])
  | reset source' =>
      have hne : source ≠ source' := fun heq => he (heq ▸ rfl)
      simpa [attemptsOf] using h.congr
        (by simp [SuspiciousActivityLogger.step, resetStats, hne])

theorem run_attempts (henabled : config.enableLogging = true)
    (hreset : ∀ e ∈ es, e ≠ .reset source) :
    (run config es).config = config ∧ (run config es).Knows source (attemptsOf source es) := by
  induction es using List.reverseRecOn with
  | nil => exact ⟨rfl, rfl⟩
  | append_singleton es e ih =>
      rw [List.forall_mem_append, List.forall_mem_singleton] at hreset
      obtain ⟨hconfig, hknows⟩ := ih hreset.1
      rw [run_append, attemptsOf_append]
      refine ⟨(step_config ..).trans hconfig, hknows.step ?_ hreset.2⟩
      rwa [hconfig]

theorem Knows.shouldBlock_iff (h : sal.Knows source as)
    (hcount : sal.config.blockAfterAttempts ≤ as.length) (t : Time) :
    sal.shouldBlock source t = true
      ↔ ∃ first, as.head? = some first ∧ t - first.created < sal.config.suspicionResetDuration := by
  cases as with
  | nil =>
      have hnone : sal.attempts source = none := h
      simp [shouldBlock, hnone]
  | cons first rest =>
      obtain ⟨stats, hstats, hcounts⟩ := h
      have hle : sal.config.blockAfterAttempts ≤ stats.count := by
        rwa [hcounts.count]
      simp [shouldBlock, hstats, hle, hcounts.firstSeen]

end SuspiciousActivityLogger

/-- **Repeat offenders.** A source with `BlockAfterAttempts` suspicious
inputs in the window is blocked exactly if its first input ever is in the
window too. -/
theorem offender_blocked_iff {config : SecurityConfig} (henabled : config.enableLogging = true)
    {source : String} {es : List ActivityEvent} (hreset : ∀ e ∈ es, e ≠ .reset source) {t : Time}
    (hwindow : config.blockAfterAttempts
      ≤ loggedIn source (t - config.suspicionResetDuration) t es) :
    (SuspiciousActivityLogger.run config es).shouldBlock source t = true
      ↔ ∃ first, (attemptsOf source es).head? = some first
        ∧ t - first.created < config.suspicionResetDuration := by
  obtain ⟨hconfig, hknows⟩ := SuspiciousActivityLogger.run_attempts henabled hreset
  have hlength : config.blockAfterAttempts ≤ (attemptsOf source es).length :=
    hwindow.trans (Int.ofNat_le.mpr List.countP_le_length)
  have hiff := hknows.shouldBlock_iff (hconfig.symm ▸ hlength) t
  rwa [hconfig] at hiff

def burstAt (t : Time) : List ActivityEvent :=
  List.replicate 5 (.log "10.0.0.1" "SQL_INJECTION:--" t t)

theorem offender_blocked_iff_burst :
    (SuspiciousActivityLogger.run defaultSecurityConfig (burstAt 7)).shouldBlock "10.0.0.1" 9
      = true :=
  (offender_blocked_iff rfl (by decide) (by decide)).mpr ⟨⟨7, 7⟩, by decide, by decide⟩

/-- One attempt, and a burst two hours later: the source is not blocked. -/
theorem old_offender_not_blocked :
    let es := .log "10.0.0.1" "SQL_INJECTION:--" 0 0 :: burstAt (2 * hour)
    loggedIn "10.0.0.1" (2 * hour - defaultSecurityConfig.suspicionResetDuration) (2 * hour) es = 5
      ∧ (SuspiciousActivityLogger.run defaultSecurityConfig es).shouldBlock "10.0.0.1" (2 * hour)
        = false := by
  decide

end TradingBackend
