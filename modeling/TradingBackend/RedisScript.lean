import TradingBackend.RateBound
import Mathlib.Data.List.Chain

/-!
# The script and the buckets in memory

The script keeps its bucket in milliseconds and forgets it by expiry, the
process keeps it in seconds and forgets it when the cleanup comes by. On
whole milliseconds both are the same `TokenBucket`, and a bucket has
expired exactly if a cleanup at that moment would forget it. So the script
decides like the process does when no bucket is older than an hour
(`Mirror.request`): because the requests of the client are less than an
hour apart (`run_mirror_of_gaps`), or because a cleanup is made before
every request (`run_mirror_swept` of `Fallback`).
-/

namespace TradingBackend

/-! ## The script -/

/-- The bucket of the script as a token bucket, on a clock that shows
seconds. -/
def RedisBucket.level (b : RedisBucket) : TokenBucket ℚ := ⟨b.tokens, b.lastRefill / 1000⟩

namespace TokenBucketLimiter

variable {tbl : TokenBucketLimiter}

theorem milliseconds_of_dvd {d : Duration} (h : 1000000 ∣ d) :
    (d.milliseconds : ℚ) = d.seconds * 1000 := by
  obtain ⟨k, rfl⟩ := h
  rw [Duration.milliseconds, Int.mul_tdiv_cancel_left _ (by norm_num), Duration.seconds]
  push_cast
  ring

theorem unixMilli_of_dvd {t : Time} (h : 1000000 ∣ t) :
    (t.unixMilli : ℚ) / 1000 = Duration.seconds t := by
  obtain ⟨k, rfl⟩ := h
  rw [Time.unixMilli, Int.mul_ediv_cancel_left _ (by norm_num), Duration.seconds]
  push_cast
  ring

/-- What comes in, in milliseconds and in seconds. -/
theorem gain_eq (hpos : tbl.Positive) (hms : 1000000 ∣ tbl.refillInterval) (nowMs lastMs : Int) :
    ((nowMs - lastMs : Int) : ℚ) / tbl.refillInterval.milliseconds * tbl.refillRate
      = ((nowMs : ℚ) / 1000 - lastMs / 1000) * tbl.rate := by
  have hne : tbl.refillInterval.seconds ≠ 0 := (seconds_pos hpos.refillInterval).ne'
  rw [milliseconds_of_dvd hms, rate]
  push_cast
  field_simp

/-- The script is a request of a token bucket; where there is none, of a
full one. -/
theorem tokenScript_cases (hpos : tbl.Positive) (hms : 1000000 ∣ tbl.refillInterval)
    (nowMs : Int) (bucket : Option RedisBucket) :
    let b := bucket.elim (TokenBucket.full tbl.cap (nowMs / 1000)) RedisBucket.level
    let out := tokenScript tbl.maxTokens tbl.refillRate tbl.refillInterval.milliseconds nowMs bucket
    out.1 = ⟨(b.request tbl.cap tbl.rate (nowMs / 1000)).tokens, nowMs, nowMs + 3600 * 1000⟩
      ∧ (out.2.1 = true ↔ b.Allows tbl.cap tbl.rate (nowMs / 1000))
      ∧ out.2.2.1 = ⌊out.1.tokens⌋ := by
  intro b out
  have htokens : (b.refill tbl.cap tbl.rate (nowMs / 1000)).tokens =
      min (tbl.maxTokens : ℚ) (bucket.elim (tbl.maxTokens : ℚ) RedisBucket.tokens
        + ((nowMs - bucket.elim nowMs RedisBucket.lastRefill : Int) : ℚ)
          / tbl.refillInterval.milliseconds * tbl.refillRate) := by
    rw [gain_eq hpos hms]
    cases bucket <;> rfl
  refine ⟨?_, ?_, rfl⟩
  · by_cases ha : b.Allows tbl.cap tbl.rate (nowMs / 1000)
    · have h := ha
      rw [TokenBucket.Allows, htokens] at h
      rw [TokenBucket.request_of_allows ha, htokens]
      simp only [out, tokenScript, decide_eq_true h, if_true]
    · have h := ha
      rw [TokenBucket.Allows, htokens] at h
      rw [TokenBucket.request_of_not_allows ha, htokens]
      simp only [out, tokenScript, decide_eq_false h, Bool.false_eq_true, if_false]
  · rw [TokenBucket.Allows, htokens]
    exact decide_eq_true_iff

end TokenBucketLimiter

/-! ## The two buckets of a client -/

/-- The bucket of a client on the server and its bucket in memory, at time
`now`. A cleanup may have forgotten the latter, but not before the former
has expired. -/
inductive Mirror (tbl : TokenBucketLimiter) (now : Time) :
    Option RedisBucket → Option Bucket → Prop where
  | fresh : Mirror tbl now none none
  | same {rb : RedisBucket} {b : Bucket} (kept : b.Kept tbl) (past : b.lastRefill ≤ now)
      (tokens : rb.tokens = b.tokens) (time : b.lastRefill = rb.lastRefill * 1000000)
      (expires : rb.expiresAt = rb.lastRefill + 3600 * 1000) : Mirror tbl now (some rb) (some b)
  | expired {rb : RedisBucket} (hexpired : rb.expiresAt * 1000000 < now) :
      Mirror tbl now (some rb) none

namespace Mirror

variable {tbl : TokenBucketLimiter} {now : Time} {rb? : Option RedisBucket} {b? : Option Bucket}

theorem later (h : Mirror tbl now rb? b?) {now' : Time} (hle : now ≤ now') :
    Mirror tbl now' rb? b? := by
  cases h with
  | fresh => exact .fresh
  | same kept past tokens time expires => exact .same kept (past.trans hle) tokens time expires
  | expired hexpired => exact .expired (hexpired.trans_le hle)

theorem cleanup {store : InMemoryStore} {key : String}
    (h : Mirror tbl now rb? (store.buckets key)) :
    Mirror tbl now rb? ((store.cleanup now).buckets key) := by
  rcases store.cleanup_cases key now with hsame | ⟨hnone, b, hb, hold⟩
  · rwa [hsame]
  · rw [hb] at h
    rw [hnone]
    cases h with
    | @same rb _ kept past tokens time expires =>
        have hold : (3600 * 1000000000 : Int) < now - rb.lastRefill * 1000000 := time ▸ hold
        exact .expired (by omega)

/-- The bucket that the script finds and the one that the process finds or
makes. -/
theorem live (h : Mirror tbl now rb? b?) (hpos : tbl.Positive) (hnow : 1000000 ∣ now)
    (hlive : ∀ b, b? = some b → now - b.lastRefill ≤ hour) :
    let b := b?.getD ⟨tbl.maxTokens, now, tbl.maxTokens, tbl.rate⟩
    (rb?.filter fun rb => now.unixMilli ≤ rb.expiresAt).elim
        (TokenBucket.full tbl.cap (Duration.seconds now)) RedisBucket.level = b.level
      ∧ b.Kept tbl ∧ b.lastRefill ≤ now := by
  obtain ⟨k, rfl⟩ := hnow
  have hms : Time.unixMilli (1000000 * k) = k := Int.mul_ediv_cancel_left _ (by norm_num)
  rw [hms]
  cases h with
  | fresh => exact ⟨rfl, ⟨⟨rfl, rfl⟩, TokenBucket.within_full hpos.cap⟩, le_rfl⟩
  | @same rb b kept past tokens time expires =>
      have halive : 1000000 * k - rb.lastRefill * 1000000 ≤ (3600 * 1000000000 : Int) :=
        time ▸ hlive b rfl
      have hle : k ≤ rb.expiresAt := by omega
      refine ⟨?_, kept, past⟩
      rw [Option.filter_some, decide_eq_true hle, if_pos rfl]
      refine TokenBucket.ext tokens ?_
      simp only [Option.elim_some, RedisBucket.level, Option.getD_some, Bucket.level, time,
        Duration.seconds]
      push_cast
      ring
  | @expired rb hexpired =>
      have hle : ¬k ≤ rb.expiresAt := by omega
      refine ⟨?_, ⟨⟨rfl, rfl⟩, TokenBucket.within_full hpos.cap⟩, le_rfl⟩
      rw [Option.filter_some, decide_eq_false hle, if_neg Bool.false_ne_true]
      rfl

/-- A request, as the script and as the process decide about it. -/
theorem request (h : Mirror tbl now rb? b?) (hpos : tbl.Positive)
    (hms : 1000000 ∣ tbl.refillInterval) (hnow : 1000000 ∣ now)
    (hlive : ∀ b, b? = some b → now - b.lastRefill ≤ hour) :
    let b := b?.getD ⟨tbl.maxTokens, now, tbl.maxTokens, tbl.rate⟩
    let out := tokenScript tbl.maxTokens tbl.refillRate tbl.refillInterval.milliseconds
      now.unixMilli (rb?.filter fun rb => now.unixMilli ≤ rb.expiresAt)
    Mirror tbl now (some out.1) (some (b.allow now).1)
      ∧ out.2.1 = (b.allow now).2.allowed ∧ out.2.2.1 = (b.allow now).2.remaining := by
  intro b out
  obtain ⟨hlevel, hkept, hpast⟩ := h.live hpos hnow hlive
  obtain ⟨hbucket, hallowed, hremaining⟩ := TokenBucketLimiter.tokenScript_cases hpos hms
    now.unixMilli (rb?.filter fun rb => now.unixMilli ≤ rb.expiresAt)
  rw [TokenBucketLimiter.unixMilli_of_dvd hnow, hlevel] at hbucket hallowed
  obtain ⟨hrequest, hallow⟩ := hkept.level_allow now
  have hkept' : (b.allow now).1.Kept tbl := hkept.allow hpos hpast
  have htokens : out.1.tokens = (b.allow now).1.tokens :=
    (congrArg RedisBucket.tokens hbucket).trans (congrArg TokenBucket.tokens hrequest.symm)
  refine ⟨.same hkept' (b.allow_lastRefill now).le htokens ?_ ?_, ?_, ?_⟩
  · rw [b.allow_lastRefill now, congrArg RedisBucket.lastRefill hbucket]
    exact (Int.ediv_mul_cancel hnow).symm
  · rw [congrArg RedisBucket.expiresAt hbucket, congrArg RedisBucket.lastRefill hbucket]
  · exact Bool.eq_iff_iff.mpr (hallowed.trans hallow.symm)
  · have hnonneg : 0 ≤ (b.allow now).1.tokens := hkept'.within.nonneg
    rw [b.allow_remaining, truncate_of_nonneg hnonneg, ← htokens]
    exact hremaining

end Mirror

/-! ## What an event does when the buckets are in Redis -/

/-- What the client is told, and when. -/
def Decision.answer (d : Decision) : Time × Bool × Int :=
  (d.time, d.result.allowed, d.result.remaining)

def answers (key : String) (ds : List Decision) : List (Time × Bool × Int) :=
  (ds.filter (·.clientKey = key)).map Decision.answer

theorem answers_append_self {key : String} {d : Decision} (h : d.clientKey = key)
    (ds : List Decision) : answers key (ds ++ [d]) = answers key ds ++ [d.answer] := by
  simp [answers, h]

theorem answers_append_other {key : String} {d : Decision} (h : d.clientKey ≠ key)
    (ds : List Decision) : answers key (ds ++ [d]) = answers key ds := by
  simp [answers, h]

theorem allowedIn_eq_answers (key : String) (s t : Time) (ds : List Decision) :
    allowedIn key s t ds
      = (answers key ds).countP fun a => a.2.1 = true ∧ s ≤ a.1 ∧ a.1 ≤ t := by
  rw [answers, List.countP_map, List.countP_filter, allowedIn]
  refine List.countP_congr fun d _ => ?_
  rw [Bool.and_eq_true, decide_eq_true_iff, Function.comp_apply, decide_eq_true_iff,
    decide_eq_true_iff, and_comm]
  rfl

section

variable (tbl : TokenBucketLimiter) (server : RedisServer) (key : String) (now : Time)

/-- The script's output for a request of the client. -/
def TokenBucketLimiter.scriptFor : RedisBucket × Bool × Int × Int :=
  tokenScript tbl.maxTokens tbl.refillRate tbl.refillInterval.milliseconds now.unixMilli
    (server.hmget (tbl.keyPrefix ++ key) now.unixMilli)

theorem TokenBucketLimiter.allowRedis_answer : (tbl.allowRedis server key now).2.answer
    = (now, (tbl.scriptFor server key now).2.1, (tbl.scriptFor server key now).2.2.1) := by
  unfold allowRedis scriptFor Decision.answer
  dsimp only
  split_ifs with hallowed
  · rw [hallowed]
  · rw [Bool.eq_false_iff.mpr hallowed]

theorem TokenBucketLimiter.allowRedis_clientKey :
    (tbl.allowRedis server key now).2.clientKey = key := rfl

theorem TokenBucketLimiter.allowRedis_self :
    (tbl.allowRedis server key now).1.hashes (tbl.keyPrefix ++ key)
      = some (tbl.scriptFor server key now).1 := Function.update_self ..

theorem TokenBucketLimiter.allowRedis_of_ne {key' : String} (h : key' ≠ key) :
    (tbl.allowRedis server key now).1.hashes (tbl.keyPrefix ++ key')
      = server.hashes (tbl.keyPrefix ++ key') :=
  Function.update_of_ne (fun heq => h ((String.append_right_inj tbl.keyPrefix).mp heq)) ..

end

namespace LimiterEvent

/-- The `Eval` that the event makes, if it makes one, succeeds. -/
def Succeeds : LimiterEvent → Prop
  | .allow _ _ _ _ fails => fails = false
  | .cleanup _ => True

/-- The call takes no time and is made on a whole millisecond. -/
def Punctual : LimiterEvent → Prop
  | .allow _ asked created now _ => asked = now ∧ created = now ∧ 1000000 ∣ now
  | .cleanup _ => True

instance decidableSucceeds : DecidablePred Succeeds
  | .allow _ _ _ _ _ => inferInstanceAs (Decidable (_ = _))
  | .cleanup _ => isTrue trivial

instance decidablePunctual : DecidablePred Punctual
  | .allow _ _ _ _ _ => inferInstanceAs (Decidable (_ ∧ _ ∧ _))
  | .cleanup _ => isTrue trivial

end LimiterEvent

namespace Limiting

/-- The effect of an event on the server and on the decisions, if `Eval`
does not fail. -/
inductive RedisStep (tbl : TokenBucketLimiter) (server : RedisServer) (ds : List Decision) :
    LimiterEvent → RedisServer → List Decision → Prop where
  | whitelisted {key asked created now result} (hkey : key ∈ tbl.whitelistedKeys) :
      RedisStep tbl server ds (.allow key asked created now false) server
        (ds ++ [⟨key, now, .whitelist, result⟩])
  | decided {key asked created now} (hkey : key ∉ tbl.whitelistedKeys) :
      RedisStep tbl server ds (.allow key asked created now false)
        (tbl.allowRedis server key asked).1 (ds ++ [(tbl.allowRedis server key asked).2])
  | cleanup {now} : RedisStep tbl server ds (.cleanup now) server ds

variable {tbl : TokenBucketLimiter} {server server' : RedisServer} {store store' : InMemoryStore}
  {s : Limiting × List Decision} {ds ds' ds₁ ds₁' : List Decision} {e : LimiterEvent}
  {es : List LimiterEvent} {key : String} {now : Time}

theorem step_redis (h : s.1 = ⟨{ tbl with backend := .redis }, server⟩) (he : e.Succeeds) :
    ∃ server', (step s e).1 = ⟨{ tbl with backend := .redis }, server'⟩
      ∧ RedisStep tbl server s.2 e server' (step s e).2 := by
  cases e with
  | allow key asked created now fails =>
      obtain rfl : fails = false := he
      by_cases hkey : key ∈ tbl.whitelistedKeys
      · refine ⟨server, ?_, ?_⟩
        · simp only [step, allow, h, if_pos hkey]
        · simp only [step, allow, h, if_pos hkey]
          exact .whitelisted hkey
      · refine ⟨(tbl.allowRedis server key asked).1, ?_, ?_⟩
        · simp only [step, allow, h, if_neg hkey, Bool.false_eq_true, if_false]
          rfl
        · simp only [step, allow, h, if_neg hkey, Bool.false_eq_true, if_false]
          exact .decided hkey
  | cleanup now =>
      refine ⟨server, ?_, ?_⟩
      · simp only [step, h]
      · simp only [step, h]
        exact .cleanup

/-- What the server and the store have for a client, and the answers that
its requests got from both. -/
structure Mirrored (tbl : TokenBucketLimiter) (key : String) (server : RedisServer)
    (store : InMemoryStore) (ds ds' : List Decision) (now : Time) : Prop where
  buckets : Mirror tbl now (server.hashes (tbl.keyPrefix ++ key)) (store.buckets key)
  answers : answers key ds = answers key ds'

theorem Mirrored.later (h : Mirrored tbl key server store ds ds' now) {now' : Time}
    (hle : now ≤ now') : Mirrored tbl key server store ds ds' now' :=
  ⟨h.buckets.later hle, h.answers⟩

theorem Mirrored.cleanup (h : Mirrored tbl key server store ds ds' now)
    (hredis : RedisStep tbl server ds (.cleanup now) server' ds₁)
    (hmemory : MemoryStep tbl store ds' (.cleanup now) store' ds₁') :
    Mirrored tbl key server' store' ds₁ ds₁' now := by
  cases hredis
  cases hmemory
  exact ⟨h.buckets.cleanup, h.answers⟩

/-- A request of the client, while its bucket in memory is not older than
an hour. -/
theorem Mirrored.request (h : Mirrored tbl key server store ds ds' now) (hpos : tbl.Positive)
    (hms : 1000000 ∣ tbl.refillInterval) (hkey : key ∉ tbl.whitelistedKeys)
    (hnow : 1000000 ∣ now) (hlive : ∀ b, store.buckets key = some b → now - b.lastRefill ≤ hour)
    (hredis : RedisStep tbl server ds (.allow key now now now false) server' ds₁)
    (hmemory : MemoryStep tbl store ds' (.allow key now now now false) store' ds₁') :
    Mirrored tbl key server' store' ds₁ ds₁' now := by
  obtain ⟨hmirror, hallowed, hremaining⟩ := h.buckets.request hpos hms hnow hlive
  cases hredis with
  | whitelisted hkey' => exact absurd hkey' hkey
  | decided _ =>
      cases hmemory with
      | whitelisted hkey' => exact absurd hkey' hkey
      | decided _ =>
          refine ⟨?_, ?_⟩
          · rw [InMemoryStore.set_self, TokenBucketLimiter.allowRedis_self]
            exact hmirror
          · have hanswer : (tbl.allowRedis server key now).2.answer
                = (now, ((store.bucketFor tbl key now).allow now).2.allowed,
                  ((store.bucketFor tbl key now).allow now).2.remaining) :=
              (tbl.allowRedis_answer server key now).trans
                (congrArg₂ (fun a r => (now, a, r)) hallowed hremaining)
            rw [answers_append_self (tbl.allowRedis_clientKey server key now), hanswer, h.answers]
            simp [answers_append_self, Decision.answer]

theorem Mirrored.other (h : Mirrored tbl key server store ds ds' now) (he : ¬e.Concerns key)
    (hredis : RedisStep tbl server ds e server' ds₁)
    (hmemory : MemoryStep tbl store ds' e store' ds₁') :
    Mirrored tbl key server' store' ds₁ ds₁' now := by
  cases hredis with
  | @whitelisted key' asked created now result hkey' =>
      have hne : key' ≠ key := he
      cases hmemory with
      | whitelisted _ =>
          refine ⟨h.buckets, ?_⟩
          rw [answers_append_other hne, answers_append_other hne, h.answers]
      | decided hkey'' => exact absurd hkey' hkey''
  | @decided key' asked created now hkey' =>
      have hne : key' ≠ key := he
      cases hmemory with
      | whitelisted hkey'' => exact absurd hkey'' hkey'
      | decided _ =>
          refine ⟨?_, ?_⟩
          · rw [InMemoryStore.set_of_ne _ (Ne.symm hne),
              tbl.allowRedis_of_ne server key' asked (Ne.symm hne)]
            exact h.buckets
          · rw [answers_append_other hne, answers_append_other hne, h.answers]
  | cleanup => exact absurd trivial he

/-! ## Whole runs -/

def requestTimes : List LimiterEvent → List Time :=
  List.filterMap fun
    | .allow _ _ _ now _ => some now
    | .cleanup _ => none

theorem requestTimes_allow (es : List LimiterEvent) (key : String) (asked created now : Time)
    (fails : Bool) :
    requestTimes (es ++ [.allow key asked created now fails]) = requestTimes es ++ [now] := by
  simp [requestTimes]

theorem requestTimes_cleanup (es : List LimiterEvent) (now : Time) :
    requestTimes (es ++ [.cleanup now]) = requestTimes es := by
  simp [requestTimes]

/-- A bucket that a cleanup has left was there before and is not older than
an hour. -/
theorem bucket_of_cleanup {b : Bucket} (hb : (store.cleanup now).buckets key = some b) :
    store.buckets key = some b ∧ now - b.lastRefill ≤ hour := by
  obtain ⟨hb, hyoung⟩ := Option.filter_eq_some_iff.mp hb
  exact ⟨hb, not_lt.mp (of_decide_eq_true hyoung)⟩

theorem MemoryStep.cleanup_inv (h : MemoryStep tbl store ds (.cleanup now) store' ds') :
    store' = store.cleanup now ∧ ds' = ds := by
  cases h
  exact ⟨rfl, rfl⟩

theorem MemoryStep.lastRefill {asked created : Time} {fails : Bool}
    (h : MemoryStep tbl store ds (.allow key asked created now fails) store' ds')
    (hkey : key ∉ tbl.whitelistedKeys) {b : Bucket} (hb : store'.buckets key = some b) :
    b.lastRefill = now := by
  cases h with
  | whitelisted hkey' => exact absurd hkey' hkey
  | decided _ =>
      rw [InMemoryStore.set_self] at hb
      cases hb
      exact Bucket.allow_lastRefill ..

/-- Requests of one client, each less than an hour after the one before. -/
theorem run_mirror_of_gaps (hpos : tbl.Positive) (hms : 1000000 ∣ tbl.refillInterval)
    (hkey : key ∉ tbl.whitelistedKeys) (hes : Chronological es)
    (hpunctual : ∀ e ∈ es, e.Concerns key ∧ e.Succeeds ∧ e.Punctual)
    (hgaps : (requestTimes es).IsChain fun t t' => t' - t < hour) :
    ∃ server store,
      (run { tbl with backend := .redis } es).1 = ⟨{ tbl with backend := .redis }, server⟩
        ∧ (run { tbl with backend := .memory newInMemoryStore } es).1.limiter
          = { tbl with backend := .memory store }
        ∧ (∀ b, store.buckets key = some b → (requestTimes es).getLast? = some b.lastRefill)
        ∧ ∀ now, Over es now → Mirrored tbl key server store
            (run { tbl with backend := .redis } es).2
            (run { tbl with backend := .memory newInMemoryStore } es).2 now := by
  induction es using List.reverseRecOn with
  | nil => exact ⟨_, newInMemoryStore, rfl, rfl, nofun, fun now _ => ⟨.fresh, rfl⟩⟩
  | append_singleton es e ih =>
      obtain ⟨hbefore, -, hover⟩ := hes.snoc_inv
      rw [List.forall_mem_append, List.forall_mem_singleton] at hpunctual
      obtain ⟨hall, hconcerns, hsucceeds, hwhole⟩ := hpunctual
      cases e with
      | cleanup now =>
          rw [requestTimes_cleanup] at hgaps ⊢
          obtain ⟨server, store, hredis, hmemory, hlast, hmirror⟩ := ih hbefore hall hgaps
          obtain ⟨server', hredis', hrstep⟩ := step_redis hredis hsucceeds
          obtain ⟨store', hmemory', hmstep⟩ := step_memory hmemory (.cleanup now)
          rw [run_append, run_append]
          refine ⟨server', store', hredis', hmemory', fun b hb => ?_, fun now' hnow' => ?_⟩
          · rw [hmstep.cleanup_inv.1] at hb
            exact hlast b (bucket_of_cleanup hb).1
          · exact ((hmirror now hover).cleanup hrstep hmstep).later hnow'.snoc_inv.2
      | allow key' asked created now fails =>
          obtain rfl : key' = key := hconcerns
          obtain rfl : fails = false := hsucceeds
          obtain ⟨hasked, hcreated, hnow⟩ := hwhole
          subst asked created
          rw [requestTimes_allow, List.isChain_append] at hgaps
          rw [requestTimes_allow]
          obtain ⟨server, store, hredis, hmemory, hlast, hmirror⟩ := ih hbefore hall hgaps.1
          obtain ⟨server', hredis', hrstep⟩ :=
            step_redis (e := .allow key' now now now false) hredis rfl
          obtain ⟨store', hmemory', hmstep⟩ := step_memory hmemory _
          rw [run_append, run_append]
          have hlive : ∀ b, store.buckets key' = some b → now - b.lastRefill ≤ hour := fun b hb =>
            (hgaps.2.2 _ (hlast b hb) now rfl).le
          refine ⟨server', store', hredis', hmemory', fun b hb => ?_, fun now' hnow' => ?_⟩
          · rw [List.getLast?_concat, hmstep.lastRefill hkey hb]
          · exact ((hmirror now hover).request hpos hms hkey hnow hlive hrstep hmstep).later
              hnow'.snoc_inv.2

theorem allow_clientKey (s : Limiting) (key : String) (asked created now : Time) (fails : Bool) :
    (s.allow key asked created now fails).2.clientKey = key := by
  unfold allow
  cases s.limiter.backend with
  | redis =>
      dsimp only
      split_ifs <;> rfl
  | memory store =>
      dsimp only
      split_ifs <;> rfl

/-- If only one client makes requests, then the decisions are about them. -/
theorem run_clientKey (limiter : TokenBucketLimiter) (hes : ∀ e ∈ es, e.Concerns key) :
    ∀ d ∈ (run limiter es).2, d.clientKey = key := by
  induction es using List.reverseRecOn with
  | nil => exact List.forall_mem_nil _
  | append_singleton es e ih =>
      rw [List.forall_mem_append, List.forall_mem_singleton] at hes
      rw [run_append]
      cases e with
      | allow key' asked created now fails =>
          obtain rfl : key' = key := hes.2
          refine List.forall_mem_append.mpr ⟨ih hes.1, List.forall_mem_singleton.mpr ?_⟩
          exact allow_clientKey ..
      | cleanup now =>
          unfold step
          cases (run limiter es).1.limiter.backend <;> exact ih hes.1

theorem answers_of_clientKey (h : ∀ d ∈ ds, d.clientKey = key) :
    answers key ds = ds.map Decision.answer := by
  rw [answers, List.filter_eq_self.mpr fun d hd => decide_eq_true (h d hd)]

end Limiting

/-- **The script decides like the buckets in memory.** Requests of one
client on whole milliseconds, less than an hour apart, get the same answers
from both, whenever the cleanup of the process comes by. -/
theorem script_decides_like_memory {tbl : TokenBucketLimiter} (hpos : tbl.Positive)
    (hms : 1000000 ∣ tbl.refillInterval) {key : String} (hkey : key ∉ tbl.whitelistedKeys)
    {es : List LimiterEvent} (hes : Chronological es)
    (hrequests : ∀ e ∈ es, e.Concerns key ∧ e.Succeeds ∧ e.Punctual)
    (hgaps : (Limiting.requestTimes es).IsChain fun t t' => t' - t < hour) :
    (Limiting.run { tbl with backend := .redis } es).2.map
        (fun d => (d.time, d.result.allowed, d.result.remaining))
      = (Limiting.run { tbl with backend := .memory newInMemoryStore } es).2.map
        (fun d => (d.time, d.result.allowed, d.result.remaining)) := by
  obtain ⟨_, _, -, -, -, hmirror⟩ :=
    Limiting.run_mirror_of_gaps hpos hms hkey hes hrequests hgaps
  have hconcerns : ∀ e ∈ es, e.Concerns key := fun e he => (hrequests e he).1
  obtain ⟨now, hnow⟩ := hes.exists_over
  have hanswers := (hmirror now hnow).answers
  rwa [Limiting.answers_of_clientKey (Limiting.run_clientKey _ hconcerns),
    Limiting.answers_of_clientKey (Limiting.run_clientKey _ hconcerns)] at hanswers

/-- A burst that empties the bucket, a cleanup, and a request after most of
an hour. -/
def burstAndPause : List LimiterEvent :=
  List.replicate 3 (.allow "alice" 0 0 0 false) ++
    [.cleanup 5, .allow "alice" (hour - 1000000) (hour - 1000000) (hour - 1000000) false]

theorem script_decides_like_memory_pause :
    (Limiting.run { newTokenBucketLimiter true routerConfig with backend := .redis }
        burstAndPause).2.map (fun d => (d.time, d.result.allowed, d.result.remaining))
      = (Limiting.run
          { newTokenBucketLimiter true routerConfig with backend := .memory newInMemoryStore }
          burstAndPause).2.map (fun d => (d.time, d.result.allowed, d.result.remaining)) :=
  script_decides_like_memory ⟨by decide, by decide, by decide⟩ (by decide)
    (by decide : "alice" ∉ ["internal"]) (by decide) (by decide) (by decide)

end TradingBackend
