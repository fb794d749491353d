import TradingBackend.Fallback
import TradingBackend.GoStrings

/-!
# When to try again

`DefaultErrorHandler` of `ratelimit/middleware.go` tells a client whose
request was refused after how many seconds the next one will be allowed.
The wait is computed from the tokens of the bucket, cut to nanoseconds and
then to seconds; the second that is added at the end makes up for both cuts
(`le_retryAfterSeconds`). Redis answers the tokens as an integer, which for
a refused request is never more than zero, and that only makes the wait
longer.

A call of `allowRedis` looks at the clock before its script is run, so the
scripts of calls at the same time may run in another order than that of
their times. A script whose time is before that of the last one takes tokens
back, and there may be less than none; but by the time of the latest of them
the debt is gone. So the wait counts from a time when all the calls so far
have looked at the clock.

Left out are the log lines, the rest of the middleware, and
`CustomErrorHandler`, which only writes another status and text.
-/

namespace TradingBackend

def Time.unix (t : Time) : Int := t / 1000000000

/-- What is written to an `http.ResponseWriter`. -/
structure Response where
  status : Nat
  headers : List (String × String)
  body : String

def Response.header (response : Response) (name : String) : Option String :=
  response.headers.lookup name

namespace RateLimitResult

/-- `ResetAt`; nothing sets it for a request that is allowed. -/
def resetTime (result : RateLimitResult) : Time :=
  result.resetAt.getD (-62135596800 * 1000000000)

/-- `retryAfterSeconds` of `DefaultErrorHandler`. -/
def retryAfterSeconds (result : RateLimitResult) : Int := truncate result.retryAfter.seconds + 1

end RateLimitResult

/-- `DefaultErrorHandler`; `rfc3339` is `Format(time.RFC3339)`. -/
def defaultErrorHandler (rfc3339 : Time → String) (result : RateLimitResult) : Response where
  status := 429
  headers :=
    [("Content-Type", "application/json"),
      ("Retry-After", toString result.retryAfterSeconds),
      ("X-RateLimit-Reset", toString result.resetTime.unix)]
  body :=
    "\x7b\n\t\t\"success\": false,\n\t\t\"error\": \"Rate limit exceeded\",\n"
      ++ "\t\t\"message\": \"Too many requests. Please slow down.\",\n"
      ++ "\t\t\"retry_after_seconds\": " ++ toString result.retryAfterSeconds ++ ",\n"
      ++ "\t\t\"reset_at\": \"" ++ rfc3339 result.resetTime ++ "\"\n\t\x7d"

theorem retryAfter_header (rfc3339 : Time → String) (result : RateLimitResult) :
    (defaultErrorHandler rfc3339 result).header "Retry-After"
      = some (toString result.retryAfterSeconds) := rfl

/-! ## The wait -/

/-- The cuts to nanoseconds and to seconds lose less than a second. -/
theorem le_retryAfterSeconds {result : RateLimitResult} {wait : ℚ} (hwait : 0 ≤ wait)
    (h : result.retryAfter = truncate (wait * 1000000000)) : wait ≤ result.retryAfterSeconds := by
  have hns : 0 ≤ wait * 1000000000 := mul_nonneg hwait (by norm_num)
  rw [truncate_of_nonneg hns] at h
  have hretry : 0 ≤ result.retryAfter := h ▸ Int.floor_nonneg.mpr hns
  have hseconds : 0 ≤ result.retryAfter.seconds :=
    div_nonneg (Int.cast_nonneg hretry) (by norm_num)
  have hlt : result.retryAfter.seconds < result.retryAfterSeconds := by
    rw [RateLimitResult.retryAfterSeconds, truncate_of_nonneg hseconds]
    push_cast
    exact Int.lt_floor_add_one _
  -- so the whole seconds are at least one nanosecond more
  have hnext : result.retryAfter + 1 ≤ result.retryAfterSeconds * 1000000000 := by
    rw [Duration.seconds, div_lt_iff₀ (by norm_num)] at hlt
    exact_mod_cast hlt
  have hfloor : wait * 1000000000 < (result.retryAfter : ℚ) + 1 := by
    rw [h]
    exact Int.lt_floor_add_one _
  have hle : ((result.retryAfter + 1 : Int) : ℚ) ≤ (result.retryAfterSeconds * 1000000000 : Int) :=
    Int.cast_le.mpr hnext
  push_cast at hle
  linarith only [hfloor, hle]

theorem seconds_add (t : Time) (n : Int) :
    Duration.seconds (t + n * 1000000000) = Duration.seconds t + n := by
  unfold Duration.seconds
  push_cast
  ring

theorem truncate_nonpos {q : ℚ} (h : q < 1) : truncate q ≤ 0 := by
  unfold truncate
  split_ifs with hq
  · exact Int.lt_add_one_iff.mp (Int.floor_lt.mpr (by simpa using h))
  · exact Int.ceil_le.mpr (by simpa using (not_le.mp hq).le)

theorem TokenBucketLimiter.Positive.rate_pos {tbl : TokenBucketLimiter} (h : tbl.Positive) :
    0 < tbl.rate :=
  div_pos (Int.cast_pos.mpr h.refillRate) (seconds_pos h.refillInterval)

theorem TokenBucketLimiter.Positive.one_le_cap {tbl : TokenBucketLimiter} (h : tbl.Positive) :
    1 ≤ tbl.cap := by
  have hone : (1 : Int) ≤ tbl.maxTokens := h.maxTokens
  rw [TokenBucketLimiter.cap]
  exact_mod_cast hone

/-! ## A refused request -/

/-- A request is refused because there is less than a token, and the wait is
for what is missing. -/
theorem Bucket.allow_refused {b : Bucket} {now : Time} (h : (b.allow now).2.allowed = false) :
    (b.allow now).1.tokens < 1
      ∧ (b.allow now).2.retryAfter
        = truncate ((1 - (b.allow now).1.tokens) / b.refillRate * 1000000000) := by
  unfold allow at h ⊢
  dsimp only at h ⊢
  split_ifs at h ⊢ with hone
  exact ⟨not_le.mp hone, rfl⟩

theorem tokenScript_refused {maxTokens refillRate refillIntervalMs nowMs : Int}
    {bucket : Option RedisBucket}
    (h : (tokenScript maxTokens refillRate refillIntervalMs nowMs bucket).2.1 = false) :
    (tokenScript maxTokens refillRate refillIntervalMs nowMs bucket).2.2.2 ≤ 0 := by
  unfold tokenScript at h ⊢
  dsimp only at h ⊢
  rw [h]
  exact truncate_nonpos (not_le.mp (of_decide_eq_false h))

namespace TokenBucketLimiter

variable {tbl : TokenBucketLimiter} {server : RedisServer} {key : String} {now t : Time}

theorem allowRedis_allowed :
    (tbl.allowRedis server key now).2.result.allowed = (tbl.scriptFor server key now).2.1 :=
  congrArg (·.2.1) (tbl.allowRedis_answer server key now)

theorem allowRedis_refused (h : (tbl.allowRedis server key now).2.result.allowed = false) :
    (tbl.scriptFor server key now).2.2.2 ≤ 0
      ∧ (tbl.allowRedis server key now).2.result.retryAfter
        = truncate ((1 - (tbl.scriptFor server key now).2.2.2) / tbl.rate * 1000000000) := by
  rw [allowRedis_allowed] at h
  refine ⟨tokenScript_refused h, ?_⟩
  have hresult : (tbl.allowRedis server key now).2.result.retryAfter
      = (if (tbl.scriptFor server key now).2.1 then 0
        else truncate ((1 - (tbl.scriptFor server key now).2.2.2) / tbl.rate * 1000000000)) := by
    unfold allowRedis scriptFor
    dsimp only
    split_ifs <;> rfl
  rw [hresult, h, if_neg Bool.false_ne_true]

/-- The bucket that the script finds, or a full one. -/
def redisLevel (tbl : TokenBucketLimiter) (server : RedisServer) (key : String) (now : Time) :
    TokenBucket ℚ :=
  (server.hmget (tbl.keyPrefix ++ key) now.unixMilli).elim
    (TokenBucket.full tbl.cap (now.unixMilli / 1000)) RedisBucket.level

theorem scriptFor_cases (hpos : tbl.Positive) (hms : 1000000 ∣ tbl.refillInterval) :
    (tbl.scriptFor server key now).1.level
        = (tbl.redisLevel server key now).request tbl.cap tbl.rate (now.unixMilli / 1000)
      ∧ ((tbl.scriptFor server key now).2.1 = true
        ↔ (tbl.redisLevel server key now).Allows tbl.cap tbl.rate (now.unixMilli / 1000)) := by
  obtain ⟨hbucket, hallowed, -⟩ := tokenScript_cases hpos hms now.unixMilli
    (server.hmget (tbl.keyPrefix ++ key) now.unixMilli)
  refine ⟨?_, hallowed⟩
  rw [scriptFor, hbucket]
  exact TokenBucket.ext rfl TokenBucket.request_last.symm

theorem unixMilli_le {t t' : Time} (h : t ≤ t') :
    (t.unixMilli : ℚ) / 1000 ≤ t'.unixMilli / 1000 := by
  have hms : t.unixMilli ≤ t'.unixMilli := Int.ediv_le_ediv (by norm_num) h
  rw [div_le_div_iff_of_pos_right (by norm_num), Int.cast_le]
  exact hms

theorem redisLevel_reaches {k : ℚ} (hpos : tbl.Positive) (hk : k ≤ tbl.cap) (hnow : now ≤ t)
    (h : ∀ rb, server.hashes (tbl.keyPrefix ++ key) = some rb →
      rb.level.Reaches tbl.rate k (t.unixMilli / 1000)) :
    (tbl.redisLevel server key now).Reaches tbl.rate k (t.unixMilli / 1000) := by
  rw [redisLevel]
  cases hget : server.hmget (tbl.keyPrefix ++ key) now.unixMilli with
  | none => exact TokenBucket.reaches_full hk hpos.rate (unixMilli_le hnow)
  | some rb => exact h rb (Option.filter_eq_some_iff.mp hget).1

end TokenBucketLimiter

/-! ## The bucket of a client through a run -/

def LimiterEvent.Requests (key : String) : LimiterEvent → Prop
  | .allow clientKey _ _ _ _ => clientKey = key
  | .cleanup _ => False

def RedisBucket.ReachesBy (tbl : TokenBucketLimiter) (k : ℚ) (t : Time) (rb : RedisBucket) : Prop :=
  rb.level.Reaches tbl.rate k (t.unixMilli / 1000)

structure Bucket.ReadyBy (tbl : TokenBucketLimiter) (t : Time) (b : Bucket) : Prop where
  limited : b.LimitedBy tbl
  reaches : b.level.Reaches tbl.rate 1 (Duration.seconds t)

theorem Bucket.ReadyBy.later {tbl : TokenBucketLimiter} {t t' : Time} {b : Bucket}
    (h : b.ReadyBy tbl t) (hpos : tbl.Positive) (ht : t ≤ t') : b.ReadyBy tbl t' :=
  ⟨h.limited, h.reaches.later hpos.rate (seconds_le.mpr ht)⟩

namespace Limiting

/-- The bucket of a client, wherever it is; there may be none. -/
inductive Bucketed (tbl : TokenBucketLimiter) (key : String) (onServer : RedisBucket → Prop)
    (inMemory : Bucket → Prop) : Limiting → Prop where
  | redis {server : RedisServer}
      (hbucket : ∀ rb, server.hashes (tbl.keyPrefix ++ key) = some rb → onServer rb) :
      Bucketed tbl key onServer inMemory ⟨{ tbl with backend := .redis }, server⟩
  | memory {server : RedisServer} {store : InMemoryStore}
      (hbucket : ∀ b, store.buckets key = some b → inMemory b) :
      Bucketed tbl key onServer inMemory ⟨{ tbl with backend := .memory store }, server⟩

variable {tbl : TokenBucketLimiter} {key : String} {s : Limiting} {ds : List Decision}
  {e : LimiterEvent} {es : List LimiterEvent} {asked created now : Time} {fails : Bool}
  {onServer : RedisBucket → Prop} {inMemory : Bucket → Prop}

theorem Bucketed.of_memory {store : InMemoryStore}
    (hlimiter : s.limiter = { tbl with backend := .memory store })
    (hbucket : ∀ b, store.buckets key = some b → inMemory b) :
    Bucketed tbl key onServer inMemory s := by
  obtain ⟨limiter, server⟩ := s
  subst hlimiter
  exact .memory hbucket

theorem newInMemoryStore_holds (b : Bucket) (hb : newInMemoryStore.buckets key = some b) :
    inMemory b := absurd hb.symm (Option.some_ne_none b)

/-- When Redis is lost, the request is made of an empty store. -/
theorem step_lost {server : RedisServer} (hkey : key ∉ tbl.whitelistedKeys) :
    step (⟨{ tbl with backend := .redis }, server⟩, ds) (.allow key asked created now true)
      = step (⟨{ tbl with backend := .memory newInMemoryStore }, server⟩, ds)
          (.allow key asked created now true) := by
  simp only [step, allow, if_neg hkey, if_true]
  rfl

theorem Bucketed.other_memory {store : InMemoryStore} {server : RedisServer}
    (hbucket : ∀ b, store.buckets key = some b → inMemory b) (he : ¬e.Requests key) :
    Bucketed tbl key onServer inMemory
      (step (⟨{ tbl with backend := .memory store }, server⟩, ds) e).1 := by
  obtain ⟨store', hlimiter, hstep⟩ := step_memory (s := (⟨_, server⟩, ds)) rfl e
  refine .of_memory hlimiter ?_
  generalize (step _ e).2 = ds' at hstep
  cases hstep with
  | whitelisted _ => exact hbucket
  | decided _ =>
      rw [InMemoryStore.set_of_ne _ (Ne.symm he)]
      exact hbucket
  | cleanup => exact fun b hb => hbucket b (bucket_of_cleanup hb).1

/-- Nothing else touches the bucket, but it may be forgotten. -/
theorem Bucketed.other (h : Bucketed tbl key onServer inMemory s) (he : ¬e.Requests key) :
    Bucketed tbl key onServer inMemory (step (s, ds) e).1 := by
  cases h with
  | memory hbucket => exact .other_memory hbucket he
  | @redis server hbucket =>
      cases e with
      | cleanup now => exact .redis hbucket
      | allow key' asked created now fails =>
          by_cases hkey' : key' ∈ tbl.whitelistedKeys
          · simp only [step, allow, if_pos hkey']
            exact .redis hbucket
          · cases fails with
            | true =>
                rw [step_lost hkey']
                exact .other_memory newInMemoryStore_holds he
            | false =>
                simp only [step, allow, if_neg hkey', Bool.false_eq_true, if_false]
                refine .redis fun rb hrb => hbucket rb ?_
                rw [← tbl.allowRedis_of_ne server key' asked (Ne.symm he)]
                exact hrb

theorem Bucketed.others (h : Bucketed tbl key onServer inMemory s)
    (hes : ∀ e ∈ es, ¬e.Requests key) :
    Bucketed tbl key onServer inMemory (es.foldl step (s, ds)).1 := by
  induction es generalizing s ds with
  | nil => exact h
  | cons e es ih =>
      rw [List.forall_mem_cons] at hes
      exact ih (h.other hes.1) hes.2

/-- What a request of the client comes to: it is decided by the script, or by
the bucket in memory that it finds or makes. -/
inductive Request (tbl : TokenBucketLimiter) (key : String) (asked created now : Time)
    (onServer : RedisBucket → Prop) (inMemory : Bucket → Prop) (ds : List Decision) :
    Limiting × List Decision → Prop where
  | redis {server : RedisServer}
      (hbucket : ∀ rb, server.hashes (tbl.keyPrefix ++ key) = some rb → onServer rb) :
      Request tbl key asked created now onServer inMemory ds
        (⟨{ tbl with backend := .redis }, (tbl.allowRedis server key asked).1⟩,
          ds ++ [(tbl.allowRedis server key asked).2])
  | memory {server : RedisServer} {store : InMemoryStore} {servedBy : ServedBy}
      (hbucket : ∀ b, store.buckets key = some b → inMemory b) :
      Request tbl key asked created now onServer inMemory ds
        (⟨{ tbl with
            backend := .memory (store.set key ((store.bucketFor tbl key created).allow now).1) },
            server⟩,
          ds ++ [⟨key, now, servedBy, ((store.bucketFor tbl key created).allow now).2⟩])

theorem request_memory {store : InMemoryStore} {server : RedisServer}
    (hbucket : ∀ b, store.buckets key = some b → inMemory b) (hkey : key ∉ tbl.whitelistedKeys) :
    Request tbl key asked created now onServer inMemory ds
      (step (⟨{ tbl with backend := .memory store }, server⟩, ds)
        (.allow key asked created now fails)) := by
  simp only [step, allow, if_neg hkey, Limiting.inMemory, TokenBucketLimiter.allowInMemory_eq,
    bucketFor_backend]
  exact .memory hbucket

theorem Bucketed.request (h : Bucketed tbl key onServer inMemory s)
    (hkey : key ∉ tbl.whitelistedKeys) :
    Request tbl key asked created now onServer inMemory ds
      (step (s, ds) (.allow key asked created now fails)) := by
  cases h with
  | memory hbucket => exact request_memory hbucket hkey
  | @redis server hbucket =>
      cases fails with
      | true =>
          rw [step_lost hkey]
          exact request_memory newInMemoryStore_holds hkey
      | false =>
          simp only [step, allow, if_neg hkey, Bool.false_eq_true, if_false]
          exact .redis hbucket

theorem Bucketed.redis_self {server : RedisServer}
    (h : onServer (tbl.scriptFor server key asked).1) :
    Bucketed tbl key onServer inMemory
      ⟨{ tbl with backend := .redis }, (tbl.allowRedis server key asked).1⟩ := by
  refine .redis fun rb hrb => ?_
  rw [tbl.allowRedis_self server key asked] at hrb
  exact Option.some.inj hrb ▸ h

theorem Bucketed.memory_self {server : RedisServer} {store : InMemoryStore} {b : Bucket}
    (h : inMemory b) :
    Bucketed tbl key onServer inMemory
      ⟨{ tbl with backend := .memory (store.set key b) }, server⟩ := by
  refine .memory fun b' hb => ?_
  rw [store.set_self key b] at hb
  exact Option.some.inj hb ▸ h

theorem Bucketed.step_whitelisted (h : Bucketed tbl key onServer inMemory s)
    (hkey : key ∈ tbl.whitelistedKeys) :
    (step (s, ds) (.allow key asked created now fails)).1 = s := by
  cases h <;> simp only [step, allow, if_pos hkey]

theorem Bucketed.allowed_of_whitelisted (h : Bucketed tbl key onServer inMemory s)
    (hkey : key ∈ tbl.whitelistedKeys) {d : Decision}
    (hd : (step (s, ds) (.allow key asked created now fails)).2.getLast? = some d) :
    d.result.allowed = true := by
  cases h <;>
  · simp only [step, allow, if_pos hkey, List.getLast?_concat, Option.some.injEq] at hd
    rw [← hd]

/-! ## Before and after a refusal -/

variable {t : Time} {after : Limiting × List Decision}

/-- By time `t` the script is not in debt. The buckets in memory need not be
asked: there the wait is computed from the exact number of tokens. -/
def NoDebt (tbl : TokenBucketLimiter) (key : String) (t : Time) : Limiting → Prop :=
  Bucketed tbl key (RedisBucket.ReachesBy tbl 0 t) (Bucket.LimitedBy tbl)

def Ready (tbl : TokenBucketLimiter) (key : String) (t : Time) : Limiting → Prop :=
  Bucketed tbl key (RedisBucket.ReachesBy tbl 1 t) (Bucket.ReadyBy tbl t)

theorem scriptFor_reaches {server : RedisServer} (hpos : tbl.Positive)
    (hms : 1000000 ∣ tbl.refillInterval) (hasked : asked ≤ t)
    (hbucket : ∀ rb, server.hashes (tbl.keyPrefix ++ key) = some rb → rb.ReachesBy tbl 0 t) :
    (tbl.scriptFor server key asked).1.ReachesBy tbl 0 t := by
  rw [RedisBucket.ReachesBy, (TokenBucketLimiter.scriptFor_cases hpos hms).1]
  exact (TokenBucketLimiter.redisLevel_reaches hpos hpos.cap hasked hbucket).request hpos.cap
    hpos.rate (TokenBucketLimiter.unixMilli_le hasked)

theorem Request.noDebt
    (h : Request tbl key asked created now (RedisBucket.ReachesBy tbl 0 t) (Bucket.LimitedBy tbl)
      ds after)
    (hpos : tbl.Positive) (hms : 1000000 ∣ tbl.refillInterval) (hasked : asked ≤ t) :
    NoDebt tbl key t after.1 := by
  cases h with
  | redis hbucket => exact .redis_self (scriptFor_reaches hpos hms hasked hbucket)
  | memory hbucket =>
      have hlimited := InMemoryStore.bucketFor_of hbucket created ⟨rfl, rfl⟩
      exact .memory_self (hlimited.allow now)

/-- The script is asked again after as many seconds as the client was told. -/
theorem scriptFor_ready {server : RedisServer} (hpos : tbl.Positive)
    (hms : 1000000 ∣ tbl.refillInterval) (hasked : asked ≤ t)
    (hbucket : ∀ rb, server.hashes (tbl.keyPrefix ++ key) = some rb → rb.ReachesBy tbl 0 t)
    (hrefused : (tbl.allowRedis server key asked).2.result.allowed = false) :
    (tbl.scriptFor server key asked).1.ReachesBy tbl 1
      (t + (tbl.allowRedis server key asked).2.result.retryAfterSeconds * 1000000000) := by
  obtain ⟨hcurrent, hretry⟩ := TokenBucketLimiter.allowRedis_refused hrefused
  generalize (tbl.allowRedis server key asked).2.result = result at hretry ⊢
  have hneeded : (1 : ℚ) ≤ 1 - (tbl.scriptFor server key asked).2.2.2 :=
    le_sub_self_iff _ |>.mpr (Int.cast_nonpos.mpr hcurrent)
  have hwait := le_retryAfterSeconds
    (div_nonneg (zero_le_one.trans hneeded) hpos.rate) hretry
  rw [div_le_iff₀ hpos.rate_pos] at hwait
  refine (scriptFor_reaches hpos hms hasked hbucket).wait ?_
  have hms : Time.unixMilli (t + result.retryAfterSeconds * 1000000000)
      = t.unixMilli + result.retryAfterSeconds * 1000 := by
    unfold Time.unixMilli
    omega
  rw [hms]
  push_cast
  linarith only [hneeded, hwait]

theorem allow_ready {b : Bucket} (h : b.LimitedBy tbl) (hpos : tbl.Positive) (hnow : now ≤ t)
    (hrefused : (b.allow now).2.allowed = false) :
    (b.allow now).1.ReadyBy tbl
      (t + (b.allow now).2.retryAfterSeconds * 1000000000) := by
  obtain ⟨htokens, hretry⟩ := Bucket.allow_refused hrefused
  refine ⟨h.allow now, ?_⟩
  rw [h.refillRate] at hretry
  have hlast := b.allow_lastRefill now
  generalize (b.allow now).1 = b' at htokens hretry hlast ⊢
  generalize (b.allow now).2 = result at hretry ⊢
  have hwait := le_retryAfterSeconds
    (div_nonneg (sub_nonneg.mpr htokens.le) hpos.rate) hretry
  rw [div_le_iff₀ hpos.rate_pos] at hwait
  have hpast : b'.level.last ≤ Duration.seconds t := seconds_le.mpr (hlast.trans_le hnow)
  have hgain : (result.retryAfterSeconds : ℚ) * tbl.rate
      ≤ (Duration.seconds (t + result.retryAfterSeconds * 1000000000) - b'.level.last)
        * tbl.rate := by
    rw [seconds_add]
    exact mul_le_mul_of_nonneg_right (by linarith only [hpast]) hpos.rate
  calc 1 ≤ b'.tokens + result.retryAfterSeconds * tbl.rate := by linarith only [hwait]
    _ ≤ _ := add_le_add_right hgain _

theorem Request.refused
    (h : Request tbl key asked created now (RedisBucket.ReachesBy tbl 0 t) (Bucket.LimitedBy tbl)
      ds after)
    (hpos : tbl.Positive) (hms : 1000000 ∣ tbl.refillInterval) :
    ∃ d, after.2.getLast? = some d ∧ (d.result.allowed = false → d.time ≤ t →
      Ready tbl key (t + d.result.retryAfterSeconds * 1000000000) after.1) := by
  cases h with
  | redis hbucket =>
      exact ⟨_, List.getLast?_concat, fun hrefused hasked =>
        .redis_self (scriptFor_ready hpos hms hasked hbucket hrefused)⟩
  | memory hbucket =>
      have hlimited := InMemoryStore.bucketFor_of hbucket created ⟨rfl, rfl⟩
      exact ⟨_, List.getLast?_concat, fun hrefused hnow =>
        .memory_self (allow_ready hlimited hpos hnow hrefused)⟩

theorem Request.allowed
    (h : Request tbl key asked created now (RedisBucket.ReachesBy tbl 1 t) (Bucket.ReadyBy tbl t)
      ds after)
    (hpos : tbl.Positive) (hms : 1000000 ∣ tbl.refillInterval) (hasked : t ≤ asked)
    (hcreated : asked ≤ created) (hnow : created ≤ now) :
    ∃ d, after.2.getLast? = some d ∧ d.clientKey = key ∧ d.result.allowed = true := by
  cases h with
  | redis hbucket =>
      refine ⟨_, List.getLast?_concat, rfl, ?_⟩
      rw [TokenBucketLimiter.allowRedis_allowed,
        (TokenBucketLimiter.scriptFor_cases hpos hms).2]
      refine (TokenBucketLimiter.redisLevel_reaches hpos hpos.one_le_cap le_rfl fun rb hrb => ?_)
        |>.allows hpos.one_le_cap
      exact (hbucket rb hrb).later hpos.rate (TokenBucketLimiter.unixMilli_le hasked)
  | memory hbucket =>
      have hfresh : Bucket.ReadyBy tbl now ⟨tbl.maxTokens, created, tbl.maxTokens, tbl.rate⟩ :=
        ⟨⟨rfl, rfl⟩, TokenBucket.reaches_full hpos.one_le_cap hpos.rate (seconds_le.mpr hnow)⟩
      have hready := InMemoryStore.bucketFor_of (fun b hb => (hbucket b hb).later hpos
        (hasked.trans (hcreated.trans hnow))) created hfresh
      refine ⟨_, List.getLast?_concat, rfl, (hready.limited.level_allow now).2.mpr ?_⟩
      exact hready.reaches.allows hpos.one_le_cap

/-! ## Runs -/

theorem bucketed_nil (hback : tbl.backend = .redis ∨ tbl.backend = .memory newInMemoryStore) :
    Bucketed tbl key onServer inMemory (run tbl []).1 := by
  rcases hback with hback | hback
  · rw [← with_backend hback]
    exact .redis fun rb hrb => absurd hrb.symm (Option.some_ne_none rb)
  · rw [← with_backend hback]
    exact .memory newInMemoryStore_holds

/-- Whatever the order of the requests, by the time of the latest of them
there is no debt. -/
theorem run_noDebt (hback : tbl.backend = .redis ∨ tbl.backend = .memory newInMemoryStore)
    (hpos : tbl.Positive) (hms : 1000000 ∣ tbl.refillInterval) (hes : ∀ e ∈ es, e.start ≤ t) :
    NoDebt tbl key t (run tbl es).1 := by
  induction es using List.reverseRecOn with
  | nil => exact bucketed_nil hback
  | append_singleton es e ih =>
      rw [List.forall_mem_append, List.forall_mem_singleton] at hes
      have h := ih hes.1
      rw [run_append]
      by_cases he : e.Requests key
      · cases e with
        | cleanup now => exact he.elim
        | allow key' asked created now fails =>
            obtain rfl : key' = key := he
            by_cases hkey : key' ∈ tbl.whitelistedKeys
            · rw [h.step_whitelisted hkey]
              exact h
            · exact (h.request hkey).noDebt hpos hms hes.2
      · exact h.other he

theorem NoDebt.ready_of_refused (h : NoDebt tbl key t s) (hpos : tbl.Positive)
    (hms : 1000000 ∣ tbl.refillInterval) {d : Decision}
    (hd : (step (s, ds) (.allow key asked created now fails)).2.getLast? = some d)
    (hrefused : d.result.allowed = false) (htime : d.time ≤ t) :
    key ∉ tbl.whitelistedKeys
      ∧ Ready tbl key (t + d.result.retryAfterSeconds * 1000000000)
        (step (s, ds) (.allow key asked created now fails)).1 := by
  have hkey : key ∉ tbl.whitelistedKeys := by
    intro hkey
    rw [h.allowed_of_whitelisted hkey hd] at hrefused
    cases hrefused
  obtain ⟨d', hd', hready⟩ := (h.request hkey).refused hpos hms
  obtain rfl := Option.some.inj (hd'.symm.trans hd)
  exact ⟨hkey, hready hrefused htime⟩

theorem run_append_list (limiter : TokenBucketLimiter) (es es' : List LimiterEvent) :
    run limiter (es ++ es') = es'.foldl step (run limiter es) := List.foldl_append

end Limiting

theorem newTokenBucketLimiter_positive {config : RateLimitConfig} (h : config.Positive)
    (ping : Bool) :
    (newTokenBucketLimiter ping config).Positive
      ∧ (newTokenBucketLimiter ping config).refillInterval = config.refillInterval
      ∧ ((newTokenBucketLimiter ping config).backend = .redis
        ∨ (newTokenBucketLimiter ping config).backend = .memory newInMemoryStore) := by
  have hdefaults : config.withDefaults.Positive
      ∧ config.withDefaults.refillInterval = config.refillInterval := by
    simp only [RateLimitConfig.withDefaults, if_neg h.maxTokens.ne', if_neg h.refillRate.ne',
      if_neg h.refillInterval.ne']
    exact ⟨⟨h.maxTokens, h.refillRate, h.refillInterval⟩, trivial⟩
  obtain ⟨hpos, hinterval⟩ := hdefaults
  refine ⟨⟨?_, ?_, hpos.refillInterval⟩, hinterval, ?_⟩
  · simp only [newTokenBucketLimiter]
    split_ifs
    · exact RateLimitConfig.conservativeMaxTokens_pos
    · exact hpos.maxTokens
  · simp only [newTokenBucketLimiter]
    split_ifs
    · exact RateLimitConfig.conservativeRefillRate_pos
    · exact hpos.refillRate
  · cases ping
    · exact Or.inr rfl
    · exact Or.inl rfl

/-- **Who waits as long as the answer says gets through.** A request of a
client is refused, and the client makes no other request until `n` seconds
later, `n` being what the answer says: then that request is allowed, by Redis
or in memory, whatever has happened before and happens to others meanwhile.
The wait counts from any time `t` by which this request and all before it have
looked at the clock; if they come one after the other, from the time of the
refused request. -/
theorem retry_after_sufficient {config : RateLimitConfig} (hpos : config.Positive)
    (hms : 1000000 ∣ config.refillInterval) (ping : Bool) {before others : List LimiterEvent}
    {key : String} {asked created now asked' created' now' : Time} {fails fails' : Bool}
    {d : Decision} {t : Time} {rfc3339 : Time → String} {n : Int}
    (hd : (Limiting.run (newTokenBucketLimiter ping config)
      (before ++ [.allow key asked created now fails])).2.getLast? = some d)
    (hrefused : d.result.allowed = false) (hbefore : ∀ e ∈ before, e.start ≤ t)
    (htime : d.time ≤ t)
    (hn : (defaultErrorHandler rfc3339 d.result).header "Retry-After" = some (toString n))
    (hothers : ∀ e ∈ others, ¬e.Requests key)
    (hwait : t + n * 1000000000 ≤ asked') (hcreated : asked' ≤ created') (hnow : created' ≤ now') :
    ∃ d', (Limiting.run (newTokenBucketLimiter ping config)
        (before ++ [.allow key asked created now fails] ++ others
          ++ [.allow key asked' created' now' fails'])).2.getLast? = some d'
      ∧ d'.clientKey = key ∧ d'.result.allowed = true := by
  obtain ⟨hpos, hinterval, hback⟩ := newTokenBucketLimiter_positive hpos ping
  generalize newTokenBucketLimiter ping config = tbl at hpos hinterval hback hd ⊢
  rw [← hinterval] at hms
  rw [Limiting.run_append] at hd
  obtain ⟨hkey, hready⟩ :=
    (Limiting.run_noDebt hback hpos hms hbefore).ready_of_refused hpos hms hd hrefused htime
  have hn : n = d.result.retryAfterSeconds := by
    rw [retryAfter_header, Option.some.injEq] at hn
    exact toString_int_inj (congrArg String.toList hn.symm)
  subst hn
  rw [Limiting.run_append, Limiting.run_append_list, Limiting.run_append]
  exact ((hready.others hothers).request hkey).allowed hpos hms hwait hcreated hnow

/-- One token, and one and a half seconds for the next. -/
def oneToken : RateLimitConfig := ⟨1, 1, 1500000000, "ratelimit:", [], false⟩

def refusedOnce : List LimiterEvent :=
  [.allow "alice" 0 0 0 false] ++ [.allow "alice" 500000000 500000000 500000000 false]

def secondTry : LimiterEvent := .allow "alice" 2500000000 2500000000 2500000000 false

/-- A third of a token is there when the second request is refused. Redis
answers that there is none, and the wait is one and a half seconds; in memory
it is one second. The client is told two seconds in both cases. -/
theorem retry_after_sufficient_oneToken :
    (∃ d', (Limiting.run (newTokenBucketLimiter true oneToken)
        (refusedOnce ++ [.allow "bob" 7 7 7 false] ++ [secondTry])).2.getLast? = some d'
      ∧ d'.clientKey = "alice" ∧ d'.result.allowed = true)
    ∧ ∃ d', (Limiting.run (newTokenBucketLimiter false oneToken)
        (refusedOnce ++ [.cleanup 7] ++ [secondTry])).2.getLast? = some d'
      ∧ d'.clientKey = "alice" ∧ d'.result.allowed = true := by
  have hpos : oneToken.Positive := ⟨by decide, by decide, by decide⟩
  have hredis : (Limiting.run (newTokenBucketLimiter true oneToken) refusedOnce).2.getLast?
      = some ⟨"alice", 500000000, .redis, ⟨false, 0, 1500000000, some 2000000000, 0⟩⟩ := by
    decide +kernel
  have hmemory : (Limiting.run (newTokenBucketLimiter false oneToken) refusedOnce).2.getLast?
      = some ⟨"alice", 500000000, .memory 1 (2 / 3),
          ⟨false, 0, 1000000000, some 1500000000, 1 / 3⟩⟩ := by
    decide +kernel
  have hheader (result : RateLimitResult) (h : result.retryAfterSeconds = 2) :
      (defaultErrorHandler (fun _ => "") result).header "Retry-After"
        = some (toString (2 : Int)) := by
    rw [retryAfter_header, h]
  have hbefore : ∀ e ∈ [LimiterEvent.allow "alice" 0 0 0 false], e.start ≤ 500000000 :=
    List.forall_mem_singleton.mpr (by decide)
  refine ⟨?_, ?_⟩
  · exact retry_after_sufficient hpos (by decide) true hredis rfl hbefore le_rfl
      (hheader _ (by decide +kernel))
      (List.forall_mem_singleton.mpr (by decide : "bob" ≠ "alice")) (by decide) le_rfl le_rfl
  · exact retry_after_sufficient hpos (by decide) false hmemory rfl hbefore le_rfl
      (hheader _ (by decide +kernel)) (List.forall_mem_singleton.mpr id) (by decide) le_rfl le_rfl

end TradingBackend
