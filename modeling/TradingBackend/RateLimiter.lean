import TradingBackend.Order
import TradingBackend.TokenBucket
import Mathlib.Algebra.Order.Floor.Defs
import Mathlib.Data.Rat.Floor

/-!
# The rate limiter

`ratelimit/ratelimiter.go`: a token bucket for every client, kept by a
script in Redis or, once Redis has failed, in a map of the process. The
floats of the source are exact here. Calls are made one at a time, and
what a call reads off the clock comes with it: `allowRedis` looks once,
`allowInMemory` looks when it makes a bucket and again before it refills.

`useRedis` and `inMemoryStore` are one field, `backend`: the store is made
at the moment Redis is given up, by the constructor or by a failed `Eval`,
and Redis is not asked again after that. Redis answers the third number of
the script, a fraction, as an integer, so the answer always has the type
that `allowRedis` expects.

Left out: `GetStats` and the methods that edit the whitelist.
-/

namespace TradingBackend

/-- `time.Duration`, in nanoseconds. -/
abbrev Duration := Int

def Duration.seconds (d : Duration) : ℚ := d / 1000000000

/-- `Duration.Milliseconds`, which rounds toward zero. -/
def Duration.milliseconds (d : Duration) : Int := d.tdiv 1000000

def Time.unixMilli (t : Time) : Int := t / 1000000

def hour : Duration := 3600 * 1000000000

/-- The conversion of a float to an integer. -/
def truncate (q : ℚ) : Int := if 0 ≤ q then ⌊q⌋ else ⌈q⌉

theorem truncate_of_nonneg {q : ℚ} (h : 0 ≤ q) : truncate q = ⌊q⌋ := if_pos h

structure RateLimitConfig where
  maxTokens : Int
  refillRate : Int
  refillInterval : Duration
  keyPrefix : String
  whitelistedKeys : List String
  conservativeFallback : Bool

/-- `Bucket`; `refillRate` is in tokens per second. -/
structure Bucket where
  tokens : ℚ
  lastRefill : Time
  maxTokens : Int
  refillRate : ℚ
deriving DecidableEq

/-- `InMemoryStore`: the buckets by client key. -/
structure InMemoryStore where
  buckets : String → Option Bucket

/-- The hash that the script keeps for a client, with the time at which
it expires; both times are in milliseconds. -/
structure RedisBucket where
  tokens : ℚ
  lastRefill : Int
  expiresAt : Int
deriving DecidableEq

/-- `RateLimitResult`; `resetAt` is there if the request was refused. -/
structure RateLimitResult where
  allowed : Bool
  remaining : Int
  retryAfter : Duration
  resetAt : Option Time
  currentTokens : ℚ
deriving DecidableEq

/-- Where the buckets are. -/
inductive Backend where
  | redis
  | memory (store : InMemoryStore)

structure TokenBucketLimiter where
  backend : Backend
  maxTokens : Int
  refillRate : Int
  refillInterval : Duration
  keyPrefix : String
  whitelistedKeys : List String
  originalMaxTokens : Int

def newInMemoryStore : InMemoryStore := ⟨fun _ => none⟩

namespace RateLimitConfig

def withDefaults (config : RateLimitConfig) : RateLimitConfig :=
  { config with
    maxTokens := if config.maxTokens = 0 then 100 else config.maxTokens
    refillRate := if config.refillRate = 0 then 10 else config.refillRate
    refillInterval := if config.refillInterval = 0 then 1000000000 else config.refillInterval
    keyPrefix := if config.keyPrefix = "" then "ratelimit:" else config.keyPrefix }

/-- Half of the capacity, and at least 10 tokens. -/
def conservativeMaxTokens (config : RateLimitConfig) : Int :=
  if config.maxTokens.tdiv 2 < 10 then 10 else config.maxTokens.tdiv 2

/-- Half of the rate, and at least one token per interval. -/
def conservativeRefillRate (config : RateLimitConfig) : Int :=
  if config.refillRate.tdiv 2 < 1 then 1 else config.refillRate.tdiv 2

end RateLimitConfig

/-- `NewTokenBucketLimiter`; `ping` says that there is a client and that
its `Ping` succeeded. -/
def newTokenBucketLimiter (ping : Bool) (config : RateLimitConfig) : TokenBucketLimiter :=
  let config := config.withDefaults
  let conservative := !ping && config.conservativeFallback
  { backend := if ping then .redis else .memory newInMemoryStore
    maxTokens := if conservative then config.conservativeMaxTokens else config.maxTokens
    refillRate := if conservative then config.conservativeRefillRate else config.refillRate
    refillInterval := config.refillInterval
    keyPrefix := config.keyPrefix
    whitelistedKeys := config.whitelistedKeys
    originalMaxTokens := config.maxTokens }

/-! ## The map of the process -/

namespace InMemoryStore

def set (store : InMemoryStore) (clientKey : String) (bucket : Bucket) : InMemoryStore :=
  ⟨Function.update store.buckets clientKey (some bucket)⟩

def getOrCreate (store : InMemoryStore) (clientKey : String) (maxTokens refillRate : Int)
    (refillInterval : Duration) (created : Time) : InMemoryStore × Bucket :=
  match store.buckets clientKey with
  | some bucket => (store, bucket)
  | none =>
      let tokensPerSecond := refillRate / refillInterval.seconds
      let bucket : Bucket := ⟨maxTokens, created, maxTokens, tokensPerSecond⟩
      (store.set clientKey bucket, bucket)

/-- One pass of `cleanupRoutine`. -/
def cleanup (store : InMemoryStore) (now : Time) : InMemoryStore :=
  ⟨fun key => (store.buckets key).filter fun bucket => ¬hour < now - bucket.lastRefill⟩

end InMemoryStore

namespace Bucket

/-- What `allowInMemory` does to the bucket it has got. -/
def allow (bucket : Bucket) (now : Time) : Bucket × RateLimitResult :=
  let elapsed : Duration := now - bucket.lastRefill
  let tokensPerSecond := bucket.refillRate
  let tokensToAdd := elapsed.seconds * tokensPerSecond
  let tokens := min (bucket.maxTokens : ℚ) (bucket.tokens + tokensToAdd)
  if 1 ≤ tokens then
    ({ bucket with tokens := tokens - 1, lastRefill := now },
      ⟨true, truncate (tokens - 1), 0, none, tokens⟩)
  else
    let tokensNeeded := 1 - tokens
    let secondsToWait := tokensNeeded / tokensPerSecond
    let retryAfter := truncate (secondsToWait * 1000000000)
    ({ bucket with tokens := tokens, lastRefill := now },
      ⟨false, truncate tokens, retryAfter, some (now + retryAfter), tokens⟩)

end Bucket

/-! ## Decisions -/

/-- Who decided about a request, and by which limits. -/
inductive ServedBy where
  | whitelist
  | redis
  | memory (maxTokens : Int) (refillRate : ℚ)
deriving DecidableEq

/-- A request that was decided about. -/
structure Decision where
  clientKey : String
  time : Time
  servedBy : ServedBy
  result : RateLimitResult
deriving DecidableEq

/-- The decision lets a request of the client through, in the window from
`s` to `t`. -/
def Decision.Passes (clientKey : String) (s t : Time) (d : Decision) : Prop :=
  d.clientKey = clientKey ∧ d.result.allowed = true ∧ s ≤ d.time ∧ d.time ≤ t

instance Decision.decidablePasses (clientKey : String) (s t : Time) (d : Decision) :
    Decidable (d.Passes clientKey s t) :=
  inferInstanceAs (Decidable (_ ∧ _ ∧ _ ∧ _))

/-- The number of requests of a client that were allowed in a window. -/
def allowedIn (clientKey : String) (s t : Time) (decisions : List Decision) : Nat :=
  decisions.countP fun d => d.Passes clientKey s t

def TokenBucketLimiter.allowInMemory (tbl : TokenBucketLimiter) (store : InMemoryStore)
    (clientKey : String) (created now : Time) : InMemoryStore × Decision :=
  let (store, bucket) :=
    store.getOrCreate clientKey tbl.maxTokens tbl.refillRate tbl.refillInterval created
  let (bucket', result) := bucket.allow now
  (store.set clientKey bucket',
    ⟨clientKey, now, .memory bucket.maxTokens bucket.refillRate, result⟩)

/-! ## The script -/

structure RedisServer where
  hashes : String → Option RedisBucket

def RedisServer.hmget (server : RedisServer) (key : String) (nowMs : Int) : Option RedisBucket :=
  (server.hashes key).filter fun bucket => nowMs ≤ bucket.expiresAt

/-- The script of `allowRedis`: what it writes, and whether the request
is allowed, the remaining tokens and the tokens as Redis answers them. -/
def tokenScript (maxTokens refillRate refillIntervalMs nowMs : Int)
    (bucket : Option RedisBucket) : RedisBucket × Bool × Int × Int :=
  let cost : ℚ := 1
  let tokens : ℚ := bucket.elim maxTokens RedisBucket.tokens
  let lastRefillMs := bucket.elim nowMs RedisBucket.lastRefill
  let elapsedMs := nowMs - lastRefillMs
  let intervalsPassed : ℚ := elapsedMs / refillIntervalMs
  let tokensToAdd := intervalsPassed * refillRate
  let tokens := min (maxTokens : ℚ) (tokens + tokensToAdd)
  let allowed := decide (cost ≤ tokens)
  let tokens := if allowed then tokens - cost else tokens
  (⟨tokens, nowMs, nowMs + 3600 * 1000⟩, allowed, ⌊tokens⌋, truncate tokens)

namespace TokenBucketLimiter

/-- `allowRedis` when `Eval` succeeds. -/
def allowRedis (tbl : TokenBucketLimiter) (server : RedisServer) (clientKey : String)
    (now : Time) : RedisServer × Decision :=
  let key := tbl.keyPrefix ++ clientKey
  let nowMs := now.unixMilli
  let (bucket, allowed, remaining, currentTokens) :=
    tokenScript tbl.maxTokens tbl.refillRate tbl.refillInterval.milliseconds nowMs
      (server.hmget key nowMs)
  let tokensNeeded : ℚ := 1 - currentTokens
  let tokensPerSecond := tbl.refillRate / tbl.refillInterval.seconds
  let retryAfter := truncate (tokensNeeded / tokensPerSecond * 1000000000)
  (⟨Function.update server.hashes key (some bucket)⟩,
    ⟨clientKey, now, .redis,
      if allowed then ⟨true, remaining, 0, none, currentTokens⟩
      else ⟨false, remaining, retryAfter, some (now + retryAfter), currentTokens⟩⟩)

end TokenBucketLimiter

/-! ## Whole runs -/

/-- A call of `Allow`, or a pass of the cleanup. `asked`, `created` and
`now` are what the call reads off the clock, in this order; `fails` says
that an `Eval` made by it fails. -/
inductive LimiterEvent where
  | allow (clientKey : String) (asked created now : Time) (fails : Bool)
  | cleanup (now : Time)

structure Limiting where
  limiter : TokenBucketLimiter
  server : RedisServer

namespace Limiting

/-- `allowInMemory`, with the store put back. -/
def inMemory (s : Limiting) (store : InMemoryStore) (clientKey : String) (created now : Time) :
    Limiting × Decision :=
  let (store, decision) := s.limiter.allowInMemory store clientKey created now
  ({ s with limiter := { s.limiter with backend := .memory store } }, decision)

/-- `Allow`. An `Eval` that fails may have been executed by the server;
its answer is lost, and the server is not asked again. -/
def allow (s : Limiting) (clientKey : String) (asked created now : Time) (fails : Bool) :
    Limiting × Decision :=
  if clientKey ∈ s.limiter.whitelistedKeys then
    (s, ⟨clientKey, now, .whitelist,
      ⟨true, s.limiter.originalMaxTokens, 0, none, s.limiter.originalMaxTokens⟩⟩)
  else
    match s.limiter.backend with
    | .redis =>
        if fails then s.inMemory newInMemoryStore clientKey created now
        else
          let (server, decision) := s.limiter.allowRedis s.server clientKey asked
          ({ s with server := server }, decision)
    | .memory store => s.inMemory store clientKey created now

def step (s : Limiting × List Decision) : LimiterEvent → Limiting × List Decision
  | .allow clientKey asked created now fails =>
      let (s', decision) := s.1.allow clientKey asked created now fails
      (s', s.2 ++ [decision])
  | .cleanup now =>
      match s.1.limiter.backend with
      | .redis => s
      | .memory store =>
          ({ s.1 with limiter := { s.1.limiter with backend := .memory (store.cleanup now) } }, s.2)

/-- A run of a limiter that was just made, with a server that holds
nothing. -/
def run (limiter : TokenBucketLimiter) (es : List LimiterEvent) : Limiting × List Decision :=
  es.foldl step (⟨limiter, ⟨fun _ => none⟩⟩, [])

end Limiting

end TradingBackend
