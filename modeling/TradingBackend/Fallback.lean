import TradingBackend.RedisScript

/-!
# Falling back from Redis

The limits are halved in the constructor, so only a limiter that found
Redis down at the start has the conservative ones. A limiter that loses
Redis later starts over with full buckets and the limits it was configured
with (`tokens_come_back`), and a small capacity is not halved but raised
to 10 tokens (`conservativeMaxTokens_le`). Apart from that the limit holds
(`fallback_never_loosens`): the buckets in memory keep to the conservative
limits, and the script keeps to the configured ones because it decides like
buckets in memory that are swept before every request.
-/

namespace TradingBackend

namespace RateLimitConfig

structure Positive (config : RateLimitConfig) : Prop where
  maxTokens : 0 < config.maxTokens
  refillRate : 0 < config.refillRate
  refillInterval : 0 < config.refillInterval

variable {config : RateLimitConfig}

theorem conservativeMaxTokens_le (h : 0 < config.maxTokens) :
    config.conservativeMaxTokens ≤ config.maxTokens ↔ 10 ≤ config.maxTokens := by
  unfold conservativeMaxTokens
  rw [Int.tdiv_eq_ediv_of_nonneg h.le]
  split_ifs <;> omega

theorem conservativeMaxTokens_pos : 0 < config.conservativeMaxTokens := by
  unfold conservativeMaxTokens
  split_ifs <;> omega

theorem conservativeRefillRate_pos : 0 < config.conservativeRefillRate := by
  unfold conservativeRefillRate
  split_ifs <;> omega

theorem conservativeRefillRate_le (h : 0 < config.refillRate) :
    config.conservativeRefillRate ≤ config.refillRate := by
  unfold conservativeRefillRate
  rw [Int.tdiv_eq_ediv_of_nonneg h.le]
  split_ifs <;> omega

end RateLimitConfig

theorem newTokenBucketLimiter_of_positive {config : RateLimitConfig} (h : config.Positive)
    (hconservative : config.conservativeFallback = true) (ping : Bool) :
    let tbl := newTokenBucketLimiter ping config
    tbl.backend = (if ping then .redis else .memory newInMemoryStore)
      ∧ tbl.maxTokens = (if ping then config.maxTokens else config.conservativeMaxTokens)
      ∧ tbl.refillRate = (if ping then config.refillRate else config.conservativeRefillRate)
      ∧ tbl.refillInterval = config.refillInterval
      ∧ tbl.whitelistedKeys = config.whitelistedKeys := by
  have htokens := h.maxTokens.ne'
  have hrate := h.refillRate.ne'
  have hinterval := h.refillInterval.ne'
  cases ping <;>
    simp [newTokenBucketLimiter, RateLimitConfig.withDefaults, hconservative, htokens, hrate,
      hinterval, RateLimitConfig.conservativeMaxTokens, RateLimitConfig.conservativeRefillRate]

/-! ## A cleanup before every request -/

def swept (es : List LimiterEvent) : List LimiterEvent := es.flatMap fun e => [.cleanup e.start, e]

theorem swept_append (es : List LimiterEvent) (e : LimiterEvent) :
    swept (es ++ [e]) = swept es ++ [.cleanup e.start] ++ [e] := by
  simp [swept]

section

variable {es : List LimiterEvent} {e : LimiterEvent} {now : Time}

theorem Over.snoc (h : Over es now) (he : e.finish ≤ now) : Over (es ++ [e]) now :=
  List.forall_mem_append.mpr ⟨h, List.forall_mem_singleton.mpr he⟩

theorem Chronological.snoc (h : Chronological es) (he : e.Ordered) (hover : Over es e.start) :
    Chronological (es ++ [e]) := by
  refine ⟨List.forall_mem_append.mpr ⟨h.1, List.forall_mem_singleton.mpr he⟩, ?_⟩
  refine List.pairwise_append.mpr ⟨h.2, List.pairwise_singleton .., fun x hx y hy => ?_⟩
  obtain rfl := List.mem_singleton.mp hy
  exact hover x hx

theorem Over.swept (h : Over es now) (hordered : ∀ e ∈ es, e.Ordered) :
    Over (swept es) now := by
  intro x hx
  obtain ⟨e, he, hx⟩ := List.mem_flatMap.mp hx
  rcases List.mem_pair.mp hx with rfl | rfl
  · exact (hordered e he).start_le.trans (h e he)
  · exact h x he

theorem Chronological.swept (h : Chronological es) : Chronological (swept es) := by
  induction es using List.reverseRecOn with
  | nil => exact ⟨nofun, .nil⟩
  | append_singleton es e ih =>
      obtain ⟨hes, hordered, hover⟩ := h.snoc_inv
      have hover' : Over (TradingBackend.swept es) e.start := hover.swept hes.1
      have hcleanup : Chronological (TradingBackend.swept es ++ [.cleanup e.start]) :=
        (ih hes).snoc trivial hover'
      rw [swept_append]
      exact hcleanup.snoc hordered (hover'.snoc (e := .cleanup e.start) le_rfl)

end

namespace Limiting

variable {tbl : TokenBucketLimiter} {store store' : InMemoryStore} {ds ds' : List Decision}
  {e : LimiterEvent} {es : List LimiterEvent} {key : String} {now : Time}

/-- Redis decides like the buckets in memory that are swept before every
request. -/
theorem run_mirror_swept (hpos : tbl.Positive) (hms : 1000000 ∣ tbl.refillInterval)
    (hkey : key ∉ tbl.whitelistedKeys) (hes : Chronological es)
    (hcalls : ∀ e ∈ es, e.Succeeds ∧ e.Punctual) :
    ∃ server store,
      (run { tbl with backend := .redis } es).1 = ⟨{ tbl with backend := .redis }, server⟩
        ∧ (run { tbl with backend := .memory newInMemoryStore } (swept es)).1.limiter
          = { tbl with backend := .memory store }
        ∧ ∀ now, Over es now → Mirrored tbl key server store
            (run { tbl with backend := .redis } es).2
            (run { tbl with backend := .memory newInMemoryStore } (swept es)).2 now := by
  induction es using List.reverseRecOn with
  | nil => exact ⟨_, newInMemoryStore, rfl, rfl, fun now _ => ⟨.fresh, rfl⟩⟩
  | append_singleton es e ih =>
      obtain ⟨hbefore, hordered, hover⟩ := hes.snoc_inv
      rw [List.forall_mem_append, List.forall_mem_singleton] at hcalls
      obtain ⟨hall, hsucceeds, hwhole⟩ := hcalls
      obtain ⟨server, store, hredis, hmemory, hmirror⟩ := ih hbefore hall
      obtain ⟨server', hredis', hrstep⟩ := step_redis hredis hsucceeds
      obtain ⟨store₁, hmemory₁, hcleanup⟩ := step_memory hmemory (.cleanup e.start)
      obtain ⟨store', hmemory', hmstep⟩ := step_memory hmemory₁ e
      rw [swept_append, run_append, run_append, run_append]
      refine ⟨server', store', hredis', hmemory', fun now' hnow' => ?_⟩
      have hswept := (hmirror e.start hover).cleanup .cleanup hcleanup
      refine Mirrored.later ?_ (hordered.start_le.trans hnow'.snoc_inv.2)
      by_cases he : e.Concerns key
      · cases e with
        | cleanup now => exact hswept.cleanup hrstep hmstep
        | allow key' asked created now fails =>
            obtain rfl : key' = key := he
            obtain rfl : fails = false := hsucceeds
            obtain ⟨hasked, hcreated, hnow⟩ := hwhole
            subst asked created
            refine hswept.request hpos hms hkey hnow (fun b hb => ?_) hrstep hmstep
            rw [hcleanup.cleanup_inv.1] at hb
            exact (bucket_of_cleanup hb).2
      · exact hswept.other he hrstep hmstep

/-! ## Who decides -/

theorem with_backend {backend : Backend} (h : tbl.backend = backend) :
    { tbl with backend := backend } = tbl := by
  rw [← h]

theorem run_nil (tbl : TokenBucketLimiter) : run tbl [] = (⟨tbl, ⟨fun _ => none⟩⟩, []) := rfl

theorem run_served_redis (hback : tbl.backend = .redis) (hcalls : ∀ e ∈ es, e.Succeeds) :
    ∃ server, (run tbl es).1 = ⟨{ tbl with backend := .redis }, server⟩
      ∧ ∀ d ∈ (run tbl es).2, ∀ m r, d.servedBy ≠ .memory m r := by
  induction es using List.reverseRecOn with
  | nil =>
      rw [with_backend hback, run_nil]
      exact ⟨_, rfl, fun d hd => absurd hd List.not_mem_nil⟩
  | append_singleton es e ih =>
      rw [List.forall_mem_append, List.forall_mem_singleton] at hcalls
      obtain ⟨server, hredis, hserved⟩ := ih hcalls.1
      obtain ⟨server', hredis', hstep⟩ := step_redis hredis hcalls.2
      rw [run_append]
      refine ⟨server', hredis', ?_⟩
      generalize (step _ e).2 = ds' at hstep
      cases hstep with
      | whitelisted _ | decided _ =>
          exact List.forall_mem_append.mpr ⟨hserved, List.forall_mem_singleton.mpr nofun⟩
      | cleanup => exact hserved

/-- The limits that all buckets and all decisions in memory have. -/
structure Limited (tbl : TokenBucketLimiter) (store : InMemoryStore) (ds : List Decision) :
    Prop where
  buckets : ∀ key b, store.buckets key = some b → b.LimitedBy tbl
  served : ∀ d ∈ ds, ∀ m r, d.servedBy = .memory m r → m = tbl.maxTokens ∧ r = tbl.rate

theorem Limited.bucketFor (h : Limited tbl store ds) (key : String) (created : Time) :
    (store.bucketFor tbl key created).LimitedBy tbl :=
  InMemoryStore.bucketFor_of (h.buckets key) created ⟨rfl, rfl⟩

theorem Limited.step (h : Limited tbl store ds) (hstep : MemoryStep tbl store ds e store' ds') :
    Limited tbl store' ds' := by
  cases hstep with
  | whitelisted _ =>
      exact ⟨h.buckets, List.forall_mem_append.mpr ⟨h.served, List.forall_mem_singleton.mpr nofun⟩⟩
  | @decided key asked created now fails _ =>
      have hbucket := h.bucketFor key created
      refine ⟨fun key' b hb => ?_, List.forall_mem_append.mpr ⟨h.served, ?_⟩⟩
      · by_cases heq : key' = key
        · subst heq
          rw [InMemoryStore.set_self] at hb
          cases hb
          exact hbucket.allow now
        · rw [InMemoryStore.set_of_ne _ heq] at hb
          exact h.buckets key' b hb
      · rw [List.forall_mem_singleton]
        rintro m r ⟨⟩
        exact ⟨hbucket.maxTokens, hbucket.refillRate⟩
  | @cleanup now =>
      exact ⟨fun key b hb => h.buckets key b (bucket_of_cleanup hb).1, h.served⟩

theorem run_limited (hback : tbl.backend = .memory newInMemoryStore) :
    ∃ store, (run tbl es).1.limiter = { tbl with backend := .memory store }
      ∧ Limited tbl store (run tbl es).2 := by
  induction es using List.reverseRecOn with
  | nil =>
      rw [← with_backend hback, run_nil]
      exact ⟨newInMemoryStore, rfl, nofun, fun d hd => absurd hd List.not_mem_nil⟩
  | append_singleton es e ih =>
      obtain ⟨store, hlimiter, hlimited⟩ := ih
      obtain ⟨store', hlimiter', hstep⟩ := step_memory hlimiter e
      rw [run_append]
      exact ⟨store', hlimiter', hlimited.step hstep⟩

end Limiting

/-- When nothing goes wrong: an hour brings in a full bucket, and either
Redis is there all the time and everything happens on whole milliseconds,
or it is not there at the start and half of the capacity is not less than
the minimum. -/
structure Graceful (config : RateLimitConfig) (ping : Bool) (es : List LimiterEvent) : Prop where
  hour : (newTokenBucketLimiter ping config).cap ≤ 3600 * (newTokenBucketLimiter ping config).rate
  up : ping = true → 1000000 ∣ config.refillInterval ∧ ∀ e ∈ es, e.Succeeds ∧ e.Punctual
  down : ping = false → 10 ≤ config.maxTokens

namespace Limiting

variable {tbl : TokenBucketLimiter} {es : List LimiterEvent} {key : String}

theorem run_redis_bound (hback : tbl.backend = .redis) (hpos : tbl.Positive)
    (hhour : tbl.cap ≤ 3600 * tbl.rate) (hms : 1000000 ∣ tbl.refillInterval)
    (hkey : key ∉ tbl.whitelistedKeys) (hes : Chronological es)
    (hcalls : ∀ e ∈ es, e.Succeeds ∧ e.Punctual) {s t : Time} (hst : s ≤ t) :
    (allowedIn key s t (run tbl es).2 : ℚ) ≤ tbl.cap + Duration.seconds (t - s) * tbl.rate := by
  obtain ⟨_, _, -, -, hmirror⟩ := run_mirror_swept hpos hms hkey hes hcalls
  obtain ⟨now, hnow⟩ := hes.exists_over
  have hanswers := (hmirror now hnow).answers
  have hpos' : TokenBucketLimiter.Positive { tbl with backend := .memory newInMemoryStore } :=
    ⟨hpos.maxTokens, hpos.refillRate, hpos.refillInterval⟩
  obtain ⟨_, -, hm⟩ := run_metering (by rfl) hpos' hhour hst hkey hes.swept
  rw [with_backend hback] at hanswers
  rw [allowedIn_eq_answers, hanswers, ← allowedIn_eq_answers]
  exact hm.bound

end Limiting

/-- **Falling back from Redis does not loosen the limit**, when nothing goes
wrong: no window lets through more than the configured limits allow, and
what is decided in memory is decided by the conservative limits, which are
not above them. -/
theorem fallback_never_loosens {config : RateLimitConfig} (hpos : config.Positive)
    (hconservative : config.conservativeFallback = true) {ping : Bool} {es : List LimiterEvent}
    (hes : Chronological es) (hgraceful : Graceful config ping es) {key : String}
    (hkey : key ∉ config.whitelistedKeys) :
    (∀ s t, s ≤ t →
      (allowedIn key s t (Limiting.run (newTokenBucketLimiter ping config) es).2 : ℚ)
        ≤ config.maxTokens
          + Duration.seconds (t - s) * (config.refillRate / config.refillInterval.seconds))
      ∧ ∀ d ∈ (Limiting.run (newTokenBucketLimiter ping config) es).2, ∀ m r,
        d.servedBy = .memory m r →
          m = config.conservativeMaxTokens
            ∧ r = config.conservativeRefillRate / config.refillInterval.seconds
            ∧ m ≤ config.maxTokens ∧ r ≤ config.refillRate / config.refillInterval.seconds := by
  obtain ⟨hback, hmax, hrefill, hinterval, hwhitelist⟩ :=
    newTokenBucketLimiter_of_positive hpos hconservative ping
  have hhour := hgraceful.hour
  have hseconds := seconds_pos hpos.refillInterval
  generalize newTokenBucketLimiter ping config = tbl at *
  have hkey : key ∉ tbl.whitelistedKeys := hwhitelist ▸ hkey
  have hrate : tbl.rate = tbl.refillRate / config.refillInterval.seconds := by
    rw [TokenBucketLimiter.rate, hinterval]
  cases ping with
  | true =>
      obtain ⟨hms, hcalls⟩ := hgraceful.up rfl
      have hpos' : tbl.Positive :=
        ⟨hmax ▸ hpos.maxTokens, hrefill ▸ hpos.refillRate, hinterval ▸ hpos.refillInterval⟩
      refine ⟨fun s t hst => ?_, fun d hd m r hserved => ?_⟩
      · have hbound := Limiting.run_redis_bound hback hpos' hhour (hinterval ▸ hms) hkey hes hcalls
          hst
        rw [hrate, hrefill, TokenBucketLimiter.cap, hmax] at hbound
        exact hbound
      · obtain ⟨_, -, hserved'⟩ := Limiting.run_served_redis hback fun e he => (hcalls e he).1
        exact absurd hserved (hserved' d hd m r)
  | false =>
      have hle : tbl.cap ≤ config.maxTokens := by
        rw [TokenBucketLimiter.cap, hmax]
        exact Int.cast_le.mpr
          ((RateLimitConfig.conservativeMaxTokens_le hpos.maxTokens).mpr (hgraceful.down rfl))
      have hslower : tbl.rate ≤ config.refillRate / config.refillInterval.seconds := by
        rw [hrate, hrefill]
        exact div_le_div_of_nonneg_right
          (Int.cast_le.mpr (RateLimitConfig.conservativeRefillRate_le hpos.refillRate)) hseconds.le
      have hpos' : tbl.Positive :=
        ⟨hmax ▸ RateLimitConfig.conservativeMaxTokens_pos,
          hrefill ▸ RateLimitConfig.conservativeRefillRate_pos, hinterval ▸ hpos.refillInterval⟩
      refine ⟨fun s t hst => ?_, fun d hd m r hserved => ?_⟩
      · obtain ⟨_, -, hm⟩ := Limiting.run_metering hback hpos' hhour hst hkey hes
        have hwindow : 0 ≤ Duration.seconds (t - s) := by
          rw [seconds_sub]
          exact sub_nonneg.mpr (seconds_le.mpr hst)
        calc (allowedIn key s t (Limiting.run tbl es).2 : ℚ)
            ≤ tbl.cap + Duration.seconds (t - s) * tbl.rate := hm.bound
          _ ≤ _ := add_le_add hle (mul_le_mul_of_nonneg_left hslower hwindow)
      · obtain ⟨_, -, hlimited⟩ := Limiting.run_limited hback
        obtain ⟨rfl, rfl⟩ := hlimited.served d hd m r hserved
        exact ⟨hmax, by rw [hrate, hrefill]; rfl, Int.cast_le.mp hle, hslower⟩

def conservativeConfig : RateLimitConfig := { routerConfig with conservativeFallback := true }

theorem graceful_idleClient : Graceful conservativeConfig false idleClient :=
  ⟨by decide +kernel, fun h => absurd h Bool.false_ne_true, fun _ => by decide⟩

theorem fallback_never_loosens_down :
    let ds := (Limiting.run (newTokenBucketLimiter false conservativeConfig) idleClient).2
    allowedIn "alice" 0 (2 * hour) ds = 2
      ∧ (allowedIn "alice" 0 (2 * hour) ds : ℚ) ≤ 100 + Duration.seconds (2 * hour - 0) * 10
      ∧ ∀ d ∈ ds, ∀ m r, d.servedBy = .memory m r → m = 50 ∧ r = 5 := by
  obtain ⟨hbound, hserved⟩ := fallback_never_loosens ⟨by decide, by decide, by decide⟩ rfl
    (by decide) graceful_idleClient (by decide : "alice" ∉ conservativeConfig.whitelistedKeys)
  refine ⟨by decide +kernel, (hbound 0 (2 * hour) (by decide)).trans_eq ?_, fun d hd m r h => ?_⟩
  · norm_num [conservativeConfig, routerConfig, Duration.seconds]
  · obtain ⟨rfl, rfl, -⟩ := hserved d hd m r h
    exact ⟨rfl, by decide +kernel⟩

def losesRedis : List LimiterEvent :=
  List.replicate 20 (.allow "alice" 0 0 0 false) ++ [.allow "alice" 0 0 0 true]

/-- The bucket is full again, with the capacity and the rate it was
configured with. -/
theorem tokens_come_back :
    let config : RateLimitConfig := ⟨20, 2, 1000000000, "ratelimit:", [], true⟩
    let ds := (Limiting.run (newTokenBucketLimiter true config) losesRedis).2
    allowedIn "alice" 0 0 ds = 21
      ∧ ds.getLast?.map Decision.servedBy = some (.memory 20 2)
      ∧ config.conservativeMaxTokens = 10 ∧ config.conservativeRefillRate = 1 := by
  decide +kernel

end TradingBackend
