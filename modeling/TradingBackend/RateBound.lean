import TradingBackend.RateLimiter
import Mathlib.Data.List.Induction

/-!
# The bound of the buckets in memory

A bucket of the process is a `TokenBucket` (`Bucket.level`), and the store
keeps one for every key: a key without a bucket has a full one, made when
it is needed (`InMemoryStore.level`). `cleanup` forgets a bucket that was
not used for an hour. That is a full one if an hour brings in as many
tokens as it can hold, and then it does no harm.

The requests of a key see no other key (`Agree`): what is decided about
them is decided by the bucket of the key, the clock and the cleanup.
-/

namespace TradingBackend

theorem seconds_sub (t t' : Time) :
    Duration.seconds (t - t') = Duration.seconds t - Duration.seconds t' := by
  unfold Duration.seconds
  push_cast
  ring

theorem seconds_le {t t' : Time} : Duration.seconds t ≤ Duration.seconds t' ↔ t ≤ t' := by
  unfold Duration.seconds
  rw [div_le_div_iff_of_pos_right (by norm_num), Int.cast_le]

theorem seconds_pos {d : Duration} (h : 0 < d) : 0 < d.seconds :=
  div_pos (Int.cast_pos.mpr h) (by norm_num)

theorem seconds_hour : Duration.seconds hour = 3600 := by
  unfold Duration.seconds hour
  norm_num

namespace TokenBucketLimiter

def cap (tbl : TokenBucketLimiter) : ℚ := tbl.maxTokens

def rate (tbl : TokenBucketLimiter) : ℚ := tbl.refillRate / tbl.refillInterval.seconds

structure Positive (tbl : TokenBucketLimiter) : Prop where
  maxTokens : 0 < tbl.maxTokens
  refillRate : 0 < tbl.refillRate
  refillInterval : 0 < tbl.refillInterval

theorem Positive.rate {tbl : TokenBucketLimiter} (h : tbl.Positive) : 0 ≤ tbl.rate :=
  div_nonneg (Int.cast_nonneg h.refillRate.le) (seconds_pos h.refillInterval).le

theorem Positive.cap {tbl : TokenBucketLimiter} (h : tbl.Positive) : 0 ≤ tbl.cap :=
  Int.cast_nonneg h.maxTokens.le

end TokenBucketLimiter

/-! ## One bucket -/

namespace Bucket

/-- The bucket as a token bucket, on a clock that shows seconds. -/
def level (b : Bucket) : TokenBucket ℚ := ⟨b.tokens, Duration.seconds b.lastRefill⟩

theorem allow_cases (b : Bucket) (now : Time) :
    (b.allow now).1.level = b.level.request (b.maxTokens : ℚ) b.refillRate (Duration.seconds now)
      ∧ ((b.allow now).2.allowed = true
        ↔ b.level.Allows (b.maxTokens : ℚ) b.refillRate (Duration.seconds now)) := by
  have htokens : (b.level.refill (b.maxTokens : ℚ) b.refillRate (Duration.seconds now)).tokens =
      min (b.maxTokens : ℚ)
        (b.tokens + Duration.seconds (now - b.lastRefill) * b.refillRate) := by
    rw [seconds_sub]
    rfl
  unfold allow
  dsimp only
  by_cases ha : b.level.Allows (b.maxTokens : ℚ) b.refillRate (Duration.seconds now)
  · have h := ha
    rw [TokenBucket.Allows, htokens] at h
    rw [if_pos h, TokenBucket.request_of_allows ha, htokens]
    exact ⟨rfl, iff_of_true rfl ha⟩
  · have h := ha
    rw [TokenBucket.Allows, htokens] at h
    rw [if_neg h, TokenBucket.request_of_not_allows ha]
    exact ⟨TokenBucket.ext htokens.symm rfl, iff_of_false Bool.false_ne_true ha⟩

theorem allow_lastRefill (b : Bucket) (now : Time) : (b.allow now).1.lastRefill = now := by
  unfold allow
  dsimp only
  split_ifs <;> rfl

theorem allow_maxTokens (b : Bucket) (now : Time) :
    (b.allow now).1.maxTokens = b.maxTokens := by
  unfold allow
  dsimp only
  split_ifs <;> rfl

theorem allow_refillRate (b : Bucket) (now : Time) :
    (b.allow now).1.refillRate = b.refillRate := by
  unfold allow
  dsimp only
  split_ifs <;> rfl

theorem allow_remaining (b : Bucket) (now : Time) :
    (b.allow now).2.remaining = truncate (b.allow now).1.tokens := by
  unfold allow
  dsimp only
  split_ifs <;> rfl

structure LimitedBy (tbl : TokenBucketLimiter) (b : Bucket) : Prop where
  maxTokens : b.maxTokens = tbl.maxTokens
  refillRate : b.refillRate = tbl.rate

/-- A bucket with the limits of the limiter, and with a number of tokens
that fits. -/
structure Kept (tbl : TokenBucketLimiter) (b : Bucket) : Prop extends LimitedBy tbl b where
  within : b.level.Within tbl.cap

section

variable {tbl : TokenBucketLimiter} {b : Bucket} {now : Time}

theorem LimitedBy.level_allow (h : b.LimitedBy tbl) (now : Time) :
    (b.allow now).1.level = b.level.request tbl.cap tbl.rate (Duration.seconds now)
      ∧ ((b.allow now).2.allowed = true
        ↔ b.level.Allows tbl.cap tbl.rate (Duration.seconds now)) := by
  rw [TokenBucketLimiter.cap, ← h.maxTokens, ← h.refillRate]
  exact b.allow_cases now

theorem LimitedBy.allow (h : b.LimitedBy tbl) (now : Time) : (b.allow now).1.LimitedBy tbl :=
  ⟨(b.allow_maxTokens now).trans h.maxTokens, (b.allow_refillRate now).trans h.refillRate⟩

theorem Kept.allow (h : b.Kept tbl) (hpos : tbl.Positive) (hnow : b.lastRefill ≤ now) :
    (b.allow now).1.Kept tbl := by
  refine ⟨h.toLimitedBy.allow now, ?_⟩
  rw [(h.level_allow now).1]
  exact h.within.request hpos.rate (seconds_le.mpr hnow)

theorem Kept.remaining (h : b.Kept tbl) (hpos : tbl.Positive) (hnow : b.lastRefill ≤ now) :
    0 ≤ (b.allow now).2.remaining := by
  have hnonneg : 0 ≤ (b.allow now).1.tokens := (h.allow hpos hnow).within.nonneg
  rw [allow_remaining, truncate_of_nonneg hnonneg]
  exact Int.floor_nonneg.mpr hnonneg

end

end Bucket

/-! ## The store -/

namespace InMemoryStore

/-- The bucket that a request finds or makes. -/
def bucketFor (store : InMemoryStore) (tbl : TokenBucketLimiter) (key : String) (created : Time) :
    Bucket :=
  (store.buckets key).getD ⟨tbl.maxTokens, created, tbl.maxTokens, tbl.rate⟩

theorem set_self (store : InMemoryStore) (key : String) (b : Bucket) :
    (store.set key b).buckets key = some b := Function.update_self ..

theorem set_of_ne (store : InMemoryStore) {key key' : String} (h : key' ≠ key) (b : Bucket) :
    (store.set key b).buckets key' = store.buckets key' := Function.update_of_ne h ..

def level (store : InMemoryStore) (tbl : TokenBucketLimiter) (key : String) (now : Time) :
    TokenBucket ℚ :=
  (store.bucketFor tbl key now).level

section

variable {store : InMemoryStore} {tbl : TokenBucketLimiter} {key : String} {b : Bucket}
  {now : Time}

theorem bucketFor_some (h : store.buckets key = some b) : store.bucketFor tbl key now = b := by
  rw [bucketFor, h, Option.getD_some]

/-- What holds of the bucket in the store, and of one that was just made,
holds of the one that a request finds or makes. -/
theorem bucketFor_of {P : Bucket → Prop} (hbucket : ∀ b, store.buckets key = some b → P b)
    (created : Time) (hfresh : P ⟨tbl.maxTokens, created, tbl.maxTokens, tbl.rate⟩) :
    P (store.bucketFor tbl key created) := by
  cases hb : store.buckets key with
  | none => rwa [bucketFor, hb]
  | some b =>
      rw [bucketFor_some hb]
      exact hbucket b hb

theorem level_some (h : store.buckets key = some b) : store.level tbl key now = b.level := by
  rw [level, bucketFor_some h]

theorem level_none (h : store.buckets key = none) :
    store.level tbl key now = TokenBucket.full tbl.cap (Duration.seconds now) := by
  rw [level, bucketFor, h]
  rfl

theorem cleanup_cases (store : InMemoryStore) (key : String) (now : Time) :
    (store.cleanup now).buckets key = store.buckets key
      ∨ (store.cleanup now).buckets key = none
        ∧ ∃ b, store.buckets key = some b ∧ hour < now - b.lastRefill := by
  cases h : store.buckets key with
  | none => exact Or.inl (by simp only [cleanup, h, Option.filter_none])
  | some b =>
      by_cases hold : hour < now - b.lastRefill
      · exact Or.inr ⟨by simp only [cleanup, h, Option.filter_some, hold, not_true_eq_false,
          decide_false, Bool.false_eq_true, if_false], b, rfl, hold⟩
      · exact Or.inl (by simp only [cleanup, h, Option.filter_some, hold, not_false_eq_true,
          decide_true, if_true])

/-- Every bucket of the store is kept, and was last used before `now`. -/
structure KeptAt (tbl : TokenBucketLimiter) (store : InMemoryStore) (key : String) (now : Time) :
    Prop where
  kept : ∀ b, store.buckets key = some b → b.Kept tbl
  past : ∀ b, store.buckets key = some b → b.lastRefill ≤ now

theorem KeptAt.bucketFor (h : store.KeptAt tbl key now) (hpos : tbl.Positive) :
    (store.bucketFor tbl key now).Kept tbl
      ∧ (store.bucketFor tbl key now).lastRefill ≤ now :=
  ⟨bucketFor_of h.kept now ⟨⟨rfl, rfl⟩, TokenBucket.within_full hpos.cap⟩,
    bucketFor_of h.past now le_rfl⟩

end

end InMemoryStore

theorem TokenBucketLimiter.allowInMemory_eq (tbl : TokenBucketLimiter) (store : InMemoryStore)
    (key : String) (created now : Time) :
    tbl.allowInMemory store key created now =
      let b := store.bucketFor tbl key created
      (store.set key (b.allow now).1,
        ⟨key, now, .memory b.maxTokens b.refillRate, (b.allow now).2⟩) := by
  unfold allowInMemory InMemoryStore.getOrCreate InMemoryStore.bucketFor
  cases h : store.buckets key with
  | none =>
      simp only [Option.getD_none, InMemoryStore.set, Function.update_idem]
      rfl
  | some b => rfl

/-! ## Time -/

namespace LimiterEvent

def start : LimiterEvent → Time
  | .allow _ asked _ _ _ => asked
  | .cleanup now => now

def finish : LimiterEvent → Time
  | .allow _ _ _ now _ => now
  | .cleanup now => now

/-- The clock does not go back during a call. -/
def Ordered : LimiterEvent → Prop
  | .allow _ asked created now _ => asked ≤ created ∧ created ≤ now
  | .cleanup _ => True

/-- The event is a request of the client, or a cleanup. -/
def Concerns (key : String) : LimiterEvent → Prop
  | .allow clientKey _ _ _ _ => clientKey = key
  | .cleanup _ => True

instance decidableConcerns (key : String) : DecidablePred (Concerns key)
  | .allow _ _ _ _ _ => inferInstanceAs (Decidable (_ = _))
  | .cleanup _ => isTrue trivial

instance decidableOrdered : DecidablePred Ordered
  | .allow _ _ _ _ _ => inferInstanceAs (Decidable (_ ∧ _))
  | .cleanup _ => isTrue trivial

end LimiterEvent

/-- One event after the other, on a clock that does not go back. -/
def Chronological (es : List LimiterEvent) : Prop :=
  (∀ e ∈ es, e.Ordered) ∧ es.Pairwise fun e e' => e.finish ≤ e'.start

instance decidableChronological (es : List LimiterEvent) : Decidable (Chronological es) :=
  inferInstanceAs (Decidable (_ ∧ _))

def Over (es : List LimiterEvent) (now : Time) : Prop := ∀ e ∈ es, e.finish ≤ now

section

variable {es : List LimiterEvent} {e : LimiterEvent}

theorem Chronological.snoc_inv (h : Chronological (es ++ [e])) :
    Chronological es ∧ e.Ordered ∧ Over es e.start := by
  obtain ⟨hordered, hpair⟩ := h
  rw [List.pairwise_append] at hpair
  refine ⟨⟨fun x hx => hordered x (List.mem_append_left _ hx), hpair.1⟩,
    hordered e (List.mem_append_right _ (List.mem_singleton_self e)), fun x hx => ?_⟩
  exact hpair.2.2 x hx e (List.mem_singleton_self e)

theorem Over.snoc_inv {now : Time} (h : Over (es ++ [e]) now) : Over es now ∧ e.finish ≤ now :=
  ⟨fun x hx => h x (List.mem_append_left _ hx),
    h e (List.mem_append_right _ (List.mem_singleton_self e))⟩

theorem LimiterEvent.Ordered.start_le (h : e.Ordered) : e.start ≤ e.finish := by
  cases e with
  | allow key asked created now fails => exact h.1.trans h.2
  | cleanup now => exact le_rfl

theorem Chronological.exists_over (h : Chronological es) :
    ∃ now, Over es now := by
  induction es using List.reverseRecOn with
  | nil => exact ⟨0, nofun⟩
  | append_singleton es e ih =>
      obtain ⟨-, hordered, hover⟩ := h.snoc_inv
      refine ⟨e.finish, List.forall_mem_append.mpr ⟨fun x hx => ?_,
        List.forall_mem_singleton.mpr le_rfl⟩⟩
      exact (hover x hx).trans hordered.start_le

end

theorem allowedIn_append (key : String) (s t : Time) (ds : List Decision) (d : Decision) :
    allowedIn key s t (ds ++ [d]) = allowedIn key s t ds + if d.Passes key s t then 1 else 0 := by
  simp only [allowedIn, List.countP_append, List.countP_singleton, decide_eq_true_eq]

theorem allowedIn_append_of_not {key : String} {s t : Time} {ds : List Decision} {d : Decision}
    (h : ¬d.Passes key s t) : allowedIn key s t (ds ++ [d]) = allowedIn key s t ds := by
  rw [allowedIn_append, if_neg h, Nat.add_zero]

/-! ## What an event does when the buckets are in memory -/

namespace Limiting

/-- The effect of an event on the store and on the decisions. -/
inductive MemoryStep (tbl : TokenBucketLimiter) (store : InMemoryStore) (ds : List Decision) :
    LimiterEvent → InMemoryStore → List Decision → Prop where
  | whitelisted {key asked created now fails result} (hkey : key ∈ tbl.whitelistedKeys) :
      MemoryStep tbl store ds (.allow key asked created now fails) store
        (ds ++ [⟨key, now, .whitelist, result⟩])
  | decided {key asked created now fails} (hkey : key ∉ tbl.whitelistedKeys) :
      MemoryStep tbl store ds (.allow key asked created now fails)
        (store.set key ((store.bucketFor tbl key created).allow now).1)
        (ds ++ [⟨key, now, .memory (store.bucketFor tbl key created).maxTokens
            (store.bucketFor tbl key created).refillRate,
          ((store.bucketFor tbl key created).allow now).2⟩])
  | cleanup {now} : MemoryStep tbl store ds (.cleanup now) (store.cleanup now) ds

variable {tbl : TokenBucketLimiter} {store store' : InMemoryStore} {s : Limiting × List Decision}
  {ds ds' : List Decision} {e : LimiterEvent} {es : List LimiterEvent} {key : String}

theorem bucketFor_backend (store : InMemoryStore) (tbl : TokenBucketLimiter) (backend : Backend) :
    store.bucketFor { tbl with backend := backend } = store.bucketFor tbl := rfl

theorem step_memory (h : s.1.limiter = { tbl with backend := .memory store })
    (e : LimiterEvent) :
    ∃ store', (step s e).1.limiter = { tbl with backend := .memory store' }
      ∧ MemoryStep tbl store s.2 e store' (step s e).2 := by
  cases e with
  | allow key asked created now fails =>
      by_cases hkey : key ∈ tbl.whitelistedKeys
      · refine ⟨store, ?_, ?_⟩
        · simp only [step, allow, h, if_pos hkey]
        · simp only [step, allow, h, if_pos hkey]
          exact .whitelisted hkey
      · refine ⟨store.set key ((store.bucketFor tbl key created).allow now).1, ?_, ?_⟩
        · simp only [step, allow, h, if_neg hkey, inMemory,
            TokenBucketLimiter.allowInMemory_eq, bucketFor_backend]
        · simp only [step, allow, h, if_neg hkey, inMemory,
            TokenBucketLimiter.allowInMemory_eq, bucketFor_backend]
          exact .decided hkey
  | cleanup now =>
      refine ⟨store.cleanup now, ?_, ?_⟩
      · simp only [step, h]
      · simp only [step, h]
        exact .cleanup

theorem run_append (limiter : TokenBucketLimiter) (es : List LimiterEvent) (e : LimiterEvent) :
    run limiter (es ++ [e]) = step (run limiter es) e := by
  rw [run, List.foldl_append]
  rfl

/-! ## The window -/

/-- What the store knows about the requests of a client that were allowed
from `s` to `t`, at any time after the events. -/
structure Metering (tbl : TokenBucketLimiter) (key : String) (s t : Time)
    (es : List LimiterEvent) (store : InMemoryStore) (ds : List Decision) : Prop where
  kept : ∀ b, store.buckets key = some b → b.Kept tbl
  past : ∀ now, Over es now → ∀ b, store.buckets key = some b → b.lastRefill ≤ now
  metered : ∀ now, Over es now → now ≤ t → TokenBucket.Metered tbl.cap tbl.rate
    (Duration.seconds s) (allowedIn key s t ds) (store.level tbl key now)
  bound : (allowedIn key s t ds : ℚ) ≤ tbl.cap + Duration.seconds (t - s) * tbl.rate
  remaining : ∀ d ∈ ds, d.clientKey = key → 0 ≤ d.result.remaining

variable {first last : Time}

theorem metering_nil (hpos : tbl.Positive) (h : first ≤ last) :
    Metering tbl key first last [] newInMemoryStore [] := by
  refine ⟨nofun, fun _ _ => nofun, fun now _ _ => ?_, ?_, List.forall_mem_nil _⟩
  · rw [InMemoryStore.level_none rfl]
    exact TokenBucket.metered_zero le_rfl hpos.rate
  · rw [seconds_sub]
    exact add_nonneg hpos.cap (mul_nonneg (sub_nonneg.mpr (seconds_le.mpr h)) hpos.rate)

/-- An event that neither touches the bucket of the client nor decides
about a request of its. -/
theorem Metering.other (h : Metering tbl key first last es store ds) (e : LimiterEvent)
    (hbucket : store'.buckets key = store.buckets key)
    (hcount : allowedIn key first last ds' = allowedIn key first last ds)
    (hremaining : ∀ d ∈ ds', d.clientKey = key → 0 ≤ d.result.remaining) :
    Metering tbl key first last (es ++ [e]) store' ds' := by
  have hlevel : ∀ now, store'.level tbl key now = store.level tbl key now := fun now => by
    rw [InMemoryStore.level, InMemoryStore.level, InMemoryStore.bucketFor,
      InMemoryStore.bucketFor, hbucket]
  refine ⟨hbucket ▸ h.kept, fun now hnow => hbucket ▸ h.past now hnow.snoc_inv.1,
    fun now hnow hlast => ?_, hcount ▸ h.bound, hremaining⟩
  rw [hcount, hlevel]
  exact h.metered now hnow.snoc_inv.1 hlast

theorem metered_allow {b : Bucket} (hb : b.Kept tbl) (hpos : tbl.Positive) {now : Time}
    (hpast : b.lastRefill ≤ now) (hlast : now ≤ last) (servedBy : ServedBy)
    (h : TokenBucket.Metered tbl.cap tbl.rate (Duration.seconds first)
      (allowedIn key first last ds) b.level) :
    TokenBucket.Metered tbl.cap tbl.rate (Duration.seconds first)
      (allowedIn key first last (ds ++ [⟨key, now, servedBy, (b.allow now).2⟩]))
      (b.allow now).1.level := by
  obtain ⟨hlevel, hallowed⟩ := hb.level_allow now
  have hpast : b.level.last ≤ Duration.seconds now := seconds_le.mpr hpast
  rw [hlevel]
  by_cases hfirst : first ≤ now
  · have hpasses : Decision.Passes key first last ⟨key, now, servedBy, (b.allow now).2⟩
        ↔ b.level.Allows tbl.cap tbl.rate (Duration.seconds now) := by
      rw [← hallowed]
      exact ⟨fun hp => hp.2.1, fun ha => ⟨rfl, ha, hfirst, hlast⟩⟩
    rw [allowedIn_append]
    simp only [hpasses]
    exact h.request hb.within hpos.rate hpast (seconds_le.mpr hfirst)
  · have hbefore : Duration.seconds now < Duration.seconds first :=
      not_le.mp fun hle => hfirst (seconds_le.mp hle)
    rw [allowedIn_append_of_not fun hp => hfirst hp.2.2.1, h.unused (hpast.trans_lt hbefore)]
    exact TokenBucket.metered_zero (hb.within.request hpos.rate hpast).le_cap hpos.rate

theorem Metering.decided (h : Metering tbl key first last es store ds) (hpos : tbl.Positive)
    (hwindow : first ≤ last) {asked created now : Time} {fails : Bool} (servedBy : ServedBy)
    (hover : Over es asked) (hcreated : asked ≤ created) (hnow : created ≤ now) :
    Metering tbl key first last (es ++ [.allow key asked created now fails])
      (store.set key ((store.bucketFor tbl key created).allow now).1)
      (ds ++ [⟨key, now, servedBy, ((store.bucketFor tbl key created).allow now).2⟩]) := by
  have hover : Over es created := fun e he => (hover e he).trans hcreated
  obtain ⟨hb, hpast⟩ := InMemoryStore.KeptAt.bucketFor ⟨h.kept, h.past created hover⟩ hpos
  have hpast : (store.bucketFor tbl key created).lastRefill ≤ now := hpast.trans hnow
  have hmetered := fun hlast : now ≤ last => metered_allow hb hpos hpast hlast servedBy
    (h.metered created hover (hnow.trans hlast))
  generalize store.bucketFor tbl key created = b at hb hpast hmetered ⊢
  have hself := store.set_self key (b.allow now).1
  have hlevel : ((b.allow now).1.level).last = Duration.seconds now :=
    congrArg Duration.seconds (b.allow_lastRefill now)
  refine ⟨?_, fun now' hnow' => ?_, fun now' hnow' hlast => ?_, ?_, ?_⟩
  · rw [hself]
    rintro _ ⟨⟩
    exact hb.allow hpos hpast
  · rw [hself]
    rintro _ ⟨⟩
    rw [Bucket.allow_lastRefill]
    exact hnow'.snoc_inv.2
  · rw [InMemoryStore.level_some hself]
    exact hmetered (hnow'.snoc_inv.2.trans hlast)
  · by_cases hlast : now ≤ last
    · rw [seconds_sub]
      exact (hmetered hlast).le (hb.allow hpos hpast).within hpos.rate (seconds_le.mpr hwindow)
        (hlevel ▸ seconds_le.mpr hlast)
    · rw [allowedIn_append_of_not fun hp => hlast hp.2.2.2]
      exact h.bound
  · refine List.forall_mem_append.mpr ⟨h.remaining, List.forall_mem_singleton.mpr fun _ => ?_⟩
    exact hb.remaining hpos hpast

theorem Metering.cleanup (h : Metering tbl key first last es store ds) (hpos : tbl.Positive)
    (hhour : tbl.cap ≤ 3600 * tbl.rate) {now : Time} (hover : Over es now) :
    Metering tbl key first last (es ++ [.cleanup now]) (store.cleanup now) ds := by
  rcases store.cleanup_cases key now with hsame | ⟨hnone, b, hb, hold⟩
  · exact h.other (.cleanup now) hsame rfl h.remaining
  · have hkept := h.kept b hb
    have hpast : b.level.last ≤ Duration.seconds now := seconds_le.mpr (h.past now hover b hb)
    have hidle : tbl.cap ≤ (Duration.seconds now - b.level.last) * tbl.rate := by
      have hle : 3600 ≤ Duration.seconds now - b.level.last := by
        rw [← seconds_hour]
        exact (seconds_le.mpr hold.le).trans_eq (seconds_sub ..)
      exact hhour.trans (mul_le_mul_of_nonneg_right hle hpos.rate)
    refine ⟨?_, fun _ _ => ?_, fun now' hnow' hlast => ?_, h.bound, h.remaining⟩
    · rw [hnone]
      exact nofun
    · rw [hnone]
      exact nofun
    · have hnow' : now ≤ now' := hnow'.snoc_inv.2
      have hm := h.metered now hover (hnow'.trans hlast)
      rw [InMemoryStore.level_some hb] at hm
      rw [InMemoryStore.level_none hnone]
      exact (hm.renew hkept.within hpos.rate hpast hidle).later hpos.cap hpos.rate
        (seconds_le.mpr hnow')

theorem Metering.step (h : Metering tbl key first last es store ds) (hpos : tbl.Positive)
    (hhour : tbl.cap ≤ 3600 * tbl.rate) (hwindow : first ≤ last)
    (hkey : key ∉ tbl.whitelistedKeys) (hover : Over es e.start) (hordered : e.Ordered)
    (hstep : MemoryStep tbl store ds e store' ds') :
    Metering tbl key first last (es ++ [e]) store' ds' := by
  cases hstep with
  | @whitelisted key' asked created now fails result hkey' =>
      have hne : key' ≠ key := fun heq => hkey (heq ▸ hkey')
      refine h.other _ rfl (allowedIn_append_of_not fun hp => hne hp.1) ?_
      exact List.forall_mem_append.mpr ⟨h.remaining,
        List.forall_mem_singleton.mpr fun heq => absurd heq hne⟩
  | @decided key' asked created now fails hkey' =>
      by_cases heq : key' = key
      · subst heq
        exact h.decided hpos hwindow _ hover hordered.1 hordered.2
      · refine h.other _ (store.set_of_ne (Ne.symm heq) _)
          (allowedIn_append_of_not fun hp => heq hp.1) ?_
        exact List.forall_mem_append.mpr ⟨h.remaining,
          List.forall_mem_singleton.mpr fun hkey => absurd hkey heq⟩
  | cleanup => exact h.cleanup hpos hhour hover

theorem run_metering (hback : tbl.backend = .memory newInMemoryStore) (hpos : tbl.Positive)
    (hhour : tbl.cap ≤ 3600 * tbl.rate) (hwindow : first ≤ last)
    (hkey : key ∉ tbl.whitelistedKeys) (hes : Chronological es) :
    ∃ store, (run tbl es).1.limiter = { tbl with backend := .memory store }
      ∧ Metering tbl key first last es store (run tbl es).2 := by
  induction es using List.reverseRecOn with
  | nil =>
      refine ⟨newInMemoryStore, ?_, metering_nil hpos hwindow⟩
      rw [← hback]
      rfl
  | append_singleton es e ih =>
      obtain ⟨hes, hordered, hover⟩ := hes.snoc_inv
      obtain ⟨store, hlimiter, hm⟩ := ih hes
      obtain ⟨store', hlimiter', hstep⟩ := step_memory hlimiter e
      rw [run_append]
      exact ⟨store', hlimiter', hm.step hpos hhour hwindow hkey hover hordered hstep⟩

/-! ## Other clients -/

/-- Two limiters with the same bucket for a client, that have decided the
same about its requests. -/
structure Agree (key : String) (store store' : InMemoryStore)
    (ds ds' : List Decision) : Prop where
  bucket : store.buckets key = store'.buckets key
  decisions : ds.filter (·.clientKey = key) = ds'.filter (·.clientKey = key)

variable {store₁ store₁' : InMemoryStore} {ds₁ ds₁' : List Decision}

theorem Agree.both (h : Agree key store store' ds ds') (hkey : key ∉ tbl.whitelistedKeys)
    (he : e.Concerns key) (hstep : MemoryStep tbl store ds e store₁ ds₁)
    (hstep' : MemoryStep tbl store' ds' e store₁' ds₁') :
    Agree key store₁ store₁' ds₁ ds₁' := by
  have hfor : store.bucketFor tbl key = store'.bucketFor tbl key := by
    unfold InMemoryStore.bucketFor
    rw [h.bucket]
  cases hstep with
  | whitelisted hkey' => exact absurd (he ▸ hkey') hkey
  | @decided key' asked created now fails hkey' =>
      obtain rfl : key' = key := he
      cases hstep' with
      | whitelisted hkey'' => exact absurd hkey'' hkey
      | decided _ =>
          rw [hfor]
          refine ⟨?_, ?_⟩
          · rw [InMemoryStore.set_self, InMemoryStore.set_self]
          · rw [List.filter_append, List.filter_append, h.decisions]
  | cleanup =>
      cases hstep'
      refine ⟨?_, h.decisions⟩
      simp only [InMemoryStore.cleanup, h.bucket]

theorem Agree.left (h : Agree key store store' ds ds') (he : ¬e.Concerns key)
    (hstep : MemoryStep tbl store ds e store₁ ds₁) : Agree key store₁ store' ds₁ ds' := by
  cases hstep with
  | @whitelisted key' asked created now fails result hkey' =>
      have hne : ¬key' = key := he
      refine ⟨h.bucket, ?_⟩
      rw [List.filter_append, List.filter_cons_of_neg (by simpa using hne), List.filter_nil,
        List.append_nil, h.decisions]
  | @decided key' asked created now fails hkey' =>
      have hne : ¬key' = key := he
      refine ⟨(store.set_of_ne (Ne.symm hne) _).trans h.bucket, ?_⟩
      rw [List.filter_append, List.filter_cons_of_neg (by simpa using hne), List.filter_nil,
        List.append_nil, h.decisions]
  | cleanup => exact absurd trivial he

theorem run_agree (hback : tbl.backend = .memory newInMemoryStore)
    (hkey : key ∉ tbl.whitelistedKeys) (es : List LimiterEvent) :
    ∃ store store', (run tbl es).1.limiter = { tbl with backend := .memory store }
      ∧ (run tbl (es.filter (LimiterEvent.Concerns key))).1.limiter
        = { tbl with backend := .memory store' }
      ∧ Agree key store store' (run tbl es).2
        (run tbl (es.filter (LimiterEvent.Concerns key))).2 := by
  induction es using List.reverseRecOn with
  | nil =>
      refine ⟨newInMemoryStore, newInMemoryStore, ?_, ?_, rfl, rfl⟩ <;> rw [← hback] <;> rfl
  | append_singleton es e ih =>
      obtain ⟨store, store', hlimiter, hlimiter', hagree⟩ := ih
      obtain ⟨store₁, hlimiter₁, hstep⟩ := step_memory hlimiter e
      rw [run_append]
      by_cases he : e.Concerns key
      · obtain ⟨store₁', hlimiter₁', hstep'⟩ := step_memory hlimiter' e
        rw [List.filter_append, List.filter_cons_of_pos (by simpa using he), List.filter_nil,
          run_append]
        exact ⟨store₁, store₁', hlimiter₁, hlimiter₁', hagree.both hkey he hstep hstep'⟩
      · rw [List.filter_append, List.filter_cons_of_neg (by simpa using he), List.filter_nil,
          List.append_nil]
        exact ⟨store₁, store', hlimiter₁, hlimiter', hagree.left he hstep⟩

end Limiting

/-- **The bound of the buckets in memory.** The tokens of a client fit
its bucket, what remains is never negative, no window lets through more
than a full bucket and what came in, and nobody else matters. -/
theorem token_bucket_bound {tbl : TokenBucketLimiter}
    (hback : tbl.backend = .memory newInMemoryStore) (hpos : tbl.Positive)
    (hhour : (tbl.maxTokens : ℚ) ≤ 3600 * (tbl.refillRate / tbl.refillInterval.seconds))
    {es : List LimiterEvent} (hes : Chronological es) {key : String}
    (hkey : key ∉ tbl.whitelistedKeys) :
    (∃ store, (Limiting.run tbl es).1.limiter = { tbl with backend := .memory store }
        ∧ ∀ b, store.buckets key = some b → 0 ≤ b.tokens ∧ b.tokens ≤ tbl.maxTokens)
      ∧ (∀ d ∈ (Limiting.run tbl es).2, d.clientKey = key → 0 ≤ d.result.remaining)
      ∧ (∀ s t, s ≤ t → (allowedIn key s t (Limiting.run tbl es).2 : ℚ)
          ≤ tbl.maxTokens
            + Duration.seconds (t - s) * (tbl.refillRate / tbl.refillInterval.seconds))
      ∧ (Limiting.run tbl es).2.filter (·.clientKey = key)
        = (Limiting.run tbl (es.filter (LimiterEvent.Concerns key))).2.filter
            (·.clientKey = key) := by
  obtain ⟨store, hlimiter, hm⟩ := Limiting.run_metering hback hpos hhour (le_refl 0) hkey hes
  obtain ⟨_, _, -, -, hagree⟩ := Limiting.run_agree hback hkey es
  refine ⟨⟨store, hlimiter, fun b hb => ?_⟩, hm.remaining, fun s t hst => ?_, hagree.decisions⟩
  · exact ⟨(hm.kept b hb).within.nonneg, (hm.kept b hb).within.le_cap⟩
  · obtain ⟨_, -, hm⟩ := Limiting.run_metering hback hpos hhour hst hkey hes
    exact hm.bound

def routerConfig : RateLimitConfig := ⟨100, 10, 1000000000, "ratelimit:", ["internal"], false⟩

/-- Two requests, an hour and a half apart, with another client and a
cleanup in between. -/
def idleClient : List LimiterEvent :=
  [.allow "alice" 0 0 0 false, .allow "bob" 5 5 5 false, .cleanup (hour + hour / 2),
    .allow "alice" (2 * hour) (2 * hour) (2 * hour) false]

theorem token_bucket_bound_idle :
    (allowedIn "alice" 0 (2 * hour)
        (Limiting.run (newTokenBucketLimiter false routerConfig) idleClient).2 : ℚ)
      ≤ 100 + Duration.seconds (2 * hour - 0) * (10 / Duration.seconds 1000000000) := by
  have hpos : (newTokenBucketLimiter false routerConfig).Positive :=
    ⟨by decide, by decide, by decide⟩
  have hbound := token_bucket_bound rfl hpos (by decide +kernel)
    (by decide : Chronological idleClient) (by decide : "alice" ∉ ["internal"])
  exact hbound.2.2.1 0 (2 * hour) (by decide)

end TradingBackend
