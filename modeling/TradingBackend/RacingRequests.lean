import TradingBackend.RateBound
import TradingBackend.Trace

/-!
# Requests at the same time

`allowInMemory` as goroutines run it at once. `GetOrCreate` answers the
bucket of the client in a wrapper with a mutex, and the wrapper is made for
the call: every call locks a mutex that nobody else has, and nothing keeps
two of them from working on the same bucket. A step here is one read or
write of a field of the bucket; each of them is atomic.

A bucket is known by its client and by how many were made for the client
before. A call goes on with the bucket it has got when a cleanup takes the
bucket out of the map.

As long as the calls of a client do not overlap, they are the calls of
`Limiting.run` (`Follows`), so that what is proved there about one call
after the other is true of them. If two of them overlap, nothing is left of
it (`Duel`): a refill that was computed before the other call took its
token brings the token back.

Left out: the fields of the result other than `Allowed`, and the
whitelist, which is asked before.
-/

namespace TradingBackend

/-- The buckets that were made for a client, and the one that is in the map. -/
structure BucketSlot where
  current : Option Nat
  made : Nat
  heap : Nat → Bucket

/-- A call of `allowInMemory` that has got its bucket. -/
structure BucketCall where
  clientKey : String
  ref : Nat
  created : Time

inductive CallPhase where
  | locked
  | elapsed (now : Time) (tokensToAdd : ℚ)
  | refilled (now : Time) (tokens : ℚ)
  | stored (now : Time)
  | stamped (now : Time)
  | allowed (now : Time)
  | took (now : Time) (tokens : ℚ)

/-- The steps of the calls, and a pass of `cleanupRoutine`. -/
inductive CallEvent (ι : Type) where
  | get (i : ι) (clientKey : String) (created : Time)
  | look (i : ι) (now : Time)
  | load (i : ι)
  | store (i : ι)
  | stamp (i : ι)
  | pass (i : ι)
  | take (i : ι)
  | answer (i : ι) (call : BucketCall) (now : Time) (allowed : Bool)
  | cleanup (now : Time)

namespace CallEvent

variable {ι : Type}

def answered (key : String) : CallEvent ι → Option (Time × Bool)
  | .answer _ call now allowed => if call.clientKey = key then some (now, allowed) else none
  | _ => none

/-- The call as one step, at the moment of its answer. -/
def request (key : String) : CallEvent ι → Option LimiterEvent
  | .answer _ call now _ =>
      if call.clientKey = key then some (.allow key call.created call.created now false) else none
  | .cleanup now => some (.cleanup now)
  | _ => none

end CallEvent

/-- The store and the goroutines that are inside of `allowInMemory`. -/
structure RacingStore (ι : Type) where
  slots : String → BucketSlot
  callers : ι → Option (BucketCall × CallPhase)

namespace RacingStore

variable {ι : Type}

def new : RacingStore ι := ⟨fun _ => ⟨none, 0, fun _ => ⟨0, 0, 0, 0⟩⟩, fun _ => none⟩

def bucket (s : RacingStore ι) (call : BucketCall) : Bucket :=
  (s.slots call.clientKey).heap call.ref

def setSlot (s : RacingStore ι) (key : String) (slot : BucketSlot) : RacingStore ι :=
  { s with slots := Function.update s.slots key slot }

def write (s : RacingStore ι) (call : BucketCall) (b : Bucket) : RacingStore ι :=
  let slot := s.slots call.clientKey
  s.setSlot call.clientKey { slot with heap := Function.update slot.heap call.ref b }

def make (s : RacingStore ι) (tbl : TokenBucketLimiter) (key : String) (created : Time) :
    RacingStore ι :=
  let slot := s.slots key
  let tokensPerSecond := tbl.refillRate / tbl.refillInterval.seconds
  s.setSlot key ⟨some slot.made, slot.made + 1,
    Function.update slot.heap slot.made ⟨tbl.maxTokens, created, tbl.maxTokens, tokensPerSecond⟩⟩

/-- One pass of `cleanupRoutine`. -/
def cleanup (s : RacingStore ι) (now : Time) : RacingStore ι :=
  { s with
    slots := fun key =>
      let slot := s.slots key
      { slot with current := slot.current.filter fun r => ¬hour < now - (slot.heap r).lastRefill } }

/-! ## What concerns a client -/

/-- The call of the client that a goroutine is in. -/
def inside (s : RacingStore ι) (key : String) (i : ι) : Option (BucketCall × CallPhase) :=
  (s.callers i).filter fun c => c.1.clientKey = key

/-- No goroutine is in a call of the client. -/
def Idle (s : RacingStore ι) (key : String) : Prop := ∀ i, s.inside key i = none

/-- A call of the client begins, and buckets are cleaned up, when the last
call of the client has returned. -/
def Alone (key : String) (s : RacingStore ι) : CallEvent ι → Prop
  | .get _ key' _ => key' = key → s.Idle key
  | .cleanup _ => s.Idle key
  | _ => True

section

variable {s : RacingStore ι} {tbl : TokenBucketLimiter} {key key' : String} {i j : ι}
  {call : BucketCall} {phase : CallPhase} {b : Bucket} {slot : BucketSlot}

theorem inside_of_caller (hi : s.callers i = some (call, phase)) (hkey : call.clientKey = key) :
    s.inside key i = some (call, phase) := by
  rw [inside, hi, Option.filter_some, if_pos (decide_eq_true hkey)]

theorem inside_of_other (hi : s.callers i = some (call, phase)) (hkey : call.clientKey ≠ key) :
    s.inside key i = none := by
  rw [inside, hi, Option.filter_some, if_neg (by simpa using hkey)]

theorem inside_of_none (hi : s.callers i = none) : s.inside key i = none := by
  rw [inside, hi, Option.filter_none]

theorem setSlot_self : (s.setSlot key slot).slots key = slot := Function.update_self ..

theorem setSlot_of_ne (h : key ≠ key') : (s.setSlot key' slot).slots key = s.slots key :=
  Function.update_of_ne h ..

@[simp] theorem bucket_write : (s.write call b).bucket call = b := by
  simp only [bucket, write, setSlot_self, Function.update_self]

theorem bucket_make {created : Time} :
    (s.make tbl key created).bucket ⟨key, (s.slots key).made, created⟩ =
      ⟨tbl.maxTokens, created, tbl.maxTokens, tbl.rate⟩ := by
  simp only [bucket, make, setSlot_self, Function.update_self]
  rfl

theorem current_write : ((s.write call b).slots key).current = (s.slots key).current := by
  by_cases hkey : key = call.clientKey
  · rw [hkey, write, setSlot_self]
  · rw [write, setSlot_of_ne hkey]

@[simp] theorem write_bucket : s.write call (s.bucket call) = s := by
  simp only [write, setSlot, bucket, Function.update_eq_self]

end

/-! ## Steps -/

variable [DecidableEq ι]

def setCaller (s : RacingStore ι) (i : ι) (c : Option (BucketCall × CallPhase)) : RacingStore ι :=
  { s with callers := Function.update s.callers i c }

def move (s : RacingStore ι) (i : ι) (call : BucketCall) (phase : CallPhase) : RacingStore ι :=
  s.setCaller i (some (call, phase))

def leave (s : RacingStore ι) (i : ι) : RacingStore ι := s.setCaller i none

/-- One step of a goroutine. `GetOrCreate` and the cleanup hold the mutex of
the store; the rest of a call holds none that matters. -/
inductive Step (tbl : TokenBucketLimiter) (s : RacingStore ι) :
    CallEvent ι → RacingStore ι → Prop where
  | found {i key created r} (hi : s.callers i = none) (hr : (s.slots key).current = some r) :
      Step tbl s (.get i key created) (s.move i ⟨key, r, created⟩ .locked)
  | made {i key created} (hi : s.callers i = none) (hr : (s.slots key).current = none) :
      Step tbl s (.get i key created)
        ((s.make tbl key created).move i ⟨key, (s.slots key).made, created⟩ .locked)
  | look {i call now} (hi : s.callers i = some (call, .locked)) :
      Step tbl s (.look i now)
        (s.move i call (.elapsed now
          (Duration.seconds (now - (s.bucket call).lastRefill) * (s.bucket call).refillRate)))
  | load {i call now tokensToAdd} (hi : s.callers i = some (call, .elapsed now tokensToAdd)) :
      Step tbl s (.load i)
        (s.move i call (.refilled now
          (min ((s.bucket call).maxTokens : ℚ) ((s.bucket call).tokens + tokensToAdd))))
  | store {i call now tokens} (hi : s.callers i = some (call, .refilled now tokens)) :
      Step tbl s (.store i)
        ((s.write call { s.bucket call with tokens := tokens }).move i call (.stored now))
  | stamp {i call now} (hi : s.callers i = some (call, .stored now)) :
      Step tbl s (.stamp i)
        ((s.write call { s.bucket call with lastRefill := now }).move i call (.stamped now))
  | refuse {i call now} (hi : s.callers i = some (call, .stamped now))
      (h : ¬1 ≤ (s.bucket call).tokens) :
      Step tbl s (.answer i call now false) (s.leave i)
  | pass {i call now} (hi : s.callers i = some (call, .stamped now))
      (h : 1 ≤ (s.bucket call).tokens) :
      Step tbl s (.pass i) (s.move i call (.allowed now))
  | take {i call now} (hi : s.callers i = some (call, .allowed now)) :
      Step tbl s (.take i) (s.move i call (.took now (s.bucket call).tokens))
  | allow {i call now tokens} (hi : s.callers i = some (call, .took now tokens)) :
      Step tbl s (.answer i call now true)
        ((s.write call { s.bucket call with tokens := tokens - 1 }).leave i)
  | cleanup {now} : Step tbl s (.cleanup now) (s.cleanup now)

section

variable {s : RacingStore ι} {key : String} {i : ι} {call : BucketCall} {phase : CallPhase}

theorem inside_setCaller (c : Option (BucketCall × CallPhase)) :
    (s.setCaller i c).inside key =
      Function.update (s.inside key) i (c.filter fun c => c.1.clientKey = key) :=
  funext (Function.apply_update (fun _ c => c.filter fun c => c.1.clientKey = key) s.callers i c)

theorem inside_move (hkey : call.clientKey = key) :
    (s.move i call phase).inside key = Function.update (s.inside key) i (some (call, phase)) := by
  rw [move, inside_setCaller, Option.filter_some, if_pos (decide_eq_true hkey)]

theorem inside_move_other (hi : s.inside key i = none) (hkey : call.clientKey ≠ key) :
    (s.move i call phase).inside key = s.inside key := by
  rw [move, inside_setCaller, Option.filter_some, if_neg (by simpa using hkey), ← hi,
    Function.update_eq_self]

theorem inside_leave : (s.leave i).inside key = Function.update (s.inside key) i none := by
  rw [leave, inside_setCaller, Option.filter_none]

end

end RacingStore

/-! ## One call after the other -/

def Bucket.refilled (b : Bucket) (now : Time) : Bucket :=
  { b with
    tokens := min (b.maxTokens : ℚ)
      (b.tokens + Duration.seconds (now - b.lastRefill) * b.refillRate)
    lastRefill := now }

theorem Bucket.allow_of_le {b : Bucket} {now : Time} (h : 1 ≤ (b.refilled now).tokens) :
    (b.allow now).1 = { b.refilled now with tokens := (b.refilled now).tokens - 1 }
    ∧ (b.allow now).2.allowed = true := by
  simp only [allow]
  split
  · exact ⟨rfl, rfl⟩
  · exact absurd h ‹_›

theorem Bucket.allow_of_not_le {b : Bucket} {now : Time} (h : ¬1 ≤ (b.refilled now).tokens) :
    (b.allow now).1 = b.refilled now ∧ (b.allow now).2.allowed = false := by
  simp only [allow]
  split
  · exact absurd ‹_› h
  · exact ⟨rfl, rfl⟩

/-- What a call that began with the bucket `b`, and that nobody disturbs, has
made of it. -/
inductive CallPhase.Reached (b : Bucket) : CallPhase → Bucket → Prop where
  | locked : Reached b .locked b
  | elapsed {now} :
      Reached b (.elapsed now (Duration.seconds (now - b.lastRefill) * b.refillRate)) b
  | refilled {now} : Reached b (.refilled now (b.refilled now).tokens) b
  | stored {now} : Reached b (.stored now) { b with tokens := (b.refilled now).tokens }
  | stamped {now} : Reached b (.stamped now) (b.refilled now)
  | allowed {now} (h : 1 ≤ (b.refilled now).tokens) : Reached b (.allowed now) (b.refilled now)
  | took {now} (h : 1 ≤ (b.refilled now).tokens) :
      Reached b (.took now (b.refilled now).tokens) (b.refilled now)

namespace RacingStore

variable {ι : Type} [DecidableEq ι]

/-- The buckets of a client are those of a store that makes one call at a
time: one goroutine at most is in a call, which has not been made there. -/
inductive Follows (tbl : TokenBucketLimiter) (key : String) (s : RacingStore ι)
    (store : InMemoryStore) : Prop where
  | idle (hidle : s.Idle key)
      (hbucket : (s.slots key).current.map (s.slots key).heap = store.buckets key)
  | busy (i : ι) (call : BucketCall) (phase : CallPhase)
      (hinside : s.inside key = Function.update (fun _ => none) i (some (call, phase)))
      (hkey : call.clientKey = key) (hcurrent : (s.slots key).current = some call.ref)
      (hreached : phase.Reached (store.bucketFor tbl key call.created) (s.bucket call))

section

variable {tbl : TokenBucketLimiter} {key : String} {s s' : RacingStore ι} {store : InMemoryStore}
  {i : ι} {call : BucketCall} {phase phase' : CallPhase} {b : Bucket} {e : CallEvent ι}
  {es : List (CallEvent ι)}

theorem Follows.other (h : Follows tbl key s store) (hslot : s'.slots key = s.slots key)
    (hinside : s'.inside key = s.inside key) : Follows tbl key s' store := by
  cases h with
  | idle hidle hbucket =>
      refine .idle (fun j => ?_) (by rw [hslot, hbucket])
      rw [hinside, hidle j]
  | busy i call phase hold hkey hcurrent hreached =>
      refine .busy i call phase (by rw [hinside, hold]) hkey (by rw [hslot, hcurrent]) ?_
      rw [bucket, hkey] at hreached ⊢
      rwa [hslot]

theorem Follows.of_caller (h : Follows tbl key s store)
    (hi : s.callers i = some (call, phase)) (hkey : call.clientKey = key) :
    s.inside key = Function.update (fun _ => none) i (some (call, phase))
    ∧ (s.slots key).current = some call.ref
    ∧ phase.Reached (store.bucketFor tbl key call.created) (s.bucket call) := by
  have hin := inside_of_caller hi hkey
  cases h with
  | idle hidle _ =>
      rw [hidle i] at hin
      cases hin
  | busy j call' phase' hold _ hcurrent hreached =>
      by_cases hij : i = j
      · subst hij
        rw [hold, Function.update_self] at hin
        cases hin
        exact ⟨hold, hcurrent, hreached⟩
      · rw [hold, Function.update_of_ne hij] at hin
        cases hin

theorem Follows.advance (h : Follows tbl key s store) (hi : s.callers i = some (call, phase))
    (hreach : ∀ b₀, phase.Reached b₀ (s.bucket call) → phase'.Reached b₀ b) :
    Follows tbl key ((s.write call b).move i call phase') store := by
  by_cases hkey : call.clientKey = key
  · obtain ⟨hinside, hcurrent, hreached⟩ := h.of_caller hi hkey
    refine .busy i call phase' ?_ hkey ?_ ?_
    · rw [inside_move hkey]
      change Function.update (s.inside key) i _ = _
      rw [hinside, Function.update_idem]
    · change ((s.write call b).slots key).current = _
      rw [current_write, hcurrent]
    · change phase'.Reached _ ((s.write call b).bucket call)
      rw [bucket_write]
      exact hreach _ hreached
  · refine h.other (setSlot_of_ne (Ne.symm hkey)) ?_
    exact inside_move_other (inside_of_other hi hkey) hkey

theorem Follows.reads (h : Follows tbl key s store) (hi : s.callers i = some (call, phase))
    (hreach : ∀ b₀, phase.Reached b₀ (s.bucket call) → phase'.Reached b₀ (s.bucket call)) :
    Follows tbl key (s.move i call phase') store := by
  have hadvance := h.advance hi hreach
  rwa [write_bucket] at hadvance

theorem Follows.returns (h : Follows tbl key s store) (hi : s.callers i = some (call, phase))
    (hkey : call.clientKey = key) :
    Follows tbl key ((s.write call b).leave i) (store.set key b) := by
  obtain ⟨hinside, hcurrent, -⟩ := h.of_caller hi hkey
  refine .idle (fun j => ?_) ?_
  · rw [inside_leave]
    change Function.update (s.inside key) i none j = none
    rw [hinside, Function.update_idem, Function.update_eq_self]
  · change ((s.write call b).slots key).current.map ((s.write call b).slots key).heap = _
    rw [current_write, hcurrent, Option.map_some, InMemoryStore.set_self, ← hkey]
    exact congrArg some bucket_write

theorem Follows.other_returns (h : Follows tbl key s store)
    (hi : s.callers i = some (call, phase)) (hkey : call.clientKey ≠ key) :
    Follows tbl key ((s.write call b).leave i) store := by
  refine h.other (setSlot_of_ne (Ne.symm hkey)) ?_
  rw [inside_leave]
  change Function.update (s.inside key) i none = s.inside key
  rw [← inside_of_other hi hkey, Function.update_eq_self]

theorem Follows.cleanup (h : Follows tbl key s store) (hidle : s.Idle key) (now : Time) :
    Follows tbl key (s.cleanup now) (store.cleanup now) := by
  cases h with
  | idle _ hbucket =>
      refine .idle hidle ?_
      change Option.map _ (Option.filter _ _) = Option.filter _ _
      rw [← hbucket]
      cases (s.slots key).current with
      | none => rfl
      | some r =>
          rw [Option.map_some, Option.filter_some, Option.filter_some]
          split <;> rfl
  | busy i call phase hinside =>
      have hnone := hidle i
      rw [hinside, Function.update_self] at hnone
      cases hnone

theorem Follows.get {created : Time} (h : Follows tbl key s store) (hidle : s.Idle key)
    (hstep : s.Step tbl (.get i key created) s') : Follows tbl key s' store := by
  have hinside : s.inside key = fun _ => none := funext hidle
  have hbucket : (s.slots key).current.map (s.slots key).heap = store.buckets key := by
    cases h with
    | idle _ hbucket => exact hbucket
    | busy j _ _ hbusy =>
        have hnone := hidle j
        rw [hbusy, Function.update_self] at hnone
        cases hnone
  cases hstep with
  | @found _ _ _ r hi hr =>
      refine .busy i ⟨key, r, created⟩ .locked ?_ rfl hr ?_
      · rw [inside_move rfl, hinside]
      · rw [hr, Option.map_some] at hbucket
        rw [InMemoryStore.bucketFor_some hbucket.symm]
        exact .locked
  | made hi hr =>
      refine .busy i ⟨key, (s.slots key).made, created⟩ .locked ?_ rfl ?_ ?_
      · rw [inside_move rfl]
        change Function.update (s.inside key) i _ = _
        rw [hinside]
      · change ((s.make tbl key created).slots key).current = _
        rw [make, setSlot_self]
      · rw [hr, Option.map_none] at hbucket
        change CallPhase.Reached _ .locked ((s.make tbl key created).bucket _)
        rw [bucket_make, InMemoryStore.bucketFor, ← hbucket]
        exact .locked

theorem Follows.get_other {key' : String} {created : Time} (h : Follows tbl key s store)
    (hkey : key' ≠ key) (hstep : s.Step tbl (.get i key' created) s') :
    Follows tbl key s' store := by
  cases hstep with
  | found hi hr => exact h.other rfl (inside_move_other (inside_of_none hi) hkey)
  | made hi hr =>
      exact h.other (setSlot_of_ne (Ne.symm hkey)) (inside_move_other (inside_of_none hi) hkey)

/-- A step either is none of the store's, or is the answer of a call that was
made at once, or is a cleanup. -/
theorem Follows.step (h : Follows tbl key s store) (hstep : s.Step tbl e s')
    (halone : s.Alone key e) :
    (Follows tbl key s' store ∧ e.request key = none ∧ e.answered key = none)
    ∨ (∃ created now, let b := store.bucketFor tbl key created
        Follows tbl key s' (store.set key (b.allow now).1)
        ∧ e.request key = some (.allow key created created now false)
        ∧ e.answered key = some (now, (b.allow now).2.allowed))
    ∨ ∃ now, Follows tbl key s' (store.cleanup now)
        ∧ e.request key = some (.cleanup now) ∧ e.answered key = none := by
  cases hstep with
  | @found i key' created r hi hr =>
      refine Or.inl ⟨?_, rfl, rfl⟩
      by_cases hkey : key' = key
      · subst hkey
        exact h.get (halone rfl) (.found hi hr)
      · exact h.get_other hkey (.found hi hr)
  | @made i key' created hi hr =>
      refine Or.inl ⟨?_, rfl, rfl⟩
      by_cases hkey : key' = key
      · subst hkey
        exact h.get (halone rfl) (.made hi hr)
      · exact h.get_other hkey (.made hi hr)
  | look hi =>
      refine Or.inl ⟨h.reads hi fun b₀ hb => ?_, rfl, rfl⟩
      generalize s.bucket _ = b at hb ⊢
      cases hb
      exact .elapsed
  | load hi =>
      refine Or.inl ⟨h.reads hi fun b₀ hb => ?_, rfl, rfl⟩
      generalize s.bucket _ = b at hb ⊢
      cases hb
      exact .refilled
  | store hi =>
      refine Or.inl ⟨h.advance hi fun b₀ hb => ?_, rfl, rfl⟩
      generalize s.bucket _ = b at hb ⊢
      cases hb
      exact .stored
  | stamp hi =>
      refine Or.inl ⟨h.advance hi fun b₀ hb => ?_, rfl, rfl⟩
      generalize s.bucket _ = b at hb ⊢
      cases hb
      exact .stamped
  | pass hi hone =>
      refine Or.inl ⟨h.reads hi fun b₀ hb => ?_, rfl, rfl⟩
      generalize s.bucket _ = b at hb hone ⊢
      cases hb
      exact .allowed hone
  | take hi =>
      refine Or.inl ⟨h.reads hi fun b₀ hb => ?_, rfl, rfl⟩
      generalize s.bucket _ = b at hb ⊢
      cases hb with
      | allowed hone => exact .took hone
  | @refuse i call now hi hnone =>
      by_cases hkey : call.clientKey = key
      · obtain ⟨-, -, hreached⟩ := h.of_caller hi hkey
        have hreturn := h.returns (b := s.bucket call) hi hkey
        rw [write_bucket] at hreturn
        generalize s.bucket call = b at hreached hreturn hnone
        cases hreached
        obtain ⟨hbucket, hallowed⟩ := Bucket.allow_of_not_le hnone
        refine Or.inr (Or.inl ⟨call.created, now, ?_, if_pos hkey, ?_⟩)
        · rwa [hbucket]
        · rw [hallowed]
          exact if_pos hkey
      · have hreturn := h.other_returns (b := s.bucket call) hi hkey
        rw [write_bucket] at hreturn
        exact Or.inl ⟨hreturn, if_neg hkey, if_neg hkey⟩
  | @allow i call now tokens hi =>
      by_cases hkey : call.clientKey = key
      · obtain ⟨-, -, hreached⟩ := h.of_caller hi hkey
        have hreturn := h.returns (b := { s.bucket call with tokens := tokens - 1 }) hi hkey
        generalize s.bucket call = b at hreached hreturn
        cases hreached with
        | took hone =>
            obtain ⟨hbucket, hallowed⟩ := Bucket.allow_of_le hone
            refine Or.inr (Or.inl ⟨call.created, now, ?_, if_pos hkey, ?_⟩)
            · rwa [hbucket]
            · rw [hallowed]
              exact if_pos hkey
      · exact Or.inl ⟨h.other_returns hi hkey, if_neg hkey, if_neg hkey⟩
  | @cleanup now => exact Or.inr (Or.inr ⟨now, h.cleanup halone now, rfl, rfl⟩)

/-- In every run in which the calls of the client do not overlap. -/
theorem follows (hback : tbl.backend = .memory newInMemoryStore)
    (hkey : key ∉ tbl.whitelistedKeys)
    (h : Trace (Where (Step tbl) (Alone key)) (new : RacingStore ι) es s) :
    ∃ store, (Limiting.run tbl (es.filterMap (CallEvent.request key))).1.limiter =
        { tbl with backend := .memory store }
      ∧ es.filterMap (CallEvent.answered key) =
        (Limiting.run tbl (es.filterMap (CallEvent.request key))).2.map
          (fun d => (d.time, d.result.allowed))
      ∧ Follows tbl key s store := by
  induction h with
  | nil =>
      refine ⟨newInMemoryStore, ?_, rfl, .idle (fun _ => rfl) rfl⟩
      rw [← hback]
      rfl
  | @snoc es s e s' _ hnext ih =>
      obtain ⟨halone, hstep⟩ := hnext
      obtain ⟨store, hlimiter, hanswers, hfollows⟩ := ih
      rw [history_snoc, history_snoc]
      rcases hfollows.step hstep halone with ⟨hfollows', hrequest, hanswered⟩
        | ⟨created, now, hfollows', hrequest, hanswered⟩ | ⟨now, hfollows', hrequest, hanswered⟩
      · rw [hrequest, hanswered, Option.toList_none, Option.toList_none, List.append_nil,
          List.append_nil]
        exact ⟨store, hlimiter, hanswers, hfollows'⟩
      · rw [hrequest, hanswered, Option.toList_some, Option.toList_some, Limiting.run_append]
        obtain ⟨store', hlimiter', hmemory⟩ :=
          Limiting.step_memory hlimiter (.allow key created created now false)
        refine ⟨store', hlimiter', ?_⟩
        generalize (Limiting.step _ _).2 = ds' at hmemory ⊢
        cases hmemory with
        | whitelisted hin => exact absurd hin hkey
        | decided _ =>
            rw [hanswers, List.map_append]
            exact ⟨rfl, hfollows'⟩
      · rw [hrequest, hanswered, Option.toList_some, Option.toList_none, List.append_nil,
          Limiting.run_append]
        obtain ⟨store', hlimiter', hmemory⟩ := Limiting.step_memory hlimiter (.cleanup now)
        refine ⟨store', hlimiter', ?_⟩
        generalize (Limiting.step _ _).2 = ds' at hmemory ⊢
        cases hmemory
        exact ⟨hanswers, hfollows'⟩

end

/-! ## Two calls at a time -/

/-- Two goroutines and one bucket: goroutine `i` is in the phase `mine` of a
call of the client and the other one in the phase `theirs`, if they are in a
call. -/
structure Duel (key : String) (t : Time) (s : RacingStore Bool) (i : Bool) (b : Bucket)
    (mine theirs : Option CallPhase) : Prop where
  mine : s.callers i = mine.map (Prod.mk ⟨key, 0, t⟩)
  theirs : s.callers (!i) = theirs.map (Prod.mk ⟨key, 0, t⟩)
  current : (s.slots key).current = some 0
  bucket : (s.slots key).heap 0 = b

namespace Duel

variable {tbl : TokenBucketLimiter} {key : String} {t : Time} {s : RacingStore Bool} {i : Bool}
  {b : Bucket} {mine theirs : Option CallPhase} {phase : CallPhase}

theorem swap (h : Duel key t s i b mine theirs) : Duel key t s (!i) b theirs mine :=
  ⟨h.theirs, by rw [Bool.not_not, h.mine], h.current, h.bucket⟩

theorem setCaller (h : Duel key t s i b mine theirs) (mine' : Option CallPhase) :
    Duel key t (s.setCaller i (mine'.map (Prod.mk ⟨key, 0, t⟩))) i b mine' theirs :=
  ⟨Function.update_self .., (Function.update_of_ne (Bool.not_ne_self i) ..).trans h.theirs,
    h.current, h.bucket⟩

theorem write (h : Duel key t s i b mine theirs) (b' : Bucket) :
    Duel key t (s.write ⟨key, 0, t⟩ b') i b' mine theirs :=
  ⟨h.mine, h.theirs, current_write.trans h.current, bucket_write⟩

variable (tbl)

theorem get (h : Duel key t s i b none theirs) :
    ∃ s', Step tbl s (.get i key t) s' ∧ Duel key t s' i b (some .locked) theirs :=
  ⟨_, .found h.mine h.current, h.setCaller (some .locked)⟩

theorem look (h : Duel key t s i b (some .locked) theirs) (now : Time) :
    ∃ s', Step tbl s (.look i now) s'
      ∧ Duel key t s' i b
          (some (.elapsed now (Duration.seconds (now - b.lastRefill) * b.refillRate))) theirs := by
  obtain rfl := h.bucket
  exact ⟨_, .look h.mine, h.setCaller (some _)⟩

theorem load {now : Time} {tokensToAdd : ℚ}
    (h : Duel key t s i b (some (.elapsed now tokensToAdd)) theirs) :
    ∃ s', Step tbl s (.load i) s'
      ∧ Duel key t s' i b
          (some (.refilled now (min (b.maxTokens : ℚ) (b.tokens + tokensToAdd)))) theirs := by
  obtain rfl := h.bucket
  exact ⟨_, .load h.mine, h.setCaller (some _)⟩

theorem store {now : Time} {tokens : ℚ}
    (h : Duel key t s i b (some (.refilled now tokens)) theirs) :
    ∃ s', Step tbl s (.store i) s'
      ∧ Duel key t s' i { b with tokens := tokens } (some (.stored now)) theirs := by
  obtain rfl := h.bucket
  exact ⟨_, .store h.mine, (h.write _).setCaller (some _)⟩

theorem stamp {now : Time} (h : Duel key t s i b (some (.stored now)) theirs) :
    ∃ s', Step tbl s (.stamp i) s'
      ∧ Duel key t s' i { b with lastRefill := now } (some (.stamped now)) theirs := by
  obtain rfl := h.bucket
  exact ⟨_, .stamp h.mine, (h.write _).setCaller (some _)⟩

theorem pass {now : Time} (h : Duel key t s i b (some (.stamped now)) theirs)
    (hone : 1 ≤ b.tokens) :
    ∃ s', Step tbl s (.pass i) s' ∧ Duel key t s' i b (some (.allowed now)) theirs := by
  obtain rfl := h.bucket
  exact ⟨_, .pass h.mine hone, h.setCaller (some _)⟩

theorem take {now : Time} (h : Duel key t s i b (some (.allowed now)) theirs) :
    ∃ s', Step tbl s (.take i) s' ∧ Duel key t s' i b (some (.took now b.tokens)) theirs := by
  obtain rfl := h.bucket
  exact ⟨_, .take h.mine, h.setCaller (some _)⟩

theorem allow {now : Time} {tokens : ℚ} (h : Duel key t s i b (some (.took now tokens)) theirs) :
    ∃ s', Step tbl s (.answer i ⟨key, 0, t⟩ now true) s'
      ∧ Duel key t s' i { b with tokens := tokens - 1 } none theirs := by
  obtain rfl := h.bucket
  exact ⟨_, .allow h.mine, (h.write _).setCaller none⟩

/-- A call that finds a full bucket, up to its refill. -/
theorem refill {max : Int} {rate : ℚ} (h : Duel key t s i ⟨max, t, max, rate⟩ none theirs) :
    ∃ s', Trace (Step tbl) s [.get i key t, .look i t, .load i] s'
      ∧ Duel key t s' i ⟨max, t, max, rate⟩ (some (.refilled t max)) theirs := by
  obtain ⟨s₁, hs₁, h₁⟩ := h.get tbl
  obtain ⟨s₂, hs₂, h₂⟩ := h₁.look tbl t
  obtain ⟨s₃, hs₃, h₃⟩ := h₂.load tbl
  refine ⟨s₃, ((Trace.nil.snoc hs₁).snoc hs₂).snoc hs₃, ?_⟩
  simpa [Duration.seconds] using h₃

/-- Goroutine `i` fills the bucket and passes the check. Before it takes its
token the other one begins a call, and is now the one that is about to fill
the bucket. -/
theorem round {tokens : ℚ} {max : Int} {rate : ℚ}
    (h : Duel key t s i ⟨tokens, t, max, rate⟩ (some (.refilled t max)) none) (hmax : 1 ≤ max) :
    ∃ es s', Trace (Step tbl) s es s'
      ∧ Duel key t s' (!i) ⟨max - 1, t, max, rate⟩ (some (.refilled t max)) none
      ∧ es.filterMap (CallEvent.answered key) = [(t, true)] := by
  have hone : (1 : ℚ) ≤ max := by exact_mod_cast hmax
  obtain ⟨s₁, hs₁, h₁⟩ := h.store tbl
  obtain ⟨s₂, hs₂, h₂⟩ := h₁.stamp tbl
  obtain ⟨s₃, hs₃, h₃⟩ := h₂.pass tbl hone
  obtain ⟨s₄, hs₄, h₄⟩ := h₃.swap.refill tbl
  have h₄ := h₄.swap
  rw [Bool.not_not] at h₄
  obtain ⟨s₅, hs₅, h₅⟩ := h₄.take tbl
  obtain ⟨s₆, hs₆, h₆⟩ := h₅.allow tbl
  refine ⟨_, s₆, (((((Trace.nil.snoc hs₁).snoc hs₂).snoc hs₃).append hs₄).snoc hs₅).snoc hs₆,
    h₆.swap, ?_⟩
  have hanswer : (CallEvent.answer i ⟨key, 0, t⟩ t true).answered key = some (t, true) :=
    if_pos rfl
  -- the last step is the only answer
  change List.filterMap _ [CallEvent.answer i ⟨key, 0, t⟩ t true] = _
  rw [List.filterMap_cons_some hanswer, List.filterMap_nil]

theorem rounds {tokens : ℚ} {max : Int} {rate : ℚ}
    (h : Duel key t s i ⟨tokens, t, max, rate⟩ (some (.refilled t max)) none) (hmax : 1 ≤ max)
    (n : Nat) :
    ∃ es s', Trace (Step tbl) s es s'
      ∧ es.filterMap (CallEvent.answered key) = List.replicate n (t, true) := by
  induction n generalizing s i tokens with
  | zero => exact ⟨[], s, .nil, rfl⟩
  | succ n ih =>
      obtain ⟨es, s', hround, hnext, hanswer⟩ := h.round tbl hmax
      obtain ⟨es', s'', hrest, hanswers⟩ := ih hnext
      refine ⟨es ++ es', s'', hround.append hrest, ?_⟩
      rw [List.filterMap_append, hanswer, hanswers]
      rfl

end Duel

theorem duel_start (tbl : TokenBucketLimiter) (key : String) (t : Time) :
    ∃ es s, Trace (Step tbl) new es s
      ∧ Duel key t s false ⟨tbl.maxTokens, t, tbl.maxTokens, tbl.rate⟩
          (some (.refilled t tbl.maxTokens)) none
      ∧ es.filterMap (CallEvent.answered key) = [] := by
  have h₀ : Duel key t (new.make tbl key t) false ⟨tbl.maxTokens, t, tbl.maxTokens, tbl.rate⟩
      none none :=
    ⟨rfl, rfl, congrArg BucketSlot.current setSlot_self, bucket_make⟩
  have h₁ := h₀.setCaller (some .locked)
  obtain ⟨s₂, hs₂, h₂⟩ := h₁.look tbl t
  obtain ⟨s₃, hs₃, h₃⟩ := h₂.load tbl
  refine ⟨_, s₃, ((Trace.nil.snoc (.made rfl rfl)).snoc hs₂).snoc hs₃, ?_, rfl⟩
  simpa [Duration.seconds] using h₃

end RacingStore

/-- The calls of a client that do not overlap, with each other or with a
cleanup, are those of the limiter that makes one call after the other. Two
goroutines whose calls overlap can be allowed any number of requests at one
moment, however small the bucket. -/
theorem overlapping_requests_unlimited {tbl : TokenBucketLimiter}
    (hback : tbl.backend = .memory newInMemoryStore) (hmax : 1 ≤ tbl.maxTokens) {key : String}
    (hkey : key ∉ tbl.whitelistedKeys) :
    (∀ (ι : Type) [DecidableEq ι] (es : List (CallEvent ι)) s,
      Trace (Where (RacingStore.Step tbl) (RacingStore.Alone key)) .new es s →
        es.filterMap (CallEvent.answered key) =
          (Limiting.run tbl (es.filterMap (CallEvent.request key))).2.map
            fun d => (d.time, d.result.allowed))
    ∧ ∀ t n, ∃ (es : List (CallEvent Bool)) (s : RacingStore Bool),
        Trace (RacingStore.Step tbl) .new es s
        ∧ es.filterMap (CallEvent.answered key) = List.replicate n (t, true) := by
  constructor
  · intro ι _ es s h
    obtain ⟨_, -, hanswers, -⟩ := RacingStore.follows hback hkey h
    exact hanswers
  · intro t n
    obtain ⟨es, s, hstart, hduel, hnone⟩ := RacingStore.duel_start tbl key t
    obtain ⟨es', s', hrounds, hanswers⟩ := hduel.rounds tbl hmax n
    refine ⟨es ++ es', s', hstart.append hrounds, ?_⟩
    rw [List.filterMap_append, hnone, hanswers, List.nil_append]

/-- A bucket of 100 tokens, and a thousand requests. -/
theorem overlapping_requests_thousand :
    ∃ (es : List (CallEvent Bool)) (s : RacingStore Bool),
      Trace (RacingStore.Step (newTokenBucketLimiter false routerConfig)) .new es s
      ∧ es.filterMap (CallEvent.answered "alice") = List.replicate 1000 (0, true) :=
  (overlapping_requests_unlimited rfl (by decide) (by decide : "alice" ∉ ["internal"])).2 0 1000

end TradingBackend
