import TradingBackend.Handlers
import TradingBackend.Trace

/-!
# Idempotency keys

`HandleSubmitOrder` of `api/handlers.go` as the steps of many requests at
a time: the `GET` of the cached response, making the order, `SubmitOrder`,
the `SET` of the response. Redis runs a command at a time and does not
fail, and a key lives longer than the run. `SubmitOrder` is one step: the
command is handled by the worker, or the call returns its error.

`KeyView` is what one key sees of all this: who works for it, and with
which order id. Every step of the handlers is a step of the key, or none
(`Step.view`), and at most one order comes of a key if nobody looks the
key up while somebody works for it.
-/

namespace TradingBackend

abbrev ReqID := Nat

/-- The parts of an HTTP request that `HandleSubmitOrder` reads. The body
is what the JSON decoder makes of it; no header is the empty string. -/
structure HTTPRequest where
  method : String
  idempotencyKey : String
  body : Except String OrderRequest

inductive SubmitError where
  | notRunning
  | channelFull

def SubmitError.text : SubmitError → String
  | .notRunning => "matching engine is not running"
  | .channelFull => "command channel is full"

/-- The key under which `checkIdempotencyKey` and
`cacheIdempotencyResponse` find a response, if there is an
`Idempotency-Key`; `hash` is `hashIdempotencyKey`. -/
def HTTPRequest.redisKey (hash : String → String) (r : HTTPRequest) : Option String :=
  if r.idempotencyKey = "" then none else some ("idempotency:" ++ hash r.idempotencyKey)

/-- Where `HandleSubmitOrder` is with a request. -/
inductive Handling where
  /-- Not there yet. -/
  | absent
  /-- Before `checkIdempotencyKey`. -/
  | checking (r : HTTPRequest)
  /-- Nothing was cached; before the body is decoded. -/
  | decoding (r : HTTPRequest)
  /-- Before `me.SubmitOrder(order)`. -/
  | submitting (r : HTTPRequest) (order : Order)
  /-- Before `cacheIdempotencyResponse`. -/
  | caching (r : HTTPRequest) (response : OrderResponse)
  | replied (r : HTTPRequest) (reply : Reply)

/-- The engine, Redis, and the requests. -/
structure Api (T : Type) where
  engine : MatchingEngine T
  redis : String → Option OrderResponse
  handlers : ReqID → Handling

inductive ApiEvent where
  | arrive (i : ReqID) (r : HTTPRequest)
  | get (i : ReqID) (r : HTTPRequest)
  | decode (i : ReqID) (r : HTTPRequest)
  | refused (i : ReqID) (r : HTTPRequest)
  | submit (i : ReqID) (r : HTTPRequest) (order : Order)
  | set (i : ReqID) (r : HTTPRequest)

variable {T : Type}

/-- An engine, an empty Redis and no requests. -/
def newApi (engine : MatchingEngine T) : Api T := ⟨engine, fun _ => none, fun _ => .absent⟩

def orderResponse (order current : Order) (trades : List Trade) (now : Time) : OrderResponse where
  success := true
  orderID := order.id
  order := current
  trades := trades
  message := "Order accepted and processed"
  timestamp := now
  replayed := false

namespace Api

def move (s : Api T) (i : ReqID) (g : Handling) : Api T :=
  { s with handlers := Function.update s.handlers i g }

variable [OrderedTree T Decimal LevelRef]

inductive Step (hash : String → String) (s : Api T) : ApiEvent → Api T → Prop where
  | arrive {i r} (h : s.handlers i = .absent) (hmethod : r.method = "POST") :
      Step hash s (.arrive i r) (s.move i (.checking r))
  | notAllowed {i r} (h : s.handlers i = .absent) (hmethod : r.method ≠ "POST") :
      Step hash s (.arrive i r) (s.move i (.replied r (.failed 405 "Method not allowed")))
  | noKey {i r} (h : s.handlers i = .checking r) (hkey : r.redisKey hash = none) :
      Step hash s (.get i r) (s.move i (.decoding r))
  | miss {i r k} (h : s.handlers i = .checking r) (hkey : r.redisKey hash = some k)
      (hget : s.redis k = none) : Step hash s (.get i r) (s.move i (.decoding r))
  | hit {i r k response} (h : s.handlers i = .checking r) (hkey : r.redisKey hash = some k)
      (hget : s.redis k = some response) :
      Step hash s (.get i r)
        (s.move i (.replied r (.accepted { response with replayed := true })))
  | invalidJSON {i r err} (h : s.handlers i = .decoding r) (hbody : r.body = .error err) :
      Step hash s (.decode i r)
        (s.move i (.replied r (.failed 400 ("Invalid JSON: " ++ err))))
  | reject {i r req id now reply} (h : s.handlers i = .decoding r) (hbody : r.body = .ok req)
      (hbuild : buildOrder req id now = .error reply) :
      Step hash s (.decode i r) (s.move i (.replied r reply))
  | build {i r req id now order} (h : s.handlers i = .decoding r) (hbody : r.body = .ok req)
      (hbuild : buildOrder req id now = .ok order) :
      Step hash s (.decode i r) (s.move i (.submitting r order))
  | refused {i r order} (h : s.handlers i = .submitting r order) (err : SubmitError) :
      Step hash s (.refused i r)
        (s.move i (.replied r (.failed 500 ("Failed to submit order: " ++ err.text))))
  | engineError {i r order fuel engine response err} (h : s.handlers i = .submitting r order)
      (hhandle : s.engine.handle fuel (.new order) = some (engine, response))
      (herror : response.error = some err) (text : String) :
      Step hash s (.submit i r order)
        ({ s with engine := engine }.move i
          (.replied r (.failed 500 ("Failed to submit order: " ++ text))))
  | submit {i r k order fuel engine response} (h : s.handlers i = .submitting r order)
      (hkey : r.redisKey hash = some k)
      (hhandle : s.engine.handle fuel (.new order) = some (engine, response))
      (herror : response.error = none) (now : Time) :
      Step hash s (.submit i r order)
        ({ s with engine := engine }.move i (.caching r
          (orderResponse order (engine.orderBook.orderAt s.engine.orderBook.nextOrder)
            response.trades now)))
  | submitNoKey {i r order fuel engine response} (h : s.handlers i = .submitting r order)
      (hkey : r.redisKey hash = none)
      (hhandle : s.engine.handle fuel (.new order) = some (engine, response))
      (herror : response.error = none) (now : Time) :
      Step hash s (.submit i r order)
        ({ s with engine := engine }.move i (.replied r (.accepted
          (orderResponse order (engine.orderBook.orderAt s.engine.orderBook.nextOrder)
            response.trades now))))
  | set {i r k response} (h : s.handlers i = .caching r response)
      (hkey : r.redisKey hash = some k) :
      Step hash s (.set i r)
        ({ s with redis := Function.update s.redis k (some response) }.move i
          (.replied r (.accepted response)))

end Api

theorem MatchingEngine.handle_new_error [OrderedTree T Decimal LevelRef]
    {me me' : MatchingEngine T} {fuel : Nat} {o : Order} {response : CommandResponse}
    (h : me.handle fuel (.new o) = some (me', response)) : response.error = none := by
  simp only [handle, processCommand] at h
  split at h
  · cases h
  · cases h
    rfl

theorem buildOrder_ne_accepted (req : OrderRequest) (id : UUID) (now : Time)
    (response : OrderResponse) : buildOrder req id now ≠ .error (.accepted response) := by
  unfold buildOrder
  split
  · nofun
  · split
    · nofun
    · split <;> nofun

/-! ## What a key sees -/

/-- A request, for a key: it has nothing to do with it, it works for it,
it has a response for it that is not stored yet, or it is answered with
the id of an order. -/
inductive Slot where
  | outside
  | working
  | holding (id : UUID)
  | answered (id : UUID)
deriving DecidableEq

def Slot.isBusy : Slot → Bool
  | .working | .holding _ => true
  | .outside | .answered _ => false

/-- A key: the id of the order in its cached response, and the requests. -/
structure KeyView where
  cached : Option UUID
  slot : ReqID → Slot

namespace KeyView

/-- What happens to a key. The label is the id of an order that is
submitted for it. -/
inductive Step (v : KeyView) : Option UUID → KeyView → Prop where
  | none : Step v none v
  | miss {i} (h : v.slot i = .outside) (hget : v.cached = .none)
      (halone : ∀ j, (v.slot j).isBusy = false) :
      Step v .none { v with slot := Function.update v.slot i .working }
  | hit {i id} (h : v.slot i = .outside) (hget : v.cached = some id) :
      Step v .none { v with slot := Function.update v.slot i (.answered id) }
  | leave {i} (h : v.slot i = .working) :
      Step v .none { v with slot := Function.update v.slot i .outside }
  | submit {i} (h : v.slot i = .working) (id : UUID) :
      Step v (some id) { v with slot := Function.update v.slot i (.holding id) }
  | set {i id} (h : v.slot i = .holding id) :
      Step v .none ⟨some id, Function.update v.slot i (.answered id)⟩

/-- The life of a key: nobody has asked, one request works for it, the
one that submitted the order holds the response, the response is stored.
`ids` are the ids of the orders submitted for it. -/
inductive Once (v : KeyView) (ids : List UUID) : Prop where
  | unused (hcached : v.cached = none) (hslot : ∀ j, v.slot j = .outside) (hids : ids = [])
  | working {i} (hcached : v.cached = none) (hi : v.slot i = .working)
      (hslot : ∀ j, j ≠ i → v.slot j = .outside) (hids : ids = [])
  | holding {i id} (hcached : v.cached = none) (hi : v.slot i = .holding id)
      (hslot : ∀ j, j ≠ i → v.slot j = .outside) (hids : ids = [id])
  | stored {id} (hcached : v.cached = some id)
      (hslot : ∀ j, v.slot j = .outside ∨ v.slot j = .answered id) (hids : ids = [id])

section

variable {v v' : KeyView} {ids : List UUID} {label : Option UUID} {i j : ReqID} {slot : Slot}

theorem update_outside (hslot : ∀ j, j ≠ i → v.slot j = .outside) (hj : j ≠ i) :
    Function.update v.slot i slot j = .outside := by
  rw [Function.update_of_ne hj]
  exact hslot j hj

/-- Nobody works for the key and nothing is stored. -/
theorem Once.of_idle (h : v.Once ids) (hget : v.cached = none)
    (halone : ∀ j, (v.slot j).isBusy = false) : (∀ j, v.slot j = .outside) ∧ ids = [] := by
  cases h with
  | unused _ hslot hids => exact ⟨hslot, hids⟩
  | @working i _ hi _ _ => have := halone i; rw [hi] at this; cases this
  | @holding i _ _ hi _ _ => have := halone i; rw [hi] at this; cases this
  | stored hcached _ _ => exact absurd (hget.symm.trans hcached) nofun

theorem Once.of_working (h : v.Once ids) (hi : v.slot i = .working) :
    v.cached = none ∧ (∀ j, j ≠ i → v.slot j = .outside) ∧ ids = [] := by
  cases h with
  | unused _ hslot _ => exact absurd ((hslot i).symm.trans hi) nofun
  | @working k hcached hk hslot hids =>
      have heq : i = k := by
        by_contra hne
        exact absurd ((hslot i hne).symm.trans hi) nofun
      exact ⟨hcached, heq ▸ hslot, hids⟩
  | @holding k _ _ hk hslot _ =>
      by_cases heq : i = k
      · subst heq
        exact absurd (hk.symm.trans hi) nofun
      · exact absurd ((hslot i heq).symm.trans hi) nofun
  | stored _ hslot _ => rcases hslot i with h | h <;> exact absurd (h.symm.trans hi) nofun

theorem Once.of_holding (h : v.Once ids) {id : UUID} (hi : v.slot i = .holding id) :
    (∀ j, j ≠ i → v.slot j = .outside) ∧ ids = [id] := by
  cases h with
  | unused _ hslot _ => exact absurd ((hslot i).symm.trans hi) nofun
  | @working k _ hk hslot _ =>
      by_cases heq : i = k
      · subst heq
        exact absurd (hk.symm.trans hi) nofun
      · exact absurd ((hslot i heq).symm.trans hi) nofun
  | @holding k id' _ hk hslot hids =>
      have heq : i = k := by
        by_contra hne
        exact absurd ((hslot i hne).symm.trans hi) nofun
      subst heq
      obtain rfl := Slot.holding.inj (hk.symm.trans hi)
      exact ⟨hslot, hids⟩
  | stored _ hslot _ => rcases hslot i with h | h <;> exact absurd (h.symm.trans hi) nofun

theorem Once.of_cached (h : v.Once ids) {id : UUID} (hget : v.cached = some id) :
    (∀ j, v.slot j = .outside ∨ v.slot j = .answered id) ∧ ids = [id] := by
  cases h with
  | unused hcached _ _ => exact absurd (hcached.symm.trans hget) nofun
  | working hcached _ _ _ => exact absurd (hcached.symm.trans hget) nofun
  | holding hcached _ _ _ => exact absurd (hcached.symm.trans hget) nofun
  | stored hcached hslot hids =>
      obtain rfl := Option.some.inj (hcached.symm.trans hget)
      exact ⟨hslot, hids⟩

theorem Once.step (h : v.Once ids) (hstep : v.Step label v') :
    v'.Once (ids ++ label.toList) := by
  cases hstep with
  | none => exact (List.append_nil ids).symm ▸ h
  | @miss i hi hget halone =>
      obtain ⟨hslot, rfl⟩ := h.of_idle hget halone
      exact .working hget (Function.update_self ..)
        (fun j hj => update_outside (fun j _ => hslot j) hj) rfl
  | @hit i id hi hget =>
      obtain ⟨hslot, rfl⟩ := h.of_cached hget
      refine .stored hget (fun j => ?_) rfl
      by_cases hj : j = i
      · subst hj
        exact Or.inr (Function.update_self ..)
      · show Function.update v.slot i _ j = _ ∨ Function.update v.slot i _ j = _
        rw [Function.update_of_ne hj]
        exact hslot j
  | @leave i hi =>
      obtain ⟨hcached, hslot, rfl⟩ := h.of_working hi
      refine .unused hcached (fun j => ?_) rfl
      by_cases hj : j = i
      · subst hj
        exact Function.update_self ..
      · exact update_outside hslot hj
  | @submit i hi id =>
      obtain ⟨hcached, hslot, rfl⟩ := h.of_working hi
      exact .holding hcached (Function.update_self ..) (fun j hj => update_outside hslot hj) rfl
  | @set i id hi =>
      obtain ⟨hslot, rfl⟩ := h.of_holding hi
      refine .stored rfl (fun j => ?_) rfl
      by_cases hj : j = i
      · subst hj
        exact Or.inr (Function.update_self ..)
      · exact Or.inl (update_outside hslot hj)

/-- What comes of it: one order at most, and the answers name it. -/
theorem Once.answered (h : v.Once ids) : ids.length ≤ 1
    ∧ ∀ i id, v.slot i = .answered id → ids = [id] := by
  cases h with
  | unused _ hslot hids =>
      exact ⟨by simp [hids], fun i id hi => absurd ((hslot i).symm.trans hi) nofun⟩
  | @working k _ hk hslot hids =>
      refine ⟨by simp [hids], fun i id hi => ?_⟩
      by_cases heq : i = k
      · subst heq
        exact absurd (hk.symm.trans hi) nofun
      · exact absurd ((hslot i heq).symm.trans hi) nofun
  | @holding k id' _ hk hslot hids =>
      refine ⟨by simp [hids], fun i id hi => ?_⟩
      by_cases heq : i = k
      · subst heq
        exact absurd (hk.symm.trans hi) nofun
      · exact absurd ((hslot i heq).symm.trans hi) nofun
  | stored _ hslot hids =>
      refine ⟨by simp [hids], fun i id hi => ?_⟩
      rcases hslot i with h | h
      · exact absurd (h.symm.trans hi) nofun
      · rw [← Slot.answered.inj (h.symm.trans hi)]
        exact hids

end

end KeyView

/-! ## The handlers, seen from a key -/

def Handling.slot (hash : String → String) (k : String) : Handling → Slot
  | .absent | .checking _ => .outside
  | .decoding r | .submitting r _ => if r.redisKey hash = some k then .working else .outside
  | .caching r response =>
      if r.redisKey hash = some k then .holding response.orderID else .outside
  | .replied r (.accepted response) =>
      if r.redisKey hash = some k then .answered response.orderID else .outside
  | .replied _ _ => .outside

theorem Handling.slot_caching {hash : String → String} {k : String} {r : HTTPRequest}
    (hk : r.redisKey hash = some k) (response : OrderResponse) :
    (Handling.caching r response).slot hash k = .holding response.orderID :=
  if_pos hk

theorem Handling.slot_accepted {hash : String → String} {k : String} {r : HTTPRequest}
    (hk : r.redisKey hash = some k) (response : OrderResponse) :
    (Handling.replied r (.accepted response)).slot hash k = .answered response.orderID :=
  if_pos hk

def Handling.request : Handling → Option HTTPRequest
  | .absent => none
  | .checking r | .decoding r | .submitting r _ | .caching r _ | .replied r _ => some r

theorem Handling.slot_other {hash : String → String} {k : String} {r : HTTPRequest} {g : Handling}
    (hne : r.redisKey hash ≠ some k) (hg : g.request = some r) : g.slot hash k = .outside := by
  cases g with
  | absent => rfl
  | checking => rfl
  | decoding => cases hg; exact if_neg hne
  | submitting => cases hg; exact if_neg hne
  | caching => cases hg; exact if_neg hne
  | replied r' reply =>
      cases hg
      cases reply with
      | accepted => exact if_neg hne
      | failed => rfl
      | invalid => rfl

def ApiEvent.submitted? (hash : String → String) (k : String) : ApiEvent → Option UUID
  | .submit _ r order => if r.redisKey hash = some k then some order.id else none
  | _ => none

namespace Api

def view (hash : String → String) (k : String) (s : Api T) : KeyView :=
  ⟨(s.redis k).map OrderResponse.orderID, fun i => (s.handlers i).slot hash k⟩

/-- A key that is not stored is looked up only when no request is between
an unsuccessful lookup of it and the end. -/
def LooksUpAlone (hash : String → String) (s : Api T) : ApiEvent → Prop
  | .get _ r => ∀ k, r.redisKey hash = some k → s.redis k = none →
      ∀ j, ((s.handlers j).slot hash k).isBusy = false
  | _ => True

section

variable {hash : String → String} {k : String} {s s' : Api T} {e : ApiEvent} {i : ReqID}
  {g : Handling}

theorem view_move (s : Api T) (i : ReqID) (g : Handling) :
    (s.move i g).view hash k =
      { s.view hash k with slot := Function.update (s.view hash k).slot i (g.slot hash k) } := by
  simp only [view, move, KeyView.mk.injEq, true_and]
  exact funext fun j => by
    by_cases hj : j = i
    · subst hj
      simp
    · simp [Function.update_of_ne hj]

theorem view_same (hg : g.slot hash k = (s.handlers i).slot hash k) :
    (s.move i g).view hash k = s.view hash k := by
  rw [view_move, hg]
  exact congrArg _ (Function.update_eq_self i (s.view hash k).slot)

theorem view_other {r : HTTPRequest} (hne : r.redisKey hash ≠ some k)
    (hi : (s.handlers i).request = some r) (hg : g.request = some r) :
    (s.move i g).view hash k = s.view hash k :=
  view_same ((Handling.slot_other hne hg).trans (Handling.slot_other hne hi).symm)

variable [OrderedTree T Decimal LevelRef]

/-- A step of the handlers is a step of the key, or nothing. -/
theorem Step.view (h : s.Step hash e s') (hok : s.LooksUpAlone hash e) :
    (s.view hash k).Step (e.submitted? hash k) (s'.view hash k) := by
  have hslot : ∀ {i g}, s.handlers i = g → (s.view hash k).slot i = g.slot hash k := by
    rintro i g rfl
    rfl
  cases h with
  | arrive h hmethod => rw [view_same (by rw [h]; rfl)]; exact .none
  | notAllowed h hmethod => rw [view_same (by rw [h]; rfl)]; exact .none
  | @noKey i r h hkey =>
      rw [view_other (r := r) (by rw [hkey]; nofun) (by rw [h]; rfl) rfl]
      exact .none
  | @miss i r k' h hkey hget =>
      by_cases hk : r.redisKey hash = some k
      · obtain rfl := Option.some.inj (hkey.symm.trans hk)
        rw [view_move, show (Handling.decoding r).slot hash k' = .working from if_pos hk]
        exact .miss (hslot h) (by simp [Api.view, hget]) (hok k' hkey hget)
      · rw [view_other hk (by rw [h]; rfl) rfl]
        exact .none
  | @hit i r k' response h hkey hget =>
      by_cases hk : r.redisKey hash = some k
      · obtain rfl := Option.some.inj (hkey.symm.trans hk)
        rw [view_move, Handling.slot_accepted hk]
        exact .hit (hslot h) (by simp [Api.view, hget])
      · rw [view_other hk (by rw [h]; rfl) rfl]
        exact .none
  | @invalidJSON i r err h hbody =>
      by_cases hk : r.redisKey hash = some k
      · rw [view_move]
        exact .leave ((hslot h).trans (if_pos hk))
      · rw [view_other hk (by rw [h]; rfl) rfl]
        exact .none
  | @reject i r req id now reply h hbody hbuild =>
      by_cases hk : r.redisKey hash = some k
      · have hout : (Handling.replied r reply).slot hash k = .outside := by
          cases reply with
          | accepted response => exact absurd hbuild (buildOrder_ne_accepted req id now response)
          | failed => rfl
          | invalid => rfl
        rw [view_move, hout]
        exact .leave ((hslot h).trans (if_pos hk))
      · rw [view_other hk (by rw [h]; rfl) rfl]
        exact .none
  | @build i r req id now order h hbody hbuild => rw [view_same (by rw [h]; rfl)]; exact .none
  | @refused i r order h err =>
      by_cases hk : r.redisKey hash = some k
      · rw [view_move]
        exact .leave ((hslot h).trans (if_pos hk))
      · rw [view_other hk (by rw [h]; rfl) rfl]
        exact .none
  | engineError h hhandle herror text =>
      rw [MatchingEngine.handle_new_error hhandle] at herror
      cases herror
  | @submit i r k' order fuel engine response h hkey hhandle herror now =>
      by_cases hk : r.redisKey hash = some k
      · rw [view_move, Handling.slot_caching hk, ApiEvent.submitted?, if_pos hk]
        exact .submit ((hslot h).trans (if_pos hk)) order.id
      · rw [view_other (s := { s with engine := engine }) hk (by rw [h]; rfl) rfl,
          ApiEvent.submitted?, if_neg hk]
        exact .none
  | @submitNoKey i r order fuel engine response h hkey hhandle herror now =>
      have hk : r.redisKey hash ≠ some k := by rw [hkey]; nofun
      rw [view_other (s := { s with engine := engine }) hk (by rw [h]; rfl) rfl,
        ApiEvent.submitted?, if_neg hk]
      exact .none
  | @set i r k' response h hkey =>
      by_cases hk : r.redisKey hash = some k
      · obtain rfl := Option.some.inj (hkey.symm.trans hk)
        rw [view_move, Handling.slot_accepted hk]
        have hstored := KeyView.Step.set ((hslot h).trans (if_pos hk))
        simpa [Api.view, ApiEvent.submitted?] using hstored
      · have hne : k ≠ k' := fun heq => hk (heq ▸ hkey)
        rw [view_other (s := { s with redis := _ }) hk (by rw [h]; rfl) rfl]
        simp only [Api.view, Function.update_of_ne hne]
        exact .none

theorem once {engine : MatchingEngine T} {es : List ApiEvent}
    (h : Trace (Where (Step hash) (LooksUpAlone hash)) (newApi engine) es s) (k : String) :
    (s.view hash k).Once (es.filterMap (ApiEvent.submitted? hash k)) := by
  refine h.invariant (P := fun es s =>
    (s.view hash k).Once (es.filterMap (ApiEvent.submitted? hash k)))
    (.unused rfl (fun _ => rfl) rfl) ?_
  rintro es s e s' honce ⟨hok, hstep⟩
  rw [history_snoc]
  exact honce.step (hstep.view hok)

end

end Api

/-- If a key that is not stored is looked up only when no other request is
working for it, at most one order is submitted for the key, and every
request of the key that is answered with success is answered with the id
of that order. -/
theorem one_order_per_key [OrderedTree T Decimal LevelRef] {hash : String → String}
    {engine : MatchingEngine T} {es : List ApiEvent} {s : Api T}
    (h : Trace (Where (Api.Step hash) (Api.LooksUpAlone hash)) (newApi engine) es s) (k : String) :
    (es.filterMap (ApiEvent.submitted? hash k)).length ≤ 1
    ∧ ∀ i r response, s.handlers i = .replied r (.accepted response) →
        r.redisKey hash = some k →
        es.filterMap (ApiEvent.submitted? hash k) = [response.orderID] := by
  obtain ⟨hlength, hanswered⟩ := (Api.once h k).answered
  refine ⟨hlength, fun i r response hi hk => hanswered i response.orderID ?_⟩
  show (s.handlers i).slot hash k = _
  rw [hi, Handling.slot_accepted hk]

def keyedRequest : HTTPRequest :=
  ⟨"POST", "retry-1", .ok ⟨"seller", "BTC-USD", "sell", "limit", 100, 5⟩⟩

theorem keyedRequest_redisKey : keyedRequest.redisKey id = some "idempotency:retry-1" := by
  decide

theorem keyedRequest_build (orderID : UUID) :
    buildOrder ⟨"seller", "BTC-USD", "sell", "limit", 100, 5⟩ orderID 0
      = .ok { sellFive with id := orderID } := by
  have hvalid : validateOrderRequest ⟨"seller", "BTC-USD", "sell", "limit", 100, 5⟩ = [] := by
    decide +kernel
  rw [buildOrder, if_neg (not_not.mpr hvalid)]
  rfl

theorem one_order_per_key_replayed :
    ∃ (s : Api (SortedItems Decimal LevelRef)) (es : List ApiEvent) (response : OrderResponse),
      Trace (Where (Api.Step id) (Api.LooksUpAlone id)) (newApi emptyEngine) es s
      ∧ s.handlers 1 = .replied keyedRequest (.accepted response) ∧ response.replayed = true
      ∧ es.filterMap (ApiEvent.submitted? id "idempotency:retry-1") = [response.orderID] := by
  obtain ⟨response, hsell⟩ := emptyEngine.handle_after 9 (.new { sellFive with id := 7 })
    (by decide +kernel)
  have herror := MatchingEngine.handle_new_error hsell
  have hkey := keyedRequest_redisKey
  have h₀ : Trace (Where (Api.Step id) (Api.LooksUpAlone id)) (newApi emptyEngine) [] _ := .nil
  have h := h₀.next (.arrive 0 keyedRequest) ⟨trivial, .arrive rfl rfl⟩
    |>.next (.get 0 keyedRequest)
        ⟨fun _ _ _ j => by match j with | 0 | n + 1 => rfl, .miss rfl hkey rfl⟩
    |>.next (.decode 0 keyedRequest) ⟨trivial, .build rfl rfl (keyedRequest_build 7)⟩
    |>.next (.submit 0 keyedRequest _) ⟨trivial, .submit rfl hkey hsell herror 1⟩
    |>.next (.set 0 keyedRequest) ⟨trivial, .set rfl hkey⟩
    |>.next (.arrive 1 keyedRequest) ⟨trivial, .arrive rfl rfl⟩
    |>.next (.get 1 keyedRequest)
        ⟨fun k hk hnone => absurd hnone (by
          obtain rfl := Option.some.inj (hkey.symm.trans hk)
          nofun), .hit rfl hkey rfl⟩
  exact ⟨_, _, _, h, rfl, rfl, (one_order_per_key h _).2 1 keyedRequest _ rfl hkey⟩

/-- Two requests with one key look it up before either has stored its
response: two orders are submitted, and the answers name different
orders. -/
theorem two_orders_one_key :
    ∃ (s : Api (SortedItems Decimal LevelRef)) (es : List ApiEvent)
      (response response' : OrderResponse),
      Trace (Api.Step id) (newApi emptyEngine) es s
      ∧ s.handlers 0 = .replied keyedRequest (.accepted response)
      ∧ s.handlers 1 = .replied keyedRequest (.accepted response')
      ∧ es.filterMap (ApiEvent.submitted? id "idempotency:retry-1") = [7, 8]
      ∧ response.orderID = 7 ∧ response'.orderID = 8 := by
  obtain ⟨response, hsell⟩ := emptyEngine.handle_after 9 (.new { sellFive with id := 7 })
    (by decide +kernel)
  obtain ⟨response', hsell'⟩ := (emptyEngine.after 9 [.new { sellFive with id := 7 }]).handle_after
    9 (.new { sellFive with id := 8 }) (by decide +kernel)
  have herror := MatchingEngine.handle_new_error hsell
  have herror' := MatchingEngine.handle_new_error hsell'
  have hkey := keyedRequest_redisKey
  have h₀ : Trace (Api.Step id) (newApi emptyEngine) [] _ := .nil
  have h := h₀.next (.arrive 0 keyedRequest) (.arrive rfl rfl)
    |>.next (.arrive 1 keyedRequest) (.arrive rfl rfl)
    |>.next (.get 0 keyedRequest) (.miss rfl hkey rfl)
    |>.next (.get 1 keyedRequest) (.miss rfl hkey rfl)
    |>.next (.decode 0 keyedRequest) (.build rfl rfl (keyedRequest_build 7))
    |>.next (.submit 0 keyedRequest _) (.submit rfl hkey hsell herror 1)
    |>.next (.decode 1 keyedRequest) (.build rfl rfl (keyedRequest_build 8))
    |>.next (.submit 1 keyedRequest _) (.submit rfl hkey hsell' herror' 2)
    |>.next (.set 0 keyedRequest) (.set rfl hkey)
    |>.next (.set 1 keyedRequest) (.set rfl hkey)
  exact ⟨_, _, _, _, h, rfl, rfl, by decide, rfl, rfl⟩

end TradingBackend
