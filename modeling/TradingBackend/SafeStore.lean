import TradingBackend.EventReplay
import TradingBackend.RetryQueue

/-!
# The order of the events that are persisted

`SafeOrderEventStore` over the tables. A write that fails is queued, and
the next call for the same order is written at once: the events of an
order can be persisted in another order than they were issued in, and
each overwrites the status and the filled quantity
(`retried_fill_overwrites`).

If each call for an order is made only when nothing of that order is
under way, at most the last event issued for it is not persisted, and
once it is, the row and the replay are the state that the events give in
the order of issue (`persisted_in_issue_order`).
-/

namespace TradingBackend

def QueuedEvent.getOrderID (event : QueuedEvent) : UUID :=
  match event.order with
  | some order => order.id
  | none => event.orderID

theorem SafeCall.getOrderID_queued (c : SafeCall) (n : Int) :
    { c.queued with attempts := n }.getOrderID = c.record.orderID := by
  cases c <;> rfl

/-! ## Whose event it is -/

/-- The write of a call, before it is queued. -/
def QueueRole.isWriting : QueueRole → Bool
  | .writing _ _ => true
  | _ => false

theorem QueueRole.ne_writing {role : QueueRole} (h : role.isWriting = false) (id : EventID)
    (c : SafeCall) : role ≠ .writing id c := by
  rintro rfl
  cases h

theorem Cont.resume_not_writing (k : Cont) : k.resume.isWriting = false := by
  cases k <;> rfl

namespace RetryQueue

variable {σ : Type} {cfg : QueueConfig} {record : σ → RecordCall → Option σ} {s s' : RetryQueue σ}
  {issued : List SafeCall} {P : List EventID} {e : QueueEvent} {g : GoID} {id : EventID}

/-- The events are numbered in the order of issue, and each is what was
issued under its number. -/
structure Called (issued : List SafeCall) (P : List EventID) (s : RetryQueue σ) : Prop where
  count : s.nextEvent = issued.length
  writing : ∀ g id c, s.roles g = .writing id c → issued[id]? = some c
  queued : ∀ id event, s.events id = some event →
    ∃ c n, issued[id]? = some c ∧ event = { c.queued with attempts := n }
  known : ∀ id < issued.length, (∃ event, s.events id = some event)
    ∨ (∃ g c, s.roles g = .writing id c) ∨ id ∈ P

/-- Goroutine `g`, which is not at a write of its own, goes on. -/
theorem writing_move (role : QueueRole) {role₀ : QueueRole} (hg : s.roles g = role₀)
    (h₀ : role₀.isWriting = false) (h₁ : role.isWriting = false)
    (g' : GoID) (id : EventID) (c : SafeCall) :
    (s.move g role).roles g' = .writing id c ↔ s.roles g' = .writing id c := by
  by_cases heq : g' = g
  · subst heq
    simp [move, hg, QueueRole.ne_writing h₀, QueueRole.ne_writing h₁]
  · simp [move, heq]

/-- Whatever else happens, the calls under way are the same and their
events too, but for the attempts. -/
theorem Called.other {P' : List EventID} (h : Called issued P s) (hP : ∀ x ∈ P, x ∈ P')
    (hnext : s'.nextEvent = s.nextEvent)
    (hroles : ∀ g id c, s'.roles g = .writing id c ↔ s.roles g = .writing id c)
    (hevents : ∀ id, s'.events id = s.events id ∨ ∃ event n, s.events id = some event
      ∧ s'.events id = some { event with attempts := n }) :
    Called issued P' s' := by
  constructor
  · rw [hnext]
    exact h.count
  · intro g id c hg
    exact h.writing g id c ((hroles g id c).mp hg)
  · intro id event hevent
    rcases hevents id with heq | ⟨event₀, n, h₀, heq⟩
    · exact h.queued id event (heq ▸ hevent)
    · obtain ⟨c, m, hc, rfl⟩ := h.queued id event₀ h₀
      obtain rfl := Option.some.inj (heq.symm.trans hevent)
      exact ⟨c, n, hc, rfl⟩
  · intro id hid
    rcases h.known id hid with ⟨event, hevent⟩ | ⟨g, c, hg⟩ | hmem
    · rcases hevents id with heq | ⟨event₀, n, -, heq⟩
      · exact .inl ⟨event, heq ▸ hevent⟩
      · exact .inl ⟨_, heq⟩
    · exact .inr (.inl ⟨g, c, (hroles g id c).mpr hg⟩)
    · exact .inr (.inr (hP id hmem))

theorem events_setEvent (event : QueuedEvent) (n : Int) (hevent : s.events id = some event)
    (x : EventID) :
    (s.setEvent id { event with attempts := n }).events x = s.events x
      ∨ ∃ event' m, s.events x = some event'
        ∧ (s.setEvent id { event with attempts := n }).events x
          = some { event' with attempts := m } := by
  by_cases hx : x = id
  · subst hx
    exact .inr ⟨event, n, hevent, by simp [setEvent]⟩
  · exact .inl (by simp [setEvent, hx])

theorem afterFailure_not_writing (event : QueuedEvent) :
    (afterFailure cfg id event).isWriting = false := by
  unfold afterFailure
  split <;> rfl

theorem getElem?_append_of_some {α : Type} {l : List α} {i : Nat} {a : α} (h : l[i]? = some a)
    (l' : List α) : (l ++ l')[i]? = some a := by
  rw [List.getElem?_append_left (List.getElem?_eq_some_iff.mp h).1]
  exact h

/-- A call begins, at its own write or with an event to be queued. -/
theorem Called.issue {c : SafeCall} (role : QueueRole) (h : Called issued P s)
    (hg : s.roles g = .absent) (hnext : s'.nextEvent = s.nextEvent + 1)
    (hroles : s'.roles = Function.update s.roles g role)
    (hwriting : ∀ id c', role = .writing id c' → id = s.nextEvent ∧ c' = c)
    (hevents : ∀ id, id ≠ s.nextEvent → s'.events id = s.events id)
    (hnew : s'.events s.nextEvent = some c.queued
      ∨ role = .writing s.nextEvent c ∧ s'.events s.nextEvent = s.events s.nextEvent) :
    Called (issued ++ [c]) P s' := by
  have hlast : (issued ++ [c])[s.nextEvent]? = some c := by
    rw [h.count]
    exact List.getElem?_concat_length
  constructor
  · rw [hnext, h.count, List.length_append, List.length_singleton]
  · intro g' id c' hg'
    rw [hroles] at hg'
    by_cases heq : g' = g
    · subst heq
      rw [Function.update_self] at hg'
      obtain ⟨rfl, rfl⟩ := hwriting id c' hg'
      exact hlast
    · rw [Function.update_of_ne heq] at hg'
      exact getElem?_append_of_some (h.writing g' id c' hg') _
  · intro id event hevent
    have hold : ∀ id, s.events id = some event →
        ∃ c' n, (issued ++ [c])[id]? = some c' ∧ event = { c'.queued with attempts := n } := by
      intro id hevent
      obtain ⟨c', n, hc', heq⟩ := h.queued id event hevent
      exact ⟨c', n, getElem?_append_of_some hc' _, heq⟩
    by_cases hid : id = s.nextEvent
    · subst hid
      rcases hnew with hnew | ⟨-, hsame⟩
      · exact ⟨c, _, hlast, Option.some.inj (hevent.symm.trans hnew)⟩
      · exact hold _ (hsame ▸ hevent)
    · exact hold id (hevents id hid ▸ hevent)
  · intro id hid
    rw [List.length_append, List.length_singleton] at hid
    by_cases heq : id = s.nextEvent
    · subst heq
      rcases hnew with hnew | ⟨hrole, -⟩
      · exact .inl ⟨_, hnew⟩
      · exact .inr (.inl ⟨g, c, by rw [hroles, Function.update_self, hrole]⟩)
    · have hlt : id < issued.length := by
        have hne : id ≠ issued.length := h.count ▸ heq
        omega
      rcases h.known id hlt with ⟨event, hevent⟩ | ⟨g', c', hg'⟩ | hmem
      · exact .inl ⟨event, (hevents id heq).trans hevent⟩
      · refine .inr (.inl ⟨g', c', ?_⟩)
        have hne : g' ≠ g := by
          rintro rfl
          rw [hg] at hg'
          cases hg'
        rw [hroles, Function.update_of_ne hne]
        exact hg'
      · exact .inr (.inr hmem)

theorem Called.leave {c : SafeCall} (role : QueueRole) {P' : List EventID}
    (h : Called issued P s) (hg : s.roles g = .writing id c) (hrole : role.isWriting = false)
    (hnext : s'.nextEvent = s.nextEvent) (hroles : s'.roles = Function.update s.roles g role)
    (hP : ∀ x ∈ P, x ∈ P') (hevents : ∀ x, x ≠ id → s'.events x = s.events x)
    (hover : s'.events id = some c.queued ∨ id ∈ P' ∧ s'.events id = s.events id) :
    Called issued P' s' := by
  constructor
  · rw [hnext]
    exact h.count
  · intro g' x c' hg'
    rw [hroles] at hg'
    by_cases heq : g' = g
    · subst heq
      rw [Function.update_self] at hg'
      exact absurd hg' (QueueRole.ne_writing hrole x c')
    · rw [Function.update_of_ne heq] at hg'
      exact h.writing g' x c' hg'
  · intro x event hevent
    by_cases hx : x = id
    · subst hx
      rcases hover with hnew | ⟨-, hsame⟩
      · exact ⟨c, _, h.writing g x c hg, Option.some.inj (hevent.symm.trans hnew)⟩
      · exact h.queued x event (hsame ▸ hevent)
    · exact h.queued x event (hevents x hx ▸ hevent)
  · intro x hx
    by_cases hid : x = id
    · subst hid
      rcases hover with hnew | ⟨hmem, -⟩
      · exact .inl ⟨_, hnew⟩
      · exact .inr (.inr hmem)
    · rcases h.known x hx with ⟨event, hevent⟩ | ⟨g', c', hg'⟩ | hmem
      · exact .inl ⟨event, (hevents x hid).trans hevent⟩
      · refine .inr (.inl ⟨g', c', ?_⟩)
        have hne : g' ≠ g := by
          rintro rfl
          rw [hg] at hg'
          exact hid (QueueRole.writing.inj hg').1.symm
        rw [hroles, Function.update_of_ne hne]
        exact hg'
      · exact .inr (.inr (hP x hmem))

/-- A goroutine that is not at a write of its own goes on. -/
theorem Called.move {P' : List EventID} (role : QueueRole) {role₀ : QueueRole}
    (h : Called issued P s) (hg : s.roles g = role₀) (h₀ : role₀.isWriting = false)
    (h₁ : role.isWriting = false) (hP : ∀ x ∈ P, x ∈ P') (hnext : s'.nextEvent = s.nextEvent)
    (hroles : s'.roles = (s.move g role).roles) (hevents : s'.events = s.events) :
    Called issued P' s' := by
  apply h.other hP hnext
  · rw [hroles]
    exact writing_move role hg h₀ h₁
  · intro x
    exact .inl (congrFun hevents x)

theorem Called.step (h : Called issued P s) (hstep : Step cfg record s e s') :
    Called (issued ++ e.issued?.toList) (P ++ e.persisted?.toList) s' := by
  -- only the first five kinds of step touch the two histories or the calls under way
  have hsame : ∀ x ∈ P, x ∈ P ++ e.persisted?.toList := fun x hx => List.mem_append_left _ hx
  have hother : e.issued? = none → Called issued (P ++ e.persisted?.toList) s' →
      Called (issued ++ e.issued?.toList) (P ++ e.persisted?.toList) s' := by
    intro he hcalled
    rw [he, Option.toList_none, List.append_nil]
    exact hcalled
  cases hstep with
  | @record g c hg =>
      rw [show (QueueEvent.record ..).persisted? = none from rfl, Option.toList_none,
        List.append_nil]
      refine h.issue (.writing s.nextEvent c) hg rfl rfl ?_ (fun _ _ => rfl) (.inr ⟨rfl, rfl⟩)
      intro id c' heq
      obtain ⟨rfl, rfl⟩ := QueueRole.writing.inj heq
      exact ⟨rfl, rfl⟩
  | queueOrder hg =>
      rw [show (QueueEvent.queueOrder ..).persisted? = none from rfl, Option.toList_none,
        List.append_nil]
      exact h.issue (.offering s.nextEvent .caller) hg rfl rfl (fun _ _ heq => nomatch heq)
        (fun x hx => Function.update_of_ne hx ..) (.inl (Function.update_self ..))
  | written hg hstore =>
      exact hother rfl (h.leave .absent hg rfl rfl rfl hsame (fun _ _ => rfl)
        (.inr ⟨List.mem_append_right _ List.mem_cons_self, rfl⟩))
  | @writeFailed _ id _ hg =>
      exact hother rfl (h.leave (.offering id .caller) hg rfl rfl rfl hsame
        (fun x hx => Function.update_of_ne hx ..) (.inl (Function.update_self ..)))
  | @send _ _ k hg hroom =>
      exact hother rfl (h.move k.resume hg rfl k.resume_not_writing hsame rfl rfl rfl)
  | @handOver g id k p hg hp hempty =>
      refine hother rfl (h.other hsame rfl ?_ fun x => .inl rfl)
      obtain ⟨-, hp'⟩ := roles_other k.resume hg hp nofun
      intro g' x c
      exact (writing_move (.attempting id) hp' rfl rfl g' x c).trans
        (writing_move k.resume hg rfl k.resume_not_writing g' x c)
  | @full _ id k hg hfull => exact hother rfl (h.move (.parking id k) hg rfl rfl hsame rfl rfl rfl)
  | @recordFailedEvent _ _ k hg =>
      exact hother rfl (h.move k.resume hg rfl k.resume_not_writing hsame rfl rfl rfl)
  | @take _ id _ hg hqueue =>
      exact hother rfl (h.move (.attempting id) hg rfl rfl hsame rfl rfl rfl)
  | persisted hg hevent hc hstore =>
      exact hother rfl (h.move .waiting hg rfl rfl hsame rfl rfl rfl)
  | attemptFailed hg hevent =>
      exact hother rfl (h.other hsame rfl
        (writing_move _ hg rfl (afterFailure_not_writing _)) (events_setEvent _ _ hevent))
  | retryFailedEvents hg =>
      exact hother rfl (h.move (.retrying s.failedEvents) hg rfl rfl hsame rfl rfl rfl)
  | @reset _ id rest _ hg hevent =>
      exact hother rfl (h.other hsame rfl
        (writing_move (.offering id (.retrying rest)) hg rfl rfl) (events_setEvent _ _ hevent))
  | retried hg => exact hother rfl (h.move .waiting hg rfl rfl hsame rfl rfl rfl)
  | exit hg hstop => exact hother rfl (h.move .absent hg rfl rfl hsame rfl rfl rfl)
  | start hg hrun => exact hother rfl (h.move .starting hg rfl rfl hsame rfl rfl rfl)
  | @spawn g p hg hp =>
      refine hother rfl (h.other hsame rfl ?_ fun x => .inl rfl)
      obtain ⟨-, hp'⟩ := roles_other .absent hg hp nofun
      intro g' x c
      exact (writing_move .waiting hp' rfl rfl g' x c).trans
        (writing_move .absent hg rfl rfl g' x c)
  | stop hg hrun => exact hother rfl (h.move .closing hg rfl rfl hsame rfl rfl rfl)
  | closeStop hg hstop => exact hother rfl (h.move .joining hg rfl rfl hsame rfl rfl rfl)
  | join hg hwg => exact hother rfl (h.move .absent hg rfl rfl hsame rfl rfl rfl)

/-- The store changes by the call of the event that is persisted. -/
theorem Called.store (h : Called issued P s) (hstep : Step cfg record s e s') :
    (e.persisted? = none ∧ s'.store = s.store)
      ∨ ∃ id c, e.persisted? = some id ∧ e.issued? = none ∧ issued[id]? = some c
        ∧ record s.store c.record = some s'.store := by
  cases hstep with
  | written hg hstore => exact .inr ⟨_, _, rfl, rfl, h.writing _ _ _ hg, hstore⟩
  | persisted hg hevent hc hstore =>
      obtain ⟨c, n, hissued, rfl⟩ := h.queued _ _ hevent
      obtain rfl := Option.some.inj (hc.symm.trans (c.retry_queued n))
      exact .inr ⟨_, c, rfl, rfl, hissued, hstore⟩
  | record | queueOrder | writeFailed | send | handOver | full | recordFailedEvent | take
  | attemptFailed | retryFailedEvents | reset | retried | exit | start | spawn | stop | closeStop
  | join => exact .inl ⟨rfl, rfl⟩

/-! ## What is under way for an order -/

/-- An event of the order is not persisted: a call is at its write, or the
event is in the channel, in `failedEvents` or in someone's hand. -/
def Pending (s : RetryQueue σ) (orderID : UUID) : Prop :=
  (∃ g id c, s.roles g = .writing id c ∧ c.record.orderID = orderID)
    ∨ ∃ p id event, id ∈ s.contents [] p ∧ s.events id = some event
      ∧ event.getOrderID = orderID

theorem Called.pending {place : EventID → Option EventPlace} {c : SafeCall}
    (h : Called issued P s) (hplaced : Placed (s.contents P) place) (hfresh : s.Fresh place)
    (hid : issued[id]? = some c) (hP : id ∉ P) : s.Pending c.record.orderID := by
  have hlt : id < issued.length := (List.getElem?_eq_some_iff.mp hid).1
  rcases h.known id hlt with ⟨event, hevent⟩ | ⟨g, c', hg⟩ | hmem
  · obtain ⟨c', n, hc', rfl⟩ := h.queued id event hevent
    obtain rfl := Option.some.inj (hid.symm.trans hc')
    have hsome : place id ≠ none := fun hnone => by
      have hle := (hfresh id).mpr hnone
      rw [h.count] at hle
      exact Nat.not_le_of_lt hlt hle
    obtain ⟨p, hp⟩ := Option.ne_none_iff_exists'.mp hsome
    have hmem := (hplaced.mem_iff p id).mpr hp
    refine .inr ⟨p, id, _, ?_, hevent, c.getOrderID_queued n⟩
    cases p with
    | persisted => exact absurd hmem hP
    | queue | failedEvents | processor | caller => exact hmem
  · obtain rfl := Option.some.inj (hid.symm.trans (h.writing g id c' hg))
    exact .inl ⟨g, id, c, hg, rfl⟩
  · exact absurd hmem hP

/-- Nothing is under way when the goroutines are idle and the channel and
`failedEvents` are empty. -/
theorem not_pending_of_idle (hroles : ∀ g, s.roles g = .absent ∨ s.roles g = .waiting)
    (hqueue : s.queue = []) (hfailed : s.failedEvents = []) (orderID : UUID) :
    ¬s.Pending orderID := by
  rintro (⟨g, id, c, hg, -⟩ | ⟨p, id, event, hmem, -⟩)
  · rcases hroles g with h | h <;> rw [h] at hg <;> cases hg
  · cases p with
    | persisted => cases hmem
    | queue =>
        have hmem' : id ∈ s.queue := hmem
        rw [hqueue] at hmem'
        cases hmem'
    | failedEvents =>
        have hmem' : id ∈ s.failedEvents := hmem
        rw [hfailed] at hmem'
        cases hmem'
    | processor g =>
        have hmem' : id ∈ (s.roles g).processorHand := hmem
        rcases hroles g with h | h <;> rw [h] at hmem' <;> cases hmem'
    | caller g =>
        have hmem' : id ∈ (s.roles g).callerHand := hmem
        rcases hroles g with h | h <;> rw [h] at hmem' <;> cases hmem'

/-- A call is made when nothing of its order is under way; the first one
for an order, and no other, creates it. -/
def InTurn (s : RetryQueue EventTables) (e : QueueEvent) : Prop :=
  ∀ c, e.issued? = some c → ¬s.Pending c.record.orderID
    ∧ (c.record.data.isCreated = true ↔ s.store.eventsOf c.record.orderID = [])

theorem inTurn_of_silent {s : RetryQueue EventTables} (h : e.issued? = none) : s.InTurn e := by
  intro c hc
  rw [h] at hc
  cases hc

end RetryQueue

/-- The calls for an order, in the order of issue. -/
def callsOf (orderID : UUID) (issued : List SafeCall) : List RecordCall :=
  (issued.map SafeCall.record).filter fun c => c.orderID = orderID

/-- All that was issued for the order is persisted in the order of issue,
but for the last event at most. -/
inductive OrderState (issued : List SafeCall) (P : List EventID) (log : OrderLog)
    (orderID : UUID) : Prop where
  | settled
      (hall : ∀ id c, issued[id]? = some c → c.record.orderID = orderID → id ∈ P)
      (hrun : OrderLog.run (callsOf orderID issued) = some log)
  | oneLeft {id : EventID} {c : SafeCall} {before : List RecordCall}
      (hid : issued[id]? = some c) (hc : c.record.orderID = orderID) (hP : id ∉ P)
      (hothers : ∀ id' c', issued[id']? = some c' → c'.record.orderID = orderID → id' ≠ id →
        id' ∈ P)
      (hcalls : callsOf orderID issued = before ++ [c.record])
      (hrun : OrderLog.run before = some log)

section

variable {issued : List SafeCall} {P : List EventID} {log log' : OrderLog} {orderID : UUID}
  {id : EventID} {c : SafeCall}

theorem callsOf_concat_same (h : c.record.orderID = orderID) :
    callsOf orderID (issued ++ [c]) = callsOf orderID issued ++ [c.record] := by
  simp [callsOf, h]

theorem callsOf_concat_other (h : c.record.orderID ≠ orderID) :
    callsOf orderID (issued ++ [c]) = callsOf orderID issued := by
  simp [callsOf, h]

theorem getElem?_concat_cases {id : Nat} {c' : SafeCall} (h : (issued ++ [c])[id]? = some c') :
    issued[id]? = some c' ∨ (id = issued.length ∧ c' = c) := by
  rw [List.getElem?_append] at h
  split at h
  · exact .inl h
  · rename_i hlt
    obtain ⟨hbound, heq⟩ := List.getElem?_eq_some_iff.mp h
    rw [List.length_singleton] at hbound
    have hid : id = issued.length := by omega
    subst hid
    exact .inr ⟨rfl, by simpa using heq.symm⟩

/-- A call for the order, while nothing of it is under way. -/
theorem OrderState.issue (h : OrderState issued P log orderID) (hc : c.record.orderID = orderID)
    (hdone : ∀ id c', issued[id]? = some c' → c'.record.orderID = orderID → id ∈ P)
    (hnew : issued.length ∉ P) : OrderState (issued ++ [c]) P log orderID := by
  cases h with
  | settled hall hrun =>
      refine .oneLeft List.getElem?_concat_length hc hnew ?_ (callsOf_concat_same hc) hrun
      intro id' c' hid' hc' hne
      rcases getElem?_concat_cases hid' with hid' | ⟨heq, -⟩
      · exact hall id' c' hid' hc'
      · exact absurd heq hne
  | oneLeft hid hc' hP => exact absurd (hdone _ _ hid hc') hP

theorem OrderState.issue_other (h : OrderState issued P log orderID)
    (hc : c.record.orderID ≠ orderID) : OrderState (issued ++ [c]) P log orderID := by
  have hold : ∀ (id' : EventID) (c' : SafeCall), (issued ++ [c])[id']? = some c' →
      c'.record.orderID = orderID →
      issued[id']? = some c' := by
    intro id' c' hid' hc'
    rcases getElem?_concat_cases hid' with hid' | ⟨-, rfl⟩
    · exact hid'
    · exact absurd hc' hc
  cases h with
  | settled hall hrun =>
      refine .settled (fun id' c' hid' hc' => hall id' c' (hold id' c' hid' hc') hc') ?_
      rw [callsOf_concat_other hc]
      exact hrun
  | oneLeft hid hc' hP hothers hcalls hrun =>
      refine .oneLeft (RetryQueue.getElem?_append_of_some hid _) hc' hP ?_
        ((callsOf_concat_other hc).trans hcalls) hrun
      exact fun id' c' hid' hc' => hothers id' c' (hold id' c' hid' hc') hc'

theorem OrderState.persist (h : OrderState issued P log orderID) (hid : issued[id]? = some c)
    (hc : c.record.orderID = orderID) (hP : id ∉ P) (hrec : log.record c.record = some log') :
    OrderState issued (P ++ [id]) log' orderID := by
  cases h with
  | settled hall hrun => exact absurd (hall id c hid hc) hP
  | @oneLeft left c₀ before hleft hc₀ hP₀ hothers hcalls hrun =>
      obtain rfl : id = left := by
        by_contra hne
        exact hP (hothers id c hid hc hne)
      obtain rfl := Option.some.inj (hid.symm.trans hleft)
      refine .settled ?_ ?_
      · intro id' c' hid' hc'
        by_cases heq : id' = id
        · exact heq ▸ List.mem_append_right _ List.mem_cons_self
        · exact List.mem_append_left _ (hothers id' c' hid' hc' heq)
      · rw [hcalls, OrderLog.run_concat, hrun]
        exact hrec

theorem OrderState.persist_other (h : OrderState issued P log orderID)
    (hid : issued[id]? = some c) (hc : c.record.orderID ≠ orderID) :
    OrderState issued (P ++ [id]) log orderID := by
  cases h with
  | settled hall hrun =>
      exact .settled (fun id' c' hid' hc' => List.mem_append_left _ (hall id' c' hid' hc')) hrun
  | @oneLeft left c₀ before hleft hc₀ hP₀ hothers hcalls hrun =>
      refine .oneLeft hleft hc₀ ?_
        (fun id' c' hid' hc' hne => List.mem_append_left _ (hothers id' c' hid' hc' hne))
        hcalls hrun
      intro hmem
      rcases List.mem_append.mp hmem with hmem | hmem
      · exact hP₀ hmem
      · obtain rfl := List.mem_singleton.mp hmem
        obtain rfl := Option.some.inj (hid.symm.trans hleft)
        exact hc hc₀

theorem CreatedOnce.concat {calls : List RecordCall} {c : RecordCall} (h : CreatedOnce calls)
    (hc : c.data.isCreated = true ↔ calls = []) : CreatedOnce (calls ++ [c]) := by
  cases calls with
  | nil => exact ⟨hc.mpr rfl, List.forall_mem_nil _⟩
  | cons first rest =>
      refine ⟨h.1, ?_⟩
      intro c' hc'
      rcases List.mem_append.mp hc' with hc' | hc'
      · exact h.2 c' hc'
      · obtain rfl := List.mem_singleton.mp hc'
        exact Bool.eq_false_iff.mpr fun htrue => absurd (hc.mp htrue) nofun

end

theorem QueueEvent.change_of_persisted {e : QueueEvent} {id : EventID}
    (h : e.persisted? = some id) :
    ∃ before, before ≠ .persisted ∧ e.change = some (id, before, .persisted) := by
  cases e with
  | written g id' =>
      obtain rfl := Option.some.inj h
      exact ⟨.issued, nofun, rfl⟩
  | persisted p id' =>
      obtain rfl := Option.some.inj h
      exact ⟨.accepted, nofun, rfl⟩
  | record | queueOrder | writeFailed | send | handOver | full | recordFailedEvent | take
  | attemptFailed | retryFailedEvents | reset | retried | exit | start | spawn | stop | closeStop
  | join => cases h

namespace RetryQueue

variable {σ : Type} {cfg : QueueConfig} {record : σ → RecordCall → Option σ} {s s' : RetryQueue σ}
  {P : List EventID} {place : EventID → Option EventPlace} {e : QueueEvent} {id : EventID}

theorem Step.persisted_new (hstep : Step cfg record s e s') (h : Placed (s.contents P) place)
    (hfresh : s.Fresh place) (hid : e.persisted? = some id) : id ∉ P := by
  obtain ⟨place', -, -, hstage⟩ := hstep.placed h hfresh
  obtain ⟨before, hne, hchange⟩ := QueueEvent.change_of_persisted hid
  unfold StageStep at hstage
  rw [hchange] at hstage
  intro hmem
  have hplace : place id = some .persisted := (h.mem_iff .persisted id).mp hmem
  have hbefore : EventPlace.stage (place id) = before := hstage.1
  rw [hplace] at hbefore
  exact hne hbefore.symm

end RetryQueue

/-! ## Runs -/

/-- The state that events give, applied one after another. -/
def appliedState (calls : List RecordCall) : Option ReplayState :=
  (OrderLog.numbered calls).foldlM ReplayState.apply ReplayState.start

/-- The state of a run in which every call is made in turn. -/
structure InOrder (es : List QueueEvent) (s : RetryQueue EventTables) : Prop where
  called : s.Called (es.filterMap QueueEvent.issued?) (es.filterMap QueueEvent.persisted?)
  order : ∀ orderID, OrderState (es.filterMap QueueEvent.issued?)
    (es.filterMap QueueEvent.persisted?) (s.store.log orderID) orderID
  once : ∀ orderID, CreatedOnce (callsOf orderID (es.filterMap QueueEvent.issued?))

namespace InOrder

variable {cfg : QueueConfig} {es : List QueueEvent} {s s' : RetryQueue EventTables}
  {e : QueueEvent} {orderID : UUID} {place : EventID → Option EventPlace}

/-- Nothing is under way for the order: all that was issued is in the log. -/
theorem settled (h : InOrder es s)
    (hplaced : Placed (s.contents (es.filterMap QueueEvent.persisted?)) place)
    (hfresh : s.Fresh place) (hdone : ¬s.Pending orderID) :
    (∀ id c, (es.filterMap QueueEvent.issued?)[id]? = some c → c.record.orderID = orderID →
        id ∈ es.filterMap QueueEvent.persisted?)
      ∧ OrderLog.run (callsOf orderID (es.filterMap QueueEvent.issued?))
          = some (s.store.log orderID) := by
  have hall : ∀ (id : EventID) (c : SafeCall), (es.filterMap QueueEvent.issued?)[id]? = some c →
      c.record.orderID = orderID → id ∈ es.filterMap QueueEvent.persisted? := by
    intro id c hid hc
    by_contra hP
    exact hdone (hc ▸ h.called.pending hplaced hfresh hid hP)
  refine ⟨hall, ?_⟩
  cases h.order orderID with
  | settled _ hrun => exact hrun
  | oneLeft hid hc hP => exact absurd (hall _ _ hid hc) hP

theorem step (h : InOrder es s)
    (hplaced : Placed (s.contents (es.filterMap QueueEvent.persisted?)) place)
    (hfresh : s.Fresh place) (hturn : s.InTurn e)
    (hstep : RetryQueue.Step cfg EventTables.record s e s') : InOrder (es ++ [e]) s' := by
  have hcalled := h.called.step hstep
  cases hissued : e.issued? with
  | some c =>
      obtain ⟨hdone, hcreated⟩ := hturn c hissued
      obtain ⟨hall, hrun⟩ := h.settled hplaced hfresh hdone
      rcases h.called.store hstep with ⟨hpersisted, hstore⟩ | ⟨-, -, -, hnone, -⟩
      · have hnew : (es.filterMap QueueEvent.issued?).length
            ∉ es.filterMap QueueEvent.persisted? := by
          intro hmem
          have hplace := (hplaced.mem_iff .persisted _).mp hmem
          rw [(hfresh _).mp h.called.count.le] at hplace
          cases hplace
        have hempty : s.store.eventsOf c.record.orderID = []
            ↔ callsOf c.record.orderID (es.filterMap QueueEvent.issued?) = [] := by
          have hevents : s.store.eventsOf c.record.orderID = OrderLog.numbered _ :=
            OrderLog.run_events hrun
          rw [hevents, OrderLog.numbered, List.mapIdx_eq_nil_iff]
        constructor
        · rw [history_snoc, history_snoc]
          exact hcalled
        · intro orderID
          rw [history_snoc, history_snoc, hissued, hpersisted, Option.toList_some,
            Option.toList_none, List.append_nil, hstore]
          by_cases hc : c.record.orderID = orderID
          · subst hc
            exact (h.order _).issue rfl hall hnew
          · exact (h.order orderID).issue_other hc
        · intro orderID
          rw [history_snoc, hissued, Option.toList_some]
          by_cases hc : c.record.orderID = orderID
          · subst hc
            rw [callsOf_concat_same rfl]
            exact (h.once _).concat (hcreated.trans hempty)
          · rw [callsOf_concat_other hc]
            exact h.once orderID
      · rw [hissued] at hnone
        cases hnone
  | none =>
      refine ⟨by rw [history_snoc, history_snoc]; exact hcalled, ?_, ?_⟩
      · intro orderID
        rw [history_snoc, history_snoc, hissued, Option.toList_none, List.append_nil]
        rcases h.called.store hstep with ⟨hpersisted, hstore⟩ | ⟨id, c, hpersisted, -, hid, hrec⟩
        · rw [hpersisted, Option.toList_none, List.append_nil, hstore]
          exact h.order orderID
        · rw [hpersisted, Option.toList_some]
          have hP := hstep.persisted_new hplaced hfresh hpersisted
          obtain ⟨hsame, hother⟩ := EventTables.record_log hrec
          by_cases hc : c.record.orderID = orderID
          · subst hc
            exact (h.order _).persist hid rfl hP hsame
          · rw [hother orderID (Ne.symm hc)]
            exact (h.order orderID).persist_other hid hc
      · intro orderID
        rw [history_snoc, hissued, Option.toList_none, List.append_nil]
        exact h.once orderID

theorem run (h : Trace (Where (RetryQueue.Step cfg EventTables.record) RetryQueue.InTurn)
    (RetryQueue.new EventTables.empty) es s) : InOrder es s := by
  have hall : Trace (RetryQueue.Step cfg EventTables.record) (RetryQueue.new EventTables.empty)
      es s ∧ InOrder es s := by
    refine h.invariant (P := fun es s => Trace (RetryQueue.Step cfg EventTables.record)
      (RetryQueue.new EventTables.empty) es s ∧ InOrder es s) ⟨.nil, ?_⟩ ?_
    · refine ⟨⟨rfl, fun _ _ _ => nofun, fun _ _ => nofun, fun _ => nofun⟩, ?_, fun _ => trivial⟩
      intro orderID
      exact .settled (fun _ _ => nofun) rfl
    · rintro es s e s' ⟨htrace, h⟩ ⟨hturn, hstep⟩
      obtain ⟨place, hplaced, hfresh, -⟩ := RetryQueue.placed htrace
      exact ⟨htrace.snoc hstep, h.step hplaced hfresh hturn hstep⟩
  exact hall.2

end InOrder

/-- In every run whose calls are made in turn, once nothing is under way
for an order, its row and its replay are the state that the events issued
for it give in the order of issue. -/
theorem persisted_in_issue_order {cfg : QueueConfig} {es : List QueueEvent}
    {s : RetryQueue EventTables}
    (h : Trace (Where (RetryQueue.Step cfg EventTables.record) RetryQueue.InTurn)
      (RetryQueue.new EventTables.empty) es s) {orderID : UUID}
    (hissued : callsOf orderID (es.filterMap QueueEvent.issued?) ≠ [])
    (hdone : ¬s.Pending orderID) :
    ∃ row, s.store.snapshot.lookup orderID = some row
      ∧ s.store.replayOrderState orderID = some row.replayed
      ∧ appliedState (callsOf orderID (es.filterMap QueueEvent.issued?)) = some row.replayed := by
  have hinv := InOrder.run h
  obtain ⟨place, hplaced, hfresh, -⟩ := RetryQueue.placed (h.imp And.right)
  obtain ⟨-, hrun⟩ := hinv.settled hplaced hfresh hdone
  have honce := hinv.once orderID
  obtain ⟨c, calls, hcalls⟩ := List.exists_cons_of_ne_nil hissued
  have hreplay := OrderLog.replay_run hrun
  rw [hcalls] at hrun honce
  obtain ⟨row, hrow, -, -, hreplayed⟩ := OrderLog.rebuildable hrun honce
  exact ⟨row, hrow, hreplayed, hreplay.symm.trans hreplayed⟩

section

def restingTen : Order := ⟨1, "alice", "BTC-USD", .buy, .limit, 100, 10, 0, .opened, 1⟩

def fillThree : SafeCall := .fill 1 3 3 .partiallyFilled none 2

def fillSeven : SafeCall := .fill 1 7 10 .filled none 3

/-- The creation fails at first and is retried; then the order is filled. -/
theorem persisted_in_issue_order_retried :
    ∃ es s, Trace (Where (RetryQueue.Step ⟨10, 3⟩ EventTables.record) RetryQueue.InTurn)
        (RetryQueue.new EventTables.empty) es s
      ∧ es.filterMap QueueEvent.issued? = [.created restingTen, fillThree]
      ∧ QueueEvent.writeFailed 0 0 ∈ es ∧ ¬s.Pending 1
      ∧ ∃ row, s.store.snapshot.lookup 1 = some row
        ∧ s.store.replayOrderState 1 = some row.replayed
        ∧ appliedState [SafeCall.record (.created restingTen), fillThree.record]
            = some row.replayed := by
  have hrun : ((EventTables.empty.record (SafeCall.record (.created restingTen))).bind
      (·.record fillThree.record)).isSome = true := by
    decide +kernel
  obtain ⟨db', hdb'⟩ := Option.isSome_iff_exists.mp hrun
  obtain ⟨db, hdb, hfill⟩ := Option.bind_eq_some_iff.mp hdb'
  have hevents : db.eventsOf 1 ≠ [] := by
    have hlog := (OrderLog.record_eq_some (EventTables.record_log hdb).1).2
    exact fun hnil => List.append_ne_nil_of_right_ne_nil _ (List.cons_ne_nil _ _)
      (hlog.symm.trans hnil)
  have h₀ : Trace (Where (RetryQueue.Step ⟨10, 3⟩ EventTables.record) RetryQueue.InTurn)
      (RetryQueue.new EventTables.empty) [] _ := .nil
  have h₁ := h₀.next (.start 1) ⟨RetryQueue.inTurn_of_silent rfl, .start rfl rfl⟩
    |>.next (.spawn 1 2) ⟨RetryQueue.inTurn_of_silent rfl, .spawn rfl rfl⟩
  have h₂ := h₁.next (.record 0 0 (.created restingTen)) ⟨by
      intro c hc
      obtain rfl := Option.some.inj hc
      refine ⟨RetryQueue.not_pending_of_idle ?_ rfl rfl _, by decide⟩
      intro g
      simp only [RetryQueue.move, RetryQueue.new, Function.update_apply]
      split_ifs <;> simp, .record rfl⟩
    |>.next (.writeFailed 0 0) ⟨RetryQueue.inTurn_of_silent rfl, .writeFailed rfl⟩
    |>.next (.send 0 0 .caller) ⟨RetryQueue.inTurn_of_silent rfl, .send rfl (Nat.zero_lt_succ 9)⟩
    |>.next (.take 2 0) ⟨RetryQueue.inTurn_of_silent rfl, .take rfl rfl⟩
    |>.next (.persisted 2 0) ⟨RetryQueue.inTurn_of_silent rfl, .persisted rfl rfl rfl hdb⟩
  have h₃ := h₂.next (.record 0 1 fillThree) ⟨by
      intro c hc
      obtain rfl := Option.some.inj hc
      refine ⟨RetryQueue.not_pending_of_idle ?_ rfl rfl _, iff_of_false (by decide) hevents⟩
      intro g
      simp only [RetryQueue.move, RetryQueue.setEvent, RetryQueue.new, Cont.resume,
        Function.update_apply]
      split_ifs <;> simp, .record rfl⟩
    |>.next (.written 0 1) ⟨RetryQueue.inTurn_of_silent rfl, .written rfl hfill⟩
  refine ⟨_, _, h₃, rfl, by simp, ?done, persisted_in_issue_order h₃ (by decide) ?done⟩
  refine RetryQueue.not_pending_of_idle ?_ rfl rfl 1
  intro g
  simp only [RetryQueue.move, RetryQueue.setEvent, RetryQueue.new, Cont.resume,
    Function.update_apply]
  split_ifs <;> simp

/-- The write of the first fill fails, and its retry comes after the
second: the order is filled with ten, the row and the replay say three. -/
theorem retried_fill_overwrites :
    ∃ s, Trace (RetryQueue.Step ⟨10, 3⟩ EventTables.record) (RetryQueue.new EventTables.empty)
        [.start 1, .spawn 1 2, .record 0 0 (.created restingTen), .written 0 0,
          .record 0 1 fillThree, .writeFailed 0 1, .send 0 1 .caller, .record 0 2 fillSeven,
          .written 0 2, .take 2 1, .persisted 2 1] s
      ∧ s.queue = [] ∧ s.failedEvents = [] ∧ ¬s.Pending 1
      ∧ (s.store.snapshot.lookup 1).map (fun row => (row.filledQuantity, row.status))
          = some (3, .partiallyFilled)
      ∧ (s.store.replayOrderState 1).map (fun st => (st.filledQuantity, st.status))
          = some (3, .partiallyFilled)
      ∧ (appliedState [SafeCall.record (.created restingTen), fillThree.record,
          fillSeven.record]).map (fun st => (st.filledQuantity, st.status))
          = some (10, .filled) := by
  have hrun : ([SafeCall.record (.created restingTen), fillSeven.record, fillThree.record].foldlM
      EventTables.record EventTables.empty).map (fun db =>
        ((db.snapshot.lookup 1).map (fun row => (row.filledQuantity, row.status)),
          (db.replayOrderState 1).map (fun st => (st.filledQuantity, st.status))))
      = some (some (3, .partiallyFilled), some (3, .partiallyFilled)) := by
    decide +kernel
  obtain ⟨db₃, hdb, hstates⟩ := Option.map_eq_some_iff.mp hrun
  obtain ⟨hrow, hreplay⟩ := Prod.mk.inj hstates
  obtain ⟨db₁, hcreated, hrest⟩ := Option.bind_eq_some_iff.mp (List.foldlM_cons.symm.trans hdb)
  obtain ⟨db₂, hseven, hrest⟩ := Option.bind_eq_some_iff.mp (List.foldlM_cons.symm.trans hrest)
  obtain ⟨_, hthree, hlast⟩ := Option.bind_eq_some_iff.mp (List.foldlM_cons.symm.trans hrest)
  obtain rfl := Option.some.inj hlast
  have h₀ : Trace (RetryQueue.Step ⟨10, 3⟩ EventTables.record) (RetryQueue.new EventTables.empty)
      [] _ := .nil
  have h₁ := h₀.next (.start 1) (.start rfl rfl) |>.next (.spawn 1 2) (.spawn rfl rfl)
    |>.next (.record 0 0 (.created restingTen)) (.record rfl)
    |>.next (.written 0 0) (.written rfl hcreated)
    |>.next (.record 0 1 fillThree) (.record rfl) |>.next (.writeFailed 0 1) (.writeFailed rfl)
    |>.next (.send 0 1 .caller) (.send rfl (Nat.zero_lt_succ 9))
    |>.next (.record 0 2 fillSeven) (.record rfl) |>.next (.written 0 2) (.written rfl hseven)
    |>.next (.take 2 1) (.take rfl rfl) |>.next (.persisted 2 1) (.persisted rfl rfl rfl hthree)
  refine ⟨_, h₁, rfl, rfl, RetryQueue.not_pending_of_idle ?_ rfl rfl 1, hrow, hreplay, ?_⟩
  · intro g
    simp only [RetryQueue.move, RetryQueue.setEvent, RetryQueue.new, Cont.resume,
      Function.update_apply]
    split_ifs <;> simp
  · decide +kernel

end

end TradingBackend
