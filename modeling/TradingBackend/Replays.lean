import Mathlib.Data.List.Forall2
import Mathlib.Data.List.TakeWhile
import Mathlib.Data.List.Perm.Basic
import TradingBackend.EventSourcing

/-!
# Replays of an order

The abstract side of the store is the list of the events it holds, in the
order in which they came (`Stores`), and the history of an aggregate is
its events by version. Without failures `LoadEvents` returns the history.
-/

namespace TradingBackend.EventSourcing

section

variable {β F : Type} {c : EventCodec β F} {faults : RowFaults}
  {table : EventTable β} {log : List (Event F)}

/-! ## What the table holds -/

/-- `Append` has made the row of the event, which carries the name of its
type. -/
structure Holds (c : EventCodec β F) (row : EventRow β) (e : Event F) : Prop where
  payload : c.marshal e = .ok row.payload
  named : e.getEventType = e.type.name
  eventType : row.eventType = e.getEventType
  aggregateID : row.aggregateID = e.getAggregateID
  aggregateType : row.aggregateType = e.getAggregateType
  version : row.version = e.getVersion

/-- The table holds the events of `log`. -/
def Stores (c : EventCodec β F) (table : EventTable β) (log : List (Event F)) : Prop :=
  List.Forall₂ (Holds c) table.rows log

theorem EventTable.insert_rows {row : EventRow β} {table' : EventTable β}
    (h : table.insert row = .ok table') : table'.rows = table.rows ++ [row] := by
  unfold EventTable.insert at h
  split at h
  · rw [← Except.ok.inj h]
  · cases h

/-- `Append` stores the event if it returns nil; if it returns an error it
may have stored it. -/
theorem Stores.append (h : Stores c table log) {e : Event F}
    (hnamed : e.getEventType = e.type.name) (fault : Option InsertFault) :
    Stores c (append c fault table e).2 (log ++ [e])
    ∨ (append c fault table e).1 ≠ none ∧ (append c fault table e).2 = table := by
  unfold EventSourcing.append
  cases hp : c.marshal e with
  | error err => exact .inr ⟨by simp, rfl⟩
  | ok payload =>
      simp only
      generalize hrow : EventRow.mk e.getEventID e.getEventType e.getAggregateID
        e.getAggregateType payload e.getVersion e.getTimestamp = row
      have hholds : Holds c row e := by
        subst hrow
        exact ⟨hp, hnamed, rfl, rfl, rfl, rfl⟩
      cases hins : table.insert row with
      | error err => cases fault <;> exact .inr ⟨by simp, rfl⟩
      | ok table' =>
          have hstores : Stores c table' (log ++ [e]) := by
            unfold Stores
            rw [EventTable.insert_rows hins]
            exact List.rel_append h (.cons hholds .nil)
          cases fault with
          | none => exact .inl hstores
          | some f =>
              cases hf : f.inserted with
              | true => exact .inl (by simpa [hf] using hstores)
              | false => exact .inr ⟨by simp, by simp [hf]⟩

/-- The table always holds some of the events that were appended. -/
theorem Stores.appendAll (h : Stores c table log) (events : List (Option InsertFault × Event F))
    (hnamed : ∀ e ∈ events, e.2.getEventType = e.2.type.name) :
    ∃ stored, stored.Sublist (events.map Prod.snd)
      ∧ Stores c (appendAll c table events) (log ++ stored) := by
  induction events generalizing table log with
  | nil => exact ⟨[], .slnil, by rw [List.append_nil]; exact h⟩
  | cons e events ih =>
      have hrest : ∀ e' ∈ events, e'.2.getEventType = e'.2.type.name :=
        fun e' he' => hnamed e' (List.mem_cons_of_mem _ he')
      rcases h.append (hnamed e List.mem_cons_self) e.1 with happ | ⟨-, hsame⟩
      · obtain ⟨stored, hsub, hstores⟩ := ih happ hrest
        refine ⟨e.2 :: stored, hsub.cons_cons _, ?_⟩
        rw [List.append_assoc] at hstores
        exact hstores
      · obtain ⟨stored, hsub, hstores⟩ := ih (hsame ▸ h) hrest
        exact ⟨stored, hsub.cons _, hstores⟩

def history (log : List (Event F)) (aggregateID aggregateType : String) : List (Event F) :=
  (log.filter fun e => e.getAggregateID = aggregateID ∧ e.getAggregateType = aggregateType)
    |>.insertionSort fun a b => a.getVersion ≤ b.getVersion

theorem forall₂_pairwise {α γ : Type} {R : α → γ → Prop} {S : α → α → Prop} {S' : γ → γ → Prop}
    {l : List α} {l' : List γ} (h : List.Forall₂ R l l') (hl : l.Pairwise S)
    (himp : ∀ {a a' b b'}, R a b → R a' b' → S a a' → S' b b') : l'.Pairwise S' := by
  rw [List.pairwise_iff_getElem] at hl ⊢
  intro i j hi hj hij
  have hlen := h.length_eq
  exact himp (h.get (i := i) (by omega) hi) (h.get (i := j) (by omega) hj)
    (hl i j (by omega) (by omega) hij)

instance : Std.Total fun a b : EventRow β => a.version ≤ b.version :=
  ⟨fun a b => le_total a.version b.version⟩

instance : IsTrans (EventRow β) fun a b => a.version ≤ b.version :=
  ⟨fun _ _ _ => le_trans⟩

instance : Std.Total fun a b : Event F => a.getVersion ≤ b.getVersion :=
  ⟨fun a b => le_total a.getVersion b.getVersion⟩

instance : IsTrans (Event F) fun a b => a.getVersion ≤ b.getVersion :=
  ⟨fun _ _ _ => le_trans⟩

theorem Stores.history_strict (h : Stores c table log) (aggregateID aggregateType : String) :
    (history log aggregateID aggregateType).Pairwise
      fun a b => a.getVersion < b.getVersion := by
  have hunique : log.Pairwise fun a b => ¬ (a.getAggregateID = b.getAggregateID
      ∧ a.getAggregateType = b.getAggregateType ∧ a.getVersion = b.getVersion) := by
    refine forall₂_pairwise h table.unique fun {a a' b b'} hb hb' hconflict hsame => ?_
    apply hconflict
    right
    rw [hb.aggregateID, hb'.aggregateID, hb.aggregateType, hb'.aggregateType, hb.version,
      hb'.version]
    exact hsame
  have hne : (history log aggregateID aggregateType).Pairwise
      fun a b => a.getVersion ≠ b.getVersion := by
    refine ((List.perm_insertionSort _ _).pairwise_iff (fun {a b} => Ne.symm)).mpr ?_
    refine (hunique.sublist List.filter_sublist).imp_of_mem fun {a b} ha hb hab hv => ?_
    simp only [List.mem_filter, decide_eq_true_eq] at ha hb
    exact hab ⟨ha.2.1.trans hb.2.1.symm, ha.2.2.trans hb.2.2.symm, hv⟩
  exact ((List.pairwise_insertionSort _ _).and hne).imp fun h => lt_of_le_of_ne h.1 h.2

/-- The rows of a query are those of the events it selects, by version. -/
theorem Stores.selected (h : Stores c table log) {p : EventRow β → Bool} {q : Event F → Bool}
    (hpq : ∀ {row e}, Holds c row e → (p row = true ↔ q e = true)) {events : List (Event F)}
    (hperm : events.Perm (log.filter q))
    (hstrict : events.Pairwise fun a b => a.getVersion < b.getVersion) :
    List.Forall₂ (Holds c) (orderByVersion (table.rows.filter p)) events := by
  have hfilter : List.Forall₂ (Holds c) (table.rows.filter p) (log.filter q) :=
    List.rel_filter (fun _ _ hholds => hpq hholds) h
  obtain ⟨loaded, hloaded, hperm'⟩ := List.perm_comp_forall₂ (List.perm_insertionSort
    (fun a b : EventRow β => a.version ≤ b.version) (table.rows.filter p)) hfilter
  have hsorted : loaded.Pairwise fun a b => a.getVersion ≤ b.getVersion :=
    forall₂_pairwise hloaded (List.pairwise_insertionSort _ _) fun hb hb' hle => by
      rwa [hb.version, hb'.version] at hle
  have heq : loaded = events := by
    have hsame : loaded.Perm events := hperm'.trans hperm.symm
    refine List.Perm.eq_of_pairwise ?_ hsorted (hstrict.imp le_of_lt) hsame
    intro a b ha hb hab hba
    have hnodup : (events.map Event.getVersion).Nodup :=
      List.pairwise_map.mpr (hstrict.imp ne_of_lt)
    exact List.inj_on_of_nodup_map hnodup (hsame.subset ha) hb (le_antisymm hab hba)
  exact heq ▸ hloaded

/-! ## Reading the rows -/

theorem deserializeEvent_name (t : EventType) (payload : β) :
    deserializeEvent c t.name payload = c.unmarshal t payload := by
  cases t <;> rfl

theorem Holds.deserializeEvent {row : EventRow β} {e : Event F} (h : Holds c row e) :
    deserializeEvent c row.eventType row.payload = .ok e := by
  rw [h.eventType, h.named, deserializeEvent_name]
  exact c.unmarshal_marshal h.payload

/-- The loop returns the events of the first `k` rows if `rows.Next` fails
after them, or if there are no others. -/
theorem readRows_holds {rows : List (EventRow β)} {loaded : List (Event F)}
    (h : List.Forall₂ (Holds c) rows loaded) (hscan : ∀ i, faults.scan i = none) {n k : ℕ}
    (hbefore : ∀ i < k, faults.next (n + i) = none)
    (hend : faults.next (n + k) ≠ none ∨ loaded.length ≤ k) (events : List (Event F)) :
    readRows c faults n events rows = .ok (events ++ loaded.take k) := by
  induction h generalizing n k events with
  | nil => simp [readRows]
  | @cons row e rows loaded hrow _ ih =>
      cases k with
      | zero =>
          obtain ⟨err, herr⟩ := Option.ne_none_iff_exists'.mp (hend.resolve_right (by simp))
          rw [Nat.add_zero] at herr
          rw [readRows, herr]
          simp
      | succ k =>
          have hshift (i : ℕ) : n + 1 + i = n + (i + 1) := by omega
          have hnext : faults.next n = none := hbefore 0 (Nat.succ_pos k)
          have hrest := ih (n := n + 1) (k := k)
            (fun i hi => by rw [hshift]; exact hbefore _ (Nat.succ_lt_succ hi))
            (by rw [hshift]; simpa using hend) (events ++ [e])
          rw [List.append_assoc] at hrest
          rw [readRows, hnext, hscan, hrow.deserializeEvent]
          exact hrest

theorem readEvents_holds {rows : List (EventRow β)} {loaded : List (Event F)}
    (h : List.Forall₂ (Holds c) rows loaded) (hquery : faults.query = none)
    (hscan : ∀ i, faults.scan i = none) {k : ℕ} (hbefore : ∀ i < k, faults.next i = none)
    (hend : faults.next k ≠ none ∨ loaded.length ≤ k) :
    readEvents c faults rows = .ok (loaded.take k) := by
  rw [readEvents, hquery]
  exact readRows_holds h hscan (by simpa using hbefore) (by simpa using hend) []

theorem readEvents_none {rows : List (EventRow β)} {loaded : List (Event F)}
    (h : List.Forall₂ (Holds c) rows loaded) : readEvents c .none rows = .ok loaded := by
  rw [readEvents_holds h rfl (fun _ => rfl) (fun _ _ => rfl) (.inr le_rfl), List.take_length]

/-- The rows of `LoadEvents` are those of the history of the aggregate. -/
theorem Stores.ofAggregate (h : Stores c table log) (aggregateID aggregateType : String) :
    List.Forall₂ (Holds c) (table.ofAggregate aggregateID aggregateType)
      (history log aggregateID aggregateType) := by
  refine h.selected (fun {row e} hholds => ?_) (List.perm_insertionSort _ _)
    (h.history_strict aggregateID aggregateType)
  simp only [decide_eq_true_eq]
  rw [hholds.aggregateID, hholds.aggregateType]

/-- And those of `LoadEventsSince` what of it has a higher version. -/
theorem Stores.ofAggregateSince (h : Stores c table log) (aggregateID aggregateType : String)
    (version : Int) :
    List.Forall₂ (Holds c) (table.ofAggregateSince aggregateID aggregateType version)
      ((history log aggregateID aggregateType).filter fun e => version < e.getVersion) := by
  refine h.selected (q := fun e => decide (version < e.getVersion)
    && decide (e.getAggregateID = aggregateID ∧ e.getAggregateType = aggregateType))
    (fun {row e} hholds => ?_) ?_
    ((h.history_strict aggregateID aggregateType).sublist List.filter_sublist)
  · rw [hholds.aggregateID, hholds.aggregateType, hholds.version]
    simp only [decide_eq_true_eq, Bool.and_eq_true, gt_iff_lt]
    tauto
  · rw [← List.filter_filter]
    exact (List.perm_insertionSort _ _).filter _

/-! ## Cuts -/

section

variable {α : Type} {p : α → Bool} {l : List α}

theorem filter_eq_nil_of_head {a : α} (hp : p a = false)
    (h : ∀ b ∈ l, p b = true → p a = true) : l.filter p = [] :=
  List.filter_eq_nil_iff.mpr fun b hb hpb => by simp [h b hb hpb] at hp

theorem takeWhile_eq_filter (h : l.Pairwise fun a b => p b = true → p a = true) :
    l.takeWhile p = l.filter p := by
  induction l with
  | nil => rfl
  | cons a l ih =>
      obtain ⟨ha, hl⟩ := List.pairwise_cons.mp h
      cases hp : p a with
      | true => rw [List.takeWhile_cons_of_pos hp, List.filter_cons_of_pos hp, ih hl]
      | false =>
          rw [List.takeWhile_cons_of_neg (by simp [hp]), List.filter_cons_of_neg (by simp [hp]),
            filter_eq_nil_of_head hp ha]

theorem filter_append_filter_not (h : l.Pairwise fun a b => p b = true → p a = true) :
    l.filter p ++ l.filter (fun a => !p a) = l := by
  induction l with
  | nil => rfl
  | cons a l ih =>
      obtain ⟨ha, hl⟩ := List.pairwise_cons.mp h
      cases hp : p a with
      | true =>
          rw [List.filter_cons_of_pos hp, List.filter_cons_of_neg (by simp [hp]),
            List.cons_append, ih hl]
      | false =>
          have hnone := filter_eq_nil_of_head hp ha
          have hrest := ih hl
          rw [hnone, List.nil_append] at hrest
          rw [List.filter_cons_of_neg (by simp [hp]), List.filter_cons_of_pos (by simp [hp]),
            hnone, hrest, List.nil_append]

/-- A list is cut cleanly if nothing of interest after the cut belongs
before it. -/
theorem pairwise_iff_dropWhile {q : α → Prop} :
    (l.Pairwise fun a b => q b → p b = true → p a = true)
      ↔ ∀ b ∈ l.dropWhile p, p b = true → ¬ q b := by
  induction l with
  | nil => simp
  | cons a l ih =>
      rw [List.pairwise_cons]
      cases hp : p a with
      | true =>
          rw [List.dropWhile_cons_of_pos hp, ← ih]
          exact ⟨And.right, fun h => ⟨fun _ _ _ _ => rfl, h⟩⟩
      | false =>
          rw [List.dropWhile_cons_of_neg (by simp [hp])]
          constructor
          · rintro ⟨h, -⟩ b hb hpb hqb
            rcases List.mem_cons.mp hb with rfl | hb
            · simp [hp] at hpb
            · exact absurd (h b hb hqb hpb) Bool.false_ne_true
          · intro h
            refine ⟨fun b hb hqb hpb => absurd hqb (h b (List.mem_cons_of_mem _ hb) hpb), ?_⟩
            exact List.pairwise_of_forall_mem_list fun _ _ b hb hqb hpb =>
              absurd hqb (h b (List.mem_cons_of_mem _ hb) hpb)

theorem filter_eq_takeWhile_append :
    l.filter p = l.takeWhile p ++ (l.dropWhile p).filter p := by
  conv_lhs => rw [← List.takeWhile_append_dropWhile (p := p) (l := l), List.filter_append]
  congr 1
  exact List.filter_eq_self.mpr fun _ => List.mem_takeWhile_imp

end

end

section

variable {F : Type} [Zero F] [Add F] [Sub F] [Mul F] [Div F] [LT F] [DecidableLT F]

namespace OrderState

theorem applyUntil_eq (f : Event F → Int) (cut : Int) (s : OrderState F)
    (events : List (Event F)) :
    s.applyUntil (fun e => f e > cut) events
      = s.applyAll (events.takeWhile fun e => f e ≤ cut) := by
  induction events generalizing s with
  | nil => rfl
  | cons e events ih =>
      rw [applyUntil]
      by_cases h : f e ≤ cut
      · rw [List.takeWhile_cons_of_pos (by simpa using h), applyAll_cons, ← ih,
          if_neg (by simpa using h)]
      · rw [List.takeWhile_cons_of_neg (by simpa using h), if_pos (by simpa using h)]
        rfl

end OrderState

/-- `Apply` has a case for the event. -/
def Event.Acts (e : Event F) : Prop := e.type ≠ .tradeExecuted

instance (e : Event F) : Decidable e.Acts := inferInstanceAs (Decidable (_ ≠ _))

namespace OrderState

theorem apply_of_not_acts {s : OrderState F} {e : Event F} (h : ¬ e.Acts) : s.apply e = s := by
  cases e with
  | tradeExecuted e => rfl
  | _ => exact absurd (by simp [Event.Acts, Event.type]) h

/-- Every case of `Apply` sets the version and the status. -/
theorem apply_of_acts {s : OrderState F} {e : Event F} (h : e.Acts) :
    (s.apply e).version = e.getVersion ∧ (s.apply e).status ≠ "" := by
  cases e with
  | orderPlaced e => exact ⟨rfl, by simp [apply]⟩
  | orderCancelled e => exact ⟨rfl, by simp [apply]⟩
  | orderPartiallyFilled e =>
      simp only [apply]
      split
      · exact ⟨rfl, by simp⟩
      · exact ⟨rfl, by simp⟩
  | orderFilled e => exact ⟨rfl, by simp [apply]⟩
  | tradeExecuted e => exact absurd rfl h

theorem applyAll_of_not_acts {s : OrderState F} {events : List (Event F)}
    (h : ∀ e ∈ events, ¬ e.Acts) : s.applyAll events = s := by
  induction events with
  | nil => rfl
  | cons e events ih =>
      rw [applyAll_cons, apply_of_not_acts (h e List.mem_cons_self)]
      exact ih fun e' he' => h e' (List.mem_cons_of_mem _ he')

/-- The version is that of an event that acts, if there is one. -/
theorem applyAll_of_acts {s : OrderState F} {events : List (Event F)}
    (h : ∃ e ∈ events, e.Acts) :
    (∃ e ∈ events, (s.applyAll events).version = e.getVersion)
      ∧ (s.applyAll events).status ≠ "" := by
  -- from the right: the last event acts or changes nothing
  induction events using List.reverseRecOn with
  | nil => simp at h
  | append_singleton events e ih =>
      rw [applyAll_append, applyAll_cons, applyAll_nil]
      by_cases he : e.Acts
      · obtain ⟨hversion, hstatus⟩ := apply_of_acts (s := s.applyAll events) he
        exact ⟨⟨e, by simp, hversion⟩, hstatus⟩
      · obtain ⟨e', he', hacts⟩ := h
        have hmem : e' ∈ events := by
          rcases List.mem_append.mp he' with h | h
          · exact h
          · exact absurd (List.mem_singleton.mp h ▸ hacts) he
        obtain ⟨⟨last, hlast, hversion⟩, hstatus⟩ := ih ⟨e', hmem, hacts⟩
        rw [apply_of_not_acts he]
        exact ⟨⟨last, List.mem_append_left _ hlast, hversion⟩, hstatus⟩

/-- Events of higher versions do not lead back to the same state if one of
them acts. -/
theorem applyAll_ne {events more : List (Event F)} (h : ∃ e ∈ more, e.Acts)
    (hlt : ∀ a ∈ events, ∀ b ∈ more, a.getVersion < b.getVersion) :
    empty.applyAll (events ++ more) ≠ empty.applyAll events := by
  intro heq
  rw [applyAll_append] at heq
  obtain ⟨⟨b, hb, hversion⟩, hstatus⟩ := applyAll_of_acts (s := empty.applyAll events) h
  by_cases hacts : ∃ e ∈ events, e.Acts
  · obtain ⟨⟨a, ha, hversion'⟩, -⟩ := applyAll_of_acts (s := empty) hacts
    rw [heq, hversion'] at hversion
    exact absurd hversion (hlt a ha b hb).ne
  · simp only [not_exists, not_and] at hacts
    rw [heq, applyAll_of_not_acts hacts] at hstatus
    exact hstatus rfl

end OrderState

/-- No event that acts and is not after `cut` comes after one that is. -/
def CleanCut (cut : Time) (events : List (Event F)) : Prop :=
  events.Pairwise fun a b => b.Acts → b.getTimestamp ≤ cut → a.getTimestamp ≤ cut

instance (cut : Time) (events : List (Event F)) : Decidable (CleanCut cut events) :=
  inferInstanceAs (Decidable (List.Pairwise _ _))

theorem OrderState.applyAll_takeWhile_iff {p : Event F → Bool} {events : List (Event F)}
    (hstrict : events.Pairwise fun a b => a.getVersion < b.getVersion) :
    empty.applyAll (events.takeWhile p) = empty.applyAll (events.filter p)
      ↔ events.Pairwise fun a b => b.Acts → p b = true → p a = true := by
  rw [pairwise_iff_dropWhile, filter_eq_takeWhile_append]
  constructor
  · intro heq b hb hpb hacts
    rw [← List.takeWhile_append_dropWhile (p := p) (l := events)] at hstrict
    refine applyAll_ne ⟨b, List.mem_filter.mpr ⟨hb, hpb⟩, hacts⟩ ?_ heq.symm
    intro a ha b' hb'
    exact (List.pairwise_append.mp hstrict).2.2 a ha b' (List.mem_of_mem_filter hb')
  · intro h
    rw [applyAll_append, applyAll_of_not_acts (s := empty.applyAll (events.takeWhile p))]
    intro e he
    exact h e (List.mem_of_mem_filter he) (List.of_mem_filter he)

variable {β : Type} {c : EventCodec β F} {table : EventTable β} {log : List (Event F)}

/-- The replay to a version applies the events up to it, and those that
`LoadEventsSince` returns lead from there to the replayed order. The
replay to a time applies the events up to it if no event that acts is
older than one of a lower version that is past the cut, and only then. -/
theorem replays_up_to_cut (h : Stores c table log) (orderID : UUID) (version : Int)
    (cut : Time) :
    let events := history log (uuidText orderID) "Order"
    let upTo : OrderState F := .applyAll .empty (events.filter fun e => e.getVersion ≤ version)
    replayOrderToVersion c .none table orderID version = .ok upTo
    ∧ (∃ since, loadEventsSince c .none table (uuidText orderID) "Order" version = .ok since
        ∧ replayOrder c .none table orderID
          = if events = [] then .error (.cause (.orderNotFound orderID))
            else .ok (upTo.applyAll since))
    ∧ (replayOrderToTimestamp c .none table orderID cut
          = .ok (.applyAll .empty (events.filter fun e => e.getTimestamp ≤ cut))
        ↔ CleanCut cut events) := by
  intro events upTo
  have hload : loadEvents c .none table (uuidText orderID) "Order" = .ok events :=
    readEvents_none (h.ofAggregate (uuidText orderID) "Order")
  have hstrict := h.history_strict (uuidText orderID) "Order"
  have hversions : events.Pairwise fun a b =>
      decide (b.getVersion ≤ version) = true → decide (a.getVersion ≤ version) = true :=
    hstrict.imp fun hlt hb => by
      simp only [decide_eq_true_eq] at hb ⊢
      exact hlt.le.trans hb
  refine ⟨?_, ⟨_, readEvents_none (h.ofAggregateSince (uuidText orderID) "Order" version), ?_⟩,
    ?_⟩
  · rw [replayOrderToVersion, hload]
    refine congrArg Except.ok ?_
    rw [OrderState.applyUntil_eq Event.getVersion, takeWhile_eq_filter hversions]
  · rw [replayOrder, hload]
    have hsplit : events.filter (fun e => e.getVersion ≤ version)
        ++ events.filter (fun e => version < e.getVersion) = events := by
      have hall := filter_append_filter_not hversions
      simpa only [← decide_not, not_le] using hall
    by_cases hnil : events = []
    · rw [if_pos hnil]
      exact if_pos (List.length_eq_zero_iff.mpr hnil)
    · rw [if_neg hnil, ← OrderState.applyAll_append, hsplit]
      exact if_neg (mt List.length_eq_zero_iff.mp hnil)
  · rw [replayOrderToTimestamp, hload]
    have hcut := OrderState.applyAll_takeWhile_iff hstrict
      (p := fun e => decide (e.getTimestamp ≤ cut))
    simp only [decide_eq_true_eq] at hcut
    rw [CleanCut, ← hcut, ← OrderState.applyUntil_eq Event.getTimestamp]
    exact ⟨Except.ok.inj, congrArg Except.ok⟩

end

/-- An order of ten that is placed, filled in part and cancelled; the clock that
timed the fill was ahead. -/
def clockAhead : List (Event ℚ) :=
  [.orderPlaced (newOrderPlacedEvent 1 10 7 "client" "BTC-USD" "buy" "limit" 100 10 "GTC" 1),
    .orderPartiallyFilled
      ⟨⟨2, "OrderPartiallyFilled", uuidText 7, "Order", 2, 40⟩, 7, 4, 6, 100, 8⟩,
    .orderCancelled (newOrderCancelledEvent 3 20 7 "user_requested" 3)]

theorem clockAhead_stored :
    Stores (.plain ℚ) (appendAll (.plain ℚ) .empty (clockAhead.map fun e => (none, e)))
      clockAhead := by
  have step {table : EventTable (Event ℚ)} {log : List (Event ℚ)} {e : Event ℚ}
      (h : Stores (.plain ℚ) table log) (hnamed : e.getEventType = e.type.name)
      (hok : (append (.plain ℚ) none table e).1 = none) :
      Stores (.plain ℚ) (append (.plain ℚ) none table e).2 (log ++ [e]) :=
    (h.append hnamed none).resolve_right fun h => h.1 hok
  have hempty : Stores (.plain ℚ) .empty [] := .nil
  refine step (step (step hempty rfl ?_) rfl ?_) rfl ?_
  · rfl
  · simp [append, EventCodec.plain, EventTable.insert, EventTable.empty, EventRow.Conflicts,
      newOrderPlacedEvent]
  · simp [append, EventCodec.plain, EventTable.insert, EventTable.empty, EventRow.Conflicts,
      newOrderPlacedEvent, newOrderCancelledEvent]

theorem clockAhead_history : history clockAhead (uuidText 7) "Order" = clockAhead := by
  simp [history, clockAhead, newOrderPlacedEvent, newOrderCancelledEvent]

/-- At the time of the cut the order has been cancelled; the replay stops
at the fill. -/
theorem replay_misses_cancellation :
    let table := appendAll (.plain ℚ) .empty (clockAhead.map fun e => (none, e))
    let events := history clockAhead (uuidText 7) "Order"
    Stores (.plain ℚ) table clockAhead
    ∧ (replayOrderToTimestamp (.plain ℚ) .none table 7 30).map OrderState.status = .ok "open"
    ∧ (OrderState.applyAll .empty (events.filter fun e => e.getTimestamp ≤ 30)).status
        = "cancelled" := by
  refine ⟨clockAhead_stored, ?_, ?_⟩
  · rw [replayOrderToTimestamp, loadEvents, readEvents_none (clockAhead_stored.ofAggregate _ _),
      clockAhead_history]
    rfl
  · rw [clockAhead_history]
    rfl

theorem clockAhead_replays :
    let table := appendAll (.plain ℚ) .empty (clockAhead.map fun e => (none, e))
    let events := history clockAhead (uuidText 7) "Order"
    replayOrderToVersion (.plain ℚ) .none table 7 2
        = .ok (.applyAll .empty (events.filter fun e => e.getVersion ≤ 2))
    ∧ replayOrderToTimestamp (.plain ℚ) .none table 7 15
        = .ok (.applyAll .empty (events.filter fun e => e.getTimestamp ≤ 15)) := by
  obtain ⟨hversion, -, htime⟩ := replays_up_to_cut clockAhead_stored 7 2 15
  refine ⟨hversion, htime.mpr ?_⟩
  simp [CleanCut, history, clockAhead, newOrderPlacedEvent, newOrderCancelledEvent]

/-! ## Rows that are not read -/

section

variable {β F : Type} {c : EventCodec β F} {faults : RowFaults} {k : ℕ}
  {rows : List (EventRow β)}

/-- `rows.Next` fails after `k` of the rows. -/
structure Interrupted (faults : RowFaults) (k : ℕ) (rows : List (EventRow β)) : Prop where
  left : k < rows.length
  stops : faults.next k ≠ none
  before : ∀ i < k, faults.next i = none

/-- Row `i` cannot be scanned, or its payload is not the JSON of an event
of its type. -/
def Unreadable (c : EventCodec β F) (faults : RowFaults) (i : ℕ) (row : EventRow β) : Prop :=
  faults.scan i ≠ none ∨ ∃ err, deserializeEvent c row.eventType row.payload = .error err

/-- The query fails, or one of the first `k` rows is unreadable. -/
def FailsBefore (c : EventCodec β F) (faults : RowFaults) (k : ℕ) (rows : List (EventRow β)) :
    Prop :=
  faults.query ≠ none ∨ ∃ i < k, ∃ row, rows[i]? = some row ∧ Unreadable c faults i row

/-- What the loop makes of rows that end early: an error if one of the
rows before is unreadable, and otherwise the events of those rows. -/
theorem readRows_interrupted {n : ℕ} (hleft : k < rows.length)
    (hstops : faults.next (n + k) ≠ none) (hbefore : ∀ i < k, faults.next (n + i) = none)
    (events : List (Event F)) :
    (∃ err, readRows c faults n events rows = .error err)
      ∧ (∃ i < k, ∃ row, rows[i]? = some row ∧ Unreadable c faults (n + i) row)
    ∨ (∃ loaded, loaded.length = k ∧ readRows c faults n events rows = .ok (events ++ loaded))
      ∧ ∀ i < k, ∀ row, rows[i]? = some row → ¬ Unreadable c faults (n + i) row := by
  induction k generalizing n rows events with
  | zero =>
      obtain ⟨err, herr⟩ := Option.ne_none_iff_exists'.mp hstops
      cases rows with
      | nil => simp at hleft
      | cons row rows =>
          refine .inr ⟨⟨[], rfl, ?_⟩, by simp⟩
          simp only [Nat.add_zero] at herr
          simp [readRows, herr]
  | succ k ih =>
      cases rows with
      | nil => simp at hleft
      | cons row rows =>
          have hnext : faults.next n = none := hbefore 0 (Nat.succ_pos k)
          by_cases hrow : Unreadable c faults n row
          · refine .inl ⟨?_, 0, Nat.succ_pos k, row, rfl, hrow⟩
            rw [readRows, hnext]
            cases hscan : faults.scan n with
            | some err => exact ⟨_, rfl⟩
            | none =>
                obtain ⟨err, herr⟩ := hrow.resolve_left (by simp [hscan])
                exact ⟨_, by rw [herr]; rfl⟩
          · have hread : ∃ event, readRows c faults n events (row :: rows)
                = readRows c faults (n + 1) (events ++ [event]) rows := by
              simp only [Unreadable, not_or, not_not] at hrow
              rw [readRows, hnext, hrow.1]
              cases hevent : deserializeEvent c row.eventType row.payload with
              | error err => exact absurd ⟨err, hevent⟩ hrow.2
              | ok event => exact ⟨event, rfl⟩
            obtain ⟨event, hread⟩ := hread
            rw [hread]
            have hshift (i : ℕ) : n + 1 + i = n + (i + 1) := by omega
            rcases ih (n := n + 1) (by simpa using hleft) (by rwa [hshift])
              (fun i hi => by rw [hshift]; exact hbefore _ (Nat.succ_lt_succ hi))
              (events ++ [event]) with ⟨herr, i, hi, row', hrow', hun⟩ | ⟨⟨loaded, hlen, hok⟩, hall⟩
            · exact .inl ⟨herr, i + 1, Nat.succ_lt_succ hi, row', hrow', hshift i ▸ hun⟩
            · refine .inr ⟨⟨event :: loaded, by simp [hlen], by simpa using hok⟩, ?_⟩
              intro i hi row' hrow'
              cases i with
              | zero => exact Option.some.inj hrow' ▸ hrow
              | succ i => exact hshift i ▸ hall i (Nat.lt_of_succ_lt_succ hi) row' hrow'

theorem readEvents_interrupted (h : Interrupted faults k rows) :
    (∃ err, readEvents c faults rows = .error err) ∧ FailsBefore c faults k rows
    ∨ (∃ loaded, loaded.length = k ∧ readEvents c faults rows = .ok loaded)
      ∧ ¬ FailsBefore c faults k rows := by
  unfold readEvents FailsBefore
  cases hquery : faults.query with
  | some err => exact .inl ⟨⟨_, rfl⟩, .inl (by simp)⟩
  | none =>
      rcases readRows_interrupted (c := c) (n := 0) h.left (by simpa using h.stops)
        (by simpa using h.before) [] with ⟨herr, hun⟩ | ⟨hok, hall⟩
      · exact .inl ⟨herr, .inr (by simpa using hun)⟩
      · refine .inr ⟨hok, ?_⟩
        simpa using hall

theorem readEvents_error_iff (h : Interrupted faults k rows) :
    (∃ err, readEvents c faults rows = .error err) ↔ FailsBefore c faults k rows := by
  rcases readEvents_interrupted (c := c) h with ⟨herr, hfails⟩ | ⟨⟨loaded, -, hok⟩, hnot⟩
  · exact iff_of_true herr hfails
  · exact iff_of_false (by simp [hok]) hnot

theorem bind_wrapChain_error_iff {α γ : Type} {message : String} {x : Except ErrorChain α}
    {f : α → Except ErrorChain γ} :
    (∃ err, wrapChain message x >>= f = .error err)
      ↔ (∃ err, x = .error err) ∨ ∃ a, x = .ok a ∧ ∃ err, f a = .error err := by
  cases x with
  | error err => exact iff_of_true ⟨_, rfl⟩ (.inl ⟨_, rfl⟩)
  | ok a =>
      constructor
      · intro h
        exact .inr ⟨a, rfl, h⟩
      · intro h
        simpa [wrapChain, Except.mapError] using h

/-- Rows that end early are an error only if something else goes wrong
before: `LoadEvents` and `LoadEventsSince` return the events they have,
and the replays the state made of them. `ReplayOrder` fails if there are
none. -/
theorem interrupted_error_iff [Zero F] [Add F] [Sub F] [Mul F] [Div F] [LT F] [DecidableLT F]
    (c : EventCodec β F) (faults : RowFaults) (table : EventTable β) (k : ℕ) :
    (∀ aggregateID aggregateType,
      let rows := table.ofAggregate aggregateID aggregateType
      Interrupted faults k rows →
        ((∃ err, loadEvents c faults table aggregateID aggregateType = .error err)
          ↔ FailsBefore c faults k rows))
    ∧ (∀ aggregateID aggregateType version,
      let rows := table.ofAggregateSince aggregateID aggregateType version
      Interrupted faults k rows →
        ((∃ err, loadEventsSince c faults table aggregateID aggregateType version = .error err)
          ↔ FailsBefore c faults k rows))
    ∧ ∀ orderID,
      let rows := table.ofAggregate (uuidText orderID) "Order"
      Interrupted faults k rows →
        ((∃ err, replayOrder c faults table orderID = .error err)
            ↔ FailsBefore c faults k rows ∨ k = 0)
        ∧ (∀ version, (∃ err, replayOrderToVersion c faults table orderID version = .error err)
            ↔ FailsBefore c faults k rows)
        ∧ ∀ time, (∃ err, replayOrderToTimestamp c faults table orderID time = .error err)
            ↔ FailsBefore c faults k rows := by
  refine ⟨fun _ _ => readEvents_error_iff, fun _ _ _ => readEvents_error_iff, ?_⟩
  intro orderID rows h
  have herror := readEvents_error_iff (c := c) h
  refine ⟨?_, fun version => ?_, fun time => ?_⟩
  · rw [replayOrder, bind_wrapChain_error_iff, loadEvents, herror]
    refine or_congr_right' fun hnot => ?_
    obtain ⟨⟨loaded, hlen, hok⟩, -⟩ :=
      (readEvents_interrupted (c := c) h).resolve_left fun h => hnot h.2
    constructor
    · rintro ⟨events, hevents, err, herr⟩
      obtain rfl : loaded = events := Except.ok.inj (hok.symm.trans hevents)
      by_contra hk
      rw [if_neg (hlen ▸ hk)] at herr
      cases herr
    · rintro rfl
      exact ⟨loaded, hok, _, if_pos hlen⟩
  · rw [replayOrderToVersion, bind_wrapChain_error_iff, loadEvents, herror]
    simp
  · rw [replayOrderToTimestamp, bind_wrapChain_error_iff, loadEvents, herror]
    simp

end

def lostAfterOne : RowFaults :=
  ⟨none, fun i => if i = 1 then some (.cause .connectionFailure) else none, fun _ => none⟩

/-- The order has been cancelled, and the replays report it open. -/
theorem replay_of_prefix_reported :
    let table := appendAll (.plain ℚ) .empty (clockAhead.map fun e => (none, e))
    let placed : OrderState ℚ := .applyAll .empty (clockAhead.take 1)
    Interrupted lostAfterOne 1 (table.ofAggregate (uuidText 7) "Order")
    ∧ loadEvents (.plain ℚ) lostAfterOne table (uuidText 7) "Order" = .ok (clockAhead.take 1)
    ∧ loadEventsSince (.plain ℚ) lostAfterOne table (uuidText 7) "Order" 0
        = .ok (clockAhead.take 1)
    ∧ replayOrder (.plain ℚ) lostAfterOne table 7 = .ok placed
    ∧ replayOrderToVersion (.plain ℚ) lostAfterOne table 7 3 = .ok placed
    ∧ replayOrderToTimestamp (.plain ℚ) lostAfterOne table 7 50 = .ok placed := by
  intro table placed
  have hrows := clockAhead_stored.ofAggregate (uuidText 7) "Order"
  have hsince := clockAhead_stored.ofAggregateSince (uuidText 7) "Order" 0
  have hall : clockAhead.filter (fun e => 0 < e.getVersion) = clockAhead := rfl
  have hlost : ∀ i < 1, lostAfterOne.next i = none := by decide
  have hload {rows : List (EventRow (Event ℚ))}
      (h : List.Forall₂ (Holds (.plain ℚ)) rows clockAhead) :
      readEvents (.plain ℚ) lostAfterOne rows = .ok (clockAhead.take 1) :=
    readEvents_holds h rfl (fun _ => rfl) hlost (.inl (by decide))
  rw [clockAhead_history] at hrows hsince
  rw [hall] at hsince
  have hlength : 1 < (table.ofAggregate (uuidText 7) "Order").length := by
    rw [hrows.length_eq]
    decide
  refine ⟨⟨hlength, by decide, hlost⟩, hload hrows, hload hsince, ?_, ?_, ?_⟩
  · rw [replayOrder, loadEvents, hload hrows]
    rfl
  · rw [replayOrderToVersion, loadEvents, hload hrows]
    rfl
  · rw [replayOrderToTimestamp, loadEvents, hload hrows]
    rfl

theorem lost_and_unscanned_errors :
    let table := appendAll (.plain ℚ) .empty (clockAhead.map fun e => (none, e))
    let faults := { lostAfterOne with scan := fun _ => some (.cause .connectionFailure) }
    (∃ err, loadEvents (.plain ℚ) faults table (uuidText 7) "Order" = .error err)
    ∧ ∃ err, replayOrder (.plain ℚ) faults table 7 = .error err := by
  intro table faults
  have hrows := clockAhead_stored.ofAggregate (uuidText 7) "Order"
  rw [clockAhead_history] at hrows
  have hlength : 1 < (table.ofAggregate (uuidText 7) "Order").length := by
    rw [hrows.length_eq]
    decide
  have hinterrupted : Interrupted faults 1 (table.ofAggregate (uuidText 7) "Order") :=
    ⟨hlength, by decide, by decide⟩
  have hfails : FailsBefore (.plain ℚ) faults 1 (table.ofAggregate (uuidText 7) "Order") :=
    .inr ⟨0, one_pos, _, List.getElem?_eq_getElem (by omega), .inl (by decide)⟩
  obtain ⟨hload, -, hreplay⟩ := interrupted_error_iff (.plain ℚ) faults table 1
  exact ⟨(hload _ _ hinterrupted).mpr hfails, (hreplay 7 hinterrupted).1.mpr (.inl hfails)⟩

end TradingBackend.EventSourcing
