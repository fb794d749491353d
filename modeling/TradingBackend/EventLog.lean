import TradingBackend.EventStore
import TradingBackend.Trace

/-!
# The log of one order

The `record_` functions touch the events and the row of one order only,
so the tables are as many independent logs as there are orders: a call
is a step of the log of its order (`EventTables.record_log`,
`EventTables.record_of_log`), and a run of the tables is, for each order,
a run of its log over the calls for it (`EventTables.log_run`).

In a log the events are the calls, numbered from one on (`OrderLog.run_events`),
and replaying one event more is one step more of the loop
(`OrderLog.replay_record`).
-/

namespace TradingBackend

/-! ## Lists -/

section

variable {α β : Type} {r : α → α → Prop} [DecidableRel r]

theorem orderedInsert_concat {a b : α} (h : r a b) (l : List α) :
    (l ++ [b]).orderedInsert r a = l.orderedInsert r a ++ [b] := by
  induction l with
  | nil => simp [h]
  | cons c l ih =>
      rw [List.cons_append, List.orderedInsert_cons, List.orderedInsert_cons, ih]
      split <;> rfl

theorem insertionSort_concat {b : α} {l : List α} (h : ∀ a ∈ l, r a b) :
    (l ++ [b]).insertionSort r = l.insertionSort r ++ [b] := by
  induction l with
  | nil => rfl
  | cons a l ih =>
      rw [List.cons_append, List.insertionSort_cons, List.insertionSort_cons,
        ih fun x hx => h x (List.mem_cons_of_mem a hx),
        orderedInsert_concat (h a List.mem_cons_self)]

/-- What every successful step of a fold keeps, the fold keeps. -/
theorem foldlM_invariant {P : β → Prop} {f : β → α → Option β} {l : List α} {b b' : β}
    (h : l.foldlM f b = some b') (h₀ : P b)
    (hstep : ∀ a ∈ l, ∀ {b b'}, P b → f b a = some b' → P b') : P b' := by
  induction l generalizing b with
  | nil =>
      obtain rfl := Option.some.inj h
      exact h₀
  | cons a l ih =>
      obtain ⟨b₁, hb₁, hrest⟩ := Option.bind_eq_some_iff.mp (List.foldlM_cons.symm.trans h)
      exact ih hrest (hstep a List.mem_cons_self h₀ hb₁)
        fun x hx => hstep x (List.mem_cons_of_mem a hx)

theorem foldlM_concat (f : β → α → Option β) (b : β) (l : List α) (a : α) :
    (l ++ [a]).foldlM f b = (l.foldlM f b).bind (f · a) := by
  rw [List.foldlM_append]
  simp

theorem le_foldr_max {l : List Nat} {n : Nat} (h : n ∈ l) : n ≤ l.foldr max 0 := by
  induction l with
  | nil => cases h
  | cons m l ih =>
      rw [List.foldr_cons]
      rcases List.mem_cons.mp h with rfl | h
      · exact Nat.le_max_left ..
      · exact (ih h).trans (Nat.le_max_right ..)

theorem foldr_max_concat {l : List Nat} {n : Nat} (h : ∀ m ∈ l, m < n) :
    (l ++ [n]).foldr max 0 = n := by
  induction l with
  | nil => exact Nat.max_eq_left (Nat.zero_le n)
  | cons m l ih =>
      have hm := h m List.mem_cons_self
      rw [List.cons_append, List.foldr_cons, ih fun x hx => h x (List.mem_cons_of_mem m hx)]
      omega

end

/-! ## The row -/

section

variable {row row' : SnapshotState}

theorem SnapshotState.check_eq_some (h : row.check = some row') :
    row' = row ∧ row.check = some row := by
  have heq : row' = row := by
    unfold SnapshotState.check at h
    split at h
    · exact (Option.some.inj h).symm
    · cases h
  exact ⟨heq, heq ▸ h⟩

/-- What the columns make of a row that is inserted. -/
theorem SnapshotState.stored_eq_some (h : row.stored = some row') :
    varchar 255 row.clientID = some row'.clientID
      ∧ varchar 50 row.instrument = some row'.instrument
      ∧ numeric 20 8 row.price = some row'.price
      ∧ numeric 20 8 row.quantity = some row'.quantity
      ∧ numeric 20 8 row.filledQuantity = some row'.filledQuantity
      ∧ row' = { row with
          clientID := row'.clientID, instrument := row'.instrument, price := row'.price,
          quantity := row'.quantity, filledQuantity := row'.filledQuantity }
      ∧ row'.check = some row' := by
  simp only [SnapshotState.stored, Option.bind_eq_bind, Option.bind_eq_some_iff] at h
  obtain ⟨c, hc, i, hi, p, hp, q, hq, f, hf, hcheck⟩ := h
  obtain ⟨rfl, hself⟩ := SnapshotState.check_eq_some hcheck
  exact ⟨hc, hi, hp, hq, hf, rfl, hself⟩

def SnapshotState.Fits (row : SnapshotState) : Prop := row.stored = some row

theorem SnapshotState.fits_iff : row.Fits ↔
    varchar 255 row.clientID = some row.clientID
      ∧ varchar 50 row.instrument = some row.instrument
      ∧ numeric 20 8 row.price = some row.price
      ∧ numeric 20 8 row.quantity = some row.quantity
      ∧ numeric 20 8 row.filledQuantity = some row.filledQuantity
      ∧ row.check = some row := by
  constructor
  · intro h
    obtain ⟨hc, hi, hp, hq, hf, -, hcheck⟩ := SnapshotState.stored_eq_some h
    exact ⟨hc, hi, hp, hq, hf, hcheck⟩
  · rintro ⟨hc, hi, hp, hq, hf, hcheck⟩
    simp only [SnapshotState.Fits, SnapshotState.stored, hc, hi, hp, hq, hf, Option.bind_eq_bind,
      Option.bind_some]
    exact hcheck

theorem SnapshotState.stored_fits (h : row.stored = some row') : row'.Fits := by
  obtain ⟨hc, hi, hp, hq, hf, -, hcheck⟩ := SnapshotState.stored_eq_some h
  exact SnapshotState.fits_iff.mpr ⟨varchar_idem hc, varchar_idem hi, numeric_idem hp,
    numeric_idem hq, numeric_idem hf, hcheck⟩

end

/-! ## The log -/

/-- An order's part of the tables. -/
structure OrderLog where
  events : List OrderEvent
  row : Option SnapshotState
deriving DecidableEq

namespace OrderLog

def empty : OrderLog := ⟨[], none⟩

def nextSequence (log : OrderLog) : Nat :=
  (log.events.map OrderEvent.sequenceNumber).foldr max 0 + 1

/-- A `record_` function as the log of its order sees it: the event gets the next
number, and the row is written by it. -/
def record (log : OrderLog) (c : RecordCall) : Option OrderLog := do
  let row ← c.data.write c.timestamp log.nextSequence log.row
  some ⟨log.events ++ [⟨c, log.nextSequence⟩], row⟩

def run (calls : List RecordCall) : Option OrderLog := calls.foldlM record empty

def replay (log : OrderLog) : Option ReplayState :=
  (log.events.insertionSort fun e e' => e.sequenceNumber ≤ e'.sequenceNumber).foldlM
    ReplayState.apply ReplayState.start

def numbered (calls : List RecordCall) : List OrderEvent :=
  calls.mapIdx fun i c => ⟨c, i + 1⟩

variable {log log' : OrderLog} {c : RecordCall} {calls : List RecordCall}

theorem record_eq_some (h : log.record c = some log') :
    c.data.write c.timestamp log.nextSequence log.row = some log'.row
      ∧ log'.events = log.events ++ [⟨c, log.nextSequence⟩] := by
  obtain ⟨row, hrow, hlog⟩ := Option.bind_eq_some_iff.mp h
  obtain rfl := Option.some.inj hlog
  exact ⟨hrow, rfl⟩

theorem lt_nextSequence (log : OrderLog) {e : OrderEvent} (h : e ∈ log.events) :
    e.sequenceNumber < log.nextSequence :=
  Nat.lt_succ_of_le (le_foldr_max (List.mem_map_of_mem h))

theorem run_concat : run (calls ++ [c]) = (run calls).bind (·.record c) :=
  foldlM_concat ..

theorem replay_empty : empty.replay = some ReplayState.start := rfl

theorem replay_record (h : log.record c = some log') :
    log'.replay = log.replay.bind (·.apply ⟨c, log.nextSequence⟩) := by
  have hle : ∀ e ∈ log.events, e.sequenceNumber ≤ log.nextSequence :=
    fun e he => (lt_nextSequence log he).le
  unfold replay
  rw [(record_eq_some h).2, insertionSort_concat hle, foldlM_concat]

theorem nextSequence_record (h : log.record c = some log') :
    log'.nextSequence = log.nextSequence + 1 := by
  have hlt : ∀ m ∈ log.events.map OrderEvent.sequenceNumber, m < log.nextSequence := by
    intro m hm
    obtain ⟨e, he, rfl⟩ := List.mem_map.mp hm
    exact lt_nextSequence log he
  show (log'.events.map OrderEvent.sequenceNumber).foldr max 0 + 1 = _
  rw [(record_eq_some h).2, List.map_append]
  exact congrArg (· + 1) (foldr_max_concat hlt)

/-- What holds of the empty log and is kept by every call holds after a run. -/
theorem run_invariant {P : List RecordCall → OrderLog → Prop} (h : run calls = some log)
    (h₀ : P [] empty)
    (hstep : ∀ {calls log c log'}, run calls = some log → P calls log →
      log.record c = some log' → P (calls ++ [c]) log') : P calls log := by
  induction calls using List.reverseRecOn generalizing log with
  | nil =>
      obtain rfl := Option.some.inj h
      exact h₀
  | append_singleton calls c ih =>
      rw [run_concat] at h
      obtain ⟨before, hbefore, hc⟩ := Option.bind_eq_some_iff.mp h
      exact hstep hbefore (ih hbefore) hc

theorem run_nextSequence (h : run calls = some log) : log.nextSequence = calls.length + 1 := by
  refine run_invariant (P := fun calls log => log.nextSequence = calls.length + 1) h rfl ?_
  intro calls log c log' _ ih hc
  rw [nextSequence_record hc, ih, List.length_append, List.length_singleton]

theorem exists_numbered {n : Nat} (hpos : 0 < n) (hle : n ≤ calls.length) :
    ∃ e ∈ numbered calls, e.sequenceNumber = n := by
  have hlt : n - 1 < (numbered calls).length := by
    rw [numbered, List.length_mapIdx]
    omega
  refine ⟨_, List.getElem_mem hlt, ?_⟩
  simp only [numbered, List.getElem_mapIdx]
  omega

theorem numbered_sequence (calls : List RecordCall) :
    (numbered calls).map OrderEvent.sequenceNumber = List.range' 1 calls.length := by
  apply List.ext_getElem
  · simp [numbered]
  · intro i _ _
    simp [numbered, Nat.add_comm]

theorem numbered_calls (calls : List RecordCall) :
    (numbered calls).map OrderEvent.toRecordCall = calls := by
  apply List.ext_getElem
  · simp [numbered]
  · intro i _ _
    simp [numbered]

theorem numbered_concat (calls : List RecordCall) (c : RecordCall) :
    numbered (calls ++ [c]) = numbered calls ++ [⟨c, calls.length + 1⟩] := by
  simp [numbered]

theorem run_events (h : run calls = some log) : log.events = numbered calls := by
  refine run_invariant (P := fun calls log => log.events = numbered calls) h rfl ?_
  intro calls log c log' hbefore ih hc
  rw [(record_eq_some hc).2, ih, run_nextSequence hbefore, numbered_concat]

theorem replay_run (h : run calls = some log) :
    log.replay = (numbered calls).foldlM ReplayState.apply ReplayState.start := by
  refine run_invariant (P := fun calls log =>
    log.replay = (numbered calls).foldlM ReplayState.apply ReplayState.start) h rfl ?_
  intro calls log c log' hbefore ih hc
  rw [replay_record hc, ih, run_nextSequence hbefore, numbered_concat, foldlM_concat]

end OrderLog

/-! ## The tables -/

theorem EventData.write_none {d : EventData} {t : Time} {n : Nat} {row : Option SnapshotState}
    (h : d.write t n row = some none) : row = none := by
  cases row with
  | none => rfl
  | some row =>
      cases d <;>
        simp [EventData.write, Option.bind_eq_some_iff] at h

namespace EventTables

def Recorded (db : EventTables) (c : RecordCall) (db' : EventTables) : Prop :=
  db.record c = some db'

def log (db : EventTables) (orderID : UUID) : OrderLog :=
  ⟨db.eventsOf orderID, db.snapshot.lookup orderID⟩

variable {db db' : EventTables} {c : RecordCall} {calls : List RecordCall}

theorem lookup_setRow (snapshot : Finmap fun _ : UUID => SnapshotState) (orderID id : UUID)
    (row : Option SnapshotState) (h : row = none → snapshot.lookup orderID = none) :
    (setRow snapshot orderID row).lookup id = if id = orderID then row else snapshot.lookup id := by
  cases row with
  | none =>
      by_cases hid : id = orderID
      · rw [if_pos hid, hid]
        exact h rfl
      · rw [if_neg hid]
        rfl
  | some row =>
      by_cases hid : id = orderID
      · rw [if_pos hid, hid]
        exact Finmap.lookup_insert snapshot
      · rw [if_neg hid]
        exact Finmap.lookup_insert_of_ne snapshot hid

/-- `UNIQUE (order_id, sequence_number)` is never violated by a call that
runs alone. -/
theorem sequence_unused (db : EventTables) (orderID : UUID) :
    ¬((db.eventsOf orderID).any fun e =>
      e.sequenceNumber = db.getNextSequenceNumber orderID) = true := by
  simp only [List.any_eq_true, decide_eq_true_eq, not_exists, not_and]
  intro e he
  exact (OrderLog.lt_nextSequence (db.log orderID) he).ne

theorem record_eq : db.record c =
    (c.data.write c.timestamp (db.getNextSequenceNumber c.orderID)
      (db.snapshot.lookup c.orderID)).bind fun row =>
        some ⟨db.events ++ [⟨c, db.getNextSequenceNumber c.orderID⟩],
          setRow db.snapshot c.orderID row⟩ := by
  unfold record
  rw [if_neg (db.sequence_unused c.orderID)]
  rfl

theorem record_log (h : db.record c = some db') :
    (db.log c.orderID).record c = some (db'.log c.orderID)
      ∧ ∀ id, id ≠ c.orderID → db'.log id = db.log id := by
  rw [record_eq] at h
  obtain ⟨row, hrow, hdb⟩ := Option.bind_eq_some_iff.mp h
  obtain rfl := Option.some.inj hdb
  have hlookup := fun id => lookup_setRow db.snapshot c.orderID id row
    fun hnone => EventData.write_none (hnone ▸ hrow)
  constructor
  · have hwrite : c.data.write c.timestamp (db.log c.orderID).nextSequence
        (db.log c.orderID).row = some row := hrow
    simp only [OrderLog.record, hwrite, Option.bind_eq_bind, Option.bind_some, Option.some.injEq]
    simp [log, eventsOf, hlookup, getNextSequenceNumber, OrderLog.nextSequence]
  · intro id hid
    simp [log, eventsOf, hlookup, hid, hid.symm]

theorem record_of_log {log : OrderLog} (h : (db.log c.orderID).record c = some log) :
    ∃ db', db.record c = some db' := by
  obtain ⟨hwrite, -⟩ := OrderLog.record_eq_some h
  rw [record_eq]
  exact ⟨_, Option.bind_eq_some_iff.mpr ⟨log.row, hwrite, rfl⟩⟩

theorem log_run (h : Trace Recorded empty calls db) (id : UUID) :
    OrderLog.run (calls.filter fun c => c.orderID = id) = some (db.log id) := by
  refine h.invariant (P := fun calls db =>
    OrderLog.run (calls.filter fun c => c.orderID = id) = some (db.log id)) rfl ?_
  intro calls db c db' ih hstep
  obtain ⟨hsame, hother⟩ := record_log hstep
  rw [List.filter_append]
  by_cases hid : c.orderID = id
  · subst hid
    rw [List.filter_cons_of_pos (by simp), List.filter_nil, OrderLog.run_concat, ih]
    exact hsame
  · rw [List.filter_cons_of_neg (by simpa using hid), List.filter_nil, List.append_nil, ih,
      hother id (Ne.symm hid)]

theorem run_of_log {id : UUID} {log : OrderLog} (hcalls : ∀ c ∈ calls, c.orderID = id)
    (h : OrderLog.run calls = some log) :
    ∃ db, calls.foldlM record empty = some db ∧ db.log id = log := by
  induction calls using List.reverseRecOn generalizing log with
  | nil =>
      obtain rfl := Option.some.inj h
      exact ⟨empty, rfl, rfl⟩
  | append_singleton calls c ih =>
      rw [OrderLog.run_concat] at h
      obtain ⟨before, hbefore, hc⟩ := Option.bind_eq_some_iff.mp h
      obtain ⟨db, hdb, rfl⟩ := ih (fun c' hc' => hcalls c' (List.mem_append_left _ hc')) hbefore
      obtain rfl : c.orderID = id := hcalls c (List.mem_append_right _ List.mem_cons_self)
      obtain ⟨db', hdb'⟩ := record_of_log hc
      refine ⟨db', by rw [foldlM_concat, hdb, Option.bind_some, hdb'], ?_⟩
      exact Option.some.inj ((record_log hdb').1.symm.trans hc)

end EventTables

end TradingBackend
