import TradingBackend.EventReplay

/-!
# Event recording by concurrent transactions

Each call of a `record_` function is a transaction of its own, on any
number of connections (`persistence/order_event_store.go`), and its
statements interleave with those of the others: `get_next_sequence_number`
reads the maximum that is committed, without a lock; the insert into
`order_events` waits for a transaction that holds the same
`(order_id, sequence_number)`, and fails if there is one committed; the
statement on `orders_snapshot` reads the row that is committed; and what
was written is there for the others from the commit on.

No lock on the row of the snapshot is assumed. The unique sequence number
alone does it: of the transactions for an order at most one is past its
insert, and it carries the next number (`Session.Serial`), so that its
commit is the call run alone.
-/

namespace TradingBackend

abbrev TxID := Nat

inductive TxPhase where
  | started
  | numbered (sequence : Nat)
  | inserted (sequence : Nat)
  | written (sequence : Nat) (row : Option SnapshotState)
  | committed
  | aborted
deriving DecidableEq

structure Transaction where
  call : RecordCall
  phase : TxPhase
deriving DecidableEq

/-- The sequence number of the event that the transaction has inserted and
that is not yet committed. -/
def TxPhase.pending : TxPhase → Option Nat
  | .inserted sequence => some sequence
  | .written sequence _ => some sequence
  | _ => none

/-- Neither committed nor aborted. -/
def TxPhase.isOpen : TxPhase → Bool
  | .committed => false
  | .aborted => false
  | _ => true

structure Session where
  tables : EventTables
  txs : TxID → Option Transaction

inductive TxEvent where
  | begin (i : TxID) (c : RecordCall)
  | getNextSequenceNumber (i : TxID)
  | insertEvent (i : TxID)
  | writeSnapshot (i : TxID)
  | commit (i : TxID) (c : RecordCall)
  | abort (i : TxID) (c : RecordCall)

def TxEvent.committed? : TxEvent → Option RecordCall
  | .commit _ c => some c
  | _ => none

namespace Session

def empty : Session := ⟨EventTables.empty, fun _ => none⟩

def move (s : Session) (i : TxID) (c : RecordCall) (phase : TxPhase) : Session :=
  { s with txs := Function.update s.txs i (some ⟨c, phase⟩) }

/-- Another transaction than `i` has inserted this event. -/
def Holds (s : Session) (i : TxID) (orderID : UUID) (sequence : Nat) : Prop :=
  ∃ j tx, j ≠ i ∧ s.txs j = some tx ∧ tx.call.orderID = orderID
    ∧ tx.phase.pending = some sequence

inductive Step (s : Session) : TxEvent → Session → Prop where
  | begin {i c} (h : s.txs i = none) : Step s (.begin i c) (s.move i c .started)
  | getNextSequenceNumber {i c} (h : s.txs i = some ⟨c, .started⟩) :
      Step s (.getNextSequenceNumber i)
        (s.move i c (.numbered (s.tables.getNextSequenceNumber c.orderID)))
  | insertEvent {i c n} (h : s.txs i = some ⟨c, .numbered n⟩)
      (hwait : ¬s.Holds i c.orderID n)
      (hunique : ∀ e ∈ s.tables.eventsOf c.orderID, e.sequenceNumber ≠ n) :
      Step s (.insertEvent i) (s.move i c (.inserted n))
  | writeSnapshot {i c n row} (h : s.txs i = some ⟨c, .inserted n⟩)
      (hwrite : c.data.write c.timestamp n (s.tables.snapshot.lookup c.orderID) = some row) :
      Step s (.writeSnapshot i) (s.move i c (.written n row))
  | commit {i c n row} (h : s.txs i = some ⟨c, .written n row⟩) :
      Step s (.commit i c)
        { s.move i c .committed with
          tables := ⟨s.tables.events ++ [⟨c, n⟩],
            EventTables.setRow s.tables.snapshot c.orderID row⟩ }
  -- a statement that fails, or a connection that is lost
  | abort {i c phase} (h : s.txs i = some ⟨c, phase⟩) (hopen : phase.isOpen = true) :
      Step s (.abort i c) (s.move i c .aborted)

end Session

/-! ## The invariant -/

/-- What holds of a transaction and the committed log of its order: the
number it has read was the next one at some time; once its event is
inserted it is the next one, and the row it has written is what the call
alone would write. -/
def Transaction.Sound (log : OrderLog) (tx : Transaction) : Prop :=
  match tx.phase with
  | .numbered n => 0 < n ∧ n ≤ log.nextSequence
  | .inserted n => n = log.nextSequence
  | .written n row =>
      n = log.nextSequence ∧ tx.call.data.write tx.call.timestamp n log.row = some row
  | _ => True

def Transaction.Pending (tx : Transaction) : Prop := tx.phase.pending.isSome = true

namespace Transaction

variable {log log' : OrderLog} {tx : Transaction} {c : RecordCall} {n : Nat}

theorem Sound.pending (h : tx.Sound log) (hn : tx.phase.pending = some n) :
    n = log.nextSequence := by
  obtain ⟨c, phase⟩ := tx
  cases phase with
  | inserted m =>
      obtain rfl := Option.some.inj hn
      exact h
  | written m row =>
      obtain rfl := Option.some.inj hn
      exact h.1
  | started | numbered | committed | aborted => cases hn

/-- A transaction that has not inserted its event is not concerned by the
commit of another. -/
theorem Sound.record (h : tx.Sound log) (htx : ¬tx.Pending) (hrec : log.record c = some log') :
    tx.Sound log' := by
  obtain ⟨call, phase⟩ := tx
  cases phase with
  | numbered m =>
      have hm : 0 < m ∧ m ≤ log.nextSequence := h
      show 0 < m ∧ m ≤ log'.nextSequence
      rw [OrderLog.nextSequence_record hrec]
      omega
  | inserted | written => exact absurd rfl htx
  | started | committed | aborted => trivial

end Transaction

namespace Session

/-- What is committed is a serial run, and of the transactions for an
order at most one is past its insert. -/
structure Serial (calls : List RecordCall) (s : Session) : Prop where
  run : Trace EventTables.Recorded EventTables.empty calls s.tables
  sound : ∀ i tx, s.txs i = some tx → tx.Sound (s.tables.log tx.call.orderID)
  alone : ∀ i j tx tx', s.txs i = some tx → s.txs j = some tx' → tx.Pending → tx'.Pending →
    tx.call.orderID = tx'.call.orderID → i = j

variable {s s' : Session} {calls : List RecordCall} {e : TxEvent} {i : TxID} {c : RecordCall}
  {phase : TxPhase}

theorem txs_move {j : TxID} {tx : Transaction} (h : (s.move i c phase).txs j = some tx) :
    (j = i ∧ tx = ⟨c, phase⟩) ∨ (j ≠ i ∧ s.txs j = some tx) := by
  have hj : Function.update s.txs i (some ⟨c, phase⟩) j = some tx := h
  by_cases hji : j = i
  · subst hji
    rw [Function.update_self] at hj
    exact .inl ⟨rfl, (Option.some.inj hj).symm⟩
  · rw [Function.update_of_ne hji] at hj
    exact .inr ⟨hji, hj⟩

/-- A transaction moves on while the tables stay as they are. -/
theorem Serial.move (h : Serial calls s)
    (hsound : Transaction.Sound (s.tables.log c.orderID) ⟨c, phase⟩)
    (halone : phase.pending.isSome = true → ∀ j tx, j ≠ i → s.txs j = some tx → tx.Pending →
      tx.call.orderID ≠ c.orderID) : Serial calls (s.move i c phase) where
  run := h.run
  sound := by
    intro j tx hj
    rcases txs_move hj with ⟨-, rfl⟩ | ⟨-, hj⟩
    · exact hsound
    · exact h.sound j tx hj
  alone := by
    intro j k tx tx' hj hk hp hp' heq
    rcases txs_move hj with ⟨hji, rfl⟩ | ⟨hji, hj⟩
    · rcases txs_move hk with ⟨hki, -⟩ | ⟨hki, hk⟩
      · rw [hji, hki]
      · exact absurd heq.symm (halone hp k tx' hki hk hp')
    · rcases txs_move hk with ⟨-, rfl⟩ | ⟨-, hk⟩
      · exact absurd heq (halone hp' j tx hji hj hp)
      · exact h.alone j k tx tx' hj hk hp hp' heq

/-- The number that is inserted is the next one: those below are taken. -/
theorem Serial.insertEvent {n : Nat} (h : Serial calls s) (hi : s.txs i = some ⟨c, .numbered n⟩)
    (hwait : ¬s.Holds i c.orderID n)
    (hunique : ∀ e ∈ s.tables.eventsOf c.orderID, e.sequenceNumber ≠ n) :
    Serial calls (s.move i c (.inserted n)) := by
  have hrun := EventTables.log_run h.run c.orderID
  have hread : 0 < n ∧ n ≤ (s.tables.log c.orderID).nextSequence := h.sound i _ hi
  have hnext : n = (s.tables.log c.orderID).nextSequence := by
    by_contra hne
    rw [OrderLog.run_nextSequence hrun] at hread hne
    have hle := Nat.le_of_lt_succ (lt_of_le_of_ne hread.2 hne)
    obtain ⟨e, he, hn⟩ := OrderLog.exists_numbered hread.1 hle
    rw [← OrderLog.run_events hrun] at he
    exact hunique e he hn
  refine h.move hnext ?_
  intro _ j tx hji hj hp heq
  obtain ⟨m, hm⟩ := Option.isSome_iff_exists.mp hp
  have hsame := (h.sound j tx hj).pending hm
  rw [heq, ← hnext] at hsame
  exact hwait ⟨j, tx, hji, hj, heq, hsame ▸ hm⟩

theorem Serial.commit {n : Nat} {row : Option SnapshotState} (h : Serial calls s)
    (hi : s.txs i = some ⟨c, .written n row⟩) :
    Serial (calls ++ [c])
      { s.move i c .committed with
        tables := ⟨s.tables.events ++ [⟨c, n⟩],
          EventTables.setRow s.tables.snapshot c.orderID row⟩ } := by
  have hnow : n = (s.tables.log c.orderID).nextSequence
      ∧ c.data.write c.timestamp n (s.tables.log c.orderID).row = some row := h.sound i _ hi
  obtain ⟨rfl, hwrite⟩ := hnow
  have hrec : s.tables.record c = some ⟨s.tables.events
      ++ [⟨c, (s.tables.log c.orderID).nextSequence⟩],
        EventTables.setRow s.tables.snapshot c.orderID row⟩ := by
    rw [EventTables.record_eq]
    exact Option.bind_eq_some_iff.mpr ⟨row, hwrite, rfl⟩
  obtain ⟨hsame, hother⟩ := EventTables.record_log hrec
  refine ⟨h.run.snoc hrec, ?_, ?_⟩
  · intro j tx hj
    rcases txs_move hj with ⟨-, rfl⟩ | ⟨hji, hj⟩
    · trivial
    · by_cases hid : tx.call.orderID = c.orderID
      · have hnot : ¬tx.Pending := fun hp => hji (h.alone j i tx _ hj hi hp rfl hid)
        have hsound := h.sound j tx hj
        rw [hid] at hsound ⊢
        exact hsound.record hnot hsame
      · rw [hother _ hid]
        exact h.sound j tx hj
  · intro j k tx tx' hj hk hp hp' heq
    rcases txs_move hj with ⟨-, rfl⟩ | ⟨-, hj⟩
    · cases hp
    · rcases txs_move hk with ⟨-, rfl⟩ | ⟨-, hk⟩
      · cases hp'
      · exact h.alone j k tx tx' hj hk hp hp' heq

theorem Serial.same (he : e.committed? = none) (h : Serial calls s) :
    Serial (calls ++ e.committed?.toList) s := by
  rw [he, Option.toList_none, List.append_nil]
  exact h

theorem Serial.step (h : Serial calls s) (hstep : s.Step e s') :
    Serial (calls ++ e.committed?.toList) s' := by
  cases hstep with
  | begin hi => exact .same rfl (h.move trivial nofun)
  | getNextSequenceNumber hi => exact .same rfl (h.move ⟨Nat.succ_pos _, le_rfl⟩ nofun)
  | insertEvent hi hwait hunique => exact .same rfl (h.insertEvent hi hwait hunique)
  | writeSnapshot hi hwrite =>
      -- it is the one transaction of its order past the insert already
      refine .same rfl (h.move ⟨h.sound _ _ hi, hwrite⟩ ?_)
      intro _ j tx hji hj hp heq
      exact hji (h.alone j _ tx _ hj hi hp rfl heq)
  | commit hi => exact h.commit hi
  | abort hi hopen => exact .same rfl (h.move trivial nofun)

theorem serial {es : List TxEvent} (h : Trace Step empty es s) :
    Serial (es.filterMap TxEvent.committed?) s := by
  refine h.invariant (P := fun es s => Serial (es.filterMap TxEvent.committed?) s)
    ⟨.nil, fun _ _ => nofun, fun _ _ _ _ => nofun⟩ ?_
  intro es s e s' ih hstep
  rw [history_snoc]
  exact ih.step hstep

end Session

/-- However the transactions interleave, the tables are those of the
committed calls run one after another; the events of an order carry the
numbers from one on, and its row is that of its own calls, run in the
order of these numbers. -/
theorem recording_serialised {es : List TxEvent} {s : Session}
    (h : Trace Session.Step Session.empty es s) :
    (es.filterMap TxEvent.committed?).foldlM EventTables.record EventTables.empty = some s.tables
      ∧ s.tables.events.map OrderEvent.toRecordCall = es.filterMap TxEvent.committed?
      ∧ ∀ id, (s.tables.eventsOf id).map OrderEvent.sequenceNumber
            = List.range' 1 (s.tables.eventsOf id).length
          ∧ ∃ db, ((s.tables.eventsOf id).map OrderEvent.toRecordCall).foldlM EventTables.record
                EventTables.empty = some db
              ∧ db.snapshot.lookup id = s.tables.snapshot.lookup id := by
  have hrun := (Session.serial h).run
  refine ⟨Trace.iff_foldlM.mp hrun, EventTables.events_run hrun, ?_⟩
  intro id
  have hlog := EventTables.log_run hrun id
  have hevents : s.tables.eventsOf id = OrderLog.numbered _ := OrderLog.run_events hlog
  obtain ⟨db, hdb, heq⟩ := EventTables.run_of_log
    (fun c hc => of_decide_eq_true (List.mem_filter.mp hc).2) hlog
  rw [hevents, OrderLog.numbered_sequence, OrderLog.numbered_calls]
  refine ⟨?_, db, hdb, congrArg OrderLog.row heq⟩
  simp [OrderLog.numbered]

/-- Two transactions create the same order and read the same number; the
insert of one waits for the other and fails. -/
theorem recording_serialised_created_twice :
    ∃ s, Trace Session.Step Session.empty
        [.begin 0 createdTen, .begin 1 createdTen, .getNextSequenceNumber 0,
          .getNextSequenceNumber 1, .insertEvent 0, .writeSnapshot 0, .commit 0 createdTen,
          .abort 1 createdTen] s
      ∧ (s.tables.eventsOf 1).map OrderEvent.sequenceNumber = [1] := by
  have h₀ : Trace Session.Step Session.empty [] _ := .nil
  have h₁ := h₀.next (.begin 0 createdTen) (.begin rfl) |>.next (.begin 1 createdTen) (.begin rfl)
    |>.next (.getNextSequenceNumber 0) (.getNextSequenceNumber rfl)
    |>.next (.getNextSequenceNumber 1) (.getNextSequenceNumber rfl)
  have h₂ := h₁.next (.insertEvent 0) (.insertEvent rfl (by
    rintro ⟨j, tx, hj, htx, -, hp⟩
    rcases Session.txs_move htx with ⟨-, rfl⟩ | ⟨-, htx⟩
    · cases hp
    · rcases Session.txs_move htx with ⟨rfl, -⟩ | ⟨-, htx⟩
      · exact hj rfl
      · rcases Session.txs_move htx with ⟨-, rfl⟩ | ⟨-, htx⟩
        · cases hp
        · rcases Session.txs_move htx with ⟨rfl, -⟩ | ⟨-, htx⟩
          · exact hj rfl
          · cases htx) (by decide))
  have hrow : createdTen.data.write createdTen.timestamp 1 none
      = some (some ⟨"alice", "BTC-USD", .buy, .limit, 100, 10, 0, .opened, 1, 1, 1⟩) := by
    decide +kernel
  have h₃ := h₂.next (.writeSnapshot 0) (.writeSnapshot rfl hrow)
    |>.next (.commit 0 createdTen) (.commit rfl) |>.next (.abort 1 createdTen) (.abort rfl rfl)
  exact ⟨_, h₃, ((recording_serialised h₃).2.2 1).1⟩

end TradingBackend
