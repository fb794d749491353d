import TradingBackend.EventLog

/-!
# The snapshot and the replay of the events

`orders_snapshot` is kept up to date call by call, and `replay_order_state`
computes an order from its events. They differ on `ORDER_CREATED`: the
snapshot ignores it when the order has a row, the replay sets the status
back to open and keeps the filled quantity. `Timely` calls are those
where this makes no difference (`snapshot_agrees_with_replay`), and when
each order is created first and once the table is what
`rebuild_orders_snapshot` makes of the events (`rebuild_is_noop`).
-/

namespace TradingBackend

def EventData.isCreated : EventData → Bool
  | .created .. => true
  | _ => false

def EventData.filled? : EventData → Option Decimal
  | .fill _ filledQuantity _ _ => some filledQuantity
  | _ => none

/-! ## Agreement -/

/-- The columns that `verify_snapshot_consistency` compares. -/
def SnapshotState.Agrees (row : SnapshotState) (st : ReplayState) : Prop :=
  row.status = st.status ∧ row.filledQuantity = st.filledQuantity

namespace OrderLog

/-- The row, if there is one, agrees with the replay. -/
def Consistent (log : OrderLog) : Prop :=
  ∀ row, log.row = some row → ∃ st, log.replay = some st ∧ row.Agrees st

/-- The filled quantity that is reported last, as the column holds it;
`none` if one of those reported does not fit it. -/
def lastFilled (log : OrderLog) : Option Decimal :=
  (log.events.filterMap fun e => e.data.filled?).foldlM (fun _ f => numeric 20 8 f) 0

/-- A creation that the snapshot and the replay take alike: the first for
the order, with nothing filled before, or one more while it is open. -/
def Timely (log : OrderLog) (c : RecordCall) : Prop :=
  c.data.isCreated = true →
    (log.row = none → log.lastFilled = some 0) ∧ ∀ row ∈ log.row, row.status = .opened

instance (log : OrderLog) (c : RecordCall) : Decidable (log.Timely c) :=
  inferInstanceAs (Decidable (_ → (_ → _) ∧ ∀ row ∈ (_ : Option SnapshotState), _))

variable {log log' : OrderLog} {c : RecordCall} {calls : List RecordCall}

theorem lastFilled_record (h : log.record c = some log') :
    log'.lastFilled =
      match c.data.filled? with
      | some f => log.lastFilled.bind fun _ => numeric 20 8 f
      | none => log.lastFilled := by
  unfold lastFilled
  rw [(record_eq_some h).2, history_snoc (fun e : OrderEvent => e.data.filled?)]
  cases c.data.filled? with
  | none => simp
  | some f =>
      rw [Option.toList_some]
      exact foldlM_concat ..

end OrderLog

/-! ## What an event does to the row and to the replay -/

/-- The state after an `ORDER_CREATED` event with the values of the row. -/
def ReplayState.create (st : ReplayState) (row : SnapshotState) : ReplayState :=
  { st with
    clientID := row.clientID, instrument := row.instrument, side := row.side, type := row.type,
    price := row.price, quantity := row.quantity, createdAt := row.createdAt,
    updatedAt := row.updatedAt, status := .opened, eventCount := st.eventCount + 1 }

def ReplayState.revise (st : ReplayState) (filled : Decimal) (status : OrderStatus) (t : Time) :
    ReplayState :=
  { st with
    filledQuantity := filled, status := status, updatedAt := t, eventCount := st.eventCount + 1 }

def SnapshotState.revise (row : SnapshotState) (filled : Decimal) (status : OrderStatus)
    (t : Time) (n : Nat) : SnapshotState :=
  { row with filledQuantity := filled, status := status, updatedAt := t, lastEventSequence := n }

section

variable {c : RecordCall} {n : Nat} {row row' : SnapshotState} {st : ReplayState}

/-- A creation writes the row only if there is none, and is replayed in
any case. -/
theorem write_created {old new : Option SnapshotState} (hc : c.data.isCreated = true)
    (h : c.data.write c.timestamp n old = some new) :
    ∃ row, row.Fits ∧ row.status = .opened ∧ row.filledQuantity = 0 ∧ row.lastEventSequence = n
      ∧ new = some (old.getD row) ∧ ∀ st : ReplayState, st.apply ⟨c, n⟩ = some (st.create row) := by
  obtain ⟨orderID, data, t⟩ := c
  cases data with
  | created clientID instrument side type price quantity =>
      have hwrite : (SnapshotState.stored ⟨clientID, instrument, side, type, price, quantity, 0,
          .opened, t, t, n⟩).bind (fun row => some (some (old.getD row))) = some new := by
        cases old <;> exact h
      obtain ⟨row, hrow, hnew⟩ := Option.bind_eq_some_iff.mp hwrite
      obtain ⟨hclient, hinst, hprice, hqty, hfilled, hself, -⟩ := SnapshotState.stored_eq_some hrow
      have hzero : numeric 20 8 0 = some 0 := by decide +kernel
      refine ⟨row, SnapshotState.stored_fits hrow, ?_, ?_, ?_, (Option.some.inj hnew).symm, ?_⟩
      · rw [hself]
      · exact Option.some.inj (hfilled.symm.trans hzero)
      · rw [hself]
      · intro st
        simp only [ReplayState.apply, hclient, hinst, hprice, hqty, Option.bind_eq_bind,
          Option.bind_some, ReplayState.create]
        rw [hself]
  | fill | cancelled | rejected => cases hc

/-- Any other event writes to the row what it is replayed as: a status,
and a filled quantity or the one there is. -/
theorem write_other {new : Option SnapshotState} (hc : c.data.isCreated = false)
    (h : c.data.write c.timestamp n (some row) = some new) :
    ∃ (filled : Decimal → Decimal) (status : OrderStatus),
      (∀ f, numeric 20 8 f = some f → numeric 20 8 (filled f) = some (filled f))
        ∧ new = some (row.revise (filled row.filledQuantity) status c.timestamp n)
        ∧ (row.revise (filled row.filledQuantity) status c.timestamp n).check = new
        ∧ ∀ st : ReplayState,
            st.apply ⟨c, n⟩ = some (st.revise (filled st.filledQuantity) status c.timestamp) := by
  obtain ⟨orderID, data, t⟩ := c
  cases data with
  | created => cases hc
  | fill fillQuantity filledQuantity status tradeID =>
      obtain ⟨f, hf, hrest⟩ := Option.bind_eq_some_iff.mp h
      obtain ⟨row', hcheck, hnew⟩ := Option.bind_eq_some_iff.mp hrest
      obtain ⟨rfl, -⟩ := SnapshotState.check_eq_some hcheck
      obtain rfl := Option.some.inj hnew
      refine ⟨fun _ => f, status, fun _ _ => numeric_idem hf, rfl, hcheck, ?_⟩
      intro st
      simp only [ReplayState.apply, hf, Option.bind_eq_bind, Option.bind_some]
      rfl
  | cancelled reason =>
      obtain ⟨row', hcheck, hnew⟩ := Option.bind_eq_some_iff.mp h
      obtain ⟨rfl, -⟩ := SnapshotState.check_eq_some hcheck
      obtain rfl := Option.some.inj hnew
      exact ⟨id, .cancelled, fun _ hf => hf, rfl, hcheck, fun _ => rfl⟩
  | rejected reason =>
      obtain ⟨row', hcheck, hnew⟩ := Option.bind_eq_some_iff.mp h
      obtain ⟨rfl, -⟩ := SnapshotState.check_eq_some hcheck
      obtain rfl := Option.some.inj hnew
      exact ⟨id, .rejected, fun _ hf => hf, rfl, hcheck, fun _ => rfl⟩

end

/-! ## Agreement along a run -/

namespace OrderLog

variable {log log' : OrderLog} {c : RecordCall} {calls : List RecordCall}

/-- Without a row there was no creation, and the replay has seen fills
only. -/
theorem Rowless.step
    (ih : log.row = none → log.replay.map (·.filledQuantity) = log.lastFilled)
    (h : log.record c = some log') (hrow : log'.row = none) :
    log'.replay.map (·.filledQuantity) = log'.lastFilled := by
  obtain ⟨hwrite, -⟩ := record_eq_some h
  rw [hrow] at hwrite
  have hold := ih (EventData.write_none hwrite)
  rw [replay_record h, lastFilled_record h, ← hold]
  obtain ⟨orderID, data, t⟩ := c
  cases data with
  | created =>
      obtain ⟨row, -, -, -, -, hnew, -⟩ := write_created rfl hwrite
      cases hnew
  | fill fillQuantity filledQuantity status tradeID =>
      cases log.replay with
      | none => rfl
      | some st =>
          show (Option.bind (numeric 20 8 filledQuantity) _).map _ = numeric 20 8 filledQuantity
          cases numeric 20 8 filledQuantity <;> rfl
  | cancelled | rejected => cases log.replay <;> rfl

theorem rowless (h : run calls = some log) (hrow : log.row = none) :
    log.replay.map (·.filledQuantity) = log.lastFilled := by
  have hinv : log.row = none → log.replay.map (·.filledQuantity) = log.lastFilled :=
    foldlM_invariant (P := fun log => log.row = none → log.replay.map (·.filledQuantity)
      = log.lastFilled) h (fun _ => rfl) fun _ _ _ _ ih hstep => Rowless.step ih hstep
  exact hinv hrow

theorem consistent_of_row {row : SnapshotState} (hrow : log.row = some row) :
    log.Consistent ↔ ∃ st, log.replay = some st ∧ row.Agrees st := by
  unfold Consistent
  simp only [hrow, Option.some.injEq, forall_eq']

theorem consistent_first_created (hrow : log.row = none)
    (hrowless : log.replay.map (·.filledQuantity) = log.lastFilled)
    (hc : c.data.isCreated = true) (h : log.record c = some log') :
    log'.Consistent ↔ log.lastFilled = some 0 := by
  obtain ⟨row, -, hopen, hfilled, -, hnew, happly⟩ := write_created hc (record_eq_some h).1
  rw [hrow, Option.getD_none] at hnew
  rw [consistent_of_row hnew, replay_record h, funext happly, ← hrowless]
  cases log.replay with
  | none => simp
  | some st =>
      simp only [Option.bind_some, Option.some.injEq, exists_eq_left', Option.map_some]
      unfold SnapshotState.Agrees
      rw [hopen, hfilled]
      exact ⟨fun hagree => hagree.2.symm, fun hzero => ⟨rfl, hzero.symm⟩⟩

theorem consistent_again_created {row : SnapshotState} (hrow : log.row = some row)
    (hcons : log.Consistent) (hc : c.data.isCreated = true) (h : log.record c = some log') :
    log'.Consistent ↔ row.status = .opened := by
  obtain ⟨inserted, -, -, -, -, hnew, happly⟩ := write_created hc (record_eq_some h).1
  rw [hrow, Option.getD_some] at hnew
  obtain ⟨st, hst, -, hfilled⟩ := hcons row hrow
  rw [consistent_of_row hnew, replay_record h, hst, Option.bind_some, happly]
  simp only [Option.some.injEq, exists_eq_left']
  exact ⟨fun hagree => hagree.1, fun hopen => ⟨hopen, hfilled⟩⟩

theorem consistent_other (hcons : log.Consistent) (hc : c.data.isCreated = false)
    (h : log.record c = some log') : log'.Consistent := by
  obtain ⟨hwrite, -⟩ := record_eq_some h
  intro row' hrow'
  cases hrow : log.row with
  | none =>
      have hnone : c.data.write c.timestamp log.nextSequence none = some none := by
        cases hd : c.data with
        | created => rw [hd] at hc; cases hc
        | fill | cancelled | rejected => rfl
      rw [hrow, hnone, hrow'] at hwrite
      cases hwrite
  | some row =>
      rw [hrow] at hwrite
      obtain ⟨filled, status, -, hnew, -, happly⟩ := write_other hc hwrite
      obtain ⟨st, hst, -, hfilled⟩ := hcons row hrow
      obtain rfl := Option.some.inj (hrow'.symm.trans hnew)
      refine ⟨_, by rw [replay_record h, hst, Option.bind_some, happly], rfl, ?_⟩
      exact congrArg filled hfilled

/-- A consistent log stays so exactly if the call is timely. -/
theorem Consistent.record_iff (hcons : log.Consistent)
    (hrowless : log.row = none → log.replay.map (·.filledQuantity) = log.lastFilled)
    (h : log.record c = some log') : log'.Consistent ↔ log.Timely c := by
  unfold Timely
  cases hc : c.data.isCreated with
  | true =>
      cases hrow : log.row with
      | none => simp [consistent_first_created hrow (hrowless hrow) hc h]
      | some row => simp [consistent_again_created hrow hcons hc h]
  | false => simp [consistent_other hcons hc h]

end OrderLog

namespace EventTables

variable {db db' : EventTables} {c : RecordCall} {calls : List RecordCall}

/-- `verify_snapshot_consistency` finds nothing exactly if every row
agrees with the replay. -/
theorem verifySnapshotConsistency_eq_zero :
    db.verifySnapshotConsistency = some 0 ↔ ∀ id, (db.log id).Consistent := by
  unfold verifySnapshotConsistency
  rw [Option.ite_none_right_eq_some, Option.some.injEq, Multiset.eq_zero_iff_forall_notMem]
  simp only [Multiset.mem_filterMap, not_exists, not_and]
  constructor
  · rintro ⟨hreplays, hnone⟩ id row hrow
    have hmem := Finmap.lookup_eq_some_iff.mp hrow
    obtain ⟨st, hst⟩ := Option.isSome_iff_exists.mp (hreplays _ hmem)
    refine ⟨st, hst, ?_⟩
    by_contra hdiffer
    refine hnone _ ⟨id, row⟩ hmem (Option.bind_eq_some_iff.mpr ⟨st, hst, if_pos ?_⟩)
    exact not_and_or.mp hdiffer
  · intro hcons
    constructor
    · rintro ⟨id, row⟩ hmem
      obtain ⟨st, hst, -⟩ := hcons id row (Finmap.lookup_eq_some_iff.mpr hmem)
      exact Option.isSome_iff_exists.mpr ⟨st, hst⟩
    · rintro x ⟨id, row⟩ hmem hx
      obtain ⟨st, hst, hagree⟩ := hcons id row (Finmap.lookup_eq_some_iff.mpr hmem)
      obtain ⟨st', hst', hdiffer⟩ := Option.bind_eq_some_iff.mp hx
      obtain rfl := Option.some.inj (hst.symm.trans hst')
      rw [if_neg (not_or.mpr ⟨not_not.mpr hagree.1, not_not.mpr hagree.2⟩)] at hdiffer
      cases hdiffer

/-- The calls that are made only when they are timely. -/
def Timely (db : EventTables) (c : RecordCall) : Prop := (db.log c.orderID).Timely c

instance (db : EventTables) (c : RecordCall) : Decidable (db.Timely c) :=
  inferInstanceAs (Decidable (OrderLog.Timely _ _))

theorem record_consistent_iff (h : Trace Recorded empty calls db)
    (hcons : ∀ id, (db.log id).Consistent) (hrec : db.record c = some db') :
    (∀ id, (db'.log id).Consistent) ↔ db.Timely c := by
  obtain ⟨hsame, hother⟩ := record_log hrec
  have hiff := (hcons c.orderID).record_iff (OrderLog.rowless (log_run h c.orderID)) hsame
  constructor
  · exact fun hall => hiff.mp (hall c.orderID)
  · intro htimely id
    by_cases hid : id = c.orderID
    · exact hid ▸ hiff.mpr htimely
    · exact hother id hid ▸ hcons id

end EventTables

/-- In every run whose creations are timely `verify_snapshot_consistency`
finds nothing, and after such a run it is so for one more call exactly if
that is timely too. -/
theorem snapshot_agrees_with_replay {calls : List RecordCall} {db : EventTables}
    (h : Trace (Where EventTables.Recorded EventTables.Timely) EventTables.empty calls db) :
    db.verifySnapshotConsistency = some 0
      ∧ ∀ {c : RecordCall} {db' : EventTables}, db.record c = some db' →
          (db'.verifySnapshotConsistency = some 0 ↔ db.Timely c) := by
  have hrun : Trace EventTables.Recorded EventTables.empty calls db := h.imp And.right
  have hcons : ∀ id, (db.log id).Consistent := by
    have hall : Trace EventTables.Recorded EventTables.empty calls db
        ∧ ∀ id, (db.log id).Consistent := by
      refine h.invariant (P := fun calls db => Trace EventTables.Recorded EventTables.empty calls db
        ∧ ∀ id, (db.log id).Consistent) ⟨.nil, fun _ _ => nofun⟩ ?_
      rintro calls db c db' ⟨hrun, hcons⟩ ⟨htimely, hstep⟩
      exact ⟨hrun.snoc hstep,
        (EventTables.record_consistent_iff hrun hcons hstep).mpr htimely⟩
    exact hall.2
  refine ⟨EventTables.verifySnapshotConsistency_eq_zero.mpr hcons, ?_⟩
  intro c db' hrec
  rw [EventTables.verifySnapshotConsistency_eq_zero]
  exact EventTables.record_consistent_iff hrun hcons hrec

section

def createdTen : RecordCall := ⟨1, .created "alice" "BTC-USD" .buy .limit 100 10, 1⟩

def filledFive : RecordCall := ⟨1, .fill 5 5 .partiallyFilled none, 2⟩

theorem snapshot_agrees_with_replay_half_filled :
    ∃ db, Trace (Where EventTables.Recorded EventTables.Timely) EventTables.empty
        [createdTen, filledFive] db ∧ db.verifySnapshotConsistency = some 0 := by
  have hrun : ([createdTen, filledFive].foldlM (fun (db : EventTables) c =>
      if db.Timely c then db.record c else none) EventTables.empty).isSome = true := by
    decide +kernel
  obtain ⟨db, hdb⟩ := Option.isSome_iff_exists.mp hrun
  have htrace : Trace (Where EventTables.Recorded EventTables.Timely) EventTables.empty
      [createdTen, filledFive] db :=
    (Trace.iff_foldlM.mpr hdb).imp Option.ite_none_right_eq_some.mp
  exact ⟨db, htrace, (snapshot_agrees_with_replay htrace).1⟩

/-- The order is created once more, as when the write of its creation was
reported to have failed and is retried: the snapshot stays partially
filled, the replay is back to open. -/
theorem repeated_creation_disagrees :
    ∃ db, Trace EventTables.Recorded EventTables.empty [createdTen, filledFive, createdTen] db
      ∧ db.verifySnapshotConsistency = some {⟨1, .partiallyFilled, .opened, 5, 5⟩} := by
  have hrun : ([createdTen, filledFive, createdTen].foldlM EventTables.record
      EventTables.empty).bind EventTables.verifySnapshotConsistency
        = some {⟨1, .partiallyFilled, .opened, 5, 5⟩} := by
    decide +kernel
  obtain ⟨db, hdb, hverify⟩ := Option.bind_eq_some_iff.mp hrun
  exact ⟨db, Trace.iff_foldlM.mpr hdb, hverify⟩

end

/-! ## Rebuilding -/

/-- Calls for one order: the first creates it and no other does. -/
def CreatedOnce : List RecordCall → Prop
  | [] => True
  | c :: calls => c.data.isCreated = true ∧ ∀ c' ∈ calls, c'.data.isCreated = false

instance : (calls : List RecordCall) → Decidable (CreatedOnce calls)
  | [] => isTrue trivial
  | _ :: _ => inferInstanceAs (Decidable (_ ∧ ∀ c' ∈ _, EventData.isCreated _ = false))

/-- Each order is created by its first call and by no other. -/
def WellStarted (calls : List RecordCall) : Prop :=
  ∀ c ∈ calls, CreatedOnce (calls.filter fun c' => c'.orderID = c.orderID)

instance (calls : List RecordCall) : Decidable (WellStarted calls) :=
  inferInstanceAs (Decidable (∀ c ∈ calls, CreatedOnce _))

def SnapshotState.replayed (row : SnapshotState) : ReplayState :=
  ⟨row.clientID, row.instrument, row.side, row.type, row.price, row.quantity,
    row.filledQuantity, row.status, row.createdAt, row.updatedAt, row.lastEventSequence⟩

theorem SnapshotState.toRow_replayed (row : SnapshotState) : row.replayed.toRow = row.stored := rfl

namespace OrderLog

variable {log log' : OrderLog} {c : RecordCall} {calls : List RecordCall}

/-- The row is what the events give, in every column. -/
def Rebuildable (log : OrderLog) : Prop :=
  ∃ row, log.row = some row ∧ row.Fits ∧ row.lastEventSequence + 1 = log.nextSequence
    ∧ log.replay = some row.replayed

theorem rebuildable_created (hc : c.data.isCreated = true) (h : empty.record c = some log) :
    log.Rebuildable := by
  obtain ⟨row, hfits, hopen, hfilled, hseq, hnew, happly⟩ :=
    write_created hc (record_eq_some h).1
  refine ⟨row, hnew, hfits, by rw [nextSequence_record h, hseq], ?_⟩
  rw [replay_record h, replay_empty, Option.bind_some, happly]
  unfold ReplayState.create SnapshotState.replayed ReplayState.start
  rw [hopen, hfilled, hseq]
  rfl

theorem Rebuildable.record (hlog : log.Rebuildable) (hc : c.data.isCreated = false)
    (h : log.record c = some log') : log'.Rebuildable := by
  obtain ⟨row, hrow, hfits, hseq, hreplay⟩ := hlog
  obtain ⟨hwrite, -⟩ := record_eq_some h
  rw [hrow] at hwrite
  obtain ⟨filled, status, hscale, hnew, hcheck, happly⟩ := write_other hc hwrite
  refine ⟨_, hnew, ?_, by rw [nextSequence_record h]; rfl, ?_⟩
  · obtain ⟨hclient, hinst, hprice, hqty, hfilled, -⟩ := SnapshotState.fits_iff.mp hfits
    exact SnapshotState.fits_iff.mpr
      ⟨hclient, hinst, hprice, hqty, hscale _ hfilled, hcheck.trans hnew⟩
  · rw [replay_record h, hreplay, Option.bind_some, happly, ← hseq]
    rfl

theorem rebuildable (h : run (c :: calls) = some log) (honce : CreatedOnce (c :: calls)) :
    log.Rebuildable := by
  obtain ⟨first, hfirst, hrest⟩ := Option.bind_eq_some_iff.mp (List.foldlM_cons.symm.trans h)
  exact foldlM_invariant hrest (rebuildable_created honce.1 hfirst)
    fun c' hc' _ _ hlog hstep => hlog.record (honce.2 c' hc') hstep

end OrderLog

namespace EventTables

variable {db db' : EventTables} {calls : List RecordCall}

theorem rebuildOrder_eq {id : UUID} (h : (db.log id).Rebuildable)
    (s : (Finmap fun _ : UUID => SnapshotState) × Nat) (hid : id ∉ s.1) :
    ∃ row, db.snapshot.lookup id = some row
      ∧ db.rebuildOrder s id = some (s.1.insert id row, s.2 + 1) := by
  obtain ⟨row, hrow, hfits, -, hreplay⟩ := h
  refine ⟨row, hrow, ?_⟩
  have hreplay' : db.replayOrderState id = some row.replayed := hreplay
  have htoRow : row.replayed.toRow = some row := row.toRow_replayed.trans hfits
  simp only [rebuildOrder, hreplay', htoRow, Option.bind_eq_bind, Option.bind_some, if_neg hid]

/-- The loop of `rebuild_orders_snapshot` puts back the rows of the orders
it goes through. -/
theorem rebuild_loop {ids : List UUID} (hids : ids.Nodup)
    (hall : ∀ id ∈ ids, (db.log id).Rebuildable)
    (s : (Finmap fun _ : UUID => SnapshotState) × Nat) (hnew : ∀ id ∈ ids, id ∉ s.1) :
    ∃ snapshot, ids.foldlM db.rebuildOrder s = some (snapshot, s.2 + ids.length)
      ∧ ∀ id, snapshot.lookup id = if id ∈ ids then db.snapshot.lookup id else s.1.lookup id := by
  induction ids generalizing s with
  | nil => exact ⟨s.1, rfl, fun _ => rfl⟩
  | cons id ids ih =>
      obtain ⟨hnotin, hids⟩ := List.nodup_cons.mp hids
      obtain ⟨row, hrow, hstep⟩ :=
        rebuildOrder_eq (hall id List.mem_cons_self) s (hnew id List.mem_cons_self)
      obtain ⟨snapshot, hfold, hlookup⟩ := ih hids
        (fun x hx => hall x (List.mem_cons_of_mem id hx)) (s.1.insert id row, s.2 + 1) (by
          intro x hx hmem
          rcases Finmap.mem_insert.mp hmem with rfl | hmem
          · exact hnotin hx
          · exact hnew x (List.mem_cons_of_mem id hx) hmem)
      refine ⟨snapshot, ?_, ?_⟩
      · rw [List.foldlM_cons, hstep, List.length_cons]
        rw [show s.2 + (ids.length + 1) = s.2 + 1 + ids.length by omega]
        exact hfold
      · intro x
        rw [hlookup x]
        by_cases hx : x = id
        · subst hx
          rw [if_neg hnotin, if_pos List.mem_cons_self, Finmap.lookup_insert, hrow]
        · simp only [List.mem_cons, hx, false_or, Finmap.lookup_insert_of_ne s.1 hx]

theorem events_run (h : Trace Recorded empty calls db) :
    db.events.map OrderEvent.toRecordCall = calls := by
  refine h.invariant (P := fun calls db => db.events.map OrderEvent.toRecordCall = calls) rfl ?_
  intro calls db c db' ih hstep
  have hrec : db.record c = some db' := hstep
  rw [record_eq] at hrec
  obtain ⟨row, -, hdb⟩ := Option.bind_eq_some_iff.mp hrec
  obtain rfl := Option.some.inj hdb
  rw [List.map_append, ih]
  rfl

theorem log_rebuildable (h : Trace Recorded empty calls db) (hstart : WellStarted calls)
    {c : RecordCall} (hc : c ∈ calls) : (db.log c.orderID).Rebuildable := by
  have hrun := log_run h c.orderID
  have honce := hstart c hc
  have hmem : c ∈ calls.filter fun c' => c'.orderID = c.orderID :=
    List.mem_filter.mpr ⟨hc, decide_eq_true rfl⟩
  cases hcalls : calls.filter fun c' => c'.orderID = c.orderID with
  | nil =>
      rw [hcalls] at hmem
      cases hmem
  | cons first rest =>
      rw [hcalls] at hrun honce
      exact OrderLog.rebuildable hrun honce

theorem orderIDs_eq (h : Trace Recorded empty calls db) :
    db.orderIDs = ((calls.map RecordCall.orderID).dedup).insertionSort fun x y => x ≤ y := by
  unfold orderIDs
  rw [← events_run h, List.map_map]
  rfl

end EventTables

/-- The events of an order are its calls, numbered from one on, and
`rebuild_orders_snapshot` changes nothing, once or twice. -/
theorem rebuild_is_noop {calls : List RecordCall} {db : EventTables}
    (h : Trace EventTables.Recorded EventTables.empty calls db) (hstart : WellStarted calls) :
    (∀ id, db.eventsOf id
        = (calls.filter fun c => c.orderID = id).mapIdx fun i c => ⟨c, i + 1⟩)
      ∧ db.rebuildOrdersSnapshot = some (db, (calls.map RecordCall.orderID).toFinset.card)
      ∧ (db.rebuildOrdersSnapshot.bind fun rebuilt => rebuilt.1.rebuildOrdersSnapshot)
          = db.rebuildOrdersSnapshot := by
  have hrebuild : db.rebuildOrdersSnapshot
      = some (db, (calls.map RecordCall.orderID).toFinset.card) := by
    have hmem : ∀ id, id ∈ db.orderIDs ↔ ∃ c ∈ calls, c.orderID = id := by
      intro id
      rw [EventTables.orderIDs_eq h, List.mem_insertionSort, List.mem_dedup, List.mem_map]
    have hids : db.orderIDs.Nodup := by
      rw [EventTables.orderIDs_eq h]
      exact (List.perm_insertionSort ..).nodup_iff.mpr (List.nodup_dedup _)
    obtain ⟨snapshot, hfold, hlookup⟩ := EventTables.rebuild_loop hids
      (fun id hid => by
        obtain ⟨c, hc, rfl⟩ := (hmem id).mp hid
        exact EventTables.log_rebuildable h hstart hc)
      (∅, 0) (fun _ _ => Finmap.notMem_empty)
    have hsame : snapshot = db.snapshot := by
      apply Finmap.ext_lookup
      intro id
      rw [hlookup id]
      split
      · rfl
      · rename_i hnot
        have hrun := EventTables.log_run h id
        rw [List.filter_eq_nil_iff.mpr fun c hc heq =>
          hnot ((hmem id).mpr ⟨c, hc, of_decide_eq_true heq⟩)] at hrun
        exact congrArg OrderLog.row (Option.some.inj hrun)
    have hcount : db.orderIDs.length = (calls.map RecordCall.orderID).toFinset.card := by
      rw [EventTables.orderIDs_eq h, List.length_insertionSort, List.card_toFinset]
    unfold EventTables.rebuildOrdersSnapshot
    rw [hfold, hsame, hcount, Nat.zero_add]
    rfl
  refine ⟨fun id => OrderLog.run_events (EventTables.log_run h id), hrebuild, ?_⟩
  rw [hrebuild]
  exact hrebuild

theorem rebuild_is_noop_half_filled :
    ∃ db, Trace EventTables.Recorded EventTables.empty [createdTen, filledFive] db
      ∧ WellStarted [createdTen, filledFive] ∧ db.rebuildOrdersSnapshot = some (db, 1) := by
  have hrun : ([createdTen, filledFive].foldlM EventTables.record EventTables.empty).isSome
      = true := by
    decide +kernel
  obtain ⟨db, hdb⟩ := Option.isSome_iff_exists.mp hrun
  have hstart : WellStarted [createdTen, filledFive] := by decide +kernel
  have hresult := (rebuild_is_noop (Trace.iff_foldlM.mpr hdb) hstart).2.1
  exact ⟨db, Trace.iff_foldlM.mpr hdb, hstart, hresult⟩

end TradingBackend
