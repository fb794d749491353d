import TradingBackend.OrderedQuery
import TradingBackend.Snapshots
import TradingBackend.Trace

/-!
# Which snapshots are kept

The table `orderbook_snapshots` of `db/snapshots_schema.sql`: the rows that
`saveSnapshot` inserts, the trigger that runs after each insert, and
`cleanup_old_snapshots`, which the trigger and `CleanupOldSnapshots` call.
The trigger counts the rows of the instrument, and when there are more than
1000 it keeps the 500 latest.

Latest is by `snapshot_timestamp`, the time of the capture, and rows of one
time come in any order; rows may be inserted out of the order of their
times. What is lost is described without either: a row is gone only if
enough rows that are no older are still there (`Retained`).

Statements run one at a time.
-/

namespace TradingBackend

/-- `orderbook_snapshots` and its sequence. -/
structure SnapshotTable (β : Type) where
  rows : Multiset (StoredSnapshot β)
  nextID : Int

namespace SnapshotTable

variable {β : Type}

def empty : SnapshotTable β := ⟨0, 1⟩

/-- `WHERE instrument = p_instrument`. -/
def rowsOf (db : SnapshotTable β) (instrument : String) : Multiset (StoredSnapshot β) :=
  db.rows.filter fun row => row.instrument = instrument

def insert (db : SnapshotTable β) (row : StoredSnapshot β) : SnapshotTable β :=
  ⟨row ::ₘ db.rows, db.nextID + 1⟩

/-- `DELETE ... WHERE snapshot_id IN (...)`. -/
def delete (db : SnapshotTable β) (deleted : List (StoredSnapshot β)) : SnapshotTable β :=
  { db with rows := db.rows.filter fun row =>
      row.snapshotID ∉ deleted.map StoredSnapshot.snapshotID }

/-- `cleanup_old_snapshots`: the number of rows it returns, and the table
it leaves. -/
inductive CleanupOldSnapshots (db : SnapshotTable β) (instrument : String) (keepCount : Nat) :
    Nat → SnapshotTable β → Prop where
  | deleted {rows}
      (hrows : Descending StoredSnapshot.snapshotTimestamp (db.rowsOf instrument) rows) :
      CleanupOldSnapshots db instrument keepCount (rows.drop keepCount).length
        (db.delete (rows.drop keepCount))

/-- `auto_cleanup_snapshots`, after `row` has been inserted. -/
inductive AutoCleanup (db : SnapshotTable β) (row : StoredSnapshot β) : SnapshotTable β → Prop where
  | few (hcount : (db.rowsOf row.instrument).card ≤ 1000) : AutoCleanup db row db
  | many {n db'} (hcount : 1000 < (db.rowsOf row.instrument).card)
      (hcleanup : db.CleanupOldSnapshots row.instrument 500 n db') : AutoCleanup db row db'

def GetLatestSnapshot (db : SnapshotTable β) (instrument : String)
    (found : Option (StoredSnapshot β)) : Prop :=
  ∃ rows, Descending StoredSnapshot.snapshotTimestamp (db.rowsOf instrument) rows
    ∧ found = rows.head?

inductive Event (β : Type) where
  | saved (row : StoredSnapshot β)
  | refused
  | cleaned (instrument : String) (keepCount deletedCount : Nat)

def Event.saved? : Event β → Option (StoredSnapshot β)
  | saved row => some row
  | _ => none

/-- A negative count is an error of the database, and leaves the table as it
is; so does a row that the column does not take, though it uses up an id. -/
inductive Step (enc : SnapshotEncoding β) (dec : DecimalText) (db : SnapshotTable β) :
    Event β → SnapshotTable β → Prop where
  | saved {sm : SnapshotManager} {snapshot row db'}
      (hsave : sm.saveSnapshot enc dec snapshot db.nextID = .ok row)
      (htrigger : (db.insert row).AutoCleanup row db') : Step enc dec db (.saved row) db'
  | refused {sm : SnapshotManager} {snapshot err}
      (hsave : sm.saveSnapshot enc dec snapshot db.nextID = .error err) :
      Step enc dec db .refused { db with nextID := db.nextID + 1 }
  | cleaned {sm : SnapshotManager} {keepCount deletedCount db'}
      (hcleanup : db.CleanupOldSnapshots sm.instrument keepCount deletedCount db') :
      Step enc dec db (.cleaned sm.instrument keepCount deletedCount) db'

/-! ## What a cleanup keeps -/

section

variable {db db' : SnapshotTable β} {instrument : String} {keepCount n m : Nat}
  {row x : StoredSnapshot β} {rows : List (StoredSnapshot β)}

theorem mem_rowsOf : x ∈ db.rowsOf instrument ↔ x ∈ db.rows ∧ x.instrument = instrument :=
  Multiset.mem_filter

structure Keyed (db : SnapshotTable β) : Prop where
  nodup : (db.rows.map StoredSnapshot.snapshotID).Nodup
  fresh : ∀ x ∈ db.rows, x.snapshotID < db.nextID

theorem Keyed.eq (h : db.Keyed) {x y : StoredSnapshot β} (hx : x ∈ db.rows) (hy : y ∈ db.rows)
    (hid : x.snapshotID = y.snapshotID) : x = y :=
  Multiset.inj_on_of_nodup_map h.nodup x hx y hy hid

theorem Keyed.delete (h : db.Keyed) (deleted : List (StoredSnapshot β)) :
    (db.delete deleted).Keyed where
  nodup := Multiset.nodup_of_le (Multiset.map_le_map (Multiset.filter_le _ _)) h.nodup
  fresh x hx := h.fresh x (Multiset.mem_of_mem_filter hx)

theorem Keyed.insert (h : db.Keyed) (hid : row.snapshotID = db.nextID) : (db.insert row).Keyed where
  nodup := by
    rw [SnapshotTable.insert, Multiset.map_cons, Multiset.nodup_cons]
    refine ⟨fun hmem => ?_, h.nodup⟩
    obtain ⟨x, hx, hxid⟩ := Multiset.mem_map.mp hmem
    have hlt := h.fresh x hx
    omega
  fresh x hx := by
    change x.snapshotID < db.nextID + 1
    rcases Multiset.mem_cons.mp hx with rfl | hx
    · omega
    · have hlt := h.fresh x hx
      omega

theorem rowsOf_delete_drop (h : db.Keyed)
    (hrows : Descending StoredSnapshot.snapshotTimestamp (db.rowsOf instrument) rows) :
    (db.delete (rows.drop keepCount)).rowsOf instrument = rows.take keepCount := by
  have hids : (rows.map StoredSnapshot.snapshotID).Nodup := by
    have hle : (rows : Multiset (StoredSnapshot β)) ≤ db.rows :=
      hrows.coe_eq ▸ Multiset.filter_le _ _
    exact Multiset.coe_nodup.mp (Multiset.nodup_of_le (Multiset.map_le_map hle) h.nodup)
  rw [rowsOf, SnapshotTable.delete, Multiset.filter_comm, ← rowsOf, ← hrows.coe_eq,
    Multiset.filter_coe, Multiset.coe_eq_coe]
  rw [← List.take_append_drop keepCount rows] at hids
  have hkept := filter_notMem_map StoredSnapshot.snapshotID hids
  rw [List.take_append_drop] at hkept
  exact List.Perm.of_eq hkept

theorem rowsOf_delete_of_ne (h : db.Keyed) {other : String} (hne : other ≠ instrument)
    {deleted : List (StoredSnapshot β)} (hdeleted : ∀ x ∈ deleted, x ∈ db.rowsOf instrument) :
    (db.delete deleted).rowsOf other = db.rowsOf other := by
  rw [rowsOf, SnapshotTable.delete, Multiset.filter_comm, ← rowsOf, Multiset.filter_eq_self]
  intro x hx hmem
  obtain ⟨y, hy, hid⟩ := List.mem_map.mp hmem
  obtain ⟨hxrow, hxi⟩ := mem_rowsOf.mp hx
  obtain ⟨hyrow, hyi⟩ := mem_rowsOf.mp (hdeleted y hy)
  obtain rfl := h.eq hxrow hyrow hid.symm
  exact hne (hxi.symm.trans hyi)

/-- How many rows of the instrument of `x` are no older than `x`. -/
def noOlder (db : SnapshotTable β) (x : StoredSnapshot β) : Nat :=
  (db.rowsOf x.instrument).countP (x.snapshotTimestamp ≤ ·.snapshotTimestamp)

namespace CleanupOldSnapshots

variable (h : db.CleanupOldSnapshots instrument keepCount n db')
include h

theorem keyed (hdb : db.Keyed) : db'.Keyed := by
  obtain ⟨hrows⟩ := h
  exact hdb.delete _

theorem subset (hx : x ∈ db'.rows) : x ∈ db.rows := by
  obtain ⟨hrows⟩ := h
  exact Multiset.mem_of_mem_filter hx

theorem card_le (hdb : db.Keyed) : (db'.rowsOf instrument).card ≤ keepCount := by
  obtain ⟨hrows⟩ := h
  rw [rowsOf_delete_drop hdb hrows, Multiset.coe_card, List.length_take]
  exact min_le_left ..

theorem rowsOf_of_ne (hdb : db.Keyed) {other : String} (hne : other ≠ instrument) :
    db'.rowsOf other = db.rowsOf other := by
  obtain ⟨hrows⟩ := h
  exact rowsOf_delete_of_ne hdb hne fun x hx => hrows.mem_iff.mp (List.mem_of_mem_drop hx)

theorem rowsOf_le (other : String) : db'.rowsOf other ≤ db.rowsOf other := by
  obtain ⟨hrows⟩ := h
  exact Multiset.filter_le_filter _ (Multiset.filter_le _ _)

/-- Rows that are enough before are enough after. -/
theorem le_noOlder (hdb : db.Keyed) (hm : m ≤ keepCount) (hbefore : m ≤ db.noOlder x) :
    m ≤ db'.noOlder x := by
  by_cases hx : x.instrument = instrument
  · obtain ⟨hrows⟩ := h
    subst hx
    rw [noOlder, rowsOf_delete_drop hdb hrows, Multiset.coe_countP, hrows.countP_take]
    exact le_min hm hbefore
  · rw [noOlder, h.rowsOf_of_ne hdb hx]
    exact hbefore

/-- A row that is deleted is no newer than those that are kept. -/
theorem keeps (hdb : db.Keyed) (hx : x ∈ db.rows) :
    x ∈ db'.rows ∨ keepCount ≤ db'.noOlder x := by
  cases h with
  | @deleted rows hrows =>
    refine or_iff_not_imp_left.mpr fun hkept => ?_
    have hmem : x.snapshotID ∈ (rows.drop keepCount).map StoredSnapshot.snapshotID := by
      by_contra hnot
      exact hkept (Multiset.mem_filter.mpr ⟨hx, hnot⟩)
    obtain ⟨y, hy, hid⟩ := List.mem_map.mp hmem
    obtain ⟨hyrow, hyi⟩ := mem_rowsOf.mp (hrows.mem_iff.mp (List.mem_of_mem_drop hy))
    obtain rfl := hdb.eq hx hyrow hid.symm
    subst hyi
    have hall : ∀ z ∈ rows.take keepCount,
        decide (x.snapshotTimestamp ≤ z.snapshotTimestamp) = true := fun z hz =>
      decide_eq_true (hrows.le_of_take hz hy)
    rw [noOlder, rowsOf_delete_drop hdb hrows, Multiset.coe_countP,
      List.countP_eq_length.mpr hall, List.length_take, le_min_iff]
    have hlt := List.length_pos_of_mem hy
    rw [List.length_drop] at hlt
    omega

end CleanupOldSnapshots

/-! ## Whole runs -/

/-- What holds of the table after the rows `saved`, when no cleanup kept less
than `m` rows. -/
structure Kept (m : Nat) (saved : List (StoredSnapshot β)) (db : SnapshotTable β) : Prop where
  keyed : db.Keyed
  mem_saved : ∀ x ∈ db.rows, x ∈ saved
  superseded : ∀ x ∈ saved, x ∈ db.rows ∨ m ≤ db.noOlder x

/-- Between two statements there are at most 1000 rows of an instrument. -/
structure Retained (m : Nat) (saved : List (StoredSnapshot β)) (db : SnapshotTable β) : Prop
    extends Kept m saved db where
  atMost : ∀ instrument, (db.rowsOf instrument).card ≤ 1000

/-- The explicit cleanups that keep at least `m` rows. -/
def Event.KeepsAtLeast (m : Nat) : Event β → Prop
  | cleaned _ keepCount _ => m ≤ keepCount
  | _ => True

theorem rowsOf_insert_of_ne (db : SnapshotTable β) (hne : instrument ≠ row.instrument) :
    (db.insert row).rowsOf instrument = db.rowsOf instrument :=
  Multiset.filter_cons_of_neg _ hne.symm

theorem noOlder_insert (db : SnapshotTable β) (row x : StoredSnapshot β) :
    db.noOlder x ≤ (db.insert row).noOlder x :=
  Multiset.countP_le_of_le _ (Multiset.filter_le_filter _ (Multiset.le_cons_self _ _))

variable {enc : SnapshotEncoding β} {dec : DecimalText} {e : Event β} {es : List (Event β)}
  {saved : List (StoredSnapshot β)}

theorem Kept.insert (h : Kept m saved db) (hid : row.snapshotID = db.nextID) :
    Kept m (saved ++ [row]) (db.insert row) where
  keyed := h.keyed.insert hid
  mem_saved x hx := by
    rcases Multiset.mem_cons.mp hx with rfl | hx
    · exact List.mem_append_right _ (List.mem_singleton_self _)
    · exact List.mem_append_left _ (h.mem_saved x hx)
  superseded x hx := by
    rcases List.mem_append.mp hx with hx | hx
    · exact (h.superseded x hx).imp Multiset.mem_cons_of_mem (·.trans (noOlder_insert db row x))
    · obtain rfl := List.mem_singleton.mp hx
      exact Or.inl (Multiset.mem_cons_self _ _)

theorem Kept.cleanup (h : Kept m saved db) (hm : m ≤ keepCount)
    (hcleanup : db.CleanupOldSnapshots instrument keepCount n db') : Kept m saved db' where
  keyed := hcleanup.keyed h.keyed
  mem_saved x hx := h.mem_saved x (hcleanup.subset hx)
  superseded x hx := by
    rcases h.superseded x hx with hrow | hbefore
    · exact (hcleanup.keeps h.keyed hrow).imp_right hm.trans
    · exact Or.inr (hcleanup.le_noOlder h.keyed hm hbefore)

/-- The trigger brings the instrument of the row back below its bound. -/
theorem AutoCleanup.atMost (htrigger : (db.insert row).AutoCleanup row db')
    (hkeyed : (db.insert row).Keyed) (hdb : ∀ instrument, (db.rowsOf instrument).card ≤ 1000)
    (instrument : String) : (db'.rowsOf instrument).card ≤ 1000 := by
  by_cases hi : instrument = row.instrument
  · subst hi
    cases htrigger with
    | few hcount => exact hcount
    | many _ hcleanup => exact (hcleanup.card_le hkeyed).trans (by decide)
  · have hinsert := hdb instrument
    rw [← rowsOf_insert_of_ne db hi] at hinsert
    cases htrigger with
    | few => exact hinsert
    | many _ hcleanup => exact (Multiset.card_le_card (hcleanup.rowsOf_le instrument)).trans hinsert

theorem saveSnapshot_snapshotID {sm : SnapshotManager} {snapshot : OrderbookSnapshot} {id : Int}
    (h : sm.saveSnapshot enc dec snapshot id = .ok row) : row.snapshotID = id := by
  simp only [SnapshotManager.saveSnapshot] at h
  split at h
  · obtain rfl := Except.ok.inj h
    rfl
  · cases h

theorem Retained.step (h : Retained m saved db) (hm : m ≤ 500) (hstep : Step enc dec db e db')
    (hkeeps : e.KeepsAtLeast m) : Retained m (saved ++ e.saved?.toList) db' := by
  cases hstep with
  | @saved _ _ row _ hsave htrigger =>
      have hinsert := h.toKept.insert (saveSnapshot_snapshotID hsave)
      refine ⟨?_, htrigger.atMost hinsert.keyed h.atMost⟩
      cases htrigger with
      | few => exact hinsert
      | many _ hcleanup => exact hinsert.cleanup hm hcleanup
  | refused =>
      change Retained m (saved ++ []) _
      rw [List.append_nil]
      refine ⟨⟨⟨h.keyed.nodup, fun x hx => ?_⟩, h.mem_saved, h.superseded⟩, h.atMost⟩
      exact (h.keyed.fresh x hx).trans (lt_add_one _)
  | cleaned hcleanup =>
      change Retained m (saved ++ []) _
      rw [List.append_nil]
      refine ⟨h.toKept.cleanup hkeeps hcleanup, fun instrument => ?_⟩
      exact (Multiset.card_le_card (hcleanup.rowsOf_le instrument)).trans (h.atMost instrument)

theorem retained_empty : Retained m [] (empty : SnapshotTable β) where
  keyed := ⟨Multiset.nodup_zero, fun x hx => absurd hx (Multiset.notMem_zero x)⟩
  mem_saved x hx := absurd hx (Multiset.notMem_zero x)
  superseded _ hx := absurd hx List.not_mem_nil
  atMost _ := Nat.zero_le _

theorem retained (hm : m ≤ 500)
    (h : Trace (Where (Step enc dec) fun _ e => e.KeepsAtLeast m) empty es db) :
    Retained m (es.filterMap Event.saved?) db :=
  h.invariant (P := fun es db => Retained m (es.filterMap Event.saved?) db) retained_empty
    fun hretained hstep => by
      rw [history_snoc]
      exact hretained.step hm hstep.2 hstep.1

/-- Of what has been saved for the instrument, nothing is newer than the row
that is found. -/
theorem Kept.latest (h : Kept m saved db) (hm : 0 < m)
    (hrows : Descending StoredSnapshot.snapshotTimestamp (db.rowsOf instrument) rows)
    (hfound : rows.head? = some row) (hx : x ∈ saved) (hi : x.instrument = instrument) :
    x.snapshotTimestamp ≤ row.snapshotTimestamp := by
  rcases h.superseded x hx with hrow | hmany
  · exact hrows.le_of_head? hfound (mem_rowsOf.mpr ⟨hrow, hi⟩)
  · obtain ⟨y, hy, hxy⟩ := Multiset.countP_pos.mp (hm.trans_le hmany)
    exact hxy.trans (hrows.le_of_head? hfound (hi ▸ hy))

end

end SnapshotTable

/-- Whatever managers save and clean up, as long as no cleanup keeps less than
`m` rows: an instrument never has more than 1000 rows, a snapshot is gone only
if `m` snapshots that are no older are still there, and the latest snapshot
that is found is the latest of all that were ever saved. -/
theorem latest_snapshots_kept {β : Type} {enc : SnapshotEncoding β} {dec : DecimalText} {m : Nat}
    (hpos : 0 < m) (hm : m ≤ 500) {es : List (SnapshotTable.Event β)} {db : SnapshotTable β}
    (h : Trace (Where (SnapshotTable.Step enc dec) fun _ e => e.KeepsAtLeast m) .empty es db)
    (instrument : String) :
    (db.rowsOf instrument).card ≤ 1000
    ∧ (∀ x ∈ es.filterMap SnapshotTable.Event.saved?, x ∈ db.rows ∨ m ≤ db.noOlder x)
    ∧ (db.GetLatestSnapshot instrument none →
        ∀ x ∈ es.filterMap SnapshotTable.Event.saved?, x.instrument ≠ instrument)
    ∧ ∀ row, db.GetLatestSnapshot instrument (some row) →
        row ∈ es.filterMap SnapshotTable.Event.saved?
        ∧ ∀ x ∈ es.filterMap SnapshotTable.Event.saved?, x.instrument = instrument →
            x.snapshotTimestamp ≤ row.snapshotTimestamp := by
  have hretained := SnapshotTable.retained hm h
  refine ⟨hretained.atMost instrument, hretained.superseded, ?_, ?_⟩
  · rintro ⟨rows, hrows, hnone⟩ x hx hi
    obtain rfl : rows = [] := List.head?_eq_none_iff.mp hnone.symm
    have hempty : db.rowsOf instrument = 0 := hrows.coe_eq.symm
    rcases hretained.superseded x hx with hrow | hmany
    · have hmem := SnapshotTable.mem_rowsOf.mpr ⟨hrow, hi⟩
      rw [hempty] at hmem
      exact Multiset.notMem_zero x hmem
    · rw [SnapshotTable.noOlder, hi, hempty, Multiset.countP_zero] at hmany
      omega
  · rintro row ⟨rows, hrows, hsome⟩
    have hrow := hrows.mem_iff.mp (List.mem_of_mem_head? hsome.symm)
    exact ⟨hretained.mem_saved row (SnapshotTable.mem_rowsOf.mp hrow).1, fun x hx =>
      hretained.toKept.latest hpos hrows hsome.symm hx⟩

/-- A snapshot of a book without orders, and its row. -/
def emptySnapshot (t : Time) : OrderbookSnapshot :=
  ⟨0, "BTC-USD", [], [], none, none, none, 0, 0, t, .onDemand, "admin"⟩

def emptyRow (t : Time) (id : Int) : StoredSnapshot (Encoded Int) :=
  ⟨id, "BTC-USD", .text (SnapshotManager.snapshotData .fractions (emptySnapshot t)), 0, 0, none,
    none, none, some (DecimalText.fractions.string 0), some (DecimalText.fractions.string 0), t,
    .onDemand, some "admin"⟩

/-- The row of the snapshot that `n` others precede. -/
def savedRow (n : Nat) : StoredSnapshot (Encoded Int) := emptyRow (n + 1) (n + 1)

def savedRows : Nat → List (StoredSnapshot (Encoded Int))
  | 0 => []
  | n + 1 => savedRow n :: savedRows n

def savedEvents : Nat → List (SnapshotTable.Event (Encoded Int))
  | 0 => []
  | n + 1 => savedEvents n ++ [.saved (savedRow n)]

def savedTable (n : Nat) : SnapshotTable (Encoded Int) := ⟨savedRows n, n + 1⟩

theorem length_savedRows (n : Nat) : (savedRows n).length = n := by
  induction n with
  | zero => rfl
  | succ n ih => rw [savedRows, List.length_cons, ih]

theorem mem_savedRows {n : Nat} {x : StoredSnapshot (Encoded Int)} (h : x ∈ savedRows n) :
    x.instrument = "BTC-USD" ∧ x.snapshotTimestamp ≤ n := by
  induction n with
  | zero => cases h
  | succ n ih =>
      rcases List.mem_cons.mp h with rfl | h
      · exact ⟨rfl, le_refl _⟩
      · exact ⟨(ih h).1, (ih h).2.trans (Int.ofNat_le.mpr n.le_succ)⟩

theorem savedTable_rowsOf (n : Nat) : (savedTable n).rowsOf "BTC-USD" = savedRows n :=
  Multiset.filter_eq_self.mpr fun _ hx => (mem_savedRows hx).1

theorem savedTable_card (n : Nat) : ((savedTable n).rowsOf "BTC-USD").card = n := by
  rw [savedTable_rowsOf, Multiset.coe_card, length_savedRows]

theorem savedTable_descending (n : Nat) : Descending StoredSnapshot.snapshotTimestamp
    ((savedTable n).rowsOf "BTC-USD") (savedRows n) := by
  refine ⟨(savedTable_rowsOf n).symm, ?_⟩
  induction n with
  | zero => exact .nil
  | succ n ih =>
      exact List.pairwise_cons.mpr
        ⟨fun x hx => (mem_savedRows hx).2.trans (Int.ofNat_le.mpr n.le_succ), ih⟩

theorem savedTable_insert (n : Nat) :
    (savedTable n).insert (savedRow n) = savedTable (n + 1) := by
  simp only [savedTable, SnapshotTable.insert, savedRows, Multiset.cons_coe, Nat.cast_add,
    Nat.cast_one]

/-- One more snapshot is saved; what the trigger does is left open. -/
theorem savedTable_step {n : Nat} {db : SnapshotTable (Encoded Int)}
    (htrigger : (savedTable (n + 1)).AutoCleanup (savedRow n) db) :
    SnapshotTable.Step quarterEncoding .fractions (savedTable n) (.saved (savedRow n)) db := by
  have hsave : (⟨"BTC-USD", 50, false⟩ : SnapshotManager).saveSnapshot quarterEncoding .fractions
      (emptySnapshot (n + 1)) (savedTable n).nextID = .ok (savedRow n) := rfl
  rw [← savedTable_insert] at htrigger
  exact .saved hsave htrigger

theorem savedTable_trace {n : Nat} (hn : n ≤ 1000) :
    Trace (Where (SnapshotTable.Step quarterEncoding .fractions) fun _ e => e.KeepsAtLeast 500)
      .empty (savedEvents n) (savedTable n) := by
  induction n with
  | zero => exact .nil
  | succ n ih =>
      have hfew := (savedTable_card (n + 1)).trans_le hn
      exact (ih (Nat.le_of_succ_le hn)).snoc ⟨trivial, savedTable_step (.few hfew)⟩

/-- The snapshot after the thousandth makes the trigger delete all but 500. -/
theorem latest_snapshots_kept_triggered :
    let db := (savedTable 1001).delete ((savedRows 1001).drop 500)
    Trace (Where (SnapshotTable.Step quarterEncoding .fractions) fun _ e => e.KeepsAtLeast 500)
        .empty (savedEvents 1001) db
      ∧ (db.rowsOf "BTC-USD").card = 500
      ∧ ∀ x ∈ (savedEvents 1001).filterMap SnapshotTable.Event.saved?,
          x ∈ db.rows ∨ 500 ≤ db.noOlder x := by
  intro db
  have hthousand := savedTable_trace (le_refl 1000)
  have hkeyed : (savedTable 1001).Keyed :=
    savedTable_insert 1000 ▸ (SnapshotTable.retained le_rfl hthousand).keyed.insert rfl
  have hmany : 1000 < ((savedTable 1001).rowsOf "BTC-USD").card := by
    rw [savedTable_card]
    decide
  have hcleanup : (savedTable 1001).CleanupOldSnapshots "BTC-USD" 500 _ db :=
    .deleted (savedTable_descending 1001)
  have htrace := hthousand.next (.saved (savedRow 1000))
    ⟨trivial, savedTable_step (.many hmany hcleanup)⟩
  refine ⟨htrace, ?_, (latest_snapshots_kept (by decide) le_rfl htrace "BTC-USD").2.1⟩
  rw [SnapshotTable.rowsOf_delete_drop hkeyed (savedTable_descending 1001), Multiset.coe_card,
    List.length_take, length_savedRows]
  decide

end TradingBackend
