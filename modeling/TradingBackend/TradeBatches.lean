import TradingBackend.Redelivery
import TradingBackend.StoreTransactions

/-!
# Trades in batches

`persistMultipleTradesTx` inserts the trades of a batch and then writes, for each
order, the last of its updates, in whatever order the map of the updates is ranged
over. The reference is one statement after the other: every trade, then every
update of the list, repetitions included.

An update overwrites what the updates before it wrote and looks at nothing of it
(`OrderRow.update_update`). So a list of updates is accepted exactly if each is
accepted by the tables it starts from, and the last update of an order is what
its row shows in the end (`Updated`); neither depends on anything but the last
update of each order, which is what the map keeps.
-/

namespace TradingBackend

namespace TradeTables

/-- The updates one after the other, each in a transaction that began at its time. -/
def updateOneByOne (db : TradeTables) (updates : List (OrderUpdate × Time)) :
    Except StoreError TradeTables :=
  updates.foldlM (fun db u => db.updateOrder u.1 u.2) db

/-- `insertTrade` for each trade, and then `updateOrder` for each update. -/
def persistOneByOne (db : TradeTables) (trades : List TradeRecord)
    (updates : List (OrderUpdate × Time)) : Except StoreError TradeTables := do
  let db ← trades.foldlM insertTrade db
  db.updateOneByOne updates

end TradeTables

def lastUpdate (id : UUID) (updates : List (OrderUpdate × Time)) : Option (OrderUpdate × Time) :=
  (updates.filter fun u => u.1.orderID = id).getLast?

section

variable {id : UUID} {updates : List (OrderUpdate × Time)} {u : OrderUpdate × Time}

theorem lastUpdate_snoc : lastUpdate id (updates ++ [u]) =
    if u.1.orderID = id then some u else lastUpdate id updates := by
  unfold lastUpdate
  split_ifs with h <;> simp [h]

theorem mem_of_lastUpdate (h : lastUpdate id updates = some u) :
    u ∈ updates ∧ u.1.orderID = id := by
  obtain ⟨hmem, hid⟩ := List.mem_filter.mp (List.mem_of_getLast? h)
  exact ⟨hmem, of_decide_eq_true hid⟩

theorem lastUpdate_eq_none (h : ∀ u ∈ updates, u.1.orderID ≠ id) : lastUpdate id updates = none :=
  List.getLast?_eq_none_iff.mpr
    (List.filter_eq_nil_iff.mpr fun u hu hid => h u hu (of_decide_eq_true hid))

theorem lastUpdate_of_unique (hu : u ∈ updates) (h : ∀ v ∈ updates, v.1.orderID = id → v = u)
    (hid : u.1.orderID = id) : lastUpdate id updates = some u := by
  cases hlast : lastUpdate id updates with
  | none =>
      have hnil := List.getLast?_eq_none_iff.mp hlast
      exact absurd (decide_eq_true hid) (List.filter_eq_nil_iff.mp hnil u hu)
  | some v =>
      obtain ⟨hv, hid'⟩ := mem_of_lastUpdate hlast
      rw [h v hv hid']

end

/-! ## The last update decides -/

theorem toOption_eq_some {ε α : Type} {x : Except ε α} {a : α} :
    x.toOption = some a ↔ x = .ok a := by
  cases x <;> simp [Except.toOption]

/-- An update does not look at what an earlier one has written. -/
theorem OrderRow.update_update {row row' : OrderRow} {update : OrderUpdate} {now : Time}
    (h : row.update update now = .ok row') (update' : OrderUpdate) (now' : Time) :
    row'.update update' now' = row.update update' now' := by
  obtain ⟨-, heq, -⟩ := OrderRow.update_eq_ok.mp h
  rw [heq]
  rfl

/-- Nor does it matter for more than `updated_at` when it is made. -/
theorem OrderRow.update_at {row row' : OrderRow} {update : OrderUpdate} {now : Time}
    (h : row.update update now = .ok row') (now' : Time) :
    row.update update now' = .ok { row' with updatedAt := now' } := by
  obtain ⟨hfilled, heq, hvalid⟩ := OrderRow.update_eq_ok.mp h
  refine OrderRow.update_eq_ok.mpr ⟨hfilled, ?_, hvalid⟩
  conv_lhs => rw [heq]

namespace TradeTables

variable {db db' : TradeTables} {updates : List (OrderUpdate × Time)} {id : UUID}
  {u : OrderUpdate × Time}

def Takes (db : TradeTables) (u : OrderUpdate × Time) : Prop :=
  ∃ row row', db.orders.lookup u.1.orderID = some row ∧ row.update u.1 u.2 = .ok row'

def rowAfter (db : TradeTables) (updates : List (OrderUpdate × Time)) (id : UUID) :
    Option OrderRow :=
  match lastUpdate id updates with
  | none => db.orders.lookup id
  | some u => (db.orders.lookup id).bind fun row => (row.update u.1 u.2).toOption

/-- Updates made one after the other come to the last one of each order, since
an update overwrites all columns it writes. -/
structure Updated (db db' : TradeTables) (updates : List (OrderUpdate × Time)) : Prop where
  takes : ∀ u ∈ updates, db.Takes u
  rows : ∀ id, db'.orders.lookup id = db.rowAfter updates id
  trades : db'.trades = db.trades

/-- What a row takes after the updates it took before them. -/
theorem Updated.lookup (h : Updated db db' updates) {row' : OrderRow}
    (hrow' : db'.orders.lookup id = some row') :
    ∃ row, db.orders.lookup id = some row
      ∧ ∀ update now, row'.update update now = row.update update now := by
  rw [h.rows, rowAfter] at hrow'
  cases hlast : lastUpdate id updates with
  | none =>
      rw [hlast] at hrow'
      exact ⟨row', hrow', fun _ _ => rfl⟩
  | some u =>
      rw [hlast] at hrow'
      obtain ⟨row, hrow, hupdate⟩ := Option.bind_eq_some_iff.mp hrow'
      exact ⟨row, hrow, OrderRow.update_update (toOption_eq_some.mp hupdate)⟩

theorem Updated.lookup_of (h : Updated db db' updates) {row : OrderRow}
    (hrow : db.orders.lookup id = some row) : ∃ row', db'.orders.lookup id = some row' := by
  cases hlast : lastUpdate id updates with
  | none => exact ⟨row, by rw [h.rows, rowAfter, hlast]; exact hrow⟩
  | some u =>
      obtain ⟨hu, rfl⟩ := mem_of_lastUpdate hlast
      obtain ⟨row₁, row', hrow₁, hrow'⟩ := h.takes u hu
      refine ⟨row', ?_⟩
      rw [h.rows, rowAfter, hlast]
      exact Option.bind_eq_some_iff.mpr ⟨row₁, hrow₁, toOption_eq_some.mpr hrow'⟩

theorem Updated.snoc {db₁ : TradeTables} (h : Updated db db₁ updates)
    (hstep : db₁.updateOrder u.1 u.2 = .ok db') : Updated db db' (updates ++ [u]) := by
  obtain ⟨row₁, row', hrow₁, hrow', rfl⟩ := updateOrder_eq_ok.mp hstep
  obtain ⟨row, hrow, hsame⟩ := h.lookup hrow₁
  rw [hsame] at hrow'
  refine ⟨List.forall_mem_append.mpr ⟨h.takes, List.forall_mem_singleton.mpr
    ⟨row, row', hrow, hrow'⟩⟩, fun id => ?_, h.trades⟩
  rw [lookup_insert_apply, rowAfter, lastUpdate_snoc]
  by_cases hid : u.1.orderID = id
  · subst hid
    rw [if_pos rfl, if_pos rfl]
    exact (Option.bind_eq_some_iff.mpr ⟨row, hrow, toOption_eq_some.mpr hrow'⟩).symm
  · rw [if_neg hid, if_neg (Ne.symm hid), h.rows, rowAfter]

theorem updateOneByOne_snoc : db.updateOneByOne (updates ++ [u]) = .ok db' ↔
    ∃ db₁, db.updateOneByOne updates = .ok db₁ ∧ db₁.updateOrder u.1 u.2 = .ok db' := by
  rw [updateOneByOne, List.foldlM_append, bind_eq_ok]
  simp only [List.foldlM_cons, List.foldlM_nil, bind_pure]
  rfl

/-- The run lemma: updates that succeed one after the other. -/
theorem updateOneByOne_updated (h : db.updateOneByOne updates = .ok db') :
    Updated db db' updates := by
  induction updates using List.reverseRecOn generalizing db' with
  | nil =>
      obtain rfl := Except.ok.inj h
      exact ⟨List.forall_mem_nil _, fun _ => rfl, rfl⟩
  | append_singleton updates u ih =>
      obtain ⟨db₁, hupdates, hstep⟩ := updateOneByOne_snoc.mp h
      exact (ih hupdates).snoc hstep

/-- Updates that the tables take succeed one after the other. -/
theorem updateOneByOne_total (h : ∀ u ∈ updates, db.Takes u) :
    ∃ db', db.updateOneByOne updates = .ok db' := by
  induction updates using List.reverseRecOn with
  | nil => exact ⟨db, rfl⟩
  | append_singleton updates u ih =>
      obtain ⟨hupdates, hu⟩ := List.forall_mem_append.mp h
      obtain ⟨db₁, hdb₁⟩ := ih hupdates
      obtain ⟨row, row', hrow, hrow'⟩ := List.forall_mem_singleton.mp hu
      have hupdated := updateOneByOne_updated hdb₁
      obtain ⟨row₁, hrow₁⟩ := hupdated.lookup_of hrow
      obtain ⟨row₂, hrow₂, hsame⟩ := hupdated.lookup hrow₁
      obtain rfl := Option.some.inj (hrow.symm.trans hrow₂)
      refine ⟨_, updateOneByOne_snoc.mpr ⟨db₁, hdb₁, updateOrder_eq_ok.mpr ⟨row₁, row', hrow₁, ?_,
        rfl⟩⟩⟩
      rw [hsame, hrow']

/-- Lists of updates with the same last updates, whenever they are made, leave the
same tables. -/
theorem Updated.same {db₁ db₂ : TradeTables} {updates' : List (OrderUpdate × Time)}
    (h₁ : Updated db db₁ updates) (h₂ : Updated db db₂ updates')
    (hlast : ∀ id, (lastUpdate id updates).map Prod.fst = (lastUpdate id updates').map Prod.fst) :
    db₁.Same db₂ := by
  refine ⟨fun id => ?_, h₁.trades.trans h₂.trades.symm⟩
  have hid := hlast id
  rw [h₁.rows, h₂.rows, rowAfter, rowAfter]
  cases hu : lastUpdate id updates with
  | none =>
      rw [hu, Option.map_none, eq_comm, Option.map_eq_none_iff] at hid
      rw [hid]
  | some u =>
      obtain ⟨u', hu', heq⟩ := Option.map_eq_some_iff.mp (hid.symm.trans (by rw [hu]; rfl))
      obtain ⟨hmem, rfl⟩ := mem_of_lastUpdate hu
      obtain ⟨row, row', hrow, hrow'⟩ := h₁.takes u hmem
      rw [hu', hrow]
      dsimp only [Option.bind_some]
      rw [heq, hrow', OrderRow.update_at hrow' u'.2]
      rfl

end TradeTables

/-! ## The batch -/

namespace StoreTx

variable {db db' : TradeTables} {now : Time} {i : ℕ}

theorem insertTrades_eq_ok {trades : List TradeRecord} :
    insertTrades .none i trades db = .ok db' ↔
      trades.foldlM TradeTables.insertTrade db = .ok db' := by
  induction trades generalizing i db with
  | nil => simp [insertTrades, pure, Except.pure]
  | cons trade trades ih =>
      simp only [insertTrades, List.foldlM_cons, bind_eq_ok, wrapChain_ok, insertTrade_eq_ok, ih]

theorem updateOrders_eq_ok {updates : List OrderUpdate} :
    updateOrders .none now i updates db = .ok db' ↔
      db.updateOneByOne (updates.map fun update => (update, now)) = .ok db' := by
  induction updates generalizing i db with
  | nil => simp [updateOrders, TradeTables.updateOneByOne, pure, Except.pure]
  | cons update updates ih =>
      simp only [updateOrders, bind_eq_ok, wrapChain_ok, updateOrder_eq_ok, ih,
        TradeTables.updateOneByOne, List.map_cons, List.foldlM_cons]

theorem orderUpdateMap_snoc (orderUpdates : List OrderUpdate) (update : OrderUpdate) :
    orderUpdateMap (orderUpdates ++ [update]) =
      (orderUpdateMap orderUpdates).insert update.orderID update :=
  List.foldl_concat ..

theorem lookup_orderUpdateMap (updates : List (OrderUpdate × Time)) (id : UUID) :
    (orderUpdateMap (updates.map Prod.fst)).lookup id = (lastUpdate id updates).map Prod.fst := by
  induction updates using List.reverseRecOn with
  | nil => exact Finmap.lookup_empty id
  | append_singleton updates u ih =>
      rw [List.map_append, List.map_singleton, orderUpdateMap_snoc, TradeTables.lookup_insert_apply,
        ih, lastUpdate_snoc]
      by_cases hid : u.1.orderID = id
      · rw [if_pos hid, if_pos hid.symm, Option.map_some]
      · rw [if_neg hid, if_neg (Ne.symm hid)]

/-- What is ranged over are the last updates, each at its order. -/
theorem mem_range (range : MapRange) {updates : List (OrderUpdate × Time)} {update : OrderUpdate} :
    update ∈ (range.order (orderUpdateMap (updates.map Prod.fst))).map Sigma.snd ↔
      (lastUpdate update.orderID updates).map Prod.fst = some update := by
  have hmem : ∀ entry, entry ∈ range.order (orderUpdateMap (updates.map Prod.fst)) ↔
      (lastUpdate entry.1 updates).map Prod.fst = some entry.2 := by
    intro entry
    rw [← lookup_orderUpdateMap, Finmap.lookup_eq_some_iff, ← range.entries, Multiset.mem_coe]
  constructor
  · intro h
    obtain ⟨⟨id, _⟩, hentry, rfl⟩ := List.mem_map.mp h
    have hlast := (hmem _).mp hentry
    obtain ⟨u, hu, rfl⟩ := Option.map_eq_some_iff.mp hlast
    rw [(mem_of_lastUpdate hu).2]
    exact hlast
  · exact fun h => List.mem_map.mpr ⟨⟨update.orderID, update⟩, (hmem _).mpr h, rfl⟩

/-- Every order has its last update as its last and only one in the range. -/
theorem lastUpdate_range (range : MapRange) (updates : List (OrderUpdate × Time)) (now : Time)
    (id : UUID) :
    (lastUpdate id (((range.order (orderUpdateMap (updates.map Prod.fst))).map Sigma.snd).map
      fun update => (update, now))).map Prod.fst = (lastUpdate id updates).map Prod.fst := by
  cases hlast : (lastUpdate id updates).map Prod.fst with
  | none =>
      rw [lastUpdate_eq_none, Option.map_none]
      refine List.forall_mem_map.mpr fun update hupdate hid => ?_
      rw [← hid, (mem_range range).mp hupdate] at hlast
      cases hlast
  | some update =>
      obtain ⟨u, hu, rfl⟩ := Option.map_eq_some_iff.mp hlast
      obtain rfl := (mem_of_lastUpdate hu).2
      rw [lastUpdate_of_unique (u := (u.1, now)), Option.map_some]
      · exact List.mem_map_of_mem ((mem_range range).mpr hlast)
      · refine List.forall_mem_map.mpr fun update hupdate hid => ?_
        have hlast' := (mem_range range).mp hupdate
        rw [hid, hlast] at hlast'
        rw [Option.some.inj hlast']
      · rfl

end StoreTx

/-- Where one statement after the other succeeds, the batch succeeds, in whatever
order its map is ranged over, and leaves the same tables but for `updated_at`; and
an error before the commit leaves the tables as they are. -/
theorem batch_equals_one_by_one (range : MapRange) (db : TradeTables) (trades : List TradeRecord)
    (updates : List (OrderUpdate × Time)) (now : Time) :
    (∀ db', db.persistOneByOne trades updates = .ok db' →
      ∃ db₁, StoreTx.persistMultipleTradesTx .none range db trades (updates.map Prod.fst) now =
          ⟨none, db₁, true⟩
        ∧ db₁.Same db')
    ∧ ∀ faults err, (StoreTx.persistMultipleTradesTx faults range db trades
          (updates.map Prod.fst) now).err = some err →
        (StoreTx.persistMultipleTradesTx faults range db trades
          (updates.map Prod.fst) now).reachedCommit = false →
        (StoreTx.persistMultipleTradesTx faults range db trades
          (updates.map Prod.fst) now).tables = db := by
  refine ⟨fun db' h => ?_, fun faults err _ h => StoreTx.transaction_unchanged h⟩
  obtain ⟨db₀, htrades, hupdates⟩ := bind_eq_ok.mp h
  have hone := TradeTables.updateOneByOne_updated hupdates
  -- each update ranged over is one of the list, so the tables take it, at any time
  have htakes : ∀ u ∈ ((range.order (StoreTx.orderUpdateMap (updates.map Prod.fst))).map
      Sigma.snd).map (fun update => (update, now)), db₀.Takes u := by
    refine List.forall_mem_map.mpr fun update hupdate => ?_
    obtain ⟨u, hu, rfl⟩ := Option.map_eq_some_iff.mp ((StoreTx.mem_range range).mp hupdate)
    obtain ⟨row, row', hrow, hrow'⟩ := hone.takes u (mem_of_lastUpdate hu).1
    exact ⟨row, _, hrow, OrderRow.update_at hrow' now⟩
  obtain ⟨db₁, hdb₁⟩ := TradeTables.updateOneByOne_total htakes
  refine ⟨db₁, StoreTx.transaction_eq_ok.mpr (bind_eq_ok.mpr ⟨db₀, ?_, ?_⟩), ?_⟩
  · exact StoreTx.insertTrades_eq_ok.mpr htrades
  · exact StoreTx.updateOrders_eq_ok.mpr hdb₁
  · exact (TradeTables.updateOneByOne_updated hdb₁).same hone
      (StoreTx.lastUpdate_range range updates now)

/-- Both trades of the buy order in one batch, with two updates of it. -/
theorem batch_equals_one_by_one_halves :
    ∃ db' db₁, threeOrders.persistOneByOne [firstHalf.trade, secondHalf.trade]
        [(firstHalf.buyOrderUpdate, 1), (firstHalf.sellOrderUpdate, 1),
          (secondHalf.buyOrderUpdate, 2), (secondHalf.sellOrderUpdate, 2)] = .ok db'
      ∧ StoreTx.persistMultipleTradesTx .none default threeOrders
          [firstHalf.trade, secondHalf.trade] [firstHalf.buyOrderUpdate, firstHalf.sellOrderUpdate,
            secondHalf.buyOrderUpdate, secondHalf.sellOrderUpdate] 3 = ⟨none, db₁, true⟩
      ∧ db₁.Same db' := by
  obtain ⟨db', hdb'⟩ := Option.isSome_iff_exists.mp (show (threeOrders.persistOneByOne
    [firstHalf.trade, secondHalf.trade]
    [(firstHalf.buyOrderUpdate, 1), (firstHalf.sellOrderUpdate, 1),
      (secondHalf.buyOrderUpdate, 2), (secondHalf.sellOrderUpdate, 2)]).toOption.isSome = true by
        decide +kernel)
  have hone := toOption_eq_some.mp hdb'
  obtain ⟨db₁, hbatch, hsame⟩ := (batch_equals_one_by_one default _ _ _ 3).1 db' hone
  exact ⟨db', db₁, hone, hbatch, hsame⟩

end TradingBackend
