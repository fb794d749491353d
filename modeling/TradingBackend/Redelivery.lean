import TradingBackend.Postgres

/-!
# Redelivered trades

`insertTrade` ignores a trade it has, but the transaction of
`PersistTradeWithOrders` goes on and overwrites the rows of the two orders
all the same. A redelivery changes nothing exactly if the rows still show
what its updates say (`Shows`), that is if no later trade of either order
was persisted in between; and even then the trigger sets `updated_at`.

`Same` is equality of the tables but for `updated_at`. No call looks at
that column, so calls keep `Same` (`Same.step`), a redelivery of what is
shown stutters, and a run with such redeliveries is simulated by the run
without them.
-/

namespace TradingBackend

/-! ## Equal but for the time of the last update -/

def OrderRow.untimed (row : OrderRow) : OrderRow := { row with updatedAt := 0 }

theorem OrderRow.update_untimed (row : OrderRow) (update : OrderUpdate) (now : Time) :
    row.untimed.update update now = row.update update now := rfl

/-- Two results of a call: the same error, or values that are related. -/
inductive SameResult {α : Type} (R : α → α → Prop) :
    Except StoreError α → Except StoreError α → Prop
  | ok {a b} (h : R a b) : SameResult R (.ok a) (.ok b)
  | error (err) : SameResult R (.error err) (.error err)

section

variable {α β : Type} {R : α → α → Prop} {S : β → β → Prop} {x y : Except StoreError α}

theorem SameResult.wrap (h : SameResult R x y) (message : String) :
    SameResult R (wrapError message x) (wrapError message y) := by
  cases h with
  | ok h => exact .ok h
  | error err => exact .error _

theorem SameResult.bind {f g : α → Except StoreError β} (h : SameResult R x y)
    (hfg : ∀ {a b}, R a b → SameResult S (f a) (g b)) : SameResult S (x >>= f) (y >>= g) := by
  cases h with
  | ok h => exact hfg h
  | error err => exact .error err

theorem SameResult.refl (hR : ∀ a, R a a) (x : Except StoreError α) : SameResult R x x := by
  cases x with
  | error err => exact .error err
  | ok a => exact .ok (hR a)

end

namespace TradeTables

/-- The tables are equal but for `updated_at`. -/
structure Same (db db' : TradeTables) : Prop where
  orders : ∀ id, (db.orders.lookup id).map OrderRow.untimed =
    (db'.orders.lookup id).map OrderRow.untimed
  trades : db.trades = db'.trades

variable {db db' db₁ : TradeTables} {c : PersistCall} {update : OrderUpdate} {now : Time}
  {e : StoreEvent} {id : UUID} {row row' : OrderRow}

theorem Same.refl (db : TradeTables) : db.Same db := ⟨fun _ => rfl, rfl⟩

theorem Same.symm (h : db.Same db') : db'.Same db := ⟨fun id => (h.orders id).symm, h.trades.symm⟩

theorem Same.trans (h : db.Same db') (h' : db'.Same db₁) : db.Same db₁ :=
  ⟨fun id => (h.orders id).trans (h'.orders id), h.trades.trans h'.trades⟩

theorem Same.lookup (h : db.Same db') (hrow : db.orders.lookup id = some row) :
    ∃ row', db'.orders.lookup id = some row' ∧ row.untimed = row'.untimed := by
  have horders := h.orders id
  rw [hrow, Option.map_some] at horders
  obtain ⟨row', hrow', heq⟩ := Option.map_eq_some_iff.mp horders.symm
  exact ⟨row', hrow', heq.symm⟩

theorem Same.mem_orders (h : db.Same db') : id ∈ db.orders ↔ id ∈ db'.orders := by
  rw [← Finmap.lookup_isSome, ← Finmap.lookup_isSome, ← Option.isSome_map (f := OrderRow.untimed),
    h.orders, Option.isSome_map]

theorem Same.insert (h : db.Same db') (hrow : row.untimed = row'.untimed) (id : UUID) :
    Same { db with orders := db.orders.insert id row }
      { db' with orders := db'.orders.insert id row' } := by
  refine ⟨fun id' => ?_, h.trades⟩
  rw [lookup_insert_apply, lookup_insert_apply]
  split_ifs
  · rw [Option.map_some, Option.map_some, hrow]
  · exact h.orders id'

theorem Same.insertOrder (h : db.Same db') (order : Order) (updatedAt : Time) :
    SameResult Same (db.insertOrder order updatedAt) (db'.insertOrder order updatedAt) := by
  refine (SameResult.refl (R := Eq) (fun _ => rfl) _).bind fun {row row'} heq => .ok ?_
  subst heq
  by_cases hmem : order.id ∈ db.orders
  · rw [if_pos hmem, if_pos (h.mem_orders.mp hmem)]
    exact h
  · rw [if_neg hmem, if_neg fun hmem' => hmem (h.mem_orders.mpr hmem')]
    exact h.insert rfl order.id

theorem Same.insertTrade (h : db.Same db') (trade : TradeRecord) :
    SameResult Same (db.insertTrade trade) (db'.insertTrade trade) := by
  refine (SameResult.refl (R := Eq) (fun _ => rfl) _).bind fun {row row'} heq => .ok ?_
  subst heq
  rw [← h.trades]
  by_cases hmem : trade.tradeID ∈ db.trades
  · rw [if_pos hmem, if_pos hmem]
    exact h
  · rw [if_neg hmem, if_neg hmem]
    exact ⟨h.orders, rfl⟩

theorem Same.updateOrder (h : db.Same db') (update : OrderUpdate) (now : Time) :
    SameResult Same (db.updateOrder update now) (db'.updateOrder update now) := by
  unfold TradeTables.updateOrder
  have horders := h.orders update.orderID
  cases hrow : db.orders.lookup update.orderID with
  | none =>
      rw [hrow, Option.map_none, eq_comm, Option.map_eq_none_iff] at horders
      rw [horders]
      exact .error _
  | some row =>
      obtain ⟨row', hrow', heq⟩ := h.lookup hrow
      rw [hrow']
      dsimp only
      rw [← row.update_untimed, heq, row'.update_untimed]
      refine ((SameResult.refl (R := Eq) (fun _ => rfl) _).wrap _).bind fun {r r'} hr => .ok ?_
      exact h.insert (congrArg _ hr) update.orderID

theorem Same.call (h : db.Same db') (e : StoreEvent) :
    SameResult Same (db.call e) (db'.call e) := by
  have hpersist : ∀ c now, SameResult Same (db.persistTradeWithOrdersTx c now)
      (db'.persistTradeWithOrdersTx c now) := by
    intro c now
    refine ((h.insertTrade c.trade).wrap _).bind fun h₁ => ?_
    refine ((h₁.updateOrder c.buyOrderUpdate now).wrap _).bind fun h₂ => ?_
    exact (h₂.updateOrder c.sellOrderUpdate now).wrap _
  cases e with
  | insertOrder order updatedAt => exact h.insertOrder order updatedAt
  | persist c now => exact hpersist c now
  | redeliver c now => exact hpersist c now

theorem Same.step (h : db.Same db') (e : StoreEvent) : (db.step e).Same (db'.step e) := by
  have hcall := h.call e
  unfold TradeTables.step
  generalize db.call e = x, db'.call e = y at hcall
  cases hcall with
  | ok h => exact h
  | error err => exact h

/-! ## Rows that show an update -/

def Shows (db : TradeTables) (update : OrderUpdate) : Prop :=
  ∃ row, db.orders.lookup update.orderID = some row
    ∧ numeric 20 8 update.filledQuantity = some row.filledQuantity ∧ row.status = update.status

def ShowsAt (db : TradeTables) (update : OrderUpdate) (now : Time) : Prop :=
  ∃ row, db.orders.lookup update.orderID = some row
    ∧ numeric 20 8 update.filledQuantity = some row.filledQuantity ∧ row.status = update.status
    ∧ row.updatedAt = now

theorem ShowsAt.shows (h : db.ShowsAt update now) : db.Shows update := by
  obtain ⟨row, hrow, hfilled, hstatus, -⟩ := h
  exact ⟨row, hrow, hfilled, hstatus⟩

theorem Shows.congr (h : db.Shows update) (hsame : db.Same db') : db'.Shows update := by
  obtain ⟨row, hrow, hfilled, hstatus⟩ := h
  obtain ⟨row', hrow', heq⟩ := hsame.lookup hrow
  have hfilled' : row.untimed.filledQuantity = row'.untimed.filledQuantity := by rw [heq]
  have hstatus' : row.untimed.status = row'.untimed.status := by rw [heq]
  exact ⟨row', hrow', hfilled.trans (congrArg some hfilled'), hstatus'.symm.trans hstatus⟩

/-- Making an update that is shown changes at most the time. -/
theorem Shows.updateOrder (h : db.Shows update) (hok : db.updateOrder update now = .ok db') :
    db'.Same db := by
  obtain ⟨row, hrow, hfilled, hstatus⟩ := h
  obtain ⟨r, r', hr, hr', rfl⟩ := updateOrder_eq_ok.mp hok
  obtain rfl := Option.some.inj (hrow.symm.trans hr)
  obtain ⟨hfilled', heq, -⟩ := OrderRow.update_eq_ok.mp hr'
  have huntimed : r'.untimed = row.untimed := by
    rw [heq, ← Option.some.inj (hfilled.symm.trans hfilled'), ← hstatus]
    rfl
  refine ⟨fun id => ?_, rfl⟩
  rw [lookup_insert_apply]
  split_ifs with hid
  · rw [hid, hrow, Option.map_some, Option.map_some, huntimed]
  · rfl

/-- Making it again at the same time changes nothing. -/
theorem ShowsAt.updateOrder (h : db.ShowsAt update now)
    (hok : db.updateOrder update now = .ok db') : db' = db := by
  obtain ⟨row, hrow, hfilled, hstatus, hnow⟩ := h
  obtain ⟨r, r', hr, hr', rfl⟩ := updateOrder_eq_ok.mp hok
  obtain rfl := Option.some.inj (hrow.symm.trans hr)
  obtain ⟨hfilled', heq, -⟩ := OrderRow.update_eq_ok.mp hr'
  have hrow' : r' = row := by
    rw [heq, ← Option.some.inj (hfilled.symm.trans hfilled'), ← hstatus, ← hnow]
  have horders : db.orders.insert update.orderID r' = db.orders := by
    refine Finmap.ext_lookup fun id => ?_
    rw [lookup_insert_apply]
    split_ifs with hid
    · rw [hid, hrow, hrow']
    · rfl
  rw [horders]

theorem updateOrder_showsAt (hok : db.updateOrder update now = .ok db') :
    db'.ShowsAt update now := by
  obtain ⟨r, r', hr, hr', rfl⟩ := updateOrder_eq_ok.mp hok
  obtain ⟨hfilled, heq, -⟩ := OrderRow.update_eq_ok.mp hr'
  refine ⟨r', Finmap.lookup_insert _, hfilled, ?_, ?_⟩
  · rw [heq]
  · rw [heq]

theorem ShowsAt.other {other : OrderUpdate} {time : Time} (h : db.ShowsAt other time)
    (hne : other.orderID ≠ update.orderID) (hok : db.updateOrder update now = .ok db') :
    db'.ShowsAt other time := by
  obtain ⟨row, hrow, hshown⟩ := h
  obtain ⟨r, r', -, -, rfl⟩ := updateOrder_eq_ok.mp hok
  exact ⟨row, (Finmap.lookup_insert_of_ne _ hne).trans hrow, hshown⟩

/-! ## Redeliveries -/

/-- What is supposed of the calls: an order is inserted with what its
trades say, the updates of a new trade are cumulative, and only what is
persisted is redelivered. -/
def Faithful (db : TradeTables) : StoreEvent → Prop
  | .insertOrder order _ => order.filledQuantity = db.tradeTotal order.id
  | .persist c _ => db.Cumulative c
  | .redeliver c _ => c.trade.tradeID ∈ db.trades

/-- The quantity of a new trade has at most eight decimals, and a
redelivery finds its updates in the rows of both orders. -/
def Harmless (db : TradeTables) : StoreEvent → Prop
  | .insertOrder _ _ => True
  | .persist c _ => HasScale 8 c.trade.quantity
  | .redeliver c _ => db.Shows c.buyOrderUpdate ∧ db.Shows c.sellOrderUpdate

/-- A redelivery finds its updates in the rows, with its own time. -/
def Timely (db : TradeTables) : StoreEvent → Prop
  | .redeliver c now => db.ShowsAt c.buyOrderUpdate now ∧ db.ShowsAt c.sellOrderUpdate now
  | _ => True

theorem persist_of_mem (hmem : c.trade.tradeID ∈ db.trades)
    (hok : db.persistTradeWithOrdersTx c now = .ok db') :
    ∃ db₁, db.updateOrder c.buyOrderUpdate now = .ok db₁
      ∧ db₁.updateOrder c.sellOrderUpdate now = .ok db' := by
  obtain ⟨db₀, db₁, hinsert, hbuy, hsell⟩ := persistTradeWithOrdersTx_eq_ok.mp hok
  obtain ⟨row, -, rfl⟩ := insertTrade_eq_ok.mp hinsert
  rw [if_pos hmem] at hbuy
  exact ⟨db₁, hbuy, hsell⟩

theorem redelivery_same (hmem : c.trade.tradeID ∈ db.trades)
    (h : db.Harmless (.redeliver c now)) (hok : db.persistTradeWithOrdersTx c now = .ok db') :
    db'.Same db := by
  obtain ⟨hb, hs⟩ := h
  obtain ⟨db₁, hbuy, hsell⟩ := persist_of_mem hmem hok
  have h₁ := hb.updateOrder hbuy
  exact ((hs.congr h₁.symm).updateOrder hsell).trans h₁

theorem redelivery_eq (hmem : c.trade.tradeID ∈ db.trades)
    (h : db.Timely (.redeliver c now)) (hok : db.persistTradeWithOrdersTx c now = .ok db') :
    db' = db := by
  obtain ⟨hb, hs⟩ := h
  obtain ⟨db₁, hbuy, hsell⟩ := persist_of_mem hmem hok
  obtain rfl := hb.updateOrder hbuy
  exact hs.updateOrder hsell

/-- After a call the rows of its two orders show its updates. -/
theorem persist_timely (hne : c.buyOrderUpdate.orderID ≠ c.sellOrderUpdate.orderID)
    (hok : db.persistTradeWithOrdersTx c now = .ok db') : db'.Timely (.redeliver c now) := by
  obtain ⟨_, db₁, -, hbuy, hsell⟩ := persistTradeWithOrdersTx_eq_ok.mp hok
  exact ⟨(updateOrder_showsAt hbuy).other hne hsell, updateOrder_showsAt hsell⟩

theorem Same.harmless (h : db'.Same db) (ht : db'.Timely (.redeliver c now)) :
    db.Harmless (.redeliver c now) :=
  ⟨ht.1.shows.congr h, ht.2.shows.congr h⟩

theorem Consistent.congr (h : db.Consistent) (hsame : db'.Same db) :
    db'.Consistent ∧ db.Grows db' := by
  refine ⟨⟨?_, fun id row hrow => ?_⟩, ?_, ?_⟩
  · rw [hsame.trades]
    exact h.trades
  · obtain ⟨row', hrow', heq⟩ := hsame.lookup hrow
    have hfilled : row.untimed.filledQuantity = row'.untimed.filledQuantity := by rw [heq]
    rw [tradeTotal_congr hsame.trades]
    exact Eq.trans hfilled (h.orders id row' hrow')
  · exact fun id hid => hsame.mem_orders.mpr hid
  · exact fun id => (tradeTotal_congr hsame.trades).ge

/-- One call keeps the tables consistent, and takes nothing back. -/
theorem Consistent.step (h : db.Consistent) (hf : db.Faithful e) (hh : db.Harmless e) :
    (db.step e).Consistent ∧ db.Grows (db.step e) := by
  rcases db.step_cases e with hok | heq
  · cases e with
    | insertOrder order updatedAt => exact h.insertOrder hf hok
    | persist c now => exact h.persist hf hh hok
    | redeliver c now => exact h.congr (redelivery_same hf hh hok)
  · rw [heq]
    exact ⟨h, Grows.refl db⟩

end TradeTables

def StoreEvent.original : StoreEvent → Option StoreEvent
  | .redeliver _ _ => none
  | e => some e

section

variable {e d : StoreEvent}

theorem StoreEvent.original_eq_some (h : e.original = some d) : e = d := by
  cases e with
  | redeliver c now => cases h
  | insertOrder order updatedAt => exact Option.some.inj h
  | persist c now => exact Option.some.inj h

theorem StoreEvent.original_eq_none (h : e.original = none) : ∃ c now, e = .redeliver c now := by
  cases e with
  | redeliver c now => exact ⟨c, now, rfl⟩
  | insertOrder order updatedAt => cases h
  | persist c now => cases h

end

open TradeTables in
/-- In every run of the store in which the updates are cumulative and a
redelivery is made only while the rows of both orders show what it says,
the redeliveries change nothing but `updated_at`, and not that if they are
made at the time it holds; the orders have filled what their trades say,
never less than before. Any other redelivery that succeeds changes the
tables. -/
theorem redelivery_keeps_tables {db₀ : TradeTables} (h₀ : db₀.Consistent) :
    (∀ es db, Trace (Where Step fun db e => db.Faithful e ∧ db.Harmless e) db₀ es db →
      (∃ db', Trace Step db₀ (es.filterMap StoreEvent.original) db' ∧ db.Same db')
      ∧ db.filledMismatches = 0
      ∧ ∀ e, db.Faithful e → db.Harmless e → ∀ id row, db.orders.lookup id = some row →
          ∃ row', (db.step e).orders.lookup id = some row'
            ∧ row.filledQuantity ≤ row'.filledQuantity)
    ∧ (∀ es db, Trace (Where Step fun db e => db.Faithful e ∧ db.Timely e) db₀ es db →
        Trace Step db₀ (es.filterMap StoreEvent.original) db)
    ∧ ∀ (db : TradeTables) c now db', c.trade.tradeID ∈ db.trades →
        c.buyOrderUpdate.orderID ≠ c.sellOrderUpdate.orderID →
        db.persistTradeWithOrdersTx c now = .ok db' →
        (db'.Same db ↔ db.Harmless (.redeliver c now))
          ∧ (db' = db ↔ db.Timely (.redeliver c now)) := by
  refine ⟨fun es db htrace => ?_, fun es db htrace => ?_, fun db c now db' hmem hne hok => ?_⟩
  · have hcons : db.Consistent := htrace.invariant (P := fun _ db => db.Consistent) h₀ <| by
      rintro es db e _ h ⟨⟨hf, hh⟩, rfl⟩
      exact (h.step hf hh).1
    refine ⟨?_, hcons.filledMismatches, fun e hf hh id row hrow => ?_⟩
    · refine htrace.simulate (R := Same) (Same.refl db₀) ?_ ?_
      · rintro s e _ t d he hR ⟨-, rfl⟩
        obtain rfl := StoreEvent.original_eq_some he
        exact ⟨t.step e, rfl, hR.step e⟩
      · rintro s e _ t he hR ⟨⟨hf, hh⟩, rfl⟩
        obtain ⟨c, now, rfl⟩ := StoreEvent.original_eq_none he
        rcases s.step_cases (.redeliver c now) with hok | heq
        · exact (redelivery_same hf hh hok).trans hR
        · rw [heq]
          exact hR
    · obtain ⟨hcons', hgrows⟩ := hcons.step hf hh
      exact hgrows.filled hcons hcons' hrow
  · have hsim : ∃ db', Trace Step db₀ (es.filterMap StoreEvent.original) db' ∧ db = db' := by
      refine htrace.simulate (R := Eq) rfl ?_ ?_
      · rintro s e _ t d he rfl ⟨-, rfl⟩
        obtain rfl := StoreEvent.original_eq_some he
        exact ⟨_, rfl, rfl⟩
      · rintro s e _ t he rfl ⟨⟨hf, ht⟩, rfl⟩
        obtain ⟨c, now, rfl⟩ := StoreEvent.original_eq_none he
        rcases s.step_cases (.redeliver c now) with hok | heq
        · exact redelivery_eq hf ht hok
        · exact heq
    obtain ⟨db', htrace', rfl⟩ := hsim
    exact htrace'
  · have htimely := persist_timely hne hok
    refine ⟨⟨fun h => h.harmless htimely, fun h => redelivery_same hmem h hok⟩, ?_, ?_⟩
    · rintro rfl
      exact htimely
    · exact fun h => redelivery_eq hmem h hok

/-! ## A buy order and its two trades -/

/-- A new order of client `"client"`. -/
def storedOrder (id : UUID) (side : OrderSide) (quantity : Decimal) : Order :=
  { id := id, clientID := "client", instrument := "BTC-USD", side := side, type := .limit,
    price := 100, quantity := quantity, filledQuantity := 0, status := .opened, createdAt := 0 }

/-- Half of the buy order 1 is filled by the sell order 2. -/
def firstHalf : PersistCall :=
  { trade := ⟨⟨1, 2, "BTC-USD", 100, 5, 1, 1⟩, 11⟩
    buyOrderUpdate := ⟨1, 5, .partiallyFilled, 1⟩
    sellOrderUpdate := ⟨2, 5, .filled, 1⟩ }

/-- The other half is filled by the sell order 3. -/
def secondHalf : PersistCall :=
  { trade := ⟨⟨1, 3, "BTC-USD", 100, 5, 2, 2⟩, 12⟩
    buyOrderUpdate := ⟨1, 10, .filled, 2⟩
    sellOrderUpdate := ⟨3, 5, .filled, 2⟩ }

def threeOrders : TradeTables :=
  ((TradeTables.empty.step (.insertOrder (storedOrder 1 .buy 10) 0)).step
    (.insertOrder (storedOrder 2 .sell 5) 0)).step (.insertOrder (storedOrder 3 .sell 5) 0)

theorem threeOrders_consistent : threeOrders.Consistent := by
  have hfirst := (TradeTables.consistent_empty.step (e := .insertOrder (storedOrder 1 .buy 10) 0)
    (by decide +kernel : (0 : Decimal) = _) trivial).1
  have hsecond := (hfirst.step (e := .insertOrder (storedOrder 2 .sell 5) 0)
    (by decide +kernel : (0 : Decimal) = _) trivial).1
  exact (hsecond.step (e := .insertOrder (storedOrder 3 .sell 5) 0)
    (by decide +kernel : (0 : Decimal) = _) trivial).1

theorem cumulative_firstHalf : threeOrders.Cumulative firstHalf :=
  ⟨by decide +kernel, rfl, rfl, by decide +kernel, by decide +kernel⟩

/-- A redelivery right after the call, then the second trade. -/
theorem redelivery_keeps_tables_at_once :
    ∃ db, Trace (Where TradeTables.Step fun db e => db.Faithful e ∧ db.Harmless e) threeOrders
        [.persist firstHalf 1, .redeliver firstHalf 2, .persist secondHalf 3] db
      ∧ ∃ db', Trace TradeTables.Step threeOrders
          [.persist firstHalf 1, .persist secondHalf 3] db' ∧ db.Same db' := by
  have hscale : HasScale 8 5 := ⟨500000000, by norm_num⟩
  have hnil : Trace (Where TradeTables.Step fun db e => db.Faithful e ∧ db.Harmless e) threeOrders
      [] _ := .nil
  have hok : threeOrders.persistTradeWithOrdersTx firstHalf 1 =
      .ok (threeOrders.step (.persist firstHalf 1)) := by
    decide +kernel
  have hshown := TradeTables.persist_timely (by decide) hok
  have htrace := ((hnil.next (.persist firstHalf 1) ⟨⟨cumulative_firstHalf, hscale⟩, rfl⟩).next
    (.redeliver firstHalf 2) ⟨⟨(by decide +kernel : firstHalf.trade.tradeID ∈ _),
      hshown.1.shows, hshown.2.shows⟩, rfl⟩).next (.persist secondHalf 3)
    ⟨⟨⟨by decide +kernel, rfl, rfl, by decide +kernel, by decide +kernel⟩, hscale⟩, rfl⟩
  exact ⟨_, htrace, ((redelivery_keeps_tables threeOrders_consistent).1 _ _ htrace).1⟩

/-- Redelivered after the second trade, the first one takes the buy order
back to half: its row says 5 where its trades make 10. -/
theorem stale_redelivery_reverts :
    ∃ db, Trace (Where TradeTables.Step TradeTables.Faithful) threeOrders
        [.persist firstHalf 1, .persist secondHalf 2] db
      ∧ db.filledMismatches = 0
      ∧ (db.orders.lookup 1).map (fun row => (row.filledQuantity, row.status)) = some (10, .filled)
      ∧ ∃ db', Where TradeTables.Step TradeTables.Faithful db (.redeliver firstHalf 3) db'
        ∧ db.persistTradeWithOrdersTx firstHalf 3 = .ok db'
        ∧ (db'.orders.lookup 1).map (fun row => (row.filledQuantity, row.status))
          = some (5, .partiallyFilled)
        ∧ db'.filledMismatches = {⟨1, 5, 10⟩} := by
  have hnil : Trace (Where TradeTables.Step TradeTables.Faithful) threeOrders [] _ := .nil
  have htrace := (hnil.next (.persist firstHalf 1) ⟨cumulative_firstHalf, rfl⟩).next
    (.persist secondHalf 2)
    ⟨⟨by decide +kernel, rfl, rfl, by decide +kernel, by decide +kernel⟩, rfl⟩
  refine ⟨_, htrace, by decide +kernel, by decide +kernel, _,
    ⟨(by decide +kernel : firstHalf.trade.tradeID ∈ _), rfl⟩, by decide +kernel,
    by decide +kernel, by decide +kernel⟩

end TradingBackend
