import Mathlib.Data.Prod.Lex
import TradingBackend.GoStrings
import TradingBackend.OrderedQuery
import TradingBackend.Postgres

/-!
# Trades page by page

`GetTrades` and `getTradesWithPagination` of `api/router.go`: the trades of
an instrument, latest first, a page at a time. The query is the function
`req.URL.Query().Get`. The order is by time and, within a time, by the key
of the table, so that it is the only one.

A client reads one page after the other while the engine stores more
trades (`Browsing`). What is stored goes in anywhere, also in front of what
the client has seen; the trades behind move back and are read by a later
page, perhaps a second time.

Left out: the headers and the log of the request.
-/

namespace TradingBackend

/-- One trade of an answer. Times of the tables are in microseconds; the
time is given in milliseconds and as it is. -/
structure TradeEntry where
  tradeID : UUID
  buyOrderID : UUID
  sellOrderID : UUID
  instrument : String
  price : Decimal
  quantity : Decimal
  timestamp : Int
  timestampISO : Time
deriving DecidableEq

/-- The answer of `GetTrades`. -/
structure TradesResponse where
  instrument : String
  trades : List TradeEntry
  limit : Int
  offset : Int
  count : Nat
  hasMore : Bool
deriving DecidableEq

def instrumentParam (text : String) : String := if text = "" then "BTC-USD" else text

def limitParam (text : String) : Int :=
  if text ≠ "" then
    match atoi text with
    | some parsed => if parsed > 1000 then 1000 else if parsed < 1 then 1 else parsed
    | none => 50
  else 50

def offsetParam (text : String) : Int :=
  if text ≠ "" then
    match atoi text with
    | some parsed => if parsed ≥ 0 then parsed else 0
    | none => 0
  else 0

namespace TradeRecord

def entry (t : TradeRecord) : TradeEntry :=
  { tradeID := t.tradeID, buyOrderID := t.buyOrderID, sellOrderID := t.sellOrderID,
    instrument := t.instrument, price := t.price, quantity := t.quantity,
    timestamp := t.timestamp / 1000, timestampISO := t.timestamp }

/-- `ORDER BY timestamp DESC, trade_id DESC`. -/
def latestKey (t : TradeRecord) : Time ×ₗ ℕ := toLex (t.timestamp, t.tradeID.toNat)

end TradeRecord

/-- `FROM trades WHERE instrument = $1`. -/
def TradeTables.tradesOf (db : TradeTables) (instrument : String) : Multiset TradeRecord :=
  (db.trades.entries.map fun t => TradeRecord.mk t.2 t.1).filter fun t => t.instrument = instrument

/-- `Router.GetTrades`: the answer, or the status and the text of
`respondError`. There may be no store, and the query may fail. -/
inductive GetTrades (store : Option TradeTables) (query : String → String) :
    Except (Nat × String) TradesResponse → Prop where
  | noStore (h : store = none) : GetTrades store query (.error (503, "Database not available"))
  | failed {db} (h : store = some db) (err : String) :
      GetTrades store query (.error (500, "Failed to retrieve trades: " ++ err))
  | ok {db rows} (h : store = some db)
      (hrows : Descending TradeRecord.latestKey
        (db.tradesOf (instrumentParam (query "instrument"))) rows) :
      GetTrades store query (.ok
        (let limit := limitParam (query "limit")
        let offset := offsetParam (query "offset")
        let trades := (page limit.toNat offset.toNat rows).map TradeRecord.entry
        { instrument := instrumentParam (query "instrument"), trades := trades, limit := limit,
          offset := offset, count := trades.length, hasMore := trades.length = limit }))

/-! ## A client that reads on -/

/-- The tables, and where the next page of the client begins. -/
structure Browsing where
  db : TradeTables
  offset : Nat

inductive BrowseEvent where
  | store (e : StoreEvent)
  | refused (error : Nat × String)
  | page (response : TradesResponse)

def BrowseEvent.page? : BrowseEvent → Option TradesResponse
  | page response => some response
  | _ => none

/-- The client asks for the trades of `instrument`, `limit` at a time. A
request that fails is made again. -/
inductive Browsing.Step (instrument : String) (limit : Nat) (b : Browsing) :
    BrowseEvent → Browsing → Prop where
  | store {e} : Step instrument limit b (.store e) { b with db := b.db.step e }
  | refused {query error} (h : GetTrades (some b.db) query (.error error)) :
      Step instrument limit b (.refused error) b
  | page {query response} (hinstrument : instrumentParam (query "instrument") = instrument)
      (hlimit : limitParam (query "limit") = limit)
      (hoffset : offsetParam (query "offset") = b.offset)
      (h : GetTrades (some b.db) query (.ok response)) :
      Step instrument limit b (.page response) { b with offset := b.offset + limit }

/-! ## The table -/

namespace TradeTables

variable {db db' : TradeTables} {e : StoreEvent} {instrument : String} {t t' : TradeRecord}

theorem mem_tradesOf : t ∈ db.tradesOf instrument ↔
    db.trades.lookup t.tradeID = some t.toTradeRow ∧ t.instrument = instrument := by
  rw [tradesOf, Multiset.mem_filter, Multiset.mem_map, Finmap.lookup_eq_some_iff]
  refine and_congr_left fun _ => ⟨?_, fun h => ⟨_, h, rfl⟩⟩
  rintro ⟨x, hx, rfl⟩
  exact hx

theorem eq_of_latestKey (ht : t ∈ db.tradesOf instrument) (ht' : t' ∈ db.tradesOf instrument)
    (hkey : t.latestKey = t'.latestKey) : t = t' := by
  have hid : t.tradeID = t'.tradeID :=
    BitVec.eq_of_toNat_eq (congrArg (fun k => (ofLex k).2) hkey)
  have hrow : t.toTradeRow = t'.toTradeRow := by
    have hlookup := (mem_tradesOf.mp ht').1
    rw [← hid, (mem_tradesOf.mp ht).1] at hlookup
    exact Option.some.inj hlookup
  obtain ⟨row, id⟩ := t
  obtain ⟨row', id'⟩ := t'
  obtain rfl : row = row' := hrow
  obtain rfl : id = id' := hid
  rfl

theorem tradesOf_nodup (db : TradeTables) (instrument : String) :
    (db.tradesOf instrument).Nodup := by
  refine Multiset.Nodup.filter _ (db.trades.nodup_entries.map ?_)
  rintro ⟨id, row⟩ ⟨id', row'⟩ heq
  obtain ⟨rfl, rfl⟩ := TradeRecord.mk.injEq .. |>.mp heq
  rfl

theorem call_trades (h : db.call e = .ok db') : db'.trades = db.trades
    ∨ ∃ id row, id ∉ db.trades ∧ db'.trades = db.trades.insert id row := by
  have hpersist : ∀ {c now}, db.persistTradeWithOrdersTx c now = .ok db' →
      db'.trades = db.trades
        ∨ ∃ id row, id ∉ db.trades ∧ db'.trades = db.trades.insert id row := by
    intro c now hc
    obtain ⟨db₁, db₂, hinsert, hbuy, hsell⟩ := persistTradeWithOrdersTx_eq_ok.mp hc
    obtain ⟨row, -, rfl⟩ := insertTrade_eq_ok.mp hinsert
    obtain ⟨b, b', -, -, rfl⟩ := updateOrder_eq_ok.mp hbuy
    obtain ⟨s, s', -, -, rfl⟩ := updateOrder_eq_ok.mp hsell
    by_cases hmem : c.trade.tradeID ∈ db.trades
    · rw [if_pos hmem]
      exact Or.inl rfl
    · rw [if_neg hmem]
      exact Or.inr ⟨_, row, hmem, rfl⟩
  cases e with
  | insertOrder order updatedAt =>
      obtain ⟨row, -, rfl⟩ := insertOrder_eq_ok.mp h
      left
      split_ifs <;> rfl
  | persist c now => exact hpersist h
  | redeliver c now => exact hpersist h

theorem tradesOf_step (db : TradeTables) (e : StoreEvent) (instrument : String) :
    db.tradesOf instrument ≤ (db.step e).tradesOf instrument := by
  rcases db.step_cases e with hcall | hsame
  · refine Multiset.filter_le_filter _ ?_
    rcases call_trades hcall with hsame | ⟨id, row, hid, hinsert⟩
    · rw [hsame]
    · rw [hinsert, Finmap.entries_insert_of_notMem hid, Multiset.map_cons]
      exact Multiset.le_cons_self _ _
  · rw [hsame]

end TradeTables

/-! ## The pages -/

/-- The trades of the pages, in the order in which they were read. -/
def shownTrades (es : List BrowseEvent) : List TradeEntry :=
  (es.filterMap BrowseEvent.page?).flatMap TradesResponse.trades

theorem shownTrades_snoc (es : List BrowseEvent) (response : TradesResponse) :
    shownTrades (es ++ [.page response]) = shownTrades es ++ response.trades := by
  rw [shownTrades, history_snoc, List.flatMap_append]
  exact congrArg (_ ++ ·) (List.flatMap_singleton ..)

theorem shownTrades_snoc_of_none (es : List BrowseEvent) {e : BrowseEvent} (he : e.page? = none) :
    shownTrades (es ++ [e]) = shownTrades es := by
  rw [shownTrades, history_snoc, he, Option.toList_none, List.append_nil, shownTrades]

namespace Browsing

variable {instrument : String} {limit : Nat} {b b' : Browsing} {es : List BrowseEvent}
  {e : BrowseEvent} {response : TradesResponse} {db₀ : TradeTables}

theorem Step.page_inv (h : b.Step instrument limit (.page response) b') :
    ∃ rows, Descending TradeRecord.latestKey (b.db.tradesOf instrument) rows
      ∧ response.trades = (TradingBackend.page limit b.offset rows).map TradeRecord.entry
      ∧ b' = { b with offset := b.offset + limit }
      ∧ (response.hasMore = false → rows.length < b.offset + limit) := by
  cases h with
  | @page query _ hinstrument hlimit hoffset h =>
      cases h with
      | @ok db rows hdb hrows =>
          obtain rfl := Option.some.inj hdb
          rw [hinstrument] at hrows
          refine ⟨rows, hrows, ?_, rfl, fun hlast => ?_⟩
          · simp [hlimit, hoffset]
          · have hne : ¬min limit (rows.length - b.offset) = limit := by
              simpa [TradingBackend.page, hlimit, hoffset] using hlast
            omega

/-- A trade that was there at first has been shown or is still to come. -/
def Covers (db₀ : TradeTables) (instrument : String) (es : List BrowseEvent) (b : Browsing) :
    Prop :=
  ∀ t ∈ db₀.tradesOf instrument, t.entry ∈ shownTrades es
    ∨ ∀ rows, Descending TradeRecord.latestKey (b.db.tradesOf instrument) rows →
        t ∈ rows.drop b.offset

theorem Covers.step (h : Covers db₀ instrument es b) (hstep : b.Step instrument limit e b') :
    Covers db₀ instrument (es ++ [e]) b' := by
  intro t ht
  cases hstep with
  | refused =>
      rw [shownTrades_snoc_of_none es rfl]
      exact h t ht
  | @store e =>
      rw [shownTrades_snoc_of_none es rfl]
      refine (h t ht).imp_right fun hcoming rows' hrows' => ?_
      obtain ⟨rows, hrows⟩ :=
        Descending.exists_rows TradeRecord.latestKey (b.db.tradesOf instrument)
      have hsub := hrows.sublist hrows' (b.db.tradesOf_step e instrument)
        ((b.db.step e).tradesOf_nodup instrument) fun _ hx _ hy =>
          TradeTables.eq_of_latestKey hx hy
      exact (hsub.drop b.offset).subset (hcoming rows hrows)
  | page hinstrument hlimit hoffset hget =>
      obtain ⟨rows, hrows, htrades, -, -⟩ :=
        (Step.page hinstrument hlimit hoffset hget).page_inv
      rw [shownTrades_snoc, List.mem_append]
      rcases h t ht with hshown | hcoming
      · exact Or.inl (Or.inl hshown)
      · -- the first rows of what is to come are the page
        have hmem := hcoming rows hrows
        rw [← List.take_append_drop limit (rows.drop b.offset), List.mem_append,
          List.drop_drop] at hmem
        rcases hmem with hpage | hrest
        · refine Or.inl (Or.inr ?_)
          rw [htrades]
          exact List.mem_map_of_mem hpage
        · refine Or.inr fun rows' hrows' => ?_
          rwa [hrows'.unique hrows (b.db.tradesOf_nodup instrument) fun _ hx _ hy =>
            TradeTables.eq_of_latestKey hx hy]

theorem covers (h : Trace (Step instrument limit) ⟨db₀, 0⟩ es b) :
    Covers db₀ instrument es b :=
  h.invariant (P := fun es b => Covers db₀ instrument es b)
    (fun _ ht => Or.inr fun _ hrows => hrows.mem_iff.mpr ht) Covers.step

/-- As long as nothing is stored, the pages are the first rows. -/
theorem shown_eq (h : Trace (Step instrument limit) ⟨db₀, 0⟩ es b) (hquiet : ∀ e, .store e ∉ es)
    {rows : List TradeRecord}
    (hrows : Descending TradeRecord.latestKey (db₀.tradesOf instrument) rows) :
    b.db = db₀ ∧ shownTrades es = (rows.take b.offset).map TradeRecord.entry := by
  induction h with
  | nil => exact ⟨rfl, rfl⟩
  | @snoc es b e b' _ hstep ih =>
      obtain ⟨hdb, hshown⟩ := ih fun e he => hquiet e (List.mem_append_left _ he)
      cases hstep with
      | store => exact absurd (List.mem_append_right _ (List.mem_singleton_self _)) (hquiet _)
      | refused =>
          rw [shownTrades_snoc_of_none _ rfl]
          exact ⟨hdb, hshown⟩
      | page hinstrument hlimit hoffset hget =>
          obtain ⟨rows', hrows', htrades, -, -⟩ :=
            (Step.page hinstrument hlimit hoffset hget).page_inv
          rw [hdb] at hrows'
          obtain rfl := hrows'.unique hrows (db₀.tradesOf_nodup instrument) fun _ hx _ hy =>
            TradeTables.eq_of_latestKey hx hy
          refine ⟨hdb, ?_⟩
          rw [shownTrades_snoc, hshown, htrades, ← List.map_append, TradingBackend.page,
            ← List.take_add]

end Browsing

/-- A client that reads page after page until one is not full is shown
every trade that was there when it began, whatever is stored in the
meantime; and if nothing is, it is shown the trades in their order, each
of them once. -/
theorem pages_show_every_trade {instrument : String} {limit : Nat} {db₀ : TradeTables}
    {es : List BrowseEvent} {response : TradesResponse} {b : Browsing}
    (h : Trace (Browsing.Step instrument limit) ⟨db₀, 0⟩ (es ++ [.page response]) b)
    (hlast : response.hasMore = false) :
    (∀ t ∈ db₀.tradesOf instrument, t.entry ∈ shownTrades (es ++ [.page response]))
    ∧ ((∀ e, .store e ∉ es) → ∃ rows,
        Descending TradeRecord.latestKey (db₀.tradesOf instrument) rows
        ∧ shownTrades (es ++ [.page response]) = rows.map TradeRecord.entry) := by
  obtain ⟨b₁, -, hstep⟩ := h.snoc_inv
  obtain ⟨rows, hrows, -, rfl, hlength⟩ := hstep.page_inv
  have hlength := hlength hlast
  constructor
  · intro t ht
    refine (Browsing.covers h t ht).resolve_right fun hcoming => ?_
    have hmem := hcoming rows hrows
    rw [List.drop_eq_nil_of_le hlength.le] at hmem
    cases hmem
  · intro hquiet
    have hquiet' : ∀ e, .store e ∉ es ++ [.page response] := by
      intro e he
      rcases List.mem_append.mp he with he | he
      · exact hquiet e he
      · cases List.mem_singleton.mp he
    obtain ⟨rows₀, hrows₀⟩ :=
      Descending.exists_rows TradeRecord.latestKey (db₀.tradesOf instrument)
    obtain ⟨hdb, hshown⟩ := Browsing.shown_eq h hquiet' hrows₀
    refine ⟨rows₀, hrows₀, hshown.trans ?_⟩
    have hdb : b₁.db = db₀ := hdb
    have hle : rows₀.length ≤ b₁.offset + limit := by
      rw [hrows₀.length_eq, ← hdb, ← hrows.length_eq]
      exact hlength.le
    rw [List.take_of_length_le hle]

def tradeRowAt (timestamp : Time) : TradeRow :=
  { buyOrderID := 1, sellOrderID := 2, instrument := "BTC-USD", price := 100, quantity := 1,
    timestamp := timestamp, createdAt := timestamp }

def twoTradesTable : TradeTables :=
  ⟨∅, (Finmap.singleton 7 (tradeRowAt 1000)).insert 8 (tradeRowAt 2000)⟩

def twoTrades : List TradeRecord := [⟨tradeRowAt 2000, 8⟩, ⟨tradeRowAt 1000, 7⟩]

theorem twoTradesTable_descending :
    Descending TradeRecord.latestKey (twoTradesTable.tradesOf "BTC-USD") twoTrades :=
  ⟨by decide +kernel, by decide +kernel⟩

/-- What is answered at an offset, with a limit of one. -/
def onePage (offset : Nat) : TradesResponse :=
  let trades := (page 1 offset twoTrades).map TradeRecord.entry
  { instrument := "BTC-USD", trades := trades, limit := 1, offset := offset,
    count := trades.length, hasMore := (trades.length : Int) = 1 }

theorem onePage_step (offset : Nat) (text : String) (htext : offsetParam text = offset) :
    Browsing.Step "BTC-USD" 1 ⟨twoTradesTable, offset⟩ (.page (onePage offset))
      ⟨twoTradesTable, offset + 1⟩ := by
  let query : String → String := fun key =>
    if key = "limit" then "1" else if key = "offset" then text else ""
  have hinstrument : instrumentParam (query "instrument") = "BTC-USD" := by
    simp [query, instrumentParam]
  have hlimit : limitParam (query "limit") = 1 := by
    rw [show query "limit" = "1" from rfl]
    decide +kernel
  have hoffset : offsetParam (query "offset") = offset := by simpa [query] using htext
  have hget : GetTrades (some twoTradesTable) query _ :=
    .ok rfl (hinstrument ▸ twoTradesTable_descending)
  simp only [hinstrument, hlimit, hoffset, Int.toNat_natCast] at hget
  exact .page hinstrument hlimit hoffset hget

/-- Two trades, one at a time: the third page is empty. -/
theorem pages_show_every_trade_two :
    shownTrades [.page (onePage 0), .page (onePage 1), .page (onePage 2)] =
        twoTrades.map TradeRecord.entry
      ∧ ∀ t ∈ twoTradesTable.tradesOf "BTC-USD",
        t.entry ∈ shownTrades [.page (onePage 0), .page (onePage 1), .page (onePage 2)] := by
  have h₀ : Trace (Browsing.Step "BTC-USD" 1) ⟨twoTradesTable, 0⟩ [] ⟨twoTradesTable, 0⟩ := .nil
  have h := ((h₀.snoc (onePage_step 0 "" (by decide +kernel))).snoc
    (onePage_step 1 "1" (by decide +kernel))).snoc (onePage_step 2 "2" (by decide +kernel))
  exact ⟨by decide +kernel, (pages_show_every_trade h (by decide +kernel)).1⟩

end TradingBackend
