import TradingBackend.BookView
import TradingBackend.Float64
import TradingBackend.Json
import TradingBackend.Runs

/-!
# Snapshots of the book

`engine/snapshot_manager.go`: the best levels of both sides are captured,
written as JSON to a column of type `JSONB`, and read back through an untyped
map. Text of more than a kilobyte is compressed on the way to the column, and
neither the column nor a reader takes compressed bytes: `loads_back_iff` says
that a snapshot is lost exactly then.

The formats are parameters: `Encoding` for JSON and gzip, `DecimalText` for
decimals. Goroutines are left out, and so is the order of the rows: a reader is
given the row its query finds.
-/

namespace TradingBackend

/-- `Decimal.String` and `decimal.NewFromString`. -/
structure DecimalText where
  string : Decimal → String
  newFromString : String → Option Decimal
  newFromString_string : ∀ d, newFromString (string d) = some d

/-- The format of the documents: an `int` is written, a `float64` is read. -/
abbrev SnapshotEncoding (β : Type) := Encoding β fun n : Int => Float64.ofRat n

structure SnapshotPriceLevel where
  price : Decimal := 0
  totalVolume : Decimal := 0
  orderCount : Int := 0
deriving DecidableEq

inductive SnapshotType where
  | periodic
  | onDemand
  | preShutdown
  | recovery
  | unknown
deriving DecidableEq

structure OrderbookSnapshot where
  snapshotID : Int
  instrument : String
  bidLevels : List SnapshotPriceLevel
  askLevels : List SnapshotPriceLevel
  bestBidPrice : Option Decimal
  bestAskPrice : Option Decimal
  spread : Option Decimal
  totalBidVolume : Decimal
  totalAskVolume : Decimal
  snapshotTimestamp : Time
  snapshotType : SnapshotType
  triggeredBy : String

/-- The columns of `orderbook_snapshots`, as far as they are written or read. -/
structure StoredSnapshot (β : Type) where
  snapshotID : Int
  instrument : String
  snapshotData : β
  bidCount : Nat
  askCount : Nat
  bestBidPrice : Option String
  bestAskPrice : Option String
  spread : Option String
  totalBidVolume : Option String
  totalAskVolume : Option String
  snapshotTimestamp : Time
  snapshotType : SnapshotType
  triggeredBy : Option String

/-- `SnapshotManager`, without its loop. -/
structure SnapshotManager where
  instrument : String
  maxLevels : Nat
  enableCompression : Bool

namespace SnapshotManager

variable {T : Type}

/-! ## Capture -/

def captureLevel (priceLevel : PriceLevel) : SnapshotPriceLevel :=
  ⟨priceLevel.price, priceLevel.volume, priceLevel.orders.length⟩

/-- The loop over the levels of a side: the levels and their total volume. -/
def captureLevels (ob : OrderBook T) (priceLevels : List LevelRef) :
    List SnapshotPriceLevel × Decimal :=
  priceLevels.foldl
    (fun captured l =>
      let level := captureLevel (ob.levelAt l)
      (captured.1 ++ [level], captured.2 + level.totalVolume))
    ([], 0)

theorem captureLevels_eq (ob : OrderBook T) (priceLevels : List LevelRef) :
    captureLevels ob priceLevels =
      (priceLevels.map fun l => captureLevel (ob.levelAt l),
        (priceLevels.map fun l => (ob.levelAt l).volume).sum) := by
  have hfold : ∀ captured : List SnapshotPriceLevel × Decimal,
      priceLevels.foldl
        (fun captured l =>
          let level := captureLevel (ob.levelAt l)
          (captured.1 ++ [level], captured.2 + level.totalVolume)) captured =
        (captured.1 ++ priceLevels.map fun l => captureLevel (ob.levelAt l),
          captured.2 + (priceLevels.map fun l => (ob.levelAt l).volume).sum) := by
    induction priceLevels with
    | nil => simp
    | cons l priceLevels ih =>
        intro captured
        rw [List.foldl_cons, ih, List.map_cons, List.map_cons, List.append_assoc,
          List.singleton_append, List.sum_cons, ← add_assoc]
        rfl
  rw [captureLevels, hfold, List.nil_append, zero_add]

variable [OrderedTree T Decimal LevelRef]

/-- The end of `captureOrderbook`, when the levels of both sides have been
converted and their volumes added up. -/
def assemble (sm : SnapshotManager) (bids asks : List SnapshotPriceLevel × Decimal) (now : Time)
    (snapshotType : SnapshotType) (triggeredBy : String) : OrderbookSnapshot :=
  let bestBidPrice := bids.1.head?.map SnapshotPriceLevel.price
  let bestAskPrice := asks.1.head?.map SnapshotPriceLevel.price
  { snapshotID := 0
    instrument := sm.instrument
    bidLevels := bids.1
    askLevels := asks.1
    bestBidPrice
    bestAskPrice
    spread := bestAskPrice.bind fun ask => bestBidPrice.map fun bid => ask - bid
    totalBidVolume := bids.2
    totalAskVolume := asks.2
    snapshotTimestamp := now
    snapshotType
    triggeredBy }

/-- `SnapshotManager.captureOrderbook`, at the time `now`. The slices for the
levels are made for `maxLevels` of them before anything is read, and `make`
panics if that is more than can be allocated; this is left out. -/
def captureOrderbook (sm : SnapshotManager) (ob : OrderBook T) (now : Time)
    (snapshotType : SnapshotType) (triggeredBy : String) : OrderbookSnapshot :=
  let (bidPriceLevels, askPriceLevels) := ob.getTopLevels sm.maxLevels
  sm.assemble (captureLevels ob bidPriceLevels) (captureLevels ob askPriceLevels) now snapshotType
    triggeredBy

/-! ## Writing -/

section

variable {β : Type} (enc : SnapshotEncoding β) (dec : DecimalText)

/-- A level in JSON, by the tags of the structure. -/
def levelJson (level : SnapshotPriceLevel) : Json Int :=
  .obj [("price", .str (dec.string level.price)),
    ("total_volume", .str (dec.string level.totalVolume)),
    ("order_count", .num level.orderCount)]

/-- `snapshotData` of `saveSnapshot` in JSON: the keys of a map are sorted. -/
def snapshotData (snapshot : OrderbookSnapshot) : Json Int :=
  .obj [("ask_levels", .arr (snapshot.askLevels.map (levelJson dec))),
    ("bid_levels", .arr (snapshot.bidLevels.map (levelJson dec)))]

/-- `compressionRatio` of `saveSnapshot`. -/
def compressionRatio (compressedSize uncompressedSize : Nat) : Float64 :=
  (Float64.ofRat compressedSize).div (Float64.ofRat uncompressedSize)

/-- `finalData` of `saveSnapshot`. -/
def finalData (sm : SnapshotManager) (snapshot : OrderbookSnapshot) : β :=
  let snapshotJSON := enc.marshal (snapshotData dec snapshot)
  if sm.enableCompression && decide (1024 < enc.len snapshotJSON) then
    match enc.gzip snapshotJSON with
    | none => snapshotJSON
    | some compressedData =>
        if (Float64.ofRat (9 / 10)).le
            (compressionRatio (enc.len compressedData) (enc.len snapshotJSON)) then
          snapshotJSON
        else compressedData
  else snapshotJSON

/-- `SnapshotManager.saveSnapshot`: the row it inserts, under the id the
database gives it. A column of type `JSONB` takes valid JSON only. -/
def saveSnapshot (sm : SnapshotManager) (snapshot : OrderbookSnapshot) (snapshotID : Int) :
    Except String (StoredSnapshot β) :=
  let data := sm.finalData enc dec snapshot
  if enc.valid data then
    .ok
      { snapshotID
        instrument := snapshot.instrument
        snapshotData := data
        bidCount := snapshot.bidLevels.length
        askCount := snapshot.askLevels.length
        bestBidPrice := snapshot.bestBidPrice.map dec.string
        bestAskPrice := snapshot.bestAskPrice.map dec.string
        spread := snapshot.spread.map dec.string
        totalBidVolume := some (dec.string snapshot.totalBidVolume)
        totalAskVolume := some (dec.string snapshot.totalAskVolume)
        snapshotTimestamp := snapshot.snapshotTimestamp
        snapshotType := snapshot.snapshotType
        triggeredBy := some snapshot.triggeredBy }
  else .error "failed to insert snapshot"

/-! ## Reading -/

/-- A `decimal.NewFromString` whose error is dropped. -/
def parseDecimal (s : String) : Decimal := (dec.newFromString s).getD 0

/-- The body of the loop of `parsePriceLevels`; a failed type assertion
leaves the zero value. -/
def parsePriceLevel : Json Float64 → Option SnapshotPriceLevel
  | .obj levelMap => some
      { price := match Json.lookup "price" levelMap with
          | some (.str price) => parseDecimal dec price
          | _ => 0
        totalVolume := match Json.lookup "total_volume" levelMap with
          | some (.str volume) => parseDecimal dec volume
          | _ => 0
        orderCount := match Json.lookup "order_count" levelMap with
          | some (.num count) => count.toInt64
          | _ => 0 }
  | _ => none

def parsePriceLevels (snapshotData : List (String × Json Float64)) (key : String) :
    List SnapshotPriceLevel :=
  match Json.lookup key snapshotData with
  | some (.arr levelData) => levelData.filterMap (parsePriceLevel dec)
  | _ => []

/-- `json.Unmarshal` into a map; `null` leaves the map nil. -/
def unmarshalMap (data : β) : Option (List (String × Json Float64)) :=
  match enc.unmarshal data with
  | some (.obj fields) => some fields
  | some .null => some []
  | _ => none

/-- `SnapshotManager.GetLatestSnapshot` on the row its query finds. The texts
of wrapped errors are left out. -/
def getLatestSnapshot (sm : SnapshotManager) (found : Option (StoredSnapshot β)) :
    Except String OrderbookSnapshot :=
  match found with
  | none => .error ("no snapshot found for " ++ sm.instrument)
  | some row =>
      match row.triggeredBy with
      -- a NULL does not scan into a string
      | none => .error "failed to get latest snapshot"
      | some triggeredBy =>
          match unmarshalMap enc row.snapshotData with
          | none => .error "failed to unmarshal snapshot data"
          | some snapshotData => .ok
              { snapshotID := row.snapshotID
                instrument := row.instrument
                bidLevels := parsePriceLevels dec snapshotData "bid_levels"
                askLevels := parsePriceLevels dec snapshotData "ask_levels"
                bestBidPrice := row.bestBidPrice.map (parseDecimal dec)
                bestAskPrice := row.bestAskPrice.map (parseDecimal dec)
                spread := row.spread.map (parseDecimal dec)
                totalBidVolume := row.totalBidVolume.elim 0 (parseDecimal dec)
                totalAskVolume := row.totalAskVolume.elim 0 (parseDecimal dec)
                snapshotTimestamp := row.snapshotTimestamp
                snapshotType := row.snapshotType
                triggeredBy }

/-- `SnapshotManager.getSnapshotByID` on the row its query finds. It scans the
best prices and the spread and does not keep them. -/
def getSnapshotByID (snapshotID : Int) (found : Option (StoredSnapshot β)) :
    Except String OrderbookSnapshot :=
  match found with
  | none => .error ("snapshot " ++ toString snapshotID ++ " not found")
  | some row =>
      match row.totalBidVolume, row.totalAskVolume with
      | some totalBid, some totalAsk =>
          match unmarshalMap enc row.snapshotData with
          | none => .error "failed to unmarshal snapshot data"
          | some snapshotData => .ok
              { snapshotID := row.snapshotID
                instrument := row.instrument
                bidLevels := parsePriceLevels dec snapshotData "bid_levels"
                askLevels := parsePriceLevels dec snapshotData "ask_levels"
                bestBidPrice := none
                bestAskPrice := none
                spread := none
                totalBidVolume := parseDecimal dec totalBid
                totalAskVolume := parseDecimal dec totalAsk
                snapshotTimestamp := row.snapshotTimestamp
                snapshotType := row.snapshotType
                triggeredBy := row.triggeredBy.getD "" }
      | _, _ => .error "failed to query snapshot"

end

/-! ## What is captured -/

theorem getTopLevels_eq (ob : OrderBook T) (n : Nat) :
    ob.getTopLevels n = ((ob.levels true).take n, (ob.levels false).take n) := by
  rw [OrderBook.getTopLevels, List.map_take, List.map_take]
  rfl

section

variable {sm : SnapshotManager} {ob : OrderBook T} {now : Time} {snapshotType : SnapshotType}
  {triggeredBy : String}

def bestLevels (sm : SnapshotManager) (ob : OrderBook T) (b : Bool) : List SnapshotPriceLevel :=
  ((ob.levels b).take sm.maxLevels).map fun l => captureLevel (ob.levelAt l)

theorem captureOrderbook_bidLevels :
    (sm.captureOrderbook ob now snapshotType triggeredBy).bidLevels = sm.bestLevels ob true := by
  rw [captureOrderbook, getTopLevels_eq]
  simp only [captureLevels_eq]
  rfl

theorem captureOrderbook_askLevels :
    (sm.captureOrderbook ob now snapshotType triggeredBy).askLevels = sm.bestLevels ob false := by
  rw [captureOrderbook, getTopLevels_eq]
  simp only [captureLevels_eq]
  rfl

theorem captureOrderbook_totalBidVolume :
    (sm.captureOrderbook ob now snapshotType triggeredBy).totalBidVolume =
      ((sm.bestLevels ob true).map SnapshotPriceLevel.totalVolume).sum := by
  rw [captureOrderbook, getTopLevels_eq, bestLevels, List.map_map]
  simp only [captureLevels_eq]
  rfl

theorem captureOrderbook_totalAskVolume :
    (sm.captureOrderbook ob now snapshotType triggeredBy).totalAskVolume =
      ((sm.bestLevels ob false).map SnapshotPriceLevel.totalVolume).sum := by
  rw [captureOrderbook, getTopLevels_eq, bestLevels, List.map_map]
  simp only [captureLevels_eq]
  rfl

theorem orderCount_lt {b : Bool} {bound : Nat}
    (h : ∀ l ∈ ob.levels b, (ob.levelAt l).orders.length < bound) {level : SnapshotPriceLevel}
    (hlevel : level ∈ sm.bestLevels ob b) : level.orderCount.natAbs < bound := by
  obtain ⟨l, hl, rfl⟩ := List.mem_map.mp hlevel
  exact h l (List.mem_of_mem_take hl)

end

/-! ## What is read back -/

section

variable {β : Type} {enc : SnapshotEncoding β} {dec : DecimalText} {sm : SnapshotManager}
  {snapshot : OrderbookSnapshot} {levels : List SnapshotPriceLevel}

theorem parseDecimal_string (d : Decimal) : parseDecimal dec (dec.string d) = d := by
  rw [parseDecimal, dec.newFromString_string, Option.getD_some]

def levelRead (dec : DecimalText) (level : SnapshotPriceLevel) : Json Float64 :=
  (levelJson dec level).map fun n : Int => Float64.ofRat n

theorem parsePriceLevel_levelRead {level : SnapshotPriceLevel}
    (h : level.orderCount.natAbs < 2 ^ 53) :
    parsePriceLevel dec (levelRead dec level) = some level := by
  have hparse : parsePriceLevel dec (levelRead dec level) =
      some ⟨parseDecimal dec (dec.string level.price),
        parseDecimal dec (dec.string level.totalVolume),
        (Float64.ofRat level.orderCount).toInt64⟩ := rfl
  rw [hparse, parseDecimal_string, parseDecimal_string, Float64.toInt64_ofRat_intCast h]

theorem filterMap_parsePriceLevel (h : ∀ level ∈ levels, level.orderCount.natAbs < 2 ^ 53) :
    (levels.map (levelRead dec)).filterMap (parsePriceLevel dec) = levels := by
  rw [List.filterMap_map]
  refine (List.filterMap_congr fun level hlevel => ?_).trans List.filterMap_some
  exact parsePriceLevel_levelRead (h level hlevel)

theorem unmarshalMap_marshal :
    unmarshalMap enc (enc.marshal (snapshotData dec snapshot)) =
      some [("ask_levels", .arr (snapshot.askLevels.map (levelRead dec))),
        ("bid_levels", .arr (snapshot.bidLevels.map (levelRead dec)))] := by
  rw [unmarshalMap, enc.unmarshal_marshal, snapshotData]
  simp only [Json.map, Json.mapFields, Json.mapItems_eq, List.map_map]
  rfl

def Compresses (enc : SnapshotEncoding β) (dec : DecimalText) (sm : SnapshotManager)
    (snapshot : OrderbookSnapshot) : Prop :=
  let snapshotJSON := enc.marshal (snapshotData dec snapshot)
  sm.enableCompression = true ∧ 1024 < enc.len snapshotJSON
    ∧ ∃ compressedData, enc.gzip snapshotJSON = some compressedData
      ∧ (Float64.ofRat (9 / 10)).le
        (compressionRatio (enc.len compressedData) (enc.len snapshotJSON)) = false

theorem finalData_of_compresses (h : sm.Compresses enc dec snapshot) :
    ∃ compressedData, enc.gzip (enc.marshal (snapshotData dec snapshot)) = some compressedData
      ∧ sm.finalData enc dec snapshot = compressedData := by
  obtain ⟨henabled, hlarge, compressedData, hgzip, hratio⟩ := h
  refine ⟨compressedData, hgzip, ?_⟩
  simp [finalData, henabled, hlarge, hgzip, hratio]

theorem finalData_of_not_compresses (h : ¬sm.Compresses enc dec snapshot) :
    sm.finalData enc dec snapshot = enc.marshal (snapshotData dec snapshot) := by
  rw [finalData]
  split_ifs with huse
  · obtain ⟨henabled, hlarge⟩ := (Bool.and_eq_true _ _).mp huse
    split
    · rfl
    · rename_i compressedData hgzip
      split_ifs with hratio
      · rfl
      · exact (h ⟨henabled, of_decide_eq_true hlarge, compressedData, hgzip,
          Bool.eq_false_iff.mpr hratio⟩).elim
  · rfl

/-- The bytes for the column are JSON, and both readers get the captured levels
from a row that has them: any row whose other columns they can scan. -/
def LoadsBack (enc : SnapshotEncoding β) (dec : DecimalText) (sm : SnapshotManager)
    (snapshot : OrderbookSnapshot) : Prop :=
  let data := sm.finalData enc dec snapshot
  enc.valid data = true ∧ ∀ row : StoredSnapshot β, row.snapshotData = data →
    (row.triggeredBy.isSome →
      ∃ loaded, sm.getLatestSnapshot enc dec (some row) = .ok loaded
        ∧ loaded.bidLevels = snapshot.bidLevels ∧ loaded.askLevels = snapshot.askLevels)
    ∧ (row.totalBidVolume.isSome → row.totalAskVolume.isSome →
      ∃ loaded, getSnapshotByID enc dec row.snapshotID (some row) = .ok loaded
        ∧ loaded.bidLevels = snapshot.bidLevels ∧ loaded.askLevels = snapshot.askLevels)

theorem parsePriceLevels_marshal (enc : SnapshotEncoding β) (dec : DecimalText)
    (hbids : ∀ level ∈ snapshot.bidLevels, level.orderCount.natAbs < 2 ^ 53)
    (hasks : ∀ level ∈ snapshot.askLevels, level.orderCount.natAbs < 2 ^ 53) :
    ∃ fields, unmarshalMap enc (enc.marshal (snapshotData dec snapshot)) = some fields
      ∧ parsePriceLevels dec fields "bid_levels" = snapshot.bidLevels
      ∧ parsePriceLevels dec fields "ask_levels" = snapshot.askLevels :=
  ⟨_, unmarshalMap_marshal, filterMap_parsePriceLevel hbids, filterMap_parsePriceLevel hasks⟩

theorem getLatestSnapshot_levels (sm : SnapshotManager) (dec : DecimalText)
    {row : StoredSnapshot β} {fields : List (String × Json Float64)} (h : row.triggeredBy.isSome)
    (hfields : unmarshalMap enc row.snapshotData = some fields) :
    ∃ loaded, sm.getLatestSnapshot enc dec (some row) = .ok loaded
      ∧ loaded.bidLevels = parsePriceLevels dec fields "bid_levels"
      ∧ loaded.askLevels = parsePriceLevels dec fields "ask_levels" := by
  obtain ⟨triggeredBy, htriggered⟩ := Option.isSome_iff_exists.mp h
  simp only [getLatestSnapshot, htriggered, hfields]
  exact ⟨_, rfl, rfl, rfl⟩

theorem getSnapshotByID_levels (dec : DecimalText) {row : StoredSnapshot β}
    {fields : List (String × Json Float64)}
    (hbid : row.totalBidVolume.isSome) (hask : row.totalAskVolume.isSome)
    (hfields : unmarshalMap enc row.snapshotData = some fields) (snapshotID : Int) :
    ∃ loaded, getSnapshotByID enc dec snapshotID (some row) = .ok loaded
      ∧ loaded.bidLevels = parsePriceLevels dec fields "bid_levels"
      ∧ loaded.askLevels = parsePriceLevels dec fields "ask_levels" := by
  obtain ⟨totalBid, htotalBid⟩ := Option.isSome_iff_exists.mp hbid
  obtain ⟨totalAsk, htotalAsk⟩ := Option.isSome_iff_exists.mp hask
  simp only [getSnapshotByID, htotalBid, htotalAsk, hfields]
  exact ⟨_, rfl, rfl, rfl⟩

theorem loadsBack_of_not_compresses (h : ¬sm.Compresses enc dec snapshot)
    (hbids : ∀ level ∈ snapshot.bidLevels, level.orderCount.natAbs < 2 ^ 53)
    (hasks : ∀ level ∈ snapshot.askLevels, level.orderCount.natAbs < 2 ^ 53) :
    sm.LoadsBack enc dec snapshot := by
  obtain ⟨fields, hfields, hbid, hask⟩ := parsePriceLevels_marshal enc dec hbids hasks
  have hdata := finalData_of_not_compresses h
  rw [LoadsBack, hdata]
  refine ⟨enc.valid_marshal _, fun row hrow =>
    ⟨fun htriggered => ?_, fun hbidVolume haskVolume => ?_⟩⟩
  · obtain ⟨loaded, hload, hbids', hasks'⟩ :=
      getLatestSnapshot_levels sm dec htriggered (hrow ▸ hfields)
    exact ⟨loaded, hload, hbids'.trans hbid, hasks'.trans hask⟩
  · obtain ⟨loaded, hload, hbids', hasks'⟩ :=
      getSnapshotByID_levels dec hbidVolume haskVolume (hrow ▸ hfields) row.snapshotID
    exact ⟨loaded, hload, hbids'.trans hbid, hasks'.trans hask⟩

/-- Compressed bytes are refused: the row is never written. -/
theorem saveSnapshot_of_compresses (h : sm.Compresses enc dec snapshot) (snapshotID : Int) :
    enc.valid (sm.finalData enc dec snapshot) = false
      ∧ sm.saveSnapshot enc dec snapshot snapshotID = .error "failed to insert snapshot" := by
  obtain ⟨compressedData, hgzip, hdata⟩ := finalData_of_compresses h
  have hvalid : enc.valid (sm.finalData enc dec snapshot) = false := by
    rw [hdata]
    exact enc.not_valid_gzip hgzip
  refine ⟨hvalid, ?_⟩
  rw [saveSnapshot, hvalid]
  rfl

end

/-- A snapshot of a book, however many levels it takes, loads back exactly if
its bytes are not compressed. -/
theorem loads_back_iff {β : Type} (enc : SnapshotEncoding β) (dec : DecimalText)
    (sm : SnapshotManager) (ob : OrderBook T) (now : Time) (snapshotType : SnapshotType)
    (triggeredBy : String)
    (hcounts : ∀ b, ∀ l ∈ ob.levels b, (ob.levelAt l).orders.length < 2 ^ 53) :
    sm.LoadsBack enc dec (sm.captureOrderbook ob now snapshotType triggeredBy) ↔
      ¬sm.Compresses enc dec (sm.captureOrderbook ob now snapshotType triggeredBy) := by
  constructor
  · intro hloads hcompresses
    have hvalid := (saveSnapshot_of_compresses hcompresses 0).1
    exact Bool.false_ne_true (hvalid.symm.trans hloads.1)
  · intro hcompresses
    refine loadsBack_of_not_compresses hcompresses ?_ ?_
    · intro level hlevel
      rw [captureOrderbook_bidLevels] at hlevel
      exact orderCount_lt (hcounts true) hlevel
    · intro level hlevel
      rw [captureOrderbook_askLevels] at hlevel
      exact orderCount_lt (hcounts false) hlevel

end SnapshotManager

/-! ## A format for decimals -/

namespace DecimalText

def fraction (n d : Nat) : List Char :=
  Nat.toDigits 10 n ++ if d = 1 then [] else '/' :: Nat.toDigits 10 d

def parseFraction (cs : List Char) : Decimal :=
  let n := Nat.ofDigitChars 10 (cs.takeWhile (· ≠ '/')) 0
  match cs.dropWhile (· ≠ '/') with
  | [] => n
  | _ :: cs => n / Nat.ofDigitChars 10 cs 0

/-- Integers as `Decimal.String` writes them, other numbers as fractions. -/
def fractionText (d : Decimal) : String :=
  String.ofList ((if d.num < 0 then ['-'] else []) ++ fraction d.num.natAbs d.den)

def parseFractionText (s : String) : Decimal :=
  if s.toList.head? = some '-' then -parseFraction s.toList.tail else parseFraction s.toList

theorem isDigit_of_mem {n : Nat} {c : Char} (h : c ∈ Nat.toDigits 10 n) : c.isDigit = true :=
  Nat.isDigit_of_mem_toDigits (by decide) (by decide) h

theorem parseFraction_fraction (n d : Nat) : parseFraction (fraction n d) = (n : ℚ) / d := by
  have hpos : ∀ c ∈ Nat.toDigits 10 n, decide (c ≠ '/') = true := by
    intro c hc
    refine decide_eq_true fun heq => ?_
    exact absurd (heq ▸ isDigit_of_mem hc) (by decide)
  rw [parseFraction, fraction, List.dropWhile_append_of_pos hpos, List.takeWhile_append_of_pos hpos]
  by_cases hone : d = 1
  · simp [hone]
  · simp [hone]

theorem head_fraction_ne (n d : Nat) : (fraction n d).head? ≠ some '-' := by
  intro h
  rw [fraction, List.head?_append_of_ne_nil _ Nat.toDigits_ne_nil] at h
  exact absurd (isDigit_of_mem (List.mem_of_mem_head? h)) (by decide)

theorem parseFractionText_fractionText (d : Decimal) : parseFractionText (fractionText d) = d := by
  rw [parseFractionText, fractionText, String.toList_ofList]
  by_cases hneg : d.num < 0
  · have hnum : (d.num.natAbs : ℚ) = -d.num := by
      rw [← Int.cast_natCast, Int.ofNat_natAbs_of_nonpos hneg.le, Int.cast_neg]
    rw [if_pos hneg, List.singleton_append, List.head?_cons, if_pos rfl, List.tail_cons,
      parseFraction_fraction, hnum, neg_div, neg_neg, Rat.num_div_den]
  · have hnum : (d.num.natAbs : ℚ) = d.num := by
      rw [← Int.cast_natCast, Int.natAbs_of_nonneg (not_lt.mp hneg)]
    rw [if_neg hneg, List.nil_append, if_neg (head_fraction_ne _ _), parseFraction_fraction, hnum,
      Rat.num_div_den]

def fractions : DecimalText where
  string := fractionText
  newFromString s := some (parseFractionText s)
  newFromString_string d := congrArg some (parseFractionText_fractionText d)

end DecimalText

/-! ## Snapshots of a ladder of asks -/

/-- The JSON text and a compression to about a quarter. -/
def quarterEncoding : SnapshotEncoding (Encoded Int) :=
  Encoded.encoding (fun n => n.repr.length) fun n : Int => Float64.ofRat n

/-- `n` asks of 5 at the prices 100, 101, ... -/
def ladder (n : Nat) : List Request :=
  (List.range n).map fun i => .new { sellFive with id := BitVec.ofNat 128 i, price := 100 + i }

/-- The manager with the compression that `NewSnapshotManager` enables. -/
def snapshotManager : SnapshotManager := ⟨"BTC-USD", 50, true⟩

theorem loads_back_three_levels :
    let me := emptyEngine.after 9 (ladder 3)
    (∃ trades, MatchingEngine.Run emptyEngine (ladder 3) me trades)
      ∧ snapshotManager.LoadsBack quarterEncoding .fractions
        (snapshotManager.captureOrderbook me.orderBook 0 .onDemand "admin") := by
  refine ⟨MatchingEngine.after_run (by decide +kernel), ?_⟩
  refine (SnapshotManager.loads_back_iff _ _ _ _ _ _ _ (by decide +kernel)).mpr fun h => ?_
  exact absurd h.2.1 (by decide +kernel)

/-- With 20 levels the text has 1052 bytes, the compressed one 281. -/
theorem snapshot_lost_twenty_levels :
    let me := emptyEngine.after 9 (ladder 20)
    let snapshot := snapshotManager.captureOrderbook me.orderBook 0 .onDemand "admin"
    (∃ trades, MatchingEngine.Run emptyEngine (ladder 20) me trades)
      ∧ quarterEncoding.valid (snapshotManager.finalData quarterEncoding .fractions snapshot) =
        false
      ∧ snapshotManager.saveSnapshot quarterEncoding .fractions snapshot 1 =
        .error "failed to insert snapshot" := by
  have hcompresses : snapshotManager.Compresses quarterEncoding .fractions
      (snapshotManager.captureOrderbook (emptyEngine.after 9 (ladder 20)).orderBook 0 .onDemand
        "admin") :=
    ⟨rfl, by decide +kernel, .compressed _, rfl, by decide +kernel⟩
  exact ⟨MatchingEngine.after_run (by decide +kernel),
    SnapshotManager.saveSnapshot_of_compresses hcompresses 1⟩

end TradingBackend
