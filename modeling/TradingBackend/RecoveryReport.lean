import TradingBackend.Columns
import TradingBackend.Recovery
import TradingBackend.Snapshots

/-!
# The report of a recovery

`capturePostRecoveryState`, `getDatabaseTotals` and `validateRecoveryWithDiffs` of
`engine/recovery_manager.go`: what a recovery says about the book it has rebuilt.

The volumes that are checked are those of the hundred best levels of each side,
and the totals they are compared with those of all open rows. The spread is
refused when it is negative, not when it is zero. Each check can only fail the
report and leaves what was captured alone (`Judges`), so the verdict is the
conjunction of the checks (`validateRecoveryWithDiffs_passed`).

Left out: the times, the snapshot and the flags of the report, its `Before` fields,
which are never written, and the log lines.
-/

namespace TradingBackend

inductive DiffSeverity where
  | error
  | info
deriving DecidableEq

structure RecoveryDiff where
  field : String
  recoveredValue : String
  expectedValue : String
  difference : String
  severity : DiffSeverity
  description : String
deriving DecidableEq

/-- `RecoveryReport`, with the values `RecoverOrderbookWithOptions` starts from. -/
structure RecoveryReport where
  ordersRestored : ℕ := 0
  afterTotalBidVolume : Decimal := 0
  afterTotalAskVolume : Decimal := 0
  afterBidLevels : ℕ := 0
  afterAskLevels : ℕ := 0
  afterBestBid : Option Decimal := none
  afterBestAsk : Option Decimal := none
  afterSpread : Option Decimal := none
  databaseBidVolume : Decimal := 0
  databaseAskVolume : Decimal := 0
  databaseBidCount : ℕ := 0
  databaseAskCount : ℕ := 0
  diffs : List RecoveryDiff := []
  validationPassed : Bool := false
  validationErrors : List String := []
deriving DecidableEq

structure DatabaseTotals where
  totalBidVolume : Decimal
  totalAskVolume : Decimal
  openOrderCount : ℕ
  openBuyOrderCount : ℕ
  openSellOrderCount : ℕ
deriving DecidableEq

/-- How numbers are written: `String`, and `fmt.Sprintf("%.2f", d.InexactFloat64())`. -/
structure ReportText extends DecimalText where
  twoDecimals : Decimal → String

namespace RecoveryReport

def fail (report : RecoveryReport) (err : String) : RecoveryReport :=
  { report with
    validationErrors := report.validationErrors ++ [err]
    validationPassed := false }

def note (report : RecoveryReport) (diff : RecoveryDiff) : RecoveryReport :=
  { report with diffs := report.diffs ++ [diff] }

end RecoveryReport

namespace RecoveryManager

variable {T : Type} [OrderedTree T Decimal LevelRef]

/-! ## The state of the book -/

def addVolumes (ob : OrderBook T) (total : Decimal) (levels : List LevelRef) : Decimal :=
  levels.foldl (fun total l => total + (ob.levelAt l).volume) total

def capturePostRecoveryState (orderbook : OrderBook T) (report : RecoveryReport) :
    RecoveryReport :=
  let (bidLevels, askLevels) := orderbook.getTopLevels 100
  let afterBestBid := orderbook.getBestBid.map fun l => (orderbook.levelAt l).price
  let afterBestAsk := orderbook.getBestAsk.map fun l => (orderbook.levelAt l).price
  { report with
    afterBidLevels := bidLevels.length
    afterAskLevels := askLevels.length
    afterTotalBidVolume := addVolumes orderbook report.afterTotalBidVolume bidLevels
    afterTotalAskVolume := addVolumes orderbook report.afterTotalAskVolume askLevels
    afterBestBid
    afterBestAsk
    afterSpread := afterBestAsk.bind fun ask => afterBestBid.map fun bid => ask - bid }

/-! ## The totals of the database -/

/-- `quantity - filled_quantity`, `none` for `NaN`. -/
def rowRemaining (row : SnapshotRow) : Option Decimal :=
  row.quantity.bind fun quantity => row.filledQuantity.map fun filled => quantity - filled

/-- `COALESCE(SUM(CASE WHEN side = … THEN quantity - filled_quantity ELSE 0 END), 0)`. -/
def sumRemaining (side : OrderSide) (rows : List SnapshotRow) : Option Decimal :=
  rows.foldl
    (fun sum row => sum.bind fun sum =>
      (if row.side = side then rowRemaining row else some 0).map (sum + ·))
    (some 0)

/-- `getDatabaseTotals`, from the table or the error of the query. A sum that
`NewFromString` does not accept counts as 0: its error is dropped. -/
def getDatabaseTotals (rm : RecoveryManager) (table : Except String (List SnapshotRow)) :
    Except String DatabaseTotals :=
  match table with
  | .error err => .error ("failed to query totals: " ++ err)
  | .ok table =>
      let rows := table.filter rm.selects
      .ok
        { totalBidVolume := (sumRemaining .buy rows).getD 0
          totalAskVolume := (sumRemaining .sell rows).getD 0
          openOrderCount := rows.length
          openBuyOrderCount := rows.countP fun row => row.side = .buy
          openSellOrderCount := rows.countP fun row => row.side = .sell }

/-! ## Validation -/

section

variable (fmt : ReportText)

/-- `string(volumeType[0]-32) + volumeType[1:]`, on bytes. -/
def displayType (volumeType : String) : String :=
  match volumeType.toList with
  | [] => volumeType
  | c :: rest => String.ofList (Char.ofNat ((c.toNat + 224) % 256) :: rest)

/-- `decimal.NewFromFloat(0.00000001)`. -/
def tolerance : Decimal := 1 / 100000000

/-- `diff.Div(dbVol).Mul(decimal.NewFromInt(100))`; a quotient has 16 decimals. -/
def diffPercent (diff dbVol : Decimal) : Decimal :=
  if dbVol = 0 then 0 else roundAway (diff / dbVol * 10 ^ 16) / 10 ^ 16 * 100

def validateVolumeWithTolerance (report : RecoveryReport) (volumeType : String)
    (recoveredVol dbVol : Decimal) (verbose : Bool) : RecoveryReport :=
  let diff := recoveredVol - dbVol
  if tolerance < |diff| then
    (report.fail (displayType volumeType ++ " volume mismatch: orderbook="
        ++ fmt.string recoveredVol ++ ", database=" ++ fmt.string dbVol ++ ", diff="
        ++ fmt.string diff)).note
      { field := volumeType ++ "_volume"
        recoveredValue := fmt.string recoveredVol
        expectedValue := fmt.string dbVol
        difference := fmt.string diff ++ " (" ++ fmt.twoDecimals (diffPercent diff dbVol) ++ "%)"
        severity := .error
        description := "Recovered " ++ volumeType ++ " volume does not match database total" }
  else if verbose ∧ diff ≠ 0 then
    report.note
      { field := volumeType ++ "_volume"
        recoveredValue := fmt.string recoveredVol
        expectedValue := fmt.string dbVol
        difference := fmt.string diff
        severity := .info
        description := "Tiny " ++ volumeType ++ " volume difference within tolerance" }
  else report

/-- Validation 1. -/
def validateOrders (report : RecoveryReport) : RecoveryReport :=
  if report.ordersRestored = 0 ∧ (0 < report.afterBidLevels ∨ 0 < report.afterAskLevels) then
    report.fail "Orderbook has levels but no orders were loaded"
  else report

/-- Validation 2, of the volume of a side. -/
def validateVolume (report : RecoveryReport) (volume : Decimal) (err field description : String) :
    RecoveryReport :=
  if volume < 0 then
    (report.fail (err ++ fmt.string volume)).note
      { field
        recoveredValue := fmt.string volume
        expectedValue := ">= 0"
        difference := fmt.string volume
        severity := .error
        description }
  else report

/-- Validation 2 of the bids. -/
def validateBidVolume (report : RecoveryReport) : RecoveryReport :=
  validateVolume fmt report report.afterTotalBidVolume "Negative bid volume: " "total_bid_volume"
    "Bid volume must be non-negative"

/-- Validation 2 of the asks. -/
def validateAskVolume (report : RecoveryReport) : RecoveryReport :=
  validateVolume fmt report report.afterTotalAskVolume "Negative ask volume: " "total_ask_volume"
    "Ask volume must be non-negative"

def pointerText (d : Option Decimal) : String := (d.map fmt.string).getD "<nil>"

/-- Validation 3. -/
def validateSpread (report : RecoveryReport) : RecoveryReport :=
  match report.afterSpread with
  | none => report
  | some spread =>
      if spread < 0 then
        (report.fail ("Negative spread: " ++ fmt.string spread ++ " (bid="
            ++ pointerText fmt report.afterBestBid ++ ", ask="
            ++ pointerText fmt report.afterBestAsk ++ ")")).note
          { field := "spread"
            recoveredValue := fmt.string spread
            expectedValue := ">= 0"
            difference := fmt.string spread
            severity := .error
            description := "Crossed book detected - best ask < best bid" }
      else report

/-- The diff of the order counts: it is of the asks, also where the buy orders are
counted. -/
def countDiff (report : RecoveryReport) (dbTotals : DatabaseTotals) : RecoveryDiff :=
  { field := "ask_order_count"
    recoveredValue := toString report.afterAskLevels
    expectedValue := toString dbTotals.openSellOrderCount ++ " orders"
    difference := "N/A"
    severity := .info
    description :=
      "Orderbook levels vs database orders (levels may aggregate multiple orders)" }

def storeTotals (report : RecoveryReport) (dbTotals : DatabaseTotals) : RecoveryReport :=
  { report with
    databaseBidVolume := dbTotals.totalBidVolume
    databaseAskVolume := dbTotals.totalAskVolume
    databaseBidCount := dbTotals.openBuyOrderCount
    databaseAskCount := dbTotals.openSellOrderCount }

/-- Validation 4 of the bids. -/
def validateBidTotal (report : RecoveryReport) (dbTotals : DatabaseTotals) (verbose : Bool) :
    RecoveryReport :=
  validateVolumeWithTolerance fmt report "bid" report.afterTotalBidVolume dbTotals.totalBidVolume
    verbose

/-- Validation 4 of the asks. -/
def validateAskTotal (report : RecoveryReport) (dbTotals : DatabaseTotals) (verbose : Bool) :
    RecoveryReport :=
  validateVolumeWithTolerance fmt report "ask" report.afterTotalAskVolume dbTotals.totalAskVolume
    verbose

def noteCount (report : RecoveryReport) (dbTotals : DatabaseTotals) (count : ℕ) (verbose : Bool) :
    RecoveryReport :=
  if verbose ∧ 0 < count then report.note (countDiff report dbTotals) else report

def validateTotals (report : RecoveryReport) (dbTotals : DatabaseTotals) (verbose : Bool) :
    RecoveryReport :=
  let report := storeTotals report dbTotals
  let report := validateBidTotal fmt report dbTotals verbose
  let report := validateAskTotal fmt report dbTotals verbose
  let report := noteCount report dbTotals dbTotals.openBuyOrderCount verbose
  noteCount report dbTotals dbTotals.openSellOrderCount verbose

def validateRecoveryWithDiffs (report : RecoveryReport)
    (databaseTotals : Except String DatabaseTotals) (verbose : Bool) : RecoveryReport :=
  let report := { report with validationPassed := true, validationErrors := [], diffs := [] }
  let report := validateOrders report
  let report := validateBidVolume fmt report
  let report := validateAskVolume fmt report
  let report := validateSpread fmt report
  match databaseTotals with
  | .ok dbTotals => validateTotals fmt report dbTotals verbose
  | .error _ => report

/-- `RecoverOrderbookWithOptions` with its report: the book the report is about and the
report. The two queries return `rows` and the totals of `table`. -/
def recoverWithReport (rm : RecoveryManager) (rows table : Except String (List SnapshotRow))
    (orderbook : OrderBook T) (dryRun verbose : Bool) :
    Except String (OrderBook T × RecoveryReport) := do
  let tempOrderbook ← (rm.recoverOrderbookWithOptions rows orderbook dryRun).2
  let orders := loadOpenOrders (← rows)
  let report : RecoveryReport := { ordersRestored := orders.length }
  let report := capturePostRecoveryState tempOrderbook report
  return (tempOrderbook,
    validateRecoveryWithDiffs fmt report (rm.getDatabaseTotals table) verbose)

end

end RecoveryManager

/-! ## The verdict -/

namespace RecoveryReport

/-- The report without what the validation writes. -/
def unjudged (report : RecoveryReport) : RecoveryReport :=
  { report with
    databaseBidVolume := 0
    databaseAskVolume := 0
    databaseBidCount := 0
    databaseAskCount := 0
    diffs := []
    validationPassed := false
    validationErrors := [] }

/-- A part of the validation that fails unless `p`, and changes nothing but the
verdict. -/
structure Judges (p : Prop) (r r' : RecoveryReport) : Prop where
  passed : r'.validationPassed = true ↔ r.validationPassed = true ∧ p
  unjudged : r'.unjudged = r.unjudged

variable {r r' r₁ : RecoveryReport} {p q : Prop}

theorem Judges.trans (h : Judges p r r₁) (h' : Judges q r₁ r') : Judges (p ∧ q) r r' :=
  ⟨by rw [h'.passed, h.passed, and_assoc], h'.unjudged.trans h.unjudged⟩

/-- A part looks at what was there before the parts in front of it. -/
theorem Judges.andThen {P : RecoveryReport → Prop} {f : RecoveryReport → RecoveryReport}
    (h : Judges p r r₁) (hf : ∀ r, Judges (P r.unjudged) r (f r)) :
    Judges (p ∧ P r.unjudged) r (f r₁) :=
  h.trans (h.unjudged ▸ hf r₁)

theorem judges_fail (err : String) (hp : ¬p) : Judges p r (r.fail err) :=
  ⟨iff_of_false nofun fun h => hp h.2, rfl⟩

theorem judges_of_passed (hp : p) (hpassed : r'.validationPassed = r.validationPassed)
    (hunjudged : r'.unjudged = r.unjudged) : Judges p r r' :=
  ⟨by rw [hpassed, and_iff_left hp], hunjudged⟩

theorem judges_self (hp : p) : Judges p r r := judges_of_passed hp rfl rfl

theorem Judges.note (h : Judges p r r') (diff : RecoveryDiff) : Judges p r (r'.note diff) :=
  ⟨h.passed, h.unjudged⟩

end RecoveryReport

namespace RecoveryManager

open RecoveryReport

variable (fmt : ReportText) (r : RecoveryReport) (dbTotals : DatabaseTotals) (verbose : Bool)

theorem validateOrders_judges :
    Judges (¬(r.ordersRestored = 0 ∧ (0 < r.afterBidLevels ∨ 0 < r.afterAskLevels))) r
      (validateOrders r) := by
  unfold validateOrders
  split_ifs with h
  · exact judges_fail _ (not_not_intro h)
  · exact judges_self h

theorem validateVolume_judges (volume : Decimal) (err field description : String) :
    Judges (0 ≤ volume) r (validateVolume fmt r volume err field description) := by
  unfold validateVolume
  split_ifs with h
  · exact (judges_fail _ (not_le.mpr h)).note _
  · exact judges_self (not_lt.mp h)

theorem validateSpread_judges :
    Judges (∀ spread, r.afterSpread = some spread → 0 ≤ spread) r (validateSpread fmt r) := by
  unfold validateSpread
  cases hspread : r.afterSpread with
  | none => exact judges_self nofun
  | some spread =>
      dsimp only
      split_ifs with h
      · exact (judges_fail _ fun hall => not_le.mpr h (hall spread rfl)).note _
      · refine judges_self fun s hs => ?_
        exact Option.some.inj hs ▸ not_lt.mp h

theorem validateVolumeWithTolerance_judges (volumeType : String) (recoveredVol dbVol : Decimal) :
    Judges (|recoveredVol - dbVol| ≤ tolerance) r
      (validateVolumeWithTolerance fmt r volumeType recoveredVol dbVol verbose) := by
  unfold validateVolumeWithTolerance
  dsimp only
  split_ifs with h
  · exact (judges_fail _ (not_le.mpr h)).note _
  · exact (judges_self (not_lt.mp h)).note _
  · exact judges_self (not_lt.mp h)

theorem noteCount_judges (count : ℕ) : Judges True r (noteCount r dbTotals count verbose) := by
  unfold noteCount
  split_ifs
  · exact (judges_self trivial).note _
  · exact judges_self trivial

/-- The volumes of the report are those of the database, up to the tolerance. -/
def MatchesTotals (dbTotals : DatabaseTotals) (r : RecoveryReport) : Prop :=
  |r.afterTotalBidVolume - dbTotals.totalBidVolume| ≤ tolerance
    ∧ |r.afterTotalAskVolume - dbTotals.totalAskVolume| ≤ tolerance

theorem validateTotals_judges :
    Judges (MatchesTotals dbTotals r) r (validateTotals fmt r dbTotals verbose) := by
  have hstore : Judges True r (storeTotals r dbTotals) := judges_of_passed trivial rfl rfl
  have hbid := hstore.andThen
    (P := fun r => |r.afterTotalBidVolume - dbTotals.totalBidVolume| ≤ tolerance)
    fun r => validateVolumeWithTolerance_judges fmt r verbose "bid" _ _
  have hask := hbid.andThen
    (P := fun r => |r.afterTotalAskVolume - dbTotals.totalAskVolume| ≤ tolerance)
    fun r => validateVolumeWithTolerance_judges fmt r verbose "ask" _ _
  have hbuys := hask.trans (noteCount_judges _ dbTotals verbose dbTotals.openBuyOrderCount)
  have hcounts := hbuys.trans (noteCount_judges _ dbTotals verbose dbTotals.openSellOrderCount)
  simp only [true_and, and_true] at hcounts
  exact hcounts

theorem validateRecoveryWithDiffs_passed :
    (validateRecoveryWithDiffs fmt r (.ok dbTotals) verbose).validationPassed = true ↔
      ¬(r.ordersRestored = 0 ∧ (0 < r.afterBidLevels ∨ 0 < r.afterAskLevels))
      ∧ 0 ≤ r.afterTotalBidVolume ∧ 0 ≤ r.afterTotalAskVolume
      ∧ (∀ spread, r.afterSpread = some spread → 0 ≤ spread) ∧ MatchesTotals dbTotals r := by
  have horders := validateOrders_judges
    { r with validationPassed := true, validationErrors := [], diffs := [] }
  have hbid := horders.andThen (P := fun r => 0 ≤ r.afterTotalBidVolume) fun r =>
    validateVolume_judges fmt r _ "Negative bid volume: " "total_bid_volume"
      "Bid volume must be non-negative"
  have hask := hbid.andThen (P := fun r => 0 ≤ r.afterTotalAskVolume) fun r =>
    validateVolume_judges fmt r _ "Negative ask volume: " "total_ask_volume"
      "Ask volume must be non-negative"
  have hspread := hask.andThen (P := fun r => ∀ spread, r.afterSpread = some spread → 0 ≤ spread)
    (validateSpread_judges fmt)
  have htotals := hspread.andThen (P := MatchesTotals dbTotals) fun r =>
    validateTotals_judges fmt r dbTotals verbose
  refine htotals.passed.trans ?_
  simp only [true_and, and_assoc]
  rfl

end RecoveryManager

end TradingBackend
