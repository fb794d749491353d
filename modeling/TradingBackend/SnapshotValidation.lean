import TradingBackend.Snapshots

/-!
# A snapshot against the live book

`ValidateAgainstLiveBook` captures the book again and lists the differences to
a snapshot: the numbers of levels, then level by level as far as both lists go,
then the totals. `validates_iff` says that the list is empty exactly if there
is no difference. A level that one list has and the other does not is found by
its number only, which is enough.
-/

namespace TradingBackend

/-- The `interface{}` values of a `SnapshotMismatch`. -/
inductive MismatchValue where
  | int (n : Int)
  | text (s : String)
deriving DecidableEq

structure SnapshotMismatch where
  level : String
  field : String
  snapshotVal : MismatchValue
  liveVal : MismatchValue
  difference : Decimal := 0
deriving DecidableEq

namespace SnapshotManager

variable (dec : DecimalText)

/-- The comparison of two decimals: price, volume and the totals. -/
def compareDecimal (level field : String) (snapshotVal liveVal : Decimal) :
    List SnapshotMismatch :=
  if snapshotVal ≠ liveVal then
    [⟨level, field, .text (dec.string snapshotVal), .text (dec.string liveVal),
      liveVal - snapshotVal⟩]
  else []

/-- The body of the loop of `comparePriceLevels`. -/
def comparePriceLevel (levelType : String) (i : Nat) (snapLevel liveLevel : SnapshotPriceLevel) :
    List SnapshotMismatch :=
  let level := levelType ++ "[" ++ toString i ++ "]"
  compareDecimal dec level "price" snapLevel.price liveLevel.price
    ++ compareDecimal dec level "volume" snapLevel.totalVolume liveLevel.totalVolume
    ++ if snapLevel.orderCount ≠ liveLevel.orderCount then
        [{ level, field := "order_count", snapshotVal := .int snapLevel.orderCount,
           liveVal := .int liveLevel.orderCount }]
      else []

/-- The loop of `comparePriceLevels` from index `i` on: it ends with the
shorter list. -/
def comparePriceLevelsFrom (levelType : String) (i : Nat) :
    List SnapshotPriceLevel → List SnapshotPriceLevel → List SnapshotMismatch
  | snapLevel :: snapshotLevels, liveLevel :: liveLevels =>
      comparePriceLevel dec levelType i snapLevel liveLevel
        ++ comparePriceLevelsFrom levelType (i + 1) snapshotLevels liveLevels
  | _, _ => []

def comparePriceLevels (snapshotLevels liveLevels : List SnapshotPriceLevel) (levelType : String) :
    List SnapshotMismatch :=
  comparePriceLevelsFrom dec levelType 0 snapshotLevels liveLevels

def compareLevelCount (level : String) (snapshotLevels liveLevels : List SnapshotPriceLevel) :
    List SnapshotMismatch :=
  if snapshotLevels.length ≠ liveLevels.length then
    [{ level, field := "level_count", snapshotVal := .int snapshotLevels.length,
       liveVal := .int liveLevels.length }]
  else []

section

variable {T : Type} [OrderedTree T Decimal LevelRef]

def validateAgainstLiveBook (sm : SnapshotManager) (ob : OrderBook T) (now : Time)
    (snapshot : OrderbookSnapshot) : List SnapshotMismatch :=
  let liveSnapshot := sm.captureOrderbook ob now .recovery "validation"
  compareLevelCount "bids" snapshot.bidLevels liveSnapshot.bidLevels
    ++ compareLevelCount "asks" snapshot.askLevels liveSnapshot.askLevels
    ++ comparePriceLevels dec snapshot.bidLevels liveSnapshot.bidLevels "bid"
    ++ comparePriceLevels dec snapshot.askLevels liveSnapshot.askLevels "ask"
    ++ compareDecimal dec "totals" "bid_volume" snapshot.totalBidVolume liveSnapshot.totalBidVolume
    ++ compareDecimal dec "totals" "ask_volume" snapshot.totalAskVolume liveSnapshot.totalAskVolume

end

variable {dec} {snapshotLevels liveLevels : List SnapshotPriceLevel}

theorem compareDecimal_eq_nil {level field : String} {x y : Decimal} :
    compareDecimal dec level field x y = [] ↔ x = y := by
  simp [compareDecimal]

theorem compareLevelCount_eq_nil {level : String} :
    compareLevelCount level snapshotLevels liveLevels = [] ↔
      snapshotLevels.length = liveLevels.length := by
  simp [compareLevelCount]

theorem comparePriceLevel_eq_nil {levelType : String} {i : Nat} {x y : SnapshotPriceLevel} :
    comparePriceLevel dec levelType i x y = [] ↔ x = y := by
  obtain ⟨price, volume, count⟩ := x
  obtain ⟨price', volume', count'⟩ := y
  simp [comparePriceLevel, compareDecimal_eq_nil]

theorem comparePriceLevelsFrom_eq_nil {levelType : String} {i : Nat}
    (hlength : snapshotLevels.length = liveLevels.length) :
    comparePriceLevelsFrom dec levelType i snapshotLevels liveLevels = [] ↔
      snapshotLevels = liveLevels := by
  induction snapshotLevels generalizing liveLevels i with
  | nil =>
      obtain rfl := List.length_eq_zero_iff.mp hlength.symm
      exact iff_of_true rfl rfl
  | cons snapLevel snapshotLevels ih =>
      cases liveLevels with
      | nil => cases hlength
      | cons liveLevel liveLevels =>
          rw [comparePriceLevelsFrom, List.append_eq_nil_iff, comparePriceLevel_eq_nil,
            ih (Nat.succ.inj hlength), List.cons.injEq]

theorem compare_side_eq_nil (dec : DecimalText) (level levelType : String)
    (snapshotLevels liveLevels : List SnapshotPriceLevel) :
    compareLevelCount level snapshotLevels liveLevels = []
        ∧ comparePriceLevels dec snapshotLevels liveLevels levelType = [] ↔
      snapshotLevels = liveLevels := by
  rw [compareLevelCount_eq_nil, comparePriceLevels]
  constructor
  · rintro ⟨hlength, hlevels⟩
    exact (comparePriceLevelsFrom_eq_nil hlength).mp hlevels
  · rintro rfl
    exact ⟨rfl, (comparePriceLevelsFrom_eq_nil rfl).mpr rfl⟩

/-- The comparison with the live book finds nothing exactly if the snapshot has
the best levels of the book, and their total volumes. -/
theorem validates_iff {T : Type} [OrderedTree T Decimal LevelRef] (dec : DecimalText)
    (sm : SnapshotManager) (ob : OrderBook T) (now : Time) (snapshot : OrderbookSnapshot) :
    sm.validateAgainstLiveBook dec ob now snapshot = [] ↔
      (snapshot.bidLevels = sm.bestLevels ob true ∧ snapshot.askLevels = sm.bestLevels ob false)
      ∧ snapshot.totalBidVolume = ((sm.bestLevels ob true).map SnapshotPriceLevel.totalVolume).sum
      ∧ snapshot.totalAskVolume =
        ((sm.bestLevels ob false).map SnapshotPriceLevel.totalVolume).sum := by
  have hbids := compare_side_eq_nil dec "bids" "bid" snapshot.bidLevels (sm.bestLevels ob true)
  have hasks := compare_side_eq_nil dec "asks" "ask" snapshot.askLevels (sm.bestLevels ob false)
  simp only [validateAgainstLiveBook, captureOrderbook_bidLevels, captureOrderbook_askLevels,
    captureOrderbook_totalBidVolume, captureOrderbook_totalAskVolume, List.append_eq_nil_iff,
    compareDecimal_eq_nil, ← hbids, ← hasks]
  tauto

end SnapshotManager

end TradingBackend
