import TradingBackend.RecoveryReport

/-!
# What the report of a recovery is worth

The report of `RecoveryReport` against the book it is about. The orders of a rebuilt
book are the loaded ones, and its levels are the distinct prices of a side, so the
volume past the hundredth level is that of the orders with a hundred better prices
before them (`volumeBeyond`). A sound book with more than that at the end is
reported as damaged, and a book whose best bid is its best ask as sound;
`recovery_validation_exact` says that the report is wrong in these two cases only.
-/

namespace TradingBackend

/-! ## The levels behind the first -/

/-- In a sorted list what comes after the first `n` has `n` elements before it. -/
theorem drop_eq_filter {α : Type} {R : α → α → Prop} [DecidableRel R]
    (hasymm : ∀ x y, R x y → ¬R y x) {l : List α} (h : l.Pairwise R) (n : ℕ) :
    l.drop n = l.filter fun x => n ≤ (l.filter fun y => R y x).length := by
  induction l generalizing n with
  | nil => simp
  | cons a l ih =>
      obtain ⟨ha, hl⟩ := List.pairwise_cons.mp h
      have hirrefl : ¬R a a := fun haa => hasymm a a haa haa
      have hfirst : ((a :: l).filter fun y => R y a) = [] := by
        refine List.filter_eq_nil_iff.mpr fun y hy hya => ?_
        rcases List.mem_cons.mp hy with rfl | hy
        · exact hirrefl (of_decide_eq_true hya)
        · exact hasymm a y (ha y hy) (of_decide_eq_true hya)
      cases n with
      | zero => simp
      | succ n =>
          have hrest : ∀ x ∈ l, decide (n + 1 ≤ ((a :: l).filter fun y => R y x).length) =
              decide (n ≤ (l.filter fun y => R y x).length) := by
            intro x hx
            have hcount : (a :: l).filter (fun y => R y x) = a :: l.filter fun y => R y x :=
              List.filter_cons_of_pos (p := fun y => decide (R y x)) (decide_eq_true (ha x hx))
            rw [hcount, List.length_cons]
            exact decide_eq_decide.mpr Nat.succ_le_succ_iff
          rw [List.drop_succ_cons, ih hl, List.filter_cons_of_neg (by simp [hfirst]),
            List.filter_congr hrest]

/-- How many prices of a side are better. -/
def pricesAhead (isBid : Bool) (orders : List Order) (price : Decimal) : ℕ :=
  ((orders.map Order.price).dedup.filter fun p => better isBid p price).length

/-- What the orders of a side have left that have `n` better prices before them. -/
def volumeBeyond (n : ℕ) (isBid : Bool) (orders : List Order) : Decimal :=
  ((orders.filter fun o => n ≤ pricesAhead isBid orders o.price).map
    Order.remainingQuantity).sum

theorem pricesAhead_perm {orders orders' : List Order} (h : orders.Perm orders') (b : Bool)
    (price : Decimal) : pricesAhead b orders price = pricesAhead b orders' price :=
  ((h.map Order.price).dedup.filter _).length_eq

theorem volumeBeyond_perm {orders orders' : List Order} (h : orders.Perm orders') (n : ℕ)
    (b : Bool) : volumeBeyond n b orders = volumeBeyond n b orders' := by
  simp only [volumeBeyond, pricesAhead_perm h]
  exact ((h.filter _).map _).sum_eq

theorem volumeBeyond_eq_zero {orders : List Order} {n : ℕ} {b : Bool}
    (h : (orders.map Order.price).dedup.length ≤ n) : volumeBeyond n b orders = 0 := by
  have hnone : ∀ o ∈ orders, ¬n ≤ pricesAhead b orders o.price := by
    intro o ho hle
    -- the price of the order itself is not better
    have hlt : pricesAhead b orders o.price < (orders.map Order.price).dedup.length := by
      refine List.length_filter_lt_length_iff_exists.mpr ⟨o.price, ?_, ?_⟩
      · exact List.mem_dedup.mpr (List.mem_map_of_mem ho)
      · simp [better_irrefl]
    exact absurd (hle.trans_lt hlt) (not_lt.mpr h)
  rw [volumeBeyond, List.filter_eq_nil_iff.mpr fun o ho => by simpa using hnone o ho]
  rfl

namespace LevelContents

/-- The volumes of levels picked by their price are those of the orders. -/
theorem sum_volume_filter {levels : List LevelContents} (h : ∀ level ∈ levels, level.Proper)
    (p : Decimal → Bool) :
    ((levels.filter fun level => p level.price).map volume).sum =
      (((levels.map orders).flatten.filter fun o => p o.price).map
        Order.remainingQuantity).sum := by
  induction levels with
  | nil => rfl
  | cons level levels ih =>
      obtain ⟨hlevel, hlevels⟩ := List.forall_mem_cons.mp h
      rw [List.map_cons, List.flatten_cons, List.filter_append, List.map_append, List.sum_append,
        ← ih hlevels, List.filter_cons]
      have hprice : ∀ o ∈ level.orders, p o.price = p level.price := fun o ho =>
        congrArg p (hlevel.price o ho)
      split_ifs with hp
      · rw [List.map_cons, List.sum_cons, hlevel.volume,
          List.filter_eq_self.mpr fun o ho => (hprice o ho).trans hp]
      · rw [List.filter_eq_nil_iff.mpr fun o ho hpo => hp ((hprice o ho).symm.trans hpo),
          List.map_nil, List.sum_nil, zero_add]

end LevelContents

namespace OrderBook

variable {T : Type} [OrderedTree T Decimal LevelRef] {ob : OrderBook T} {b : Bool}

theorem WF.prices_perm (h : ob.WF) (b : Bool) :
    ((ob.contents b).map LevelContents.price).Perm
      ((ob.restingOrders b).map Order.price).dedup := by
  have hnodup : ((ob.contents b).map LevelContents.price).Nodup :=
    List.pairwise_map.mpr (h.layout.prices_ne b)
  refine (List.perm_ext_iff_of_nodup hnodup (List.nodup_dedup _)).mpr fun p => ?_
  rw [List.mem_dedup, restingOrders_eq_flatten]
  constructor
  · intro hp
    obtain ⟨level, hlevel, rfl⟩ := List.mem_map.mp hp
    obtain ⟨o, ho⟩ := List.exists_mem_of_ne_nil _ (h.proper level hlevel).nonempty
    refine List.mem_map.mpr ⟨o, ?_, (h.proper level hlevel).price o ho⟩
    exact List.mem_flatten.mpr ⟨_, List.mem_map_of_mem hlevel, ho⟩
  · intro hp
    obtain ⟨o, ho, rfl⟩ := List.mem_map.mp hp
    obtain ⟨_, hmem, ho⟩ := List.mem_flatten.mp ho
    obtain ⟨level, hlevel, rfl⟩ := List.mem_map.mp hmem
    rw [(h.proper level hlevel).price o ho]
    exact List.mem_map_of_mem hlevel

theorem WF.sum_volume (h : ob.WF) (b : Bool) :
    ((ob.contents b).map LevelContents.volume).sum =
      ((ob.restingOrders b).map Order.remainingQuantity).sum := by
  have hproper : ∀ level ∈ ob.contents b, level.Proper := h.proper
  have hall := LevelContents.sum_volume_filter hproper fun _ => true
  simpa only [List.filter_true, ← restingOrders_eq_flatten] using hall

theorem WF.sum_volume_drop (h : ob.WF) (n : ℕ) (b : Bool) :
    (((ob.contents b).drop n).map LevelContents.volume).sum =
      volumeBeyond n b (ob.restingOrders b) := by
  have hahead : ∀ level ∈ ob.contents b,
      ((ob.contents b).filter fun x => better b x.price level.price).length =
        pricesAhead b (ob.restingOrders b) level.price := by
    intro level _
    rw [pricesAhead, ← ((h.prices_perm b).filter _).length_eq, List.filter_map, List.length_map]
    rfl
  have hdrop : (ob.contents b).drop n = (ob.contents b).filter fun level =>
      decide (n ≤ pricesAhead b (ob.restingOrders b) level.price) := by
    have hsorted := h.layout.contents_sorted b
    have hfilter := drop_eq_filter (fun _ _ => better_asymm) hsorted n
    rw [hfilter]
    refine List.filter_congr fun level hlevel => ?_
    rw [hahead level hlevel]
  have hproper : ∀ level ∈ ob.contents b, level.Proper := h.proper
  have hsum := LevelContents.sum_volume_filter hproper
    fun p => decide (n ≤ pricesAhead b (ob.restingOrders b) p)
  rw [← restingOrders_eq_flatten] at hsum
  rw [hdrop]
  exact hsum

theorem WF.sideVolume_orders (h : ob.WF) (b : Bool) :
    ob.sideVolume b = ((ob.restingOrders b).map Order.remainingQuantity).sum := by
  rw [h.sideVolume_eq, queued, restingOrders, ordersOf, List.map_map]
  rfl

def bestPrice (ob : OrderBook T) (isBid : Bool) : Option Decimal :=
  (ob.getBestPrice isBid).map fun l => (ob.levelAt l).price

theorem bestPrice_eq (ob : OrderBook T) (b : Bool) :
    ob.bestPrice b = (ob.contents b).head?.map LevelContents.price := by
  rw [bestPrice, getBestPrice_eq, contents, List.head?_map, Option.map_map]
  rfl

/-- The best price is a price of the side, and none is better. -/
theorem WF.bestPrice_spec (h : ob.WF) {p : Decimal} (hp : ob.bestPrice b = some p) :
    (∃ o ∈ ob.restingOrders b, o.price = p)
      ∧ ∀ o ∈ ob.restingOrders b, ¬better b o.price p := by
  rw [bestPrice_eq] at hp
  have hsorted := h.layout.contents_sorted b
  have hproper : ∀ level ∈ ob.contents b, level.Proper := h.proper
  rw [restingOrders_eq_flatten]
  cases hcontents : ob.contents b with
  | nil =>
      rw [hcontents] at hp
      cases hp
  | cons level levels =>
      rw [hcontents] at hp hsorted hproper
      obtain rfl : level.price = p := Option.some.inj hp
      obtain ⟨hlevel, hlevels⟩ := List.forall_mem_cons.mp hproper
      have hbefore := (List.pairwise_cons.mp hsorted).1
      rw [List.map_cons, List.flatten_cons]
      refine ⟨?_, List.forall_mem_append.mpr ⟨fun o ho => ?_, fun o ho => ?_⟩⟩
      · obtain ⟨o, ho⟩ := List.exists_mem_of_ne_nil _ hlevel.nonempty
        exact ⟨o, List.mem_append_left _ ho, hlevel.price o ho⟩
      · rw [hlevel.price o ho]
        exact better_irrefl b _
      · obtain ⟨_, hmem, ho⟩ := List.mem_flatten.mp ho
        obtain ⟨level', hlevel', rfl⟩ := List.mem_map.mp hmem
        rw [(hlevels level' hlevel').price o ho]
        exact better_asymm (hbefore level' hlevel')

theorem WF.bestPrice_of_mem (h : ob.WF) {o : Order} (ho : o ∈ ob.restingOrders b) :
    ∃ p, ob.bestPrice b = some p := by
  cases hp : ob.bestPrice b with
  | some p => exact ⟨p, rfl⟩
  | none =>
      rw [bestPrice, Option.map_eq_none_iff, h.layout.getBestPrice_none] at hp
      rw [restingOrders, hp] at ho
      cases ho

theorem WF.forall_best_iff (h : ob.WF) {R : Decimal → Decimal → Prop}
    (hR : ∀ p p' q q', p' ≤ p → q ≤ q' → R p q → R p' q') :
    (∀ bid ask, ob.bestPrice true = some bid → ob.bestPrice false = some ask → R bid ask) ↔
      ∀ x ∈ ob.restingOrders true, ∀ y ∈ ob.restingOrders false, R x.price y.price := by
  constructor
  · intro hbest x hx y hy
    obtain ⟨bid, hbid⟩ := h.bestPrice_of_mem hx
    obtain ⟨ask, hask⟩ := h.bestPrice_of_mem hy
    exact hR bid _ ask _ (not_lt.mp ((h.bestPrice_spec hbid).2 x hx))
      (not_lt.mp ((h.bestPrice_spec hask).2 y hy)) (hbest bid ask hbid hask)
  · intro hall bid ask hbid hask
    obtain ⟨x, hx, rfl⟩ := (h.bestPrice_spec hbid).1
    obtain ⟨y, hy, rfl⟩ := (h.bestPrice_spec hask).1
    exact hall x hx y hy

end OrderBook

/-! ## The loaded orders -/

def sideOrders (isBid : Bool) (orders : List Order) : List Order :=
  orders.filter fun o => o.side.isBid = isBid

def Compares (R : Decimal → Decimal → Prop) (orders : List Order) : Prop :=
  ∀ x ∈ sideOrders true orders, ∀ y ∈ sideOrders false orders, R x.price y.price

instance (R : Decimal → Decimal → Prop) [DecidableRel R] (orders : List Order) :
    Decidable (Compares R orders) :=
  inferInstanceAs (Decidable (∀ x ∈ sideOrders true orders, ∀ y ∈ sideOrders false orders,
    R x.price y.price))

/-- The best bid is the best ask. -/
def Locked (orders : List Order) : Prop :=
  Compares (· ≤ ·) orders ∧ ¬Compares (· < ·) orders

namespace OrderBook

variable {T : Type} [OrderedTree T Decimal LevelRef] {ob : OrderBook T} {b : Bool}

theorem insertOrders_side_perm (h : ob.Layout) (orders : List Order) (b : Bool) :
    ((ob.insertOrders orders).restingOrders b).Perm
      (sideOrders b orders ++ ob.restingOrders b) := by
  induction orders generalizing ob with
  | nil => exact List.Perm.refl _
  | cons o orders ih =>
      refine (ih (insertOrder_layout h o)).trans ?_
      rw [insertOrder_restingOrders h, sideOrders, sideOrders, List.filter_cons]
      simp only [decide_eq_true_eq]
      split_ifs
      · exact ((List.perm_orderedInsert _ _ _).append_left _).trans List.perm_middle
      · exact List.Perm.refl _

end OrderBook

/-! ## The book and its report -/

def DatabaseTotals.volume (totals : DatabaseTotals) (isBid : Bool) : Decimal :=
  if isBid then totals.totalBidVolume else totals.totalAskVolume

/-- What a report should be about: the volumes of all levels are those of the database
up to the tolerance and not negative, and the best bid is below the best ask. -/
def OrderBook.Agrees {T : Type} [OrderedTree T Decimal LevelRef] (book : OrderBook T)
    (totals : DatabaseTotals) : Prop :=
  (∀ b, |book.sideVolume b - totals.volume b| ≤ RecoveryManager.tolerance
      ∧ 0 ≤ book.sideVolume b)
    ∧ ∀ bid ask, book.getBestBid = some bid → book.getBestAsk = some ask →
      (book.levelAt bid).price < (book.levelAt ask).price

/-- A book that holds these orders and no others. -/
structure Rebuilt {T : Type} [OrderedTree T Decimal LevelRef] (book : OrderBook T)
    (orders : List Order) : Prop where
  wf : book.WF
  perm : ∀ b, (book.restingOrders b).Perm (sideOrders b orders)

def sideRemaining (isBid : Bool) (orders : List Order) : Decimal :=
  ((sideOrders isBid orders).map Order.remainingQuantity).sum

namespace Rebuilt

variable {T : Type} [OrderedTree T Decimal LevelRef] {book : OrderBook T} {orders : List Order}

theorem sideVolume_eq (h : Rebuilt book orders) (b : Bool) :
    book.sideVolume b = sideRemaining b orders := by
  rw [h.wf.sideVolume_orders, sideRemaining]
  exact ((h.perm b).map _).sum_eq

/-- The volume that is captured lacks what is beyond the hundredth level. -/
theorem addVolumes_eq (h : Rebuilt book orders) (b : Bool) :
    RecoveryManager.addVolumes book 0 ((book.levels b).take 100) =
      sideRemaining b orders - volumeBeyond 100 b (sideOrders b orders) := by
  have htake : RecoveryManager.addVolumes book 0 ((book.levels b).take 100) =
      (((book.contents b).take 100).map LevelContents.volume).sum := by
    rw [RecoveryManager.addVolumes, OrderBook.foldl_add_eq (fun l => (book.levelAt l).volume),
      zero_add, OrderBook.contents, ← List.map_take, List.map_map]
    rfl
  have hsplit : (((book.contents b).take 100).map LevelContents.volume).sum
      + (((book.contents b).drop 100).map LevelContents.volume).sum =
        ((book.contents b).map LevelContents.volume).sum := by
    rw [← List.sum_append, ← List.map_append, List.take_append_drop]
  rw [h.wf.sum_volume_drop, h.wf.sum_volume, volumeBeyond_perm (h.perm b),
    ((h.perm b).map _).sum_eq] at hsplit
  rw [htake, sideRemaining, ← hsplit, add_sub_cancel_right]

theorem compares_iff (h : Rebuilt book orders) {R : Decimal → Decimal → Prop}
    (hR : ∀ p p' q q', p' ≤ p → q ≤ q' → R p q → R p' q') :
    (∀ bid ask, book.bestPrice true = some bid → book.bestPrice false = some ask → R bid ask) ↔
      Compares R orders := by
  rw [h.wf.forall_best_iff hR]
  simp only [Compares, (h.perm _).mem_iff]

theorem agrees_iff (h : Rebuilt book orders) (totals : DatabaseTotals) :
    book.Agrees totals ↔
      (∀ b, |sideRemaining b orders - totals.volume b| ≤ RecoveryManager.tolerance
        ∧ 0 ≤ sideRemaining b orders) ∧ Compares (· < ·) orders := by
  rw [OrderBook.Agrees, ← h.compares_iff fun p p' q q' hp hq hlt => (hp.trans_lt hlt).trans_le hq]
  simp only [h.sideVolume_eq]
  refine and_congr_right fun _ => ?_
  simp only [OrderBook.bestPrice, Option.map_eq_some_iff]
  constructor
  · rintro hbest bid ask ⟨l, hl, rfl⟩ ⟨l', hl', rfl⟩
    exact hbest l l' hl hl'
  · exact fun hbest l l' hl hl' => hbest _ _ ⟨l, hl, rfl⟩ ⟨l', hl', rfl⟩

theorem levels_eq_nil (h : Rebuilt book orders) (hnil : orders = []) (b : Bool) :
    book.levels b = [] := by
  subst hnil
  have hcontents : book.contents b = [] := by
    rw [h.wf.contents_eq, (h.perm b).eq_nil]
    rfl
  exact List.map_eq_nil_iff.mp hcontents

theorem passed_iff (h : Rebuilt book orders) (fmt : ReportText) (totals : DatabaseTotals)
    (verbose : Bool) :
    (RecoveryManager.validateRecoveryWithDiffs fmt
      (RecoveryManager.capturePostRecoveryState book { ordersRestored := orders.length })
      (.ok totals) verbose).validationPassed = true ↔
      (∀ b, |sideRemaining b orders - volumeBeyond 100 b (sideOrders b orders) - totals.volume b|
          ≤ RecoveryManager.tolerance
        ∧ 0 ≤ sideRemaining b orders - volumeBeyond 100 b (sideOrders b orders))
      ∧ Compares (· ≤ ·) orders := by
  have hspread : (∀ spread, ((book.bestPrice false).bind fun ask =>
        (book.bestPrice true).map fun bid => ask - bid) = some spread → 0 ≤ spread) ↔
      Compares (· ≤ ·) orders := by
    rw [← h.compares_iff fun p p' q q' hp hq hle => (hp.trans hle).trans hq]
    simp only [Option.bind_eq_some_iff, Option.map_eq_some_iff]
    constructor
    · exact fun hall bid ask hbid hask => sub_nonneg.mp (hall _ ⟨ask, hask, bid, hbid, rfl⟩)
    · rintro hall _ ⟨ask, hask, bid, hbid, rfl⟩
      exact sub_nonneg.mpr (hall bid ask hbid hask)
  have hlevels : ¬(orders.length = 0 ∧ (0 < ((book.levels true).take 100).length
      ∨ 0 < ((book.levels false).take 100).length)) := by
    rintro ⟨hzero, hpos⟩
    have hnil := h.levels_eq_nil (List.length_eq_zero_iff.mp hzero)
    rw [hnil, hnil] at hpos
    exact hpos.elim (Nat.lt_irrefl 0) (Nat.lt_irrefl 0)
  rw [RecoveryManager.validateRecoveryWithDiffs_passed]
  simp only [RecoveryManager.capturePostRecoveryState, SnapshotManager.getTopLevels_eq,
    RecoveryManager.MatchesTotals, h.addVolumes_eq, Bool.forall_bool, DatabaseTotals.volume,
    if_true, Bool.false_eq_true, if_false]
  rw [and_iff_right hlevels]
  refine Iff.trans ?_ (and_congr_right fun _ => hspread)
  constructor
  · rintro ⟨hbid, hask, hs, hbid', hask'⟩
    exact ⟨⟨⟨hask', hask⟩, hbid', hbid⟩, hs⟩
  · rintro ⟨⟨⟨hask', hask⟩, hbid', hbid⟩, hs⟩
    exact ⟨hbid, hask, hs, hbid', hask'⟩

end Rebuilt

/-! ## The totals of the database -/

namespace SnapshotRow

/-- `decimal.NewFromString` accepts the columns. -/
def Parseable (row : SnapshotRow) : Prop :=
  row.price.isSome ∧ row.quantity.isSome ∧ row.filledQuantity.isSome

instance (row : SnapshotRow) : Decidable row.Parseable := inferInstanceAs (Decidable (_ ∧ _))

/-- The `CHECK` constraints of `orders_snapshot`, for numbers that are not `NaN`. -/
structure Checked (row : SnapshotRow) : Prop where
  side : row.side = .buy ∨ row.side = .sell
  filled_nonneg : ∀ filled ∈ row.filledQuantity, 0 ≤ filled
  filled_le : ∀ filled ∈ row.filledQuantity, ∀ quantity ∈ row.quantity, filled ≤ quantity
  quantity_pos : ∀ quantity ∈ row.quantity, 0 < quantity
  price_nonneg : ∀ price ∈ row.price, 0 ≤ price

end SnapshotRow

namespace RecoveryManager

variable {rm : RecoveryManager} {row : SnapshotRow} {rows table : List SnapshotRow}

theorem scanRow_of_parseable (hselect : rm.selects row = true) (hparse : row.Parseable) :
    ∃ o, scanRow row = some o ∧ row.quantity = some o.quantity
      ∧ row.filledQuantity = some o.filledQuantity
      ∧ o.side = if row.side = .buy then .buy else .sell := by
  obtain ⟨hprice, hquantity, hfilled⟩ := hparse
  obtain ⟨price, hprice⟩ := Option.isSome_iff_exists.mp hprice
  obtain ⟨quantity, hquantity⟩ := Option.isSome_iff_exists.mp hquantity
  obtain ⟨filled, hfilled⟩ := Option.isSome_iff_exists.mp hfilled
  have hstatus : ∃ status, scanStatus row.status = some status := by
    rcases (of_decide_eq_true hselect).2 with h | h
    · exact ⟨.opened, by rw [h]; rfl⟩
    · exact ⟨.partiallyFilled, by rw [h]; rfl⟩
  obtain ⟨status, hstatus⟩ := hstatus
  simp only [scanRow, hprice, hquantity, hfilled, hstatus, Option.bind_eq_bind, Option.bind_some]
  exact ⟨_, rfl, rfl, rfl, rfl⟩

theorem sideRemaining_cons (b : Bool) (o : Order) (orders : List Order) :
    sideRemaining b (o :: orders) =
      (if o.side.isBid = b then o.remainingQuantity else 0) + sideRemaining b orders := by
  unfold sideRemaining sideOrders
  split_ifs with h <;> simp [h]

/-- The sum of the query, from any sum on, is what the loaded orders have left. -/
theorem foldl_remaining {side : OrderSide} {b : Bool}
    (hselect : ∀ row ∈ rows, rm.selects row = true) (hparse : ∀ row ∈ rows, row.Parseable)
    (hside : ∀ row ∈ rows, (if row.side = .buy then OrderSide.buy else .sell).isBid = b ↔
      row.side = side) (sum : Decimal) :
    rows.foldl
      (fun sum row => sum.bind fun sum =>
        (if row.side = side then rowRemaining row else some 0).map (sum + ·)) (some sum) =
      some (sum + sideRemaining b (loadOpenOrders rows)) := by
  induction rows generalizing sum with
  | nil => exact congrArg some (add_zero sum).symm
  | cons row rows ih =>
      obtain ⟨hselect, hselects⟩ := List.forall_mem_cons.mp hselect
      obtain ⟨hparse, hparses⟩ := List.forall_mem_cons.mp hparse
      obtain ⟨hside, hsides⟩ := List.forall_mem_cons.mp hside
      obtain ⟨o, ho, hquantity, hfilled, hoside⟩ := scanRow_of_parseable hselect hparse
      have hremaining : rowRemaining row = some o.remainingQuantity := by
        rw [rowRemaining, hquantity, hfilled]
        rfl
      rw [List.foldl_cons, loadOpenOrders, List.filterMap_cons_some ho, sideRemaining_cons, hoside,
        ← add_assoc]
      simp only [hside, Option.bind_some, hremaining]
      split_ifs
      · exact ih hselects hparses hsides _
      · exact ih hselects hparses hsides _

/-- In a checked table the totals are what the loaded orders have left. -/
theorem getDatabaseTotals_volume (hrows : rm.Selected table rows)
    (hparse : ∀ row ∈ table, rm.selects row = true → row.Parseable)
    (hchecked : ∀ row ∈ table, row.Checked) {totals : DatabaseTotals}
    (h : rm.getDatabaseTotals (.ok table) = .ok totals) (b : Bool) :
    totals.volume b = sideRemaining b (loadOpenOrders rows) := by
  have hselect : ∀ row ∈ table.filter rm.selects, rm.selects row = true := fun row hrow =>
    (List.mem_filter.mp hrow).2
  have hparse' : ∀ row ∈ table.filter rm.selects, row.Parseable := fun row hrow =>
    hparse row (List.mem_filter.mp hrow).1 (List.mem_filter.mp hrow).2
  have hside : ∀ row ∈ table.filter rm.selects,
      (if row.side = .buy then OrderSide.buy else .sell).isBid = b ↔
        row.side = if b then .buy else .sell := by
    intro row hrow
    rcases (hchecked row (List.mem_filter.mp hrow).1).side with hside | hside <;> cases b <;>
      simp [hside, OrderSide.isBid]
  have hsum : sumRemaining (if b then .buy else .sell) (table.filter rm.selects) =
      some (0 + sideRemaining b (loadOpenOrders (table.filter rm.selects))) :=
    foldl_remaining hselect hparse' hside 0
  have hperm : (loadOpenOrders (table.filter rm.selects)).Perm (loadOpenOrders rows) :=
    (hrows.1.filterMap _).symm
  have hremaining : sideRemaining b (loadOpenOrders (table.filter rm.selects)) =
      sideRemaining b (loadOpenOrders rows) := ((hperm.filter _).map _).sum_eq
  rw [zero_add, hremaining] at hsum
  obtain rfl := Except.ok.inj h
  cases b with
  | true => exact congrArg (Option.getD · 0) hsum
  | false => exact congrArg (Option.getD · 0) hsum

/-- In a checked table no loaded order has less than nothing left. -/
theorem loadOpenOrders_nonneg (hrows : rm.Selected table rows)
    (hchecked : ∀ row ∈ table, row.Checked) :
    ∀ o ∈ loadOpenOrders rows, 0 ≤ o.remainingQuantity := by
  intro o ho
  obtain ⟨row, hrow, hscan⟩ := List.mem_filterMap.mp ho
  have hmem : row ∈ table := (List.mem_filter.mp (hrows.1.subset hrow)).1
  simp only [scanRow, Option.bind_eq_bind, Option.bind_eq_some_iff, Option.some.injEq] at hscan
  obtain ⟨price, -, quantity, hquantity, filled, hfilled, status, -, rfl⟩ := hscan
  exact sub_nonneg.mpr ((hchecked row hmem).filled_le filled hfilled quantity hquantity)

theorem recover_rebuilt {T : Type} [OrderedTree T Decimal LevelRef] {ob book : OrderBook T}
    (hw : ob.WF) (hempty : ∀ b, ob.restingOrders b = [])
    (hkey : (table.map SnapshotRow.orderID).Nodup) (hrows : rm.Selected table rows)
    {dryRun : Bool} (h : (rm.recoverOrderbookWithOptions (.ok rows) ob dryRun).2 = .ok book) :
    Rebuilt book (loadOpenOrders rows) := by
  have hinsert : ∀ ob : OrderBook T, ob.WF → (∀ b, ob.restingOrders b = []) →
      Rebuilt (ob.insertOrders (loadOpenOrders rows)) (loadOpenOrders rows) := by
    intro ob hw hempty
    refine ⟨OrderBook.insertOrders_wf hw (hrows.ids_nodup hkey) fun o _ hmem => ?_, fun b => ?_⟩
    · obtain ⟨b, x, hx, -⟩ := hw.mem_orders_iff.mp hmem
      rw [hempty] at hx
      cases hx
    · have hperm := OrderBook.insertOrders_side_perm hw.layout (loadOpenOrders rows) b
      rwa [hempty, List.append_nil] at hperm
  cases dryRun with
  | true =>
      obtain rfl := Except.ok.inj h
      refine hinsert _ (OrderBook.newOrderBook_wf _) fun b => ?_
      rw [OrderBook.restingOrders, OrderBook.newOrderBook_elements]
      rfl
  | false =>
      obtain rfl := Except.ok.inj h
      exact hinsert ob hw hempty

end RecoveryManager

/-! ## When the report is right -/

theorem volumeBeyond_nonneg {n : ℕ} {b : Bool} {orders : List Order}
    (h : ∀ o ∈ orders, 0 ≤ o.remainingQuantity) : 0 ≤ volumeBeyond n b orders :=
  List.sum_nonneg (List.forall_mem_map.mpr fun o ho => h o (List.mem_of_mem_filter ho))

theorem volumeBeyond_le {n : ℕ} {b : Bool} {orders : List Order}
    (h : ∀ o ∈ orders, 0 ≤ o.remainingQuantity) :
    volumeBeyond n b orders ≤ (orders.map Order.remainingQuantity).sum :=
  (List.filter_sublist.map _).sum_le_sum (List.forall_mem_map.mpr h)

/-- Of the three ways in which bids and asks can meet it is one. -/
theorem compares_cases (orders : List Order) :
    Compares (· < ·) orders ∧ Compares (· ≤ ·) orders ∧ ¬Locked orders
      ∨ ¬Compares (· < ·) orders ∧ Compares (· ≤ ·) orders ∧ Locked orders
      ∨ ¬Compares (· < ·) orders ∧ ¬Compares (· ≤ ·) orders ∧ ¬Locked orders := by
  have hle : Compares (· < ·) orders → Compares (· ≤ ·) orders := fun h x hx y hy =>
    (h x hx y hy).le
  by_cases h : Compares (· < ·) orders
  · exact Or.inl ⟨h, hle h, fun hlocked => hlocked.2 h⟩
  · by_cases h' : Compares (· ≤ ·) orders
    · exact Or.inr (Or.inl ⟨h, h', h', h⟩)
    · exact Or.inr (Or.inr ⟨h, h', fun hlocked => h' hlocked.1⟩)

/-- In a book of at most a hundred levels a side that is not locked, the report is
right. -/
theorem Rebuilt.passed_iff_agrees {T : Type} [OrderedTree T Decimal LevelRef] {book : OrderBook T}
    {orders : List Order} (h : Rebuilt book orders) (fmt : ReportText) (totals : DatabaseTotals)
    (verbose : Bool) (hlevels : ∀ b, ((sideOrders b orders).map Order.price).dedup.length ≤ 100)
    (hlocked : ¬Locked orders) :
    (RecoveryManager.validateRecoveryWithDiffs fmt
      (RecoveryManager.capturePostRecoveryState book { ordersRestored := orders.length })
      (.ok totals) verbose).validationPassed = true ↔ book.Agrees totals := by
  rw [h.passed_iff, h.agrees_iff]
  simp only [volumeBeyond_eq_zero (hlevels _), sub_zero]
  refine and_congr_right fun _ => ?_
  obtain ⟨hlt, hle, -⟩ | ⟨-, -, hlocked'⟩ | ⟨hlt, hle, -⟩ := compares_cases orders
  · exact iff_of_true hle hlt
  · exact absurd hlocked' hlocked
  · exact iff_of_false hle hlt

/-- Where the totals are right and nothing is negative, the report is wrong only about
volumes beyond the hundredth level and about locked books. -/
theorem Rebuilt.exact_iff {T : Type} [OrderedTree T Decimal LevelRef] {book : OrderBook T}
    {orders : List Order} (h : Rebuilt book orders) (fmt : ReportText) {totals : DatabaseTotals}
    (verbose : Bool) (htotals : ∀ b, totals.volume b = sideRemaining b orders)
    (hnonneg : ∀ o ∈ orders, 0 ≤ o.remainingQuantity) :
    ((RecoveryManager.validateRecoveryWithDiffs fmt
      (RecoveryManager.capturePostRecoveryState book { ordersRestored := orders.length })
      (.ok totals) verbose).validationPassed = true ↔ book.Agrees totals) ↔
      (Compares (· < ·) orders →
        ∀ b, volumeBeyond 100 b (sideOrders b orders) ≤ RecoveryManager.tolerance)
      ∧ (Locked orders →
        ∃ b, RecoveryManager.tolerance < volumeBeyond 100 b (sideOrders b orders)) := by
  have hside : ∀ b, ∀ o ∈ sideOrders b orders, 0 ≤ o.remainingQuantity := fun b o ho =>
    hnonneg o (List.mem_of_mem_filter ho)
  have hremaining : ∀ b, 0 ≤ sideRemaining b orders := fun b =>
    List.sum_nonneg (List.forall_mem_map.mpr (hside b))
  have htol : (0 : Decimal) ≤ RecoveryManager.tolerance := by
    unfold RecoveryManager.tolerance
    norm_num
  have hagrees : book.Agrees totals ↔ Compares (· < ·) orders := by
    rw [h.agrees_iff, and_iff_right]
    intro b
    rw [htotals, sub_self, abs_zero]
    exact ⟨htol, hremaining b⟩
  have hpassed : (RecoveryManager.validateRecoveryWithDiffs fmt
      (RecoveryManager.capturePostRecoveryState book { ordersRestored := orders.length })
      (.ok totals) verbose).validationPassed = true ↔
      (∀ b, volumeBeyond 100 b (sideOrders b orders) ≤ RecoveryManager.tolerance)
        ∧ Compares (· ≤ ·) orders := by
    rw [h.passed_iff]
    refine and_congr_left fun _ => forall_congr' fun b => ?_
    rw [htotals, sub_sub_cancel_left, abs_neg, abs_of_nonneg (volumeBeyond_nonneg (hside b))]
    exact and_iff_left (sub_nonneg.mpr (volumeBeyond_le (hside b)))
  rw [hpassed, hagrees]
  have hbeyond : (∃ b, RecoveryManager.tolerance < volumeBeyond 100 b (sideOrders b orders)) ↔
      ¬∀ b, volumeBeyond 100 b (sideOrders b orders) ≤ RecoveryManager.tolerance := by
    simp only [not_forall, not_le]
  rw [hbeyond]
  obtain ⟨hlt, hle, hlocked⟩ | ⟨hlt, hle, hlocked⟩ | ⟨hlt, hle, hlocked⟩ := compares_cases orders
  · simp only [hlt, hle, hlocked, and_true, iff_true, true_implies, false_implies]
  · simp only [hlt, hle, hlocked, and_true, iff_false, true_implies, false_implies, true_and]
  · simp only [hlt, hle, hlocked, and_false, false_implies, and_true]

variable {T : Type} [OrderedTree T Decimal LevelRef]

/-- The report of a recovery into an empty book. With at most a hundred prices a side,
and unless the best bid is the best ask, it passes exactly if all levels together have
the volumes of the database, none is negative and the bids are below the asks. In a
table that meets its constraints this is so exactly if a sound book has nothing beyond
its hundredth levels, up to the tolerance, and a locked book has. -/
theorem recovery_validation_exact (fmt : ReportText) (rm : RecoveryManager) {ob : OrderBook T}
    (hw : ob.WF) (hempty : ∀ b, ob.restingOrders b = []) {table rows : List SnapshotRow}
    (hkey : (table.map SnapshotRow.orderID).Nodup) (hrows : rm.Selected table rows)
    (hparse : ∀ row ∈ table, rm.selects row = true → row.Parseable) (dryRun verbose : Bool) :
    let orders := RecoveryManager.loadOpenOrders rows
    ∃ book report totals,
      rm.recoverWithReport fmt (.ok rows) (.ok table) ob dryRun verbose = .ok (book, report)
      ∧ rm.getDatabaseTotals (.ok table) = .ok totals
      ∧ ((∀ b, ((sideOrders b orders).map Order.price).dedup.length ≤ 100) → ¬Locked orders →
        (report.validationPassed = true ↔ book.Agrees totals))
      ∧ ((∀ row ∈ table, row.Checked) →
        ((report.validationPassed = true ↔ book.Agrees totals) ↔
          (Compares (· < ·) orders →
            ∀ b, volumeBeyond 100 b (sideOrders b orders) ≤ RecoveryManager.tolerance)
          ∧ (Locked orders →
            ∃ b, RecoveryManager.tolerance < volumeBeyond 100 b (sideOrders b orders)))) := by
  intro orders
  obtain ⟨book, hbook⟩ : ∃ book,
      (rm.recoverOrderbookWithOptions (.ok rows) ob dryRun).2 = .ok book := by
    cases dryRun <;> exact ⟨_, rfl⟩
  have hrebuilt := RecoveryManager.recover_rebuilt hw hempty hkey hrows hbook
  refine ⟨book, _, _, ?_, rfl, hrebuilt.passed_iff_agrees fmt _ verbose, fun hchecked =>
    hrebuilt.exact_iff fmt verbose (RecoveryManager.getDatabaseTotals_volume hrows hparse hchecked
      rfl) (RecoveryManager.loadOpenOrders_nonneg hrows hchecked)⟩
  rw [RecoveryManager.recoverWithReport, hbook]
  rfl

def openRow (id : UUID) (side : OrderSide) (price : Decimal) : SnapshotRow :=
  ⟨id, "BTC-USD", side, some price, some 5, some 0, .opened, 0⟩

def reportFractions : ReportText :=
  { DecimalText.fractions with twoDecimals := DecimalText.fractions.string }

def newBookReport (table : List SnapshotRow) :
    Except String (OrderBook (SortedItems Decimal LevelRef) × RecoveryReport) :=
  RecoveryManager.recoverWithReport reportFractions ⟨"BTC-USD"⟩ (.ok table) (.ok table)
    (newOrderBook "BTC-USD") false false

/-- A bid at 99 and an ask at 101. -/
theorem recovery_validation_exact_two_orders :
    ∃ book report totals,
      newBookReport [openRow 1 .buy 99, openRow 2 .sell 101] = .ok (book, report)
      ∧ RecoveryManager.getDatabaseTotals ⟨"BTC-USD"⟩
        (.ok [openRow 1 .buy 99, openRow 2 .sell 101]) = .ok totals
      ∧ (report.validationPassed = true ↔ book.Agrees totals) := by
  have hempty : ∀ b, (newOrderBook "BTC-USD" :
      OrderBook (SortedItems Decimal LevelRef)).restingOrders b = [] := by
    decide
  have hrows : RecoveryManager.Selected ⟨"BTC-USD"⟩ [openRow 1 .buy 99, openRow 2 .sell 101]
      [openRow 1 .buy 99, openRow 2 .sell 101] := by
    decide
  obtain ⟨book, report, totals, hreport, htotals, hexact, -⟩ :=
    recovery_validation_exact reportFractions ⟨"BTC-USD"⟩ (OrderBook.newOrderBook_wf _) hempty
      (by decide) hrows (by decide) false false
  have hlevels : ∀ b, ((sideOrders b (RecoveryManager.loadOpenOrders
      [openRow 1 .buy 99, openRow 2 .sell 101])).map Order.price).dedup.length ≤ 100 := by
    decide +kernel
  have hbelow : Compares (· < ·) (RecoveryManager.loadOpenOrders
      [openRow 1 .buy 99, openRow 2 .sell 101]) := by
    decide +kernel
  exact ⟨book, report, totals, hreport, htotals, hexact hlevels fun h => h.2 hbelow⟩

/-- The report of these rows is about a book of their orders. -/
theorem newBookReport_rebuilt (table : List SnapshotRow)
    (hkey : (table.map SnapshotRow.orderID).Nodup)
    (hrows : RecoveryManager.Selected ⟨"BTC-USD"⟩ table table) :
    ∃ book report, newBookReport table = .ok (book, report)
      ∧ Rebuilt book (RecoveryManager.loadOpenOrders table) := by
  have hbook : (RecoveryManager.recoverOrderbookWithOptions ⟨"BTC-USD"⟩ (.ok table)
      (newOrderBook "BTC-USD" : OrderBook (SortedItems Decimal LevelRef)) false).2 = .ok _ :=
    rfl
  exact ⟨_, _, rfl, RecoveryManager.recover_rebuilt (OrderBook.newOrderBook_wf _) (by decide)
    hkey hrows hbook⟩

/-- Asks at 1000, 999 and so on, one at each price. -/
def askRows (n : ℕ) : List SnapshotRow :=
  (List.range n).map fun i : ℕ => openRow (BitVec.ofNat 128 i) .sell (1000 - i)

/-- A bid and an ask at 100 pass, although the best bid is not below the best ask. A
hundred and one asks fail, although the book has all of their volume. -/
theorem report_wrong_of_locked_or_deep :
    (∃ book report totals,
      newBookReport [openRow 1 .buy 100, openRow 2 .sell 100] = .ok (book, report)
      ∧ RecoveryManager.getDatabaseTotals ⟨"BTC-USD"⟩
        (.ok [openRow 1 .buy 100, openRow 2 .sell 100]) = .ok totals
      ∧ report.validationPassed = true ∧ ¬book.Agrees totals)
    ∧ ∃ book report totals,
      newBookReport (askRows 101) = .ok (book, report)
      ∧ RecoveryManager.getDatabaseTotals ⟨"BTC-USD"⟩ (.ok (askRows 101)) = .ok totals
      ∧ report.validationPassed = false ∧ book.Agrees totals := by
  constructor
  · obtain ⟨book, report, hreport, hrebuilt⟩ :=
      newBookReport_rebuilt [openRow 1 .buy 100, openRow 2 .sell 100] (by decide) (by decide)
    have hpassed : (newBookReport [openRow 1 .buy 100, openRow 2 .sell 100]).map
        (fun r => r.2.validationPassed) = .ok true := by
      decide +kernel
    rw [hreport] at hpassed
    refine ⟨book, report, _, hreport, rfl, Except.ok.inj hpassed, fun hagrees => ?_⟩
    have hbelow := ((hrebuilt.agrees_iff _).mp hagrees).2
    revert hbelow
    decide +kernel
  · have hkeys : ((askRows 101).map SnapshotRow.orderID).map BitVec.toNat = List.range 101 := by
      decide +kernel
    have hselected : askRows 101 = (askRows 101).filter (RecoveryManager.selects ⟨"BTC-USD"⟩) := by
      decide +kernel
    have hsorted : (askRows 101).Pairwise fun x y => x.createdAt ≤ y.createdAt :=
      List.pairwise_map.mpr (List.pairwise_of_forall fun _ _ => le_rfl)
    obtain ⟨book, report, hreport, hrebuilt⟩ := newBookReport_rebuilt (askRows 101)
      (.of_map BitVec.toNat (hkeys ▸ List.nodup_range)) ⟨.of_eq hselected, hsorted⟩
    have hfailed : (newBookReport (askRows 101)).map (fun r => r.2.validationPassed) =
        .ok false := by
      decide +kernel
    rw [hreport] at hfailed
    refine ⟨book, report, _, hreport, rfl, Except.ok.inj hfailed, (hrebuilt.agrees_iff _).mpr ?_⟩
    decide +kernel

end TradingBackend
