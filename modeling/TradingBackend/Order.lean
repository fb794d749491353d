import Mathlib.Data.Rat.Defs
import Mathlib.Algebra.Order.Ring.Rat

/-!
# Orders

`models/order.go`. Decimals are arbitrary precision and the operations
used on them (`Add`, `Sub`, `Cmp`, `Min`) are exact, so a decimal is
taken as its numerical value. The string types of the source - side,
type, status - keep a case for the strings outside their constants: an
order carrying one can be built and is what `IsValid` guards against.

`UpdatedAt` is written and never read, and is left out.
-/

namespace TradingBackend

/-- `decimal.Decimal`, by value. -/
abbrev Decimal := ℚ

/-- `uuid.UUID`. Its canonical string, the key of the book's order map,
is as good as the value itself. -/
abbrev UUID := BitVec 128

/-- `time.Time`, in nanoseconds since the epoch. -/
abbrev Time := Int

inductive OrderSide where
  | buy
  | sell
  | unknown
deriving DecidableEq, Repr

inductive OrderType where
  | limit
  | market
  | unknown
deriving DecidableEq, Repr

/-- `models.OrderStatus`; `unset` is the empty string, `opened` the
constant `OrderStatusOpen`. -/
inductive OrderStatus where
  | unset
  | opened
  | partiallyFilled
  | filled
  | cancelled
  | rejected
  | unknown
deriving DecidableEq, Repr

structure Order where
  id : UUID
  clientID : String
  instrument : String
  side : OrderSide
  type : OrderType
  price : Decimal
  quantity : Decimal
  filledQuantity : Decimal
  status : OrderStatus
  createdAt : Time
deriving DecidableEq, Repr

namespace Order

/-- `Order.IsValid`, in the order of its checks. -/
def isValid (o : Order) : Bool :=
  if o.clientID = "" ∨ o.instrument = "" then false
  else if o.side ≠ .buy ∧ o.side ≠ .sell then false
  else if o.type ≠ .limit ∧ o.type ≠ .market then false
  else if o.quantity ≤ 0 then false
  else if o.type = .limit ∧ o.price ≤ 0 then false
  else if o.filledQuantity > o.quantity then false
  else true

def remainingQuantity (o : Order) : Decimal := o.quantity - o.filledQuantity

def isFilled (o : Order) : Bool := decide (o.filledQuantity = o.quantity)

def isPartiallyFilled (o : Order) : Bool :=
  decide (0 < o.filledQuantity ∧ o.filledQuantity < o.quantity)

def canBeFilled (o : Order) : Bool :=
  decide (o.status = .opened ∨ o.status = .partiallyFilled)

/-- The status after `FilledQuantity` was written: the branches that end
`Order.Fill` and `OrderBook.UpdateOrder`. -/
def nextStatus (o : Order) : OrderStatus :=
  if o.isFilled then .filled
  else if o.isPartiallyFilled then .partiallyFilled
  else o.status

/-- Write `FilledQuantity` and update the status accordingly. -/
def setFilled (o : Order) (filled : Decimal) : Order :=
  let o' := { o with filledQuantity := filled }
  { o' with status := o'.nextStatus }

def fill (o : Order) (quantity : Decimal) : Order :=
  o.setFilled (o.filledQuantity + quantity)

/-! ## What the operations read and write -/

section

variable {o : Order} {q : Decimal}

theorem isFilled_iff : o.isFilled = true ↔ o.filledQuantity = o.quantity :=
  decide_eq_true_iff

theorem isFilled_iff_remaining : o.isFilled = true ↔ o.remainingQuantity = 0 := by
  rw [isFilled_iff, remainingQuantity, sub_eq_zero, eq_comm]

theorem canBeFilled_iff :
    o.canBeFilled = true ↔ o.status = .opened ∨ o.status = .partiallyFilled :=
  decide_eq_true_iff

/-- Everything an order that passes `IsValid` satisfies. -/
theorem isValid_iff : o.isValid = true ↔
    o.clientID ≠ "" ∧ o.instrument ≠ "" ∧ (o.side = .buy ∨ o.side = .sell)
      ∧ (o.type = .limit ∨ o.type = .market) ∧ 0 < o.quantity
      ∧ (o.type = .limit → 0 < o.price) ∧ o.filledQuantity ≤ o.quantity := by
  unfold isValid
  split_ifs with h1 h2 h3 h4 h5 h6
  · simp only [false_iff]
    rintro ⟨hc, hi, -⟩
    exact h1.elim hc hi
  · simp only [false_iff]
    rintro ⟨-, -, hs, -⟩
    exact hs.elim h2.1 h2.2
  · simp only [false_iff]
    rintro ⟨-, -, -, ht, -⟩
    exact ht.elim h3.1 h3.2
  · simp only [false_iff]
    rintro ⟨-, -, -, -, hq, -⟩
    exact absurd h4 (not_le.mpr hq)
  · simp only [false_iff]
    rintro ⟨-, -, -, -, -, hp, -⟩
    exact absurd h5.2 (not_le.mpr (hp h5.1))
  · simp only [false_iff]
    rintro ⟨-, -, -, -, -, -, hf⟩
    exact absurd h6 (not_lt.mpr hf)
  · simp only [true_iff]
    obtain ⟨hc, hi⟩ := not_or.mp h1
    exact ⟨hc, hi, by tauto, by tauto, not_le.mp h4,
      fun ht => not_le.mp fun hp => h5 ⟨ht, hp⟩, not_lt.mp h6⟩

@[simp] theorem setFilled_id : (o.setFilled q).id = o.id := rfl

@[simp] theorem setFilled_clientID : (o.setFilled q).clientID = o.clientID := rfl

@[simp] theorem setFilled_instrument : (o.setFilled q).instrument = o.instrument := rfl

@[simp] theorem setFilled_side : (o.setFilled q).side = o.side := rfl

@[simp] theorem setFilled_type : (o.setFilled q).type = o.type := rfl

@[simp] theorem setFilled_price : (o.setFilled q).price = o.price := rfl

@[simp] theorem setFilled_quantity : (o.setFilled q).quantity = o.quantity := rfl

@[simp] theorem setFilled_filledQuantity : (o.setFilled q).filledQuantity = q := rfl

@[simp] theorem setFilled_createdAt : (o.setFilled q).createdAt = o.createdAt := rfl

theorem setFilled_idem : (o.setFilled q).setFilled q = o.setFilled q := by
  have hstatus : ((o.setFilled q).setFilled q).status = (o.setFilled q).status := by
    simp only [setFilled, nextStatus, isFilled, isPartiallyFilled, decide_eq_true_eq]
    by_cases hf : q = o.quantity
    · simp only [if_pos hf]
    · by_cases hp : 0 < q ∧ q < o.quantity
      · simp only [if_neg hf, if_pos hp]
      · simp only [if_neg hf, if_neg hp]
  exact congrArg (fun s => { o.setFilled q with status := s }) hstatus

@[simp] theorem fill_id : (o.fill q).id = o.id := rfl

@[simp] theorem fill_clientID : (o.fill q).clientID = o.clientID := rfl

@[simp] theorem fill_instrument : (o.fill q).instrument = o.instrument := rfl

@[simp] theorem fill_side : (o.fill q).side = o.side := rfl

@[simp] theorem fill_type : (o.fill q).type = o.type := rfl

@[simp] theorem fill_price : (o.fill q).price = o.price := rfl

@[simp] theorem fill_quantity : (o.fill q).quantity = o.quantity := rfl

@[simp] theorem fill_createdAt : (o.fill q).createdAt = o.createdAt := rfl

@[simp] theorem fill_filledQuantity :
    (o.fill q).filledQuantity = o.filledQuantity + q := rfl

@[simp] theorem fill_remainingQuantity :
    (o.fill q).remainingQuantity = o.remainingQuantity - q := by
  simp only [remainingQuantity, fill_quantity, fill_filledQuantity, sub_sub]

/-- `OrderBook.UpdateOrder` writes back what a fill has just written. -/
theorem fill_setFilled : (o.fill q).setFilled (o.fill q).filledQuantity = o.fill q :=
  setFilled_idem

theorem fill_status : (o.fill q).status =
    if o.remainingQuantity = q then .filled
    else if 0 < o.filledQuantity + q ∧ q < o.remainingQuantity then .partiallyFilled
    else o.status := by
  have hf : ({ o with filledQuantity := o.filledQuantity + q } : Order).isFilled
      = decide (o.remainingQuantity = q) := by
    simp only [isFilled, remainingQuantity, sub_eq_iff_eq_add]
    exact decide_eq_decide.mpr ⟨fun h => by rw [← h, add_comm], fun h => by rw [h, add_comm]⟩
  have hp : ({ o with filledQuantity := o.filledQuantity + q } : Order).isPartiallyFilled
      = decide (0 < o.filledQuantity + q ∧ q < o.remainingQuantity) := by
    simp only [isPartiallyFilled, remainingQuantity, lt_sub_iff_add_lt, add_comm q]
  simp only [fill, setFilled, nextStatus, hf, hp, decide_eq_true_eq]

theorem fill_canBeFilled (h : o.canBeFilled = true) :
    (o.fill q).canBeFilled = true ∨ (o.fill q).isFilled = true := by
  rw [canBeFilled_iff, fill_status, isFilled_iff_remaining, fill_remainingQuantity]
  split_ifs with hall hsome
  · exact Or.inr (sub_eq_zero.mpr hall)
  · exact Or.inl (Or.inr rfl)
  · exact Or.inl (canBeFilled_iff.mp h)

end

end Order

/-! ## Orders for examples -/

def sellFive : Order :=
  ⟨1, "seller", "BTC-USD", .sell, .limit, 100, 5, 0, .opened, 0⟩

def sellHigher : Order := { sellFive with id := 4, price := 102 }

/-- A sell order of 3 at the price of `sellFive`, which queues up behind it. -/
def sellBehind : Order := { sellFive with id := 5, quantity := 3 }

/-- A buy order of 3 at 101, which crosses `sellFive`. -/
def buyThree : Order :=
  ⟨2, "buyer", "BTC-USD", .buy, .limit, 101, 3, 0, .opened, 1⟩

/-- `buyThree` at a price below every sell order here. -/
def buyLower : Order := { buyThree with id := 6, price := 99 }

/-- A buy order of 10 at 101, more than `sellFive` can fill. -/
def buyTen : Order :=
  ⟨3, "buyer", "BTC-USD", .buy, .limit, 101, 10, 0, .opened, 2⟩

end TradingBackend
