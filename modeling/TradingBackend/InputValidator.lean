import TradingBackend.Float64
import Mathlib.Data.List.DropRight

/-!
# The input validator

`validation/input_validator.go`: the checks of the fields of an order
request, and the request as a whole. Strings are sequences of runes, as the
ones that come out of `encoding/json` are, so the checks of UTF-8 validity
are left out; `len` counts bytes. What is known of package `unicode` is what
it does to ASCII (`Unicode`); `unicode.IsSpace` and `unicode.IsControl` are
written out. `math.Pow` is taken to be correctly rounded: for the default of
8 decimals, and up to 22 of them, it is exact.

Left out: the HTTP and JSON helpers, `ValidateOrderID`,
`ValidateCancelOrderRequest`, `ValidateNumericRange` and `SanitizeString`.
-/

namespace TradingBackend.Validation

/-- The tables of package `unicode`, of which only the ASCII part is
fixed. -/
structure Unicode where
  toUpper : Char → Char
  toLower : Char → Char
  isLetter : Char → Bool
  isDigit : Char → Bool
  toUpper_ascii : ∀ c : Char, c.toNat < 128 → toUpper c = c.toUpper
  toLower_ascii : ∀ c : Char, c.toNat < 128 → toLower c = c.toLower
  isLetter_ascii : ∀ c : Char, c.toNat < 128 → isLetter c = c.isAlpha
  isDigit_ascii : ∀ c : Char, c.toNat < 128 → isDigit c = c.isDigit

def Unicode.ascii : Unicode :=
  ⟨Char.toUpper, Char.toLower, Char.isAlpha, Char.isDigit, fun _ _ => rfl, fun _ _ => rfl,
    fun _ _ => rfl, fun _ _ => rfl⟩

def isSpace (c : Char) : Bool :=
  let n := c.toNat
  9 ≤ n && n ≤ 13 || n == 0x20 || n == 0x85 || n == 0xA0 || n == 0x1680
    || 0x2000 ≤ n && n ≤ 0x200A || n == 0x2028 || n == 0x2029 || n == 0x202F || n == 0x205F
    || n == 0x3000

def isControl (c : Char) : Bool := c.toNat < 0x20 || 0x7F ≤ c.toNat && c.toNat < 0xA0

def trimSpace (s : List Char) : List Char := (s.dropWhile isSpace).rdropWhile isSpace

/-- `ValidationConfig`, without the bound on the size of a request body. -/
structure ValidationConfig where
  maxPricePrecision : Int
  minPrice : Float64
  maxPrice : Float64
  minQuantity : Float64
  maxQuantity : Float64
  maxClientIDLength : Int
  maxSymbolLength : Int

def defaultValidationConfig : ValidationConfig :=
  { maxPricePrecision := 8
    minPrice := Float64.ofRat (1 / 100000000)
    maxPrice := Float64.ofRat 1000000000
    minQuantity := Float64.ofRat (1 / 100000000)
    maxQuantity := Float64.ofRat 1000000000
    maxClientIDLength := 64
    maxSymbolLength := 20 }

/-- The errors of the field checks, with what their texts mention. -/
inductive InputError where
  /-- "invalid price: not a valid number" -/
  | priceNotANumber
  /-- "price out of valid range: price %.10f is below minimum %.10f" -/
  | priceBelowMinimum (price minimum : Float64)
  /-- "price out of valid range: price %.2f exceeds maximum %.2f" -/
  | priceAboveMaximum (price maximum : Float64)
  /-- "price precision exceeds 8 decimals: value %.15f has more than %d decimal places" -/
  | pricePrecisionExceeded (value : Float64) (maxDecimals : Int)
  /-- "invalid quantity: not a valid number" -/
  | quantityNotANumber
  /-- "quantity out of valid range: quantity %.10f is below minimum %.10f" -/
  | quantityBelowMinimum (quantity minimum : Float64)
  /-- "quantity out of valid range: quantity %.2f exceeds maximum %.2f" -/
  | quantityAboveMaximum (quantity maximum : Float64)
  /-- "invalid client_id format or length: client_id cannot be empty" -/
  | clientIDEmpty
  /-- "invalid client_id format or length: client_id length %d exceeds maximum %d" -/
  | clientIDTooLong (length : Nat) (maximum : Int)
  /-- "invalid client_id format or length: client_id must contain only alphanumeric characters,
  underscores, and hyphens" -/
  | clientIDFormat
  /-- "invalid symbol format or length: symbol cannot be empty" -/
  | symbolEmpty
  /-- "invalid symbol format or length: symbol length %d exceeds maximum %d" -/
  | symbolTooLong (length : Nat) (maximum : Int)
  /-- "invalid symbol format or length: symbol must contain only uppercase letters and numbers" -/
  | symbolFormat
  /-- "invalid order side: side must be 'buy' or 'sell', got '%s'" -/
  | invalidSide (side : List Char)
deriving DecidableEq

structure InputValidator where
  config : ValidationConfig

def newInputValidator (config : Option ValidationConfig) : InputValidator :=
  ⟨config.getD defaultValidationConfig⟩

structure OrderRequest where
  clientID : String
  symbol : String
  side : String
  price : Float64
  quantity : Float64
deriving DecidableEq

/-- The characters of `ClientIDPattern`. -/
def isClientIDChar (c : Char) : Bool := c.isAlphanum || c == '_' || c == '-'

/-- The characters of `SymbolPattern`. -/
def isSymbolChar (c : Char) : Bool := c.isUpper || c.isDigit

/-- The check for NaN and infinities. -/
def notANumber : Float64 → Bool
  | .nan => true
  | .inf _ => true
  | .finite _ => false

namespace InputValidator

variable (iv : InputValidator)

/-- `checkPrecision`: the value has more decimals than allowed. -/
def checkPrecision (value : Float64) (maxDecimals : Int) : Bool :=
  let multiplier := Float64.ofRat ((10 : ℚ) ^ maxDecimals)
  let shifted := value.mul multiplier
  let truncated := shifted.trunc
  let difference := (shifted.sub truncated).abs
  let epsilon := Float64.ofRat (1 / 1000000000)
  epsilon.lt difference

def validatePrice (price : Float64) : Option InputError :=
  if notANumber price then some .priceNotANumber
  else if price.lt iv.config.minPrice then some (.priceBelowMinimum price iv.config.minPrice)
  else if iv.config.maxPrice.lt price then some (.priceAboveMaximum price iv.config.maxPrice)
  else if checkPrecision price iv.config.maxPricePrecision then
    some (.pricePrecisionExceeded price iv.config.maxPricePrecision)
  else none

def validateQuantity (quantity : Float64) : Option InputError :=
  if notANumber quantity then some .quantityNotANumber
  else if quantity.lt iv.config.minQuantity then
    some (.quantityBelowMinimum quantity iv.config.minQuantity)
  else if iv.config.maxQuantity.lt quantity then
    some (.quantityAboveMaximum quantity iv.config.maxQuantity)
  else none

def validateClientID (clientID : String) : Option InputError :=
  if clientID = "" then some .clientIDEmpty
  else if iv.config.maxClientIDLength < clientID.utf8ByteSize then
    some (.clientIDTooLong clientID.utf8ByteSize iv.config.maxClientIDLength)
  else if ¬clientID.toList.all isClientIDChar then some .clientIDFormat
  else none

def validateSymbol (symbol : String) : Option InputError :=
  if symbol = "" then some .symbolEmpty
  else if iv.config.maxSymbolLength < symbol.utf8ByteSize then
    some (.symbolTooLong symbol.utf8ByteSize iv.config.maxSymbolLength)
  else if ¬symbol.toList.all isSymbolChar then some .symbolFormat
  else none

def validateSide (u : Unicode) (side : String) : Option InputError :=
  let side := (trimSpace side.toList).map u.toLower
  if side ≠ "buy".toList ∧ side ≠ "sell".toList then some (.invalidSide side) else none

/-- `ValidateOrderRequest`: the errors of all fields; none if the request is
accepted. -/
def validateOrderRequest (u : Unicode) (req : OrderRequest) : List InputError :=
  [iv.validateClientID req.clientID, iv.validateSymbol req.symbol, validateSide u req.side,
    iv.validatePrice req.price, iv.validateQuantity req.quantity].reduceOption

variable {iv}

theorem validateOrderRequest_eq_nil {u : Unicode} {req : OrderRequest} :
    iv.validateOrderRequest u req = []
      ↔ iv.validateClientID req.clientID = none ∧ iv.validateSymbol req.symbol = none
        ∧ validateSide u req.side = none ∧ iv.validatePrice req.price = none
        ∧ iv.validateQuantity req.quantity = none := by
  change List.filterMap id _ = [] ↔ _
  simp [List.filterMap_eq_nil_iff]

end InputValidator

end TradingBackend.Validation
