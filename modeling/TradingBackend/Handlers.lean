import TradingBackend.LifeCycle

/-!
# Orders over HTTP

`api/handlers.go` up to the point where `HandleSubmitOrder` has its order:
the request body, `validateOrderRequest`, the two switches and the order
that is built. The id is from `uuid.New()` and the time from `time.Now()`,
so both are arguments.

The header, the correlation id, the metrics and the log lines are left
out. The text of a reply is kept where the code writes it.
-/

namespace TradingBackend

structure OrderRequest where
  clientID : String
  instrument : String
  side : String
  type : String
  price : Decimal
  quantity : Decimal
deriving DecidableEq, Repr

structure ValidationError where
  field : String
  message : String
deriving DecidableEq, Repr

/-- `OrderResponse`. `Order` is a pointer in the source; the JSON that is
sent and cached holds its value. -/
structure OrderResponse where
  success : Bool
  orderID : UUID
  order : Order
  trades : List Trade
  message : String
  timestamp : Time
  replayed : Bool
deriving DecidableEq, Repr

/-- What a request is answered with: `respondError`, the list of
validation errors with status 400, or an order response with status 202. -/
inductive Reply where
  | failed (statusCode : Nat) (message : String)
  | invalid (errors : List ValidationError)
  | accepted (response : OrderResponse)
deriving DecidableEq, Repr

def check (bad : Prop) [Decidable bad] (field message : String) : List ValidationError :=
  if bad then [⟨field, message⟩] else []

def maxQuantity : Decimal := 1000

def minQuantity : Decimal := 1 / 10000

def maxPrice : Decimal := 1000000

def minPrice : Decimal := 1

/-- `validateOrderRequest`, in the order of its checks. -/
def validateOrderRequest (req : OrderRequest) : List ValidationError :=
  check (req.clientID = "") "client_id" "client_id is required"
  ++ check (req.instrument = "") "instrument" "instrument is required"
  ++ check (req.side ≠ "buy" ∧ req.side ≠ "sell") "side" "side must be 'buy' or 'sell'"
  ++ check (req.type ≠ "limit" ∧ req.type ≠ "market") "type" "type must be 'limit' or 'market'"
  ++ check (req.quantity = 0 ∨ req.quantity < 0) "quantity" "quantity must be positive"
  ++ check (req.type = "limit" ∧ (req.price = 0 ∨ req.price < 0)) "price"
      "price must be positive for limit orders"
  ++ check (req.quantity > maxQuantity) "quantity" "quantity exceeds maximum allowed (1000)"
  ++ check (req.quantity < minQuantity) "quantity" "quantity below minimum allowed (0.0001)"
  ++ check (req.type = "limit" ∧ req.price > maxPrice) "price"
      "price exceeds maximum allowed (1000000)"
  ++ check (req.type = "limit" ∧ req.price < minPrice) "price"
      "price below minimum allowed (1)"

/-- The switch on `req.Side`. -/
def sideOf : String → Option OrderSide
  | "buy" => some .buy
  | "sell" => some .sell
  | _ => none

/-- The switch on `req.Type`. -/
def typeOf : String → Option OrderType
  | "limit" => some .limit
  | "market" => some .market
  | _ => none

/-- `HandleSubmitOrder` between decoding the body and `SubmitOrder`: the
order, or the reply that ends the request. -/
def buildOrder (req : OrderRequest) (id : UUID) (now : Time) : Except Reply Order :=
  if validateOrderRequest req ≠ [] then .error (.invalid (validateOrderRequest req))
  else
    match sideOf req.side with
    | none => .error (.failed 400 "Invalid side: must be 'buy' or 'sell'")
    | some side =>
        match typeOf req.type with
        | none => .error (.failed 400 "Invalid type: must be 'limit' or 'market'")
        | some type =>
            .ok { id := id, clientID := req.clientID, instrument := req.instrument, side := side,
                  type := type, price := req.price, quantity := req.quantity,
                  filledQuantity := 0, status := .opened, createdAt := now }

/-! ## What is accepted -/

section

variable {req : OrderRequest} {id : UUID} {now : Time} {o : Order}

theorem check_eq_nil {bad : Prop} [Decidable bad] {field message : String} :
    check bad field message = [] ↔ ¬bad := by
  unfold check
  split <;> simp_all

/-- The requests that pass. The two checks for a positive number are
implied by the ranges. -/
theorem validateOrderRequest_eq_nil : validateOrderRequest req = [] ↔
    req.clientID ≠ "" ∧ req.instrument ≠ "" ∧ (req.side = "buy" ∨ req.side = "sell")
      ∧ (req.type = "limit" ∨ req.type = "market")
      ∧ minQuantity ≤ req.quantity ∧ req.quantity ≤ maxQuantity
      ∧ (req.type = "limit" → minPrice ≤ req.price ∧ req.price ≤ maxPrice) := by
  have hmin : 0 < minQuantity := by norm_num [minQuantity]
  have hprice : 0 < minPrice := by norm_num [minPrice]
  simp only [validateOrderRequest, List.append_eq_nil_iff, check_eq_nil, not_and_or, not_or,
    not_not, not_lt, gt_iff_lt]
  constructor
  · rintro ⟨⟨⟨⟨⟨⟨⟨⟨⟨hclient, hinst⟩, hside⟩, htype⟩, -⟩, -⟩, hmax⟩, hqty⟩, hhigh⟩, hlow⟩
    refine ⟨hclient, hinst, hside, htype, hqty, hmax, fun hlimit => ?_⟩
    exact ⟨hlow.resolve_left (· hlimit), hhigh.resolve_left (· hlimit)⟩
  · rintro ⟨hclient, hinst, hside, htype, hqty, hmax, hrange⟩
    have hpos := hmin.trans_le hqty
    refine ⟨⟨⟨⟨⟨⟨⟨⟨⟨hclient, hinst⟩, hside⟩, htype⟩, hpos.ne', hpos.le⟩, ?_⟩, hmax⟩, hqty⟩, ?_⟩, ?_⟩
      <;> by_cases hlimit : req.type = "limit"
    · have hpos := hprice.trans_le (hrange hlimit).1
      exact Or.inr ⟨hpos.ne', hpos.le⟩
    · exact Or.inl hlimit
    · exact Or.inr (hrange hlimit).2
    · exact Or.inl hlimit
    · exact Or.inr (hrange hlimit).1
    · exact Or.inl hlimit

theorem sideOf_eq_some {s : String} {side : OrderSide} (h : sideOf s = some side) :
    side = .buy ∨ side = .sell := by
  unfold sideOf at h
  split at h <;> simp_all

theorem typeOf_eq_some {s : String} {type : OrderType} (h : typeOf s = some type) :
    s = "limit" ∧ type = .limit ∨ s = "market" ∧ type = .market := by
  unfold typeOf at h
  split at h <;> simp_all

theorem buildOrder_ok (h : buildOrder req id now = .ok o) :
    validateOrderRequest req = [] ∧ ∃ side type, sideOf req.side = some side
      ∧ typeOf req.type = some type
      ∧ o = { id := id, clientID := req.clientID, instrument := req.instrument, side := side,
              type := type, price := req.price, quantity := req.quantity,
              filledQuantity := 0, status := .opened, createdAt := now } := by
  unfold buildOrder at h
  split at h
  · cases h
  · rename_i hvalid
    split at h
    · cases h
    · rename_i side hside
      split at h
      · cases h
      · rename_i type htype
        exact ⟨not_not.mp hvalid, side, type, hside, htype, (Except.ok.inj h).symm⟩

/-- The two switches never refuse a request that was validated. -/
theorem buildOrder_total (h : validateOrderRequest req = []) (id : UUID) (now : Time) :
    ∃ o, buildOrder req id now = .ok o := by
  obtain ⟨-, -, hside, htype, -⟩ := validateOrderRequest_eq_nil.mp h
  rcases hside with hside | hside <;> rcases htype with htype | htype <;>
    exact ⟨_, by rw [buildOrder, if_neg (not_not.mpr h), hside, htype]; rfl⟩

/-- An order that `HandleSubmitOrder` hands to the engine. -/
def Order.Validated (o : Order) : Prop :=
  ∃ req id now, buildOrder req id now = .ok o

theorem Order.Validated.submitted (h : o.Validated) : o.Submitted := by
  obtain ⟨req, id, now, hbuild⟩ := h
  obtain ⟨-, side, type, -, -, rfl⟩ := buildOrder_ok hbuild
  exact ⟨rfl, rfl⟩

theorem Order.Validated.quantity (h : o.Validated) :
    minQuantity ≤ o.quantity ∧ o.quantity ≤ maxQuantity := by
  obtain ⟨req, id, now, hbuild⟩ := h
  obtain ⟨hvalid, side, type, -, -, rfl⟩ := buildOrder_ok hbuild
  obtain ⟨-, -, -, -, hmin, hmax, -⟩ := validateOrderRequest_eq_nil.mp hvalid
  exact ⟨hmin, hmax⟩

theorem Order.Validated.price (h : o.Validated) (hlimit : o.type = .limit) :
    minPrice ≤ o.price ∧ o.price ≤ maxPrice := by
  obtain ⟨req, id, now, hbuild⟩ := h
  obtain ⟨hvalid, side, type, -, htype, rfl⟩ := buildOrder_ok hbuild
  obtain ⟨-, -, -, -, -, -, hrange⟩ := validateOrderRequest_eq_nil.mp hvalid
  rcases typeOf_eq_some htype with ⟨hreq, -⟩ | ⟨-, hmarket⟩
  · exact hrange hreq
  · exact absurd (hmarket.symm.trans hlimit) nofun

/-- The engine never rejects an order that was validated. -/
theorem Order.Validated.isValid (h : o.Validated) : o.isValid = true := by
  have hqty := (show (0 : Decimal) < minQuantity by norm_num [minQuantity]).trans_le h.quantity.1
  have hprice : o.type = .limit → 0 < o.price := fun hlimit =>
    (show (0 : Decimal) < minPrice by norm_num [minPrice]).trans_le (h.price hlimit).1
  obtain ⟨req, id, now, hbuild⟩ := h
  obtain ⟨hvalid, side, type, hside, htype, rfl⟩ := buildOrder_ok hbuild
  obtain ⟨hclient, hinst, -⟩ := validateOrderRequest_eq_nil.mp hvalid
  refine Order.isValid_iff.mpr ⟨hclient, hinst, sideOf_eq_some hside, ?_, hqty, hprice, hqty.le⟩
  rcases typeOf_eq_some htype with ⟨-, rfl⟩ | ⟨-, rfl⟩
  · exact Or.inl rfl
  · exact Or.inr rfl

end

theorem validated_sellFive : sellFive.Validated :=
  ⟨⟨"seller", "BTC-USD", "sell", "limit", 100, 5⟩, 1, 0, by decide +kernel⟩

theorem validated_buyThree : buyThree.Validated :=
  ⟨⟨"buyer", "BTC-USD", "buy", "limit", 101, 3⟩, 2, 1, by decide +kernel⟩

end TradingBackend
