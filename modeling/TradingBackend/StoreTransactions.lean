import TradingBackend.Postgres

/-!
# Transactions of the store

The transaction functions of `persistence/postgres.go` when the driver may fail:
`BeginTx`, each `ExecContext` and `RowsAffected`, and `Commit` return an error or
not, as `Faults` says, and what the statements do otherwise they do to the tables
(`Postgres`). A transaction works on its own copy of the tables; the deferred
`Rollback` drops it, a commit makes it the tables. A commit that reports an error
may have taken place all the same.

An error carries the chain of messages that `fmt.Errorf` has put around its cause,
down to the cause. Every return statement of these functions adds one
(`persistTradeWithOrdersTx_wrapped`, `persistMultipleTradesTx_wrapped`).
-/

namespace TradingBackend

/-- What a chain of errors ends in. -/
inductive RootCause where
  /-- `*pq.Error`, by its code. -/
  | pq (code : String)
  /-- `ErrDeadlock`. -/
  | deadlock
  /-- `ErrSerializationFailure`. -/
  | serializationFailure
  /-- `ErrConnectionFailure`. -/
  | connectionFailure
  /-- `fmt.Errorf("order not found: %s", orderID)`. -/
  | orderNotFound (orderID : UUID)
  /-- Any other error. -/
  | other (message : String)
deriving DecidableEq

/-- A cause with the messages of `fmt.Errorf(message + ": %w", err)` around it. -/
inductive ErrorChain where
  | cause (c : RootCause)
  | wrapped (message : String) (err : ErrorChain)
deriving DecidableEq

namespace ErrorChain

/-- What `errors.Unwrap` ends at. -/
def root : ErrorChain → RootCause
  | .cause c => c
  | .wrapped _ err => err.root

def IsWrapped (err : ErrorChain) : Prop := ∃ message err', err = .wrapped message err'

end ErrorChain

def StoreError.chain : StoreError → ErrorChain
  | .pq code => .cause (.pq code)
  | .orderNotFound orderID => .cause (.orderNotFound orderID)
  | .wrapped message err => .wrapped message err.chain

/-- `if err != nil { return fmt.Errorf(message + ": %w", err) }`. -/
def wrapChain {α : Type} (message : String) (x : Except ErrorChain α) : Except ErrorChain α :=
  x.mapError (.wrapped message)

/-- The errors of the driver in one transaction; statements are counted from 0. -/
structure Faults where
  begin : Option ErrorChain
  exec : ℕ → Option ErrorChain
  rowsAffected : ℕ → Option ErrorChain
  commit : Option ErrorChain
  /-- A commit that reports an error has taken place. -/
  committed : Bool

def Faults.none : Faults := ⟨.none, fun _ => .none, fun _ => .none, .none, false⟩

def uuidText (id : UUID) : String :=
  let digits := id.toHex.toList
  String.ofList (digits.take 8 ++ '-' :: (digits.drop 8).take 4 ++ '-' :: (digits.drop 12).take 4
    ++ '-' :: (digits.drop 16).take 4 ++ '-' :: digits.drop 20)

/-- A way to `range` over a map of updates: every entry once, in some order. -/
structure MapRange where
  order : (Finmap fun _ : UUID => OrderUpdate) → List ((_ : UUID) × OrderUpdate)
  entries : ∀ m, (order m : Multiset ((_ : UUID) × OrderUpdate)) = m.entries

noncomputable instance MapRange.inhabited : Inhabited MapRange :=
  ⟨⟨fun m => m.entries.toList, fun m => m.entries.coe_toList⟩⟩

namespace StoreTx

/-! ## The statements -/

/-- `insertTrade`, as statement `i`. -/
def insertTrade (faults : Faults) (i : ℕ) (db : TradeTables) (trade : TradeRecord) :
    Except ErrorChain TradeTables :=
  match faults.exec i with
  | some err => .error (.wrapped "failed to execute insert trade" err)
  | none => do
      let db ← (db.insertTrade trade).mapError StoreError.chain
      match faults.rowsAffected i with
      | some err => .error (.wrapped "failed to get rows affected" err)
      | none => .ok db

/-- `updateOrder`, as statement `i` of a transaction that began at `now`. -/
def updateOrder (faults : Faults) (i : ℕ) (db : TradeTables) (update : OrderUpdate) (now : Time) :
    Except ErrorChain TradeTables :=
  match faults.exec i with
  | some err => .error (.wrapped "failed to update order" err)
  | none =>
      match db.updateOrder update now, faults.rowsAffected i with
      -- the statement is refused: there is no result to ask for its rows
      | .error (.wrapped message err), _ => .error (.wrapped message err.chain)
      | _, some err => .error (.wrapped "failed to get rows affected" err)
      | result, none => result.mapError StoreError.chain

/-! ## The transactions -/

/-- What a transaction function returns, and the tables afterwards. -/
structure Result where
  err : Option ErrorChain
  tables : TradeTables
  /-- `Commit` was called. -/
  reachedCommit : Bool
deriving DecidableEq

/-- `BeginTx`, the statements and `Commit`, with the deferred `Rollback`. -/
def transaction (faults : Faults) (db : TradeTables)
    (statements : TradeTables → Except ErrorChain TradeTables) : Result :=
  match faults.begin with
  | some err => ⟨some (.wrapped "failed to begin transaction" err), db, false⟩
  | none =>
      match statements db with
      | .error err => ⟨some err, db, false⟩
      | .ok db' =>
          match faults.commit with
          | some err => ⟨some (.wrapped "failed to commit transaction" err),
              if faults.committed then db' else db, true⟩
          | none => ⟨none, db', true⟩

def persistTradeWithOrdersTx (faults : Faults) (db : TradeTables) (c : PersistCall) (now : Time) :
    Result :=
  transaction faults db fun db => do
    let db ← wrapChain "failed to insert trade" (insertTrade faults 0 db c.trade)
    let db ← wrapChain "failed to update buy order" (updateOrder faults 1 db c.buyOrderUpdate now)
    wrapChain "failed to update sell order" (updateOrder faults 2 db c.sellOrderUpdate now)

/-- The first loop of `persistMultipleTradesTx`, from statement `i` on. -/
def insertTrades (faults : Faults) : ℕ → List TradeRecord → TradeTables →
    Except ErrorChain TradeTables
  | _, [], db => .ok db
  | i, trade :: trades, db => do
      let db ← wrapChain ("failed to insert trade " ++ uuidText trade.tradeID)
        (insertTrade faults i db trade)
      insertTrades faults (i + 1) trades db

/-- The map of the updates: the last one of each order. -/
def orderUpdateMap (orderUpdates : List OrderUpdate) : Finmap fun _ : UUID => OrderUpdate :=
  orderUpdates.foldl (fun m update => m.insert update.orderID update) ∅

/-- The loop over the map, from statement `i` on. -/
def updateOrders (faults : Faults) (now : Time) : ℕ → List OrderUpdate → TradeTables →
    Except ErrorChain TradeTables
  | _, [], db => .ok db
  | i, update :: updates, db => do
      let db ← wrapChain ("failed to update order " ++ uuidText update.orderID)
        (updateOrder faults i db update now)
      updateOrders faults now (i + 1) updates db

def persistMultipleTradesTx (faults : Faults) (range : MapRange) (db : TradeTables)
    (trades : List TradeRecord) (orderUpdates : List OrderUpdate) (now : Time) : Result :=
  transaction faults db fun db => do
    let db ← insertTrades faults 0 trades db
    let updates := (range.order (orderUpdateMap orderUpdates)).map Sigma.snd
    updateOrders faults now trades.length updates db

/-! ## Errors change nothing and are wrapped -/

section

variable {faults : Faults} {db : TradeTables} {err : ErrorChain} {now : Time} {i : ℕ}
  {statements : TradeTables → Except ErrorChain TradeTables}

theorem transaction_cases (faults : Faults) (db : TradeTables)
    (statements : TradeTables → Except ErrorChain TradeTables) :
    (∃ err, transaction faults db statements =
        ⟨some (.wrapped "failed to begin transaction" err), db, false⟩)
      ∨ (∃ err, statements db = .error err
        ∧ transaction faults db statements = ⟨some err, db, false⟩)
      ∨ (∃ db' err, statements db = .ok db' ∧ transaction faults db statements =
        ⟨some (.wrapped "failed to commit transaction" err),
          if faults.committed then db' else db, true⟩)
      ∨ ∃ db', statements db = .ok db'
        ∧ transaction faults db statements = ⟨none, db', true⟩ := by
  unfold transaction
  split
  · exact Or.inl ⟨_, rfl⟩
  · split
    · rename_i err herr
      exact Or.inr (Or.inl ⟨err, herr, rfl⟩)
    · rename_i db' hdb'
      split
      · exact Or.inr (Or.inr (Or.inl ⟨db', _, hdb', rfl⟩))
      · exact Or.inr (Or.inr (Or.inr ⟨db', hdb', rfl⟩))

theorem transaction_unchanged (h : (transaction faults db statements).reachedCommit = false) :
    (transaction faults db statements).tables = db := by
  obtain ⟨_, heq⟩ | ⟨_, -, heq⟩ | ⟨_, _, -, heq⟩ | ⟨_, -, heq⟩ :=
    transaction_cases faults db statements
  · rw [heq]
  · rw [heq]
  · rw [heq] at h
    cases h
  · rw [heq] at h
    cases h

theorem transaction_wrapped (h : ∀ err, statements db = .error err → err.IsWrapped)
    (herr : (transaction faults db statements).err = some err) : err.IsWrapped := by
  obtain ⟨_, heq⟩ | ⟨e, he, heq⟩ | ⟨_, _, -, heq⟩ | ⟨_, -, heq⟩ :=
    transaction_cases faults db statements
  · rw [heq] at herr
    exact ⟨_, _, (Option.some.inj herr).symm⟩
  · rw [heq] at herr
    exact Option.some.inj herr ▸ h e he
  · rw [heq] at herr
    exact ⟨_, _, (Option.some.inj herr).symm⟩
  · rw [heq] at herr
    cases herr

theorem wrapChain_error {α : Type} {message : String} {x : Except ErrorChain α}
    (h : wrapChain message x = .error err) : err.IsWrapped := by
  cases x with
  | error e => exact ⟨message, e, (Except.error.inj h).symm⟩
  | ok a => cases h

theorem persistTradeWithOrdersTx_wrapped {c : PersistCall}
    (h : (persistTradeWithOrdersTx faults db c now).err = some err) : err.IsWrapped := by
  refine transaction_wrapped (fun err herr => ?_) h
  obtain herr | ⟨_, -, herr⟩ := bind_eq_error.mp herr
  · exact wrapChain_error herr
  · obtain herr | ⟨_, -, herr⟩ := bind_eq_error.mp herr
    · exact wrapChain_error herr
    · exact wrapChain_error herr

theorem insertTrades_wrapped {trades : List TradeRecord}
    (h : insertTrades faults i trades db = .error err) : err.IsWrapped := by
  induction trades generalizing i db with
  | nil => cases h
  | cons trade trades ih =>
      obtain h | ⟨_, -, h⟩ := bind_eq_error.mp h
      · exact wrapChain_error h
      · exact ih h

theorem updateOrders_wrapped {updates : List OrderUpdate}
    (h : updateOrders faults now i updates db = .error err) : err.IsWrapped := by
  induction updates generalizing i db with
  | nil => cases h
  | cons update updates ih =>
      obtain h | ⟨_, -, h⟩ := bind_eq_error.mp h
      · exact wrapChain_error h
      · exact ih h

theorem persistMultipleTradesTx_wrapped {range : MapRange} {trades : List TradeRecord}
    {orderUpdates : List OrderUpdate}
    (h : (persistMultipleTradesTx faults range db trades orderUpdates now).err = some err) :
    err.IsWrapped := by
  refine transaction_wrapped (fun err herr => ?_) h
  obtain herr | ⟨_, -, herr⟩ := bind_eq_error.mp herr
  · exact insertTrades_wrapped herr
  · exact updateOrders_wrapped herr

end

/-! ## When nothing fails, the tables decide -/

section

variable {db db' : TradeTables} {now : Time} {i : ℕ}

theorem wrapChain_ok {α : Type} {message : String} {x : Except ErrorChain α} {a : α} :
    wrapChain message x = .ok a ↔ x = .ok a := by
  cases x <;> simp [wrapChain, Except.mapError]

theorem insertTrade_eq_ok {trade : TradeRecord} :
    insertTrade .none i db trade = .ok db' ↔ db.insertTrade trade = .ok db' := by
  simp only [insertTrade, Faults.none]
  cases db.insertTrade trade <;> simp [Except.mapError, bind, Except.bind]

theorem updateOrder_eq_ok {update : OrderUpdate} :
    updateOrder .none i db update now = .ok db' ↔ db.updateOrder update now = .ok db' := by
  simp only [updateOrder, Faults.none]
  cases h : db.updateOrder update now with
  | ok a => simp [Except.mapError]
  | error e => cases e <;> simp [Except.mapError]

theorem transaction_eq_ok {statements : TradeTables → Except ErrorChain TradeTables} :
    transaction .none db statements = ⟨none, db', true⟩ ↔ statements db = .ok db' := by
  simp only [transaction, Faults.none]
  cases statements db <;> simp

/-- Where the driver does not fail, the transaction is the one on the tables. -/
theorem persistTradeWithOrdersTx_eq_ok {c : PersistCall} :
    persistTradeWithOrdersTx .none db c now = ⟨none, db', true⟩ ↔
      db.persistTradeWithOrdersTx c now = .ok db' := by
  simp only [persistTradeWithOrdersTx, transaction_eq_ok, bind_eq_ok, wrapChain_ok,
    insertTrade_eq_ok, updateOrder_eq_ok, TradeTables.persistTradeWithOrdersTx, wrapError_eq_ok]

end

end StoreTx

end TradingBackend
