import TradingBackend.StoreTransactions

/-!
# Retrying transactions

`executeWithRetry` and `isRetryableError` of `persistence/postgres.go`, over any
sequence of outcomes of the function that is tried.

The classifier looks for a `*pq.Error` with a type assertion on the error itself,
and for the three sentinel errors with `errors.Is`, which unwraps. An error of the
database that was wrapped once is therefore not retried, whatever its code
(`isRetryableError_iff`), and the transaction functions wrap all of theirs: no
`*pq.Error` is ever retried by `PersistTradeWithOrders` or `PersistMultipleTrades`
(`executeWithRetry_of_wrapped`).
-/

namespace TradingBackend

/-- An error that is expected to go away. -/
def RootCause.Transient : RootCause → Prop
  | .pq code => code ∈ ["40001", "40P01", "08000", "08003", "08006", "57P03"]
  | .deadlock => True
  | .serializationFailure => True
  | .connectionFailure => True
  | .orderNotFound _ => False
  | .other _ => False

instance RootCause.decidableTransient : (c : RootCause) → Decidable c.Transient
  | .pq code => inferInstanceAs (Decidable (code ∈ _))
  | .deadlock => inferInstanceAs (Decidable True)
  | .serializationFailure => inferInstanceAs (Decidable True)
  | .connectionFailure => inferInstanceAs (Decidable True)
  | .orderNotFound _ => inferInstanceAs (Decidable False)
  | .other _ => inferInstanceAs (Decidable False)

namespace ErrorChain

/-- `errors.Is`, for a target that wraps nothing. -/
def is (target : RootCause) : ErrorChain → Bool
  | .cause c => decide (c = target)
  | .wrapped _ err => err.is target

theorem is_iff {target : RootCause} {err : ErrorChain} :
    err.is target = true ↔ err.root = target := by
  induction err with
  | cause c => exact decide_eq_true_iff
  | wrapped message err ih => exact ih

end ErrorChain

/-- `PostgresStore`, without the connection. Durations are in nanoseconds. -/
structure PostgresStore where
  maxRetries : ℕ
  retryDelay : BitVec 64

namespace PostgresStore

/-- The `switch` of `isRetryableError`. -/
def isRetryableCode (code : String) : Bool :=
  match code with
  | "40001" => true
  | "40P01" => true
  | "08000" => true
  | "08003" => true
  | "08006" => true
  | "57P03" => true
  | _ => false

def isRetryableError (err : ErrorChain) : Bool :=
  -- `err.(*pq.Error)` does not look into a wrapped error
  (match err with
    | .cause (.pq code) => isRetryableCode code
    | _ => false)
  || err.is .deadlock || err.is .serializationFailure || err.is .connectionFailure

/-- What a call of `executeWithRetry` returns, after how many calls of the function
and with which waits between them. -/
structure Retried where
  err : Option ErrorChain
  attempts : ℕ
  delays : List (BitVec 64)
deriving DecidableEq

/-- `ps.retryDelay * time.Duration(1<<uint(attempt))`. -/
def backoff (ps : PostgresStore) (attempt : ℕ) : BitVec 64 :=
  ps.retryDelay * (1#64 <<< attempt)

/-- The loop of `executeWithRetry` at `attempt`, with `left` attempts after this one.
`ctxErr` is the error of a context that is done during a wait. -/
def retryFrom (ps : PostgresStore) (ctxErr fn : ℕ → Option ErrorChain) : ℕ → ℕ → Retried
  | left, attempt =>
      match fn attempt with
      | none => ⟨none, 1, []⟩
      | some err =>
          if isRetryableError err then
            match left with
            | 0 => ⟨some (.wrapped "max retries exceeded" err), 1, []⟩
            | left + 1 =>
                match ctxErr attempt with
                | some err => ⟨some err, 1, []⟩
                | none =>
                    let rest := retryFrom ps ctxErr fn left (attempt + 1)
                    ⟨rest.err, rest.attempts + 1, ps.backoff attempt :: rest.delays⟩
          else ⟨some err, 1, []⟩

/-- `executeWithRetry`, of a function whose calls return `fn 0`, `fn 1` and so on. -/
def executeWithRetry (ps : PostgresStore) (ctxErr fn : ℕ → Option ErrorChain) : Retried :=
  ps.retryFrom ctxErr fn ps.maxRetries 0

/-! ## The classifier -/

theorem isRetryableCode_iff {code : String} :
    isRetryableCode code = true ↔ (RootCause.pq code).Transient := by
  unfold isRetryableCode RootCause.Transient
  split <;> simp_all

/-- A transient error is retried unless it is a wrapped `*pq.Error`. -/
theorem isRetryableError_iff {err : ErrorChain} : isRetryableError err = true ↔
    err.root.Transient ∧ ¬(err.IsWrapped ∧ ∃ code, err.root = .pq code) := by
  unfold isRetryableError
  simp only [Bool.or_eq_true, ErrorChain.is_iff]
  cases err with
  | cause c =>
      have hbare : ¬(ErrorChain.cause c).IsWrapped := nofun
      cases c <;> simp [ErrorChain.root, isRetryableCode_iff, hbare, RootCause.Transient]
  | wrapped message err =>
      have hwrapped : (ErrorChain.wrapped message err).IsWrapped := ⟨message, err, rfl⟩
      cases hroot : (ErrorChain.wrapped message err).root <;> simp [hwrapped, RootCause.Transient]

/-! ## The loop -/

section

variable {ps : PostgresStore} {ctxErr fn : ℕ → Option ErrorChain} {left attempt : ℕ}
  {err : ErrorChain}

theorem retryFrom_success (h : fn attempt = none) :
    ps.retryFrom ctxErr fn left attempt = ⟨none, 1, []⟩ := by
  rw [retryFrom, h]

theorem retryFrom_fatal (h : fn attempt = some err) (herr : ¬isRetryableError err = true) :
    ps.retryFrom ctxErr fn left attempt = ⟨some err, 1, []⟩ := by
  rw [retryFrom, h]
  exact if_neg herr

theorem retryFrom_exhausted (h : fn attempt = some err) (herr : isRetryableError err = true) :
    ps.retryFrom ctxErr fn 0 attempt = ⟨some (.wrapped "max retries exceeded" err), 1, []⟩ := by
  rw [retryFrom, h]
  exact if_pos herr

theorem retryFrom_again (h : fn attempt = some err) (herr : isRetryableError err = true)
    (hctx : ctxErr attempt = none) :
    ps.retryFrom ctxErr fn (left + 1) attempt =
      let rest := ps.retryFrom ctxErr fn left (attempt + 1)
      ⟨rest.err, rest.attempts + 1, ps.backoff attempt :: rest.delays⟩ := by
  rw [retryFrom, h]
  simp only [if_pos herr, hctx]

/-- What the loop does with outcomes, in terms of the classifier: it makes no more
attempts than it has left, it succeeds with the first success if everything before
it was retried, and it goes on after an error that is to be retried and after no
other. -/
structure Retries (fn : ℕ → Option ErrorChain) (left attempt : ℕ) (r : Retried) : Prop where
  attempts_pos : 0 < r.attempts
  attempts_le : r.attempts ≤ left + 1
  success : r.err = none ↔ ∃ n ≤ left, fn (attempt + n) = none
    ∧ ∀ m < n, ∀ err, fn (attempt + m) = some err → isRetryableError err = true
  again : ∀ n < left, n < r.attempts → ∀ err, fn (attempt + n) = some err →
    isRetryableError err = true → n + 1 < r.attempts
  reached : ∀ n < r.attempts, ∀ m < n, ∃ err, fn (attempt + m) = some err
    ∧ isRetryableError err = true

theorem Retries.cons {rest : Retried} (h : Retries fn left (attempt + 1) rest)
    (hfn : fn attempt = some err) (herr : isRetryableError err = true) (delay : BitVec 64) :
    Retries fn (left + 1) attempt ⟨rest.err, rest.attempts + 1, delay :: rest.delays⟩ := by
  refine ⟨Nat.succ_pos _, Nat.succ_le_succ h.attempts_le, h.success.trans ?_, ?_, ?_⟩
  · constructor
    · rintro ⟨n, hn, hnone, hbefore⟩
      refine ⟨n + 1, Nat.succ_le_succ hn, by rwa [Nat.add_right_comm] at hnone, ?_⟩
      rintro (_ | m) hm e he
      · rw [Nat.add_zero, hfn] at he
        exact Option.some.inj he ▸ herr
      · refine hbefore m (Nat.lt_of_succ_lt_succ hm) e ?_
        rwa [Nat.add_right_comm]
    · rintro ⟨_ | n, hn, hnone, hbefore⟩
      · rw [Nat.add_zero, hfn] at hnone
        cases hnone
      · refine ⟨n, Nat.le_of_succ_le_succ hn, by rwa [Nat.add_right_comm], fun m hm e he => ?_⟩
        refine hbefore (m + 1) (Nat.succ_lt_succ hm) e ?_
        rwa [Nat.add_right_comm] at he
  · rintro (_ | n) hn hlt e he hretry
    · exact Nat.succ_lt_succ h.attempts_pos
    · refine Nat.succ_lt_succ (h.again n (Nat.lt_of_succ_lt_succ hn) (Nat.lt_of_succ_lt_succ hlt) e
        ?_ hretry)
      rwa [Nat.add_right_comm]
  · rintro n hn (_ | m) hm
    · exact ⟨err, hfn, herr⟩
    · obtain ⟨n, rfl⟩ : ∃ n', n = n' + 1 := Nat.exists_eq_succ_of_ne_zero (Nat.ne_zero_of_lt hm)
      obtain ⟨e, he, hretry⟩ := h.reached n (Nat.lt_of_succ_lt_succ hn) m
        (Nat.lt_of_succ_lt_succ hm)
      exact ⟨e, by rwa [Nat.add_right_comm] at he, hretry⟩

theorem Retries.single {result : Option ErrorChain}
    (hresult : result = none ↔ fn attempt = none)
    (hend : left = 0 ∨ ∀ err, fn attempt = some err → ¬isRetryableError err = true) :
    Retries fn left attempt ⟨result, 1, []⟩ := by
  refine ⟨Nat.one_pos, Nat.succ_le_succ (Nat.zero_le _), hresult.trans ?_, ?_, ?_⟩
  · constructor
    · exact fun hnone => ⟨0, Nat.zero_le _, hnone, nofun⟩
    · rintro ⟨n, hn, hnone, hbefore⟩
      rcases hend with rfl | hfatal
      · rwa [Nat.le_zero.mp hn] at hnone
      · cases hfn : fn attempt with
        | none => rfl
        | some e =>
            cases n with
            | zero => rwa [Nat.add_zero, hfn] at hnone
            | succ n => exact absurd (hbefore 0 (Nat.succ_pos _) e hfn) (hfatal e hfn)
  · rintro n hn hlt e he hretry
    obtain rfl := Nat.lt_one_iff.mp hlt
    rcases hend with rfl | hfatal
    · exact absurd hn (Nat.lt_irrefl 0)
    · exact absurd hretry (hfatal e he)
  · intro n hn m hm
    obtain rfl := Nat.lt_one_iff.mp hn
    cases hm

theorem retryFrom_retries (hctx : ∀ n, ctxErr n = none) (left attempt : ℕ) :
    Retries fn left attempt (ps.retryFrom ctxErr fn left attempt) := by
  induction left generalizing attempt with
  | zero =>
      cases hfn : fn attempt with
      | none =>
          rw [retryFrom_success hfn]
          exact .single (iff_of_true rfl hfn) (Or.inl rfl)
      | some err =>
          have hsome : fn attempt ≠ none := by rw [hfn]; nofun
          by_cases herr : isRetryableError err = true
          · rw [retryFrom_exhausted hfn herr]
            exact .single (iff_of_false nofun hsome) (Or.inl rfl)
          · rw [retryFrom_fatal hfn herr]
            exact .single (iff_of_false nofun hsome) (Or.inl rfl)
  | succ left ih =>
      cases hfn : fn attempt with
      | none =>
          rw [retryFrom_success hfn]
          refine .single (iff_of_true rfl hfn) (Or.inr fun err herr => ?_)
          cases hfn.symm.trans herr
      | some err =>
          by_cases herr : isRetryableError err = true
          · rw [retryFrom_again hfn herr (hctx attempt)]
            exact (ih (attempt + 1)).cons hfn herr _
          · rw [retryFrom_fatal hfn herr]
            refine .single (iff_of_false nofun (by rw [hfn]; nofun)) (Or.inr fun e he => ?_)
            exact Option.some.inj (hfn.symm.trans he) ▸ herr

/-- A wrapped error of the database ends the call, whatever its code. -/
theorem executeWithRetry_of_wrapped (h : fn 0 = some err) (hwrapped : err.IsWrapped)
    {code : String} (hpq : err.root = .pq code) :
    ps.executeWithRetry ctxErr fn = ⟨some err, 1, []⟩ :=
  retryFrom_fatal h fun hretry => (isRetryableError_iff.mp hretry).2 ⟨hwrapped, code, hpq⟩

end

/-! ## The calls of the store -/

/-- The tables before attempt `n`, when attempt `m` is the transaction `tx m`. -/
def tablesBefore (tx : ℕ → TradeTables → StoreTx.Result) (db : TradeTables) : ℕ → TradeTables
  | 0 => db
  | n + 1 => (tx n (tablesBefore tx db n)).tables

/-- What attempt `n` returns. -/
def outcome (tx : ℕ → TradeTables → StoreTx.Result) (db : TradeTables) (n : ℕ) :
    Option ErrorChain :=
  (tx n (tablesBefore tx db n)).err

/-- `PersistTradeWithOrders`; attempt `n` meets the faults `faults n` and begins at `now n`. -/
def persistTradeWithOrders (ps : PostgresStore) (ctxErr : ℕ → Option ErrorChain)
    (faults : ℕ → Faults) (now : ℕ → Time) (db : TradeTables) (c : PersistCall) : Retried :=
  ps.executeWithRetry ctxErr
    (outcome (fun n db => StoreTx.persistTradeWithOrdersTx (faults n) db c (now n)) db)

def persistMultipleTrades (ps : PostgresStore) (ctxErr : ℕ → Option ErrorChain)
    (faults : ℕ → Faults) (range : ℕ → MapRange) (now : ℕ → Time) (db : TradeTables)
    (trades : List TradeRecord) (orderUpdates : List OrderUpdate) : Retried :=
  ps.executeWithRetry ctxErr
    (outcome (fun n db => StoreTx.persistMultipleTradesTx (faults n) (range n) db trades
      orderUpdates (now n)) db)

section

variable {ps : PostgresStore} {ctxErr : ℕ → Option ErrorChain} {faults : ℕ → Faults}
  {range : ℕ → MapRange} {now : ℕ → Time} {db : TradeTables} {err : ErrorChain} {code : String}

theorem persistTradeWithOrders_of_pq {c : PersistCall}
    (h : (StoreTx.persistTradeWithOrdersTx (faults 0) db c (now 0)).err = some err)
    (hpq : err.root = .pq code) :
    ps.persistTradeWithOrders ctxErr faults now db c = ⟨some err, 1, []⟩ :=
  executeWithRetry_of_wrapped h (StoreTx.persistTradeWithOrdersTx_wrapped h) hpq

theorem persistMultipleTrades_of_pq {trades : List TradeRecord} {orderUpdates : List OrderUpdate}
    (h : (StoreTx.persistMultipleTradesTx (faults 0) (range 0) db trades orderUpdates
      (now 0)).err = some err)
    (hpq : err.root = .pq code) :
    ps.persistMultipleTrades ctxErr faults range now db trades orderUpdates = ⟨some err, 1, []⟩ :=
  executeWithRetry_of_wrapped h (StoreTx.persistMultipleTradesTx_wrapped h) hpq

end

/-- Attempt `n` is the last of attempts that all ended in transient errors. -/
def TransientUpTo (fn : ℕ → Option ErrorChain) (n : ℕ) : Prop :=
  ∀ m ≤ n, ∃ err, fn m = some err ∧ err.root.Transient

/-- There are at most `maxRetries + 1` attempts. That a call succeeds if an attempt
does before any error that is not transient, and that it goes on after every
transient error, is the case exactly if none of the errors it goes on after is a
wrapped error of the database. -/
theorem transient_errors_retried_iff (ps : PostgresStore) {ctxErr fn : ℕ → Option ErrorChain}
    (hctx : ∀ n, ctxErr n = none) :
    (ps.executeWithRetry ctxErr fn).attempts ≤ ps.maxRetries + 1
      ∧ ((((ps.executeWithRetry ctxErr fn).err = none ↔ ∃ n ≤ ps.maxRetries, fn n = none
          ∧ ∀ m < n, ∀ err, fn m = some err → err.root.Transient)
        ∧ ∀ n < ps.maxRetries, n < (ps.executeWithRetry ctxErr fn).attempts →
          ∀ err, fn n = some err → err.root.Transient →
          n + 1 < (ps.executeWithRetry ctxErr fn).attempts) ↔
      ∀ n < ps.maxRetries, TransientUpTo fn n → ∀ err, fn n = some err →
        ¬(err.IsWrapped ∧ ∃ code, err.root = .pq code)) := by
  have h : Retries fn ps.maxRetries 0 (ps.executeWithRetry ctxErr fn) :=
    retryFrom_retries hctx ps.maxRetries 0
  have hsuccess := h.success
  have hagain := h.again
  have hreached := h.reached
  simp only [Nat.zero_add] at hsuccess hagain hreached
  refine ⟨h.attempts_le, fun hretried n hn hupTo err herr hwrapped => ?_, fun hbare => ⟨?_, ?_⟩⟩
  · -- the attempts up to `n` are made, and so is the one after it
    have hmade : ∀ m ≤ n, m < (ps.executeWithRetry ctxErr fn).attempts := by
      intro m hm
      induction m with
      | zero => exact h.attempts_pos
      | succ m ih =>
          obtain ⟨e, he, htransient⟩ := hupTo m (Nat.le_of_succ_le hm)
          exact hretried.2 m (hm.trans hn.le) (ih (Nat.le_of_succ_le hm)) e he htransient
    obtain ⟨e, he, htransient⟩ := hupTo n le_rfl
    obtain ⟨e', he', hretry⟩ :=
      hreached (n + 1) (hretried.2 n hn (hmade n le_rfl) e he htransient) n (Nat.lt_succ_self n)
    obtain rfl := Option.some.inj (herr.symm.trans he')
    exact (isRetryableError_iff.mp hretry).2 hwrapped
  · -- the first success comes after transient errors only
    refine hsuccess.trans ⟨fun ⟨n, hn, hnone, hbefore⟩ => ⟨n, hn, hnone, fun m hm err herr =>
      (isRetryableError_iff.mp (hbefore m hm err herr)).1⟩, fun ⟨n, hn, hnone, hbefore⟩ => ?_⟩
    have hex : ∃ n, fn n = none := ⟨n, hnone⟩
    have hle : Nat.find hex ≤ n := Nat.find_min' hex hnone
    have herrors : ∀ m < Nat.find hex, ∃ err, fn m = some err ∧ err.root.Transient := by
      intro m hm
      obtain ⟨err, herr⟩ := Option.ne_none_iff_exists'.mp (Nat.find_min hex hm)
      exact ⟨err, herr, hbefore m (hm.trans_le hle) err herr⟩
    refine ⟨Nat.find hex, hle.trans hn, Nat.find_spec hex, fun m hm err herr => ?_⟩
    refine isRetryableError_iff.mpr ⟨hbefore m (hm.trans_le hle) err herr, ?_⟩
    exact hbare m (hm.trans_le (hle.trans hn)) (fun k hk => herrors k (hk.trans_lt hm)) err herr
  · intro n hn hlt err herr htransient
    refine hagain n hn hlt err herr (isRetryableError_iff.mpr ⟨htransient, ?_⟩)
    refine hbare n hn (fun m hm => ?_) err herr
    rcases hm.eq_or_lt with rfl | hm
    · exact ⟨err, herr, htransient⟩
    · obtain ⟨e, he, hretry⟩ := hreached n hlt m hm
      exact ⟨e, he, (isRetryableError_iff.mp hretry).1⟩

/-- A deadlock of the database, unwrapped, and then success: the second attempt is made. -/
theorem transient_errors_retried_deadlock :
    let ps : PostgresStore := ⟨3, 100000000⟩
    let fn : ℕ → Option ErrorChain := fun n => if n = 0 then some (.cause (.pq "40P01")) else none
    (ps.executeWithRetry (fun _ => none) fn).err = none
      ∧ 1 < (ps.executeWithRetry (fun _ => none) fn).attempts := by
  intro ps fn
  have hbare : ∀ n < ps.maxRetries, TransientUpTo fn n → ∀ err, fn n = some err →
      ¬(err.IsWrapped ∧ ∃ code, err.root = .pq code) := by
    rintro n - - err herr ⟨⟨message, err', rfl⟩, -⟩
    dsimp only [fn] at herr
    split_ifs at herr
    cases herr
  obtain ⟨hsuccess, hagain⟩ := (transient_errors_retried_iff ps fun _ => rfl).2.mpr hbare
  refine ⟨hsuccess.mpr ⟨1, by decide, rfl, fun m hm err herr => ?_⟩,
    hagain 0 (by decide) (by decide) _ rfl (by decide)⟩
  obtain rfl := Nat.lt_one_iff.mp hm
  exact Option.some.inj herr ▸ (by decide : (RootCause.pq "40P01").Transient)

/-- The commit of the first attempt reports a serialization failure and the second
attempt would succeed, but there is none: the error was wrapped. -/
theorem serialization_failure_not_retried :
    let ps : PostgresStore := ⟨3, 100000000⟩
    let failure : ErrorChain := .cause (.pq "40001")
    let faults : ℕ → Faults := fun n =>
      if n = 0 then { Faults.none with commit := some failure } else .none
    ∀ range : ℕ → MapRange,
      let tx := fun n db => StoreTx.persistMultipleTradesTx (faults n) (range n) db [] [] 0
      outcome tx .empty 0 = some (.wrapped "failed to commit transaction" failure)
      ∧ failure.root.Transient ∧ outcome tx .empty 1 = none
      ∧ ps.persistMultipleTrades (fun _ => none) faults range (fun _ => 0) .empty [] [] =
        ⟨some (.wrapped "failed to commit transaction" failure), 1, []⟩ := by
  intro ps failure faults range tx
  have hrange : ∀ n, (range n).order (StoreTx.orderUpdateMap []) = [] := fun n =>
    (Multiset.coe_eq_zero _).mp ((range n).entries ∅)
  have hfirst : outcome tx .empty 0 = some (.wrapped "failed to commit transaction" failure) := by
    simp only [outcome, tx, StoreTx.persistMultipleTradesTx, hrange]
    rfl
  refine ⟨hfirst, by decide, ?_, persistMultipleTrades_of_pq hfirst rfl⟩
  simp only [outcome, tx, StoreTx.persistMultipleTradesTx, hrange]
  rfl

end PostgresStore

end TradingBackend
