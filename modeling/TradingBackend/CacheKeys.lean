import TradingBackend.Glob
import TradingBackend.StoreTransactions
import TradingBackend.TradesCache

/-!
# Keys of the cache

`DeletePattern` of `cache/redis.go`, and the methods of
`cache/trades_cache.go` and `cache/orderbook_cache.go` that delete keys:
`InvalidateTrades`, `InvalidateAllTrades`, `InvalidateOrderbook` and
`InvalidateAllOrderbooks`.

A key of `KeyBuilder` is its fields with colons between them. With no colon in a symbol
the fields can be told from the key (`colon_prefix_iff`), and a pattern
that ends in `*` selects the keys with the fields before it.

Redis matches bytes; for the literal text and the `*` of these patterns it
makes no difference to match characters.
-/

namespace TradingBackend.Cache

/-! ## Deleting keys -/

/-- What Redis holds. -/
abbrev Keyspace (V : Type) := String → Option V

def Keyspace.del {V : Type} (db : Keyspace V) (keys : List String) : Keyspace V :=
  fun key => if key ∈ keys then none else db key

structure ScanReply where
  keys : List String
  cursor : ℕ

/-- An error of `DEL`; the keys may be deleted all the same. -/
structure DelFault where
  err : ErrorChain
  deleted : Bool

/-- How Redis answers in one call of `DeletePattern`. -/
structure PatternReplies where
  scans : List (Except ErrorChain ScanReply)
  del : Option DelFault

section

variable {V : Type}

def Keyspace.delete (db : Keyspace V) (fault : Option DelFault) (keys : List String) :
    Keyspace V :=
  match fault with
  | none => db.del keys
  | some f => if f.deleted then db.del keys else db

/-- The loop over `SCAN`; `none` if it is still waiting for a reply. -/
def scanLoop (pattern : String) (keys : List String) :
    List (Except ErrorChain ScanReply) → Option (Except ErrorChain (List String))
  | [] => none
  | .error err :: _ =>
      some (.error (.wrapped ("failed to scan keys with pattern " ++ pattern) err))
  | .ok reply :: replies =>
      let keys := keys ++ reply.keys
      if reply.cursor = 0 then some (.ok keys) else scanLoop pattern keys replies

/-- `DeletePattern`: what it returns, and the keyspace afterwards. -/
def deletePattern (r : PatternReplies) (pattern : String) (db : Keyspace V) :
    Option (Option ErrorChain × Keyspace V) :=
  match scanLoop pattern [] r.scans with
  | none => none
  | some (.error err) => some (some err, db)
  | some (.ok keys) =>
      if keys.length > 0 then
        some (r.del.map fun f => .wrapped "failed to delete keys" f.err, db.delete r.del keys)
      else some (none, db)

/-- `if err := tc.redis.DeletePattern(pattern); err != nil` with the message
that is put in front. -/
def deletePatternOr (message : String) (r : PatternReplies) (pattern : String)
    (db : Keyspace V) : Option (Option ErrorChain × Keyspace V) :=
  (deletePattern r pattern db).map fun result => (result.1.map (.wrapped message), result.2)

def invalidateTrades (r : PatternReplies) (symbol : String) (db : Keyspace V) :
    Option (Option ErrorChain × Keyspace V) :=
  deletePatternOr ("failed to invalidate trades caches for " ++ symbol) r
    ("trading:trades:" ++ symbol ++ ":*") db

def invalidateAllTrades (r : PatternReplies) (db : Keyspace V) :
    Option (Option ErrorChain × Keyspace V) :=
  deletePatternOr "failed to invalidate all trades caches" r "trading:trades:*" db

/-- `InvalidateOrderbook`. An error is printed and passed over; it always
returns nil. -/
def invalidateOrderbook (faults : String → Option DelFault) (symbol : String)
    (db : Keyspace V) : Keyspace V :=
  [trading.orderbookKey symbol, trading.orderbookTopKey symbol].foldl
    (fun db key => db.delete (faults key) [key]) db

/-- The loop of `InvalidateAllOrderbooks`, with the replies to each call. -/
def invalidatePatterns : List (PatternReplies × String) → Keyspace V →
    Option (Option ErrorChain × Keyspace V)
  | [], db => some (none, db)
  | (r, pattern) :: rest, db =>
      match deletePatternOr "failed to invalidate orderbook caches" r pattern db with
      | some (none, db') => invalidatePatterns rest db'
      | result => result

def invalidateAllOrderbooks (r r' : PatternReplies) (db : Keyspace V) :
    Option (Option ErrorChain × Keyspace V) :=
  invalidatePatterns [(r, trading.orderbookKey "*"), (r', trading.orderbookTopKey "*")] db

end

/-! ## The fields of a key -/

/-- No colon and no special character of a pattern. -/
def Plain (symbol : String) : Prop := ∀ c ∈ symbol.toList, c ≠ ':' ∧ c ∉ Glob.special

theorem plain_of_all {symbol : String} (hcolon : ':' ∉ symbol.toList)
    (h : symbol.toList.all (fun c => !Glob.special.contains c) = true) : Plain symbol :=
  fun c hc => ⟨fun heq => hcolon (heq ▸ hc), Glob.not_special_of_all h c hc⟩

theorem Plain.colon {symbol : String} (h : Plain symbol) : ':' ∉ symbol.toList :=
  fun hmem => (h ':' hmem).1 rfl

theorem colon_prefix_iff {s s' d d' : List Char} (hs : ':' ∉ s) (hs' : ':' ∉ s') :
    s ++ ':' :: d <+: s' ++ ':' :: d' ↔ s = s' ∧ d <+: d' := by
  induction s generalizing s' with
  | nil =>
      cases s' with
      | nil => simp
      | cons c s' =>
          simp only [List.nil_append, List.cons_append, List.cons_prefix_cons, reduceCtorEq,
            false_and, iff_false, not_and]
          rintro rfl
          exact absurd List.mem_cons_self hs'
  | cons c s ih =>
      simp only [List.mem_cons, not_or] at hs
      cases s' with
      | nil =>
          simp only [List.nil_append, List.cons_append, List.cons_prefix_cons, reduceCtorEq,
            false_and, iff_false, not_and]
          rintro rfl
          exact absurd rfl hs.1
      | cons c' s' =>
          simp only [List.mem_cons, not_or] at hs'
          simp only [List.cons_append, List.cons_prefix_cons, List.cons.injEq, ih hs.2 hs'.2,
            and_assoc]

theorem colon_eq_iff {s s' d d' : List Char} (hs : ':' ∉ s) (hs' : ':' ∉ s') :
    s ++ ':' :: d = s' ++ ':' :: d' ↔ s = s' ∧ d = d' := by
  constructor
  · intro h
    obtain ⟨rfl, -⟩ := (colon_prefix_iff hs hs').mp ⟨[], by rw [List.append_nil, h]⟩
    exact ⟨rfl, by simpa using h⟩
  · rintro ⟨rfl, rfl⟩
    rfl

/-- What the methods of the builder are called with. -/
inductive CacheKey where
  | orderbook (symbol : String)
  | orderbookTop (symbol : String)
  | trades (symbol : String) (limit : Int)
  | tradesLatest (symbol : String)
  | stats (symbol metric : String)
deriving DecidableEq

namespace CacheKey

def text : CacheKey → String
  | .orderbook symbol => trading.orderbookKey symbol
  | .orderbookTop symbol => trading.orderbookTopKey symbol
  | .trades symbol limit => trading.tradesKey symbol limit
  | .tradesLatest symbol => trading.tradesLatestKey symbol
  | .stats symbol metric => trading.statsKey symbol metric

def symbol : CacheKey → String
  | .orderbook symbol => symbol
  | .orderbookTop symbol => symbol
  | .trades symbol _ => symbol
  | .tradesLatest symbol => symbol
  | .stats symbol _ => symbol

end CacheKey

/-- The field after the prefix. -/
inductive Kind where
  | orderbook
  | trades
  | stats
deriving DecidableEq

def Kind.text : Kind → List Char
  | .orderbook => "orderbook".toList
  | .trades => "trades".toList
  | .stats => "stats".toList

theorem Kind.colon_not_mem (kind : Kind) : ':' ∉ kind.text := by
  cases kind <;> decide +kernel

theorem Kind.not_special (kind : Kind) : ∀ c ∈ kind.text, c ∉ Glob.special := by
  cases kind <;> exact Glob.not_special_of_all (by decide +kernel)

theorem Kind.text_inj {kind kind' : Kind} : kind.text = kind'.text ↔ kind = kind' := by
  cases kind <;> cases kind' <;> decide +kernel

def topField : List Char := "top".toList

def latestField : List Char := "latest".toList

namespace CacheKey

def kind : CacheKey → Kind
  | .orderbook _ => .orderbook
  | .orderbookTop _ => .orderbook
  | .trades _ _ => .trades
  | .tradesLatest _ => .trades
  | .stats _ _ => .stats

/-- What follows the kind. -/
def rest : CacheKey → List Char
  | .orderbook symbol => symbol.toList
  | .orderbookTop symbol => topField ++ ':' :: symbol.toList
  | .trades symbol limit => symbol.toList ++ ':' :: (toString limit).toList
  | .tradesLatest symbol => symbol.toList ++ ':' :: latestField
  | .stats symbol metric => symbol.toList ++ ':' :: metric.toList

def start : List Char := "trading".toList

theorem toList_text (k : CacheKey) :
    k.text.toList = start ++ ':' :: (k.kind.text ++ ':' :: k.rest) := by
  have hstart : "trading".toList = start := rfl
  have hcolon : ":".toList = [':'] := by decide +kernel
  have horderbook : "orderbook:".toList = Kind.orderbook.text ++ [':'] := by decide +kernel
  have htop : "orderbook:top:".toList = Kind.orderbook.text ++ ':' :: (topField ++ [':']) := by
    decide +kernel
  have htrades : "trades:".toList = Kind.trades.text ++ [':'] := by decide +kernel
  have hlatest : ":latest".toList = ':' :: latestField := by decide +kernel
  have hstats : "stats:".toList = Kind.stats.text ++ [':'] := by decide +kernel
  cases k <;>
    simp only [text, kind, rest, KeyBuilder.orderbookKey, KeyBuilder.orderbookTopKey,
      KeyBuilder.tradesKey, KeyBuilder.tradesLatestKey, KeyBuilder.statsKey, trading_key,
      String.toList_append, hstart, hcolon, horderbook, htop, htrades, hlatest, hstats,
      List.append_assoc, List.cons_append, List.nil_append]

theorem colon_not_mem_start : ':' ∉ start := by decide +kernel

theorem start_not_special : ∀ c ∈ start, c ∉ Glob.special :=
  Glob.not_special_of_all (by decide +kernel)

theorem toString_ne_latest (limit : Int) : (toString limit).toList ≠ latestField := by
  have hhead : latestField.head? = some 'l' := by decide +kernel
  intro h
  cases limit with
  | ofNat n =>
      have hl : 'l' ∈ (toString n).toList := List.mem_of_head? (h ▸ hhead)
      exact absurd (isDigit_of_mem_toString hl) (by decide)
  | negSucc n =>
      rw [← h, toList_toString_negSucc, List.head?_cons] at hhead
      exact absurd hhead (by decide)

theorem text_eq_iff {k k' : CacheKey} :
    k.text = k'.text ↔ k.kind = k'.kind ∧ k.rest = k'.rest := by
  rw [← String.toList_inj, toList_text, toList_text,
    colon_eq_iff colon_not_mem_start colon_not_mem_start,
    colon_eq_iff k.kind.colon_not_mem k'.kind.colon_not_mem, Kind.text_inj]
  exact and_iff_right rfl

theorem text_inj {k k' : CacheKey} (hk : Plain k.symbol) (hk' : Plain k'.symbol) :
    k.text = k'.text ↔ k = k' := by
  refine ⟨fun h => ?_, congrArg text⟩
  obtain ⟨hkind, hrest⟩ := text_eq_iff.mp h
  cases k <;> cases k' <;> simp only [kind, reduceCtorEq] at hkind
  all_goals simp only [symbol, rest] at hk hk' hrest
  case orderbook.orderbook => rw [String.toList_injective hrest]
  case orderbook.orderbookTop =>
      exact absurd (hrest ▸ List.mem_append_right _ List.mem_cons_self) hk.colon
  case orderbookTop.orderbook =>
      exact absurd (hrest ▸ List.mem_append_right _ List.mem_cons_self) hk'.colon
  case orderbookTop.orderbookTop =>
      rw [String.toList_injective (List.cons.inj (List.append_cancel_left hrest)).2]
  -- in the other kinds the symbol is the first field
  all_goals
    rw [colon_eq_iff hk.colon hk'.colon] at hrest
    obtain ⟨hsymbol, hlast⟩ := hrest
    obtain rfl := String.toList_injective hsymbol
  case trades.trades => rw [toString_int_inj hlast]
  case trades.tradesLatest => exact absurd hlast (toString_ne_latest _)
  case tradesLatest.trades => exact absurd hlast.symm (toString_ne_latest _)
  case tradesLatest.tradesLatest => rfl
  case stats.stats => rw [String.toList_injective hlast]

/-- A pattern that gives the kind and how the rest begins. -/
theorem globMatch_text {pattern : String} (opening : String) (kind : Kind) (d : List Char)
    (hpattern : pattern = opening ++ "*")
    (hopening : opening.toList = start ++ ':' :: (kind.text ++ ':' :: d))
    (hd : ∀ c ∈ d, c ∉ Glob.special) (k : CacheKey) :
    Glob.globMatch pattern k.text = true ↔ kind = k.kind ∧ d <+: k.rest := by
  have hcolon : ':' ∉ Glob.special := by decide
  have hliteral : ∀ c ∈ opening.toList, c ∉ Glob.special := by
    intro c hc
    rw [hopening] at hc
    simp only [List.mem_append, List.mem_cons] at hc
    rcases hc with hc | rfl | hc | rfl | hc
    · exact start_not_special c hc
    · exact hcolon
    · exact kind.not_special c hc
    · exact hcolon
    · exact hd c hc
  rw [hpattern, Glob.globMatch_literal_star hliteral, hopening, toList_text,
    colon_prefix_iff colon_not_mem_start colon_not_mem_start,
    colon_prefix_iff kind.colon_not_mem k.kind.colon_not_mem, Kind.text_inj]
  exact and_iff_right rfl

def isTradesOf (symbol : String) : CacheKey → Bool
  | .trades symbol' _ => symbol' == symbol
  | .tradesLatest symbol' => symbol' == symbol
  | _ => false

def isOrderbookOf (symbol : String) : CacheKey → Bool
  | .orderbook symbol' => symbol' == symbol
  | .orderbookTop symbol' => symbol' == symbol
  | _ => false

theorem globMatch_tradesOf {symbol : String} (hsymbol : Plain symbol) {k : CacheKey}
    (hk : Plain k.symbol) :
    Glob.globMatch ("trading:trades:" ++ symbol ++ ":*") k.text = k.isTradesOf symbol := by
  have hpattern : "trading:trades:" ++ symbol ++ ":*"
      = "trading:trades:" ++ symbol ++ ":" ++ "*" := by
    have hend : ":*" = ":" ++ "*" := by decide +kernel
    rw [hend]
    simp only [String.append_assoc]
  have hopening : ("trading:trades:" ++ symbol ++ ":").toList
      = start ++ ':' :: (Kind.trades.text ++ ':' :: (symbol.toList ++ [':'])) := by
    have hbegin : "trading:trades:".toList = start ++ ':' :: (Kind.trades.text ++ [':']) := by
      decide +kernel
    have hcolon : ":".toList = [':'] := by decide +kernel
    simp only [String.toList_append, hbegin, hcolon, List.append_assoc, List.cons_append,
      List.nil_append]
  have hliteral : ∀ c ∈ symbol.toList ++ [':'], c ∉ Glob.special := by
    intro c hc
    rcases List.mem_append.mp hc with hc | hc
    · exact (hsymbol c hc).2
    · rw [List.mem_singleton.mp hc]
      decide
  rw [Bool.eq_iff_iff, globMatch_text _ .trades _ hpattern hopening hliteral]
  have hrest {symbol' : String} (h : Plain symbol') (d : List Char) :
      symbol.toList ++ [':'] <+: symbol'.toList ++ ':' :: d ↔ (symbol' == symbol) = true := by
    rw [colon_prefix_iff hsymbol.colon h.colon, beq_iff_eq, String.toList_inj, eq_comm]
    simp
  cases k with
  | orderbook _ => simp [kind, isTradesOf]
  | orderbookTop _ => simp [kind, isTradesOf]
  | trades _ _ => exact (and_iff_right rfl).trans (hrest hk _)
  | tradesLatest _ => exact (and_iff_right rfl).trans (hrest hk _)
  | stats _ _ => simp [kind, isTradesOf]

theorem globMatch_kind {pattern : String} (opening : String) {kind : Kind}
    (hpattern : pattern = opening ++ "*")
    (hopening : opening.toList = start ++ ':' :: (kind.text ++ [':'])) (k : CacheKey) :
    Glob.globMatch pattern k.text = decide (k.kind = kind) := by
  rw [Bool.eq_iff_iff, globMatch_text opening kind [] hpattern hopening (List.forall_mem_nil _),
    eq_comm]
  simp

theorem globMatch_trades (k : CacheKey) :
    Glob.globMatch "trading:trades:*" k.text = decide (k.kind = .trades) :=
  globMatch_kind "trading:trades:" (by decide +kernel) (by decide +kernel) k

theorem globMatch_orderbook (k : CacheKey) :
    Glob.globMatch (trading.orderbookKey "*") k.text = decide (k.kind = .orderbook) :=
  globMatch_kind "trading:orderbook:" (by decide +kernel) (by decide +kernel) k

/-- The keys of the top of the book are among them. -/
theorem kind_of_globMatch_top {k : CacheKey}
    (h : Glob.globMatch (trading.orderbookTopKey "*") k.text = true) : k.kind = .orderbook := by
  have hpattern : trading.orderbookTopKey "*" = "trading:orderbook:top:" ++ "*" := by
    decide +kernel
  have hmatch := globMatch_text _ .orderbook (topField ++ [':']) hpattern (by decide +kernel)
    (Glob.not_special_of_all (by decide +kernel)) k
  exact (hmatch.mp h).1.symm

end CacheKey

/-! ## Exact deletion -/

section

variable {V : Type} {db : Keyspace V} {r : PatternReplies} {pattern : String}

@[simp] theorem Keyspace.del_nil : db.del [] = db := by
  funext key
  simp [Keyspace.del]

def Keyspace.without (db : Keyspace V) (pattern : String) : Keyspace V :=
  fun key => if Glob.globMatch pattern key then none else db key

/-- Nothing fails, and `SCAN` returns the keys that match the pattern, some
of them perhaps more than once, before its cursor is 0 again. -/
structure PatternReplies.Complete (r : PatternReplies) (db : Keyspace V) (pattern : String) :
    Prop where
  scans : ∃ before last, r.scans = before.map .ok ++ [.ok last]
    ∧ (∀ reply ∈ before, reply.cursor ≠ 0) ∧ last.cursor = 0
    ∧ ∀ key, (∃ reply ∈ before ++ [last], key ∈ reply.keys)
        ↔ (db key).isSome ∧ Glob.globMatch pattern key
  del : r.del = none

theorem PatternReplies.complete_of_keys {keys : List String}
    (h : ∀ key, (db key).isSome = true ↔ key ∈ keys) (pattern : String) :
    (PatternReplies.mk [.ok ⟨keys.filter (Glob.globMatch pattern), 0⟩] none).Complete db
      pattern := by
  refine ⟨⟨[], _, rfl, List.forall_mem_nil _, rfl, fun key => ?_⟩, rfl⟩
  simp [h]

theorem scanLoop_complete {before : List ScanReply} {last : ScanReply}
    (hbefore : ∀ reply ∈ before, reply.cursor ≠ 0) (hlast : last.cursor = 0)
    (keys : List String) :
    scanLoop pattern keys (before.map .ok ++ [.ok last])
      = some (.ok (keys ++ (before ++ [last]).flatMap ScanReply.keys)) := by
  induction before generalizing keys with
  | nil => simp [scanLoop, hlast]
  | cons reply before ih =>
      rw [List.map_cons, List.cons_append, scanLoop,
        if_neg (hbefore reply List.mem_cons_self),
        ih (fun reply' h => hbefore reply' (List.mem_cons_of_mem _ h))]
      simp

theorem deletePattern_of_complete (h : r.Complete db pattern) :
    deletePattern r pattern db = some (none, db.without pattern) := by
  obtain ⟨before, last, hscans, hbefore, hlast, hkeys⟩ := h.scans
  rw [deletePattern, hscans, scanLoop_complete hbefore hlast, List.nil_append]
  have hdel (keys : List String)
      (hkeys : ∀ key, key ∈ keys ↔ (db key).isSome ∧ Glob.globMatch pattern key) :
      db.del keys = db.without pattern := by
    funext key
    simp only [Keyspace.del, Keyspace.without, hkeys]
    cases hkey : db key with
    | none => simp
    | some v => simp
  have hmem (key : String) : key ∈ (before ++ [last]).flatMap ScanReply.keys
      ↔ (db key).isSome ∧ Glob.globMatch pattern key := by
    rw [List.mem_flatMap, hkeys]
  generalize (before ++ [last]).flatMap ScanReply.keys = keys at hmem
  rw [← hdel keys hmem]
  simp only [h.del, Keyspace.delete]
  split
  · rfl
  · next hnil =>
      have hempty : keys = [] := List.length_eq_zero_iff.mp (by omega)
      rw [hempty, Keyspace.del_nil]

/-- Of the keys of plain symbols, those that `p` says are deleted and the
others are as they were. -/
def Deletes (db db' : Keyspace V) (p : CacheKey → Bool) : Prop :=
  ∀ k, Plain k.symbol → db' k.text = if p k then none else db k.text

theorem deletes_without {p : CacheKey → Bool}
    (h : ∀ k, Plain k.symbol → Glob.globMatch pattern k.text = p k) :
    Deletes db (db.without pattern) p := by
  intro k hk
  rw [Keyspace.without, h k hk]

theorem deletePatternOr_of_complete (h : r.Complete db pattern) (message : String) :
    deletePatternOr message r pattern db = some (none, db.without pattern) := by
  rw [deletePatternOr, deletePattern_of_complete h]
  rfl

theorem invalidateOrderbook_deletes {symbol : String} (hsymbol : Plain symbol)
    (db : Keyspace V) :
    Deletes db (invalidateOrderbook (fun _ => none) symbol db)
      (CacheKey.isOrderbookOf symbol) := by
  intro k hk
  have hbook : k.text = trading.orderbookKey symbol ↔ k = .orderbook symbol :=
    CacheKey.text_inj hk (show Plain (CacheKey.orderbook symbol).symbol from hsymbol)
  have htop : k.text = trading.orderbookTopKey symbol ↔ k = .orderbookTop symbol :=
    CacheKey.text_inj hk (show Plain (CacheKey.orderbookTop symbol).symbol from hsymbol)
  simp only [invalidateOrderbook, List.foldl_cons, List.foldl_nil, Keyspace.delete, Keyspace.del,
    List.mem_singleton, hbook, htop]
  cases k with
  | orderbook symbol' => simp [CacheKey.isOrderbookOf]
  | orderbookTop symbol' => simp [CacheKey.isOrderbookOf]
  | trades symbol' limit => simp [CacheKey.isOrderbookOf]
  | tradesLatest symbol' => simp [CacheKey.isOrderbookOf]
  | stats symbol' metric => simp [CacheKey.isOrderbookOf]

theorem invalidateAllOrderbooks_deletes {r r' : PatternReplies}
    (h : r.Complete db (trading.orderbookKey "*"))
    (h' : r'.Complete (db.without (trading.orderbookKey "*")) (trading.orderbookTopKey "*")) :
    ∃ db', invalidateAllOrderbooks r r' db = some (none, db')
      ∧ Deletes db db' fun k => k.kind = .orderbook := by
  refine ⟨(db.without (trading.orderbookKey "*")).without (trading.orderbookTopKey "*"), ?_, ?_⟩
  · simp only [invalidateAllOrderbooks, invalidatePatterns, deletePatternOr_of_complete h,
      deletePatternOr_of_complete h']
  · intro k hk
    simp only [Keyspace.without, CacheKey.globMatch_orderbook]
    by_cases htop : Glob.globMatch (trading.orderbookTopKey "*") k.text = true
    · rw [if_pos htop, if_pos (by simpa using CacheKey.kind_of_globMatch_top htop)]
    · rw [if_neg htop]

/-- Keys of plain symbols are different for different kinds and arguments,
and the methods delete the keys they are for and no others. -/
theorem keys_distinct_and_deleted_exactly :
    (∀ k k' : CacheKey, Plain k.symbol → Plain k'.symbol → k.text = k'.text → k = k')
    ∧ ∀ db : Keyspace V,
      (∀ symbol r, Plain symbol → r.Complete db ("trading:trades:" ++ symbol ++ ":*") →
        ∃ db', invalidateTrades r symbol db = some (none, db')
          ∧ Deletes db db' (CacheKey.isTradesOf symbol))
      ∧ (∀ symbol, Plain symbol →
          Deletes db (invalidateOrderbook (fun _ => none) symbol db)
            (CacheKey.isOrderbookOf symbol))
      ∧ (∀ r r', r.Complete db (trading.orderbookKey "*") →
          r'.Complete (db.without (trading.orderbookKey "*")) (trading.orderbookTopKey "*") →
          ∃ db', invalidateAllOrderbooks r r' db = some (none, db')
            ∧ Deletes db db' fun k => k.kind = .orderbook)
      ∧ ∀ r, r.Complete db "trading:trades:*" →
          ∃ db', invalidateAllTrades r db = some (none, db')
            ∧ Deletes db db' fun k => k.kind = .trades := by
  refine ⟨fun k k' hk hk' => (CacheKey.text_inj hk hk').mp, fun db => ⟨?_, ?_, ?_, ?_⟩⟩
  · intro symbol r hsymbol h
    exact ⟨_, deletePatternOr_of_complete h _,
      deletes_without fun k hk => CacheKey.globMatch_tradesOf hsymbol hk⟩
  · intro symbol hsymbol
    exact invalidateOrderbook_deletes hsymbol db
  · intro r r' h h'
    exact invalidateAllOrderbooks_deletes h h'
  · intro r h
    exact ⟨_, deletePatternOr_of_complete h _,
      deletes_without fun k _ => CacheKey.globMatch_trades k⟩

end

/-- Keys of two symbols, one of which begins with the other. -/
def twoSymbols : List CacheKey :=
  [.trades "BTC" 5, .trades "BTC-USD" 5, .tradesLatest "BTC", .orderbook "BTC"]

theorem invalidateTrades_twoSymbols :
    let keys := twoSymbols.map CacheKey.text
    let db : Keyspace Unit := fun key => if key ∈ keys then some () else none
    let r : PatternReplies :=
      ⟨[.ok ⟨keys.filter (Glob.globMatch ("trading:trades:" ++ "BTC" ++ ":*")), 0⟩], none⟩
    ∃ db', invalidateTrades r "BTC" db = some (none, db')
      ∧ db' (CacheKey.tradesLatest "BTC").text = none
      ∧ db' (CacheKey.trades "BTC-USD" 5).text = some () := by
  intro keys db r
  have hBTC : Plain "BTC" := plain_of_all (by decide +kernel) (by decide +kernel)
  have hBTCUSD : Plain "BTC-USD" := plain_of_all (by decide +kernel) (by decide +kernel)
  have hdb (key : String) : (db key).isSome = true ↔ key ∈ keys := by
    by_cases h : key ∈ keys
    · simp [db, h]
    · simp [db, h]
  obtain ⟨-, hdeleted⟩ := keys_distinct_and_deleted_exactly (V := Unit)
  obtain ⟨db', hresult, hdeletes⟩ :=
    (hdeleted db).1 "BTC" r hBTC (PatternReplies.complete_of_keys hdb _)
  refine ⟨db', hresult, ?_, ?_⟩
  · rw [hdeletes (.tradesLatest "BTC") hBTC, if_pos (by simp [CacheKey.isTradesOf])]
  · rw [hdeletes (.trades "BTC-USD" 5) hBTCUSD, if_neg (by decide +kernel)]
    exact if_pos (by simp [keys, twoSymbols])

end TradingBackend.Cache
