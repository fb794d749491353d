import TradingBackend.GoStrings
import TradingBackend.Goroutines
import TradingBackend.ReadModifyWrite

/-!
# The cache of recent trades

`cache/trades_cache.go`: `AppendTrade` puts a trade in front of the lists
that Redis holds for its symbol, one for every limit. For each limit it gets
the list, changes it and sets it; the two commands are atomic, what they make
up is not. Processes run `AppendTrade` side by side.

For every key the cache is a `Cell` (`Cached`). So the trades of one key
survive exactly if no call gets its list while another one has got and not
yet set it (`append_lossless_iff`). The keys are those of `KeyBuilder` of
`cache/redis.go`.

A list comes back from Redis as it was set. Commands do not fail, nothing
expires, and limits are not negative (a negative one panics). Left out: the
other methods of `TradesCache`, and `OrderKey`, `LockKey` and
`PubSubChannel`.
-/

namespace TradingBackend.Cache

/-! ## Keys -/

structure KeyBuilder where
  keyPrefix : String

def newKeyBuilder (keyPrefix : String) : KeyBuilder := ⟨keyPrefix⟩

namespace KeyBuilder

/-- The two branches of every method: the key with the prefix and a colon
before it, or without. -/
def key (kb : KeyBuilder) (rest : String) : String :=
  if kb.keyPrefix ≠ "" then kb.keyPrefix ++ (":" ++ rest) else rest

def orderbookKey (kb : KeyBuilder) (symbol : String) : String := kb.key ("orderbook:" ++ symbol)

def orderbookTopKey (kb : KeyBuilder) (symbol : String) : String :=
  kb.key ("orderbook:top:" ++ symbol)

def tradesKey (kb : KeyBuilder) (symbol : String) (limit : Int) : String :=
  kb.key ("trades:" ++ (symbol ++ (":" ++ toString limit)))

def tradesLatestKey (kb : KeyBuilder) (symbol : String) : String :=
  kb.key ("trades:" ++ (symbol ++ ":latest"))

def statsKey (kb : KeyBuilder) (symbol metric : String) : String :=
  kb.key ("stats:" ++ (symbol ++ (":" ++ metric)))

end KeyBuilder

/-- The key builder of the caches. -/
def trading : KeyBuilder := newKeyBuilder "trading"

theorem trading_key (rest : String) : trading.key rest = "trading" ++ (":" ++ rest) :=
  if_pos (by decide +kernel : "trading" ≠ "")

/-! ## Appending a trade -/

structure Trade where
  tradeID : UUID
  symbol : String
  buyOrderID : UUID
  sellOrderID : UUID
  price : Decimal
  quantity : Decimal
  timestamp : Time
  side : String
deriving DecidableEq

structure TradesList where
  symbol : String
  trades : List Trade
  count : Nat
  timestamp : Time
deriving DecidableEq

/-- What `AppendTrade` makes of a list it has got; on a cache miss it makes
a new one. -/
def prepend (trade : Trade) (limit : Nat) (cached : Option TradesList) (now : Time) : TradesList :=
  let tradesList := cached.getD ⟨trade.symbol, [], 0, 0⟩
  let trades := trade :: tradesList.trades
  let trades := if limit < trades.length then trades.take limit else trades
  { tradesList with trades := trades, count := trades.length, timestamp := now }

/-- Where a process is in `AppendTrade`. -/
inductive AppendRole where
  | absent
  /-- At the head of the loop, with the limits that are left. -/
  | looping (trade : Trade) (limits : List Nat)
  /-- Between the two commands. -/
  | setting (trade : Trade) (limit : Nat) (tradesList : TradesList) (rest : List Nat)

/-- `TradesCache`: the lists in Redis, and the processes. -/
structure TradesCache where
  redis : String → Option TradesList
  roles : GoID → AppendRole

inductive AppendEvent where
  | call (p : GoID) (trade : Trade) (limits : List Nat)
  | get (p : GoID) (trade : Trade) (limit : Nat) (now : Time)
  | set (p : GoID) (trade : Trade) (limit : Nat)
  | returned (p : GoID)
deriving DecidableEq

namespace TradesCache

def new : TradesCache := ⟨fun _ => none, fun _ => .absent⟩

def move (s : TradesCache) (p : GoID) (role : AppendRole) : TradesCache :=
  { s with roles := Function.update s.roles p role }

/-- The command `SET`. -/
def put (s : TradesCache) (key : String) (tradesList : TradesList) : TradesCache :=
  { s with redis := Function.update s.redis key (some tradesList) }

/-- `AppendTrade`, command by command. -/
inductive Step (s : TradesCache) : AppendEvent → TradesCache → Prop where
  | call {p trade limits} (h : s.roles p = .absent) :
      Step s (.call p trade limits) (s.move p (.looping trade limits))
  | get {p trade limit rest now} (h : s.roles p = .looping trade (limit :: rest)) :
      Step s (.get p trade limit now) (s.move p (.setting trade limit
        (prepend trade limit (s.redis (trading.tradesKey trade.symbol limit)) now) rest))
  | set {p trade limit tradesList rest} (h : s.roles p = .setting trade limit tradesList rest) :
      Step s (.set p trade limit)
        ((s.put (trading.tradesKey trade.symbol limit) tradesList).move p (.looping trade rest))
  | returned {p trade} (h : s.roles p = .looping trade []) :
      Step s (.returned p) (s.move p .absent)

end TradesCache

/-! ## Keys -/

theorem colon_not_mem_toString (n : Nat) : ':' ∉ (toString n).toList := fun h =>
  absurd (isDigit_of_mem_toString h) (by decide)

theorem eq_of_append_colon {s s' d d' : List Char} (hd : ':' ∉ d) (hd' : ':' ∉ d')
    (h : s ++ ':' :: d = s' ++ ':' :: d') : s = s' ∧ d = d' := by
  rcases List.append_eq_append_iff.mp h with ⟨l, rfl, hl⟩ | ⟨l, rfl, hl⟩
  · cases l with
    | nil => simpa using hl
    | cons c l =>
        refine absurd ?_ hd
        rw [(List.cons.inj hl).2]
        simp
  · cases l with
    | nil => simpa using hl.symm
    | cons c l =>
        refine absurd ?_ hd'
        rw [(List.cons.inj hl).2]
        simp

theorem tradesKey_inj {symbol symbol' : String} {limit limit' : Nat} :
    trading.tradesKey symbol limit = trading.tradesKey symbol' limit'
      ↔ symbol = symbol' ∧ limit = limit' := by
  refine ⟨fun h => ?_, fun ⟨hs, hl⟩ => by rw [hs, hl]⟩
  simp only [KeyBuilder.tradesKey, trading_key, String.append_right_inj] at h
  have hlist : symbol.toList ++ ':' :: (toString limit).toList
      = symbol'.toList ++ ':' :: (toString limit').toList := by
    have hcolon : ":".toList = [':'] := rfl
    have hlist := congrArg String.toList h
    rwa [String.toList_append, String.toList_append, String.toList_append,
      String.toList_append, hcolon, List.singleton_append, List.singleton_append] at hlist
  obtain ⟨hs, hl⟩ := eq_of_append_colon (colon_not_mem_toString limit)
    (colon_not_mem_toString limit') hlist
  exact ⟨String.toList_injective hs, toString_inj hl⟩

/-! ## One key -/

section

variable (symbol : String) (limit : Nat)

/-- The trade and the list that a process is about to set for a key. -/
def AppendRole.toSet : AppendRole → Option (Trade × List Trade)
  | .setting trade limit' tradesList _ =>
      if trade.symbol = symbol ∧ limit' = limit then some (trade, tradesList.trades) else none
  | .absent => none
  | .looping _ _ => none

/-- The trades that a process has still to set for a key. -/
def AppendRole.todo : AppendRole → List Trade
  | .absent => []
  | .looping trade limits =>
      if trade.symbol = symbol then List.replicate (limits.count limit) trade else []
  | .setting trade limit' _ rest =>
      if trade.symbol = symbol then List.replicate ((limit' :: rest).count limit) trade else []

/-- The trades that calls append to a key: once for every time the limit is
in their list. -/
def AppendEvent.appended : AppendEvent → List (GoID × Trade)
  | .call p trade limits =>
      if trade.symbol = symbol then List.replicate (limits.count limit) (p, trade) else []
  | _ => []

def AppendEvent.written : AppendEvent → List (GoID × Trade)
  | .set p trade limit' => if trade.symbol = symbol ∧ limit' = limit then [(p, trade)] else []
  | _ => []

namespace TradesCache

def cached (s : TradesCache) : List Trade :=
  (s.redis (trading.tradesKey symbol limit)).elim [] TradesList.trades

/-- The cache as far as one key is concerned. -/
def cell (s : TradesCache) : Cell GoID Trade :=
  ⟨s.cached symbol limit, fun p => (s.roles p).toSet symbol limit⟩

/-- A call gets the list of the key only when no other one has got and not
yet set it. -/
def Alone (s : TradesCache) : AppendEvent → Prop
  | .get _ trade limit' _ =>
      trade.symbol = symbol → limit' = limit → (s.cell symbol limit).Quiet
  | _ => True

end TradesCache

end

theorem trades_prepend (trade : Trade) (limit : Nat) (cached : Option TradesList) (now : Time) :
    (prepend trade limit cached now).trades
      = (trade :: cached.elim [] TradesList.trades).take limit := by
  have hcached : (cached.getD ⟨trade.symbol, [], 0, 0⟩).trades
      = cached.elim [] TradesList.trades := by
    cases cached <;> rfl
  unfold prepend
  dsimp only
  rw [hcached]
  split_ifs with h
  · rfl
  · exact (List.take_of_length_le (not_lt.mp h)).symm

namespace TradesCache

variable {symbol : String} {limit : Nat} {s s' : TradesCache} {e : AppendEvent}
  {es : List AppendEvent} {p : GoID} {role : AppendRole}

theorem cell_move (s : TradesCache) (p : GoID) (role : AppendRole) :
    (s.move p role).cell symbol limit = ⟨s.cached symbol limit,
      Function.update (s.cell symbol limit).pend p (role.toSet symbol limit)⟩ := by
  unfold cell
  congr 1
  funext q
  exact Function.apply_update (fun _ role => role.toSet symbol limit) s.roles p role q

theorem cell_move_of_eq (h : role.toSet symbol limit = (s.roles p).toSet symbol limit) :
    (s.move p role).cell symbol limit = s.cell symbol limit := by
  rw [cell_move, h]
  exact congrArg (Cell.mk _) (Function.update_eq_self p (s.cell symbol limit).pend)

theorem put_self {key : String} {tradesList : TradesList} :
    (s.put key tradesList).redis key = some tradesList := Function.update_self ..

theorem put_of_ne {key key' : String} {tradesList : TradesList} (h : key' ≠ key) :
    (s.put key tradesList).redis key' = s.redis key' := Function.update_of_ne h ..

theorem cached_put_self (s : TradesCache) (tradesList : TradesList) :
    (s.put (trading.tradesKey symbol limit) tradesList).cached symbol limit =
      tradesList.trades := by
  rw [cached, put_self, Option.elim_some]

theorem cached_put_of_ne {symbol' : String} {limit' : Nat} (tradesList : TradesList)
    (h : ¬(symbol' = symbol ∧ limit' = limit)) :
    (s.put (trading.tradesKey symbol' limit') tradesList).cached symbol limit =
      s.cached symbol limit := by
  have hne : trading.tradesKey symbol limit ≠ trading.tradesKey symbol' limit' := fun heq =>
    h ⟨(tradesKey_inj.mp heq).1.symm, (tradesKey_inj.mp heq).2.symm⟩
  rw [cached, put_of_ne hne, cached]

/-- What a step does to the cell of a key. -/
inductive Touched (symbol : String) (limit : Nat) (s : TradesCache) :
    AppendEvent → TradesCache → Prop where
  | other {e : AppendEvent} {s' : TradesCache}
      (hcell : s'.cell symbol limit = s.cell symbol limit)
      (hwritten : e.written symbol limit = []) (halone : s.Alone symbol limit e) :
      Touched symbol limit s e s'
  | get {p : GoID} {trade : Trade} {now : Time} {s' : TradesCache} (hsymbol : trade.symbol = symbol)
      (hp : (s.cell symbol limit).pend p = none)
      (hcell : s'.cell symbol limit = (s.cell symbol limit).read limit p trade) :
      Touched symbol limit s (.get p trade limit now) s'
  | set {p : GoID} {trade : Trade} {xs : List Trade} {s' : TradesCache}
      (hsymbol : trade.symbol = symbol)
      (hp : (s.cell symbol limit).pend p = some (trade, xs))
      (hcell : s'.cell symbol limit = (s.cell symbol limit).write p xs) :
      Touched symbol limit s (.set p trade limit) s'

theorem Step.touched (h : Step s e s') (symbol : String) (limit : Nat) :
    Touched symbol limit s e s' := by
  cases h with
  | call h => exact .other (cell_move_of_eq (by rw [h]; rfl)) rfl trivial
  | returned h => exact .other (cell_move_of_eq (by rw [h]; rfl)) rfl trivial
  | @get p trade limit' rest now h =>
      have hnone : (s.roles p).toSet symbol limit = none := by rw [h]; rfl
      by_cases hkey : trade.symbol = symbol ∧ limit' = limit
      · obtain ⟨rfl, rfl⟩ := hkey
        refine .get rfl hnone ?_
        rw [cell_move, AppendRole.toSet, if_pos ⟨rfl, rfl⟩, trades_prepend]
        rfl
      · refine .other (cell_move_of_eq ?_) rfl fun hs hl => absurd ⟨hs, hl⟩ hkey
        rw [hnone]
        exact if_neg hkey
  | @set p trade limit' tradesList rest h =>
      by_cases hkey : trade.symbol = symbol ∧ limit' = limit
      · obtain ⟨rfl, rfl⟩ := hkey
        have hset : (s.roles p).toSet trade.symbol limit' = some (trade, tradesList.trades) := by
          rw [h]
          exact if_pos ⟨rfl, rfl⟩
        refine .set rfl hset ?_
        rw [cell_move, cached_put_self]
        rfl
      · have hnone : (s.roles p).toSet symbol limit = none := by
          rw [h]
          exact if_neg hkey
        refine .other ?_ (if_neg hkey) trivial
        rw [cell_move, cached_put_of_ne tradesList hkey]
        exact congrArg (Cell.mk _) (Function.update_eq_self_iff.mpr hnone.symm)

theorem written_set {trade : Trade} (h : trade.symbol = symbol) (p : GoID) :
    (AppendEvent.set p trade limit).written symbol limit = [(p, trade)] := if_pos ⟨h, rfl⟩

theorem flatMap_snoc {β : Type} (f : AppendEvent → List β) (es : List AppendEvent)
    (e : AppendEvent) : (es ++ [e]).flatMap f = es.flatMap f ++ f e := by
  rw [List.flatMap_append, List.flatMap_singleton]

/-! ## What is set and what is appended -/

/-- What a process appends it sets, or has still to set. -/
def Accounted (symbol : String) (limit : Nat) (es : List AppendEvent) (s : TradesCache) : Prop :=
  ∀ p, (es.flatMap (AppendEvent.appended symbol limit)).filter (·.1 = p)
    = (es.flatMap (AppendEvent.written symbol limit)).filter (·.1 = p)
      ++ ((s.roles p).todo symbol limit).map (p, ·)

theorem move_self : (s.move p role).roles p = role := Function.update_self ..

theorem move_of_ne {q : GoID} (h : q ≠ p) : (s.move p role).roles q = s.roles q :=
  Function.update_of_ne h ..

theorem Accounted.move (h : Accounted symbol limit es s) (xs ys : List Trade)
    (happended : e.appended symbol limit = xs.map (p, ·))
    (hwritten : e.written symbol limit = ys.map (p, ·))
    (hroles : ∀ q, q ≠ p → s'.roles q = s.roles q)
    (htodo : (s.roles p).todo symbol limit ++ xs = ys ++ (s'.roles p).todo symbol limit) :
    Accounted symbol limit (es ++ [e]) s' := by
  intro q
  rw [flatMap_snoc, flatMap_snoc, List.filter_append, List.filter_append, h q, happended, hwritten]
  by_cases hq : q = p
  · subst hq
    have hown : ∀ zs : List Trade, (zs.map (q, ·)).filter (·.1 = q) = zs.map (q, ·) := fun zs =>
      List.filter_eq_self.mpr (by simp)
    rw [hown, hown, List.append_assoc, List.append_assoc, ← List.map_append, htodo, List.map_append]
  · have hother : ∀ zs : List Trade, (zs.map (p, ·)).filter (·.1 = q) = [] := fun zs =>
      List.filter_eq_nil_iff.mpr (by simp [Ne.symm hq])
    rw [hother, hother, List.append_nil, List.append_nil, hroles q hq]

theorem todo_setting (trade : Trade) (limit' : Nat) (tradesList : TradesList) (rest : List Nat) :
    (AppendRole.setting trade limit' tradesList rest).todo symbol limit
      = (if trade.symbol = symbol ∧ limit' = limit then [trade] else [])
        ++ (AppendRole.looping trade rest).todo symbol limit := by
  unfold AppendRole.todo
  by_cases hsymbol : trade.symbol = symbol
  · by_cases hlimit : limit' = limit
    · simp [hsymbol, hlimit, List.replicate_succ]
    · simp [hsymbol, hlimit, List.count_cons_of_ne hlimit]
  · simp [hsymbol]

theorem Step.accounted (hstep : Step s e s') (h : Accounted symbol limit es s) :
    Accounted symbol limit (es ++ [e]) s' := by
  cases hstep with
  | @call p trade limits hp =>
      refine h.move ((AppendRole.looping trade limits).todo symbol limit) [] ?_ rfl
        (fun q hq => move_of_ne hq) ?_
      · simp only [AppendEvent.appended, AppendRole.todo]
        split_ifs
        · rw [List.map_replicate]
        · rfl
      · rw [hp, move_self]
        rfl
  | @get p trade limit' rest now hp =>
      refine h.move (p := p) [] [] rfl rfl (fun q hq => move_of_ne hq) ?_
      rw [hp, move_self, List.append_nil]
      rfl
  | @set p trade limit' tradesList rest hp =>
      refine h.move [] (if trade.symbol = symbol ∧ limit' = limit then [trade] else []) rfl ?_
        (fun q hq => move_of_ne hq) ?_
      · simp only [AppendEvent.written]
        split_ifs <;> rfl
      · rw [hp, move_self, List.append_nil, todo_setting]
  | @returned p trade hp =>
      refine h.move (p := p) [] [] rfl rfl (fun q hq => move_of_ne hq) ?_
      rw [hp, move_self]
      simp [AppendRole.todo]

/-- When all calls have returned, what was appended was set. -/
theorem Accounted.perm (h : Accounted symbol limit es s) (hreturned : ∀ p, s.roles p = .absent) :
    (es.flatMap (AppendEvent.written symbol limit)).Perm
      (es.flatMap (AppendEvent.appended symbol limit)) := by
  refine List.perm_iff_count.mpr fun x => ?_
  have hx := h x.1
  rw [hreturned x.1] at hx
  have hcount : ∀ zs : List (GoID × Trade), zs.count x = (zs.filter (·.1 = x.1)).count x :=
    fun zs => (List.count_filter (by simp)).symm
  rw [hcount, hcount (es.flatMap (AppendEvent.appended symbol limit)), hx]
  simp [AppendRole.todo]

/-! ## The trades of a key -/

/-- The trades set for a key, the last one first. -/
def latest (symbol : String) (limit : Nat) (es : List AppendEvent) : List Trade :=
  ((es.flatMap (AppendEvent.written symbol limit)).map Prod.snd).reverse

theorem latest_other (h : e.written symbol limit = []) (es : List AppendEvent) :
    latest symbol limit (es ++ [e]) = latest symbol limit es := by
  rw [latest, flatMap_snoc, h, List.append_nil, latest]

theorem latest_set {trade : Trade} (h : trade.symbol = symbol) (p : GoID)
    (es : List AppendEvent) :
    latest symbol limit (es ++ [.set p trade limit]) = trade :: latest symbol limit es := by
  rw [latest, flatMap_snoc, written_set h, List.map_append, List.reverse_append, latest]
  rfl

/-- One at a time, the calls leave all their trades. -/
theorem serial_run (h : Trace (Where Step (Alone symbol limit)) new es s) :
    (s.cell symbol limit).Serial limit (latest symbol limit es) := by
  refine h.invariant (P := fun es s =>
    (s.cell symbol limit).Serial limit (latest symbol limit es)) Cell.serial_empty ?_
  rintro es s e s' hserial ⟨halone, hstep⟩
  cases hstep.touched symbol limit with
  | other hcell hwritten _ =>
      rw [hcell, latest_other hwritten]
      exact hserial
  | get hsymbol _ hcell =>
      rw [hcell, latest_other rfl]
      exact hserial.read (halone hsymbol rfl)
  | set hsymbol hp hcell =>
      rw [hcell, latest_set hsymbol]
      exact hserial.write hp

theorem alone_or_doomed (h : Trace Step new es s) :
    (s.cell symbol limit).Bounded (latest symbol limit es).length
      ∧ (Trace (Where Step (Alone symbol limit)) new es s
        ∨ (s.cell symbol limit).Doomed (latest symbol limit es).length) := by
  induction h with
  | nil => exact ⟨Cell.bounded_empty, Or.inl .nil⟩
  | @snoc es s e s' _ hstep ih =>
      obtain ⟨hbounded, hrun⟩ := ih
      cases hstep.touched symbol limit with
      | other hcell hwritten halone =>
          rw [hcell, latest_other hwritten]
          exact ⟨hbounded, hrun.imp_left fun htrace => htrace.snoc ⟨halone, hstep⟩⟩
      | get hsymbol hp hcell =>
          rw [hcell, latest_other rfl]
          refine ⟨hbounded.read, ?_⟩
          rcases hrun with htrace | hdoomed
          · by_cases hquiet : (s.cell symbol limit).Quiet
            · exact Or.inl (htrace.snoc ⟨fun _ _ => hquiet, hstep⟩)
            · exact Or.inr (Cell.doomed_of_read hp hquiet)
          · exact Or.inr (hdoomed.read hp)
      | set hsymbol hp hcell =>
          rw [hcell, latest_set hsymbol, List.length_cons]
          exact ⟨hbounded.write hp, hrun.imp (fun htrace => htrace.snoc ⟨trivial, hstep⟩)
            fun hdoomed => hdoomed.write hbounded hp⟩

/-- `Count` is the length of the list, in Redis and in the hands of the
processes. -/
structure Counted (s : TradesCache) : Prop where
  redis : ∀ key tradesList, s.redis key = some tradesList →
    tradesList.count = tradesList.trades.length
  roles : ∀ p trade limit tradesList rest, s.roles p = .setting trade limit tradesList rest →
    tradesList.count = tradesList.trades.length

theorem Counted.move (h : s.Counted) (hrole : ∀ trade limit tradesList rest,
    role = .setting trade limit tradesList rest → tradesList.count = tradesList.trades.length) :
    (s.move p role).Counted := by
  refine ⟨h.redis, fun q trade limit tradesList rest hq => ?_⟩
  by_cases hne : q = p
  · rw [hne, move_self] at hq
    exact hrole _ _ _ _ hq
  · rw [move_of_ne hne] at hq
    exact h.roles q _ _ _ _ hq

theorem Counted.put (h : s.Counted) {tradesList : TradesList}
    (hcount : tradesList.count = tradesList.trades.length) (key : String) :
    (s.put key tradesList).Counted := by
  refine ⟨fun key' tradesList' hget => ?_, h.roles⟩
  by_cases hkey : key' = key
  · rw [hkey, put_self] at hget
    cases hget
    exact hcount
  · rw [put_of_ne hkey] at hget
    exact h.redis key' tradesList' hget

theorem Step.counted (hstep : Step s e s') (h : s.Counted) : s'.Counted := by
  cases hstep with
  | call _ => exact h.move nofun
  | get _ =>
      refine h.move ?_
      rintro _ _ _ _ ⟨⟩
      rfl
  | set hp => exact (h.put (h.roles _ _ _ _ _ hp) _).move nofun
  | returned _ => exact h.move nofun

end TradesCache

open TradesCache in
/-- **Concurrent appends.** When all calls have returned and the limit was
not exceeded, every trade appended for a key is cached once, exactly if no
call got the list of the key while another had got and not yet set it. The
count is the length of the list in any case. -/
theorem append_lossless_iff {symbol : String} {limit : Nat} {es : List AppendEvent}
    {s : TradesCache} (htrace : Trace TradesCache.Step TradesCache.new es s)
    (hreturned : ∀ p, s.roles p = .absent)
    (hlimit : (es.flatMap (AppendEvent.appended symbol limit)).length ≤ limit) :
    ((s.cached symbol limit).Perm ((es.flatMap (AppendEvent.appended symbol limit)).map Prod.snd)
        ↔ Trace (Where TradesCache.Step (Alone symbol limit)) TradesCache.new es s)
      ∧ ∀ tradesList, s.redis (trading.tradesKey symbol limit) = some tradesList →
        tradesList.count = tradesList.trades.length := by
  have haccounted : Accounted symbol limit es s :=
    htrace.invariant (P := Accounted symbol limit) (fun _ => rfl) fun h hstep => hstep.accounted h
  have hcounted : s.Counted :=
    htrace.invariant (P := fun _ s => s.Counted) ⟨nofun, nofun⟩ fun h hstep => hstep.counted h
  have hperm := haccounted.perm hreturned
  have hlength : (latest symbol limit es).length
      = (es.flatMap (AppendEvent.appended symbol limit)).length := by
    rw [latest, List.length_reverse, List.length_map, hperm.length_eq]
  refine ⟨⟨fun hall => ?_, fun halone => ?_⟩, hcounted.redis _⟩
  · have hquiet : (s.cell symbol limit).Quiet := fun p => by
      show (s.roles p).toSet symbol limit = none
      rw [hreturned p]
      rfl
    rcases (alone_or_doomed htrace).2 with halone | hdoomed
    · exact halone
    · have hlt := hdoomed.lt hquiet
      rw [hlength, ← List.length_map Prod.snd, ← hall.length_eq] at hlt
      exact absurd hlt (lt_irrefl _)
  · have hvalue : s.cached symbol limit = latest symbol limit es := by
      rw [← List.take_of_length_le (hlength.trans_le hlimit)]
      exact (serial_run halone).value
    rw [hvalue]
    exact (List.reverse_perm _).trans (hperm.map Prod.snd)

def unitTrade (tradeID : UUID) : Trade := ⟨tradeID, "BTC-USD", 1, 2, 100, 1, 0, "buy"⟩

def oneByOne : List AppendEvent :=
  [.call 0 (unitTrade 7) [100], .get 0 (unitTrade 7) 100 0, .call 1 (unitTrade 8) [100],
    .set 0 (unitTrade 7) 100, .get 1 (unitTrade 8) 100 0, .set 1 (unitTrade 8) 100, .returned 0,
    .returned 1]

/-- Two calls that both get the list before one of them sets it. -/
def sideBySide : List AppendEvent :=
  [.call 0 (unitTrade 7) [100], .get 0 (unitTrade 7) 100 0, .call 1 (unitTrade 8) [100],
    .get 1 (unitTrade 8) 100 0, .set 0 (unitTrade 7) 100, .set 1 (unitTrade 8) 100, .returned 0,
    .returned 1]

theorem append_lossless_one_by_one :
    ∃ s, Trace TradesCache.Step TradesCache.new oneByOne s
      ∧ (s.cached "BTC-USD" 100).Perm [unitTrade 7, unitTrade 8] := by
  have h₀ : Trace (Where TradesCache.Step (TradesCache.Alone "BTC-USD" 100))
    TradesCache.new [] _ := .nil
  have halone := h₀.next (.call 0 (unitTrade 7) [100]) ⟨trivial, .call rfl⟩
    |>.next (.get 0 (unitTrade 7) 100 0) ⟨fun _ _ => by rintro (_ | _) <;> rfl, .get rfl⟩
    |>.next (.call 1 (unitTrade 8) [100]) ⟨trivial, .call rfl⟩
    |>.next (.set 0 (unitTrade 7) 100) ⟨trivial, .set rfl⟩
    |>.next (.get 1 (unitTrade 8) 100 0) ⟨fun _ _ => by rintro (_ | _ | _) <;> rfl, .get rfl⟩
    |>.next (.set 1 (unitTrade 8) 100) ⟨trivial, .set rfl⟩
    |>.next (.returned 0) ⟨trivial, .returned rfl⟩ |>.next (.returned 1) ⟨trivial, .returned rfl⟩
  have htrace := halone.imp fun h => h.2
  exact ⟨_, htrace, (append_lossless_iff htrace (by rintro (_ | _ | _) <;> rfl)
    (by decide)).1.mpr halone⟩

/-- The first trade is lost. -/
theorem append_loses_trade :
    sideBySide.flatMap (AppendEvent.appended "BTC-USD" 100) = [(0, unitTrade 7), (1, unitTrade 8)]
      ∧ ∃ s, Trace TradesCache.Step TradesCache.new sideBySide s ∧ (∀ p, s.roles p = .absent)
        ∧ s.cached "BTC-USD" 100 = [unitTrade 8] := by
  have h₀ : Trace TradesCache.Step TradesCache.new [] _ := .nil
  have htrace := h₀.next (.call 0 (unitTrade 7) [100]) (.call rfl)
    |>.next (.get 0 (unitTrade 7) 100 0) (.get rfl)
    |>.next (.call 1 (unitTrade 8) [100]) (.call rfl)
    |>.next (.get 1 (unitTrade 8) 100 0) (.get rfl)
    |>.next (.set 0 (unitTrade 7) 100) (.set rfl) |>.next (.set 1 (unitTrade 8) 100) (.set rfl)
    |>.next (.returned 0) (.returned rfl) |>.next (.returned 1) (.returned rfl)
  refine ⟨by decide, _, htrace, by rintro (_ | _ | _) <;> rfl, ?_⟩
  rfl

end TradingBackend.Cache
