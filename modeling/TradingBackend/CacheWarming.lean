import TradingBackend.CacheKeys

/-!
# Warming the cache of trades

`WarmCache` of `cache/trades_cache.go` with `SetTrades` and
`SetLatestTrades`. A list is passed by pointer through all of these, and
`SetTrades` cuts the list it is given to its limit, so each call sees what
the calls before it have left.

Redis stores what is set, unless `SET` fails; nothing expires meanwhile,
and a list comes back as it was set. Limits are not negative (a negative
one panics).
-/

namespace TradingBackend.Cache

/-- A list in Redis, with the time it has to live in nanoseconds. -/
structure Entry where
  tradesList : TradesList
  ttl : Int
deriving DecidableEq

/-- Redis, and how many times `SET` has been called. -/
structure Writes where
  redis : Keyspace Entry
  sets : ℕ

/-- The clock and the errors of `SET`. -/
structure SetEnv where
  now : ℕ → Time
  fault : ℕ → String → Option ErrorChain
  /-- `tc.defaultTTL`. -/
  defaultTTL : Int

def setJSON (env : SetEnv) (key : String) (value : TradesList) (ttl : Int) (s : Writes) :
    Option ErrorChain × Writes :=
  match env.fault s.sets key with
  | some err => (some (.wrapped ("failed to set key " ++ key) err), { s with sets := s.sets + 1 })
  | none => (none, ⟨Function.update s.redis key (some ⟨value, ttl⟩), s.sets + 1⟩)

def TradesList.cut (tradesList : TradesList) (limit : ℕ) (now : Time) : TradesList :=
  let tradesList := { tradesList with timestamp := now, count := tradesList.trades.length }
  if limit < tradesList.trades.length then
    { tradesList with trades := tradesList.trades.take limit, count := limit }
  else tradesList

/-- `SetTrades`: what it returns, what it leaves of the list, and Redis
afterwards. -/
def setTrades (env : SetEnv) (tradesList : TradesList) (limit : ℕ) (ttl : Int) (s : Writes) :
    Option ErrorChain × TradesList × Writes :=
  let ttl := if ttl = 0 then env.defaultTTL else ttl
  let tradesList := tradesList.cut limit (env.now s.sets)
  let result := setJSON env (trading.tradesKey tradesList.symbol limit) tradesList ttl s
  (result.1.map (.wrapped ("failed to cache trades for " ++ tradesList.symbol)), tradesList,
    result.2)

def setLatestTrades (env : SetEnv) (tradesList : TradesList) (ttl : Int) (s : Writes) :
    Option ErrorChain × TradesList × Writes :=
  let ttl := if ttl = 0 then env.defaultTTL else ttl
  let tradesList :=
    { tradesList with timestamp := env.now s.sets, count := tradesList.trades.length }
  let result := setJSON env (trading.tradesLatestKey tradesList.symbol) tradesList ttl s
  (result.1.map (.wrapped ("failed to cache latest trades for " ++ tradesList.symbol)), tradesList,
    result.2)

def warmLimits (env : SetEnv) (ttl : Int) :
    List ℕ → TradesList → Writes → Option ErrorChain × TradesList × Writes
  | [], tradesList, s => (none, tradesList, s)
  | limit :: limits, tradesList, s =>
      match setTrades env tradesList limit ttl s with
      | (some err, tradesList, s) =>
          (some (.wrapped ("failed to warm cache for " ++ tradesList.symbol ++ " (limit "
            ++ toString limit ++ ")") err), tradesList, s)
      | (none, tradesList, s) => warmLimits env ttl limits tradesList s

/-- The loop over the lists. An error of `SetLatestTrades` is printed and
passed over. -/
def warmLists (env : SetEnv) (ttl : Int) (limits : List ℕ) :
    List TradesList → Writes → Option ErrorChain × Writes
  | [], s => (none, s)
  | tradesList :: tradesLists, s =>
      match warmLimits env ttl limits tradesList s with
      | (some err, _, s) => (some err, s)
      | (none, tradesList, s) =>
          warmLists env ttl limits tradesLists (setLatestTrades env tradesList ttl s).2.2

def warmCache (env : SetEnv) (tradesLists : List TradesList) (limits : List ℕ) (ttl : Int)
    (s : Writes) : Option ErrorChain × Writes :=
  let ttl := if ttl = 0 then env.defaultTTL else ttl
  warmLists env ttl limits tradesLists s

/-! ## Keys of a list -/

def listKey (symbol : String) : Option ℕ → String
  | some limit => trading.tradesKey symbol limit
  | none => trading.tradesLatestKey symbol

def lastField : Option ℕ → List Char
  | some limit => (toString limit).toList
  | none => latestField

theorem colon_not_mem_lastField (x : Option ℕ) : ':' ∉ lastField x := by
  cases x with
  | some limit => exact colon_not_mem_toString limit
  | none => decide +kernel

theorem lastField_inj {x x' : Option ℕ} (h : lastField x = lastField x') : x = x' := by
  cases x with
  | some limit =>
      cases x' with
      | some limit' => rw [toString_inj h]
      | none => exact absurd h (CacheKey.toString_ne_latest limit)
  | none =>
      cases x' with
      | some limit' => exact absurd h.symm (CacheKey.toString_ne_latest limit')
      | none => rfl

/-- Any symbol will do here: a limit and `latest` have no colon in them. -/
theorem listKey_inj {symbol symbol' : String} {x x' : Option ℕ} :
    listKey symbol x = listKey symbol' x' ↔ symbol = symbol' ∧ x = x' := by
  have hkey (symbol : String) (x : Option ℕ) : ∃ k : CacheKey, k.text = listKey symbol x
      ∧ k.rest = symbol.toList ++ ':' :: lastField x := by
    cases x with
    | some limit => exact ⟨.trades symbol limit, rfl, rfl⟩
    | none => exact ⟨.tradesLatest symbol, rfl, rfl⟩
  constructor
  · intro h
    obtain ⟨k, htext, hrest⟩ := hkey symbol x
    obtain ⟨k', htext', hrest'⟩ := hkey symbol' x'
    have hsame := (CacheKey.text_eq_iff.mp ((htext.trans h).trans htext'.symm)).2
    rw [hrest, hrest'] at hsame
    obtain ⟨hsymbol, hlast⟩ := eq_of_append_colon (colon_not_mem_lastField x)
      (colon_not_mem_lastField x') hsame
    exact ⟨String.toList_injective hsymbol, lastField_inj hlast⟩
  · rintro ⟨rfl, rfl⟩
    rfl

/-! ## One list -/

section

variable {env : SetEnv} {l l' : TradesList} {s s' : Writes} {ttl : Int} {limit : ℕ}
  {limits : List ℕ}

@[simp] theorem TradesList.symbol_cut (l : TradesList) (limit : ℕ) (now : Time) :
    (l.cut limit now).symbol = l.symbol := by
  simp only [TradesList.cut]
  split <;> rfl

@[simp] theorem TradesList.trades_cut (l : TradesList) (limit : ℕ) (now : Time) :
    (l.cut limit now).trades = l.trades.take limit := by
  simp only [TradesList.cut]
  split
  · rfl
  · next h => exact (List.take_of_length_le (not_lt.mp h)).symm

theorem TradesList.count_cut (l : TradesList) (limit : ℕ) (now : Time) :
    (l.cut limit now).count = min limit l.trades.length := by
  simp only [TradesList.cut]
  split
  · next h => exact (Nat.min_eq_left (le_of_lt h)).symm
  · next h => exact (Nat.min_eq_right (not_lt.mp h)).symm

theorem setJSON_redis_of_ne {key key' : String} {value : TradesList} (h : key' ≠ key) :
    (setJSON env key value ttl s).2.redis key' = s.redis key' := by
  unfold setJSON
  split
  · rfl
  · exact Function.update_of_ne h _ _

theorem setJSON_eq_none {key : String} {value : TradesList}
    (h : env.fault s.sets key = none) : (setJSON env key value ttl s).1 = none := by
  rw [setJSON, h]

theorem setJSON_redis_self {key : String} {value : TradesList}
    (h : (setJSON env key value ttl s).1 = none) :
    (setJSON env key value ttl s).2.redis key = some ⟨value, ttl⟩ := by
  unfold setJSON at h ⊢
  split at h
  · cases h
  · exact Function.update_self _ _ _

def Holding (redis : Keyspace Entry) (key symbol : String) (trades : List Trade) : Prop :=
  ∃ e, redis key = some e ∧ e.tradesList.symbol = symbol ∧ e.tradesList.trades = trades
    ∧ e.tradesList.count = trades.length

/-- What the loop over the limits does to a list and to Redis. -/
structure Warmed (limits : List ℕ) (l l' : TradesList) (s s' : Writes) : Prop where
  symbol : l'.symbol = l.symbol
  trades : l'.trades <+: l.trades
  short : ∀ limit ∈ limits, l'.trades.length ≤ limit
  others : ∀ key, (∀ limit ∈ limits, key ≠ listKey l.symbol (some limit)) →
    s'.redis key = s.redis key
  whole : (∀ limit ∈ limits, l.trades.length ≤ limit) →
    l'.trades = l.trades
    ∧ ∀ limit ∈ limits, Holding s'.redis (listKey l.symbol (some limit)) l.symbol l.trades

theorem setTrades_redis_of_ne {key : String} (h : key ≠ listKey l.symbol (some limit)) :
    (setTrades env l limit ttl s).2.2.redis key = s.redis key :=
  setJSON_redis_of_ne (by rwa [TradesList.symbol_cut])

theorem setTrades_holding (h : (setTrades env l limit ttl s).1 = none)
    (hlimit : l.trades.length ≤ limit) :
    Holding (setTrades env l limit ttl s).2.2.redis (listKey l.symbol (some limit)) l.symbol
      l.trades := by
  have hset : (setTrades env l limit ttl s).2.2.redis
      (listKey (l.cut limit (env.now s.sets)).symbol (some limit))
        = some ⟨l.cut limit (env.now s.sets), if ttl = 0 then env.defaultTTL else ttl⟩ :=
    setJSON_redis_self (Option.map_eq_none_iff.mp h)
  rw [TradesList.symbol_cut] at hset
  refine ⟨_, hset, TradesList.symbol_cut .., ?_, ?_⟩
  · rw [TradesList.trades_cut, List.take_of_length_le hlimit]
  · rw [TradesList.count_cut, Nat.min_eq_right hlimit]

theorem warmLimits_cons (h : (warmLimits env ttl (limit :: limits) l s).1 = none) :
    (setTrades env l limit ttl s).1 = none
    ∧ warmLimits env ttl (limit :: limits) l s = warmLimits env ttl limits
        (setTrades env l limit ttl s).2.1 (setTrades env l limit ttl s).2.2 := by
  rw [warmLimits] at h ⊢
  generalize setTrades env l limit ttl s = result at h ⊢
  obtain ⟨err, l₁, s₁⟩ := result
  cases err with
  | some err => cases h
  | none => exact ⟨rfl, rfl⟩

theorem warmLimits_spec (h : (warmLimits env ttl limits l s).1 = none) :
    Warmed limits l (warmLimits env ttl limits l s).2.1 s (warmLimits env ttl limits l s).2.2 := by
  induction limits generalizing l s with
  | nil => exact ⟨rfl, List.prefix_rfl, by simp, fun _ _ => rfl, fun _ => ⟨rfl, by simp⟩⟩
  | cons limit limits ih =>
      obtain ⟨hset, hrest⟩ := warmLimits_cons h
      rw [hrest] at h ⊢
      have hwarm := ih h
      generalize hs₁ : (setTrades env l limit ttl s).2.2 = s₁ at hwarm ⊢
      have hl₁ : (setTrades env l limit ttl s).2.1 = l.cut limit (env.now s.sets) := rfl
      rw [hl₁] at hwarm ⊢
      generalize warmLimits env ttl limits (l.cut limit (env.now s.sets)) s₁ = result at hwarm ⊢
      refine ⟨by simpa using hwarm.symbol, ?_, ?_, ?_, ?_⟩
      · have htake := hwarm.trades
        rw [TradesList.trades_cut] at htake
        exact htake.trans (List.take_prefix _ _)
      · intro limit' hlimit'
        rcases List.mem_cons.mp hlimit' with rfl | hmem
        · have hle := hwarm.trades.length_le
          rw [TradesList.trades_cut, List.length_take] at hle
          exact hle.trans (Nat.min_le_left _ _)
        · exact hwarm.short limit' hmem
      · intro key hkey
        rw [hwarm.others key fun limit' h' => by
          rw [TradesList.symbol_cut]; exact hkey limit' (List.mem_cons_of_mem _ h'), ← hs₁]
        exact setTrades_redis_of_ne (hkey limit List.mem_cons_self)
      · intro hall
        have hlimit := hall limit List.mem_cons_self
        have hsame : (l.cut limit (env.now s.sets)).trades = l.trades := by
          rw [TradesList.trades_cut, List.take_of_length_le hlimit]
        obtain ⟨htrades, hholding⟩ := hwarm.whole fun limit' h' => by
          rw [hsame]
          exact hall limit' (List.mem_cons_of_mem _ h')
        rw [hsame] at htrades hholding
        rw [TradesList.symbol_cut] at hholding
        refine ⟨htrades, fun limit' hlimit' => ?_⟩
        -- what was set for the limit stays, or is set once more for the same limit
        by_cases hmem : limit' ∈ limits
        · exact hholding limit' hmem
        · obtain rfl := (List.mem_cons.mp hlimit').resolve_right hmem
          have hkept := hwarm.others (listKey l.symbol (some limit')) fun limit h heq => by
            rw [TradesList.symbol_cut, listKey_inj] at heq
            exact hmem (Option.some.inj heq.2 ▸ h)
          unfold Holding
          rw [hkept, ← hs₁]
          exact setTrades_holding hset hlimit

/-- Under every limit the cache holds that many of the trades of the list,
and under `latest` all of them. -/
def Right (redis : Keyspace Entry) (limits : List ℕ) (l : TradesList) : Prop :=
  (∀ limit ∈ limits,
    Holding redis (trading.tradesKey l.symbol limit) l.symbol (l.trades.take limit))
  ∧ Holding redis (trading.tradesLatestKey l.symbol) l.symbol l.trades

theorem right_congr {redis redis' : Keyspace Entry}
    (h : ∀ x, redis (listKey l.symbol x) = redis' (listKey l.symbol x)) :
    Right redis limits l ↔ Right redis' limits l := by
  have hlimits (limit : ℕ) : redis (trading.tradesKey l.symbol limit)
      = redis' (trading.tradesKey l.symbol limit) := h (some limit)
  have hlatest : redis (trading.tradesLatestKey l.symbol)
      = redis' (trading.tradesLatestKey l.symbol) := h none
  simp only [Right, Holding, hlimits, hlatest]

/-- What the body of the loop over the lists makes of Redis. -/
def warmList (env : SetEnv) (ttl : Int) (limits : List ℕ) (l : TradesList) (s : Writes) : Writes :=
  let result := warmLimits env ttl limits l s
  (setLatestTrades env result.2.1 ttl result.2.2).2.2

theorem warmList_others (h : (warmLimits env ttl limits l s).1 = none) {symbol : String}
    (hsymbol : symbol ≠ l.symbol) (x : Option ℕ) :
    (warmList env ttl limits l s).redis (listKey symbol x) = s.redis (listKey symbol x) := by
  have hwarm := warmLimits_spec h
  have hne (x' : Option ℕ) : listKey symbol x ≠ listKey l.symbol x' := fun heq =>
    hsymbol (listKey_inj.mp heq).1
  have hlatest : (warmList env ttl limits l s).redis (listKey symbol x)
      = (warmLimits env ttl limits l s).2.2.redis (listKey symbol x) :=
    setJSON_redis_of_ne (by rw [hwarm.symbol]; exact hne none)
  rw [hlatest, hwarm.others _ fun limit _ => hne (some limit)]

/-- The cache is right for a list if no limit cuts it, and only then: what
is cut is missing under `latest`. -/
theorem warmList_right_iff (h : (warmLimits env ttl limits l s).1 = none)
    (hlatest : ∀ i, env.fault i (trading.tradesLatestKey l.symbol) = none) :
    Right (warmList env ttl limits l s).redis limits l
      ↔ ∀ limit ∈ limits, l.trades.length ≤ limit := by
  have hwarm := warmLimits_spec h
  have hset : Holding (warmList env ttl limits l s).redis (trading.tradesLatestKey l.symbol)
      l.symbol (warmLimits env ttl limits l s).2.1.trades := by
    rw [← hwarm.symbol] at hlatest ⊢
    exact ⟨_, setJSON_redis_self (setJSON_eq_none (hlatest _)), rfl, rfl, rfl⟩
  constructor
  · rintro ⟨-, e, he, -, htrades, -⟩ limit hlimit
    obtain ⟨e', he', -, htrades', -⟩ := hset
    obtain rfl := Option.some.inj (he.symm.trans he')
    have hshort := hwarm.short limit hlimit
    rwa [← htrades', htrades] at hshort
  · intro hall
    obtain ⟨htrades, hholding⟩ := hwarm.whole hall
    refine ⟨fun limit hlimit => ?_, htrades ▸ hset⟩
    rw [List.take_of_length_le (hall limit hlimit)]
    have hkept : (warmList env ttl limits l s).redis (listKey l.symbol (some limit))
        = (warmLimits env ttl limits l s).2.2.redis (listKey l.symbol (some limit)) :=
      setJSON_redis_of_ne fun heq => by
        have hkeys : listKey l.symbol (some limit) = listKey _ none := heq
        cases (listKey_inj.mp hkeys).2
    have hcached := hholding limit hlimit
    unfold Holding at hcached ⊢
    rwa [← hkept] at hcached

end

/-! ## All lists -/

section

variable {env : SetEnv} {s : Writes} {ttl : Int} {limits : List ℕ} {l : TradesList}
  {lists : List TradesList}

theorem warmLists_cons (h : (warmLists env ttl limits (l :: lists) s).1 = none) :
    (warmLimits env ttl limits l s).1 = none
    ∧ warmLists env ttl limits (l :: lists) s
        = warmLists env ttl limits lists (warmList env ttl limits l s) := by
  unfold warmList
  rw [warmLists] at h ⊢
  generalize warmLimits env ttl limits l s = result at h ⊢
  obtain ⟨err, l₁, s₁⟩ := result
  cases err with
  | some err => cases h
  | none => exact ⟨rfl, rfl⟩

theorem warmLists_others (h : (warmLists env ttl limits lists s).1 = none) {symbol : String}
    (hsymbol : symbol ∉ lists.map TradesList.symbol) (x : Option ℕ) :
    (warmLists env ttl limits lists s).2.redis (listKey symbol x)
      = s.redis (listKey symbol x) := by
  induction lists generalizing s with
  | nil => rfl
  | cons l lists ih =>
      obtain ⟨hlimits, hrest⟩ := warmLists_cons h
      simp only [List.map_cons, List.mem_cons, not_or] at hsymbol
      rw [hrest] at h ⊢
      rw [ih h hsymbol.2, warmList_others hlimits hsymbol.1]

theorem warmLists_right_iff (h : (warmLists env ttl limits lists s).1 = none)
    (hdistinct : (lists.map TradesList.symbol).Nodup)
    (hlatest : ∀ l ∈ lists, ∀ i, env.fault i (trading.tradesLatestKey l.symbol) = none) :
    (∀ l ∈ lists, Right (warmLists env ttl limits lists s).2.redis limits l)
      ↔ ∀ l ∈ lists, ∀ limit ∈ limits, l.trades.length ≤ limit := by
  induction lists generalizing s with
  | nil => simp
  | cons l lists ih =>
      obtain ⟨hlimits, hrest⟩ := warmLists_cons h
      rw [List.map_cons, List.nodup_cons] at hdistinct
      rw [hrest] at h ⊢
      rw [List.forall_mem_cons, List.forall_mem_cons,
        right_congr (warmLists_others h hdistinct.1),
        warmList_right_iff hlimits (hlatest l List.mem_cons_self),
        ih h hdistinct.2 fun l' hl' => hlatest l' (List.mem_cons_of_mem _ hl')]

/-- When `WarmCache` returns nil and no `SET` of a latest list has failed, the
cache is right for all lists if no limit is smaller than a list, and only
then. -/
theorem warmCache_right_iff (env : SetEnv) (lists : List TradesList) (limits : List ℕ)
    (ttl : Int) (s : Writes) (hdistinct : (lists.map TradesList.symbol).Nodup)
    (hlatest : ∀ l ∈ lists, ∀ i, env.fault i (trading.tradesLatestKey l.symbol) = none)
    (hnil : (warmCache env lists limits ttl s).1 = none) :
    (∀ l ∈ lists, Right (warmCache env lists limits ttl s).2.redis limits l)
      ↔ ∀ l ∈ lists, ∀ limit ∈ limits, l.trades.length ≤ limit :=
  warmLists_right_iff hnil hdistinct hlatest

end

def twoTrades : TradesList :=
  ⟨"BTC-USD", [⟨1, "BTC-USD", 11, 21, 100, 1, 0, "buy"⟩, ⟨2, "BTC-USD", 12, 22, 101, 2, 0, "sell"⟩],
    0, 0⟩

def quietRedis : SetEnv := ⟨fun i => i, fun _ _ => none, 10000000000⟩

theorem warmCache_right_twoTrades :
    (warmCache quietRedis [twoTrades] [5, 2] 0 ⟨fun _ => none, 0⟩).1 = none
    ∧ Right (warmCache quietRedis [twoTrades] [5, 2] 0 ⟨fun _ => none, 0⟩).2.redis [5, 2]
        twoTrades := by
  have hnil : (warmCache quietRedis [twoTrades] [5, 2] 0 ⟨fun _ => none, 0⟩).1 = none := rfl
  have hright := warmCache_right_iff quietRedis [twoTrades] [5, 2] 0 ⟨fun _ => none, 0⟩
    (List.nodup_singleton _) (fun _ _ _ => rfl) hnil
  exact ⟨hnil, hright.mpr (by decide) twoTrades List.mem_cons_self⟩

/-- With the smaller limit first, one trade is missing under the larger one and
under `latest`. -/
theorem warmCache_cuts_twoTrades :
    let result := warmCache quietRedis [twoTrades] [1, 2] 0 ⟨fun _ => none, 0⟩
    result.1 = none
    ∧ (result.2.redis (trading.tradesKey "BTC-USD" 2)).map (·.tradesList.trades)
        = some (twoTrades.trades.take 1)
    ∧ (result.2.redis (trading.tradesLatestKey "BTC-USD")).map (·.tradesList.trades)
        = some (twoTrades.trades.take 1)
    ∧ twoTrades.trades.take 1 ≠ twoTrades.trades := by
  decide +kernel

end TradingBackend.Cache
