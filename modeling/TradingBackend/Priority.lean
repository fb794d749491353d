import TradingBackend.LifeCycle

/-!
# Price-time priority

The moments at which a resting order is filled are the heads of the loop
over a level from which an iteration trades (`Executes`), inside the
iterations of the loop over the levels. Whatever trades a command has
made by then, the order being filled is the first of its side
(`Executes.first`), and an order that was ahead of it has left the book
filled (`Underway.gone`). What is kept at each of these moments holds when
the matching is over (`matching_rule`). Between commands orders leave by a
cancel as well, and nothing overtakes: elements are made in the order of
the commands (`Aged`).
-/

namespace TradingBackend

variable {T : Type} [OrderedTree T Decimal LevelRef]

namespace MatchingEngine

/-! ## The moments of a command -/

/-- The loop of `matchOrder`. -/
def matchBody (me : MatchingEngine T) (a : OrderRef) (fuel : Nat)
    (s : MatchingEngine T × List Trade) :
    Option ((MatchingEngine T × List Trade) ⊕ (MatchingEngine T × List Trade)) :=
  if (me.orderBook.orderAt a).type = .market then marketBody a fuel s else limitBody a fuel s

/-- The loop goes on to `matchAgainstPriceLevel` with level `l`. -/
def Calls (me : MatchingEngine T) (a : OrderRef) (l : LevelRef) : Prop :=
  0 < (me.orderBook.orderAt a).remainingQuantity ∧ me.bestOpposing a = some l
    ∧ crosses (me.orderBook.orderAt a) (me.orderBook.levelAt l).price = true

/-- The loop over the orders of level `l`, called in `me`, has `scan` at
its head. -/
def ScansFrom (me : MatchingEngine T) (a : OrderRef) (l : LevelRef) (scan : LevelScan T) : Prop :=
  Loop.Heads (fun _ s => some (scanBody a l s))
    ⟨me, (me.orderBook.levelAt l).orders.head?, []⟩ scan

/-- In the course of `matchOrder` for `a` the engine is about to fill the
resting order of element `e`; `me₁` is the engine at that moment. -/
def Executes (me : MatchingEngine T) (a : OrderRef) (me₁ : MatchingEngine T) (e : Element) :
    Prop :=
  (me.orderBook.orderAt a).isValid = true
    ∧ ∃ s l scan, Loop.Heads (me.matchBody a) (me, []) s ∧ s.1.Calls a l
      ∧ s.1.ScansFrom a l scan ∧ scan.engine = me₁ ∧ scan.element = some e
      ∧ 0 < (me₁.orderBook.orderAt a).remainingQuantity

section

variable {me me' me₁ : MatchingEngine T} {a : OrderRef} {l : LevelRef} {n : Nat}
  {s : MatchingEngine T × List Trade}
  {out : (MatchingEngine T × List Trade) ⊕ (MatchingEngine T × List Trade)}
  {scan : LevelScan T} {trades : List Trade}

theorem matchBody_calls (htype : (s.1.orderBook.orderAt a).type = (me.orderBook.orderAt a).type)
    (hcalls : s.1.Calls a l) : me.matchBody a n s = matchLevel n a l s := by
  obtain ⟨hpos, hbest, hcrosses⟩ := hcalls
  by_cases hmarket : (me.orderBook.orderAt a).type = .market
  · simp only [matchBody, if_pos hmarket, marketBody, if_pos hpos, hbest]
  · have hmatch : canMatch (s.1.orderBook.orderAt a) (s.1.orderBook.levelAt l).price = true := by
      simpa only [crosses, htype, hmarket, decide_false, Bool.false_or] using hcrosses
    simp only [matchBody, if_neg hmarket, limitBody, if_pos hpos, hbest, if_pos hmatch]

theorem matchBody_leave (htype : (s.1.orderBook.orderAt a).type = (me.orderBook.orderAt a).type)
    (hcalls : ∀ l, ¬s.1.Calls a l) : me.matchBody a n s = some (.inl (s.1.close a, s.2)) := by
  rw [close_eq, htype]
  by_cases hpos : 0 < (s.1.orderBook.orderAt a).remainingQuantity
  · cases hbest : s.1.bestOpposing a with
    | none =>
        by_cases hmarket : (me.orderBook.orderAt a).type = .market
        · simp only [matchBody, if_pos hmarket, marketBody, if_pos hpos, hbest]
          exact congrArg (fun me => some (Sum.inl (me, s.2))) (if_pos ⟨hmarket, hpos⟩).symm
        · simp only [matchBody, if_neg hmarket, limitBody, if_pos hpos, hbest]
          rw [if_neg fun h => hmarket h.1]
    | some l =>
        -- a market order would go on, so this is a limit order whose price does not cross
        have hcrosses : ¬crosses (s.1.orderBook.orderAt a) (s.1.orderBook.levelAt l).price = true :=
          fun h => hcalls l ⟨hpos, hbest, h⟩
        simp only [crosses, htype, Bool.or_eq_true, decide_eq_true_eq, not_or] at hcrosses
        obtain ⟨hmarket, hmatch⟩ := hcrosses
        simp only [matchBody, if_neg hmarket, limitBody, if_pos hpos, hbest, if_neg hmatch]
        rw [if_neg fun h => hmarket h.1]
  · rw [if_neg fun h => hpos h.2]
    simp only [matchBody, marketBody, limitBody, if_neg hpos, ite_self]

/-- An iteration of the outer loop either calls
`matchAgainstPriceLevel`, or leaves the loop without a trade. -/
theorem matchBody_cases (htype : (s.1.orderBook.orderAt a).type = (me.orderBook.orderAt a).type)
    (h : me.matchBody a n s = some out) :
    (∃ l, s.1.Calls a l ∧ matchLevel n a l s = some out)
      ∨ (∀ l, ¬s.1.Calls a l) ∧ out = .inl (s.1.close a, s.2) := by
  by_cases hcalls : ∃ l, s.1.Calls a l
  · obtain ⟨l, hcalls⟩ := hcalls
    rw [matchBody_calls htype hcalls] at h
    exact Or.inl ⟨l, hcalls, h⟩
  · rw [not_exists] at hcalls
    rw [matchBody_leave htype hcalls] at h
    exact Or.inr ⟨hcalls, (Option.some.inj h).symm⟩

/-- An iteration of the inner loop either leaves it or trades. -/
theorem scanBody_cases (a : OrderRef) (l : LevelRef) (scan : LevelScan T) :
    ((scan.element = none ∨ ¬0 < (scan.engine.orderBook.orderAt a).remainingQuantity)
      ∧ scanBody a l scan = .inl (scan.engine, scan.trades))
    ∨ ∃ e, scan.element = some e ∧ 0 < (scan.engine.orderBook.orderAt a).remainingQuantity := by
  by_cases hgo : scan.element = none
      ∨ ¬0 < (scan.engine.orderBook.orderAt a).remainingQuantity
  · exact Or.inl ⟨hgo, scanBody_exit hgo⟩
  · rw [not_or, not_not] at hgo
    obtain ⟨e, he⟩ := Option.ne_none_iff_exists'.mp hgo.1
    exact Or.inr ⟨e, he, hgo.2⟩

theorem around_scan {scan' : LevelScan T}
    (h : Loop.Around (fun _ s => some (scanBody a l s)) scan scan') :
    ∃ e, scan.element = some e ∧ 0 < (scan.engine.orderBook.orderAt a).remainingQuantity
      ∧ scan' = ⟨scan.engine.afterTrade a e,
          nextElement e (scan.engine.orderBook.levelAt l).orders,
          scan.trades ++ [tradeOf scan.engine.orderBook.orderAt a e.value]⟩ := by
  obtain ⟨n, h⟩ := h
  dsimp only at h
  rcases scanBody_cases a l scan with ⟨-, hexit⟩ | ⟨e, he, hpos⟩
  · rw [hexit] at h
    cases h
  · rw [scanBody_trade he hpos] at h
    exact ⟨e, he, hpos, (Sum.inr.inj (Option.some.inj h)).symm⟩

/-- The end of `matchAgainstPriceLevel`, in terms of the head it is left from. -/
theorem matchLevel_exit (h : matchLevel n a l s = some out) :
    ∃ scan, s.1.ScansFrom a l scan
      ∧ (scan.element = none ∨ ¬0 < (scan.engine.orderBook.orderAt a).remainingQuantity)
      ∧ out = if (scan.engine.orderBook.orderAt a).isFilled then
          .inl (scan.engine, s.2 ++ scan.trades)
        else .inr (scan.engine, s.2 ++ scan.trades) := by
  unfold matchLevel at h
  cases hrun : s.1.matchAgainstPriceLevel n a l with
  | none => simp only [hrun] at h; cases h
  | some r =>
      obtain ⟨scan, m, hheads, hexit⟩ := Loop.iterate_heads hrun
      rcases scanBody_cases a l scan with ⟨hend, hscan⟩ | ⟨e, he, hpos⟩
      · rw [hscan] at hexit
        obtain rfl := Sum.inl.inj (Option.some.inj hexit)
        refine ⟨scan, hheads, hend, ?_⟩
        simp only [hrun] at h
        split_ifs at h ⊢
        · exact (Option.some.inj h).symm
        · exact (Option.some.inj h).symm
      · rw [scanBody_trade he hpos] at hexit
        cases hexit

/-- An iteration that calls `matchAgainstPriceLevel` ends with the engine
of one of the heads of the inner loop. -/
theorem matchLevel_cases (h : matchLevel n a l s = some out) :
    ∃ scan, s.1.ScansFrom a l scan
      ∧ (out = .inl (scan.engine, s.2 ++ scan.trades)
        ∨ out = .inr (scan.engine, s.2 ++ scan.trades)) := by
  obtain ⟨scan, hscan, -, rfl⟩ := matchLevel_exit h
  refine ⟨scan, hscan, ?_⟩
  split_ifs
  · exact Or.inl rfl
  · exact Or.inr rfl

end

/-! ## In the middle of a command -/

/-- `me₁` is the engine in the course of the trades of `a` with side `b`
that started from `me`. -/
structure Underway (me me₁ : MatchingEngine T) (a : OrderRef) (b : Bool) : Prop where
  ready : me₁.orderBook.Ready a
  terms : ∀ r, (me₁.orderBook.orderAt r).terms = (me.orderBook.orderAt r).terms
  subset : me₁.orderBook.elements b ⊆ me.orderBook.elements b
  elements_other : me₁.orderBook.elements (!b) = me.orderBook.elements (!b)
  gone : ∀ e ∈ me.orderBook.elements b,
    e ∈ me₁.orderBook.elements b ∨ (me₁.orderBook.orderAt e.value).isFilled = true
  orderAt : ∀ r, r ≠ a → (∀ e ∈ me.orderBook.elements b, e.value ≠ r) →
    me₁.orderBook.orderAt r = me.orderBook.orderAt r

section

variable {me me₁ me₂ : MatchingEngine T} {a : OrderRef} {b : Bool} {l : LevelRef} {e : Element}
  {queue rest : List Element} {s : MatchingEngine T × List Trade} {scan : LevelScan T}

theorem Underway.refl (h : me.orderBook.Ready a) : Underway me me a b :=
  ⟨h, fun _ => rfl, List.Subset.refl _, rfl, fun _ he => Or.inl he, fun _ _ _ => rfl⟩

theorem Underway.of_terms {β : Type} (f : Order → β) (hf : ∀ o, f o.terms = f o)
    (h : Underway me me₁ a b) (r : OrderRef) :
    f (me₁.orderBook.orderAt r) = f (me.orderBook.orderAt r) :=
  Order.eq_of_terms f hf (h.terms r)

/-- The level of a call is the best one of the opposing side. -/
theorem Underway.best (h : Underway me me₁ a (me.orderBook.opposing a))
    (hcalls : me₁.Calls a l) :
    me₁.orderBook.getBestPrice (me.orderBook.opposing a) = some l := by
  rw [← hcalls.2.1, bestOpposing_eq, OrderBook.opposing, OrderBook.opposing,
    h.of_terms Order.side fun _ => rfl]

theorem Underway.trade (h : Underway me me₁ a b) (hready : me.orderBook.Ready a)
    (hel : me₁.orderBook.elements b = e :: queue ++ rest)
    (hs : Settled me₁ me₂ a b l e queue rest) : Underway me me₂ a b := by
  have he : e ∈ me.orderBook.elements b := h.subset (hel ▸ List.mem_cons_self ..)
  refine ⟨hs.ready, fun r => ?_, fun x hx => h.subset ?_, hs.elements_other.trans h.elements_other,
    fun x hx => ?_, fun r ha hr => ?_⟩
  · rw [hs.orderAt]
    exact (tradeOrders_of_fill Order.terms (fun _ _ => rfl) ..).trans (h.terms r)
  · rw [hs.elements] at hx
    rw [hel]
    split_ifs at hx
    · exact List.mem_cons_of_mem _ hx
    · exact hx
  · rw [hs.elements, hs.orderAt]
    by_cases hmem : x ∈ me₁.orderBook.elements b
    · by_cases hf : me₁.Consumed a e
      · rw [if_pos hf]
        rw [hel, List.cons_append, List.mem_cons] at hmem
        rcases hmem with rfl | hmem
        · exact Or.inr hf
        · exact Or.inl hmem
      · rw [if_neg hf, ← hel]
        exact Or.inl hmem
    · -- an order that is gone is out of reach of the trade
      have hne : x.value ≠ e.value := fun hvalue => by
        obtain ⟨-, rfl⟩ := hready.wf.element_unique hx he hvalue
        exact hmem (hel ▸ List.mem_cons_self ..)
      rw [tradeOrders_other (hready.ne_elements hx) hne]
      exact Or.inr ((h.gone x hx).resolve_left hmem)
  · rw [hs.orderAt, tradeOrders_other ha (hr e he).symm]
    exact h.orderAt r ha hr

theorem ScansFrom.scanning (hscan : me₁.ScansFrom a l scan) (hready : me₁.orderBook.Ready a)
    (hbest : me₁.orderBook.getBestPrice b = some l)
    (hel : me₁.orderBook.elements b = (me₁.orderBook.levelAt l).orders ++ rest) :
    Scanning a b l rest scan := by
  refine Loop.Heads.invariant hscan ?_ ⟨hready, hel,
    fun x hx => ⟨OrderBook.getBestPrice_filed hbest, hx⟩, fun _ => rfl⟩
  rintro scan scan' - haround hs
  obtain ⟨e, he, hpos, rfl⟩ := around_scan haround
  obtain ⟨queue, -, -, hs'⟩ := hs.step he hpos
  exact hs'

theorem Underway.level (h : Underway me me₁ a b) (hready : me.orderBook.Ready a)
    (hbest : me₁.orderBook.getBestPrice b = some l) (hscan : me₁.ScansFrom a l scan) :
    (∃ rest, Scanning a b l rest scan) ∧ Underway me scan.engine a b := by
  have hel := OrderBook.elements_eq_best hbest
  refine ⟨⟨_, hscan.scanning h.ready hbest hel⟩, ?_⟩
  refine Loop.Heads.invariant (P := fun scan => Underway me scan.engine a b) hscan ?_ h
  rintro scan scan' hscan haround hu
  obtain ⟨e, he, hpos, rfl⟩ := around_scan haround
  have hs := ScansFrom.scanning hscan h.ready hbest hel
  obtain ⟨queue, hq, hset, -⟩ := hs.step he hpos
  exact hu.trade hready (by rw [hs.elements, hq]) hset

theorem heads_underway (hready : me.orderBook.Ready a)
    (h : Loop.Heads (me.matchBody a) (me, []) s) :
    Underway me s.1 a (me.orderBook.opposing a) := by
  refine h.invariant (P := fun s => Underway me s.1 a (me.orderBook.opposing a)) ?_
    (Underway.refl hready)
  rintro s s' - ⟨n, haround⟩ hu
  obtain ⟨l, hcalls, hlevel⟩ := (matchBody_cases (hu.of_terms Order.type (fun _ => rfl) a)
    haround).resolve_right nofun
  obtain ⟨scan, hscan, hout | hout⟩ := matchLevel_cases hlevel
  · cases hout
  · cases hout
    exact (hu.level hready (hu.best hcalls) hscan).2

theorem Executes.first (h : Executes me a me₁ e) (hready : me.orderBook.Ready a) :
    Underway me me₁ a (me.orderBook.opposing a)
      ∧ ∃ rest, me₁.orderBook.elements (me.orderBook.opposing a) = e :: rest := by
  obtain ⟨-, s, l, scan, hheads, hcalls, hscan, rfl, he, hpos⟩ := h
  have hu := heads_underway hready hheads
  obtain ⟨⟨rest, hs⟩, hu'⟩ := hu.level hready (hu.best hcalls) hscan
  obtain ⟨queue, hq, -⟩ := hs.step he hpos
  exact ⟨hu', queue ++ rest, by rw [hs.elements, hq]; rfl⟩

/-! ## What every trade keeps -/

/-- The trades of a level. `P` is about the engine and the trades that were made so far. -/
theorem level_rule {P : MatchingEngine T → List Trade → Prop}
    (hvalid : (me.orderBook.orderAt a).isValid = true)
    (htrade : ∀ {me₁ e ts}, Executes me a me₁ e → P me₁ ts →
      P (me₁.afterTrade a e) (ts ++ [tradeOf me₁.orderBook.orderAt a e.value]))
    (hheads : Loop.Heads (me.matchBody a) (me, []) s) (hcalls : s.1.Calls a l)
    (hscan : s.1.ScansFrom a l scan) (h : P s.1 s.2) : P scan.engine (s.2 ++ scan.trades) := by
  refine hscan.invariant (P := fun scan => P scan.engine (s.2 ++ scan.trades)) ?_
    ((List.append_nil s.2).symm ▸ h)
  rintro scan scan' hscan haround hP
  obtain ⟨e, he, hpos, rfl⟩ := around_scan haround
  rw [← List.append_assoc]
  exact htrade ⟨hvalid, s, l, scan, hheads, hcalls, hscan, rfl, he, hpos⟩ hP

theorem matchOrder_iterate (hvalid : (me.orderBook.orderAt a).isValid = true) {fuel : Nat}
    {trades : List Trade} (h : me.matchOrder fuel a = some (me₁, trades)) :
    ∃ me', Loop.iterate (me.matchBody a) fuel (me, []) = some (me', trades)
      ∧ me₁ = (me'.restOrder a).announce a trades := by
  have hloop : Loop.iterate (me.matchBody a) fuel (me, []) =
      if (me.orderBook.orderAt a).type = .market then me.matchMarketOrder fuel a
      else me.matchLimitOrder fuel a := by
    split_ifs with hmarket
    · exact congrArg (Loop.iterate · fuel (me, [])) (funext₂ fun _ _ => if_pos hmarket)
    · exact congrArg (Loop.iterate · fuel (me, [])) (funext₂ fun _ _ => if_neg hmarket)
  simp only [matchOrder, if_pos hvalid, ← hloop] at h
  cases hrun : Loop.iterate (me.matchBody a) fuel (me, []) with
  | none => rw [hrun] at h; cases h
  | some r =>
      rw [hrun] at h
      obtain ⟨rfl, rfl⟩ := Prod.mk.injEq .. |>.mp (Option.some.inj h)
      exact ⟨r.1, rfl, rfl⟩

/-- What every trade of a command keeps holds when its matching is over. -/
theorem matching_rule {P : MatchingEngine T → List Trade → Prop} {fuel : Nat}
    {trades : List Trade} (hready : me.orderBook.Ready a)
    (hvalid : (me.orderBook.orderAt a).isValid = true)
    (htrade : ∀ {me₁ e ts}, Executes me a me₁ e → P me₁ ts →
      P (me₁.afterTrade a e) (ts ++ [tradeOf me₁.orderBook.orderAt a e.value]))
    (hunmatched : ∀ {me₁ ts}, P me₁ ts → P (unmatched a me₁) ts) (h₀ : P me [])
    (h : me.matchOrder fuel a = some (me₁, trades)) :
    ∃ me', P me' trades ∧ me₁ = (me'.restOrder a).announce a trades := by
  have hkeep : ∀ {s}, Loop.Heads (me.matchBody a) (me, []) s → P s.1 s.2 := by
    intro s hheads
    refine hheads.invariant (P := fun s => P s.1 s.2) ?_ h₀
    rintro s s' hheads ⟨n, haround⟩ hP
    have hu := heads_underway hready hheads
    obtain ⟨l, hcalls, hlevel⟩ := (matchBody_cases (hu.of_terms Order.type (fun _ => rfl) a)
      haround).resolve_right nofun
    obtain ⟨scan, hscan, hout | hout⟩ := matchLevel_cases hlevel
    · cases hout
    · cases hout
      exact level_rule hvalid htrade hheads hcalls hscan hP
  obtain ⟨me', hrun, rfl⟩ := matchOrder_iterate hvalid h
  refine ⟨me', ?_, rfl⟩
  obtain ⟨s, n, hheads, hexit⟩ := Loop.iterate_heads hrun
  have hu := heads_underway hready hheads
  rcases matchBody_cases (hu.of_terms Order.type (fun _ => rfl) a) hexit with
    ⟨l, hcalls, hlevel⟩ | ⟨-, hout⟩
  · obtain ⟨scan, hscan, hout | hout⟩ := matchLevel_cases hlevel
    · cases hout
      exact level_rule hvalid htrade hheads hcalls hscan (hkeep hheads)
    · cases hout
  · cases hout
    rcases close_cases s.1 a with hclose | hclose
    · rw [hclose]
      exact hkeep hheads
    · rw [hclose]
      exact hunmatched (hkeep hheads)

/-! ## Every trade has its moment -/

/-- The trade `t` is made at a moment of `matchOrder` for `a`. -/
def MadeIn (me : MatchingEngine T) (a : OrderRef) (t : Trade) : Prop :=
  ∃ me₁ e, Executes me a me₁ e ∧ t = (me₁.orderBook.executeTrade a e.value).2

theorem matchOrder_madeIn (hready : me.orderBook.Ready a) {fuel : Nat} {trades : List Trade}
    (h : me.matchOrder fuel a = some (me₁, trades)) : ∀ t ∈ trades, me.MadeIn a t := by
  by_cases hvalid : (me.orderBook.orderAt a).isValid = true
  · have htrade : ∀ {me₁ e ts}, Executes me a me₁ e → (∀ t ∈ ts, me.MadeIn a t) →
        ∀ t ∈ ts ++ [tradeOf me₁.orderBook.orderAt a e.value], me.MadeIn a t := by
      intro me₁ e ts hexec hmade
      refine List.forall_mem_append.mpr ⟨hmade, List.forall_mem_singleton.mpr ?_⟩
      exact ⟨me₁, e, hexec, by rw [OrderBook.executeTrade_eq]⟩
    obtain ⟨-, hmade, -⟩ := matching_rule (P := fun _ ts => ∀ t ∈ ts, me.MadeIn a t) hready hvalid
      htrade id (List.forall_mem_nil _) h
    exact hmade
  · simp only [matchOrder, if_neg hvalid] at h
    cases h
    exact List.forall_mem_nil _

end

/-! ## Between commands -/

section

variable {me me' : MatchingEngine T} {requests requests' : List Request} {request : Request}
  {trades trades' : List Trade} {r : OrderRef}

/-- Elements are made in the order of the commands. -/
def Aged (me : MatchingEngine T) : Prop :=
  ∀ b, ∀ e ∈ me.orderBook.elements b, ∀ e' ∈ me.orderBook.elements b,
    e.id < e'.id → e.value < e'.value

theorem Aged.step (h : me.Aged) (hs : me.Sound requests) (hh : Handled me me' request trades) :
    me'.Aged := by
  rcases hh.entered_or_subset with ⟨o, rfl, hvalid, hent⟩ | hsub
  · have hel := (me.sameShape_alloc o).elements
    have hmem := fun {b} {e : Element} => hent.mem_elements (b := b) (e := e) (hs.wf.newOrder o)
    intro b e he e' he' hlt
    rcases hmem.mp he with ⟨he, -⟩ | ⟨rfl, -⟩ <;> rcases hmem.mp he' with ⟨he', -⟩ | ⟨rfl, -⟩
    · exact h b e (hel b ▸ he) e' (hel b ▸ he') hlt
    · exact hs.wf.value_lt (hel b ▸ he)
    · -- the new element is younger than every element of the book
      obtain ⟨l, he'⟩ := OrderBook.mem_elements.mp (hel b ▸ he')
      exact absurd hlt (Nat.lt_asymm (hs.wf.layout.element_lt he'))
    · exact absurd hlt (Nat.lt_irrefl _)
  · exact fun b e he e' he' => h b e (hsub b he) e' (hsub b he')

theorem Run.aged {me₀ : MatchingEngine T} (h₀ : me₀.Initial) (h : Run me₀ requests me trades)
    (hfresh : FreshIDs requests) : me.Aged := by
  refine (h.induct h₀ (fun _ => True) (P := fun _ me _ => me.Aged) ?_
    (fun hs _ _ hh haged => haged.step hs hh) hfresh fun _ _ => trivial).2
  obtain ⟨instrument, hbook⟩ := h₀
  intro b e he
  rw [hbook, OrderBook.newOrderBook_elements] at he
  cases he

/-- The order has left the book for good. -/
def Gone (me : MatchingEngine T) (r : OrderRef) : Prop :=
  (me.orderBook.orderAt r).isFilled = true ∨ (me.orderBook.orderAt r).status = .cancelled

/-- An order leaves the book by being filled or cancelled only. -/
theorem Handled.gone (hh : Handled me me' request trades) (hs : me.Sound requests)
    (hfresh : FreshIDs (requests ++ [request])) (hr : me.orderBook.Resting r) :
    me'.orderBook.Resting r ∨ me'.Gone r := by
  obtain ⟨b, e, he, rfl⟩ := hr
  cases hh with
  | @entered o trades hvalid hent =>
      have hready := hs.ready hfresh
      by_cases hfront : e ∈ (me.alloc o).orderBook.front crosses me.orderBook.nextOrder
      · have hgone := walk_gone (m := (me.alloc o).orderBook.orderAt)
          (fun x hx => hready.ne_elements (OrderBook.mem_front hx))
          ((hready.wf.values_nodup _).sublist ((List.takeWhile_sublist _).map _)) hfront
        refine hgone.imp (fun hleft => (hent.resting_old hs.wf he).mpr fun _ => hleft)
          fun hfilled => Or.inl ?_
        rw [hent.orderAt]
        dsimp only
        rwa [Function.update_of_ne (Nat.ne_of_lt (hs.wf.value_lt he))]
      · exact Or.inl ((hent.resting_old hs.wf he).mpr fun hmem => absurd hmem hfront)
  | @rejected o hvalid heq =>
      refine Or.inl ⟨b, e, ?_, rfl⟩
      rw [heq, reject_elements, (me.sameShape_alloc o).elements]
      exact he
  | @withdrawn b' l e' he' hwith =>
      by_cases heq : e = e'
      · subst heq
        refine Or.inr (Or.inr ?_)
        rw [hwith.orderAt, Function.update_self]
      · refine Or.inl ⟨b, e, ?_, rfl⟩
        rw [hwith.elements, List.mem_filter]
        exact ⟨he, decide_eq_true heq⟩
  | notFound hid heq => exact heq ▸ Or.inl ⟨b, e, he, rfl⟩

theorem Run.gone {me₀ : MatchingEngine T} (h₀ : me₀.Initial) (h : Run me₀ requests me trades)
    (h' : Run me requests' me' trades') (hfresh : FreshIDs (requests ++ requests'))
    (hr : me.orderBook.Resting r) :
    r < me'.orderBook.nextOrder ∧ (me'.orderBook.Resting r ∨ me'.Gone r) := by
  induction h' with
  | nil =>
      rw [List.append_nil] at hfresh
      obtain ⟨b, e, he, rfl⟩ := hr
      exact ⟨(h.sound h₀ hfresh).wf.value_lt he, Or.inl ⟨b, e, he, rfl⟩⟩
  | @snoc requests' me₁ trades₁ request fuel me₂ response hrun hstep ih =>
      rw [← List.append_assoc] at hfresh
      obtain ⟨hlt, hor⟩ := ih hfresh.of_append
      have hs := (h.append hrun).sound h₀ hfresh.of_append
      have hh := handle_cases hs hfresh hstep
      refine ⟨hh.nextOrder ▸ Nat.lt_add_right _ hlt, ?_⟩
      by_cases hrest : me₁.orderBook.Resting r
      · exact hh.gone hs hfresh hrest
      · refine Or.inr ?_
        rw [Gone, (hh.untouched hs hfresh hlt hrest).orderAt]
        exact hor.resolve_left hrest

end

/-! ## Priority -/

/-- Order `r` has priority over order `r'`: they are on the same side,
and `r` has the better price, or the same price and came with an earlier
command (pointers are handed out in the order of the `NEW` commands). -/
def HasPriority (me : MatchingEngine T) (r r' : OrderRef) : Prop :=
  let o := me.orderBook.orderAt r
  let o' := me.orderBook.orderAt r'
  o.side = o'.side ∧ (better o.side.isBid o.price o'.price ∨ o.price = o'.price ∧ r < r')

section

variable {me me' me₁ : MatchingEngine T} {requests : List Request} {o : Order} {r : OrderRef}
  {e : Element}

/-- Nothing that rests has priority over the order that is filled. -/
theorem Executes.not_resting (hs : me.Sound requests) (haged : me.Aged)
    (hfresh : FreshIDs (requests ++ [.new o]))
    (h : Executes (me.alloc o) me.orderBook.nextOrder me₁ e) (hprio : me₁.HasPriority r e.value) :
    ¬me₁.orderBook.Resting r := by
  obtain ⟨hu, rest, hel⟩ := h.first (hs.ready hfresh)
  rintro ⟨b, x, hx, rfl⟩
  have he : e ∈ me₁.orderBook.elements ((me.alloc o).orderBook.opposing me.orderBook.nextOrder) :=
    hel ▸ List.mem_cons_self ..
  obtain ⟨hside, hprio⟩ := hprio
  have hside := congrArg OrderSide.isBid hside
  rw [hu.ready.wf.element_side hx, hu.ready.wf.element_side he] at hside
  subst hside
  rw [hu.ready.wf.element_side hx] at hprio
  change better _ (me₁.orderBook.priceOf x) (me₁.orderBook.priceOf e)
    ∨ me₁.orderBook.priceOf x = me₁.orderBook.priceOf e ∧ _ at hprio
  have hsorted := hu.ready.wf.layout.elements_sorted
    ((me.alloc o).orderBook.opposing me.orderBook.nextOrder)
  rw [hel, List.pairwise_cons] at hsorted
  have hsub := hu.subset
  rw [(me.sameShape_alloc o).elements] at hsub
  have hx' := hx
  rw [hel, List.mem_cons] at hx'
  rcases hx' with rfl | hx'
  · exact hprio.elim (better_irrefl _ _) fun h => Nat.lt_irrefl _ h.2
  · rcases hsorted.1 x hx' with hbetter | ⟨hprice, hlt⟩
    · rcases hprio with hprio | ⟨hprio, -⟩
      · exact better_asymm hbetter hprio
      · exact better_irrefl _ _ (hprio ▸ hbetter)
    · rcases hprio with hprio | ⟨-, hprio⟩
      · exact better_irrefl _ _ (hprice ▸ hprio)
      · exact Nat.lt_asymm hprio (haged _ e (hsub he) x (hsub hx) hlt)

/-- An order with priority over the order that is filled, if it was in
the book when the command came, is gone. -/
theorem Executes.gone (hs : me.Sound requests) (haged : me.Aged)
    (hfresh : FreshIDs (requests ++ [.new o]))
    (h : Executes (me.alloc o) me.orderBook.nextOrder me₁ e) (hprio : me₁.HasPriority r e.value)
    (hlt : r < me.orderBook.nextOrder) (hor : me.orderBook.Resting r ∨ me.Gone r) :
    me₁.Gone r := by
  have hnot := h.not_resting hs haged hfresh hprio
  obtain ⟨hu, rest, hel⟩ := h.first (hs.ready hfresh)
  have hel' := (me.sameShape_alloc o).elements
  by_cases hrest : me.orderBook.Resting r
  · obtain ⟨b, x, hx, rfl⟩ := hrest
    by_cases hb : b = (me.alloc o).orderBook.opposing me.orderBook.nextOrder
    · subst hb
      rcases hu.gone x (hel' _ ▸ hx) with hmem | hfilled
      · exact absurd ⟨_, x, hmem, rfl⟩ hnot
      · exact Or.inl hfilled
    · -- the own side is as it was
      rw [Bool.eq_not_of_ne hb, ← hel', ← hu.elements_other] at hx
      exact absurd ⟨_, x, hx, rfl⟩ hnot
  · have horder : me₁.orderBook.orderAt r = me.orderBook.orderAt r := by
      rw [hu.orderAt r (Nat.ne_of_lt hlt), alloc_of_lt hlt]
      exact fun x hx hvalue => hrest ⟨_, x, hel' _ ▸ hx, hvalue⟩
    rw [Gone, horder]
    exact hor.resolve_left hrest

end

end MatchingEngine

/-- Price-time priority over whole runs. Every trade of a `NEW` command is
made at a moment of the command; at such a moment no resting order has
priority over the order that is filled, and an order with priority that
was in the book at any earlier point of the run has been filled or
cancelled. -/
theorem price_time_priority {me₀ me me' me'' : MatchingEngine T} {requests requests' : List Request}
    {trades trades' : List Trade} {o : Order} {fuel : Nat} {response : CommandResponse}
    (h₀ : me₀.Initial) (hrun : MatchingEngine.Run me₀ requests me trades)
    (hrun' : MatchingEngine.Run me requests' me' trades')
    (hfresh : FreshIDs (requests ++ requests' ++ [.new o]))
    (hstep : me'.handle fuel (.new o) = some (me'', response)) :
    (∀ t ∈ response.trades, ∃ me₁ e,
      MatchingEngine.Executes (me'.alloc o) me'.orderBook.nextOrder me₁ e
      ∧ t = (me₁.orderBook.executeTrade me'.orderBook.nextOrder e.value).2)
    ∧ ∀ me₁ e, MatchingEngine.Executes (me'.alloc o) me'.orderBook.nextOrder me₁ e →
      ∀ r, me₁.HasPriority r e.value →
        ¬me₁.orderBook.Resting r
        ∧ (me.orderBook.Resting r → (me₁.orderBook.orderAt r).isFilled = true
            ∨ (me₁.orderBook.orderAt r).status = .cancelled) := by
  have hs := (hrun.append hrun').sound h₀ hfresh.of_append
  have haged := (hrun.append hrun').aged h₀ hfresh.of_append
  refine ⟨?_, fun me₁ e hexec r hprio => ⟨hexec.not_resting hs haged hfresh hprio, fun hr => ?_⟩⟩
  · rw [MatchingEngine.handle, MatchingEngine.processCommand] at hstep
    cases hmatch : (me'.alloc o).matchOrder fuel me'.orderBook.nextOrder with
    | none => simp only [OrderBook.newOrder, hmatch] at hstep; cases hstep
    | some result =>
        simp only [OrderBook.newOrder, hmatch] at hstep
        cases hstep
        exact MatchingEngine.matchOrder_madeIn (hs.ready hfresh) hmatch
  · obtain ⟨hlt, hor⟩ := hrun.gone h₀ hrun' hfresh.of_append hr
    exact hexec.gone hs haged hfresh hprio hlt hor

/-- `sellFive` is ahead of `sellBehind` in the queue. It is filled in part and
then cancelled, and `buyTen` fills `sellBehind`. -/
theorem price_time_priority_fill :
    let me := emptyEngine.after 9 [.new sellFive, .new sellBehind, .new sellHigher]
    let me' := me.after 9 [.new buyThree, .cancel sellFive.id]
    let me₁ := me'.alloc buyTen
    me.orderBook.Resting 0
    ∧ (∃ e, MatchingEngine.Executes me₁ me'.orderBook.nextOrder me₁ e
      ∧ (me₁.orderBook.orderAt e.value).id = sellBehind.id ∧ me₁.HasPriority 0 e.value)
    ∧ ¬me₁.orderBook.Resting 0
    ∧ ((me₁.orderBook.orderAt 0).isFilled = true
      ∨ (me₁.orderBook.orderAt 0).status = .cancelled) := by
  intro me me' me₁
  obtain ⟨trades, hrun⟩ := MatchingEngine.after_run (show (emptyEngine.handleAll 9
    [.new sellFive, .new sellBehind, .new sellHigher]).isSome = true by decide +kernel)
  obtain ⟨trades', hrun'⟩ := MatchingEngine.after_run
    (show (me.handleAll 9 [.new buyThree, .cancel sellFive.id]).isSome = true by decide +kernel)
  obtain ⟨response, hstep⟩ := me'.handle_after 9 (.new buyTen) (by decide +kernel)
  have hresting : me.orderBook.Resting 0 := ⟨false, ⟨0, 0⟩, by decide +kernel, rfl⟩
  have hexec : MatchingEngine.Executes me₁ me'.orderBook.nextOrder me₁ ⟨1, 1⟩ := by
    refine ⟨by decide +kernel, (me₁, []), 0, ⟨me₁, some ⟨1, 1⟩, []⟩, .refl, ?_, ?_, rfl, rfl, ?_⟩
    · exact ⟨by decide +kernel, by decide +kernel, by decide +kernel⟩
    · have hhead : (me₁.orderBook.levelAt 0).orders.head? = some ⟨1, 1⟩ := by decide +kernel
      rw [MatchingEngine.ScansFrom, hhead]
      exact .refl
    · decide +kernel
  have hprio : me₁.HasPriority 0 1 := ⟨by decide +kernel, Or.inr ⟨by decide +kernel, by decide⟩⟩
  obtain ⟨hnot, hgone⟩ := (price_time_priority emptyEngine_initial hrun hrun' (by decide) hstep).2
    me₁ ⟨1, 1⟩ hexec 0 hprio
  exact ⟨hresting, ⟨⟨1, 1⟩, hexec, by decide +kernel, hprio⟩, hnot, hgone hresting⟩

end TradingBackend
