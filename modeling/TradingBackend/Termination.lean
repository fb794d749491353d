import TradingBackend.Priority

/-!
# Matching terminates

The loops over levels and orders have no counter. The inner one is at the front
of the queue of the best level as long as there is something to trade
(`Scanning`), and every trade of it fills one of the two orders. So an
iteration of the outer loop ends with the aggressor filled or with the level
empty and therefore gone, and the loop comes around only in the second case,
with fewer opposing orders than before.

That a resting order has something left is not needed: an order with nothing
left is filled by a trade of nothing and leaves.
-/

namespace TradingBackend

variable {T : Type} [OrderedTree T Decimal LevelRef]

namespace MatchingEngine

variable {me me' : MatchingEngine T} {a : OrderRef} {b : Bool} {l : LevelRef} {n : Nat}
  {s s' : MatchingEngine T × List Trade} {scan : LevelScan T} {rest : List Element}

/-- The level is no more in the tree, and its orders are no more in the book. -/
def LevelRemoved (me me' : MatchingEngine T) (b : Bool) (l : LevelRef) : Prop :=
  ¬me'.orderBook.Filed b l
    ∧ me.orderBook.elements b = (me.orderBook.levelAt l).orders ++ me'.orderBook.elements b

/-- A scan that runs out of orders leaves no level. -/
theorem Scanning.removed (h : Scanning a b l rest scan) (hnone : scan.element = none)
    (hpos : 0 < (scan.engine.orderBook.orderAt a).remainingQuantity) :
    ¬scan.engine.orderBook.Filed b l ∧ scan.engine.orderBook.elements b = rest := by
  have hnil : (scan.engine.orderBook.levelAt l).orders = [] := by
    rw [← List.head?_eq_none_iff, ← h.front hpos]
    exact hnone
  refine ⟨fun hfiled => h.ready.wf.layout.nonempty hfiled hnil, ?_⟩
  rw [h.elements, hnil, List.nil_append]

/-- The inner loop ends: it fills the aggressor or removes the level. -/
theorem matchAgainstPriceLevel_ends (hready : me.orderBook.Ready a)
    (hbest : me.orderBook.getBestPrice b = some l)
    (hpos : 0 < (me.orderBook.orderAt a).remainingQuantity) :
    ∃ fuel me' trades, me.matchAgainstPriceLevel fuel a l = some (me', trades)
      ∧ ((me'.orderBook.orderAt a).isFilled = true ∨ me.LevelRemoved me' b l) := by
  have hel := OrderBook.elements_eq_best hbest
  have hholds : ∀ x ∈ (me.orderBook.levelAt l).orders, me.orderBook.Holds b l x :=
    fun x hx => ⟨OrderBook.getBestPrice_filed hbest, hx⟩
  obtain ⟨fuel, me', trades, hrun, hswept⟩ := matchAgainstPriceLevel_swept hready hel hholds
  refine ⟨fuel, me', trades, hrun, or_iff_not_imp_left.mpr fun hfilled => ?_⟩
  have hnonneg := walk_nonneg (fun x hx => hready.ne (hholds x hx)) hpos.le
  rw [← hswept.orderAt] at hnonneg
  have hpos' : 0 < (me'.orderBook.orderAt a).remainingQuantity :=
    lt_of_le_of_ne hnonneg fun hzero => hfilled (Order.isFilled_iff_remaining.mpr hzero.symm)
  -- the head the loop was left from
  obtain ⟨scan, m, hscan, hexit⟩ := Loop.iterate_heads hrun
  rcases scanBody_cases a l scan with ⟨hend, hout⟩ | ⟨e, he, hgo⟩
  · rw [hout] at hexit
    obtain ⟨rfl, -⟩ := Prod.mk.injEq .. |>.mp (Sum.inl.inj (Option.some.inj hexit))
    have hnone : scan.element = none := hend.resolve_right (not_not_intro hpos')
    obtain ⟨hgone, helements⟩ := (ScansFrom.scanning hscan hready hbest hel).removed hnone hpos'
    exact ⟨hgone, by rw [helements, hel]⟩
  · rw [scanBody_trade he hgo] at hexit
    cases hexit

/-- The outer loop comes around only without the level it worked on. -/
theorem matchBody_removes (hready : me.orderBook.Ready a)
    (hheads : Loop.Heads (me.matchBody a) (me, []) s)
    (haround : me.matchBody a n s = some (.inr s')) :
    ∃ l, s.1.Calls a l ∧ s.1.LevelRemoved s'.1 (me.orderBook.opposing a) l := by
  have hu := heads_underway hready hheads
  obtain ⟨l, hcalls, hlevel⟩ := (matchBody_cases (hu.of_terms Order.type (fun _ => rfl) a)
    haround).resolve_right nofun
  refine ⟨l, hcalls, ?_⟩
  obtain ⟨fuel, me', trades, hrun, hends⟩ :=
    matchAgainstPriceLevel_ends hu.ready (hu.best hcalls) hcalls.1
  cases hrun' : s.1.matchAgainstPriceLevel n a l with
  | none => simp only [matchLevel, hrun'] at hlevel; cases hlevel
  | some r =>
      obtain rfl := Loop.iterate_det (scanBody_mono a l) hrun' hrun
      simp only [matchLevel, hrun'] at hlevel
      split_ifs at hlevel with hfilled
      · cases hlevel
      · cases hlevel
        exact hends.resolve_left hfilled

theorem LevelRemoved.length_lt (h : me.LevelRemoved me' b l) (hl : me.orderBook.Layout)
    (hfiled : me.orderBook.Filed b l) :
    (me'.orderBook.elements b).length < (me.orderBook.elements b).length := by
  rw [h.2, List.length_append]
  exact Nat.lt_add_of_pos_left (List.length_pos_iff.mpr (hl.nonempty hfiled))

end MatchingEngine

/-- Matching ends, from every book that requests lead to and for every
order, valid or not: the loop over the levels does, in every iteration of it the loop over
the orders of the best level does, which leaves the aggressor filled or the
level removed, and each time the outer loop comes around the opposing side has
fewer orders. -/
theorem matching_terminates {me₀ me : MatchingEngine T} {requests : List Request}
    {trades₀ : List Trade} {o : Order} (h₀ : me₀.Initial)
    (hrun : MatchingEngine.Run me₀ requests me trades₀)
    (hfresh : FreshIDs (requests ++ [.new o])) :
    let me₁ := me.alloc o
    let a := me.orderBook.nextOrder
    let b := !o.side.isBid
    (∃ fuel r, (if o.type = .market then me₁.matchMarketOrder fuel a
        else me₁.matchLimitOrder fuel a) = some r)
      ∧ (∃ fuel r, me₁.matchOrder fuel a = some r)
      ∧ ∀ s, Loop.Heads (me₁.matchBody a) (me₁, []) s →
        (∀ l, s.1.Calls a l → ∃ fuel me' trades,
          s.1.matchAgainstPriceLevel fuel a l = some (me', trades)
            ∧ ((me'.orderBook.orderAt a).isFilled = true ∨ s.1.LevelRemoved me' b l))
        ∧ ∀ n s', me₁.matchBody a n s = some (.inr s') →
          (s'.1.orderBook.elements b).length < (s.1.orderBook.elements b).length := by
  intro me₁ a b
  have hready := (hrun.sound h₀ hfresh.of_append).ready hfresh
  have ho : me₁.orderBook.orderAt a = o := me.alloc_self o
  have hb : me₁.orderBook.opposing a = b := congrArg (fun o : Order => !o.side.isBid) ho
  obtain ⟨fuel, me', trades, hloop, -⟩ := MatchingEngine.matched_swept hready
  rw [ho] at hloop
  obtain ⟨fuel', me'', trades', hmatch, -⟩ := MatchingEngine.matchOrder_spec hready
  refine ⟨⟨fuel, _, hloop⟩, ⟨fuel', _, hmatch⟩, fun s hheads => ?_⟩
  have hu := MatchingEngine.heads_underway hready hheads
  refine ⟨fun l hcalls => ?_, fun n s' haround => ?_⟩
  · exact MatchingEngine.matchAgainstPriceLevel_ends hu.ready (hb ▸ hu.best hcalls) hcalls.1
  · obtain ⟨l, hcalls, hremoved⟩ := MatchingEngine.matchBody_removes hready hheads haround
    have hfiled := OrderBook.getBestPrice_filed (hu.best hcalls)
    exact hb ▸ hremoved.length_lt hu.ready.wf.layout hfiled

/-- A buy order of 3 against a sell order of 5. -/
theorem matching_terminates_buy :
    ∃ me trades, MatchingEngine.Run emptyEngine [.new sellFive] me trades
      ∧ ∃ fuel r, (me.alloc buyThree).matchLimitOrder fuel me.orderBook.nextOrder = some r := by
  obtain ⟨me, trades, hrun⟩ := MatchingEngine.run_total emptyEngine_initial [.new sellFive]
    (by decide)
  obtain ⟨fuel, r, hloop⟩ :=
    (matching_terminates emptyEngine_initial hrun (o := buyThree) (by decide)).1
  exact ⟨me, trades, hrun, fuel, r, hloop⟩

end TradingBackend
