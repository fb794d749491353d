import TradingBackend.LevelVolumes

/-!
# Limits and market orders

The two loops of the engine on the same book. `matchLimitOrder` and
`matchMarketOrder` are written separately, but what either does to the opposing
side is an execution against the orders in front that cross
(`Sound.matched_plain`), and the trades of an execution read neither the price
nor the type of the aggressor (`execute_terms`). So only the fronts are to be
compared: the front of a limit order is a prefix of the front of a more
aggressive one, and the front of a market order is the whole side.
-/

namespace TradingBackend

/-- An execution reads neither the type nor the price of the aggressor. -/
theorem execute_terms (o : Order) (type : OrderType) (price : Decimal) (queue : List Order) :
    execute { o with type := type, price := price } queue =
      { execute o queue with
        aggressor := { (execute o queue).aggressor with type := type, price := price } } := by
  refine execute_map (f := fun o => { o with type := type, price := price })
    (fun _ _ => rfl) (fun _ => rfl) (fun o r => ?_) o queue
  unfold tradeBetween
  dsimp only
  split_ifs <;> rfl

theorem sum_quantity_le_of_prefix {trades trades' : List Trade} (h : trades <+: trades')
    (hpos : ∀ t ∈ trades', 0 < t.quantity) :
    (trades.map Trade.quantity).sum ≤ (trades'.map Trade.quantity).sum := by
  obtain ⟨more, rfl⟩ := h
  rw [List.map_append, List.sum_append]
  refine le_add_of_nonneg_right (List.sum_nonneg ?_)
  exact List.forall_mem_map.mpr fun t ht => (hpos t (List.mem_append_right _ ht)).le

/-- Nothing crosses at a limit and not at a more aggressive one. -/
theorem crosses_of_aggressive {o : Order} {price : Decimal}
    (h : if o.side = .buy then o.price ≤ price else price ≤ o.price) {p : Decimal}
    (hcrosses : crosses o p = true) : crosses { o with price := price } p = true := by
  rw [crosses, Bool.or_eq_true] at hcrosses ⊢
  refine hcrosses.imp id fun hmatch => ?_
  unfold MatchingEngine.canMatch at hmatch ⊢
  dsimp only
  split_ifs at h hmatch ⊢
  · exact decide_eq_true ((of_decide_eq_true hmatch).trans h)
  · exact decide_eq_true (h.trans (of_decide_eq_true hmatch))

namespace PlainBook

variable {book : PlainBook} {o o' : Order}

theorem front_of_crosses (hside : o.side = o'.side)
    (hcrosses : ∀ p, crosses o p = true → crosses o' p = true) :
    book.front o = (book.front o').takeWhile fun r => crosses o r.price := by
  rw [front, front, hside, List.takeWhile_takeWhile]
  congr 1
  funext r
  rw [Bool.eq_iff_iff, decide_eq_true_eq]
  exact ⟨fun h => ⟨h, hcrosses _ h⟩, fun h => h.1⟩

theorem front_prefix (hside : o.side = o'.side)
    (hcrosses : ∀ p, crosses o p = true → crosses o' p = true) :
    book.front o <+: book.front o' := by
  rw [front_of_crosses hside hcrosses]
  exact List.takeWhile_prefix _

theorem execution_prefix {price : Decimal}
    (h : if o.side = .buy then o.price ≤ price else price ≤ o.price) :
    (book.execution o).trades <+: (book.execution { o with price := price }).trades := by
  have hfront : book.front o <+: book.front { o with price := price } :=
    front_prefix rfl fun _ => crosses_of_aggressive h
  have hterms := execute_terms o o.type price (book.front { o with price := price })
  obtain ⟨more, hmore⟩ := hfront
  rw [execution, execution, hterms, ← hmore]
  exact execute_trades_append ..

theorem front_of_forall (h : ∀ r ∈ book (!o.side.isBid), crosses o r.price = true) :
    book.front o = book (!o.side.isBid) :=
  List.takeWhile_eq_self_iff.mpr h

theorem behind_of_forall (h : ∀ r ∈ book (!o.side.isBid), crosses o r.price = true) :
    book.behind o = [] :=
  List.dropWhile_eq_nil_iff.mpr h

theorem execution_market (h : ∀ r ∈ book (!o.side.isBid), crosses o r.price = true)
    (price : Decimal) :
    let market : Order := { o with type := .market, price := price }
    (book.execution market).trades = (book.execution o).trades
      ∧ (book.execution market).left ++ book.behind market =
        (book.execution o).left ++ book.behind o := by
  intro market
  have hmarket : ∀ r ∈ book (!market.side.isBid), crosses market r.price = true := fun _ _ => rfl
  have hfront : book.front market = book.front o :=
    (front_of_forall hmarket).trans (front_of_forall h).symm
  rw [behind_of_forall hmarket, behind_of_forall h, execution, execution, hfront, execute_terms]
  exact ⟨rfl, rfl⟩

end PlainBook

namespace MatchingEngine

variable {T : Type} [OrderedTree T Decimal LevelRef] {me : MatchingEngine T}
  {requests : List Request} {o : Order}

theorem Sound.matched_plain (hs : me.Sound requests)
    (hfresh : FreshIDs (requests ++ [.new o])) :
    ∃ fuel me',
      (if o.type = .market then (me.alloc o).matchMarketOrder fuel me.orderBook.nextOrder
        else (me.alloc o).matchLimitOrder fuel me.orderBook.nextOrder) =
          some (me', (PlainBook.execution me.orderBook.restingOrders o).trades)
      ∧ me'.orderBook.WF
      ∧ me'.orderBook.restingOrders (!o.side.isBid) =
        (PlainBook.execution me.orderBook.restingOrders o).left
          ++ PlainBook.behind me.orderBook.restingOrders o := by
  have hready := hs.ready hfresh
  obtain ⟨fuel, me', trades, hrun, hswept⟩ := matched_swept hready
  have horderAt : (me'.close me.orderBook.nextOrder).orderBook.orderAt =
      Function.update (walk me.orderBook.nextOrder (me.alloc o).orderBook.orderAt
        ((me.alloc o).orderBook.front crosses me.orderBook.nextOrder)).orderAt
        me.orderBook.nextOrder (me'.orderBook.orderAt me.orderBook.nextOrder).closed := by
    rw [← hswept.orderAt]
    rfl
  have hbook := hready.restingOrders_opposing horderAt
    (((me'.sameShape_close _).elements _).trans hswept.elements)
  have htrades := hswept.trades_eq.trans (congrArg Execution.trades hready.execution_eq).symm
  rw [OrderBook.opposing, alloc_self, hs.restingOrders_alloc] at hbook
  rw [alloc_self, hs.restingOrders_alloc] at htrades
  rw [alloc_self] at hrun
  exact ⟨fuel, _, htrades ▸ hrun, close_wf hswept.ready, hbook⟩

theorem Stocked.restingOrders (h : me.Stocked) (b : Bool) :
    ∀ r ∈ me.orderBook.restingOrders b, 0 < r.remainingQuantity :=
  List.forall_mem_map.mpr fun e he => (h b e he).remaining_pos

end MatchingEngine

variable {T : Type} [OrderedTree T Decimal LevelRef]

/-- The trades of a limit order begin those of a more aggressive one, and an
order whose limit crosses the whole opposing side does what a market order does. -/
theorem limit_and_market_agree {me₀ me : MatchingEngine T} {requests : List Request}
    {trades₀ : List Trade} {o : Order} (h₀ : me₀.Initial)
    (hrun : MatchingEngine.Run me₀ requests me trades₀)
    (hfresh : FreshIDs (requests ++ [.new o])) (hlimit : o.type = .limit) :
    (∀ price, (if o.side = .buy then o.price ≤ price else price ≤ o.price) →
      ∃ fuel me₁ trades fuel' me₂ trades',
        (me.alloc o).matchLimitOrder fuel me.orderBook.nextOrder = some (me₁, trades)
        ∧ (me.alloc { o with price := price }).matchLimitOrder fuel' me.orderBook.nextOrder =
          some (me₂, trades')
        ∧ trades <+: trades'
        ∧ (trades.map Trade.quantity).sum ≤ (trades'.map Trade.quantity).sum)
    ∧ ((∀ level ∈ me.orderBook.contents (!o.side.isBid),
          MatchingEngine.canMatch o level.price = true) →
      ∀ price, ∃ fuel me₁ fuel' me₂ trades,
        (me.alloc o).matchLimitOrder fuel me.orderBook.nextOrder = some (me₁, trades)
        ∧ (me.alloc { o with type := .market, price := price }).matchMarketOrder fuel'
            me.orderBook.nextOrder = some (me₂, trades)
        ∧ me₁.orderBook.contents (!o.side.isBid) = me₂.orderBook.contents (!o.side.isBid)) := by
  have hs := hrun.sound h₀ hfresh.of_append
  have hstock := hrun.stocked h₀ hfresh.of_append
  have hnew : ∀ o' : Order, o'.id = o.id → FreshIDs (requests ++ [.new o']) := by
    intro o' hid
    rw [FreshIDs, submitted_append_new, List.map_append] at hfresh ⊢
    rwa [List.map_singleton, hid]
  have hnot : ¬o.type = .market := by
    rw [hlimit]
    decide
  obtain ⟨fuel, me₁, hloop, hwf, hbook⟩ := hs.matched_plain hfresh
  rw [if_neg hnot] at hloop
  refine ⟨fun price hprice => ?_, fun hall price => ?_⟩
  · obtain ⟨fuel', me₂, hloop', -⟩ :=
      hs.matched_plain (o := { o with price := price }) (hnew _ rfl)
    rw [if_neg hnot] at hloop'
    refine ⟨fuel, me₁, _, fuel', me₂, _, hloop, hloop', ?_⟩
    have hmore : (PlainBook.execution me.orderBook.restingOrders o).trades <+:
        (PlainBook.execution me.orderBook.restingOrders { o with price := price }).trades :=
      PlainBook.execution_prefix hprice
    refine ⟨hmore, sum_quantity_le_of_prefix hmore (execute_quantity_pos fun r hr => ?_)⟩
    exact hstock.restingOrders _ r ((List.takeWhile_sublist _).subset hr)
  · have hcrosses : ∀ r ∈ me.orderBook.restingOrders (!o.side.isBid),
        crosses o r.price = true := by
      intro r hr
      rw [OrderBook.restingOrders_eq_flatten, ← List.flatMap_def] at hr
      obtain ⟨level, hlevel, hr⟩ := List.mem_flatMap.mp hr
      rw [crosses, (hs.wf.proper level hlevel).price r hr, hall level hlevel, Bool.or_true]
    obtain ⟨fuel', me₂, hloop', hwf', hbook'⟩ :=
      hs.matched_plain (o := { o with type := .market, price := price }) (hnew _ rfl)
    rw [if_pos rfl] at hloop'
    obtain ⟨htrades, hside⟩ := PlainBook.execution_market hcrosses price
    refine ⟨fuel, me₁, fuel', me₂, _, hloop, htrades ▸ hloop', hwf.contents_congr hwf' ?_⟩
    rw [hbook, ← hside]
    exact hbook'.symm

/-- A buy order at 102 takes from both sell levels what a market order takes, and
at 103 it trades at least as much. -/
theorem limit_and_market_agree_buy :
    let o : Order := { buyTen with price := 102 }
    let me := emptyEngine.after 9 [.new sellFive, .new sellHigher]
    (∃ fuel me₁ trades fuel' me₂ trades',
      (me.alloc o).matchLimitOrder fuel me.orderBook.nextOrder = some (me₁, trades)
      ∧ (me.alloc { o with price := 103 }).matchLimitOrder fuel' me.orderBook.nextOrder =
        some (me₂, trades')
      ∧ trades <+: trades'
      ∧ (trades.map Trade.quantity).sum ≤ (trades'.map Trade.quantity).sum)
    ∧ ∃ fuel me₁ fuel' me₂ trades,
      (me.alloc o).matchLimitOrder fuel me.orderBook.nextOrder = some (me₁, trades)
      ∧ (me.alloc { o with type := .market, price := 0 }).matchMarketOrder fuel'
          me.orderBook.nextOrder = some (me₂, trades)
      ∧ me₁.orderBook.contents false = me₂.orderBook.contents false := by
  intro o me
  obtain ⟨trades, hrun⟩ := MatchingEngine.after_run
    (show (emptyEngine.handleAll 9 [.new sellFive, .new sellHigher]).isSome = true by
      decide +kernel)
  have hagree := limit_and_market_agree (o := o) emptyEngine_initial hrun (by decide) rfl
  refine ⟨hagree.1 103 (show (102 : Decimal) ≤ 103 by decide), hagree.2 ?_ 0⟩
  decide +kernel

end TradingBackend
