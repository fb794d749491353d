import TradingBackend.Priority

/-!
# Orders out of reach

What an order that is in no queue of the book can expect, whatever the other
ids of the commands are: nothing. In the course of matching queues only get
shorter and levels only leave the trees (`Shrunk`), also where an id is in the
book twice and the map points at the wrong one, and the only order that a `NEW`
command puts into a queue is its own. So an id that no reachable queue holds and
that no command brings in is named by no trade.

The other invariants of the book are not used here: they need fresh ids.
-/

namespace TradingBackend

variable {T : Type} [OrderedTree T Decimal LevelRef]

theorem mem_of_nextElement {e x : Element} {queue : List Element}
    (h : nextElement e queue = some x) : x ∈ queue := by
  induction queue with
  | nil => cases h
  | cons y queue ih =>
      rw [nextElement] at h
      split_ifs at h
      · exact List.mem_cons_of_mem _ (List.mem_of_mem_head? h)
      · exact List.mem_cons_of_mem _ (ih h)

namespace OrderBook

/-- Orders have been filled, canceled or taken out on the way to `ob'`; none has
come in. -/
structure Shrunk (ob ob' : OrderBook T) : Prop where
  terms : ∀ r, (ob'.orderAt r).terms = (ob.orderAt r).terms
  nextOrder : ob'.nextOrder = ob.nextOrder
  queue : ∀ {l e}, e ∈ (ob'.levelAt l).orders → e ∈ (ob.levelAt l).orders
  filed : ∀ {b l}, ob'.Filed b l → ob.Filed b l

variable {ob ob' ob'' : OrderBook T} {b : Bool} {l : LevelRef} {e : Element}

namespace Shrunk

theorem refl (ob : OrderBook T) : Shrunk ob ob := ⟨fun _ => rfl, rfl, id, id⟩

theorem trans (h : Shrunk ob ob') (h' : Shrunk ob' ob'') : Shrunk ob ob'' :=
  ⟨fun r => (h'.terms r).trans (h.terms r), h'.nextOrder.trans h.nextOrder,
    fun he => h.queue (h'.queue he), fun hl => h.filed (h'.filed hl)⟩

theorem holds (h : Shrunk ob ob') (he : ob'.Holds b l e) : ob.Holds b l e :=
  ⟨h.filed he.1, h.queue he.2⟩

theorem id_eq (h : Shrunk ob ob') (r : OrderRef) : (ob'.orderAt r).id = (ob.orderAt r).id :=
  Order.eq_of_terms Order.id (fun _ => rfl) (h.terms r)

theorem setOrders (h : Shrunk ob ob') (orders : Finmap fun _ : UUID => OrderLocation) :
    Shrunk ob { ob' with orders := orders } :=
  ⟨h.terms, h.nextOrder, h.queue, h.filed⟩

end Shrunk

theorem shrunk_setOrder {r : OrderRef} {o : Order} (h : o.terms = (ob.orderAt r).terms) :
    Shrunk ob (ob.setOrder r o) where
  terms r' := by
    by_cases hr : r' = r
    · subst hr
      exact (congrArg Order.terms (Function.update_self ..)).trans h
    · exact congrArg Order.terms (Function.update_of_ne hr ..)
  nextOrder := rfl
  queue he := he
  filed hl := hl

theorem shrunk_setLevel {pl : PriceLevel}
    (h : ∀ e ∈ pl.orders, e ∈ (ob.levelAt l).orders) : Shrunk ob (ob.setLevel l pl) where
  terms _ := rfl
  nextOrder := rfl
  queue {l' e} he := by
    by_cases hl : l' = l
    · subst hl
      have hself : (ob.setLevel l' pl).levelAt l' = pl := Function.update_self ..
      rw [hself] at he
      exact h e he
    · have hother : (ob.setLevel l pl).levelAt l' = ob.levelAt l' := Function.update_of_ne hl ..
      rwa [hother] at he
  filed hl := hl

theorem shrunk_removePriceLevel (ob : OrderBook T) (b : Bool) (price : Decimal) :
    Shrunk ob (ob.removePriceLevel b price) where
  terms _ := rfl
  nextOrder := rfl
  queue he := he
  filed := by
    rintro b' l ⟨p, hl⟩
    refine ⟨p, ?_⟩
    have hl := mem_items_setSide.mp hl
    split_ifs at hl with hb
    · subst hb
      exact (OrderedTree.mem_items_delete.mp hl).1
    · exact hl

theorem shrunk_detach (ob : OrderBook T) (orderID : UUID) (location : OrderLocation) :
    Shrunk ob (ob.detach orderID location) := by
  have hlevel : Shrunk ob (ob.setLevel location.priceLevel
      ((ob.levelAt location.priceLevel).removeOrder ob.orderAt location.element)) :=
    shrunk_setLevel fun e he => List.mem_of_mem_erase he
  unfold detach
  dsimp only
  split_ifs
  · exact (hlevel.trans (shrunk_removePriceLevel ..)).setOrders _
  · exact hlevel.setOrders _

theorem shrunk_removeOrder (ob : OrderBook T) (orderID : UUID) :
    Shrunk ob (ob.removeOrder orderID).1 := by
  unfold removeOrder
  split
  · exact .refl ob
  · exact shrunk_detach ..

theorem shrunk_cancelOrder (ob : OrderBook T) (orderID : UUID) :
    Shrunk ob (ob.cancelOrder orderID).1 := by
  unfold cancelOrder
  split
  · exact .refl ob
  · exact (shrunk_detach ..).trans (shrunk_setOrder rfl)

theorem shrunk_updateOrder (ob : OrderBook T) (orderID : UUID) (newFilledQty : Decimal) :
    Shrunk ob (ob.updateOrder orderID newFilledQty) := by
  unfold updateOrder
  split
  · exact .refl ob
  · rename_i location _
    have hset : Shrunk ob (ob.setOrder location.element.value
        ((ob.orderAt location.element.value).setFilled newFilledQty)) := shrunk_setOrder rfl
    exact hset.trans (shrunk_setLevel fun _ he => he)

theorem shrunk_executeTrade (ob : OrderBook T) (a r : OrderRef) :
    Shrunk ob (ob.executeTrade a r).1 := by
  rw [executeTrade_eq]
  exact ⟨tradeOrders_of_fill Order.terms (fun _ _ => rfl) ob.orderAt a r, rfl, id, id⟩

/-- The order that is added is the only one that comes into a queue. -/
theorem holds_addOrder {order : OrderRef} (h : (ob.addOrder order).Holds b l e) :
    ob.Holds b l e ∨ e.value = order := by
  obtain ⟨⟨p, hl⟩, he⟩ := h
  rcases ob.addOrder_cases order with ⟨l', -, hadd⟩ | ⟨-, hadd⟩
  · rw [hadd] at hl he
    dsimp only at he
    by_cases heq : l = l'
    · rw [heq, Function.update_self, PriceLevel.addOrder, List.mem_append,
        List.mem_singleton] at he
      rcases he with he | rfl
      · exact Or.inl ⟨⟨p, hl⟩, heq ▸ he⟩
      · exact Or.inr rfl
    · rw [Function.update_of_ne heq] at he
      exact Or.inl ⟨⟨p, hl⟩, he⟩
  · rw [hadd] at hl he
    dsimp only at he
    by_cases heq : l = ob.nextLevel
    · -- the new level has no other order
      rw [heq, Function.update_self, PriceLevel.addOrder, newPriceLevel, List.nil_append,
        List.mem_singleton] at he
      exact Or.inr (he ▸ rfl)
    · rw [Function.update_of_ne heq] at he
      refine Or.inl ⟨⟨p, ?_⟩, he⟩
      have hitems : (p, l) ∈ (ob.setSide (ob.orderAt order).side.isBid (OrderedTree.insert
          (ob.side (ob.orderAt order).side.isBid) (ob.orderAt order).price ob.nextLevel)).items b :=
        hl
      rw [mem_items_setSide] at hitems
      split_ifs at hitems with hb
      · subst hb
        rcases OrderedTree.mem_items_insert.mp hitems with hnew | hold
        · exact absurd (congrArg Prod.snd hnew) heq
        · exact hold.1
      · exact hitems

end OrderBook

namespace MatchingEngine

open OrderBook

variable {me me' me₁ : MatchingEngine T} {a : OrderRef} {e : Element} {fuel : Nat}
  {trades : List Trade} {s : MatchingEngine T × List Trade} {l : LevelRef} {scan : LevelScan T}
  {id : UUID} {request : Request}

/-! ## In the course of matching -/

theorem shrunk_settleResting (me : MatchingEngine T) (resting : OrderRef) :
    Shrunk me.orderBook (me.settleResting resting).orderBook := by
  have hupdate := shrunk_updateOrder me.orderBook (me.orderBook.orderAt resting).id
    (me.orderBook.orderAt resting).filledQuantity
  unfold settleResting
  dsimp only
  generalize me.orderBook.updateOrder (me.orderBook.orderAt resting).id
    (me.orderBook.orderAt resting).filledQuantity = ob at hupdate ⊢
  split_ifs
  · have hremove := hupdate.trans (shrunk_removeOrder ob (ob.orderAt resting).id)
    cases hremoved : ob.removeOrder (ob.orderAt resting).id with
    | mk ob' removed =>
        rw [hremoved] at hremove
        cases removed with
        | none => exact hremove
        | some _ => exact hremove
  · exact hupdate

theorem shrunk_afterTrade (me : MatchingEngine T) (a : OrderRef) (e : Element) :
    Shrunk me.orderBook (me.afterTrade a e).orderBook :=
  (shrunk_executeTrade me.orderBook a e.value).trans
    (shrunk_settleResting { me with orderBook := (me.orderBook.executeTrade a e.value).1 } e.value)

theorem shrunk_unmatched (me : MatchingEngine T) (a : OrderRef) :
    Shrunk me.orderBook (unmatched a me).orderBook :=
  shrunk_setOrder rfl

/-- A trade is between the aggressor and an order that a queue of `me` holds. -/
def Within (me : MatchingEngine T) (a : OrderRef) (t : Trade) : Prop :=
  ∀ id, t.Names id → (me.orderBook.orderAt a).id = id
    ∨ ∃ b l e, me.orderBook.Holds b l e ∧ (me.orderBook.orderAt e.value).id = id

theorem Within.of_shrunk {t : Trade} (h : me₁.Within a t)
    (hs : Shrunk me.orderBook me₁.orderBook) : me.Within a t := by
  intro id hid
  rcases h id hid with rfl | ⟨b, l, e, he, rfl⟩
  · exact Or.inl (hs.id_eq a).symm
  · exact Or.inr ⟨b, l, e, hs.holds he, (hs.id_eq e.value).symm⟩

/-- The heads of the loop over the level. The element is in the queue the level
had when the loop was called, whatever has happened to the level since. -/
theorem ScansFrom.within {b : Bool} (h : me.ScansFrom a l scan) (hl : me.orderBook.Filed b l) :
    Shrunk me.orderBook scan.engine.orderBook
      ∧ (∀ e, scan.element = some e → e ∈ (me.orderBook.levelAt l).orders)
      ∧ ∀ t ∈ scan.trades, me.Within a t := by
  refine Loop.Heads.invariant (P := fun scan => Shrunk me.orderBook scan.engine.orderBook
    ∧ (∀ e, scan.element = some e → e ∈ (me.orderBook.levelAt l).orders)
    ∧ ∀ t ∈ scan.trades, me.Within a t) h ?_
    ⟨.refl _, fun e he => List.mem_of_mem_head? he, List.forall_mem_nil _⟩
  rintro scan scan' - haround ⟨hs, hmem, htrades⟩
  obtain ⟨e, he, -, rfl⟩ := around_scan haround
  refine ⟨hs.trans (shrunk_afterTrade ..), fun x hx => hs.queue (mem_of_nextElement hx), ?_⟩
  refine List.forall_mem_append.mpr ⟨htrades, List.forall_mem_singleton.mpr fun id hid => ?_⟩
  rcases tradeOf_names.mp hid with rfl | rfl
  · exact Or.inl (hs.id_eq a).symm
  · exact Or.inr ⟨b, l, e, ⟨hl, hmem e he⟩, (hs.id_eq e.value).symm⟩

theorem Calls.filed (h : me.Calls a l) : ∃ b, me.orderBook.Filed b l := by
  refine ⟨_, getBestPrice_filed (b := me.orderBook.opposing a) ?_⟩
  rw [← bestOpposing_eq]
  exact h.2.1

theorem matchBody_within {n : Nat}
    {out : (MatchingEngine T × List Trade) ⊕ (MatchingEngine T × List Trade)}
    (hs : Shrunk me.orderBook s.1.orderBook) (htrades : ∀ t ∈ s.2, me.Within a t)
    (h : me.matchBody a n s = some out) :
    Shrunk me.orderBook (out.elim Prod.fst Prod.fst).orderBook
      ∧ ∀ t ∈ out.elim Prod.snd Prod.snd, me.Within a t := by
  have htype : (s.1.orderBook.orderAt a).type = (me.orderBook.orderAt a).type :=
    Order.eq_of_terms Order.type (fun _ => rfl) (hs.terms a)
  rcases matchBody_cases htype h with ⟨l, hcalls, hlevel⟩ | ⟨-, rfl⟩
  · obtain ⟨b, hl⟩ := hcalls.filed
    obtain ⟨scan, hscan, hout⟩ := matchLevel_cases hlevel
    obtain ⟨hs', -, htrades'⟩ := hscan.within hl
    have hall : ∀ t ∈ s.2 ++ scan.trades, me.Within a t :=
      List.forall_mem_append.mpr ⟨htrades, fun t ht => (htrades' t ht).of_shrunk hs⟩
    rcases hout with rfl | rfl
    · exact ⟨hs.trans hs', hall⟩
    · exact ⟨hs.trans hs', hall⟩
  · rcases close_cases s.1 a with hclose | hclose
    · rw [hclose]
      exact ⟨hs, htrades⟩
    · rw [hclose]
      exact ⟨hs.trans (shrunk_unmatched s.1 a), htrades⟩

theorem iterate_within {r : MatchingEngine T × List Trade}
    (h : Loop.iterate (me.matchBody a) fuel (me, []) = some r) :
    Shrunk me.orderBook r.1.orderBook ∧ ∀ t ∈ r.2, me.Within a t := by
  obtain ⟨s, n, hheads, hexit⟩ := Loop.iterate_heads h
  have hhead : Shrunk me.orderBook s.1.orderBook ∧ ∀ t ∈ s.2, me.Within a t := by
    refine hheads.invariant (P := fun s => Shrunk me.orderBook s.1.orderBook
      ∧ ∀ t ∈ s.2, me.Within a t) ?_ ⟨.refl _, List.forall_mem_nil _⟩
    rintro s s' - ⟨n, haround⟩ ⟨hs, htrades⟩
    exact matchBody_within hs htrades haround
  exact matchBody_within hhead.1 hhead.2 hexit

/-! ## Requests -/

/-- No queue of the book holds an order with this id. -/
def Barred (id : UUID) (me : MatchingEngine T) : Prop :=
  ∀ b l e, me.orderBook.Holds b l e →
    e.value < me.orderBook.nextOrder ∧ (me.orderBook.orderAt e.value).id ≠ id

theorem Barred.of_shrunk (h : Barred id me) (hs : Shrunk me.orderBook me'.orderBook) :
    Barred id me' := by
  intro b l e he
  rw [hs.nextOrder, hs.id_eq]
  exact h b l e (hs.holds he)

theorem Barred.alloc (h : Barred id me) (o : Order) : Barred id (me.alloc o) := by
  intro b l e he
  obtain ⟨hlt, hid⟩ := h b l e ((me.sameShape_alloc o).holds_iff.mp he)
  rw [alloc_of_lt hlt]
  exact ⟨Nat.lt_succ_of_lt hlt, hid⟩

theorem Barred.restOrder (h : Barred id me) (ha : a < me.orderBook.nextOrder)
    (hid : (me.orderBook.orderAt a).id ≠ id) : Barred id (me.restOrder a) := by
  obtain ⟨effects, heq⟩ := me.restOrder_eq a
  rw [heq]
  intro b l e he
  dsimp only at he ⊢
  split_ifs at he ⊢
  · rw [addOrder_nextOrder, addOrder_orderAt]
    rcases holds_addOrder he with he | rfl
    · exact h b l e he
    · exact ⟨ha, hid⟩
  · exact h b l e he

theorem Barred.matchOrder (h : Barred id me) (ha : a < me.orderBook.nextOrder)
    (hid : (me.orderBook.orderAt a).id ≠ id) (hmatch : me.matchOrder fuel a = some (me', trades)) :
    Barred id me' ∧ ∀ t ∈ trades, ¬t.Names id := by
  by_cases hvalid : (me.orderBook.orderAt a).isValid = true
  · obtain ⟨me₁, hiter, rfl⟩ := matchOrder_iterate hvalid hmatch
    obtain ⟨hs, htrades⟩ := iterate_within hiter
    obtain ⟨effects, hann⟩ := (me₁.restOrder a).announce_eq a trades
    refine ⟨?_, fun t ht hnames => ?_⟩
    · rw [hann]
      exact (h.of_shrunk hs).restOrder (hs.nextOrder.symm ▸ ha) ((hs.id_eq a).symm ▸ hid)
    · rcases htrades t ht id hnames with hself | ⟨b, l, e, he, hother⟩
      · exact hid hself
      · exact (h b l e he).2 hother
  · simp only [MatchingEngine.matchOrder, if_neg hvalid] at hmatch
    cases hmatch
    exact ⟨h.of_shrunk (shrunk_setOrder rfl), List.forall_mem_nil _⟩

/-- The step lemma: a request with another id keeps the id out of the queues and
out of the trades. -/
theorem Barred.step {response : CommandResponse} (h : Barred id me)
    (hnew : ∀ o ∈ submitted [request], o.id ≠ id)
    (hstep : me.handle fuel request = some (me', response)) :
    Barred id me' ∧ ∀ t ∈ response.trades, ¬t.Names id := by
  cases request with
  | new o =>
      have ho : o.id ≠ id := hnew o (List.mem_singleton_self o)
      simp only [handle, processCommand] at hstep
      cases hmatch : (me.alloc o).matchOrder fuel (me.orderBook.newOrder o).2 with
      | none => rw [hmatch] at hstep; cases hstep
      | some r =>
          rw [hmatch] at hstep
          cases hstep
          exact (h.alloc o).matchOrder (Nat.lt_succ_self _) ((alloc_self me o).symm ▸ ho) hmatch
  | cancel orderID =>
      have hcancel : Barred id { me with orderBook := (me.orderBook.cancelOrder orderID).1 } :=
        h.of_shrunk (shrunk_cancelOrder ..)
      simp only [handle, processCommand] at hstep
      split at hstep
      · rename_i heq
        rw [heq] at hcancel
        cases hstep
        exact ⟨hcancel, List.forall_mem_nil _⟩
      · rename_i heq
        rw [heq] at hcancel
        cases hstep
        exact ⟨hcancel, List.forall_mem_nil _⟩

/-- The run lemma. -/
theorem Barred.run {requests : List Request} (h : Barred id me)
    (hrun : Run me requests me' trades) (hnew : ∀ o ∈ submitted requests, o.id ≠ id) :
    Barred id me' ∧ ∀ t ∈ trades, ¬t.Names id := by
  induction hrun with
  | nil => exact ⟨h, List.forall_mem_nil _⟩
  | @snoc requests me₁ trades request fuel me' response _ hstep ih =>
      have happ : submitted (requests ++ [request]) = submitted requests ++ submitted [request] :=
        List.filterMap_append ..
      rw [happ] at hnew
      obtain ⟨hnew₁, hnew₂⟩ := List.forall_mem_append.mp hnew
      obtain ⟨hbarred, htrades⟩ := ih hnew₁
      obtain ⟨hbarred', htrades'⟩ := hbarred.step hnew₂ hstep
      exact ⟨hbarred', List.forall_mem_append.mpr ⟨htrades, htrades'⟩⟩

end MatchingEngine

end TradingBackend
