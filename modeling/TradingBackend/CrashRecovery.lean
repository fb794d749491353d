import TradingBackend.Greedy
import TradingBackend.Recovery

/-!
# Crash recovery

Recovery into an empty book, from a table that holds the current state of
every submitted order. The rebuilt book queues the orders of a price by
`created_at` (`queueUp_sorted`), the live one by arrival; a row is loaded
for its status alone, whatever type of order it was.

`Restorable` says when the two agree: everything left open is a limit
order of the instrument, and the orders of every queue were created one
after the other. A request keeps it if it meets `Recoverable`.
-/

namespace TradingBackend

/-! ## Queues of a rebuilt book -/

/-- Recovery from an empty side, on the orders alone. -/
def queueUp (b : Bool) (queue orders : List Order) : List Order :=
  orders.foldl (fun queue o =>
    if o.side.isBid = b then queue.orderedInsert (fun x y => better b x.price y.price) o
    else queue) queue

/-- Price priority, then creation time. -/
abbrev CreatedFirst (b : Bool) : Order → Order → Prop :=
  Prior b Order.price fun x y => x.createdAt ≤ y.createdAt

section

variable {b : Bool} {queue orders : List Order} {o : Order}

theorem queueUp_cons_self (h : o.side.isBid = b) :
    queueUp b queue (o :: orders) =
      queueUp b (queue.orderedInsert (fun x y => better b x.price y.price) o) orders := by
  rw [queueUp, List.foldl_cons, if_pos h]
  rfl

theorem queueUp_cons_other (h : ¬o.side.isBid = b) :
    queueUp b queue (o :: orders) = queueUp b queue orders := by
  rw [queueUp, List.foldl_cons, if_neg h]
  rfl

theorem queueUp_perm (b : Bool) (queue orders : List Order) :
    (queueUp b queue orders).Perm (queue ++ orders.filter fun o => o.side.isBid = b) := by
  induction orders generalizing queue with
  | nil =>
      rw [List.filter_nil, List.append_nil]
      exact List.Perm.refl _
  | cons o orders ih =>
      by_cases h : o.side.isBid = b
      · rw [queueUp_cons_self h, List.filter_cons_of_pos (by simpa using h)]
        refine (ih _).trans ?_
        refine ((List.perm_orderedInsert _ o queue).append_right _).trans ?_
        exact List.perm_middle.symm
      · rw [queueUp_cons_other h, List.filter_cons_of_neg (by simpa using h)]
        exact ih queue

/-- Orders that come by creation time are queued by it. -/
theorem queueUp_sorted (hqueue : queue.Pairwise (CreatedFirst b))
    (horders : orders.Pairwise fun x y => x.createdAt ≤ y.createdAt)
    (hle : ∀ x ∈ queue, ∀ y ∈ orders, x.createdAt ≤ y.createdAt) :
    (queueUp b queue orders).Pairwise (CreatedFirst b) := by
  induction orders generalizing queue with
  | nil => exact hqueue
  | cons o orders ih =>
      obtain ⟨ho, horders⟩ := List.pairwise_cons.mp horders
      have htail : ∀ x ∈ queue, ∀ y ∈ orders, x.createdAt ≤ y.createdAt := fun x hx y hy =>
        hle x hx y (List.mem_cons_of_mem _ hy)
      by_cases h : o.side.isBid = b
      · rw [queueUp_cons_self h]
        refine ih (prior_orderedInsert hqueue fun x hx => hle x hx o (List.mem_cons_self ..))
          horders ?_
        intro x hx y hy
        rcases (List.mem_orderedInsert _).mp hx with rfl | hx
        · exact ho y hy
        · exact htail x hx y hy
      · rw [queueUp_cons_other h]
        exact ih hqueue horders htail

/-- The priority decides if nothing of a price was created at the same
time. -/
theorem createdFirst_antisymm
    (h : queue.Pairwise (Prior b Order.price fun x y => x.createdAt < y.createdAt)) {x y : Order}
    (hx : x ∈ queue) (hy : y ∈ queue) (hxy : CreatedFirst b x y) (hyx : CreatedFirst b y x) :
    x = y := by
  have hasymm : ∀ {x y : Order}, Prior b Order.price (fun x y => x.createdAt < y.createdAt) x y →
      ¬CreatedFirst b y x := by
    rintro x y (hlt | ⟨hp, hlt⟩) (hlt' | ⟨hp', hle⟩)
    · exact better_asymm hlt hlt'
    · exact better_irrefl b _ (hp' ▸ hlt)
    · exact better_irrefl b _ (hp ▸ hlt')
    · exact Int.not_le.mpr hlt hle
  have : Std.Symm fun x y : Order => CreatedFirst b x y → ¬CreatedFirst b y x :=
    ⟨fun _ _ h hyx hxy => h hxy hyx⟩
  by_contra hne
  have hpairs : queue.Pairwise fun x y => CreatedFirst b x y → ¬CreatedFirst b y x := by
    refine h.imp ?_
    intro x y hlt _
    exact hasymm hlt
  exact hpairs.forall hx hy hne hxy hyx

end

variable {T : Type} [OrderedTree T Decimal LevelRef]

theorem OrderBook.insertOrders_restingOrders {ob : OrderBook T} (h : ob.Layout)
    (orders : List Order) (b : Bool) :
    (ob.insertOrders orders).restingOrders b = queueUp b (ob.restingOrders b) orders := by
  induction orders generalizing ob with
  | nil => rfl
  | cons o orders ih =>
      have hrest := ih (insertOrder_layout h o)
      rw [insertOrder_restingOrders h] at hrest
      exact hrest

/-! ## The loaded orders -/

/-- An order without its client, which recovery does not restore. -/
def Order.anonymous (o : Order) : Order := { o with clientID := "" }

/-- A row is read back as the order it was made from. -/
theorem RecoveryManager.scanRow_snapshotRow {o : Order} (hside : o.side = .buy ∨ o.side = .sell)
    (htype : o.type = .limit) (hstatus : o.status = .opened ∨ o.status = .partiallyFilled) :
    scanRow o.snapshotRow = some o.anonymous := by
  cases o with
  | mk id clientID instrument side type price quantity filledQuantity status createdAt =>
      obtain rfl : type = .limit := htype
      rcases hside with rfl | rfl <;> rcases hstatus with rfl | rfl <;> rfl

theorem RecoveryManager.scanRow_createdAt {row : SnapshotRow} {o : Order}
    (h : scanRow row = some o) : o.createdAt = row.createdAt := by
  simp only [scanRow, Option.bind_eq_bind, Option.bind_eq_some_iff, Option.some.injEq] at h
  obtain ⟨price, -, quantity, -, filled, -, status, -, rfl⟩ := h
  rfl

theorem RecoveryManager.Selected.sorted {rm : RecoveryManager} {table rows : List SnapshotRow}
    (h : rm.Selected table rows) :
    (loadOpenOrders rows).Pairwise fun x y => x.createdAt ≤ y.createdAt := by
  refine List.pairwise_filterMap.mpr (h.2.imp fun hle x hx y hy => ?_)
  rw [scanRow_createdAt hx, scanRow_createdAt hy]
  exact hle

/-! ## When the books agree -/

namespace MatchingEngine

/-- Everything that is left open is a limit order of the instrument, and
the orders of a queue were created one after the other. -/
structure Restorable (rm : RecoveryManager) (me : MatchingEngine T) : Prop where
  opened : ∀ r, r < me.orderBook.nextOrder →
    ((me.orderBook.orderAt r).status = .opened
      ∨ (me.orderBook.orderAt r).status = .partiallyFilled) →
    (me.orderBook.orderAt r).type = .limit ∧ (me.orderBook.orderAt r).instrument = rm.instrument
  created : ∀ b, ∀ e ∈ me.orderBook.elements b, ∀ e' ∈ me.orderBook.elements b,
    me.orderBook.priceOf e = me.orderBook.priceOf e' → e.id < e'.id →
    (me.orderBook.orderAt e.value).createdAt < (me.orderBook.orderAt e'.value).createdAt

/-- A request that leaves nothing open that recovery would not put back
where it is: the crossing offers cover the order, or it is a market order
that finds no offer, or a limit order of the instrument that was created
after the orders of its queue. -/
def Recoverable (rm : RecoveryManager) (me : MatchingEngine T) : Request → Prop
  | .cancel _ => True
  | .new o =>
      o.isValid = true → ((me.orderBook.crossing o).map Offer.remaining).sum < o.quantity →
        (o.type = .market → me.orderBook.crossing o = [])
        ∧ (o.type = .limit → o.instrument = rm.instrument
          ∧ ∀ e ∈ me.orderBook.elements o.side.isBid, me.orderBook.priceOf e = o.price →
              (me.orderBook.orderAt e.value).createdAt < o.createdAt)

instance (rm : RecoveryManager) (me : MatchingEngine T) (request : Request) :
    Decidable (Recoverable rm me request) :=
  match request with
  | .cancel _ => inferInstanceAs (Decidable True)
  | .new _ => inferInstanceAs
      (Decidable (_ → _ → (_ → _) ∧ (_ → _ ∧ ∀ e ∈ (_ : List Element), _ → _)))

section

variable {rm : RecoveryManager} {me me' : MatchingEngine T} {requests : List Request}
  {request : Request} {trades : List Trade} {o : Order}

theorem Entered.remaining_new (h : Entered (me.alloc o) me' me.orderBook.nextOrder trades)
    (hlife : me.LifeCycle) (hs : me.Sound requests) (hfresh : FreshIDs (requests ++ [.new o]))
    (ho : o.Submitted) (hvalid : o.isValid = true) :
    (me'.orderBook.orderAt me.orderBook.nextOrder).remainingQuantity =
      o.quantity - min o.quantity ((me.orderBook.crossing o).map Offer.remaining).sum := by
  have horder : me'.orderBook.orderAt me.orderBook.nextOrder = Order.closed _ :=
    (congrFun h.orderAt _).trans (Function.update_self ..)
  have hquantity : o.remainingQuantity = o.quantity := by
    rw [Order.remainingQuantity, ho.filledQuantity, sub_zero]
  have hnonneg : ∀ offer ∈ me.orderBook.crossing o, 0 ≤ offer.remaining := by
    intro offer hoffer
    obtain ⟨e, he, rfl⟩ := List.mem_map.mp (List.mem_filter.mp hoffer).1
    exact sub_nonneg.mpr (hlife.live hs.wf he).1.lt.le
  have hgreedy := (hs.ready hfresh).greedy_eq
  rw [alloc_self, hquantity, hs.crossing_alloc] at hgreedy
  rw [horder, Order.closed_of_status Order.remainingQuantity (fun _ _ => rfl),
    ← greedy_remaining (Order.isValid_iff.mp hvalid).2.2.2.2.1.le hnonneg, hgreedy]

theorem LifeCycle.resting_iff (h : me.LifeCycle) {r : OrderRef}
    (hr : r < me.orderBook.nextOrder) : me.orderBook.Resting r ↔
      (me.orderBook.orderAt r).type = .limit ∧ ((me.orderBook.orderAt r).status = .opened
        ∨ (me.orderBook.orderAt r).status = .partiallyFilled) :=
  (h r hr).status_spec.2.2.2.2.1

/-- An order that is open after a request was open before it. -/
theorem Handled.opened_before (hh : Handled me me' request trades) (hs : me.Sound requests)
    (hfresh : FreshIDs (requests ++ [request])) (hlife : me.LifeCycle) {r : OrderRef}
    (hr : r < me.orderBook.nextOrder)
    (hopen : (me'.orderBook.orderAt r).status = .opened
      ∨ (me'.orderBook.orderAt r).status = .partiallyFilled) :
    (me.orderBook.orderAt r).status = .opened
      ∨ (me.orderBook.orderAt r).status = .partiallyFilled := by
  by_cases hrest : me.orderBook.Resting r
  · exact ((hlife.resting_iff hr).mp hrest).2
  · rwa [(hh.untouched hs hfresh hr hrest).orderAt] at hopen

/-- What is left open of a new order is a limit order of the instrument
that was created after the orders of its queue. -/
theorem Handled.left_open (hh : Handled me me' (.new o) trades) (hs : me.Sound requests)
    (hlife : me.LifeCycle) (hlife' : me'.LifeCycle) (hfresh : FreshIDs (requests ++ [.new o]))
    (ho : o.Submitted) (hok : me.Recoverable rm (.new o))
    (hopen : (me'.orderBook.orderAt me.orderBook.nextOrder).status = .opened
      ∨ (me'.orderBook.orderAt me.orderBook.nextOrder).status = .partiallyFilled) :
    o.type = .limit ∧ o.instrument = rm.instrument
      ∧ ∀ e ∈ me.orderBook.elements o.side.isBid, me.orderBook.priceOf e = o.price →
          (me.orderBook.orderAt e.value).createdAt < o.createdAt := by
  have hterms := hh.terms_new
  have htype := Order.eq_of_terms Order.type (fun _ => rfl) hterms
  have hnew := hlife' me.orderBook.nextOrder (hh.nextOrder ▸ Nat.lt_succ_self _)
  cases hh with
  | rejected hvalid heq =>
      subst heq
      simp [reject, OrderBook.setOrder] at hopen
  | entered hvalid hent =>
      have hremaining := hent.remaining_new hlife hs hfresh ho hvalid
      have hcover : (me'.orderBook.orderAt me.orderBook.nextOrder).filledQuantity
          < (me'.orderBook.orderAt me.orderBook.nextOrder).quantity →
          ((me.orderBook.crossing o).map Offer.remaining).sum < o.quantity := by
        intro hlt
        by_contra hle
        rw [min_eq_left (not_lt.mp hle), sub_self] at hremaining
        exact (sub_pos.mpr hlt).ne' hremaining
      cases hnew with
      | resting _ _ hlimit hlive =>
          rw [htype] at hlimit
          exact ⟨hlimit, (hok hvalid (hcover hlive.lt)).2 hlimit⟩
      | leftOver _ _ hmarket hpos hlt _ =>
          -- with no offer nothing is filled
          rw [(hok hvalid (hcover hlt)).1 (htype ▸ hmarket), List.map_nil, List.sum_nil,
            ← Order.eq_of_terms Order.quantity (fun _ => rfl) hterms,
            min_eq_right (hpos.trans hlt).le, sub_zero] at hremaining
          exact absurd (sub_eq_self.mp hremaining) hpos.ne'
      | filled _ _ hdone => simp [hdone.status] at hopen
      | cancelled _ _ _ _ _ hstatus => simp [hstatus] at hopen
      | unmatched _ _ _ _ hstatus => simp [hstatus] at hopen
      | invalid _ _ _ hstatus => simp [hstatus] at hopen

theorem Restorable.step (h : me.Restorable rm) (hs : me.Sound requests) (hlife : me.LifeCycle)
    (hlife' : me'.LifeCycle) (hfresh : FreshIDs (requests ++ [request]))
    (ho : ∀ o, request = .new o → o.Submitted) (hh : Handled me me' request trades)
    (hok : me.Recoverable rm request) : me'.Restorable rm := by
  constructor
  · intro r hr hopen
    by_cases hold : r < me.orderBook.nextOrder
    · have hterms := hh.terms hold
      rw [Order.eq_of_terms Order.type (fun _ => rfl) hterms,
        Order.eq_of_terms Order.instrument (fun _ => rfl) hterms]
      exact h.opened r hold (hh.opened_before hs hfresh hlife hold hopen)
    · rw [hh.nextOrder] at hr
      cases request with
      | cancel orderID => exact absurd hr hold
      | new o =>
          obtain rfl : r = me.orderBook.nextOrder :=
            Nat.le_antisymm (Nat.lt_succ_iff.mp hr) (Nat.not_lt.mp hold)
          have hleft := hh.left_open hs hlife hlife' hfresh (ho o rfl) hok hopen
          rw [Order.eq_of_terms Order.type (fun _ => rfl) hh.terms_new,
            Order.eq_of_terms Order.instrument (fun _ => rfl) hh.terms_new]
          exact ⟨hleft.1, hleft.2.1⟩
  · have hkeep : ∀ {b e}, e ∈ me.orderBook.elements b →
        me'.orderBook.priceOf e = me.orderBook.priceOf e
        ∧ (me'.orderBook.orderAt e.value).createdAt
          = (me.orderBook.orderAt e.value).createdAt := by
      intro b e he
      have hterms := hh.terms (hs.wf.value_lt he)
      exact ⟨Order.eq_of_terms Order.price (fun _ => rfl) hterms,
        Order.eq_of_terms Order.createdAt (fun _ => rfl) hterms⟩
    have hpair : ∀ {b e e'}, e ∈ me.orderBook.elements b → e' ∈ me.orderBook.elements b →
        me'.orderBook.priceOf e = me'.orderBook.priceOf e' → e.id < e'.id →
        (me'.orderBook.orderAt e.value).createdAt
          < (me'.orderBook.orderAt e'.value).createdAt := by
      intro b e e' he he' hprice hlt
      rw [(hkeep he).1, (hkeep he').1] at hprice
      rw [(hkeep he).2, (hkeep he').2]
      exact h.created b e he e' he' hprice hlt
    rcases hh.entered_or_subset with ⟨o, rfl, hvalid, hent⟩ | hsub
    · have hel := (me.sameShape_alloc o).elements
      have hmem := fun {b} {e : Element} => hent.mem_elements (b := b) (e := e) (hs.wf.newOrder o)
      intro b e he e' he' hprice hlt
      rcases hmem.mp he with ⟨hold, -⟩ | ⟨rfl, -⟩ <;>
        rcases hmem.mp he' with ⟨hold', -⟩ | ⟨rfl, hside, hrests⟩
      · exact hpair (hel b ▸ hold) (hel b ▸ hold') hprice hlt
      · have hleft := hh.left_open hs hlife hlife' hfresh (ho o rfl) hok
          (Order.canBeFilled_iff.mp hrests.2.1)
        have hold := hel b ▸ hold
        rw [alloc_self] at hside
        rw [(hkeep hold).1] at hprice
        rw [(hkeep hold).2]
        refine lt_of_lt_of_eq (hleft.2.2 e (hside ▸ hold) (hprice.trans ?_)) (Eq.symm ?_)
        · exact Order.eq_of_terms Order.price (fun _ => rfl) hh.terms_new
        · exact Order.eq_of_terms Order.createdAt (fun _ => rfl) hh.terms_new
      · -- the new element is younger than every element of the book
        obtain ⟨l, hold'⟩ := OrderBook.mem_elements.mp (hel b ▸ hold')
        exact absurd hlt (Nat.lt_asymm (hs.wf.layout.element_lt hold'))
      · exact absurd hlt (Nat.lt_irrefl _)
    · intro b e he e' he'
      exact hpair (hsub b he) (hsub b he')

theorem Initial.restorable {me₀ : MatchingEngine T} (h₀ : me₀.Initial) : me₀.Restorable rm := by
  constructor
  · intro r hr
    rw [h₀.sound.nextOrder] at hr
    exact absurd hr (Nat.not_lt_zero r)
  · intro b e he
    obtain ⟨instrument, hbook⟩ := h₀
    rw [hbook, OrderBook.newOrderBook_elements] at he
    cases he

theorem RunWith.restorable {me₀ : MatchingEngine T} (h₀ : me₀.Initial)
    (h : RunWith (Recoverable rm) me₀ requests me trades) (hfresh : FreshIDs requests)
    (hsub : ∀ o ∈ submitted requests, o.Submitted) : me.Restorable rm := by
  induction h with
  | nil => exact h₀.restorable
  | @snoc requests me trades request fuel me' response hprev hstep hok ih =>
      have hsub' : ∀ o ∈ submitted requests, o.Submitted := by
        intro o ho
        refine hsub o ?_
        rw [submitted, List.filterMap_append]
        exact List.mem_append_left _ ho
      have hs := hprev.run.sound h₀ hfresh.of_append
      have hlife := hprev.run.lifeCycle h₀ hfresh.of_append hsub'
      have hlife' := (hprev.run.snoc hstep).lifeCycle h₀ hfresh hsub
      refine (ih hfresh.of_append hsub').step hs hlife hlife' hfresh ?_
        (handle_cases hs hfresh hstep) hok
      rintro o rfl
      rw [submitted_append_new] at hsub
      exact hsub o (List.mem_append_right _ (List.mem_singleton_self o))

/-! ## The orders that are loaded -/

theorem resting_values_nodup (h : me.orderBook.WF) :
    ((me.orderBook.elements true ++ me.orderBook.elements false).map Element.value).Nodup := by
  rw [List.map_append]
  refine (h.values_nodup true).append (h.values_nodup false) ?_
  intro r hr hr'
  obtain ⟨e, he, rfl⟩ := List.mem_map.mp hr
  obtain ⟨e', he', hvalue⟩ := List.mem_map.mp hr'
  exact absurd (h.element_unique he he' hvalue.symm).1 (by decide)

theorem mem_resting_values {r : OrderRef} :
    r ∈ (me.orderBook.elements true ++ me.orderBook.elements false).map Element.value ↔
      me.orderBook.Resting r := by
  simp only [List.mem_map, List.mem_append, OrderBook.Resting, Bool.exists_bool]
  constructor
  · rintro ⟨e, he | he, rfl⟩
    · exact Or.inr ⟨e, he, rfl⟩
    · exact Or.inl ⟨e, he, rfl⟩
  · rintro (⟨e, he, rfl⟩ | ⟨e, he, rfl⟩)
    · exact ⟨e, Or.inr he, rfl⟩
    · exact ⟨e, Or.inl he, rfl⟩

/-- The rows that are selected are those of the resting orders. -/
theorem Restorable.selects_iff (h : me.Restorable rm) (hlife : me.LifeCycle) {r : OrderRef}
    (hr : r < me.orderBook.nextOrder) :
    rm.selects (me.orderBook.orderAt r).snapshotRow = true ↔ me.orderBook.Resting r := by
  rw [hlife.resting_iff hr, RecoveryManager.selects, decide_eq_true_iff]
  constructor
  · rintro ⟨-, hopen⟩
    exact ⟨(h.opened r hr hopen).1, hopen⟩
  · rintro ⟨-, hopen⟩
    exact ⟨(h.opened r hr hopen).2, hopen⟩

/-- The rows of every submitted order, in its current state. -/
def snapshotRows (me : MatchingEngine T) : List SnapshotRow :=
  (List.range me.orderBook.nextOrder).map fun r => (me.orderBook.orderAt r).snapshotRow

/-- The row of a resting order is read back as that order. -/
theorem LifeCycle.scanRow_eq (h : me.LifeCycle) (hw : me.orderBook.WF) {r : OrderRef}
    (hr : r < me.orderBook.nextOrder) (hrest : me.orderBook.Resting r) :
    RecoveryManager.scanRow (me.orderBook.orderAt r).snapshotRow =
      some (me.orderBook.orderAt r).anonymous := by
  obtain ⟨htype, hopen⟩ := (h.resting_iff hr).mp hrest
  obtain ⟨b, e, he, rfl⟩ := hrest
  have hvalid := (h.live hw he).2.1
  exact RecoveryManager.scanRow_snapshotRow (Order.isValid_iff.mp hvalid).2.2.1 htype hopen

theorem Restorable.loaded_perm (h : me.Restorable rm) (hlife : me.LifeCycle)
    (hw : me.orderBook.WF) {table rows : List SnapshotRow} (htable : table.Perm me.snapshotRows)
    (hrows : rm.Selected table rows) :
    (RecoveryManager.loadOpenOrders rows).Perm
      (me.orderBook.allOrders.map Order.anonymous) := by
  let row := fun r => (me.orderBook.orderAt r).snapshotRow
  let values := (me.orderBook.elements true ++ me.orderBook.elements false).map Element.value
  have hlt : ∀ r ∈ values, r < me.orderBook.nextOrder := by
    intro r hr
    obtain ⟨b, e, he, rfl⟩ := mem_resting_values.mp hr
    exact hw.value_lt he
  have hvalues : ((List.range me.orderBook.nextOrder).filter (rm.selects ∘ row)).Perm values := by
    refine (List.perm_ext_iff_of_nodup (List.nodup_range.filter _)
      (resting_values_nodup hw)).mpr fun r => ?_
    rw [List.mem_filter, List.mem_range]
    constructor
    · rintro ⟨hr, hsel⟩
      exact mem_resting_values.mpr ((h.selects_iff hlife hr).mp hsel)
    · intro hr
      exact ⟨hlt r hr, (h.selects_iff hlife (hlt r hr)).mpr (mem_resting_values.mp hr)⟩
  have hload : rows.Perm (values.map row) := by
    refine hrows.1.trans ((htable.filter _).trans ?_)
    rw [snapshotRows, List.filter_map]
    exact hvalues.map row
  have hscan : (values.map row).filterMap RecoveryManager.scanRow =
      me.orderBook.allOrders.map Order.anonymous := by
    have hread : ∀ r ∈ values, (RecoveryManager.scanRow ∘ row) r =
        some (me.orderBook.orderAt r).anonymous := fun r hr =>
      hlife.scanRow_eq hw (hlt r hr) (mem_resting_values.mp hr)
    rw [List.filterMap_map, List.filterMap_congr hread, OrderBook.allOrders_eq,
      OrderBook.ordersOf, List.map_map]
    exact (congrFun List.filterMap_eq_map' values).trans (List.map_map ..)
  exact hscan ▸ hload.filterMap _

end

end MatchingEngine

/-! ## The rebuilt book -/

def LevelContents.anonymous (level : LevelContents) : LevelContents :=
  { level with orders := level.orders.map Order.anonymous }

namespace OrderBook

variable {ob ob' : OrderBook T} {b : Bool}

def anonymous (ob : OrderBook T) : OrderBook T :=
  { ob with orderAt := fun r => (ob.orderAt r).anonymous }

theorem WF.anonymous (h : ob.WF) : ob.anonymous.WF := by
  have hs : SameShape ob ob.anonymous :=
    ⟨fun _ => rfl, fun _ => rfl, fun _ => rfl, rfl, rfl, rfl, le_rfl, fun _ _ => rfl,
      fun _ _ => rfl, fun _ _ => rfl⟩
  exact ⟨hs.layout h.layout, hs.indexed h.layout h.indexed,
    fun hf => h.volumes (hs.filed_iff.mp hf)⟩

theorem anonymous_ordersOf {T : Type} (ob : OrderBook T) (queue : List Element) :
    ob.anonymous.ordersOf queue = (ob.ordersOf queue).map Order.anonymous := by
  rw [ordersOf, ordersOf, List.map_map]
  rfl

theorem anonymous_restingOrders (ob : OrderBook T) (b : Bool) :
    ob.anonymous.restingOrders b = (ob.restingOrders b).map Order.anonymous :=
  ob.anonymous_ordersOf (ob.elements b)

theorem anonymous_contents (ob : OrderBook T) (b : Bool) :
    ob.anonymous.contents b = (ob.contents b).map LevelContents.anonymous := by
  rw [contents, contents, List.map_map]
  refine List.map_congr_left fun l _ => ?_
  exact congrArg (LevelContents.mk _ _) (ob.anonymous_ordersOf _)

theorem WF.filter_allOrders (h : ob.WF) (b : Bool) :
    ob.allOrders.filter (fun o => o.side.isBid = b) = ob.restingOrders b := by
  have hside : ∀ c, ∀ o ∈ ob.restingOrders c, o.side.isBid = c := by
    intro c o ho
    obtain ⟨e, he, rfl⟩ := List.mem_map.mp ho
    exact h.element_side he
  have hself : ∀ c, (ob.restingOrders c).filter (fun o => o.side.isBid = c) = ob.restingOrders c :=
    fun c => List.filter_eq_self.mpr fun o ho => decide_eq_true (hside c o ho)
  have hother : ∀ {c d}, c ≠ d → (ob.restingOrders c).filter (fun o => o.side.isBid = d) = [] := by
    intro c d hne
    refine List.filter_eq_nil_iff.mpr fun o ho => ?_
    rw [hside c o ho, decide_eq_true_iff]
    exact hne
  rw [allOrders, List.filter_append]
  cases b with
  | true => rw [hself true, hother (by decide), List.append_nil]
  | false => rw [hself false, hother (by decide), List.nil_append]

/-- The book is uncrossed, in terms of its orders. -/
theorem uncrossed_iff : ob.Uncrossed ↔
    ∀ bid ∈ ob.restingOrders true, ∀ ask ∈ ob.restingOrders false, bid.price < ask.price := by
  simp only [restingOrders, ordersOf, List.forall_mem_map]
  rfl

end OrderBook

namespace MatchingEngine

variable {rm : RecoveryManager} {me : MatchingEngine T} {table rows : List SnapshotRow}

/-- The live queues are in the order of creation. -/
theorem Restorable.sorted (h : me.Restorable rm) (hw : me.orderBook.WF) (b : Bool) :
    (me.orderBook.anonymous.restingOrders b).Pairwise
      (Prior b Order.price fun x y => x.createdAt < y.createdAt) := by
  refine List.pairwise_map.mpr ((hw.layout.elements_sorted b).imp_of_mem ?_)
  intro e e' he he' hlt
  refine hlt.imp_right fun ⟨hprice, hid⟩ => ⟨hprice, ?_⟩
  exact h.created b e he e' he' hprice hid

theorem Restorable.restingOrders_eq (h : me.Restorable rm) (hlife : me.LifeCycle)
    (hw : me.orderBook.WF) (htable : table.Perm me.snapshotRows) (hrows : rm.Selected table rows)
    (instrument : String) (b : Bool) :
    (rm.recoverOrderbook rows (newOrderBook instrument : OrderBook T)).restingOrders b =
      me.orderBook.anonymous.restingOrders b := by
  have hempty : (newOrderBook instrument : OrderBook T).restingOrders b = [] := by
    rw [OrderBook.restingOrders, OrderBook.newOrderBook_elements]
    rfl
  rw [rm.recoverOrderbook_eq,
    OrderBook.insertOrders_restingOrders (OrderBook.newOrderBook_wf instrument).layout, hempty]
  have hlive := h.sorted hw b
  have hperm : (queueUp b [] (RecoveryManager.loadOpenOrders rows)).Perm
      (me.orderBook.anonymous.restingOrders b) := by
    refine (queueUp_perm b [] _).trans ?_
    rw [List.nil_append, ← hw.anonymous.filter_allOrders]
    refine List.Perm.filter _ ((h.loaded_perm hlife hw htable hrows).trans (.of_eq ?_))
    rw [OrderBook.allOrders, OrderBook.allOrders, List.map_append,
      OrderBook.anonymous_restingOrders, OrderBook.anonymous_restingOrders]
  refine hperm.eq_of_pairwise ?_
    (queueUp_sorted .nil hrows.sorted (List.forall_mem_nil _)) (hlive.imp ?_)
  · intro x y hx hy
    exact createdFirst_antisymm hlive (hperm.mem_iff.mp hx) hy
  · intro x y hlt
    exact hlt.imp_right (And.imp_right le_of_lt)

theorem Restorable.recovered_wf (h : me.Restorable rm) (hlife : me.LifeCycle)
    (hw : me.orderBook.WF) (htable : table.Perm me.snapshotRows) (hrows : rm.Selected table rows)
    (instrument : String) :
    (rm.recoverOrderbook rows (newOrderBook instrument : OrderBook T)).WF := by
  refine OrderBook.insertOrders_wf (OrderBook.newOrderBook_wf instrument) ?_
    fun o _ => Finmap.notMem_empty
  refine ((h.loaded_perm hlife hw htable hrows).map Order.id).nodup_iff.mpr ?_
  rw [List.map_map]
  exact hw.oneEach.once

end MatchingEngine

/-- In a run all of whose requests are recoverable, recovery into an empty
book rebuilds the live one. -/
theorem crash_recovery {me₀ me : MatchingEngine T} {requests : List Request}
    {trades : List Trade} (h₀ : me₀.Initial) (hfresh : FreshIDs requests)
    (hsub : ∀ o ∈ submitted requests, o.filledQuantity = 0 ∧ o.status = .opened)
    (rm : RecoveryManager)
    (hrun : MatchingEngine.RunWith (MatchingEngine.Recoverable rm) me₀ requests me trades)
    {table rows : List SnapshotRow} (htable : table.Perm me.snapshotRows)
    (hrows : rm.Selected table rows) (instrument : String) :
    let ob := rm.recoverOrderbook rows (newOrderBook instrument : OrderBook T)
    (∀ b, ob.contents b = (me.orderBook.contents b).map LevelContents.anonymous)
      ∧ ob.Uncrossed := by
  intro ob
  have hsub : ∀ o ∈ submitted requests, o.Submitted := fun o ho => ⟨(hsub o ho).1, (hsub o ho).2⟩
  have hw := (hrun.run.sound h₀ hfresh).wf
  have hlife := hrun.run.lifeCycle h₀ hfresh hsub
  have hrest := hrun.restorable h₀ hfresh hsub
  have heq := hrest.restingOrders_eq hlife hw htable hrows instrument
  constructor
  · intro b
    rw [← OrderBook.anonymous_contents]
    exact (hrest.recovered_wf hlife hw htable hrows instrument).contents_congr hw.anonymous (heq b)
  · rw [OrderBook.uncrossed_iff, heq, heq, ← OrderBook.uncrossed_iff]
    exact hrun.run.uncrossed h₀ hfresh

theorem crash_recovery_partly_filled :
    ∃ (me : MatchingEngine (SortedItems Decimal LevelRef)) (trades : List Trade),
      MatchingEngine.RunWith (MatchingEngine.Recoverable ⟨"BTC-USD"⟩) emptyEngine
        [.new sellFive, .new buyThree] me trades
      ∧ ∃ rows, RecoveryManager.Selected ⟨"BTC-USD"⟩ me.snapshotRows rows
        ∧ (RecoveryManager.recoverOrderbook ⟨"BTC-USD"⟩ rows
            (newOrderBook "BTC-USD" : OrderBook (SortedItems Decimal LevelRef))).contents false
          = (me.orderBook.contents false).map LevelContents.anonymous := by
  have h₀ : MatchingEngine.RunWith (MatchingEngine.Recoverable ⟨"BTC-USD"⟩) emptyEngine [] _ _ :=
    .nil
  obtain ⟨_, hsell⟩ := h₀.handled 9 (.new sellFive) (by decide +kernel) (by decide +kernel)
  obtain ⟨_, hrun⟩ := hsell.handled 9 (.new buyThree) (by decide +kernel) (by decide +kernel)
  refine ⟨_, _, hrun, _, ⟨.refl _, by decide +kernel⟩, ?_⟩
  exact (crash_recovery emptyEngine_initial (by decide) (by decide) ⟨"BTC-USD"⟩ hrun (.refl _)
    ⟨.refl _, by decide +kernel⟩ "BTC-USD").1 false

/-- A market order of 10, more than `sellFive` can fill. -/
def marketTen : Order := { buyTen with type := .market, price := 0 }

/-- What is left of a market order is not in the live book and in the
rebuilt one, as a limit order. -/
theorem crash_recovery_left_over :
    let me := emptyEngine.after 9 [.new sellFive, .new marketTen]
    (∃ trades, MatchingEngine.Run emptyEngine [.new sellFive, .new marketTen] me trades)
    ∧ FreshIDs [.new sellFive, .new marketTen]
    ∧ (∀ o ∈ submitted [.new sellFive, .new marketTen],
        o.filledQuantity = 0 ∧ o.status = .opened)
    ∧ ∃ rows, RecoveryManager.Selected ⟨"BTC-USD"⟩ me.snapshotRows rows
      ∧ me.orderBook.allOrders = []
      ∧ (RecoveryManager.recoverOrderbook ⟨"BTC-USD"⟩ rows
          (newOrderBook "BTC-USD" : OrderBook (SortedItems Decimal LevelRef))).allOrders
        = [{ marketTen with
              clientID := "", type := .limit, filledQuantity := 5,
              status := .partiallyFilled }] := by
  refine ⟨MatchingEngine.after_run (by decide +kernel), by decide, by decide, _,
    ⟨.refl _, by decide +kernel⟩, by decide +kernel, by decide +kernel⟩

/-- An order that was created first and arrived second comes first in the
rebuilt queue. -/
example :
    let me := emptyEngine.after 9 [.new { sellFive with id := 4, createdAt := 3 }, .new sellFive]
    ∃ rows, RecoveryManager.Selected ⟨"BTC-USD"⟩ me.snapshotRows rows
      ∧ me.orderBook.allOrders.map Order.id = [4, 1]
      ∧ (RecoveryManager.recoverOrderbook ⟨"BTC-USD"⟩ rows
          (newOrderBook "BTC-USD" : OrderBook (SortedItems Decimal LevelRef))).allOrders.map
            Order.id
        = [1, 4] :=
  ⟨[sellFive.snapshotRow, Order.snapshotRow { sellFive with id := 4, createdAt := 3 }],
    by decide +kernel⟩

end TradingBackend
