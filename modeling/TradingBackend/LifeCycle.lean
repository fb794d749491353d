import TradingBackend.Fills
import TradingBackend.Runs

/-!
# The life of an order

`Phase` is the state machine an order goes through: resting with a
remainder, filled, cancelled, or - without ever resting - rejected or
left over as a market order. In a run whose orders are submitted open
and unfilled every order is in one of the phases after every request
(`LifeCycle`), and its membership in the book goes with the phase, not
with one of the conditions the code tests.

All phases but the first are final: an order that is not resting is not
touched by any later request (`Handled.untouched`).
-/

namespace TradingBackend

variable {T : Type} [OrderedTree T Decimal LevelRef]

namespace Order

/-- As a client submits an order: open and unfilled. -/
structure Submitted (o : Order) : Prop where
  filledQuantity : o.filledQuantity = 0
  status : o.status = .opened

/-- The phases of an order after its command; `resting` says whether it is
in the book. -/
inductive Phase (o : Order) (resting : Prop) : Prop where
  | resting (h : resting) (hvalid : o.terms.isValid = true) (htype : o.type = .limit)
      (hlive : o.Live)
  | filled (h : ¬resting) (hvalid : o.terms.isValid = true) (hdone : o.Done)
  | cancelled (h : ¬resting) (hvalid : o.terms.isValid = true) (htype : o.type = .limit)
      (hnonneg : 0 ≤ o.filledQuantity) (hlt : o.filledQuantity < o.quantity)
      (hstatus : o.status = .cancelled)
  | leftOver (h : ¬resting) (hvalid : o.terms.isValid = true) (htype : o.type = .market)
      (hpos : 0 < o.filledQuantity) (hlt : o.filledQuantity < o.quantity)
      (hstatus : o.status = .partiallyFilled)
  | unmatched (h : ¬resting) (hvalid : o.terms.isValid = true) (htype : o.type = .market)
      (hzero : o.filledQuantity = 0) (hstatus : o.status = .rejected)
  | invalid (h : ¬resting) (hvalid : ¬o.terms.isValid = true) (hzero : o.filledQuantity = 0)
      (hstatus : o.status = .rejected)

section

variable {o : Order}

theorem Submitted.terms_isValid (h : o.Submitted) : o.terms.isValid = o.isValid := by
  simp only [isValid, terms, h.filledQuantity]
  rfl

theorem Submitted.live (h : o.Submitted) (hvalid : o.isValid = true) : o.Live := by
  refine ⟨h.filledQuantity.ge, ?_, ?_⟩
  · rw [h.filledQuantity]
    exact (isValid_iff.mp hvalid).2.2.2.2.1
  · rw [h.status, if_pos h.filledQuantity]

theorem closed_phase (h : o.Live ∨ o.Done) (hvalid : o.terms.isValid = true) :
    o.closed.Phase o.closed.Rests := by
  have htype : o.type = .limit ∨ o.type = .market := (isValid_iff.mp hvalid).2.2.2.1
  rcases h with hlive | hdone
  · rcases htype with hlimit | hmarket
    · rw [closed_of_ne_market (by rw [hlimit]; nofun)]
      exact .resting ⟨hlimit, hlive.canBeFilled, hlive.not_isFilled⟩ hvalid hlimit hlive
    · have hclosed : o.closed = { o with status := _ } := if_pos ⟨hmarket, hlive.remaining_pos⟩
      have hrests : ¬o.closed.Rests := fun hr => by
        rw [hclosed] at hr
        exact absurd (hmarket.symm.trans hr.1) nofun
      rcases hlive.nonneg.eq_or_lt with hzero | hpos
      · refine .unmatched hrests ?_ ?_ ?_ ?_ <;> rw [hclosed]
        · exact hvalid
        · exact hmarket
        · exact hzero.symm
        · exact if_neg (by rw [← hzero]; exact lt_irrefl 0)
      · refine .leftOver hrests ?_ ?_ ?_ ?_ ?_ <;> rw [hclosed]
        · exact hvalid
        · exact hmarket
        · exact hpos
        · exact hlive.lt
        · exact if_pos hpos
  · have hclosed : o.closed = o := if_neg fun hm => by
      rw [hdone.remaining] at hm
      exact lt_irrefl 0 hm.2
    rw [hclosed]
    exact .filled (fun hr => hr.2.2 hdone.isFilled) hvalid hdone

theorem Phase.status_spec {p : Prop} (h : o.Phase p) :
    (o.status = .filled ↔
        o.filledQuantity = o.quantity ∧ 0 < o.quantity ∧ o.terms.isValid = true)
      ∧ (o.status = .partiallyFilled → 0 < o.filledQuantity ∧ o.filledQuantity < o.quantity)
      ∧ (o.status = .opened → o.filledQuantity = 0)
      ∧ (o.status = .rejected → o.filledQuantity = 0)
      ∧ (p ↔ o.type = .limit ∧ (o.status = .opened ∨ o.status = .partiallyFilled))
      ∧ (o.terms.isValid = true → o.type = .limit → p ∨ o.status = .filled ∨ o.status = .cancelled)
      ∧ (o.status = .filled ∨ o.status = .cancelled ∨ o.status = .rejected ∨ o.type = .market →
          ¬p) := by
  cases h with
  | resting hp hvalid htype hlive =>
      have hstatus := hlive.status
      split_ifs at hstatus with hzero
      · have hquantity : 0 < o.quantity := hzero ▸ hlive.lt
        simp [hstatus, hp, htype, hzero, hquantity.ne]
      · have hpos := lt_of_le_of_ne hlive.nonneg (Ne.symm hzero)
        simp [hstatus, hp, htype, hlive.lt.ne, hpos, hlive.lt]
  | filled hp hvalid hdone => simp [hdone.status, hp, hvalid, hdone.eq, hdone.pos]
  | cancelled hp hvalid htype hnonneg hlt hstatus => simp [hstatus, hp, htype, hlt.ne]
  | leftOver hp hvalid htype hpos hlt hstatus => simp [hstatus, hp, htype, hpos, hlt, hlt.ne]
  | unmatched hp hvalid htype hzero hstatus =>
      have hquantity : 0 < o.quantity := (isValid_iff.mp hvalid).2.2.2.2.1
      simp [hstatus, hp, htype, hzero, hquantity.ne]
  | invalid hp hvalid hzero hstatus => simp [hstatus, hp, hvalid, hzero]

/-- No phase is overfilled; an order with a negative quantity is invalid
and stays unfilled. -/
theorem Phase.bounds {p : Prop} (h : o.Phase p) :
    0 ≤ o.filledQuantity ∧ (0 ≤ o.quantity → o.filledQuantity ≤ o.quantity) := by
  cases h with
  | resting _ _ _ hlive => exact ⟨hlive.nonneg, fun _ => hlive.lt.le⟩
  | filled _ _ hdone => exact ⟨hdone.eq ▸ hdone.pos.le, fun _ => hdone.eq.le⟩
  | cancelled _ _ _ hnonneg hlt => exact ⟨hnonneg, fun _ => hlt.le⟩
  | leftOver _ _ _ hpos hlt => exact ⟨hpos.le, fun _ => hlt.le⟩
  | unmatched _ _ _ hzero => exact ⟨hzero.ge, fun hq => hzero.trans_le hq⟩
  | invalid _ _ hzero => exact ⟨hzero.ge, fun hq => hzero.trans_le hq⟩

theorem Phase.congr {p q : Prop} (h : o.Phase p) (hpq : p ↔ q) : o.Phase q := propext hpq ▸ h

end

end Order

namespace OrderBook

/-- The order is in a queue of the book. -/
def Resting (ob : OrderBook T) (r : OrderRef) : Prop := ∃ b, ∃ e ∈ ob.elements b, e.value = r

section

variable {ob : OrderBook T} {b b' : Bool} {e e' : Element}

theorem WF.element_unique (h : ob.WF) (he : e ∈ ob.elements b) (he' : e' ∈ ob.elements b')
    (hvalue : e.value = e'.value) : b = b' ∧ e = e' := by
  obtain ⟨l, he⟩ := mem_elements.mp he
  obtain ⟨l', he'⟩ := mem_elements.mp he'
  obtain ⟨hb, -, heq⟩ := h.holds_unique he he' (by rw [hvalue])
  exact ⟨hb, heq⟩

theorem WF.value_lt (h : ob.WF) (he : e ∈ ob.elements b) : e.value < ob.nextOrder := by
  obtain ⟨l, he⟩ := mem_elements.mp he
  exact h.layout.order_lt he

theorem WF.values_nodup (h : ob.WF) (b : Bool) : ((ob.elements b).map Element.value).Nodup := by
  refine List.Nodup.map_on ?_ (h.layout.elements_nodup b)
  exact fun e he e' he' hvalue => (h.element_unique he he' hvalue).2

theorem WF.element_side (h : ob.WF) (he : e ∈ ob.elements b) :
    (ob.orderAt e.value).side.isBid = b := by
  obtain ⟨l, he⟩ := mem_elements.mp he
  exact h.layout.order_side he

/-- The id of an order leads to it exactly if it rests. -/
theorem WF.getOrder_iff (h : ob.WF) {r : OrderRef} :
    ob.getOrder (ob.orderAt r).id = some r ↔ ob.Resting r := by
  rw [getOrder, Option.map_eq_some_iff]
  constructor
  · rintro ⟨location, hloc, hvalue⟩
    obtain ⟨⟨b, he⟩, -⟩ := h.indexed.mp hloc
    exact ⟨b, location.element, mem_elements.mpr ⟨_, he⟩, hvalue⟩
  · rintro ⟨b, e, he, rfl⟩
    obtain ⟨l, he⟩ := mem_elements.mp he
    exact ⟨⟨l, e⟩, h.lookup he, rfl⟩

end

end OrderBook

namespace MatchingEngine

section

variable {me me' : MatchingEngine T} {a : OrderRef} {trades : List Trade} {request : Request}
  {requests : List Request} {o : Order} {b : Bool} {e : Element}

/-! ## Who rests after a command -/

/-- After a `NEW` command the book holds what the walk left of it, and
possibly the new order. -/
theorem Entered.mem_elements (h : Entered me me' a trades) (hw : me.orderBook.WF) :
    e ∈ me'.orderBook.elements b ↔
      (e ∈ me.orderBook.elements b ∧ (e ∈ me.orderBook.front crosses a →
        e ∈ (walk a me.orderBook.orderAt (me.orderBook.front crosses a)).left))
      ∨ e = me.orderBook.added a ∧ b = (me.orderBook.orderAt a).side.isBid
        ∧ (me'.orderBook.orderAt a).Rests := by
  by_cases hb : b = (me.orderBook.orderAt a).side.isBid
  · -- the own side: the front is on the other one
    subst hb
    have hnot : e ∈ me.orderBook.elements (me.orderBook.orderAt a).side.isBid →
        e ∉ me.orderBook.front crosses a := by
      intro he hfront
      have := (hw.element_unique he (OrderBook.mem_front hfront) rfl).1
      exact absurd this.symm (Bool.not_ne_self _)
    rw [h.own]
    split_ifs with hr
    · rw [List.mem_orderedInsert]
      constructor
      · rintro (rfl | he)
        · exact Or.inr ⟨rfl, rfl, hr⟩
        · exact Or.inl ⟨he, fun hfront => absurd hfront (hnot he)⟩
      · rintro (⟨he, -⟩ | ⟨rfl, -⟩)
        · exact Or.inr he
        · exact Or.inl rfl
    · constructor
      · exact fun he => Or.inl ⟨he, fun hfront => absurd hfront (hnot he)⟩
      · rintro (⟨he, -⟩ | ⟨-, -, hr'⟩)
        · exact he
        · exact absurd hr' hr
  · have hopp : b = me.orderBook.opposing a := (Bool.eq_not_of_ne hb)
    subst hopp
    have hsplit := me.orderBook.front_append_behind crosses a
    have hnodup := hw.layout.elements_nodup (me.orderBook.opposing a)
    rw [← hsplit, List.nodup_append] at hnodup
    rw [h.opposing, ← hsplit, List.mem_append, List.mem_append]
    constructor
    · rintro (he | he)
      · exact Or.inl ⟨Or.inl (walk_left_suffix.subset he), fun _ => he⟩
      · exact Or.inl ⟨Or.inr he, fun hfront => absurd rfl (hnodup.2.2 e hfront e he)⟩
    · rintro (⟨he | he, hleft⟩ | ⟨-, hb', -⟩)
      · exact Or.inl (hleft he)
      · exact Or.inr he
      · exact absurd hb' hb

theorem reject_elements (me : MatchingEngine T) (a : OrderRef) (b : Bool) :
    (me.reject a).orderBook.elements b = me.orderBook.elements b := rfl

/-- Only a valid `NEW` command puts something into the book. -/
theorem Handled.entered_or_subset (h : Handled me me' request trades) :
    (∃ o, request = .new o ∧ o.isValid = true
      ∧ Entered (me.alloc o) me' me.orderBook.nextOrder trades)
    ∨ ∀ b, me'.orderBook.elements b ⊆ me.orderBook.elements b := by
  cases h with
  | entered hvalid hent => exact Or.inl ⟨_, rfl, hvalid, hent⟩
  | @rejected o hvalid heq =>
      refine Or.inr fun b => ?_
      rw [heq, reject_elements, (me.sameShape_alloc o).elements]
      exact List.Subset.refl _
  | withdrawn he hwith =>
      refine Or.inr fun b => ?_
      rw [hwith.elements]
      exact List.filter_sublist.subset
  | notFound hid heq => exact Or.inr fun b => heq ▸ List.Subset.refl _

/-! ## Orders that do not rest -/

/-- A request leaves an order that is not resting as it is, out of the
book and out of its trades. -/
structure Untouched (me me' : MatchingEngine T) (trades : List Trade) (r : OrderRef) : Prop where
  orderAt : me'.orderBook.orderAt r = me.orderBook.orderAt r
  not_resting : ¬me'.orderBook.Resting r
  not_named : ∀ t ∈ trades, ¬t.Names (me.orderBook.orderAt r).id

theorem Handled.untouched (h : Handled me me' request trades) (hs : me.Sound requests)
    (hfresh : FreshIDs (requests ++ [request])) {r : OrderRef}
    (hr : r < me.orderBook.nextOrder) (hrest : ¬me.orderBook.Resting r) :
    Untouched me me' trades r := by
  cases h with
  | @entered o trades hvalid h =>
      have hne : r ≠ me.orderBook.nextOrder := Nat.ne_of_lt hr
      have hel : ∀ b, (me.alloc o).orderBook.elements b = me.orderBook.elements b :=
        (me.sameShape_alloc o).elements
      have hfront : ∀ e ∈ (me.alloc o).orderBook.front crosses me.orderBook.nextOrder,
          e.value ≠ r := fun e he hvalue =>
        hrest ⟨_, e, hel _ ▸ OrderBook.mem_front he, hvalue⟩
      refine ⟨?_, ?_, fun t ht hnames => ?_⟩
      · rw [h.orderAt]
        dsimp only
        rw [Function.update_of_ne hne, walk_other hne hfront, alloc_of_lt hr]
      · rintro ⟨b, e, he, rfl⟩
        rcases (h.mem_elements (hs.wf.newOrder o)).mp he with ⟨he, -⟩ | ⟨rfl, -⟩
        · exact hrest ⟨b, e, hel b ▸ he, rfl⟩
        · exact hne rfl
      · rw [h.trades_eq] at ht
        obtain ⟨e, he, hid⟩ := walk_trades_names ht
        have hlt := hs.wf.value_lt (hel _ ▸ OrderBook.mem_front he)
        rw [hid, alloc_self, alloc_of_lt hlt] at hnames
        rcases hnames with hnames | hnames
        · exact hs.id_ne hfresh hr hnames.symm
        · exact hfront e he (hs.id_injective hfresh.of_append hlt hr hnames)
  | @rejected o hvalid h =>
      subst h
      refine ⟨?_, ?_, List.forall_mem_nil _⟩
      · exact (Function.update_of_ne (Nat.ne_of_lt hr) ..).trans (alloc_of_lt hr)
      · rintro ⟨b, e, he, hvalue⟩
        rw [reject_elements, (me.sameShape_alloc o).elements] at he
        exact hrest ⟨b, e, he, hvalue⟩
  | @withdrawn b l e he h =>
      have hne : r ≠ e.value := fun heq =>
        hrest ⟨b, e, OrderBook.mem_elements.mpr ⟨l, he⟩, heq.symm⟩
      refine ⟨?_, ?_, List.forall_mem_nil _⟩
      · rw [h.orderAt, Function.update_of_ne hne]
      · rintro ⟨b', e', he', hvalue⟩
        rw [h.elements] at he'
        exact hrest ⟨b', e', List.mem_of_mem_filter he', hvalue⟩
  | notFound _ h =>
      subst h
      exact ⟨rfl, hrest, List.forall_mem_nil _⟩

/-! ## The phases -/

/-- Every order of the run is in one of the phases. -/
def LifeCycle (me : MatchingEngine T) : Prop :=
  ∀ r, r < me.orderBook.nextOrder → (me.orderBook.orderAt r).Phase (me.orderBook.Resting r)

theorem LifeCycle.live (h : me.LifeCycle) (hw : me.orderBook.WF)
    (he : e ∈ me.orderBook.elements b) : (me.orderBook.orderAt e.value).Live
      ∧ (me.orderBook.orderAt e.value).terms.isValid = true
      ∧ (me.orderBook.orderAt e.value).type = .limit := by
  cases h e.value (hw.value_lt he) with
  | resting _ hvalid htype hlive => exact ⟨hlive, hvalid, htype⟩
  | filled hr | cancelled hr | leftOver hr | unmatched hr | invalid hr =>
      exact absurd ⟨b, e, he, rfl⟩ hr

/-- The front of the opposing side is a line of live orders. -/
theorem LifeCycle.lined (h : me.LifeCycle) (hs : me.Sound requests)
    (hfresh : FreshIDs (requests ++ [.new o])) (ho : o.Submitted) (hvalid : o.isValid = true) :
    Lined me.orderBook.nextOrder (me.alloc o).orderBook.orderAt
      ((me.alloc o).orderBook.front crosses me.orderBook.nextOrder) := by
  have hready := hs.ready hfresh
  refine ⟨fun e he => hready.ne_elements (OrderBook.mem_front he), ?_, fun e he => ?_, ?_⟩
  · exact (hready.wf.values_nodup _).sublist ((List.takeWhile_sublist _).map _)
  · have he := OrderBook.mem_front he
    rw [(me.sameShape_alloc o).elements] at he
    rw [alloc_of_lt (hs.wf.value_lt he)]
    exact (h.live hs.wf he).1
  · rw [alloc_self]
    exact Or.inl (ho.live hvalid)

/-- The order of a `NEW` command rests exactly if it `Rests`. -/
theorem Entered.resting_new (h : Entered (me.alloc o) me' me.orderBook.nextOrder trades)
    (hw : me.orderBook.WF) :
    me'.orderBook.Resting me.orderBook.nextOrder ↔
      (me'.orderBook.orderAt me.orderBook.nextOrder).Rests := by
  constructor
  · rintro ⟨b, e, he, hvalue⟩
    rcases (h.mem_elements (hw.newOrder o)).mp he with ⟨he, -⟩ | ⟨-, -, hr⟩
    · rw [(me.sameShape_alloc o).elements] at he
      exact absurd hvalue (Nat.ne_of_lt (hw.value_lt he))
    · exact hr
  · intro hr
    exact ⟨_, _, (h.mem_elements (hw.newOrder o)).mpr (Or.inr ⟨rfl, rfl, hr⟩), rfl⟩

theorem Entered.phase_new (h : Entered (me.alloc o) me' me.orderBook.nextOrder trades)
    (hlife : me.LifeCycle) (hs : me.Sound requests) (hfresh : FreshIDs (requests ++ [.new o]))
    (ho : o.Submitted) (hvalid : o.isValid = true) :
    (me'.orderBook.orderAt me.orderBook.nextOrder).Phase
      (me'.orderBook.Resting me.orderBook.nextOrder) := by
  have hlined := hlife.lined hs hfresh ho hvalid
  have horder : me'.orderBook.orderAt me.orderBook.nextOrder = Order.closed _ :=
    (congrFun h.orderAt _).trans (Function.update_self ..)
  refine Order.Phase.congr ?_ (h.resting_new hs.wf).symm
  rw [horder]
  refine Order.closed_phase (hlined.live_or_done hlined.aggressor) ?_
  rw [walk_of_fill Order.terms (fun _ _ => rfl), alloc_self, ho.terms_isValid, hvalid]

/-- An order that rests before a `NEW` command rests after it unless the
walk took it out of the front. -/
theorem Entered.resting_old (h : Entered (me.alloc o) me' me.orderBook.nextOrder trades)
    (hw : me.orderBook.WF) (he : e ∈ me.orderBook.elements b) :
    me'.orderBook.Resting e.value ↔
      (e ∈ (me.alloc o).orderBook.front crosses me.orderBook.nextOrder →
        e ∈ (walk me.orderBook.nextOrder (me.alloc o).orderBook.orderAt
          ((me.alloc o).orderBook.front crosses me.orderBook.nextOrder)).left) := by
  have hw' := hw.newOrder o
  have hel : ∀ b, (me.alloc o).orderBook.elements b = me.orderBook.elements b :=
    (me.sameShape_alloc o).elements
  constructor
  · rintro ⟨b', e', he', hvalue⟩
    rcases (h.mem_elements hw').mp he' with ⟨he', hleft⟩ | ⟨rfl, -⟩
    · obtain ⟨-, rfl⟩ := hw.element_unique (hel b' ▸ he') he hvalue
      exact hleft
    · exact absurd hvalue.symm (Nat.ne_of_lt (hw.value_lt he))
  · intro hleft
    exact ⟨b, e, (h.mem_elements hw').mpr (Or.inl ⟨(hel b).symm ▸ he, hleft⟩), rfl⟩

theorem Entered.phase_old (h : Entered (me.alloc o) me' me.orderBook.nextOrder trades)
    (hlife : me.LifeCycle) (hs : me.Sound requests) (hfresh : FreshIDs (requests ++ [.new o]))
    (ho : o.Submitted) (hvalid : o.isValid = true) (he : e ∈ me.orderBook.elements b) :
    (me'.orderBook.orderAt e.value).Phase (me'.orderBook.Resting e.value) := by
  have hlined := hlife.lined hs hfresh ho hvalid
  have hlt := hs.wf.value_lt he
  obtain ⟨hlive, hvalid', htype⟩ := hlife.live hs.wf he
  rw [← alloc_of_lt (o := o) hlt] at hlive hvalid' htype
  have horder : me'.orderBook.orderAt e.value = _ :=
    (congrFun h.orderAt _).trans (Function.update_of_ne (Nat.ne_of_lt hlt) ..)
  have hrest := h.resting_old hs.wf he
  rw [← h.of_terms Order.terms fun _ => rfl] at hvalid'
  rw [← h.of_terms Order.type fun _ => rfl] at htype
  by_cases hfront : e ∈ (me.alloc o).orderBook.front crosses me.orderBook.nextOrder
  · have hleft := hlined.mem_left_iff hfront
    rcases hlined.live_or_done (Or.inl hlive) with hlive' | hdone
    · exact .resting (hrest.mpr fun _ => hleft.mpr hlive'.not_isFilled) hvalid' htype
        (horder ▸ hlive')
    · exact .filled (fun hr => hleft.mp (hrest.mp hr hfront) hdone.isFilled) hvalid'
        (horder ▸ hdone)
  · refine .resting (hrest.mpr fun hmem => absurd hmem hfront) hvalid' htype ?_
    rw [horder, walk_other (Nat.ne_of_lt hlt)]
    · exact hlive
    · intro x hx hvalue
      have hx' := OrderBook.mem_front hx
      rw [(me.sameShape_alloc o).elements] at hx'
      obtain ⟨-, rfl⟩ := hs.wf.element_unique hx' he hvalue
      exact hfront hx

/-- The phase of an order that was resting before a `CANCEL` command. -/
theorem Withdrawn.phase (h : Withdrawn me me' e) (hlife : me.LifeCycle) (hw : me.orderBook.WF)
    (he : e ∈ me.orderBook.elements b) {b' : Bool} {e' : Element}
    (he' : e' ∈ me.orderBook.elements b') :
    (me'.orderBook.orderAt e'.value).Phase (me'.orderBook.Resting e'.value) := by
  by_cases heq : e' = e
  · subst heq
    obtain ⟨hlive, hvalid, htype⟩ := hlife.live hw he'
    have horder : me'.orderBook.orderAt e'.value = _ :=
      (congrFun h.orderAt _).trans (Function.update_self ..)
    refine .cancelled ?_ ?_ ?_ ?_ ?_ ?_
    · rintro ⟨b'', e'', he'', hvalue⟩
      rw [h.elements, List.mem_filter] at he''
      obtain ⟨-, rfl⟩ := hw.element_unique he''.1 he' hvalue
      exact absurd he''.2 (by simp)
    all_goals rw [horder]
    · exact hvalid
    · exact htype
    · exact hlive.nonneg
    · exact hlive.lt
  · have hvalue : e'.value ≠ e.value := fun hvalue => heq (hw.element_unique he' he hvalue).2
    rw [h.orderAt, Function.update_of_ne hvalue]
    refine (hlife e'.value (hw.value_lt he')).congr
      (iff_of_true ⟨b', e', he', rfl⟩ ⟨b', e', ?_, rfl⟩)
    rw [h.elements, List.mem_filter]
    exact ⟨he', decide_eq_true heq⟩

theorem reject_phase (hw : me.orderBook.WF) (ho : o.Submitted) (hvalid : ¬o.isValid = true) :
    (((me.alloc o).reject me.orderBook.nextOrder).orderBook.orderAt me.orderBook.nextOrder).Phase
      (((me.alloc o).reject me.orderBook.nextOrder).orderBook.Resting me.orderBook.nextOrder) := by
  have horder : ((me.alloc o).reject me.orderBook.nextOrder).orderBook.orderAt
      me.orderBook.nextOrder = { o with status := .rejected } := by
    simp only [reject, OrderBook.setOrder, Function.update_self]
    rw [alloc_self]
  rw [horder]
  refine .invalid ?_ ?_ ho.filledQuantity rfl
  · rintro ⟨b, e, he, hvalue⟩
    rw [reject_elements, (me.sameShape_alloc o).elements] at he
    exact absurd hvalue (Nat.ne_of_lt (hw.value_lt he))
  · rw [← ho.terms_isValid] at hvalid
    exact hvalid

theorem LifeCycle.step (h : me.LifeCycle) (hs : me.Sound requests)
    (hfresh : FreshIDs (requests ++ [request])) (ho : ∀ o, request = .new o → o.Submitted)
    (hh : Handled me me' request trades) : me'.LifeCycle := by
  intro r hr
  by_cases hold : r < me.orderBook.nextOrder
  · by_cases hrest : me.orderBook.Resting r
    · obtain ⟨b, e, he, rfl⟩ := hrest
      cases hh with
      | entered hvalid hent => exact hent.phase_old h hs hfresh (ho _ rfl) hvalid he
      | @rejected o hvalid heq =>
          subst heq
          have horder : ((me.alloc o).reject me.orderBook.nextOrder).orderBook.orderAt e.value =
              me.orderBook.orderAt e.value :=
            (Function.update_of_ne (Nat.ne_of_lt hold) ..).trans (alloc_of_lt hold)
          rw [horder]
          exact h e.value hold
      | withdrawn hcancel hwith =>
          exact hwith.phase h hs.wf (OrderBook.mem_elements.mpr ⟨_, hcancel⟩) he
      | notFound hid heq => exact heq ▸ h e.value hold
    · have hunt := hh.untouched hs hfresh hold hrest
      rw [hunt.orderAt]
      exact (h r hold).congr (iff_of_false hrest hunt.not_resting)
  · -- only a `NEW` command makes an order
    rw [hh.nextOrder] at hr
    cases request with
    | cancel orderID => exact absurd hr hold
    | new o =>
        obtain rfl : r = me.orderBook.nextOrder :=
          Nat.le_antisymm (Nat.lt_succ_iff.mp hr) (Nat.not_lt.mp hold)
        cases hh with
        | entered hvalid hent => exact hent.phase_new h hs hfresh (ho o rfl) hvalid
        | rejected hvalid heq => exact heq ▸ reject_phase hs.wf (ho o rfl) hvalid

theorem Run.lifeCycle {me₀ : MatchingEngine T} (h₀ : me₀.Initial) (h : Run me₀ requests me trades)
    (hfresh : FreshIDs requests) (hok : ∀ o ∈ submitted requests, o.Submitted) : me.LifeCycle := by
  refine (h.induct h₀ Order.Submitted (P := fun _ me _ => me.LifeCycle) ?_
    (fun hs hfresh ho hh hlife => hlife.step hs hfresh ho hh) hfresh hok).2
  intro r hr
  rw [h₀.sound.nextOrder] at hr
  exact absurd hr (Nat.not_lt_zero r)

/-! ## Whole runs -/

theorem Run.untouched {me₀ : MatchingEngine T} {requests' : List Request} {trades' : List Trade}
    (h₀ : me₀.Initial) (h : Run me₀ requests me trades) (h' : Run me requests' me' trades')
    (hfresh : FreshIDs (requests ++ requests')) {r : OrderRef}
    (hr : r < me.orderBook.nextOrder) (hrest : ¬me.orderBook.Resting r) :
    r < me'.orderBook.nextOrder ∧ Untouched me me' trades' r := by
  induction h' with
  | nil => exact ⟨hr, rfl, hrest, List.forall_mem_nil _⟩
  | @snoc requests' me₁ trades₁ request fuel me₂ response hrun hstep ih =>
      rw [← List.append_assoc] at hfresh
      obtain ⟨hr₁, hunt⟩ := ih hfresh.of_append
      have hs := (h.append hrun).sound h₀ hfresh.of_append
      have hh := handle_cases hs hfresh hstep
      have hunt' := hh.untouched hs hfresh hr₁ hunt.not_resting
      refine ⟨?_, hunt'.orderAt.trans hunt.orderAt, hunt'.not_resting, fun t ht => ?_⟩
      · rw [hh.nextOrder]
        exact Nat.lt_add_right _ hr₁
      · rcases List.mem_append.mp ht with ht | ht
        · exact hunt.not_named t ht
        · exact hunt.orderAt ▸ hunt'.not_named t ht

end

end MatchingEngine

/-- The life cycle of the orders of a run: what the status says about
the filled quantity, that it goes with the membership in the book, that
no order is lost, and that an order whose phase is final stays as it
is. -/
theorem order_life_cycle {me₀ me : MatchingEngine T} {requests : List Request}
    {trades : List Trade} (h₀ : me₀.Initial) (hfresh : FreshIDs requests)
    (hsubmitted : ∀ o ∈ submitted requests, o.filledQuantity = 0 ∧ o.status = .opened)
    (hrun : MatchingEngine.Run me₀ requests me trades) {r : Nat} {o : Order}
    (hr : (submitted requests)[r]? = some o) :
    let x := me.orderBook.orderAt r
    let inBook := me.orderBook.getOrder x.id = some r
    (x.status = .filled ↔ x.filledQuantity = x.quantity ∧ 0 < x.quantity ∧ o.isValid = true)
      ∧ (x.status = .partiallyFilled → 0 < x.filledQuantity ∧ x.filledQuantity < x.quantity)
      ∧ (x.status = .opened → x.filledQuantity = 0)
      ∧ (x.status = .rejected → x.filledQuantity = 0)
      ∧ (inBook ↔ x.type = .limit ∧ (x.status = .opened ∨ x.status = .partiallyFilled))
      ∧ (o.isValid = true → o.type = .limit →
          inBook ∨ x.status = .filled ∨ x.status = .cancelled)
      ∧ (x.status = .filled ∨ x.status = .cancelled ∨ x.status = .rejected ∨ x.type = .market →
          ∀ requests' me' trades', FreshIDs (requests ++ requests') →
            MatchingEngine.Run me requests' me' trades' →
            (me'.orderBook.orderAt r).status = x.status
              ∧ (me'.orderBook.orderAt r).filledQuantity = x.filledQuantity
              ∧ ∀ t ∈ trades', t.buyOrderID ≠ x.id ∧ t.sellOrderID ≠ x.id) := by
  have hok : ∀ o ∈ submitted requests, o.Submitted := fun o ho =>
    ⟨(hsubmitted o ho).1, (hsubmitted o ho).2⟩
  have hs := hrun.sound h₀ hfresh
  have hlt : r < me.orderBook.nextOrder := hs.nextOrder ▸ (List.getElem?_eq_some_iff.mp hr).1
  have hterms := hs.terms r o hr
  have hvalid : (me.orderBook.orderAt r).terms.isValid = o.isValid := by
    rw [hterms, (hok o (List.mem_of_getElem? hr)).terms_isValid]
  have htype : (me.orderBook.orderAt r).type = o.type :=
    Order.eq_of_terms Order.type (fun _ => rfl) hterms
  obtain ⟨hfilled, hpartly, hopen, hrejected, hbook, hlost, hfinal⟩ :=
    (hrun.lifeCycle h₀ hfresh hok r hlt).status_spec
  rw [hvalid] at hfilled hlost
  rw [htype] at hlost
  intro x inBook
  have hin : inBook ↔ me.orderBook.Resting r := hs.wf.getOrder_iff
  refine ⟨hfilled, hpartly, hopen, hrejected, hin.trans hbook, ?_, ?_⟩
  · rw [hin]
    exact hlost
  · intro hstatus requests' me' trades' hfresh' hrun'
    obtain ⟨-, hunt⟩ := hrun.untouched h₀ hrun' hfresh' hlt (hfinal hstatus)
    refine ⟨by rw [hunt.orderAt], by rw [hunt.orderAt], fun t ht => ?_⟩
    exact not_or.mp (hunt.not_named t ht)

theorem order_life_cycle_resting :
    ∃ (me : MatchingEngine (SortedItems Decimal LevelRef)) (trades : List Trade),
      MatchingEngine.Run (newMatchingEngine "BTC-USD") fillAndCancel me trades
      ∧ (me.orderBook.getOrder (me.orderBook.orderAt 0).id = some 0 ↔
          (me.orderBook.orderAt 0).type = .limit ∧ ((me.orderBook.orderAt 0).status = .opened
            ∨ (me.orderBook.orderAt 0).status = .partiallyFilled)) := by
  have h₀ : (newMatchingEngine (T := SortedItems Decimal LevelRef) "BTC-USD").Initial := ⟨_, rfl⟩
  obtain ⟨me, trades, hrun⟩ := MatchingEngine.run_total h₀ fillAndCancel (by decide)
  refine ⟨me, trades, hrun, ?_⟩
  exact (order_life_cycle h₀ (by decide) (by decide) hrun (r := 0) rfl).2.2.2.2.1

end TradingBackend
