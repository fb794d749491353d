import TradingBackend.WorkerSteps

/-!
# What the worker writes to the levels

Whoever has a pointer to a level can read its volume and the length of its queue
at any time, without the lock of the book. What it finds there is not only what
the worker leaves behind when it gives the lock up. `UpdateVolume` sets the
volume to zero and adds the orders up again, one by one; `AddOrder` makes the
queue longer before it adds to the volume, and `RemoveOrder` takes from the
volume before it makes the queue shorter.

`Worker.writes` are these writes, in their order. The last of them is what the
step of the worker leaves, no other level is written, and each of them has the
volume of a part of its queue (`step_written`).
-/

namespace TradingBackend

variable {T : Type}

/-! ## Writes to a level -/

namespace PriceLevel

/-- What `AddOrder` writes: the queue, then the volume. -/
def addOrderWrites (pl : PriceLevel) (orderAt : OrderRef → Order) (element : Element) :
    List PriceLevel :=
  [{ pl with orders := pl.orders ++ [element] }, pl.addOrder orderAt element]

/-- What `RemoveOrder` writes: the volume, then the queue. -/
def removeOrderWrites (pl : PriceLevel) (orderAt : OrderRef → Order) (element : Element) :
    List PriceLevel :=
  [{ pl with volume := pl.volume - (orderAt element.value).remainingQuantity },
    pl.removeOrder orderAt element]

/-- What `UpdateVolume` writes: zero, and after each order the sum so far. -/
def updateVolumeWrites (pl : PriceLevel) (orderAt : OrderRef → Order) : List PriceLevel :=
  (pl.orders.scanl (fun v e => v + (orderAt e.value).remainingQuantity) 0).map
    fun volume => { pl with volume := volume }

end PriceLevel

theorem exists_prefix_of_mem_scanl {α : Type} (f : α → Decimal) {l : List α} {a v : Decimal}
    (h : v ∈ l.scanl (fun v x => v + f x) a) : ∃ part, part <+: l ∧ v = a + (part.map f).sum := by
  induction l generalizing a with
  | nil =>
      obtain rfl := List.mem_singleton.mp h
      exact ⟨[], List.prefix_rfl, (add_zero v).symm⟩
  | cons x l ih =>
      rw [List.scanl_cons] at h
      rcases List.mem_cons.mp h with rfl | h
      · exact ⟨[], List.nil_prefix, (add_zero v).symm⟩
      · obtain ⟨part, hpart, rfl⟩ := ih h
        refine ⟨x :: part, (List.prefix_cons_inj x).mpr hpart, ?_⟩
        rw [List.map_cons, List.sum_cons, add_assoc]

namespace OrderBook

def CountsPart (ob : OrderBook T) (pl : PriceLevel) : Prop :=
  ∃ part, part.Sublist pl.orders ∧ pl.volume = ob.queued part

/-- On the way from `ob` to `ob'` level `l` is written, `views` in turn, and no
other level is. -/
structure Written (ob ob' : OrderBook T) (l : LevelRef) (views : List PriceLevel) : Prop where
  last : views.getLast? = some (ob'.levelAt l)
  other : ∀ l', l' ≠ l → ob'.levelAt l' = ob.levelAt l'
  price : l < ob.nextLevel → ∀ view ∈ views, view.price = (ob.levelAt l).price
  counts : ∀ view ∈ views, ob'.CountsPart view

/-- The writes on the way from `ob` to `ob'`, if there are any. -/
def WrittenBy (ob ob' : OrderBook T) : Option (LevelRef × List PriceLevel) → Prop
  | none => ob'.levelAt = ob.levelAt
  | some (l, views) => Written ob ob' l views

def updateOrderWrites (ob : OrderBook T) (orderID : UUID) (newFilledQty : Decimal) :
    Option (LevelRef × List PriceLevel) :=
  (ob.orders.lookup orderID).map fun location =>
    let order := location.element.value
    let ob := ob.setOrder order ((ob.orderAt order).setFilled newFilledQty)
    (location.priceLevel, (ob.levelAt location.priceLevel).updateVolumeWrites ob.orderAt)

section

variable {ob ob' : OrderBook T} {pl : PriceLevel} {l : LevelRef} {e : Element} {r : OrderRef}
  {views : List PriceLevel}

theorem queued_setOrder {o : Order}
    (hsame : o.remainingQuantity = (ob.orderAt r).remainingQuantity) (queue : List Element) :
    (ob.setOrder r o).queued queue = ob.queued queue := by
  refine congrArg List.sum (List.map_congr_left fun e _ => ?_)
  show (Function.update ob.orderAt r o e.value).remainingQuantity = _
  by_cases he : e.value = r
  · rw [he, Function.update_self, hsame]
  · rw [Function.update_of_ne he]

theorem countsPart_add (hpl : pl.volume = ob.queued pl.orders) (e : Element) :
    ∀ view ∈ pl.addOrderWrites ob.orderAt e, ob.CountsPart view ∧ view.price = pl.price := by
  intro view hview
  rcases List.mem_pair.mp hview with rfl | rfl
  · exact ⟨⟨pl.orders, List.sublist_append_left .., hpl⟩, rfl⟩
  · refine ⟨⟨pl.orders ++ [e], List.Sublist.refl _, ?_⟩, rfl⟩
    rw [PriceLevel.addOrder, hpl, queued, queued, List.map_append, List.sum_append,
      List.map_singleton, List.sum_singleton]

theorem countsPart_remove (hpl : pl.volume = ob.queued pl.orders) (he : e ∈ pl.orders) :
    ∀ view ∈ pl.removeOrderWrites ob.orderAt e, ob.CountsPart view ∧ view.price = pl.price := by
  intro view hview
  have hvolume : pl.volume - (ob.orderAt e.value).remainingQuantity =
      ob.queued (pl.orders.erase e) := by
    rw [queued_erase ob he, hpl]
  rcases List.mem_pair.mp hview with rfl | rfl
  · exact ⟨⟨_, List.erase_sublist, hvolume⟩, rfl⟩
  · exact ⟨⟨_, List.Sublist.refl _, hvolume⟩, rfl⟩

theorem countsPart_update (ob : OrderBook T) (pl : PriceLevel) :
    ∀ view ∈ pl.updateVolumeWrites ob.orderAt, ob.CountsPart view ∧ view.price = pl.price := by
  intro view hview
  obtain ⟨volume, hvolume, rfl⟩ := List.mem_map.mp hview
  obtain ⟨part, hpart, rfl⟩ := exists_prefix_of_mem_scanl
    (fun e : Element => (ob.orderAt e.value).remainingQuantity) hvolume
  exact ⟨⟨part, hpart.sublist, zero_add _⟩, rfl⟩

theorem Written.setOrder {o : Order} (h : Written ob ob' l views)
    (hsame : o.remainingQuantity = (ob'.orderAt r).remainingQuantity) :
    Written ob (ob'.setOrder r o) l views := by
  refine ⟨h.last, h.other, h.price, fun view hview => ?_⟩
  obtain ⟨part, hpart, hvolume⟩ := h.counts view hview
  exact ⟨part, hpart, hvolume.trans (queued_setOrder hsame part).symm⟩

theorem updateOrder_written (ob : OrderBook T) (orderID : UUID) (newFilledQty : Decimal) :
    WrittenBy ob (ob.updateOrder orderID newFilledQty)
      (ob.updateOrderWrites orderID newFilledQty) := by
  cases hlook : ob.orders.lookup orderID with
  | none =>
      rw [updateOrderWrites, updateOrder, hlook]
      rfl
  | some location =>
      rw [updateOrderWrites, updateOrder, hlook]
      refine ⟨?_, fun l' hne => Function.update_of_ne hne ..,
        fun _ view hview => (countsPart_update _ _ view hview).2,
        fun view hview => (countsPart_update _ _ view hview).1⟩
      rw [PriceLevel.updateVolumeWrites, List.getLast?_map, List.getLast?_scanl]
      simp only [setLevel, Function.update_self]
      rfl

end

end OrderBook

variable [OrderedTree T Decimal LevelRef]

/-! ## What becomes of the levels -/

namespace OrderBook

variable {ob ob' ob'' : OrderBook T} {l : LevelRef} {e : Element} {b : Bool}

/-- A level that is in neither tree is empty. -/
def Tidy (ob : OrderBook T) : Prop :=
  ∀ l, l < ob.nextLevel →
    (∃ b, ob.Filed b l) ∨ (ob.levelAt l).orders = [] ∧ (ob.levelAt l).volume = 0

/-- The levels in memory stay: a pointer to one that was there still leads to a
level with its price, and a level that left its tree is empty. -/
structure LevelsKept (ob ob' : OrderBook T) : Prop where
  nextLevel : ob.nextLevel ≤ ob'.nextLevel
  price : ∀ {l}, l < ob.nextLevel → (ob'.levelAt l).price = (ob.levelAt l).price
  tidy : ob.Tidy → ob'.Tidy

theorem LevelsKept.refl (ob : OrderBook T) : LevelsKept ob ob := ⟨le_rfl, fun _ => rfl, id⟩

theorem LevelsKept.trans (h : LevelsKept ob ob') (h' : LevelsKept ob' ob'') :
    LevelsKept ob ob'' :=
  ⟨h.nextLevel.trans h'.nextLevel,
    fun hl => (h'.price (hl.trans_le h.nextLevel)).trans (h.price hl),
    fun ht => h'.tidy (h.tidy ht)⟩

/-- A step that writes no level but those in the trees. -/
theorem SameShape.levelsKept (h : SameShape ob ob')
    (hlevel : ∀ l, (∀ b, ¬ob.Filed b l) → ob'.levelAt l = ob.levelAt l) : LevelsKept ob ob' := by
  refine ⟨h.nextLevel.ge, fun _ => h.price _, fun htidy l hl => ?_⟩
  by_cases hf : ∃ b, ob.Filed b l
  · obtain ⟨b, hf⟩ := hf
    exact Or.inl ⟨b, h.filed_iff.mpr hf⟩
  · have hgone := htidy l (h.nextLevel ▸ hl)
    rw [hlevel l fun b hb => hf ⟨b, hb⟩]
    exact Or.inr (hgone.resolve_left hf)

theorem Detached.levelsKept (h : Detached ob ob' l e) (hw : ob.WF) (he : ob.Holds b l e) :
    LevelsKept ob ob' := by
  refine ⟨h.nextLevel.ge, fun {l'} _ => ?_, fun htidy l' hl' => ?_⟩
  · by_cases hl : l' = l
    · rw [hl, h.level_self]
      rfl
    · rw [h.level_other hl]
  · by_cases hl : l' = l
    · subst hl
      by_cases hlast : (ob.levelAt l').orders.erase e = []
      · -- the last order goes, and what is left of the volume is that of no order
        refine Or.inr ⟨by rw [h.level_self]; exact hlast, ?_⟩
        rw [h.level_self]
        have hvolume := queued_erase ob he.2
        rw [hlast, ← hw.volumes he.1] at hvolume
        exact hvolume.symm
      · exact Or.inl ⟨b, h.filed_iff.mpr ⟨he.1, fun hgone => hlast hgone.2⟩⟩
    · rw [h.level_other hl]
      refine (htidy l' (h.nextLevel ▸ hl')).imp_left ?_
      rintro ⟨b', hf⟩
      exact ⟨b', h.filed_iff.mpr ⟨hf, fun hgone => hl hgone.1⟩⟩

/-- `AddOrder` makes no level but the one the order goes to. -/
theorem Added.lt_nextLevel {order : OrderRef} {level : PriceLevel}
    (h : Added ob (ob.addOrder order) order l level) (hl : ob.Layout) {l' : LevelRef}
    (hlt : l' < (ob.addOrder order).nextLevel) (hne : l' ≠ l) : l' < ob.nextLevel := by
  rcases ob.addOrder_cases order with ⟨_, _, hadd⟩ | ⟨hnew, hadd⟩
  · rw [hadd] at hlt
    exact hlt
  · have hl' : l = ob.nextLevel := by
      rcases h.source with ⟨hf, rfl⟩ | ⟨hlast, -⟩
      · exact absurd (h.price_eq ▸ hl.filed_iff.mp hf) (hnew l)
      · exact hlast
    rw [hadd] at hlt
    exact Nat.lt_of_le_of_ne (Nat.lt_succ_iff.mp hlt) (hl' ▸ hne)

theorem addOrder_levelsKept (ob : OrderBook T) (order : OrderRef) (hl : ob.Layout) :
    LevelsKept ob (ob.addOrder order) := by
  obtain ⟨l, level, hadd⟩ := addOrder_added hl order
  refine ⟨hadd.nextLevel, fun {l'} hl' => ?_, fun htidy l' hl' => ?_⟩
  · by_cases heq : l' = l
    · rw [heq, hadd.level_self]
      rcases hadd.source with ⟨-, rfl⟩ | ⟨rfl, -⟩
      · rfl
      · exact absurd (heq ▸ hl') (lt_irrefl _)
    · rw [hadd.level_other heq]
  · by_cases heq : l' = l
    · exact Or.inl ⟨_, hadd.filed_iff.mpr (Or.inr ⟨rfl, heq⟩)⟩
    · rw [hadd.level_other heq]
      refine (htidy l' (hadd.lt_nextLevel hl hl' heq)).imp_left ?_
      rintro ⟨b', hf⟩
      exact ⟨b', hadd.filed_iff.mpr (Or.inl hf)⟩

theorem updateOrder_levelsKept (hi : ob.Indexed) (orderID : UUID) (newFilledQty : Decimal) :
    LevelsKept ob (ob.updateOrder orderID newFilledQty) := by
  cases hlook : ob.orders.lookup orderID with
  | none =>
      simp only [updateOrder, hlook]
      exact .refl ob
  | some location =>
      obtain ⟨⟨b, hholds⟩, -⟩ := hi.mp hlook
      have hfilled : SameShape ob (ob.setOrder location.element.value
          ((ob.orderAt location.element.value).setFilled newFilledQty)) :=
        sameShape_setOrder rfl rfl rfl
      simp only [updateOrder, hlook]
      refine (hfilled.trans (sameShape_updateVolume ..)).levelsKept fun l hf =>
        Function.update_of_ne ?_ ..
      rintro rfl
      exact hf b hholds.1

theorem removeOrder_levelsKept (hw : ob.WF) (orderID : UUID) :
    LevelsKept ob (ob.removeOrder orderID).1 := by
  rcases hw.lookup_cases orderID with hnone | ⟨b, l, e, he, rfl, hsome⟩
  · simp only [removeOrder, hnone]
    exact .refl ob
  · simp only [removeOrder, hsome]
    exact (detach_detached hw.layout he).levelsKept hw he

theorem setOrder_levelsKept {r : OrderRef} {o : Order} (hid : o.id = (ob.orderAt r).id)
    (hside : o.side = (ob.orderAt r).side) (hprice : o.price = (ob.orderAt r).price) :
    LevelsKept ob (ob.setOrder r o) :=
  (sameShape_setOrder hid hside hprice).levelsKept fun _ _ => rfl

theorem cancelOrder_levelsKept (hw : ob.WF) (orderID : UUID) :
    LevelsKept ob (ob.cancelOrder orderID).1 := by
  rcases hw.lookup_cases orderID with hnone | ⟨b, l, e, he, rfl, hsome⟩
  · simp only [cancelOrder, hnone]
    exact .refl ob
  · simp only [cancelOrder, hsome]
    exact ((detach_detached hw.layout he).levelsKept hw he).trans (setOrder_levelsKept rfl rfl rfl)

end OrderBook

/-- What is left to fill in a level, less a fill that is under way. -/
def Worker.held (w : Worker T) (l : LevelRef) : Decimal :=
  w.engine.orderBook.queued (w.engine.orderBook.levelAt l).orders + w.inFlight l

namespace MatchingEngine

variable {me me' : MatchingEngine T} {a r : OrderRef} {w w' : Worker T} {ev : WorkerEvent}

theorem Visible.wf (h : Visible w) (hflight : ∀ l, w.inFlight l = 0) : w.engine.orderBook.WF :=
  ⟨h.layout, h.indexed, fun hf => by rw [h.volumes hf, hflight, add_zero]⟩

/-- The volume of a level, whether it is still in a tree or not. -/
theorem Visible.volume_eq (h : Visible w) (ht : w.engine.orderBook.Tidy) {l : LevelRef}
    (hl : l < w.engine.orderBook.nextLevel) :
    (w.engine.orderBook.levelAt l).volume = w.held l := by
  by_cases hf : ∃ b, w.engine.orderBook.Filed b l
  · obtain ⟨b, hf⟩ := hf
    exact h.volumes hf
  · obtain ⟨horders, hvolume⟩ := (ht l hl).resolve_left hf
    rw [Worker.held, horders, hvolume, h.idle fun b hb => hf ⟨b, hb⟩]
    exact (add_zero 0).symm

theorem removeResting_book (me : MatchingEngine T) (r : OrderRef) :
    (me.removeResting r).orderBook =
      (me.orderBook.removeOrder (me.orderBook.orderAt r).id).1 := by
  unfold removeResting
  split <;> simp only [*, publishOrderbookChange, emit]

theorem cancel_book {orderID : UUID} {fuel : Nat} {response : CommandResponse}
    (h : me.processCommand fuel (.cancel orderID) = some (me', response)) :
    me'.orderBook = (me.orderBook.cancelOrder orderID).1 := by
  simp only [processCommand] at h
  split at h <;> cases h <;> simp only [*, publishOrderbookChange, emit]

theorem step_levelsKept (h : Visible w) (hstep : w.Step ev w') :
    OrderBook.LevelsKept w.engine.orderBook w'.engine.orderBook := by
  cases hstep with
  | @accept o hphase hvalid =>
      exact (w.engine.sameShape_alloc o).levelsKept fun _ _ => rfl
  | @reject o hphase hvalid =>
      exact ((w.engine.sameShape_alloc o).levelsKept fun _ _ => rfl).trans
        (OrderBook.setOrder_levelsKept rfl rfl rfl)
  | cancel hphase hcancel =>
      rw [cancel_book hcancel]
      exact OrderBook.cancelOrder_levelsKept (h.wf fun _ => by rw [Worker.inFlight, hphase]) _
  | call | keep | endLevel => exact .refl _
  | leave => exact (sameShape_close ..).levelsKept fun _ _ => rfl
  | fill => exact (sameShape_fillBoth ..).levelsKept fun _ _ => by rw [fillBoth_levelAt]
  | update => exact OrderBook.updateOrder_levelsKept h.indexed ..
  | remove hphase =>
      rw [removeResting_book]
      exact OrderBook.removeOrder_levelsKept (h.wf fun _ => by rw [Worker.inFlight, hphase]) _
  | @finish order trades hphase =>
      obtain ⟨effects, hbook⟩ := (w.engine.restOrder order).announce_eq order trades
      rw [hbook]
      simp only [restOrder]
      split_ifs
      · exact OrderBook.addOrder_levelsKept w.engine.orderBook order h.layout
      · exact OrderBook.addOrder_levelsKept w.engine.orderBook order h.layout
      · exact .refl _

end MatchingEngine

/-! ## The writes of a step -/

namespace OrderBook

def addOrderWrites (ob : OrderBook T) (order : OrderRef) : LevelRef × List PriceLevel :=
  let isBid := (ob.orderAt order).side.isBid
  let (ob, priceLevel) := ob.getOrCreatePriceLevel isBid (ob.orderAt order).price
  (priceLevel, (ob.levelAt priceLevel).addOrderWrites ob.orderAt ⟨ob.nextElement, order⟩)

/-- The level that `RemoveOrder` and `CancelOrder` write, and the writes. -/
def removeOrderWrites (ob : OrderBook T) (orderID : UUID) : Option (LevelRef × List PriceLevel) :=
  (ob.orders.lookup orderID).map fun location =>
    (location.priceLevel,
      (ob.levelAt location.priceLevel).removeOrderWrites ob.orderAt location.element)

section

variable {ob : OrderBook T} {l : LevelRef} {e : Element} {b : Bool}

theorem addOrder_written (hw : ob.WF) (order : OrderRef) :
    Written ob (ob.addOrder order) (ob.addOrderWrites order).1 (ob.addOrderWrites order).2 := by
  rcases getOrCreatePriceLevel_cases ob (ob.orderAt order).side.isBid (ob.orderAt order).price
    with ⟨l, hl, heq⟩ | ⟨heq, -⟩
  · have hviews := countsPart_add (hw.volumes ⟨_, hl⟩) (ob.added order)
    simp only [addOrder, addOrderWrites, heq]
    exact ⟨by simp [PriceLevel.addOrderWrites, setLevel],
      fun l' hne => Function.update_of_ne hne .., fun _ view hview => (hviews view hview).2,
      fun view hview => (hviews view hview).1⟩
  · have hnew : (newPriceLevel (ob.orderAt order).price).volume = ob.queued [] := rfl
    have hviews := countsPart_add hnew (ob.added order)
    simp only [addOrder, addOrderWrites, heq, setSide, setLevel, Function.update_self,
      Function.update_idem]
    exact ⟨by simp [PriceLevel.addOrderWrites], fun l' hne => Function.update_of_ne hne ..,
      fun hlt => absurd hlt (lt_irrefl _), fun view hview => (hviews view hview).1⟩

/-- The part that `RemoveOrder` and `CancelOrder` share. -/
theorem detach_written (hw : ob.WF) (he : ob.Holds b l e) :
    Written ob (ob.detach (ob.orderAt e.value).id ⟨l, e⟩) l
      ((ob.levelAt l).removeOrderWrites ob.orderAt e) := by
  have hd := detach_detached hw.layout he
  have hviews := countsPart_remove (hw.volumes he.1) he.2
  refine ⟨congrArg some hd.level_self.symm, fun l' hne => hd.level_other hne,
    fun _ view hview => (hviews view hview).2, fun view hview => ?_⟩
  obtain ⟨part, hpart, hvolume⟩ := (hviews view hview).1
  refine ⟨part, hpart, hvolume.trans (queued_congr fun e _ => ?_).symm⟩
  rw [hd.orderAt]

theorem removeOrder_written (hw : ob.WF) (orderID : UUID) :
    WrittenBy ob (ob.removeOrder orderID).1 (ob.removeOrderWrites orderID) := by
  rcases hw.lookup_cases orderID with hnone | ⟨b, l, e, he, rfl, hsome⟩
  · rw [removeOrderWrites, removeOrder, hnone]
    rfl
  · rw [removeOrderWrites, removeOrder, hsome]
    exact detach_written hw he

theorem cancelOrder_written (hw : ob.WF) (orderID : UUID) :
    WrittenBy ob (ob.cancelOrder orderID).1 (ob.removeOrderWrites orderID) := by
  rcases hw.lookup_cases orderID with hnone | ⟨b, l, e, he, rfl, hsome⟩
  · rw [removeOrderWrites, cancelOrder, hnone]
    rfl
  · rw [removeOrderWrites, cancelOrder, hsome]
    exact (detach_written hw he).setOrder rfl

end

end OrderBook

/-- The level that a step of the worker writes, and what it writes there. -/
def Worker.writes (w : Worker T) (ev : WorkerEvent) : Option (LevelRef × List PriceLevel) :=
  let ob := w.engine.orderBook
  match w.phase, ev with
  | .waiting, .accept (.cancel orderID) => ob.removeOrderWrites orderID
  | .filled _ element _ _, .work =>
      ob.updateOrderWrites (ob.orderAt element.value).id (ob.orderAt element.value).filledQuantity
  | .updated _ element _ _, .work =>
      if (ob.orderAt element.value).isFilled then
        ob.removeOrderWrites (ob.orderAt element.value).id
      else none
  | .matched order _, .answer _ =>
      if (ob.orderAt order).Rests then some (ob.addOrderWrites order) else none
  | _, _ => none

namespace MatchingEngine

variable {w w' : Worker T} {ev : WorkerEvent}

theorem step_written (h : Visible w) (hstep : w.Step ev w') :
    OrderBook.WrittenBy w.engine.orderBook w'.engine.orderBook (w.writes ev) := by
  cases hstep with
  | accept hphase | reject hphase | call hphase | leave hphase | endLevel hphase =>
      simp only [Worker.writes, hphase]
      rfl
  | fill hphase =>
      simp only [Worker.writes, hphase]
      exact fillBoth_levelAt ..
  | keep hphase hfilled =>
      simp only [Worker.writes, hphase, if_neg hfilled]
      rfl
  | cancel hphase hcancel =>
      rw [cancel_book hcancel]
      simp only [Worker.writes, hphase]
      exact OrderBook.cancelOrder_written (h.wf fun _ => by rw [Worker.inFlight, hphase]) _
  | update hphase =>
      simp only [Worker.writes, hphase]
      exact OrderBook.updateOrder_written ..
  | remove hphase hfilled =>
      rw [removeResting_book]
      simp only [Worker.writes, hphase, if_pos hfilled]
      exact OrderBook.removeOrder_written (h.wf fun _ => by rw [Worker.inFlight, hphase]) _
  | @finish order trades hphase =>
      obtain ⟨effects, hann⟩ := (w.engine.restOrder order).announce_eq order trades
      obtain ⟨effects', hrest⟩ := w.engine.restOrder_eq order
      rw [hann, hrest]
      simp only [Worker.writes, hphase]
      split_ifs
      · exact OrderBook.addOrder_written (h.wf fun _ => by rw [Worker.inFlight, hphase]) order
      · rfl

end MatchingEngine

end TradingBackend
