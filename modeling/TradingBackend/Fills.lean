import Mathlib.Algebra.BigOperators.Group.Finset.Basic
import TradingBackend.Walk

/-!
# Quantities along a walk

A walk along live orders: every trade has a positive quantity that both
sides have left, so no order is overfilled, an order leaves the list
exactly when it is filled, and the status of both sides says how much of
them is filled. `Lined` is the precondition that the steps of a walk
preserve, `Lined.invariant` the rule that hands it to the step of every
other invariant.
-/

namespace TradingBackend

namespace Order

/-- An order that can still be filled, with the status that says so. -/
structure Live (o : Order) : Prop where
  nonneg : 0 ≤ o.filledQuantity
  lt : o.filledQuantity < o.quantity
  status : o.status = if o.filledQuantity = 0 then .opened else .partiallyFilled

structure Done (o : Order) : Prop where
  eq : o.filledQuantity = o.quantity
  pos : 0 < o.quantity
  status : o.status = .filled

section

variable {o : Order} {q : Decimal}

theorem Live.remaining_pos (h : o.Live) : 0 < o.remainingQuantity := sub_pos.mpr h.lt

theorem Live.not_isFilled (h : o.Live) : ¬o.isFilled = true := fun hf =>
  h.lt.ne (isFilled_iff.mp hf)

theorem Live.canBeFilled (h : o.Live) : o.canBeFilled = true := by
  rw [canBeFilled_iff, h.status]
  split_ifs
  · exact Or.inl rfl
  · exact Or.inr rfl

theorem Done.isFilled (h : o.Done) : o.isFilled = true := isFilled_iff.mpr h.eq

theorem Done.remaining (h : o.Done) : o.remainingQuantity = 0 :=
  isFilled_iff_remaining.mp h.isFilled

theorem Live.fill_all (h : o.Live) (hq : o.remainingQuantity = q) : (o.fill q).Done := by
  refine ⟨?_, h.nonneg.trans_lt h.lt, ?_⟩
  · rw [fill_filledQuantity, fill_quantity, ← hq, remainingQuantity, add_sub_cancel]
  · rw [fill_status, if_pos hq]

theorem Live.fill_some (h : o.Live) (hpos : 0 < q) (hq : q < o.remainingQuantity) :
    (o.fill q).Live ∧ (o.fill q).status = .partiallyFilled := by
  have hfilled : 0 < o.filledQuantity + q := add_pos_of_nonneg_of_pos h.nonneg hpos
  have hstatus : (o.fill q).status = .partiallyFilled := by
    rw [fill_status, if_neg hq.ne', if_pos ⟨hfilled, hq⟩]
  refine ⟨⟨hfilled.le, ?_, ?_⟩, hstatus⟩
  · exact lt_sub_iff_add_lt'.mp hq
  · rw [hstatus, fill_filledQuantity, if_neg hfilled.ne']

theorem Live.fill (h : o.Live) (hpos : 0 < q) (hq : q ≤ o.remainingQuantity) :
    (o.fill q).Live ∨ (o.fill q).Done :=
  (eq_or_lt_of_le hq).elim (fun heq => Or.inr (h.fill_all heq.symm))
    fun hlt => Or.inl (h.fill_some hpos hlt).1

/-- The status tells whether something is left after a fill. -/
theorem Live.fill_partly (h : o.Live) (hpos : 0 < q) (hq : q ≤ o.remainingQuantity) :
    (o.fill q).status = .partiallyFilled ↔ 0 < (o.fill q).remainingQuantity := by
  rcases eq_or_lt_of_le hq with heq | hlt
  · have hdone := h.fill_all heq.symm
    rw [hdone.status, hdone.remaining]
    exact ⟨nofun, fun hlt => absurd hlt (lt_irrefl 0)⟩
  · obtain ⟨hlive, hstatus⟩ := h.fill_some hpos hlt
    exact ⟨fun _ => hlive.remaining_pos, fun _ => hstatus⟩

end

end Order

/-! ## Live orders in line -/

/-- The aggressor and the orders of the list can trade. -/
structure Lined (a : OrderRef) (m : OrderRef → Order) (queue : List Element) : Prop where
  ne : ∀ e ∈ queue, e.value ≠ a
  nodup : (queue.map Element.value).Nodup
  live : ∀ e ∈ queue, (m e.value).Live
  aggressor : (m a).Live ∨ (m a).Done

section

variable {a : OrderRef} {m : OrderRef → Order} {e : Element} {queue : List Element}

/-- Both sides of the first trade are live, and its quantity fits both. -/
structure Fits (a : OrderRef) (m : OrderRef → Order) (e : Element) : Prop where
  ne : e.value ≠ a
  aggressor : (m a).Live
  resting : (m e.value).Live
  pos : 0 < matchQty m a e.value
  le_aggressor : matchQty m a e.value ≤ (m a).remainingQuantity
  le_resting : matchQty m a e.value ≤ (m e.value).remainingQuantity

theorem Lined.fits (h : Lined a m (e :: queue)) (hpos : 0 < (m a).remainingQuantity) :
    Fits a m e := by
  have he := h.live e (List.mem_cons_self ..)
  have ha := h.aggressor.resolve_right fun hdone => hpos.ne' hdone.remaining
  exact ⟨h.ne e (List.mem_cons_self ..), ha, he, lt_min hpos he.remaining_pos, min_le_left ..,
    min_le_right ..⟩

theorem Lined.tail (h : Lined a m (e :: queue)) (hpos : 0 < (m a).remainingQuantity) :
    Lined a (tradeOrders m a e.value) queue := by
  have hfits := h.fits hpos
  refine ⟨fun x hx => h.ne x (List.mem_cons_of_mem _ hx), ?_, fun x hx => ?_, ?_⟩
  · have hnodup := h.nodup
    rw [List.map_cons, List.nodup_cons] at hnodup
    exact hnodup.2
  · rw [tradeOrders_tail h.ne h.nodup hx]
    exact h.live x (List.mem_cons_of_mem _ hx)
  · rw [tradeOrders_aggressor hfits.ne]
    exact hfits.aggressor.fill hfits.pos hfits.le_aggressor

theorem Fits.not_filled (h : Fits a m e)
    (hf : ¬(tradeOrders m a e.value e.value).isFilled = true) :
    (tradeOrders m a e.value e.value).Live := by
  rw [tradeOrders_resting h.ne] at hf ⊢
  exact (h.resting.fill h.pos h.le_resting).resolve_right fun hdone => hf hdone.isFilled

theorem Lined.step (h : Lined a m (e :: queue)) (hpos : 0 < (m a).remainingQuantity) :
    Lined a (tradeOrders m a e.value)
      (if (tradeOrders m a e.value e.value).isFilled then queue else e :: queue) := by
  have htail := h.tail hpos
  split_ifs with hf
  · exact htail
  · refine ⟨h.ne, h.nodup, fun x hx => ?_, htail.aggressor⟩
    rcases List.mem_cons.mp hx with rfl | hx
    · exact (h.fits hpos).not_filled hf
    · exact htail.live x hx

/-- What every trade of a walk along live orders preserves holds at its
end. -/
theorem Lined.invariant (h : Lined a m queue)
    {P : (OrderRef → Order) → List Trade → Prop}
    (hstep : ∀ m ts, ∀ e ∈ queue, Fits a m e → P m ts →
      P (tradeOrders m a e.value) (ts ++ [tradeOf m a e.value]))
    (ts : List Trade) (hP : P m ts) :
    P (walk a m queue).orderAt (ts ++ (walk a m queue).trades) := by
  refine (walk_invariant
    (P := fun m ts left => Lined a m left ∧ (∀ e ∈ left, e ∈ queue) ∧ P m ts) ?_ ts
    ⟨h, fun _ he => he, hP⟩).2.2
  rintro m ts e left ⟨hl, hmem, hP⟩ hpos
  refine ⟨hl.step hpos, ?_, hstep m ts e (hmem e (List.mem_cons_self ..)) (hl.fits hpos) hP⟩
  split_ifs
  · exact fun x hx => hmem x (List.mem_cons_of_mem _ hx)
  · exact hmem

/-- What fills of positive quantities that are left preserve holds for
every order. -/
theorem Lined.of_fills (h : Lined a m queue) {Q : Order → Prop}
    (hQ : ∀ o q, 0 < q → q ≤ o.remainingQuantity → Q o → Q (o.fill q)) {r : OrderRef}
    (hr : Q (m r)) : Q ((walk a m queue).orderAt r) := by
  refine h.invariant (P := fun m _ => Q (m r)) (fun m _ e _ hfits hP => ?_) [] hr
  by_cases ha : r = a
  · subst ha
    rw [tradeOrders_aggressor hfits.ne]
    exact hQ _ _ hfits.pos hfits.le_aggressor hP
  · by_cases he : r = e.value
    · subst he
      rw [tradeOrders_resting hfits.ne]
      exact hQ _ _ hfits.pos hfits.le_resting hP
    · rwa [tradeOrders_other ha he]

theorem Lined.live_or_done (h : Lined a m queue) {r : OrderRef} (hr : (m r).Live ∨ (m r).Done) :
    ((walk a m queue).orderAt r).Live ∨ ((walk a m queue).orderAt r).Done := by
  refine h.of_fills (Q := fun o => o.Live ∨ o.Done) (fun o q hpos hq ho => ?_) hr
  rcases ho with ho | ho
  · exact ho.fill hpos hq
  · rw [ho.remaining] at hq
    exact absurd hpos (not_lt.mpr hq)

theorem Lined.mem_left_iff (h : Lined a m queue) (he : e ∈ queue) :
    e ∈ (walk a m queue).left ↔ ¬((walk a m queue).orderAt e.value).isFilled = true := by
  induction queue generalizing m with
  | nil => cases he
  | cons x queue ih =>
      by_cases hpos : 0 < (m a).remainingQuantity
      · have htail := h.tail hpos
        by_cases hf : (tradeOrders m a x.value x.value).isFilled = true
        · rw [walk_filled hpos hf]
          rcases List.mem_cons.mp he with rfl | he
          · have hnodup := h.nodup
            rw [List.map_cons, List.nodup_cons] at hnodup
            have hnot : ∀ y ∈ queue, y.value ≠ e.value := fun y hy heq =>
              hnodup.1 (heq ▸ List.mem_map_of_mem hy)
            dsimp only
            rw [walk_other (h.ne e (List.mem_cons_self ..)) hnot]
            exact iff_of_false (fun hmem => hnot e (walk_left_suffix.subset hmem) rfl)
              (not_not_intro hf)
          · exact ih htail he
        · rw [walk_partly hpos hf]
          refine iff_of_true he ?_
          rcases List.mem_cons.mp he with rfl | he
          · exact hf
          · exact (htail.live e he).not_isFilled
      · rw [walk_done hpos]
        exact iff_of_true he (h.live e he).not_isFilled

end

end TradingBackend
