import Mathlib.Algebra.BigOperators.Ring.List
import Mathlib.Algebra.Order.BigOperators.Group.List
import TradingBackend.EventSourcing

/-!
# The average fill price of a replayed order

`Apply` keeps the average fill price without the fills: it takes the
quantity that was filled before from the quantity that is filled now. The
average times the quantity filled is what was paid (`apply_fill`), and
that is a sum over the fills (`applyAll_fills`).
-/

namespace TradingBackend.EventSourcing

variable {s : OrderState ℚ} {fills : List (OrderPartiallyFilledEvent ℚ)}

def volume (fills : List (OrderPartiallyFilledEvent ℚ)) : ℚ :=
  (fills.map fun f => f.filledQuantity).sum

/-- What was paid for it. -/
def turnover (fills : List (OrderPartiallyFilledEvent ℚ)) : ℚ :=
  (fills.map fun f => f.fillPrice * f.filledQuantity).sum

/-- A fill adds its quantity and its price times its quantity. -/
theorem OrderState.apply_fill (hs : 0 ≤ s.filledQty) {f : OrderPartiallyFilledEvent ℚ}
    (hf : 0 < f.filledQuantity) :
    let s' := s.apply (.orderPartiallyFilled f)
    s'.filledQty = s.filledQty + f.filledQuantity
    ∧ s'.averageFillPrice * s'.filledQty
        = s.averageFillPrice * s.filledQty + f.fillPrice * f.filledQuantity
    ∧ s'.originalQty = s.originalQty := by
  have hpos : 0 < s.filledQty + f.filledQuantity := by linarith
  simp only [OrderState.apply, if_pos hpos, true_and, and_true]
  rw [add_sub_cancel_right, div_mul_cancel₀ _ hpos.ne']

theorem OrderState.apply_fill_remaining (f : OrderPartiallyFilledEvent ℚ) :
    (s.apply (.orderPartiallyFilled f)).remainingQty = f.remainingQuantity := by
  simp only [OrderState.apply]
  split <;> rfl

theorem OrderState.applyAll_fills (hs : 0 ≤ s.filledQty)
    (hpos : ∀ f ∈ fills, 0 < f.filledQuantity) :
    let s' := s.applyAll (fills.map .orderPartiallyFilled)
    s'.filledQty = s.filledQty + volume fills
    ∧ s'.averageFillPrice * s'.filledQty = s.averageFillPrice * s.filledQty + turnover fills
    ∧ s'.originalQty = s.originalQty := by
  induction fills generalizing s with
  | nil => simp [volume, turnover]
  | cons f fills ih =>
      obtain ⟨hfilled, haverage, horiginal⟩ := apply_fill hs (hpos f List.mem_cons_self)
      have hs' : 0 ≤ (s.apply (.orderPartiallyFilled f)).filledQty := by
        rw [hfilled]
        linarith [hpos f List.mem_cons_self]
      obtain ⟨ihfilled, ihaverage, ihoriginal⟩ :=
        ih hs' fun f' hf' => hpos f' (List.mem_cons_of_mem _ hf')
      rw [List.map_cons, applyAll_cons]
      refine ⟨?_, ?_, ihoriginal.trans horiginal⟩
      · rw [ihfilled, hfilled, volume, volume, List.map_cons, List.sum_cons, add_assoc]
      · rw [ihaverage, haverage, turnover, turnover, List.map_cons, List.sum_cons, add_assoc]

theorem volume_pos (hpos : ∀ f ∈ fills, 0 < f.filledQuantity) (hne : fills ≠ []) :
    0 < volume fills :=
  List.sum_pos _ (by simpa using hpos) (by simpa using hne)

theorem mul_volume_le_turnover {lo : ℚ} (hpos : ∀ f ∈ fills, 0 < f.filledQuantity)
    (hlo : ∀ f ∈ fills, lo ≤ f.fillPrice) : lo * volume fills ≤ turnover fills := by
  rw [volume, ← List.sum_map_mul_left]
  exact List.sum_le_sum fun f hf => mul_le_mul_of_nonneg_right (hlo f hf) (hpos f hf).le

theorem turnover_le_mul_volume {hi : ℚ} (hpos : ∀ f ∈ fills, 0 < f.filledQuantity)
    (hhi : ∀ f ∈ fills, f.fillPrice ≤ hi) : turnover fills ≤ hi * volume fills := by
  rw [volume, ← List.sum_map_mul_left]
  exact List.sum_le_sum fun f hf => mul_le_mul_of_nonneg_right (hhi f hf) (hpos f hf).le

def filledInPart (placed : OrderPlacedEvent ℚ) (fills : List (OrderPartiallyFilledEvent ℚ)) :
    OrderState ℚ :=
  .applyAll .empty (.orderPlaced placed :: fills.map .orderPartiallyFilled)

theorem filledInPart_eq (placed : OrderPlacedEvent ℚ)
    (hpos : ∀ f ∈ fills, 0 < f.filledQuantity) :
    (filledInPart placed fills).filledQty = volume fills
    ∧ (filledInPart placed fills).averageFillPrice * volume fills = turnover fills
    ∧ (filledInPart placed fills).originalQty = placed.quantity := by
  obtain ⟨hfilled, haverage, horiginal⟩ := OrderState.applyAll_fills
    (s := OrderState.empty.apply (.orderPlaced placed)) le_rfl hpos
  have hzero : (OrderState.empty.apply (.orderPlaced placed)).filledQty = 0 := rfl
  rw [hzero, zero_add] at hfilled
  rw [hzero, mul_zero, zero_add, hfilled] at haverage
  exact ⟨hfilled, haverage, horiginal⟩

theorem filledInPart_concat (placed : OrderPlacedEvent ℚ) (f : OrderPartiallyFilledEvent ℚ) :
    filledInPart placed (fills ++ [f])
      = (filledInPart placed fills).apply (.orderPartiallyFilled f) := by
  rw [filledInPart, List.map_append, ← List.cons_append, OrderState.applyAll_append]
  rfl

/-- The replayed average fill price is the mean of the fill prices,
weighted by the quantities. If the remaining quantities of the events are
right, those of the order are. -/
theorem replayed_average_fill_price (placed : OrderPlacedEvent ℚ)
    (fills : List (OrderPartiallyFilledEvent ℚ)) (hpos : ∀ f ∈ fills, 0 < f.filledQuantity) :
    let state := filledInPart placed fills
    state.filledQty = volume fills
    ∧ (fills ≠ [] →
        state.averageFillPrice * state.filledQty = turnover fills
        ∧ (∀ lo, (fills.map fun f => f.fillPrice).min? = some lo → lo ≤ state.averageFillPrice)
        ∧ ∀ hi, (fills.map fun f => f.fillPrice).max? = some hi → state.averageFillPrice ≤ hi)
    ∧ ((∀ before f after, fills = before ++ f :: after →
          f.remainingQuantity = placed.quantity - volume (before ++ [f])) →
        ∀ before after, fills = before ++ after →
          let state := filledInPart placed before
          state.filledQty + state.remainingQty = state.originalQty) := by
  intro state
  obtain ⟨hfilled, haverage, -⟩ := filledInPart_eq placed hpos
  refine ⟨hfilled, fun hne => ?_, fun hremaining before after hsplit => ?_⟩
  · have hvolume := volume_pos hpos hne
    refine ⟨hfilled ▸ haverage, fun lo hlo => ?_, fun hi hhi => ?_⟩
    · have hle := mul_volume_le_turnover hpos fun f hf =>
        (List.min?_eq_some_iff.mp hlo).2 _ (List.mem_map_of_mem hf)
      rw [← haverage] at hle
      exact le_of_mul_le_mul_right hle hvolume
    · have hle := turnover_le_mul_volume hpos fun f hf =>
        (List.max?_eq_some_iff.mp hhi).2 _ (List.mem_map_of_mem hf)
      rw [← haverage] at hle
      exact le_of_mul_le_mul_right hle hvolume
  · have hposBefore : ∀ f ∈ before, 0 < f.filledQuantity := fun f hf =>
      hpos f (hsplit ▸ List.mem_append_left _ hf)
    obtain ⟨hfilled', -, horiginal⟩ := filledInPart_eq placed hposBefore
    simp only [hfilled', horiginal]
    rcases List.eq_nil_or_concat' before with rfl | ⟨before, f, rfl⟩
    · exact zero_add _
    · rw [filledInPart_concat, OrderState.apply_fill_remaining,
        hremaining before f after (by simpa using hsplit), add_sub_cancel]

theorem two_fills_average :
    let placed := newOrderPlacedEvent 1 0 7 "client" "BTC-USD" "buy" "limit" 12 10 "GTC" 1
    let base := placed.toBaseEvent
    let fills : List (OrderPartiallyFilledEvent ℚ) :=
      [⟨base, 7, 1, 9, 10, 8⟩, ⟨base, 7, 3, 6, 12, 9⟩]
    (filledInPart placed fills).averageFillPrice * (filledInPart placed fills).filledQty
      = turnover fills
    ∧ (filledInPart placed fills).filledQty + (filledInPart placed fills).remainingQty
      = (filledInPart placed fills).originalQty := by
  intro placed base fills
  have hpos : ∀ f ∈ fills, 0 < f.filledQuantity := by decide +kernel
  obtain ⟨-, haverage, hremaining⟩ := replayed_average_fill_price placed fills hpos
  refine ⟨(haverage (by simp [fills])).1, hremaining ?_ fills [] (by simp)⟩
  intro before f after hsplit
  rcases before with _ | ⟨first, _ | ⟨second, before⟩⟩
  · obtain ⟨rfl, -⟩ := List.cons.inj hsplit
    decide +kernel
  · obtain ⟨rfl, hrest⟩ := List.cons.inj hsplit
    obtain ⟨rfl, -⟩ := List.cons.inj hrest
    decide +kernel
  · simp [fills] at hsplit

end TradingBackend.EventSourcing
