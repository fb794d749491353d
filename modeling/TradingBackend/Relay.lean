import Mathlib.Data.List.Basic

/-!
# A relay

Items are taken one at a time and passed on before the next one is taken.
A relay may drop what it has in hand where `lossy` allows it; it never
passes on anything twice or out of order, and where it may not drop, what
it has passed on and what it has in hand is what it has taken.
-/

namespace TradingBackend

/-- What has been passed on, and what is in hand. -/
structure Relay (α : Type) where
  passed : List α
  hand : Option α

namespace Relay

variable {α : Type}

def items (r : Relay α) : List α := r.passed ++ r.hand.toList

inductive Step (lossy : Prop) (r : Relay α) : Option α → Relay α → Prop where
  | idle : Step lossy r none r
  | take {a} (hhand : r.hand = none) : Step lossy r (some a) { r with hand := some a }
  | pass {a} (hhand : r.hand = some a) : Step lossy r none ⟨r.passed ++ [a], none⟩
  | drop {a} (hhand : r.hand = some a) (hlossy : lossy) : Step lossy r none ⟨r.passed, none⟩

variable {lossy : Prop} {r r' : Relay α} {taken : Option α}

theorem Step.items_eq (h : Step lossy r taken r') (hlossy : ¬lossy) :
    r'.items = r.items ++ taken.toList := by
  cases h with
  | idle => simp
  | take hhand => simp [items, hhand]
  | pass hhand => simp [items, hhand]
  | drop _ hdrop => exact absurd hdrop hlossy

theorem Step.items_sublist (h : Step lossy r taken r') :
    r'.items.Sublist (r.items ++ taken.toList) := by
  cases h with
  | idle => simp
  | take hhand => simp [items, hhand]
  | pass hhand => simp [items, hhand]
  | drop => simp [items]

end Relay

end TradingBackend
