import Mathlib.Data.List.Basic
import Mathlib.Logic.Function.Basic
import Mathlib.Order.Defs.LinearOrder

/-!
# Read, modify, write

A cell that holds a list of at most `limit` items. A process adds an item by
reading the list, putting the item in front and writing the result back; the
read and the write are atomic, the whole is not.

If nobody reads while another has read and not yet written (`Quiet`), the
cell holds the items in the order of the writes (`Serial`). Otherwise an item
is lost for good (`Doomed`): from then on the list is shorter than the number
of writes, or will be.
-/

namespace TradingBackend

/-- The cell, and what every process that has read it is going to write:
its item and the list. -/
structure Cell (ι α : Type) where
  value : List α
  pend : ι → Option (α × List α)

namespace Cell

variable {ι α : Type} {limit n : Nat} {s : Cell ι α} {p : ι} {x : α} {xs ys : List α}

def empty : Cell ι α := ⟨[], fun _ => none⟩

/-- Nobody has read and not yet written. -/
def Quiet (s : Cell ι α) : Prop := ∀ p, s.pend p = none

/-- The cell after writes of the items `xs`, the last one in front; a process
that has read it is the only one, and will put its item in front of what is
there. -/
structure Serial (limit : Nat) (s : Cell ι α) (xs : List α) : Prop where
  value : s.value = xs.take limit
  pend : ∀ p x ys, s.pend p = some (x, ys) → ys = (x :: xs).take limit
  only : ∀ p q, s.pend p ≠ none → s.pend q ≠ none → p = q

/-- After `n` writes the list has at most `n` items, and a process is not
ahead of both. -/
structure Bounded (s : Cell ι α) (n : Nat) : Prop where
  value : s.value.length ≤ n
  pend : ∀ p x ys, s.pend p = some (x, ys) → ys.length ≤ n ∨ ys.length ≤ s.value.length + 1

/-- After `n` writes an item is missing, or one process is about to write a
list that is behind, or two have read the same. -/
inductive Doomed (s : Cell ι α) (n : Nat) : Prop where
  | missing (h : s.value.length < n)
  | behind {p : ι} {x : α} {ys : List α} (hp : s.pend p = some (x, ys)) (h : ys.length ≤ n)
  | both {p q : ι} (hne : p ≠ q) (hp : s.pend p ≠ none) (hq : s.pend q ≠ none)

theorem serial_empty : (empty : Cell ι α).Serial limit [] :=
  ⟨List.take_nil.symm, fun _ _ _ => nofun, fun _ _ h => absurd rfl h⟩

theorem bounded_empty : (empty : Cell ι α).Bounded 0 := ⟨Nat.le_refl 0, fun _ _ _ => nofun⟩

theorem Bounded.pend_le (h : s.Bounded n) (hp : s.pend p = some (x, ys)) : ys.length ≤ n + 1 := by
  have hvalue := h.value
  rcases h.pend p x ys hp with hle | hle <;> omega

/-- When everybody has written, an item is missing. -/
theorem Doomed.lt (h : s.Doomed n) (hquiet : s.Quiet) : s.value.length < n := by
  cases h with
  | missing h => exact h
  | @behind p x ys hp h =>
      rw [hquiet p] at hp
      cases hp
  | both _ hp _ => exact absurd (hquiet _) hp

/-! ## The two commands -/

variable [DecidableEq ι]

def read (limit : Nat) (s : Cell ι α) (p : ι) (x : α) : Cell ι α :=
  { s with pend := Function.update s.pend p (some (x, (x :: s.value).take limit)) }

def write (s : Cell ι α) (p : ι) (xs : List α) : Cell ι α :=
  ⟨xs, Function.update s.pend p none⟩

theorem read_self : (s.read limit p x).pend p = some (x, (x :: s.value).take limit) :=
  Function.update_self ..

theorem read_of_ne {q : ι} (h : q ≠ p) : (s.read limit p x).pend q = s.pend q :=
  Function.update_of_ne h ..

theorem write_self : (s.write p xs).pend p = none := Function.update_self ..

theorem write_of_ne {q : ι} (h : q ≠ p) : (s.write p xs).pend q = s.pend q :=
  Function.update_of_ne h ..

/-! ## One at a time -/

omit [DecidableEq ι] in
theorem take_cons_take (x : α) (xs : List α) (limit : Nat) :
    (x :: xs.take limit).take limit = (x :: xs).take limit := by
  cases limit with
  | zero => rfl
  | succ n =>
      rw [List.take_succ_cons, List.take_succ_cons, List.take_take, Nat.min_eq_left n.le_succ]

theorem Serial.read (h : s.Serial limit xs) (hquiet : s.Quiet) :
    (s.read limit p x).Serial limit xs := by
  have hother : ∀ q, (s.read limit p x).pend q ≠ none → q = p := fun q hq =>
    by_contra fun hne => hq ((read_of_ne hne).trans (hquiet q))
  refine ⟨h.value, fun q y ys hq => ?_, fun q r hq hr => (hother q hq).trans (hother r hr).symm⟩
  obtain rfl := hother q (by rw [hq]; exact Option.some_ne_none _)
  rw [read_self] at hq
  cases hq
  rw [h.value, take_cons_take]

theorem Serial.write (h : s.Serial limit xs) (hp : s.pend p = some (x, ys)) :
    (s.write p ys).Serial limit (x :: xs) := by
  have hquiet : (s.write p ys).Quiet := fun q => by
    by_cases hq : q = p
    · rw [hq, write_self]
    · rw [write_of_ne hq]
      by_contra hne
      exact hq (h.only q p hne (by rw [hp]; exact Option.some_ne_none _))
  refine ⟨h.pend p x ys hp, fun q y zs hq => ?_, fun q _ hq => absurd (hquiet q) hq⟩
  rw [hquiet q] at hq
  cases hq

/-! ## Lost for good -/

theorem Bounded.read (h : s.Bounded n) : (s.read limit p x).Bounded n := by
  refine ⟨h.value, fun q y ys hq => ?_⟩
  by_cases hne : q = p
  · subst hne
    rw [read_self] at hq
    cases hq
    exact Or.inr (List.length_take_le' ..)
  · rw [read_of_ne hne] at hq
    exact h.pend q y ys hq

theorem Bounded.write (h : s.Bounded n) (hp : s.pend p = some (x, ys)) :
    (s.write p ys).Bounded (n + 1) := by
  refine ⟨h.pend_le hp, fun q y zs hq => Or.inl ?_⟩
  by_cases hne : q = p
  · rw [hne, write_self] at hq
    cases hq
  · rw [write_of_ne hne] at hq
    exact h.pend_le hq

theorem doomed_of_read (hp : s.pend p = none) (hquiet : ¬s.Quiet) :
    (s.read limit p x).Doomed n := by
  obtain ⟨q, hq⟩ := not_forall.mp hquiet
  have hne : q ≠ p := fun heq => hq (heq ▸ hp)
  refine .both hne ?_ ?_
  · rwa [read_of_ne hne]
  · rw [read_self]
    exact Option.some_ne_none _

theorem Doomed.read (h : s.Doomed n) (hp : s.pend p = none) : (s.read limit p x).Doomed n := by
  have hother : ∀ {q}, s.pend q ≠ none → q ≠ p := fun hq heq => hq (heq ▸ hp)
  cases h with
  | missing h => exact .missing h
  | @behind q y ys hq h =>
      have hne : q ≠ p := hother (by rw [hq]; exact Option.some_ne_none _)
      exact .behind ((read_of_ne hne).trans hq) h
  | both hne hq hr =>
      exact .both hne (by rwa [read_of_ne (hother hq)]) (by rwa [read_of_ne (hother hr)])

theorem Doomed.write (h : s.Doomed n) (hb : s.Bounded n) (hp : s.pend p = some (x, ys)) :
    (s.write p ys).Doomed (n + 1) := by
  -- whoever else has read by now will be behind after this write
  have hbehind : ∀ {q}, q ≠ p → s.pend q ≠ none → (s.write p ys).Doomed (n + 1) := by
    intro q hne hq
    obtain ⟨⟨y, zs⟩, hzs⟩ := Option.ne_none_iff_exists'.mp hq
    exact .behind ((write_of_ne hne).trans hzs) (hb.pend_le hzs)
  cases h with
  | missing h =>
      have hle : ys.length ≤ n := by
        rcases hb.pend p x ys hp with hle | hle <;> omega
      exact .missing (Nat.lt_succ_of_le hle)
  | @behind q y zs hq h =>
      by_cases hne : q = p
      · subst hne
        rw [hp] at hq
        cases hq
        exact .missing (Nat.lt_succ_of_le h)
      · exact hbehind hne (by rw [hq]; exact Option.some_ne_none _)
  | @both q r hne hq hr =>
      by_cases hqp : q = p
      · exact hbehind (fun heq => hne (hqp.trans heq.symm)) hr
      · exact hbehind hqp hq

end Cell

end TradingBackend
