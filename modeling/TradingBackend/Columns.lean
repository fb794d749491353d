import Mathlib.Algebra.Order.Round
import Mathlib.Data.Rat.Floor
import Mathlib.Tactic.FieldSimp
import Mathlib.Tactic.Positivity

/-!
# Columns of a table

What PostgreSQL makes of a value that is stored in a column, or `none` if
it refuses: `NUMERIC(p, s)` rounds to `s` decimals, halves away from zero,
and refuses what then has more than `p - s` digits before the point;
`VARCHAR(n)` refuses what is longer than `n` characters, but cuts off
blanks; no text holds the character zero.

A value that came out of a column goes back in unchanged
(`numeric_idem`, `varchar_idem`), and a number with at most `s` decimals
is not rounded (`numeric_of_hasScale`).
-/

namespace TradingBackend

/-! ## Numbers -/

/-- The nearest integer, halves away from zero. -/
def roundAway (x : ℚ) : ℤ := if 0 ≤ x then round x else -round (-x)

/-- `NUMERIC(precision, scale)`. -/
def numeric (precision scale : ℕ) (x : ℚ) : Option ℚ :=
  let y : ℚ := roundAway (x * 10 ^ scale) / 10 ^ scale
  if |y| < 10 ^ (precision - scale) then some y else none

/-- A number with at most `scale` decimals. -/
def HasScale (scale : ℕ) (x : ℚ) : Prop := ∃ n : ℤ, x = n / 10 ^ scale

theorem roundAway_intCast (n : ℤ) : roundAway n = n := by
  unfold roundAway
  split
  · exact round_intCast n
  · rw [← Int.cast_neg, round_intCast, neg_neg]

section

variable {precision scale : ℕ} {x y : ℚ}

theorem pow_ten_ne_zero (scale : ℕ) : (10 : ℚ) ^ scale ≠ 0 := by positivity

theorem HasScale.roundAway_eq (h : HasScale scale x) :
    (roundAway (x * 10 ^ scale) : ℚ) / 10 ^ scale = x := by
  obtain ⟨n, rfl⟩ := h
  rw [div_mul_cancel₀ _ (pow_ten_ne_zero scale), roundAway_intCast]

theorem numeric_of_hasScale (h : HasScale scale x) :
    numeric precision scale x = if |x| < 10 ^ (precision - scale) then some x else none := by
  unfold numeric
  rw [h.roundAway_eq]

theorem numeric_eq_some (h : numeric precision scale x = some y) :
    HasScale scale y ∧ |y| < 10 ^ (precision - scale) := by
  unfold numeric at h
  simp only [Option.ite_none_right_eq_some, Option.some.injEq] at h
  obtain ⟨hlt, rfl⟩ := h
  exact ⟨⟨_, rfl⟩, hlt⟩

/-- A number with few enough decimals is stored as it is, or not at all. -/
theorem HasScale.numeric_eq (h : HasScale scale x) (hx : numeric precision scale x = some y) :
    y = x := by
  rw [numeric_of_hasScale h, Option.ite_none_right_eq_some] at hx
  exact (Option.some.inj hx.2).symm

theorem numeric_idem (h : numeric precision scale x = some y) :
    numeric precision scale y = some y := by
  obtain ⟨hscale, hlt⟩ := numeric_eq_some h
  rw [numeric_of_hasScale hscale, if_pos hlt]

theorem HasScale.zero : HasScale scale 0 := ⟨0, by simp⟩

theorem HasScale.add (hx : HasScale scale x) (hy : HasScale scale y) : HasScale scale (x + y) := by
  obtain ⟨n, rfl⟩ := hx
  obtain ⟨m, rfl⟩ := hy
  exact ⟨n + m, by push_cast; ring⟩

theorem HasScale.sub (hx : HasScale scale x) (hy : HasScale scale y) : HasScale scale (x - y) := by
  obtain ⟨n, rfl⟩ := hx
  obtain ⟨m, rfl⟩ := hy
  exact ⟨n - m, by push_cast; ring⟩

theorem HasScale.min (hx : HasScale scale x) (hy : HasScale scale y) :
    HasScale scale (min x y) := by
  rcases min_choice x y with h | h <;> rw [h] <;> assumption

end

/-! ## Texts -/

/-- `VARCHAR(n)`. -/
def varchar (n : ℕ) (s : String) : Option String :=
  if s.toList.contains (Char.ofNat 0) then none
  else if s.toList.length ≤ n then some s
  else if (s.toList.drop n).all (· == ' ') then some (String.ofList (s.toList.take n))
  else none

theorem varchar_idem {n : ℕ} {s t : String} (h : varchar n s = some t) : varchar n t = some t := by
  unfold varchar at h
  split at h
  · cases h
  · rename_i hzero
    split at h
    · rename_i hlength
      obtain rfl := Option.some.inj h
      rw [varchar, if_neg hzero, if_pos hlength]
    · split at h
      · obtain rfl := Option.some.inj h
        have hzero' : ¬(s.toList.take n).contains (Char.ofNat 0) = true := by
          simp only [List.contains_iff_mem] at hzero ⊢
          exact fun hmem => hzero (List.mem_of_mem_take hmem)
        rw [varchar, String.toList_ofList, if_neg hzero', if_pos (List.length_take_le ..)]
      · cases h

end TradingBackend
