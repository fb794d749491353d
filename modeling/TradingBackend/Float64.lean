import Mathlib.Algebra.Order.Floor.Ring
import Mathlib.Data.Rat.Floor
import Mathlib.Tactic.Linarith
import Mathlib.Tactic.NormNum
import Mathlib.Tactic.Ring

/-!
# Binary floating point

The `binary64` format: 53 bits of precision, exponents from -1074 to 971.
A finite float is its value; the two zeros are not told apart. `nearest`
rounds a rational to the format, to the nearest value and from the middle to
the even one. The operations are exact up to that.
-/

namespace TradingBackend

inductive Float64 where
  | nan
  | inf (negative : Bool)
  | finite (value : ℚ)
deriving DecidableEq

namespace Float64

/-- The nearest integer; from the middle the even one. -/
def roundEven (x : ℚ) : Int :=
  let low := ⌊x⌋
  if x - low < 1 / 2 then low
  else if 1 / 2 < x - low then low + 1
  else if low % 2 = 0 then low
  else low + 1

def exponent (q : ℚ) : Int :=
  let e : Int := q.num.natAbs.log2 - q.den.log2
  if |q| < (2 : ℚ) ^ e then e - 1 else e

/-- The value of the lowest of the 53 bits. -/
def ulp (q : ℚ) : ℚ := (2 : ℚ) ^ max (exponent q - 52) (-1074)

/-- The nearest float, if the exponent is not too large. -/
def nearest (q : ℚ) : ℚ := roundEven (q / ulp q) * ulp q

def ofRat (q : ℚ) : Float64 :=
  if 2 ^ 1024 ≤ |nearest q| then .inf (decide (q < 0)) else .finite (nearest q)

def mul : Float64 → Float64 → Float64
  | .nan, _ => .nan
  | _, .nan => .nan
  | .finite a, .finite b => ofRat (a * b)
  | .inf s, .inf t => .inf (s != t)
  | .inf s, .finite b => if b = 0 then .nan else .inf (s != decide (b < 0))
  | .finite a, .inf t => if a = 0 then .nan else .inf (decide (a < 0) != t)

def sub : Float64 → Float64 → Float64
  | .nan, _ => .nan
  | _, .nan => .nan
  | .finite a, .finite b => ofRat (a - b)
  | .inf s, .inf t => if s = t then .nan else .inf s
  | .inf s, .finite _ => .inf s
  | .finite _, .inf t => .inf !t

def div : Float64 → Float64 → Float64
  | .nan, _ => .nan
  | _, .nan => .nan
  | .finite a, .finite b =>
      if b ≠ 0 then ofRat (a / b) else if a = 0 then .nan else .inf (decide (a < 0))
  | .inf _, .inf _ => .nan
  | .inf s, .finite b => .inf (s != decide (b < 0))
  | .finite _, .inf _ => .finite 0

/-- Toward zero. -/
def trunc : Float64 → Float64
  | .finite a => .finite (if 0 ≤ a then ⌊a⌋ else ⌈a⌉)
  | x => x

def abs : Float64 → Float64
  | .nan => .nan
  | .inf _ => .inf false
  | .finite a => .finite |a|

/-- `x < y`; no comparison with `nan` holds. -/
def lt : Float64 → Float64 → Bool
  | .finite a, .finite b => decide (a < b)
  | .finite _, .inf t => !t
  | .inf s, .finite _ => s
  | .inf s, .inf t => s && !t
  | _, _ => false

def le : Float64 → Float64 → Bool
  | .nan, _ => false
  | _, .nan => false
  | x, y => !lt y x

/-- The conversion to a 64-bit integer, toward zero; what does not fit gives
the least one. -/
def toInt64 : Float64 → Int
  | .finite a =>
      let n := if 0 ≤ a then ⌊a⌋ else ⌈a⌉
      if -2 ^ 63 ≤ n ∧ n < 2 ^ 63 then n else -2 ^ 63
  | _ => -2 ^ 63

/-! ## Integers -/

theorem roundEven_intCast (n : Int) : roundEven n = n := by
  unfold roundEven
  rw [Int.floor_intCast]
  norm_num

theorem ulp_pos (q : ℚ) : 0 < ulp q := zpow_pos (by norm_num) _

theorem nearest_of_multiple {q : ℚ} {m : Int} (h : q = m * ulp q) : nearest q = q := by
  have hdiv : q / ulp q = m := by
    rw [div_eq_iff (ulp_pos q).ne']
    exact h
  rw [nearest, hdiv, roundEven_intCast]
  exact h.symm

theorem exponent_intCast {n : Int} (hn : n ≠ 0) : exponent n = n.natAbs.log2 := by
  have hpow : (2 : ℚ) ^ n.natAbs.log2 ≤ |(n : ℚ)| := by
    rw [← Int.cast_abs, Int.abs_eq_natAbs]
    exact_mod_cast Nat.log2_self_le (Int.natAbs_ne_zero.mpr hn)
  have hone : Nat.log2 1 = 0 := by decide
  have hnot : ¬|(n : ℚ)| < (2 : ℚ) ^ (((n : ℚ).num.natAbs.log2 : Int) - (n : ℚ).den.log2) := by
    simpa [hone] using hpow
  exact (if_neg hnot).trans (by simp [hone])

theorem nearest_intCast {n : Int} (h : n.natAbs < 2 ^ 53) : nearest n = n := by
  by_cases hn : n = 0
  · subst hn
    exact nearest_of_multiple (m := 0) (by simp)
  · have hlog : n.natAbs.log2 < 53 := (Nat.log2_lt (Int.natAbs_ne_zero.mpr hn)).mpr h
    have hulp : ulp n = (2 : ℚ) ^ (-((52 - n.natAbs.log2 : Nat) : Int)) := by
      rw [ulp, exponent_intCast hn]
      congr 1
      omega
    refine nearest_of_multiple (m := n * 2 ^ (52 - n.natAbs.log2)) ?_
    rw [hulp, zpow_neg, zpow_natCast]
    push_cast
    rw [mul_inv_cancel_right₀ (pow_ne_zero _ two_ne_zero)]

theorem ofRat_intCast {n : Int} (h : n.natAbs < 2 ^ 53) : ofRat n = .finite n := by
  have hsmall : |(n : ℚ)| < 2 ^ 53 := by
    rw [← Int.cast_abs, Int.abs_eq_natAbs]
    exact_mod_cast h
  have hmax : (2 : ℚ) ^ 53 ≤ 2 ^ 1024 := pow_le_pow_right₀ one_le_two (by decide)
  rw [ofRat, nearest_intCast h, if_neg (not_le.mpr (hsmall.trans_le hmax))]

theorem toInt64_ofRat_intCast {n : Int} (h : n.natAbs < 2 ^ 53) : (ofRat n).toInt64 = n := by
  have htrunc : (if 0 ≤ (n : ℚ) then ⌊(n : ℚ)⌋ else ⌈(n : ℚ)⌉) = n := by
    rw [Int.floor_intCast, Int.ceil_intCast, ite_self]
  rw [ofRat_intCast h, toInt64, htrunc]
  exact if_pos (by omega)

end Float64

end TradingBackend
