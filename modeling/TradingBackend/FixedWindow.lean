import Mathlib.Algebra.Order.Ring.Int
import Mathlib.Data.List.Count

/-!
# Fixed windows

A limiter that grants at most `k + 1` requests in a window of time. A window
begins with a grant, and the next one begins at a grant after the window is
over. Windows of the limiter are not the windows of an observer: in a span
of the same width that begins anywhere, there can be grants of two of them.
The first grant of the earlier one is then outside, so that there are at
most `2 * k + 1` (`Opened.bound`).
-/

namespace TradingBackend.FixedWindow

/-- `x` is in the span of this width that begins at `t`. -/
def Within (width t x : Int) : Prop := t ≤ x ∧ x ≤ t + width

instance (width t : Int) : DecidablePred (Within width t) := fun _ =>
  inferInstanceAs (Decidable (_ ∧ _))

def inSpan (width t : Int) (grants : List Int) : Nat := grants.countP (Within width t)

/-- No span holds more than `2 * k + 1` grants. -/
def Bounded (width : Int) (k : Nat) (grants : List Int) : Prop :=
  ∀ t, inSpan width t grants ≤ 2 * k + 1

/-- The last window began at `start`, and `n` requests were granted in it. -/
structure Opened (width : Int) (k : Nat) (grants : List Int) (start : Int) (n : Nat) : Prop where
  split : ∃ before after, grants = before ++ start :: after
    ∧ after.length + 1 = n ∧ n ≤ k + 1
    ∧ (∀ x ∈ before, x < start) ∧ (∀ x ∈ after, start ≤ x ∧ x ≤ start + width)
    ∧ ∀ t, start ≤ t + width → inSpan width t before ≤ k
  bound : Bounded width k grants

variable {width : Int} {k n : Nat} {grants before after : List Int} {start now t : Int}

theorem inSpan_append (l l' : List Int) :
    inSpan width t (l ++ l') = inSpan width t l + inSpan width t l' :=
  List.countP_append

theorem inSpan_le_length (width t : Int) (l : List Int) : inSpan width t l ≤ l.length :=
  List.countP_le_length

theorem inSpan_eq_zero {l : List Int} (h : ∀ x ∈ l, x < t ∨ t + width < x) :
    inSpan width t l = 0 := by
  refine List.countP_eq_zero.mpr fun x hx hin => ?_
  have hwithin := of_decide_eq_true hin
  unfold Within at hwithin
  rcases h x hx with hlt | hlt <;> omega

/-- The grants of the last window and those before it. -/
theorem bounded_split (hlength : after.length + 1 ≤ k + 1)
    (hafter : ∀ x ∈ after, start ≤ x) (hbefore : ∀ t, start ≤ t + width → inSpan width t before ≤ k)
    (hbound : Bounded width k before) : Bounded width k (before ++ start :: after) := by
  intro t
  rw [inSpan_append]
  by_cases ht : start ≤ t + width
  · have hle := hbefore t ht
    have hlast := inSpan_le_length width t (start :: after)
    rw [List.length_cons] at hlast
    omega
  · have hzero : inSpan width t (start :: after) = 0 := by
      refine inSpan_eq_zero fun x hx => Or.inr ?_
      rcases List.mem_cons.mp hx with rfl | hx
      · omega
      · have hle := hafter x hx
        omega
    have hle := hbound t
    omega

theorem Opened.of_before (hbefore : ∀ x ∈ grants, x < now)
    (hspan : ∀ t, now ≤ t + width → inSpan width t grants ≤ k) (hbound : Bounded width k grants) :
    Opened width k (grants ++ [now]) now 1 where
  split := ⟨grants, [], rfl, rfl, by omega, hbefore, List.forall_mem_nil _, hspan⟩
  bound := bounded_split (by simp) (List.forall_mem_nil _) hspan hbound

/-- A window begins when nothing was granted for longer than a window. -/
theorem Opened.first (hwidth : 0 ≤ width) (hquiet : ∀ x ∈ grants, x + width < now)
    (hbound : Bounded width k grants) : Opened width k (grants ++ [now]) now 1 := by
  refine .of_before (fun x hx => ?_) (fun t ht => ?_) hbound
  · have hlt := hquiet x hx
    omega
  · rw [inSpan_eq_zero fun x hx => Or.inl ?_]
    · exact Nat.zero_le _
    · have hlt := hquiet x hx
      omega

theorem Opened.next (h : Opened width k grants start n) (hwidth : 0 ≤ width)
    (hover : start + width < now) : Opened width k (grants ++ [now]) now 1 := by
  obtain ⟨before, after, rfl, hlength, hle, hbefore, hafter, -⟩ := h.split
  refine .of_before (fun x hx => ?_) (fun t ht => ?_) h.bound
  · rcases List.mem_append.mp hx with hx | hx
    · have hlt := hbefore x hx
      omega
    · rcases List.mem_cons.mp hx with rfl | hx
      · omega
      · have hlt := (hafter x hx).2
        omega
  · -- the span begins after the first grant of the window that is over
    have hgone : inSpan width t (before ++ [start]) = 0 := by
      refine inSpan_eq_zero fun x hx => Or.inl ?_
      rcases List.mem_append.mp hx with hx | hx
      · have hlt := hbefore x hx
        omega
      · obtain rfl := List.mem_singleton.mp hx
        omega
    rw [List.append_cons, inSpan_append, hgone]
    have hlast := inSpan_le_length width t after
    omega

theorem Opened.grant (h : Opened width k grants start n) (hquota : n ≤ k) (hlow : start ≤ now)
    (hhigh : now ≤ start + width) : Opened width k (grants ++ [now]) start (n + 1) := by
  obtain ⟨before, after, rfl, hlength, hle, hbefore, hafter, hspan⟩ := h.split
  have hafter' : ∀ x ∈ after ++ [now], start ≤ x ∧ x ≤ start + width := by
    intro x hx
    rcases List.mem_append.mp hx with hx | hx
    · exact hafter x hx
    · obtain rfl := List.mem_singleton.mp hx
      exact ⟨hlow, hhigh⟩
  have hlength' : (after ++ [now]).length + 1 = n + 1 := by
    rw [List.length_append, List.length_singleton, hlength]
  have hbound : Bounded width k before := fun t => by
    have hall := h.bound t
    rw [inSpan_append] at hall
    omega
  rw [List.append_assoc, List.cons_append]
  refine ⟨⟨before, after ++ [now], rfl, hlength', by omega, hbefore, hafter', hspan⟩, ?_⟩
  exact bounded_split (by omega) (fun x hx => (hafter' x hx).1) hspan hbound

end TradingBackend.FixedWindow
