import Mathlib.Data.List.Perm.Basic
import Mathlib.Data.List.Nodup
import Mathlib.Logic.Function.Basic

/-!
# Items in places

A system hands items from place to place: channels, lists, the hands of
its threads. `Placed contents place` says that the places hold what
`place` tells, each item once and in one place only. The lemmas are the
ways items move: one enters, one moves, all of one place move.
-/

namespace TradingBackend

variable {ι π : Type}

/-- Every item is where `place` says, once, and nowhere else. -/
structure Placed (contents : π → List ι) (place : ι → Option π) : Prop where
  nodup : ∀ p, (contents p).Nodup
  mem_iff : ∀ p x, x ∈ contents p ↔ place x = some p

theorem Placed.empty {contents : π → List ι} (h : ∀ p, contents p = []) :
    Placed contents fun _ => none where
  nodup p := by
    rw [h p]
    exact List.nodup_nil
  mem_iff p x := by simp [h p]

section

variable {contents contents' : π → List ι} {place : ι → Option π} {x : ι} {p q : π}

theorem Placed.congr (h : Placed contents place) (hsame : ∀ r, contents' r = contents r) :
    Placed contents' place := by
  obtain rfl : contents' = contents := funext hsame
  exact h

theorem Placed.eq_of_mem (h : Placed contents place) (hp : x ∈ contents p) (hq : x ∈ contents q) :
    p = q :=
  Option.some.inj (((h.mem_iff p x).mp hp).symm.trans ((h.mem_iff q x).mp hq))

theorem Placed.moveAll [DecidableEq π] (h : Placed contents place) (hpq : p ≠ q)
    (hempty : contents q = []) (htake : contents' p = []) (hput : contents' q = contents p)
    (hrest : ∀ r, r ≠ p → r ≠ q → contents' r = contents r) :
    Placed contents' fun y => if place y = some p then some q else place y := by
  have hnone : ∀ y, place y ≠ some q := fun y hy => by
    have hmem := (h.mem_iff q y).mpr hy
    rw [hempty] at hmem
    cases hmem
  constructor
  · intro r
    by_cases hrp : r = p
    · rw [hrp, htake]
      exact List.nodup_nil
    · by_cases hrq : r = q
      · rw [hrq, hput]
        exact h.nodup p
      · rw [hrest r hrp hrq]
        exact h.nodup r
  · intro r y
    by_cases hrp : r = p
    · subst hrp
      rw [htake]
      split
      · simp [Ne.symm hpq]
      · simp [*]
    · by_cases hrq : r = q
      · subst hrq
        rw [hput, h.mem_iff]
        split
        · simp [*]
        · simp [*]
      · rw [hrest r hrp hrq, h.mem_iff]
        split
        · rename_i hy
          rw [hy]
          simp [Ne.symm hrp, Ne.symm hrq]
        · rfl

variable [DecidableEq ι]

theorem Placed.enter (h : Placed contents place) (hx : place x = none)
    (hput : (contents' q).Perm (x :: contents q)) (hrest : ∀ r, r ≠ q → contents' r = contents r) :
    Placed contents' (Function.update place x (some q)) := by
  have hnew : ∀ r, x ∉ contents r := fun r hr => by
    rw [h.mem_iff, hx] at hr
    cases hr
  constructor
  · intro r
    by_cases hr : r = q
    · subst hr
      exact hput.nodup_iff.mpr (List.nodup_cons.mpr ⟨hnew r, h.nodup r⟩)
    · rw [hrest r hr]
      exact h.nodup r
  · intro r y
    by_cases hr : r = q
    · subst hr
      rw [hput.mem_iff, List.mem_cons, h.mem_iff]
      by_cases hy : y = x
      · simp [hy]
      · simp [hy]
    · rw [hrest r hr]
      by_cases hy : y = x
      · subst hy
        simp [hnew r, Ne.symm hr]
      · rw [Function.update_of_ne hy, h.mem_iff]

theorem Placed.move (h : Placed contents place) (hpq : p ≠ q)
    (htake : (contents p).Perm (x :: contents' p)) (hput : (contents' q).Perm (x :: contents q))
    (hrest : ∀ r, r ≠ p → r ≠ q → contents' r = contents r) :
    Placed contents' (Function.update place x (some q)) := by
  have hx : x ∈ contents p := htake.mem_iff.mpr List.mem_cons_self
  have hother : ∀ r, r ≠ p → x ∉ contents r := fun r hr hmem => hr (h.eq_of_mem hmem hx)
  have hleft := List.nodup_cons.mp (htake.nodup_iff.mp (h.nodup p))
  constructor
  · intro r
    by_cases hrp : r = p
    · subst hrp
      exact hleft.2
    · by_cases hrq : r = q
      · subst hrq
        exact hput.nodup_iff.mpr (List.nodup_cons.mpr ⟨hother r hrp, h.nodup r⟩)
      · rw [hrest r hrp hrq]
        exact h.nodup r
  · intro r y
    by_cases hy : y = x
    · subst hy
      rw [Function.update_self, Option.some.injEq]
      by_cases hrp : r = p
      · subst hrp
        exact iff_of_false hleft.1 (Ne.symm hpq)
      · by_cases hrq : r = q
        · subst hrq
          exact iff_of_true (hput.mem_iff.mpr List.mem_cons_self) rfl
        · rw [hrest r hrp hrq]
          exact iff_of_false (hother r hrp) (Ne.symm hrq)
    · rw [Function.update_of_ne hy, ← h.mem_iff]
      by_cases hrp : r = p
      · subst hrp
        rw [htake.mem_iff, List.mem_cons, or_iff_right hy]
      · by_cases hrq : r = q
        · subst hrq
          rw [hput.mem_iff, List.mem_cons, or_iff_right hy]
        · rw [hrest r hrp hrq]

end

end TradingBackend
