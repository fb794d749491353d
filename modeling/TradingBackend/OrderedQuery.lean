import Mathlib.Data.List.Sort
import Mathlib.Data.Multiset.Filter
import TradingBackend.OrderedTree

/-!
# Queries with an order

What `ORDER BY key DESC` may answer with: the rows of the table in some
order in which no key stands before a larger one (`Descending`). Rows with
the same key stand in any order, so there can be many answers; there is
one if the keys differ.

When the keys differ and the table grows, the rows that were there stay in
their order and only move back (`Descending.sublist`). That is what a
reader who takes a limited number of rows at a time relies on.
-/

namespace TradingBackend

/-- `rows` answers `SELECT ... FROM table ORDER BY key DESC`. -/
structure Descending {α κ : Type} [LE κ] (key : α → κ) (table : Multiset α) (rows : List α) :
    Prop where
  coe_eq : (rows : Multiset α) = table
  sorted : rows.Pairwise fun x y => key y ≤ key x

/-- `LIMIT limit OFFSET offset`. -/
def page {α : Type} (limit offset : Nat) (rows : List α) : List α :=
  (rows.drop offset).take limit

/-- Deleting by the key of the table deletes the rows. -/
theorem filter_notMem_map {α κ : Type} [DecidableEq κ] (id : α → κ) {kept deleted : List α}
    (hnodup : ((kept ++ deleted).map id).Nodup) :
    (kept ++ deleted).filter (fun x => id x ∉ deleted.map id) = kept := by
  rw [List.map_append, List.nodup_append] at hnodup
  rw [List.filter_append, List.filter_eq_self.mpr, List.filter_eq_nil_iff.mpr, List.append_nil]
  · intro x hx
    simpa using ⟨x, hx, rfl⟩
  · intro x hx
    simp only [decide_eq_true_eq]
    exact fun hmem => hnodup.2.2 _ (List.mem_map_of_mem hx) _ hmem rfl

namespace Descending

variable {α κ : Type} [LinearOrder κ] {key : α → κ} {table table' : Multiset α}
  {rows rows' : List α} {x y : α} {n : Nat}

theorem mem_iff (h : Descending key table rows) : x ∈ rows ↔ x ∈ table := by
  rw [← h.coe_eq, Multiset.mem_coe]

theorem length_eq (h : Descending key table rows) : rows.length = table.card := by
  rw [← h.coe_eq, Multiset.coe_card]

variable (key table) in
theorem exists_rows : ∃ rows, Descending key table rows := by
  have htotal : Std.Total fun x y : α => key y ≤ key x := ⟨fun x y => le_total (key y) (key x)⟩
  have htrans : IsTrans α fun x y => key y ≤ key x := ⟨fun _ _ _ hxy hyz => hyz.trans hxy⟩
  induction table using Quotient.inductionOn with
  | _ l =>
      refine ⟨l.insertionSort fun x y => key y ≤ key x, ?_, List.pairwise_insertionSort _ l⟩
      exact Multiset.coe_eq_coe.mpr (List.perm_insertionSort _ l)

theorem strict (h : Descending key table rows) (hnodup : table.Nodup)
    (hkey : ∀ x ∈ table, ∀ y ∈ table, key x = key y → x = y) :
    rows.Pairwise fun x y => key y < key x := by
  have hne : rows.Pairwise (· ≠ ·) := Multiset.coe_nodup.mp (h.coe_eq ▸ hnodup)
  refine (h.sorted.and hne).imp_of_mem fun hx hy hxy => lt_of_le_of_ne hxy.1 fun heq => ?_
  exact hxy.2 (hkey _ (h.mem_iff.mp hx) _ (h.mem_iff.mp hy) heq.symm)

/-- Rows that are added move the others back and leave them in order. -/
theorem sublist (h : Descending key table rows) (h' : Descending key table' rows')
    (hle : table ≤ table') (hnodup : table'.Nodup)
    (hkey : ∀ x ∈ table', ∀ y ∈ table', key x = key y → x = y) : rows.Sublist rows' := by
  classical
  have hsub : ∀ {x}, x ∈ rows → x ∈ rows' := fun hx =>
    h'.mem_iff.mpr (Multiset.mem_of_le hle (h.mem_iff.mp hx))
  have hfilter : rows = rows'.filter (· ∈ rows) := by
    refine eq_of_sorted (r := fun x y => key y < key x) (fun x y hxy => hxy.asymm) ?_ ?_ ?_
    · exact h.strict (Multiset.nodup_of_le hle hnodup) fun x hx y hy =>
        hkey x (Multiset.mem_of_le hle hx) y (Multiset.mem_of_le hle hy)
    · exact (h'.strict hnodup hkey).filter _
    · intro x
      rw [List.mem_filter, decide_eq_true_iff]
      exact ⟨fun hx => ⟨hsub hx, hx⟩, And.right⟩
  rw [hfilter]
  exact List.filter_sublist

theorem unique (h : Descending key table rows) (h' : Descending key table rows')
    (hnodup : table.Nodup) (hkey : ∀ x ∈ table, ∀ y ∈ table, key x = key y → x = y) :
    rows = rows' :=
  (h.sublist h' le_rfl hnodup hkey).eq_of_length (h.length_eq.trans h'.length_eq.symm)

theorem le_of_take (h : Descending key table rows) (hx : x ∈ rows.take n) (hy : y ∈ rows.drop n) :
    key y ≤ key x := by
  have hsorted := h.sorted
  rw [← List.take_append_drop n rows] at hsorted
  exact (List.pairwise_append.mp hsorted).2.2 x hx y hy

/-- Of the rows that reach a bound, the first rows hold as many as they can. -/
theorem countP_take (h : Descending key table rows) (n : Nat) (c : κ) :
    (rows.take n).countP (c ≤ key ·) = min n (table.countP (c ≤ key ·)) := by
  have hsorted := h.sorted
  rw [← h.coe_eq, Multiset.coe_countP]
  clear h
  induction rows generalizing n with
  | nil => simp
  | cons x rows ih =>
      obtain ⟨hx, hrows⟩ := List.pairwise_cons.mp hsorted
      cases n with
      | zero => simp
      | succ n =>
          rw [List.take_succ_cons, List.countP_cons, List.countP_cons, ih n hrows]
          by_cases hc : c ≤ key x
          · simp [hc]
          · -- no row behind `x` reaches the bound
            have hzero : rows.countP (c ≤ key ·) = 0 :=
              List.countP_eq_zero.mpr fun y hy hcy =>
                hc ((of_decide_eq_true hcy).trans (hx y hy))
            simp [hc, hzero]

theorem le_of_head? (h : Descending key table rows) (hx : rows.head? = some x) (hy : y ∈ table) :
    key y ≤ key x := by
  cases rows with
  | nil => cases hx
  | cons r rows =>
      obtain rfl := Option.some.inj hx
      rcases List.mem_cons.mp (h.mem_iff.mpr hy) with rfl | hmem
      · exact le_rfl
      · exact (List.pairwise_cons.mp h.sorted).1 y hmem

end Descending

end TradingBackend
