import Mathlib.Data.List.Sort

/-!
# Ordered trees

The interface of an ordered container - `Get`, `ReplaceOrInsert`,
`Delete`, `Min`, `Max`, `Ascend`, `Len` - and the laws its users rely
on. A tree is observed through `items`, its entries in ascending key
order; the laws say which entries every operation leaves, and since a
sorted list is determined by its members (`eq_of_sorted`) that fixes the
observable content completely, whatever the balancing does inside.

`SortedItems` is the reference implementation: the sorted entry list
itself, with its sortedness as a field.
-/

namespace TradingBackend

/-- Two lists sorted by an asymmetric relation are equal when they have
the same members. -/
theorem eq_of_sorted {α : Type} {r : α → α → Prop}
    (hasymm : ∀ a b, r a b → ¬r b a) {l l' : List α}
    (hl : l.Pairwise r) (hl' : l'.Pairwise r)
    (hmem : ∀ a, a ∈ l ↔ a ∈ l') : l = l' := by
  have hirr : ∀ {a b}, r a b → a ≠ b := fun {a b} hab heq =>
    hasymm a b hab (by subst heq; exact hab)
  have hperm : l.Perm l' :=
    (List.perm_ext_iff_of_nodup (hl.imp hirr) (hl'.imp hirr)).mpr hmem
  exact hperm.eq_of_pairwise (fun a b _ _ hab hba => (hasymm a b hab hba).elim) hl hl'

/-- An ordered container of entries `(key, value)`, one for each key. -/
class OrderedTree (T : Type) (κ β : outParam Type) [LinearOrder κ] where
  empty : T
  /-- The entries in ascending key order, as `Ascend` visits them. -/
  items : T → List (κ × β)
  get : T → κ → Option β
  insert : T → κ → β → T
  delete : T → κ → T
  min : T → Option β
  max : T → Option β
  len : T → Nat
  items_sorted : ∀ t, (items t).Pairwise fun x y => x.1 < y.1
  items_empty : items empty = []
  get_eq_some : ∀ {t k v}, get t k = some v ↔ (k, v) ∈ items t
  mem_items_insert : ∀ {t k v x},
    x ∈ items (insert t k v) ↔ x = (k, v) ∨ x ∈ items t ∧ x.1 ≠ k
  mem_items_delete : ∀ {t k x}, x ∈ items (delete t k) ↔ x ∈ items t ∧ x.1 ≠ k
  min_eq : ∀ t, min t = (items t).head?.map Prod.snd
  max_eq : ∀ t, max t = (items t).getLast?.map Prod.snd
  len_eq : ∀ t, len t = (items t).length

namespace OrderedTree

variable {T κ β : Type} [LinearOrder κ] [OrderedTree T κ β]

theorem get_eq_none {t : T} {k : κ} : get t k = none ↔ ∀ v, (k, v) ∉ items t := by
  rw [Option.eq_none_iff_forall_ne_some]
  exact forall_congr' fun v => not_congr get_eq_some

theorem items_unique {t : T} {k : κ} {v v' : β} (h : (k, v) ∈ items t)
    (h' : (k, v') ∈ items t) : v = v' :=
  Option.some.inj ((get_eq_some.mpr h).symm.trans (get_eq_some.mpr h'))

end OrderedTree

/-! ## The reference implementation -/

/-- The entries of a container, kept sorted. -/
structure SortedItems (κ β : Type) [LinearOrder κ] where
  entries : List (κ × β)
  sorted : entries.Pairwise fun x y => x.1 < y.1

namespace SortedItems

variable {κ β : Type} [LinearOrder κ]

def insertEntry (k : κ) (v : β) : List (κ × β) → List (κ × β)
  | [] => [(k, v)]
  | x :: xs =>
      if k < x.1 then (k, v) :: x :: xs
      else if x.1 < k then x :: insertEntry k v xs
      else (k, v) :: xs

theorem mem_insertEntry {k : κ} {v : β} {x : κ × β} {l : List (κ × β)}
    (hl : l.Pairwise fun x y => x.1 < y.1) :
    x ∈ insertEntry k v l ↔ x = (k, v) ∨ x ∈ l ∧ x.1 ≠ k := by
  induction l with
  | nil => simp [insertEntry]
  | cons y ys ih =>
      obtain ⟨hy, hys⟩ := List.pairwise_cons.mp hl
      have htail : k ≤ y.1 → (x ∈ ys → x.1 ≠ k) := fun hk hx =>
        ne_of_gt (lt_of_le_of_lt hk (hy x hx))
      unfold insertEntry
      split_ifs with hlt hgt
      · rw [List.mem_cons]
        refine or_congr_right ⟨fun hx => ⟨hx, ?_⟩, And.left⟩
        rcases List.mem_cons.mp hx with rfl | hx
        · exact ne_of_gt hlt
        · exact htail hlt.le hx
      · rw [List.mem_cons, ih hys, List.mem_cons]
        constructor
        · rintro (rfl | rfl | ⟨hx, hne⟩)
          · exact Or.inr ⟨Or.inl rfl, ne_of_lt hgt⟩
          · exact Or.inl rfl
          · exact Or.inr ⟨Or.inr hx, hne⟩
        · rintro (rfl | ⟨rfl | hx, hne⟩)
          · exact Or.inr (Or.inl rfl)
          · exact Or.inl rfl
          · exact Or.inr (Or.inr ⟨hx, hne⟩)
      · have hk : y.1 = k := le_antisymm (not_lt.mp hlt) (not_lt.mp hgt)
        rw [List.mem_cons, List.mem_cons]
        refine or_congr_right ⟨fun hx => ⟨Or.inr hx, htail hk.ge hx⟩, ?_⟩
        rintro ⟨rfl | hx, hne⟩
        · exact absurd hk hne
        · exact hx

theorem insertEntry_sorted {k : κ} {v : β} {l : List (κ × β)}
    (hl : l.Pairwise fun x y => x.1 < y.1) :
    (insertEntry k v l).Pairwise fun x y => x.1 < y.1 := by
  induction l with
  | nil => simp [insertEntry]
  | cons y ys ih =>
      obtain ⟨hy, hys⟩ := List.pairwise_cons.mp hl
      unfold insertEntry
      split_ifs with hlt hgt
      · refine List.pairwise_cons.mpr ⟨fun x hx => ?_, hl⟩
        rcases List.mem_cons.mp hx with rfl | hx
        · exact hlt
        · exact hlt.trans (hy x hx)
      · refine List.pairwise_cons.mpr ⟨fun x hx => ?_, ih hys⟩
        rcases (mem_insertEntry hys).mp hx with rfl | ⟨hx, -⟩
        · exact hgt
        · exact hy x hx
      · have hk : y.1 = k := le_antisymm (not_lt.mp hlt) (not_lt.mp hgt)
        exact List.pairwise_cons.mpr ⟨fun x hx => by simpa [hk] using hy x hx, hys⟩

theorem find?_eq_some {l : List (κ × β)} (hl : l.Pairwise fun x y => x.1 < y.1)
    {k : κ} {v : β} :
    (l.find? fun x => x.1 == k).map Prod.snd = some v ↔ (k, v) ∈ l := by
  induction l with
  | nil => simp
  | cons y ys ih =>
      obtain ⟨hy, hys⟩ := List.pairwise_cons.mp hl
      by_cases hk : y.1 = k
      · have hnot : (k, v) ∉ ys := fun hm => absurd (hy _ hm) (by simp [hk])
        obtain ⟨a, b⟩ := y
        obtain rfl : a = k := hk
        simp [hnot, eq_comm]
      · have hne : (k, v) ≠ y := fun h => hk (by rw [← h])
        simpa [hk, hne] using ih hys

instance : OrderedTree (SortedItems κ β) κ β where
  empty := ⟨[], List.Pairwise.nil⟩
  items t := t.entries
  get t k := (t.entries.find? fun x => x.1 == k).map Prod.snd
  insert t k v := ⟨insertEntry k v t.entries, insertEntry_sorted t.sorted⟩
  delete t k := ⟨t.entries.filter fun x => x.1 ≠ k, t.sorted.filter _⟩
  min t := t.entries.head?.map Prod.snd
  max t := t.entries.getLast?.map Prod.snd
  len t := t.entries.length
  items_sorted t := t.sorted
  items_empty := rfl
  get_eq_some {t _ _} := find?_eq_some t.sorted
  mem_items_insert {t _ _ _} := mem_insertEntry t.sorted
  mem_items_delete {t k x} := by simp [List.mem_filter]
  min_eq _ := rfl
  max_eq _ := rfl
  len_eq _ := rfl

end SortedItems

end TradingBackend
