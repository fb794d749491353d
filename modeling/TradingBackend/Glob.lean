import Mathlib.Data.List.Infix

/-!
# Glob patterns

The patterns of Redis: `*` stands for any text, `?` for any character,
`[...]` for one of some characters and ranges (`[^...]` for any other),
and a backslash takes the meaning off the character after it. A pattern is
read once into its items, and the items are matched to a text.

A pattern that ends in its only `*` and has nothing else of this in it
matches the texts that begin with the rest (`globMatch_literal_star`).
-/

namespace TradingBackend.Glob

/-- What a pattern is made of. -/
inductive Item where
  | literal (c : Char)
  | anything
  | anyChar
  | oneOf (negated : Bool) (ranges : List (Char × Char))
deriving DecidableEq

/-- The items of a pattern; in a bracket, with what has been read of it. -/
def items : Option (Bool × List (Char × Char)) → List Char → List Item
  | none, [] => []
  | none, '*' :: p => .anything :: items none p
  | none, '?' :: p => .anyChar :: items none p
  | none, '[' :: '^' :: p => items (some (true, [])) p
  | none, '[' :: p => items (some (false, [])) p
  | none, '\\' :: c :: p => .literal c :: items none p
  | none, c :: p => .literal c :: items none p
  -- a bracket that is not closed ends with the pattern
  | some (negated, ranges), [] => [.oneOf negated ranges]
  | some (negated, ranges), '\\' :: c :: p => items (some (negated, (c, c) :: ranges)) p
  | some (negated, ranges), ']' :: p => .oneOf negated ranges :: items none p
  | some (negated, ranges), a :: '-' :: b :: p =>
      items (some (negated, (if b.toNat < a.toNat then (b, a) else (a, b)) :: ranges)) p
  | some (negated, ranges), c :: p => items (some (negated, (c, c) :: ranges)) p

def matchItems : List Item → List Char → Bool
  | [], text => text.isEmpty
  | .anything :: p, text => text.tails.any (matchItems p)
  | .literal c :: p, text => text.head? == some c && matchItems p text.tail
  | .anyChar :: p, text => text != [] && matchItems p text.tail
  | .oneOf negated ranges :: p, text =>
      text.head?.any (fun c =>
          (ranges.any fun r => r.1.toNat ≤ c.toNat ∧ c.toNat ≤ r.2.toNat) != negated)
        && matchItems p text.tail

def globMatch (pattern text : String) : Bool := matchItems (items none pattern.toList) text.toList

/-- The characters that are not taken literally. -/
def special : List Char := ['*', '?', '[', ']', '\\']

theorem not_special_of_all {l : List Char} (h : l.all (fun c => !special.contains c) = true) :
    ∀ c ∈ l, c ∉ special := by
  intro c hc hspecial
  have hnot := List.all_eq_true.mp h c hc
  rw [List.contains_iff_mem.mpr hspecial] at hnot
  cases hnot

variable {literal : List Char} {p : List Char}

theorem items_append (h : ∀ c ∈ literal, c ∉ special) :
    items none (literal ++ p) = literal.map .literal ++ items none p := by
  induction literal with
  | nil => rfl
  | cons c literal ih =>
      have hc := h c List.mem_cons_self
      simp only [special, List.mem_cons, List.not_mem_nil, or_false, not_or] at hc
      obtain ⟨hstar, hquestion, hopen, -, hbackslash⟩ := hc
      have hrest := ih fun c' hc' => h c' (List.mem_cons_of_mem _ hc')
      rw [List.cons_append, List.map_cons, List.cons_append, ← hrest, items]
      all_goals simp_all

theorem matchItems_append {items : List Item} {text : List Char} :
    matchItems (literal.map .literal ++ items) text = true
      ↔ ∃ rest, text = literal ++ rest ∧ matchItems items rest = true := by
  induction literal generalizing text with
  | nil => simp
  | cons c literal ih =>
      rw [List.map_cons, List.cons_append, matchItems, Bool.and_eq_true, ih]
      cases text with
      | nil => simp
      | cons c' text =>
          simp only [List.head?_cons, List.tail_cons, List.cons_append, List.cons.injEq,
            beq_iff_eq, Option.some.injEq]
          constructor
          · rintro ⟨rfl, rest, rfl, hrest⟩
            exact ⟨rest, ⟨rfl, rfl⟩, hrest⟩
          · rintro ⟨rest, ⟨rfl, rfl⟩, hrest⟩
            exact ⟨rfl, rest, rfl, hrest⟩

theorem matchItems_anything (text : List Char) : matchItems [.anything] text = true := by
  rw [matchItems, List.any_eq_true]
  exact ⟨[], (List.mem_tails _ _).mpr List.nil_suffix, rfl⟩

theorem globMatch_literal_star {start text : String} (h : ∀ c ∈ start.toList, c ∉ special) :
    globMatch (start ++ "*") text = true ↔ start.toList <+: text.toList := by
  have hstar : items none "*".toList = [.anything] := rfl
  rw [globMatch, String.toList_append, items_append h, hstar, matchItems_append]
  constructor
  · rintro ⟨rest, heq, -⟩
    exact ⟨rest, heq.symm⟩
  · rintro ⟨rest, heq⟩
    exact ⟨rest, heq.symm, matchItems_anything rest⟩

example : globMatch "h[^e-o]?l*" "hallo" = true ∧ globMatch "h\\*" "hallo" = false := by
  decide +kernel

end TradingBackend.Glob
