import Mathlib.Data.List.Basic

/-!
# JSON documents and their bytes

A document, over the type of its numbers: an encoder writes the integers it
has, and a decoder that is told nothing of them reads floats. `Encoding` is
what a program knows of the bytes: that a written document reads back as the
same document, numbers converted, and that compressed bytes are no document.

`Encoded` is the reference implementation.
-/

namespace TradingBackend

inductive Json (ν : Type) where
  | null
  | bool (b : Bool)
  | num (n : ν)
  | str (s : String)
  | arr (items : List (Json ν))
  | obj (fields : List (String × Json ν))

namespace Json

variable {ν μ : Type}

mutual

def map (f : ν → μ) : Json ν → Json μ
  | .null => .null
  | .bool b => .bool b
  | .num n => .num (f n)
  | .str s => .str s
  | .arr items => .arr (mapItems f items)
  | .obj fields => .obj (mapFields f fields)

def mapItems (f : ν → μ) : List (Json ν) → List (Json μ)
  | [] => []
  | j :: items => map f j :: mapItems f items

def mapFields (f : ν → μ) : List (String × Json ν) → List (String × Json μ)
  | [] => []
  | (key, j) :: fields => (key, map f j) :: mapFields f fields

end

theorem mapItems_eq (f : ν → μ) (items : List (Json ν)) : mapItems f items = items.map (map f) := by
  induction items with
  | nil => rfl
  | cons j items ih => rw [mapItems, ih, List.map_cons]

/-- The value of a key; the last of several fields with the key counts. -/
def lookup (key : String) (fields : List (String × Json ν)) : Option (Json ν) :=
  fields.reverse.lookup key

mutual

/-- The length of the compact text, for strings that need no escapes and
numbers of the given lengths. -/
def width (digits : ν → Nat) : Json ν → Nat
  | .null => 4
  | .bool b => if b then 4 else 5
  | .num n => digits n
  | .str s => s.length + 2
  | .arr items => itemsWidth digits items + 2
  | .obj fields => fieldsWidth digits fields + 2

def itemsWidth (digits : ν → Nat) : List (Json ν) → Nat
  | [] => 0
  | j :: items =>
      width digits j + (if items.isEmpty then 0 else 1) + itemsWidth digits items

def fieldsWidth (digits : ν → Nat) : List (String × Json ν) → Nat
  | [] => 0
  | (key, j) :: fields =>
      key.length + 3 + width digits j + (if fields.isEmpty then 0 else 1)
        + fieldsWidth digits fields

end

end Json

/-! ## Bytes -/

/-- The text format of documents and a compression, over byte strings `β`;
`f` is what reading does to a number. -/
structure Encoding (β : Type) {ν μ : Type} (f : ν → μ) where
  len : β → Nat
  valid : β → Bool
  marshal : Json ν → β
  unmarshal : β → Option (Json μ)
  /-- Writing to the compressor may fail. -/
  gzip : β → Option β
  valid_marshal : ∀ j, valid (marshal j) = true
  unmarshal_marshal : ∀ j, unmarshal (marshal j) = some (j.map f)
  valid_of_unmarshal : ∀ {b j}, unmarshal b = some j → valid b = true
  not_valid_gzip : ∀ {b z}, gzip b = some z → valid z = false

/-! ## The reference implementation -/

/-- Documents for their texts, and what was compressed for the outcome. -/
inductive Encoded (ν : Type) where
  | text (j : Json ν)
  | compressed (b : Encoded ν)

namespace Encoded

variable {ν μ : Type}

/-- The compression saves three bytes in four, and adds a header and a trailer
of 18 bytes. -/
def len (digits : ν → Nat) : Encoded ν → Nat
  | .text j => j.width digits
  | .compressed b => b.len digits / 4 + 18

def valid : Encoded ν → Bool
  | .text _ => true
  | .compressed _ => false

def unmarshal (f : ν → μ) : Encoded ν → Option (Json μ)
  | .text j => some (j.map f)
  | .compressed _ => none

def encoding (digits : ν → Nat) (f : ν → μ) : Encoding (Encoded ν) f where
  len := len digits
  valid := valid
  marshal := .text
  unmarshal := unmarshal f
  gzip b := some (.compressed b)
  valid_marshal _ := rfl
  unmarshal_marshal _ := rfl
  valid_of_unmarshal {b _} h := by
    cases b with
    | text => rfl
    | compressed => cases h
  not_valid_gzip h := by
    cases h
    rfl

end Encoded

end TradingBackend
