import Mathlib.Algebra.Group.Int.Defs
import Mathlib.Data.List.Basic

/-!
# Strings of bytes

A string of Go is a sequence of bytes that need not be UTF-8. `range`
decodes it one character at a time; where the bytes are not the encoding
of a character it gives U+FFFD and goes one byte further. The encoding is
that of the library, `List.utf8Encode`.

A number in a string stands in decimal digits, and can be told from them
(`toString_inj`, `toString_int_inj`); `atoi` reads it.
-/

namespace TradingBackend

/-! ## Numbers -/

theorem isDigit_of_mem_toString {n : Nat} {c : Char} (h : c ∈ (toString n).toList) :
    c.isDigit = true := by
  rw [Nat.toString_eq_repr, Nat.toList_repr] at h
  exact Nat.isDigit_of_mem_toDigits (by decide) (by decide) h

theorem toString_inj {n m : Nat} (h : (toString n).toList = (toString m).toList) : n = m := by
  rw [Nat.toString_eq_repr, Nat.toString_eq_repr, Nat.toList_repr, Nat.toList_repr] at h
  have hvalue := congrArg (Nat.ofDigitChars 10 · 0) h
  simpa only [Nat.ofDigitChars_ten_toDigits] using hvalue

theorem toList_toString_negSucc (n : ℕ) :
    (toString (Int.negSucc n)).toList = '-' :: (toString (n + 1)).toList := by
  have hminus : "-".toList = ['-'] := by decide +kernel
  have htext : toString (Int.negSucc n) = "-" ++ toString (n + 1) := rfl
  rw [htext, String.toList_append, hminus, List.singleton_append]

theorem minus_not_mem_toString (n : ℕ) : '-' ∉ (toString n).toList := fun h =>
  absurd (isDigit_of_mem_toString h) (by decide)

theorem toString_int_inj {a b : Int} (h : (toString a).toList = (toString b).toList) :
    a = b := by
  cases a with
  | ofNat n =>
      cases b with
      | ofNat m => rw [toString_inj h]
      | negSucc m =>
          rw [toList_toString_negSucc] at h
          exact absurd (h ▸ List.mem_cons_self) (minus_not_mem_toString n)
  | negSucc n =>
      rw [toList_toString_negSucc] at h
      cases b with
      | ofNat m => exact absurd (h ▸ List.mem_cons_self) (minus_not_mem_toString m)
      | negSucc m =>
          rw [toList_toString_negSucc] at h
          rw [Nat.succ.inj (toString_inj (List.cons.inj h).2)]

/-- `strconv.Atoi`, where it gives no error. -/
def atoi (s : String) : Option Int :=
  let (negative, digits) := match s.toList with
    | '-' :: digits => (true, digits)
    | '+' :: digits => (false, digits)
    | digits => (false, digits)
  if digits = [] ∨ ¬digits.all Char.isDigit then none
  else
    let n : Int := Nat.ofDigitChars 10 digits 0
    let value := if negative then -n else n
    if -2 ^ 63 ≤ value ∧ value < 2 ^ 63 then some value else none

/-! ## Bytes -/

namespace GoString

def runeError : Char := Char.ofNat 0xFFFD

/-- The first character and its width. -/
def decodeRune (s : ByteArray) : Char × ℕ :=
  match s.utf8DecodeChar? 0 with
  | some r => (r, r.utf8Size)
  | none => (runeError, 1)

/-- At most `n` characters of a string. -/
def firstRunes : ℕ → ByteArray → List Char
  | 0, _ => []
  | n + 1, s =>
      if s.size = 0 then []
      else
        let (r, width) := decodeRune s
        r :: firstRunes n (s.extract width s.size)

/-- The characters `range` goes through; there are no more of them than
bytes. -/
def runes (s : ByteArray) : List Char := firstRunes s.size s

/-- The bytes `WriteRune` writes. -/
def encodeRune (r : Char) : ByteArray := (String.utf8EncodeChar r).toByteArray

/-- `s[:n]`, for an `n` within the string. -/
def takeBytes (s : ByteArray) (n : ℕ) : ByteArray := s.extract 0 n

variable {cs : List Char} {s : ByteArray} {n : ℕ}

theorem size_utf8Encode_cons {r : Char} :
    (r :: cs).utf8Encode.size = r.utf8Size + cs.utf8Encode.size := by
  rw [List.utf8Encode_cons, ByteArray.size_append, List.utf8Encode_singleton]
  simp [String.length_utf8EncodeChar]

theorem firstRunes_utf8Encode (h : cs.utf8Encode.size ≤ n) :
    firstRunes n cs.utf8Encode = cs := by
  induction cs generalizing n with
  | nil => cases n <;> simp [firstRunes]
  | cons r cs ih =>
      have hwidth := r.utf8Size_pos
      have hsize : (r :: cs).utf8Encode.size = r.utf8Size + cs.utf8Encode.size :=
        size_utf8Encode_cons
      cases n with
      | zero => omega
      | succ n =>
          have hrest : (r :: cs).utf8Encode.extract r.utf8Size (r :: cs).utf8Encode.size
              = cs.utf8Encode := by
            rw [hsize, List.utf8Encode_cons]
            refine ByteArray.extract_append_eq_right ?_ ?_ <;>
              simp [List.utf8Encode_singleton, String.length_utf8EncodeChar]
          rw [firstRunes, if_neg (by omega), decodeRune, List.utf8DecodeChar?_utf8Encode_cons]
          simp only [hrest]
          rw [ih (by omega)]

/-- `range` over an encoded list of characters gives them back. -/
theorem runes_utf8Encode (cs : List Char) : runes cs.utf8Encode = cs :=
  firstRunes_utf8Encode (Nat.le_refl _)

theorem takeBytes_append (h : n ≤ s.size) : takeBytes s n ++ s.extract n s.size = s := by
  rw [takeBytes, ByteArray.extract_append_extract, Nat.zero_min, Nat.max_eq_right h,
    ByteArray.extract_zero_size]

theorem size_takeBytes (h : n ≤ s.size) : (takeBytes s n).size = n := by
  rw [takeBytes, ByteArray.size_extract, Nat.min_eq_left h, Nat.sub_zero]

/-- Some first characters take `n` bytes. -/
def Boundary (cs : List Char) (n : ℕ) : Prop :=
  ∃ before, before <+: cs ∧ before.utf8Encode.size = n

/-- What is cut off an encoded list of characters is an encoding if it
ends with a character, and only then. -/
theorem takeBytes_utf8Encode_eq_iff (h : n ≤ cs.utf8Encode.size) {before : List Char} :
    takeBytes cs.utf8Encode n = before.utf8Encode
      ↔ before <+: cs ∧ before.utf8Encode.size = n := by
  constructor
  · intro heq
    have hall := takeBytes_append h
    rw [heq] at hall
    refine ⟨List.isPrefix_of_utf8Encode_append_eq_utf8Encode _ hall, ?_⟩
    rw [← heq, size_takeBytes h]
  · rintro ⟨⟨after, rfl⟩, rfl⟩
    rw [List.utf8Encode_append]
    exact ByteArray.extract_append_eq_left rfl

theorem isValidUTF8_takeBytes_iff (h : n ≤ cs.utf8Encode.size) :
    (takeBytes cs.utf8Encode n).IsValidUTF8 ↔ Boundary cs n := by
  constructor
  · rintro ⟨before, heq⟩
    exact ⟨before, (takeBytes_utf8Encode_eq_iff h).mp heq⟩
  · rintro ⟨before, hbefore⟩
    exact ⟨before, (takeBytes_utf8Encode_eq_iff h).mpr hbefore⟩

end GoString

end TradingBackend
