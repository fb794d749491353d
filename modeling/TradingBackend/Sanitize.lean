import TradingBackend.GoStrings

/-!
# `SanitizeString`

`SanitizeString` of `validation/input_validator.go`. It drops characters
and then cuts bytes, so the cut can fall into a character.
-/

namespace TradingBackend.Validation

open GoString

def isKept (r : Char) : Bool := decide (32 ≤ r.toNat) || r == '\n' || r == '\t'

/-- The loop over the characters, with `result.WriteRune`. -/
def writeKept (result : ByteArray) : List Char → ByteArray
  | [] => result
  | r :: rs => writeKept (if isKept r then result ++ encodeRune r else result) rs

/-- `SanitizeString`; `none` if the slice expression panics. -/
def sanitizeString (s : ByteArray) (maxLen : Int) : Option ByteArray :=
  let str := writeKept .empty (runes s)
  if str.size > maxLen then
    if maxLen < 0 then none else some (takeBytes str maxLen.toNat)
  else some str

theorem writeKept_eq (result : ByteArray) (rs : List Char) :
    writeKept result rs = result ++ (rs.filter isKept).utf8Encode := by
  induction rs generalizing result with
  | nil => simp [writeKept]
  | cons r rs ih =>
      rw [writeKept, ih]
      cases h : isKept r with
      | true =>
          rw [if_pos rfl, List.filter_cons_of_pos h, List.utf8Encode_cons (c := r),
            List.utf8Encode_singleton, ByteArray.append_assoc]
          rfl
      | false => rw [if_neg (by simp), List.filter_cons_of_neg (by simp [h])]

variable {cs : List Char} {maxLen : ℕ}

/-- The bytes of the characters that are kept, cut at `maxLen`. -/
theorem sanitizeString_eq {kept : List Char} (hkept : cs.filter isKept = kept) (maxLen : ℕ) :
    sanitizeString cs.utf8Encode maxLen
      = some (if kept.utf8Encode.size ≤ maxLen then kept.utf8Encode
          else takeBytes kept.utf8Encode maxLen) := by
  have hwrite : writeKept .empty (runes cs.utf8Encode) = kept.utf8Encode := by
    rw [runes_utf8Encode, writeKept_eq, ByteArray.empty_append, hkept]
  simp only [sanitizeString, hwrite]
  by_cases h : kept.utf8Encode.size ≤ maxLen
  · rw [if_neg (by simpa using h), if_pos h]
  · rw [if_pos (by simpa using h), if_neg (by simp), if_neg h, Int.toNat_natCast]

/-- Characters that are all kept and fit are left alone. -/
theorem sanitizeString_of_kept (hkept : ∀ r ∈ cs, isKept r = true)
    (hsize : cs.utf8Encode.size ≤ maxLen) :
    sanitizeString cs.utf8Encode maxLen = some cs.utf8Encode := by
  rw [sanitizeString_eq (List.filter_eq_self.mpr hkept), if_pos hsize]

/-- The result is never longer than `maxLen` and is always the beginning of
the string without the dropped characters. It is UTF-8 with no dropped
character in it, and stays as it is, if it is not cut or cut between two
characters, and only then. -/
theorem sanitizeString_clean_iff (s : String) (maxLen : ℕ) :
    ∃ out, sanitizeString s.toByteArray maxLen = some out
    ∧ out.size ≤ maxLen
    ∧ (∃ rest, out ++ rest = (s.toList.filter isKept).utf8Encode)
    ∧ (out.IsValidUTF8 ∧ (∀ r ∈ runes out, isKept r) ∧ sanitizeString out maxLen = some out
      ↔ (s.toList.filter isKept).utf8Encode.size ≤ maxLen
        ∨ Boundary (s.toList.filter isKept) maxLen) := by
  generalize hkept : s.toList.filter isKept = kept
  have heq := sanitizeString_eq hkept maxLen
  rw [String.utf8Encode_toList] at heq
  have hclean {before : List Char} (hbefore : before <+: kept)
      (hsize : before.utf8Encode.size ≤ maxLen) :
      before.utf8Encode.IsValidUTF8 ∧ (∀ r ∈ runes before.utf8Encode, isKept r)
        ∧ sanitizeString before.utf8Encode maxLen = some before.utf8Encode := by
    have hall : ∀ r ∈ before, isKept r = true := fun r hr =>
      List.of_mem_filter (hkept ▸ hbefore.subset hr)
    exact ⟨ByteArray.isValidUTF8_utf8Encode, by rwa [runes_utf8Encode],
      sanitizeString_of_kept hall hsize⟩
  by_cases h : kept.utf8Encode.size ≤ maxLen
  · rw [if_pos h] at heq
    refine ⟨_, heq, h, ⟨.empty, ByteArray.append_empty⟩, ?_⟩
    exact iff_of_true (hclean List.prefix_rfl h) (.inl h)
  · rw [if_neg h] at heq
    have hle : maxLen ≤ kept.utf8Encode.size := by omega
    refine ⟨_, heq, Nat.le_of_eq (size_takeBytes hle), ⟨_, takeBytes_append hle⟩, ?_⟩
    rw [or_iff_right h]
    constructor
    · rintro ⟨hvalid, -⟩
      exact (isValidUTF8_takeBytes_iff hle).mp hvalid
    · rintro ⟨before, hbefore, hsize⟩
      rw [(takeBytes_utf8Encode_eq_iff hle).mpr ⟨hbefore, hsize⟩]
      exact hclean hbefore (Nat.le_of_eq hsize)

theorem sanitizeString_cuts_character :
    sanitizeString "é".toByteArray 1 = some ⟨#[0xC3]⟩
    ∧ ¬ (ByteArray.mk #[0xC3]).IsValidUTF8
    ∧ sanitizeString ⟨#[0xC3]⟩ 1 = some ⟨#[0xEF]⟩ := by
  refine ⟨by decide +kernel, by decide, by decide +kernel⟩

end TradingBackend.Validation
