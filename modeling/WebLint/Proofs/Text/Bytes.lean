import Mathlib.Data.String.Basic

/-!
# Strings as bytes

A report lists its files in the order of their names, and the order of names
is that of the bytes of their UTF-8 forms.  Strings are compared character by
character.  The two orders agree: UTF-8 gives the smaller of two characters
the smaller encoding, even where the encodings differ in length.

What is proved here:

* `encode_append_lt` — a smaller character has the smaller encoding;
* `bytes_le_iff` — the order of strings is the order of their bytes.
-/

namespace WebLint
namespace Text

/-- The bytes of the UTF-8 form of a string. -/
def bytes (s : String) : List UInt8 := s.toUTF8.data.toList

theorem bytes_eq_flatMap (s : String) : bytes s = s.toList.flatMap String.utf8EncodeChar := by
  have hencode : s.toUTF8 = s.toList.utf8Encode := by
    rw [String.toUTF8_eq_toByteArray, ← String.toByteArray_ofList, String.ofList_toList]
  rw [bytes, hencode, List.utf8Encode, List.toList_data_toByteArray]

/-- A smaller character has the smaller encoding, whatever follows. -/
theorem encode_append_lt {c d : Char} (h : c < d) (s t : List UInt8) :
    String.utf8EncodeChar c ++ s < String.utf8EncodeChar d ++ t := by
  have hlt : c.val.toNat < d.val.toNat := h
  have hbound : d.val.toNat < 1114112 := by
    have hvalid := d.valid
    simp only [UInt32.isValidChar, Nat.isValidChar] at hvalid
    omega
  simp only [String.utf8EncodeChar]
  -- a case for each pair of lengths: the first byte decides where they differ
  split_ifs <;>
    simp only [List.cons_append, List.nil_append, List.cons_lt_cons_iff, UInt8.lt_iff_toNat_lt,
      UInt8.toNat_ofNat', ← UInt8.toNat_inj] <;>
    simp (disch := omega) only [Nat.mod_eq_of_lt] <;>
    omega

/-- A smaller text has the smaller encoding. -/
theorem encode_lt_encode {s t : List Char} (h : s < t) :
    s.flatMap String.utf8EncodeChar < t.flatMap String.utf8EncodeChar := by
  induction s generalizing t with
  | nil =>
    cases t with
    | nil => exact absurd h (List.not_lt_nil _)
    | cons d t =>
      obtain ⟨b, rest, hd⟩ := List.exists_cons_of_ne_nil
        (String.utf8EncodeChar_ne_nil : String.utf8EncodeChar d ≠ [])
      rw [List.flatMap_nil, List.flatMap_cons, hd]
      exact List.nil_lt_cons b _
  | cons c s ih =>
    cases t with
    | nil => exact absurd h (List.not_lt_nil _)
    | cons d t =>
      rw [List.flatMap_cons, List.flatMap_cons]
      rcases List.cons_lt_cons_iff.1 h with hcd | ⟨rfl, hst⟩
      · exact encode_append_lt hcd _ _
      · exact List.append_left_lt (ih hst)

theorem bytes_lt_iff {s t : String} : bytes s < bytes t ↔ s < t := by
  have hkeeps : ∀ {s t : String}, s < t → bytes s < bytes t := by
    intro s t hlt
    rw [bytes_eq_flatMap, bytes_eq_flatMap]
    exact encode_lt_encode (String.lt_iff.1 hlt)
  refine ⟨fun hlt => ?_, hkeeps⟩
  rcases lt_trichotomy s t with hst | rfl | hts
  · exact hst
  · exact absurd hlt (List.lt_irrefl _)
  · exact absurd (hkeeps hts) (List.lt_asymm hlt)

/-- **The order of strings is that of their bytes.** -/
theorem bytes_le_iff {s t : String} : bytes s ≤ bytes t ↔ s ≤ t := by
  rw [← List.not_lt, ← String.not_lt, bytes_lt_iff]

end Text
end WebLint
