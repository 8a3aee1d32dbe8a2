import Mathlib.Data.String.Basic
/-!
# The order of texts and of their bytes

Texts are compared character by character, by code points. Encoded as UTF-8,
they are compared byte by byte. The two orders are the same: a character with
more bytes has the larger code point and the larger first byte, and among
characters of one width the bytes after the first bits are the digits of the
code point to the base 64.

**Results.**
* `Text.utf8EncodeChar_append_lt`: the bytes of two characters decide, whatever
  follows them.
* `Text.bytes_lt_iff`, `Text.bytes_le_iff`: the orders are the same.
-/
namespace ProtoTypings.Text

def bytes (s : String) : List UInt8 :=
  s.toUTF8.data.toList

theorem bytes_eq_flatMap (s : String) : bytes s = s.toList.flatMap String.utf8EncodeChar := by
  have hutf8 : s.toUTF8 = (s.toList.flatMap String.utf8EncodeChar).toByteArray :=
    String.utf8Encode_toList.symm
  rw [bytes, hutf8, List.data_toByteArray]

theorem val_lt_of_char (c : Char) : c.val.toNat < 0x110000 := by
  obtain hsmall | hlarge := c.valid
  · have : c.val.toNat < 0xd800 := hsmall
    omega
  · exact hlarge.2

/-- The encodings of two characters differ at some byte, where the smaller
character has the smaller byte. -/
theorem utf8EncodeChar_append_lt {c d : Char} (h : c < d) (after after' : List UInt8) :
    String.utf8EncodeChar c ++ after < String.utf8EncodeChar d ++ after' := by
  have hlt : c.val.toNat < d.val.toNat := h
  have hmax := val_lt_of_char d
  -- the digits of a code point to the base 64, each from the one before
  have h12 (k : Nat) : k / 4096 = k / 64 / 64 := by omega
  have h18 (k : Nat) : k / 262144 = k / 64 / 64 / 64 := by omega
  simp only [String.utf8EncodeChar, h12, h18]
  generalize c.val.toNat = m at hlt ⊢
  generalize d.val.toNat = n at hlt hmax ⊢
  -- different widths differ in the first byte, the same width in a digit
  split_ifs <;>
    simp [List.cons_lt_cons_iff, UInt8.lt_iff_toNat_lt, ← UInt8.toNat_inj] <;> omega

theorem flatMap_utf8EncodeChar_lt {cs ds : List Char} (h : cs < ds) :
    cs.flatMap String.utf8EncodeChar < ds.flatMap String.utf8EncodeChar := by
  induction cs generalizing ds with
  | nil =>
    cases ds with
    | nil => exact absurd h (List.not_lt_nil _)
    | cons d ds =>
      have hne : String.utf8EncodeChar d ≠ [] := String.utf8EncodeChar_ne_nil
      obtain ⟨byte, rest, hbytes⟩ := List.exists_cons_of_ne_nil hne
      rw [List.flatMap_nil, List.flatMap_cons, hbytes]
      exact List.nil_lt_cons byte _
  | cons c cs ih =>
    cases ds with
    | nil => exact absurd h (List.not_lt_nil _)
    | cons d ds =>
      rw [List.flatMap_cons, List.flatMap_cons]
      obtain hlt | ⟨rfl, hlt⟩ := List.cons_lt_cons_iff.1 h
      · exact utf8EncodeChar_append_lt hlt _ _
      · exact List.append_left_lt (ih hlt)

/-- **The order of texts is the order of their bytes.** -/
theorem bytes_lt_iff {s t : String} : bytes s < bytes t ↔ s < t := by
  have himp {s t : String} (h : s < t) : bytes s < bytes t := by
    rw [bytes_eq_flatMap, bytes_eq_flatMap]
    exact flatMap_utf8EncodeChar_lt (String.lt_iff.1 h)
  refine ⟨fun h => ?_, himp⟩
  obtain hst | rfl | hts := lt_trichotomy s t
  · exact hst
  · exact absurd h (List.lt_irrefl _)
  · exact absurd (himp hts) (List.lt_asymm h)

theorem bytes_le_iff {s t : String} : bytes s ≤ bytes t ↔ s ≤ t :=
  (not_congr bytes_lt_iff).trans not_lt

end ProtoTypings.Text
