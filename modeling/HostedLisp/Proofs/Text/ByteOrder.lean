import Mathlib.Tactic

/-!
# The order of texts by bytes

Texts are ordered by their characters. The bytes that UTF-8 writes for a greater character are
greater, at a place that both have, so the bytes of texts stand in the same order as the texts.
-/

namespace HostedLisp.Text

/-- The bytes of a text. -/
def bytes (text : String) : List UInt8 := text.toUTF8.data.toList

lemma bytes_eq (text : String) : bytes text = text.toList.flatMap String.utf8EncodeChar := by
  have hbytes (chars : List Char) :
      bytes (String.ofList chars) = chars.flatMap String.utf8EncodeChar := by
    rw [bytes, String.toUTF8_eq_toByteArray, String.toByteArray_ofList, List.utf8Encode,
      List.data_toByteArray]
  have htext := hbytes text.toList
  rwa [String.ofList_toList] at htext

lemma ofNat_eq_iff {m n : Nat} (hm : m < UInt8.size) (hn : n < UInt8.size) :
    UInt8.ofNat m = UInt8.ofNat n ↔ m = n := by
  rw [← UInt8.toNat_inj, UInt8.toNat_ofNat_of_lt' hm, UInt8.toNat_ofNat_of_lt' hn]

lemma val_lt (c : Char) : c.val.toNat < 0x110000 := by
  have hvalid : c.val.toNat < 0xd800 ∨ 0xdfff < c.val.toNat ∧ c.val.toNat < 0x110000 := c.valid
  omega

/-- More bytes start with a greater one, and as many bytes are the digits of a number. -/
lemma encoded_lt {c d : Char} (h : c < d) (left right : List UInt8) :
    String.utf8EncodeChar c ++ left < String.utf8EncodeChar d ++ right := by
  have hlt : c.val.toNat < d.val.toNat := UInt32.lt_iff_toNat_lt.1 h
  have hmax := val_lt d
  unfold String.utf8EncodeChar
  generalize c.val.toNat = m at hlt
  generalize d.val.toNat = n at hlt hmax
  have hsquare (k : Nat) : k / 4096 = k / 64 / 64 := by rw [Nat.div_div_eq_div_mul]
  have hcube (k : Nat) : k / 262144 = k / 64 / 64 / 64 := by simp only [Nat.div_div_eq_div_mul]
  simp only [hsquare, hcube]
  split_ifs
  -- a smaller character does not have more bytes
  any_goals omega
  all_goals
    simp (disch := simp only [UInt8.size]; omega) only [List.cons_append, List.nil_append,
      List.cons_lt_cons_iff, UInt8.ofNat_lt_iff_lt, ofNat_eq_iff]
    omega

/-- A text that comes before another one has the bytes that come before. -/
lemma bytes_lt {a b : String} (h : a < b) : bytes a < bytes b := by
  rw [bytes_eq, bytes_eq]
  rw [String.lt_iff] at h
  generalize a.toList = left at h
  generalize b.toList = right at h
  induction h with
  | nil =>
    rename_i c rest
    have hne : (c :: rest).flatMap String.utf8EncodeChar ≠ [] := by
      rw [List.flatMap_cons]
      exact List.append_ne_nil_of_left_ne_nil (String.utf8EncodeChar_ne_nil) _
    obtain ⟨b, bytes, hbytes⟩ := List.exists_cons_of_ne_nil hne
    rw [hbytes]
    exact List.Lex.nil
  | rel hlt => exact encoded_lt hlt _ _
  | cons _ ih =>
    rw [List.flatMap_cons, List.flatMap_cons]
    exact List.append_left_lt ih

end HostedLisp.Text
