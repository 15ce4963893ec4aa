import MailPush.Bytes

set_option autoImplicit false

/-! # Characters as bytes

The bytes of a list of characters (`utf8`), which are those of the text made of them
(`bytesOf_ofList`). An ASCII character is one byte. Bytes are those of a text exactly when the text
can be recovered from them (`textOf?_eq_some_iff`).
-/

namespace MailPush

/-- The bytes of characters. -/
def utf8 (cs : List Char) : Bytes := cs.flatMap String.utf8EncodeChar

theorem utf8_cons (c : Char) (cs : List Char) :
    utf8 (c :: cs) = String.utf8EncodeChar c ++ utf8 cs :=
  List.flatMap_cons

@[simp] theorem utf8_append (cs ds : List Char) : utf8 (cs ++ ds) = utf8 cs ++ utf8 ds :=
  List.flatMap_append

theorem bytesOf_ofList (cs : List Char) : bytesOf (String.ofList cs) = utf8 cs := by
  rw [bytesOf, String.toByteArray_ofList, List.utf8Encode, List.data_toByteArray]
  rfl

/-- **Bytes denote a text when they are its bytes**, and only then. -/
theorem textOf?_eq_some_iff {bs : Bytes} {text : String} :
    textOf? bs = some text ↔ bs = bytesOf text := by
  constructor
  · intro h
    unfold textOf? String.fromUTF8? at h
    split at h
    · cases h
      simp [bytesOf, String.fromUTF8]
    · cases h
  · intro h
    rw [h, textOf?_bytesOf]

theorem textOf?_utf8 (cs : List Char) : textOf? (utf8 cs) = some (String.ofList cs) := by
  rw [← bytesOf_ofList, textOf?_bytesOf]

/-! ## ASCII -/

theorem utf8EncodeChar_ascii {c : Char} (h : c.toNat < 128) :
    String.utf8EncodeChar c = [byte c] := by
  have hc : c.val.toNat ≤ 127 := Nat.le_of_lt_succ h
  rw [String.utf8EncodeChar.eq_1, if_pos hc]
  rfl

theorem utf8_cons_ascii {c : Char} (h : c.toNat < 128) (cs : List Char) :
    utf8 (c :: cs) = byte c :: utf8 cs := by
  rw [utf8_cons, utf8EncodeChar_ascii h]
  rfl

theorem utf8_ascii {cs : List Char} (h : ∀ c ∈ cs, c.toNat < 128) : utf8 cs = cs.map byte := by
  induction cs with
  | nil => rfl
  | cons c cs ih =>
      rw [utf8_cons_ascii (h c List.mem_cons_self), ih fun d hd => h d (List.mem_cons_of_mem _ hd)]
      rfl

theorem toNat_byte {c : Char} (h : c.toNat < 128) : (byte c).toNat = c.toNat := by
  show c.toNat % 256 = c.toNat
  omega

/-- An ASCII character has a byte of its own. -/
theorem byte_inj {c d : Char} (hc : c.toNat < 128) (hd : d.toNat < 128) (h : byte c = byte d) :
    c = d := by
  have hnat : c.toNat = d.toNat := by rw [← toNat_byte hc, ← toNat_byte hd, h]
  rw [← Char.ofNat_toNat c, ← Char.ofNat_toNat d, hnat]

/-- A character beyond ASCII has bytes beyond ASCII alone. -/
theorem le_of_mem_utf8EncodeChar {c : Char} (h : 128 ≤ c.toNat) {b : UInt8}
    (hb : b ∈ String.utf8EncodeChar c) : 128 ≤ b := by
  have hc : ¬ c.val.toNat ≤ 127 := Nat.not_le.2 h
  have hbyte : ∀ n : Nat, 128 ≤ n → n < 256 → 128 ≤ UInt8.ofNat n := by
    intro n hlo hhi
    rw [UInt8.le_iff_toNat_le, UInt8.toNat_ofNat_of_lt' hhi]
    exact hlo
  rw [String.utf8EncodeChar.eq_1, if_neg hc] at hb
  -- two, three or four bytes, each of them the sum of a part of the code point and a mark
  split at hb
  · simp only [List.mem_cons, List.not_mem_nil, or_false] at hb
    rcases hb with rfl | rfl <;> exact hbyte _ (by omega) (by omega)
  · split at hb
    · simp only [List.mem_cons, List.not_mem_nil, or_false] at hb
      rcases hb with rfl | rfl | rfl <;> exact hbyte _ (by omega) (by omega)
    · simp only [List.mem_cons, List.not_mem_nil, or_false] at hb
      rcases hb with rfl | rfl | rfl | rfl <;> exact hbyte _ (by omega) (by omega)

end MailPush
