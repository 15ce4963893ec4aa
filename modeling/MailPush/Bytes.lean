set_option autoImplicit false

/-! # Bytes and text

Text travels as UTF-8 bytes. Every text has bytes, and they denote it again
(`textOf?_bytesOf`); not every sequence of bytes denotes a text.
-/

namespace MailPush

/-- A sequence of bytes. -/
abbrev Bytes := List UInt8

/-- The byte of an ASCII character. -/
abbrev byte (c : Char) : UInt8 := c.toUInt8

/-- The bytes of a text. -/
def bytesOf (text : String) : Bytes := text.toByteArray.data.toList

/-- The text of a sequence of bytes, if they are valid UTF-8. -/
def textOf? (bs : Bytes) : Option String := String.fromUTF8? ⟨bs.toArray⟩

theorem textOf?_bytesOf (text : String) : textOf? (bytesOf text) = some text := by
  have h : (⟨(bytesOf text).toArray⟩ : ByteArray) = text.toByteArray := by simp [bytesOf]
  simp only [textOf?, h, String.fromUTF8?, text.isValidUTF8, ↓reduceDIte]
  rfl

/-- The value of a hexadecimal digit. -/
def hexValue? (b : UInt8) : Option Nat :=
  if byte '0' ≤ b ∧ b ≤ byte '9' then some (b.toNat - (byte '0').toNat)
  else if byte 'a' ≤ b ∧ b ≤ byte 'f' then some (b.toNat - (byte 'a').toNat + 10)
  else if byte 'A' ≤ b ∧ b ≤ byte 'F' then some (b.toNat - (byte 'A').toNat + 10)
  else none

end MailPush
