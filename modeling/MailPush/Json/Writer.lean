import MailPush.Json.Source

set_option autoImplicit false

/-! # Writing JSON values

Values are written without blanks. In a string, quotes, backslashes and the characters below
U+0020 are escaped, and nothing else is.
-/

namespace MailPush.Json

/-- The types whose values can be written. -/
class Writable (α : Type) where
  write : α → List Char

/-- The short escapes of control characters. -/
def controlEscape? (c : Char) : Option Char :=
  if c = '\x08' then some 'b'
  else if c = '\t' then some 't'
  else if c = '\n' then some 'n'
  else if c = '\x0c' then some 'f'
  else if c = '\r' then some 'r'
  else none

/-- A character within a string. -/
def writeChar (c : Char) : List Char :=
  if c = '"' ∨ c = '\\' then ['\\', c]
  else if c < ' ' then
    match controlEscape? c with
    | some e => ['\\', e]
    | none => ['\\', 'u', '0', '0', Nat.digitChar (c.toNat / 16), Nat.digitChar (c.toNat % 16)]
  else [c]

/-- A string. -/
def writeText (text : String) : List Char := '"' :: text.toList.flatMap writeChar ++ ['"']

/-- A natural number. -/
def writeNat (n : Nat) : List Char := Nat.toDigits 10 n

/-- An integer. -/
def writeInt : Int → List Char
  | .ofNat n => writeNat n
  | .negSucc n => '-' :: writeNat (n + 1)

/-- Pieces with commas between them. -/
def separate : List (List Char) → List Char
  | [] => []
  | [piece] => piece
  | piece :: pieces => piece ++ ',' :: separate pieces

/-- A member of an object. -/
def writeMember (name : String) (value : List Char) : List Char := writeText name ++ ':' :: value

/-- An object of the given members. -/
def writeObject (members : List (String × List Char)) : List Char :=
  '{' :: separate (members.map fun m => writeMember m.1 m.2) ++ ['}']

instance : Writable Bool := ⟨fun b => (if b then "true" else "false").toList⟩
instance : Writable String := ⟨writeText⟩
instance : Writable UInt32 := ⟨fun n => writeNat n.toNat⟩
instance : Writable UInt64 := ⟨fun n => writeNat n.toNat⟩
instance : Writable Int64 := ⟨fun n => writeInt n.toInt⟩

instance {α : Type} [Writable α] : Writable (Option α) :=
  ⟨fun
    | some a => Writable.write a
    | none => "null".toList⟩

instance {α : Type} [Writable α] : Writable (List α) :=
  ⟨fun items => '[' :: separate (items.map Writable.write) ++ [']']⟩

/-- The text of a value. -/
def encode {α : Type} [Writable α] (a : α) : String := String.ofList (Writable.write a)

end MailPush.Json
