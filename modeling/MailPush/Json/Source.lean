import MailPush.Bytes

set_option autoImplicit false

/-! # JSON source text

JSON is read from bytes, from left to right, and the first problem decides which fault a text
has. A reading is a fault, or a value together with the bytes that follow it.
-/

namespace MailPush.Json

/-- What is wrong with a text, by the first problem in it. -/
inductive Fault where
  /-- The text ends inside a value. -/
  | truncated
  /-- The text is no JSON. -/
  | malformed
  /-- The text is JSON so far, of the wrong shape for the value wanted. -/
  | mismatch
deriving DecidableEq

/-- The name of a category of faults. -/
def Fault.category : Fault → String
  | truncated => "eof"
  | malformed => "syntax"
  | mismatch => "data"

/-- A chain of readings succeeds when each of them does. -/
theorem bind_eq_ok_iff {α β : Type} {x : Except Fault α} {f : α → Except Fault β} {b : β} :
    x >>= f = .ok b ↔ ∃ a, x = .ok a ∧ f a = .ok b := by
  cases x <;> simp [bind, Except.bind]

/-! ## Blanks and literals -/

/-- Space, tab, line feed and carriage return may stand between tokens. -/
def isBlank (b : UInt8) : Bool :=
  b == byte ' ' || b == byte '\t' || b == byte '\n' || b == byte '\r'

/-- The text from its first byte that is no blank. -/
def skipBlank (bs : Bytes) : Bytes := bs.dropWhile isBlank

theorem length_skipBlank_le (bs : Bytes) : (skipBlank bs).length ≤ bs.length :=
  (List.dropWhile_sublist _).length_le

/-- The text after the given bytes. -/
def skipLiteral : Bytes → Bytes → Except Fault Bytes
  | [], bs => .ok bs
  | _ :: _, [] => .error .truncated
  | e :: es, b :: bs => if b = e then skipLiteral es bs else .error .malformed

theorem length_of_skipLiteral {es bs rest : Bytes} (h : skipLiteral es bs = .ok rest) :
    rest.length + es.length = bs.length := by
  fun_induction skipLiteral es bs with
  | case1 bs => simp_all
  | case2 => simp at h
  | case3 es b bs ih => have := ih h; simp; omega
  | case4 => simp at h

/-! ## Single bytes -/

/-- The text after a byte that must come next. -/
def skipByte (c : Char) : Bytes → Except Fault Bytes
  | [] => .error .truncated
  | b :: rest => if b = byte c then .ok rest else .error .malformed

theorem length_of_skipByte {c : Char} {bs rest : Bytes} (h : skipByte c bs = .ok rest) :
    rest.length < bs.length := by
  unfold skipByte at h
  split at h
  next => simp at h
  next =>
    split at h
    next => cases h; simp
    next => simp at h

/-- The text after a byte that must come next but for blanks. -/
def skipToken (c : Char) (bs : Bytes) : Except Fault Bytes := skipByte c (skipBlank bs)

theorem length_of_skipToken {c : Char} {bs rest : Bytes} (h : skipToken c bs = .ok rest) :
    rest.length < bs.length :=
  Nat.lt_of_lt_of_le (length_of_skipByte h) (length_skipBlank_le bs)

/-- The text after the colon that follows the key of an object. -/
def skipColon (bs : Bytes) : Except Fault Bytes := skipToken ':' bs

theorem length_of_skipColon {bs rest : Bytes} (h : skipColon bs = .ok rest) :
    rest.length < bs.length := length_of_skipToken h

/-- The text after the opening quote of a key; a key of an object must be a string. -/
def skipQuote (bs : Bytes) : Except Fault Bytes := skipToken '"' bs

theorem length_of_skipQuote {bs rest : Bytes} (h : skipQuote bs = .ok rest) :
    rest.length < bs.length := length_of_skipToken h

end MailPush.Json
