import MailPush.Json.Source
import MailPush.Json.DoubleRange

set_option autoImplicit false

/-! # JSON numbers

A number is read in full, to the first byte that cannot continue it, before it is known to be
of the kind wanted (`readNumber`). Only integers carry a value; a number with a fraction or an
exponent is malformed when it exceeds the range of double precision, and otherwise fits no
type of this library. A number whose value is not wanted is only checked for its form
(`skipNumber`); there the end of the text is no different from any other byte that does not
belong to a number.
-/

namespace MailPush.Json

/-- A number as it is written. -/
inductive Number where
  /-- An integer, with or without a minus sign. -/
  | integer (negative : Bool) (magnitude : Nat)
  /-- A number with a fraction or an exponent. -/
  | decimal
deriving DecidableEq

/-- Whether a byte is a decimal digit. -/
def isDigit (b : UInt8) : Bool := byte '0' ≤ b && b ≤ byte '9'

/-- The value of a decimal digit. -/
def digitValue (b : UInt8) : Nat := b.toNat - (byte '0').toNat

/-- The number of a sequence of decimal digits. -/
def digitsValue (digits : Bytes) : Nat := digits.foldl (fun n d => 10 * n + digitValue d) 0

/-- The digits at the front of a text, and the rest of it. -/
def splitDigits (bs : Bytes) : Bytes × Bytes := (bs.takeWhile isDigit, bs.dropWhile isDigit)

theorem length_splitDigits (bs : Bytes) :
    (splitDigits bs).1.length + (splitDigits bs).2.length = bs.length := by
  rw [← List.length_append]
  exact congrArg List.length List.takeWhile_append_dropWhile

/-- The digits at the front of a text, of which there must be one. -/
def readDigits (bs : Bytes) : Except Fault (Bytes × Bytes) :=
  let (digits, rest) := splitDigits bs
  if digits.isEmpty then .error (if rest.isEmpty then .truncated else .malformed)
  else .ok (digits, rest)

/-- The digits after a point, if a point follows. -/
def readFraction : Bytes → Except Fault (Option Bytes × Bytes)
  | [] => .ok (none, [])
  | b :: rest =>
    if b = byte '.' then do
      let (digits, rest) ← readDigits rest
      return (some digits, rest)
    else .ok (none, b :: rest)

/-- A sign, if there is one, and whether it is a minus. -/
def splitSign : Bytes → Bool × Bytes
  | [] => (false, [])
  | b :: rest =>
    if b = byte '-' then (true, rest) else if b = byte '+' then (false, rest) else (false, b :: rest)

/-- The value of an exponent, if one follows. -/
def readExponent : Bytes → Except Fault (Option Int × Bytes)
  | [] => .ok (none, [])
  | b :: rest =>
    if b = byte 'e' ∨ b = byte 'E' then do
      let signed := splitSign rest
      let (digits, rest) ← readDigits signed.2
      let n : Int := digitsValue digits
      return (some (if signed.1 then -n else n), rest)
    else .ok (none, b :: rest)

/-- Whether digits before a point have a zero in front of others. -/
def hasLeadingZero : Bytes → Bool
  | d :: _ :: _ => d == byte '0'
  | _ => false

/-- A number after its sign. -/
def readMagnitude (negative : Bool) (bs : Bytes) : Except Fault (Number × Bytes) := do
  let (whole, rest) ← readDigits bs
  if hasLeadingZero whole then .error .malformed
  else
    let (fraction, rest) ← readFraction rest
    let (exponent, rest) ← readExponent rest
    if exceedsDouble (whole.map digitValue) ((fraction.getD []).map digitValue) (exponent.getD 0)
    then .error .malformed
    else if fraction.isNone ∧ exponent.isNone then
      .ok (.integer negative (digitsValue whole), rest)
    else .ok (.decimal, rest)

/-- A number, from its first byte. -/
def readNumber : Bytes → Except Fault (Number × Bytes)
  | [] => .error .truncated
  | b :: rest => if b = byte '-' then readMagnitude true rest else readMagnitude false (b :: rest)

/-! ## Numbers that are passed over -/

/-- The text after at least one digit. -/
def skipDigits (bs : Bytes) : Except Fault Bytes :=
  let (digits, rest) := splitDigits bs
  if digits.isEmpty then .error .malformed else .ok rest

/-- The text after a fraction, if there is one. -/
def skipFraction : Bytes → Except Fault Bytes
  | [] => .ok []
  | b :: rest => if b = byte '.' then skipDigits rest else .ok (b :: rest)

/-- The text after an exponent, if there is one. -/
def skipExponent : Bytes → Except Fault Bytes
  | [] => .ok []
  | b :: rest =>
    if b = byte 'e' ∨ b = byte 'E' then skipDigits (splitSign rest).2 else .ok (b :: rest)

/-- The text after a number without its sign. -/
def skipMagnitude (bs : Bytes) : Except Fault Bytes := do
  let (whole, rest) := splitDigits bs
  if whole.isEmpty ∨ hasLeadingZero whole then .error .malformed
  else
    let rest ← skipFraction rest
    skipExponent rest

/-- The text after a number, from its first byte. -/
def skipNumber : Bytes → Except Fault Bytes
  | [] => .error .malformed
  | b :: rest => if b = byte '-' then skipMagnitude rest else skipMagnitude (b :: rest)

/-! ## Numbers consume their text -/

theorem length_of_readDigits {bs digits rest : Bytes} (h : readDigits bs = .ok (digits, rest)) :
    rest.length < bs.length := by
  have hl := length_splitDigits bs
  simp only [readDigits] at h
  split at h
  next => simp at h
  next hd =>
    simp only [Except.ok.injEq, Prod.mk.injEq] at h
    have : 0 < (splitDigits bs).1.length := List.length_pos_iff.2 (by simpa using hd)
    rw [← h.2]
    omega

theorem length_of_readFraction {bs rest : Bytes} {fraction : Option Bytes}
    (h : readFraction bs = .ok (fraction, rest)) : rest.length ≤ bs.length := by
  unfold readFraction at h
  split at h
  next => cases h; simp
  next =>
    split at h
    next =>
      obtain ⟨⟨digits, r⟩, hd, h⟩ := bind_eq_ok_iff.1 h
      have := length_of_readDigits hd
      cases h
      simp only [List.length_cons]
      omega
    next => cases h; simp

theorem length_splitSign_le (bs : Bytes) : (splitSign bs).2.length ≤ bs.length := by
  unfold splitSign
  split
  next => simp
  next =>
    split
    next => simp
    next => split <;> simp

theorem length_of_readExponent {bs rest : Bytes} {exponent : Option Int}
    (h : readExponent bs = .ok (exponent, rest)) : rest.length ≤ bs.length := by
  unfold readExponent at h
  split at h
  next => cases h; simp
  next b r =>
    split at h
    next =>
      obtain ⟨⟨digits, r'⟩, hd, h⟩ := bind_eq_ok_iff.1 h
      have := length_of_readDigits hd
      have := length_splitSign_le r
      cases h
      simp only [List.length_cons]
      omega
    next => cases h; simp

theorem length_of_readMagnitude {negative : Bool} {bs rest : Bytes} {n : Number}
    (h : readMagnitude negative bs = .ok (n, rest)) : rest.length < bs.length := by
  obtain ⟨⟨whole, r1⟩, h1, h⟩ := bind_eq_ok_iff.1 h
  have := length_of_readDigits h1
  dsimp only at h
  split at h
  next => simp at h
  next =>
    obtain ⟨⟨fraction, r2⟩, h2, h⟩ := bind_eq_ok_iff.1 h
    obtain ⟨⟨exponent, r3⟩, h3, h⟩ := bind_eq_ok_iff.1 h
    have := length_of_readFraction h2
    have := length_of_readExponent h3
    dsimp only at h
    split at h
    next => simp at h
    next =>
      dsimp only at *
      split at h <;> simp only [Except.ok.injEq, Prod.mk.injEq] at h <;> rw [← h.2] <;> omega

theorem length_of_readNumber {bs rest : Bytes} {n : Number} (h : readNumber bs = .ok (n, rest)) :
    rest.length < bs.length := by
  unfold readNumber at h
  split at h
  next => simp at h
  next =>
    split at h
    next =>
      have := length_of_readMagnitude h
      simp only [List.length_cons]
      omega
    next => exact length_of_readMagnitude h

theorem length_of_skipDigits {bs rest : Bytes} (h : skipDigits bs = .ok rest) :
    rest.length < bs.length := by
  have hl := length_splitDigits bs
  simp only [skipDigits] at h
  split at h
  next => simp at h
  next hd =>
    simp only [Except.ok.injEq] at h
    have : 0 < (splitDigits bs).1.length := List.length_pos_iff.2 (by simpa using hd)
    rw [← h]
    omega

theorem length_of_skipFraction {bs rest : Bytes} (h : skipFraction bs = .ok rest) :
    rest.length ≤ bs.length := by
  unfold skipFraction at h
  split at h
  next => cases h; simp
  next =>
    split at h
    next =>
      have := length_of_skipDigits h
      simp only [List.length_cons]
      omega
    next => cases h; simp

theorem length_of_skipExponent {bs rest : Bytes} (h : skipExponent bs = .ok rest) :
    rest.length ≤ bs.length := by
  unfold skipExponent at h
  split at h
  next => cases h; simp
  next b r =>
    split at h
    next =>
      have := length_of_skipDigits h
      have := length_splitSign_le r
      simp only [List.length_cons]
      omega
    next => cases h; simp

theorem length_of_skipMagnitude {bs rest : Bytes} (h : skipMagnitude bs = .ok rest) :
    rest.length < bs.length := by
  have hl := length_splitDigits bs
  simp only [skipMagnitude] at h
  split at h
  next => simp at h
  next hw =>
    have : 0 < (splitDigits bs).1.length := List.length_pos_iff.2 (by simp_all)
    obtain ⟨r, h1, h⟩ := bind_eq_ok_iff.1 h
    have := length_of_skipFraction h1
    have := length_of_skipExponent h
    omega

theorem length_of_skipNumber {bs rest : Bytes} (h : skipNumber bs = .ok rest) :
    rest.length < bs.length := by
  unfold skipNumber at h
  split at h
  next => simp at h
  next =>
    split at h
    next =>
      have := length_of_skipMagnitude h
      simp only [List.length_cons]
      omega
    next => exact length_of_skipMagnitude h

end MailPush.Json
