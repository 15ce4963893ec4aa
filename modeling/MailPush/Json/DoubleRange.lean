set_option autoImplicit false

/-! # Decimal numbers beyond double precision

Whether a decimal number, given by the digits before and after its point and by an exponent, is
refused for exceeding the range of double precision (`exceedsDouble`). It is judged by its
leading digits, as many as make up a 64-bit word, and a power of ten: both are rounded to 53
binary digits, and the number is refused when their product rounds to `2 ^ 1024` or more, or
when the power of ten is itself out of range.
-/

namespace MailPush.Json

/-- The number of 64-bit words. -/
def wordLimit : Nat := 18446744073709551616

/-- Appends decimal digits to a number for as long as it stays a 64-bit word; returns it with
the number of digits left over. -/
def absorbDigits : Nat → List Nat → Nat × Nat
  | n, [] => (n, 0)
  | n, d :: ds =>
    if n * 10 + d < wordLimit then absorbDigits (n * 10 + d) ds else (n, ds.length + 1)

/-- The nearest number with at most 53 significant binary digits; of two equally near ones, the
one whose last digit is even. -/
def round53 (n : Nat) : Nat :=
  let width := n.log2 + 1
  if width ≤ 53 then n
  else
    let unit := Nat.pow 2 (width - 53)
    let q := n / unit
    let r := n % unit
    if 2 * r > unit ∨ (2 * r = unit ∧ q % 2 = 1) then (q + 1) * unit else q * unit

/-- The largest power of ten within the range of double precision. -/
def maxDecimalExponent : Int := 308

/-- The least number that rounds to `2 ^ 1024`. -/
def doubleLimit : Nat := Nat.pow 2 1024 - Nat.pow 2 970

/-- Whether the number of these digits, scaled by `10 ^ exponent`, is beyond the range of double
precision. -/
def exceedsDouble (whole fraction : List Nat) (exponent : Int) : Bool :=
  let (head, wholeLeft) := absorbDigits 0 whole
  let (significand, fractionLeft) := absorbDigits head fraction
  let scale : Int := wholeLeft - (fraction.length - fractionLeft) + exponent
  significand != 0 && scale ≥ 0 &&
    (scale > maxDecimalExponent ||
      round53 significand * round53 (Nat.pow 10 scale.toNat) ≥ doubleLimit)

end MailPush.Json
