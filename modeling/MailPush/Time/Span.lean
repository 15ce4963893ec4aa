set_option autoImplicit false

/-! # Spans of time

A span is a whole number of seconds and a remainder of less than one second, counted in
nanoseconds. Seconds are 64-bit words, so there is a longest span, and a sum that would
exceed it is the longest span instead (`Span.add`). Spans are compared by the number of
nanoseconds they hold (`Span.toNanos`), which determines them (`Span.toNanos_inj`).
-/

namespace MailPush

/-- A length of time: whole seconds and a remainder in nanoseconds. -/
structure Span where
  secs : UInt64
  nanos : UInt32
  nanos_lt : nanos.toNat < 1000000000
deriving DecidableEq

namespace Span

/-- The number of nanoseconds in a second. -/
def nanosPerSec : Nat := 1000000000

/-- The span as a number of nanoseconds. -/
def toNanos (s : Span) : Nat := s.secs.toNat * nanosPerSec + s.nanos.toNat

theorem toNanos_inj {s t : Span} : s.toNanos = t.toNanos ↔ s = t := by
  refine ⟨fun h => ?_, fun h => h ▸ rfl⟩
  obtain ⟨a, b, hb⟩ := s
  obtain ⟨c, d, hd⟩ := t
  simp only [toNanos, nanosPerSec] at h
  have hs : a = c := UInt64.toNat_inj.1 (by omega)
  have hn : b = d := UInt32.toNat_inj.1 (by omega)
  subst hs hn
  rfl

/-- The longest span. -/
def longest : Span := ⟨18446744073709551615, 999999999, by decide⟩

/-- The span of `n` nanoseconds, or the longest one if `n` exceeds it. -/
def ofNanos (n : Nat) : Span :=
  if n ≤ longest.toNanos then
    ⟨UInt64.ofNat (n / nanosPerSec), UInt32.ofNat (n % nanosPerSec), by
      have : n % nanosPerSec < 1000000000 := Nat.mod_lt _ (by decide)
      simp only [UInt32.toNat_ofNat']
      omega⟩
  else longest

/-- The span of `n` milliseconds, or the longest one if `n` exceeds it. -/
def ofMillis (n : Nat) : Span := ofNanos (n * 1000000)

/-- The span of a whole number of seconds. -/
def ofSecs (n : UInt64) : Span := ⟨n, 0, by decide⟩

/-- The empty span. -/
def zero : Span := ofSecs 0

/-- The sum of two spans, or the longest span if the sum exceeds it. -/
def add (s t : Span) : Span := ofNanos (s.toNanos + t.toNanos)

instance : Add Span := ⟨add⟩

instance : LE Span := ⟨fun s t => s.toNanos ≤ t.toNanos⟩

instance : LT Span := ⟨fun s t => s.toNanos < t.toNanos⟩

instance (s t : Span) : Decidable (s ≤ t) := inferInstanceAs (Decidable (s.toNanos ≤ t.toNanos))

instance (s t : Span) : Decidable (s < t) := inferInstanceAs (Decidable (s.toNanos < t.toNanos))

instance : Max Span := maxOfLe

theorem le_iff {s t : Span} : s ≤ t ↔ s.toNanos ≤ t.toNanos := Iff.rfl

theorem lt_iff {s t : Span} : s < t ↔ s.toNanos < t.toNanos := Iff.rfl

theorem toNanos_ofSecs (n : UInt64) : (ofSecs n).toNanos = n.toNat * nanosPerSec := by
  simp [ofSecs, toNanos]

theorem toNanos_longest : longest.toNanos = 18446744073709551615999999999 := by decide

theorem toNanos_ofNanos (n : Nat) : (ofNanos n).toNanos = min n longest.toNanos := by
  unfold ofNanos
  split
  next h =>
    rw [toNanos_longest] at h ⊢
    simp only [toNanos, nanosPerSec, UInt64.toNat_ofNat', UInt32.toNat_ofNat']
    omega
  next h => omega

theorem toNanos_add (s t : Span) : (s + t).toNanos = min (s.toNanos + t.toNanos) longest.toNanos :=
  toNanos_ofNanos _

/-! ## Text

A span is written in the largest unit of which it holds at least one: seconds, milliseconds,
microseconds or nanoseconds. The part below one unit follows a point, without trailing zeros,
and is left out when it is zero. -/

/-- The digits of the fraction `n / 10 ^ width` after its point, without trailing zeros. -/
def fractionDigits (n width : Nat) : List Char :=
  ((Nat.toDigits 10 n).leftpad width '0').reverse.dropWhile (· == '0') |>.reverse

/-- A whole number of units and a fraction of `n / 10 ^ width` units, followed by the unit. -/
def decimalText (whole n width : Nat) (unit : String) : String :=
  match fractionDigits n width with
  | [] => toString whole ++ unit
  | digits => toString whole ++ "." ++ String.ofList digits ++ unit

/-- The text of a span, such as `485s`, `1.5ms` or `0ns`. -/
def text (s : Span) : String :=
  let nanos := s.nanos.toNat
  if s.secs ≠ 0 then decimalText s.secs.toNat nanos 9 "s"
  else if nanos ≥ 1000000 then decimalText (nanos / 1000000) (nanos % 1000000) 6 "ms"
  else if nanos ≥ 1000 then decimalText (nanos / 1000) (nanos % 1000) 3 "µs"
  else decimalText nanos 0 0 "ns"

end Span

end MailPush
