import MailPush.Time.Date

set_option autoImplicit false

/-! # Timestamps

A point in time in universal time, and the internet date and time format in which it is
read (`Timestamp.ofText?`) and written (`Timestamp.text`):

    YYYY-MM-DD T HH:MM:SS [.fraction] offset

The offset is `Z` or a signed `HH:MM`; reading moves the local time to universal time. A
leap second, written as second 60, is accepted in any minute and keeps its number through
that move. Digits of the fraction after the ninth are ignored.
-/

namespace MailPush

/-- A point in time: a date, a minute of that day, a second of that minute (60 being a leap
second) and a number of nanoseconds within the second. -/
structure Timestamp where
  date : Date
  minute : Nat
  second : Nat
  nanos : Nat
deriving DecidableEq

namespace Timestamp

/-- The number of minutes in a day. -/
def minutesPerDay : Nat := 1440

/-- The time `offset` minutes before a local time; the offset is less than a day. -/
def before (t : Timestamp) (offset : Int) : Timestamp :=
  let minute : Int := t.minute - offset
  if minute < 0 then { t with date := t.date.prev, minute := (minute + minutesPerDay).toNat }
  else if minute ≥ minutesPerDay then
    { t with date := t.date.next, minute := (minute - minutesPerDay).toNat }
  else { t with minute := minute.toNat }

/-! ## Reading

Each reader takes what it reads from the front of the text and returns it with what is
left. -/

/-- Exactly `count` decimal digits, as a number. -/
def readDigits (count : Nat) (cs : List Char) : Option (Nat × List Char) :=
  let digits := cs.take count
  if digits.length = count ∧ digits.all Char.isDigit then
    some (Nat.ofDigitChars 10 digits 0, cs.drop count)
  else none

/-- One character that satisfies `p`. -/
def readChar (p : Char → Bool) : List Char → Option (List Char)
  | c :: rest => if p c then some rest else none
  | [] => none

/-- Two digits that stand for at most `limit`. -/
def readPair (limit : Nat) (cs : List Char) : Option (Nat × List Char) := do
  let (n, rest) ← readDigits 2 cs
  if n ≤ limit then some (n, rest) else none

/-- A calendar date, `YYYY-MM-DD`. -/
def readDate (cs : List Char) : Option (Date × List Char) := do
  let (year, cs) ← readDigits 4 cs
  let cs ← readChar (· == '-') cs
  let (month, cs) ← readDigits 2 cs
  let cs ← readChar (· == '-') cs
  let (day, cs) ← readDigits 2 cs
  let date ← Date.ofParts? year month day
  return (date, cs)

/-- The nanoseconds of an optional fraction: a point and at least one digit, of which the
first nine count. -/
def readFraction : List Char → Option (Nat × List Char)
  | '.' :: cs =>
    let digits := cs.takeWhile Char.isDigit
    if digits.isEmpty then none
    else
      let counted := digits.take 9
      some (Nat.ofDigitChars 10 counted 0 * Nat.pow 10 (9 - counted.length), cs.dropWhile Char.isDigit)
  | cs => some (0, cs)

/-- `HH:MM`, in minutes. -/
def readMinutes (cs : List Char) : Option (Nat × List Char) := do
  let (hour, cs) ← readPair 23 cs
  let cs ← readChar (· == ':') cs
  let (minute, cs) ← readPair 59 cs
  return (hour * 60 + minute, cs)

/-- The offset of a local time from universal time, in minutes: `Z`, or a sign and `HH:MM`.
The minus sign may be the ASCII hyphen or U+2212. -/
def readOffset : List Char → Option (Int × List Char)
  | c :: cs =>
    if c == 'Z' || c == 'z' then some (0, cs)
    else if c == '+' then (readMinutes cs).map fun (m, rest) => ((m : Int), rest)
    else if c == '-' || c == '\u2212' then (readMinutes cs).map fun (m, rest) => (-(m : Int), rest)
    else none
  | [] => none

/-- The point in time that a text denotes, if it is in the format as a whole. -/
def ofText? (text : String) : Option Timestamp := do
  let (date, cs) ← readDate text.toList
  let cs ← readChar (fun c => c == 'T' || c == 't' || c == ' ') cs
  let (minute, cs) ← readMinutes cs
  let cs ← readChar (· == ':') cs
  let (second, cs) ← readPair 60 cs
  let (nanos, cs) ← readFraction cs
  let (offset, cs) ← readOffset cs
  if cs.isEmpty then some (before ⟨date, minute, second, nanos⟩ offset) else none

/-! ## Writing -/

/-- The decimal digits of `n`, with leading zeros up to the given width. -/
def padded (width n : Nat) : String :=
  String.ofList ((Nat.toDigits 10 n).leftpad width '0')

/-- A year in four digits, with a sign outside the range from 0 to 9999. -/
def yearText (year : Int) : String :=
  if year < 0 then "-" ++ padded 4 year.natAbs
  else if year > 9999 then "+" ++ padded 4 year.natAbs
  else padded 4 year.natAbs

/-- The fraction of a second in 0, 3, 6 or 9 digits, the fewest that are exact. -/
def fractionText (nanos : Nat) : String :=
  if nanos = 0 then ""
  else if nanos % 1000000 = 0 then "." ++ padded 3 (nanos / 1000000)
  else if nanos % 1000 = 0 then "." ++ padded 6 (nanos / 1000)
  else "." ++ padded 9 nanos

/-- The text of a point in time, in universal time. -/
def text (t : Timestamp) : String :=
  yearText t.date.year ++ "-" ++ padded 2 t.date.month ++ "-" ++ padded 2 t.date.day ++ "T" ++
    padded 2 (t.minute / 60) ++ ":" ++ padded 2 (t.minute % 60) ++ ":" ++ padded 2 t.second ++
    fractionText t.nanos ++ "+00:00"

end Timestamp

end MailPush
