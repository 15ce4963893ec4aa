import MailPush.Json.Skip

set_option autoImplicit false

/-! # Readers of JSON values

A reader takes a value of one type from the front of a text, after blanks, and consumes at
least one byte when it succeeds (`Reader`); so a sequence of values is read by recursion on
what is left (`readItems`). `Readable` is the class of types that have a reader, and `decode`
reads a text as a whole.
-/

namespace MailPush.Json

/-- A way to read a value of type `α` from the front of a text. -/
structure Reader (α : Type) where
  run : Bytes → Except Fault (α × Bytes)
  consumes : ∀ {bs a rest}, run bs = .ok (a, rest) → rest.length < bs.length

/-- The types whose values can be read. -/
class Readable (α : Type) where
  reader : Reader α

namespace Reader

variable {α β : Type}

/-- Reads on from the first byte after blanks; a text of blanks alone is truncated. -/
def runToken (read : UInt8 → Bytes → Except Fault (α × Bytes)) (bs : Bytes) :
    Except Fault (α × Bytes) :=
  match skipBlank bs with
  | [] => .error .truncated
  | b :: rest => read b rest

theorem length_of_runToken {read : UInt8 → Bytes → Except Fault (α × Bytes)}
    (h : ∀ {b bs a rest}, read b bs = .ok (a, rest) → rest.length ≤ bs.length)
    {bs rest : Bytes} {a : α} (hr : runToken read bs = .ok (a, rest)) :
    rest.length < bs.length := by
  have hb := length_skipBlank_le bs
  unfold runToken at hr
  split at hr
  next => simp at hr
  next hs =>
    rw [hs, List.length_cons] at hb
    have := h hr
    omega

/-- A reader that looks at the first byte after blanks. -/
def ofToken (read : UInt8 → Bytes → Except Fault (α × Bytes))
    (h : ∀ {b bs a rest}, read b bs = .ok (a, rest) → rest.length ≤ bs.length) : Reader α where
  run := runToken read
  consumes := length_of_runToken h

/-- Reads a value and converts it. -/
def map (f : α → β) (r : Reader α) : Reader β where
  run bs := do
    let (a, rest) ← r.run bs
    return (f a, rest)
  consumes := by
    intro bs b rest h
    obtain ⟨⟨a, r'⟩, ha, h⟩ := bind_eq_ok_iff.1 h
    cases h
    exact r.consumes ha

end Reader

/-! ## Scalars -/

/-- The first byte of a value is not one of the kind wanted. -/
def refuse {α : Type} (b : UInt8) (rest : Bytes) : Except Fault (α × Bytes) :=
  .error (refusal (b :: rest))

/-- The value `a`, written as the given bytes after its first. -/
def readWord {α : Type} (word : String) (a : α) (bs : Bytes) : Except Fault (α × Bytes) :=
  (skipLiteral (bytesOf word) bs).map fun rest => (a, rest)

theorem length_of_readWord {α : Type} {word : String} {a b : α} {bs rest : Bytes}
    (h : readWord word a bs = .ok (b, rest)) : rest.length ≤ bs.length := by
  unfold readWord at h
  cases hs : skipLiteral (bytesOf word) bs with
  | error => simp [hs, Except.map] at h
  | ok r =>
    have := length_of_skipLiteral hs
    simp only [hs, Except.map, Except.ok.injEq, Prod.mk.injEq] at h
    rw [← h.2]
    omega

/-- Reads `true` or `false`. -/
def boolReader : Reader Bool :=
  .ofToken
    (fun b rest =>
      if b = byte 't' then readWord "rue" true rest
      else if b = byte 'f' then readWord "alse" false rest
      else refuse b rest)
    (by
      intro b bs a rest h
      repeat' split at h
      · exact length_of_readWord h
      · exact length_of_readWord h
      · simp [refuse] at h)

/-- Reads a string. -/
def textReader : Reader String :=
  .ofToken
    (fun b rest => if b = byte '"' then readText rest else refuse b rest)
    (by
      intro b bs a rest h
      split at h
      · exact Nat.le_of_lt (length_of_readText h)
      · simp [refuse] at h)

/-- Reads a number that `convert` accepts. -/
def numberReader {α : Type} (convert : Number → Option α) : Reader α :=
  .ofToken
    (fun b rest =>
      if b = byte '-' ∨ isDigit b then do
        let (n, rest) ← readNumber (b :: rest)
        match convert n with
        | some a => .ok (a, rest)
        | none => .error .mismatch
      else refuse b rest)
    (by
      intro b bs a rest h
      split at h
      · obtain ⟨⟨n, r⟩, hn, h⟩ := bind_eq_ok_iff.1 h
        have hl := length_of_readNumber hn
        rw [List.length_cons] at hl
        dsimp only at h
        split at h
        · simp only [Except.ok.injEq, Prod.mk.injEq] at h
          rw [← h.2]
          omega
        · simp at h
      · simp [refuse] at h)

/-- An integer of at most `limit` without a minus sign. -/
def Number.natural? (limit : Nat) : Number → Option Nat
  | .integer false n => if n ≤ limit then some n else none
  | _ => none

/-- An integer of a signed word; a zero with a minus sign is none. -/
def Number.signed? (limit : Nat) : Number → Option Int
  | .integer false n => if n ≤ limit then some n else none
  | .integer true n => if 0 < n ∧ n ≤ limit + 1 then some (-n) else none
  | .decimal => none

/-- Reads an unsigned 32-bit word. -/
def uint32Reader : Reader UInt32 :=
  (numberReader (Number.natural? 4294967295)).map UInt32.ofNat

/-- Reads an unsigned 64-bit word. -/
def uint64Reader : Reader UInt64 :=
  (numberReader (Number.natural? 18446744073709551615)).map UInt64.ofNat

/-- Reads a signed 64-bit word. -/
def int64Reader : Reader Int64 :=
  (numberReader (Number.signed? 9223372036854775807)).map Int64.ofInt

instance : Readable Bool := ⟨boolReader⟩
instance : Readable String := ⟨textReader⟩
instance : Readable UInt32 := ⟨uint32Reader⟩
instance : Readable UInt64 := ⟨uint64Reader⟩
instance : Readable Int64 := ⟨int64Reader⟩

/-! ## Options and lists -/

/-- Reads a value, or `null` for none. -/
def optionReader {α : Type} (r : Reader α) : Reader (Option α) :=
  .ofToken
    (fun b rest => if b = byte 'n' then readWord "ull" none rest else (r.map some).run (b :: rest))
    (by
      intro b bs a rest h
      split at h
      · exact length_of_readWord h
      · exact Nat.le_of_lt_succ ((r.map some).consumes h))

/-- The items of an array after one of them, up to the closing bracket. -/
def readMoreItems {α : Type} (r : Reader α) (bs : Bytes) : Except Fault (List α × Bytes) :=
  match hs : skipBlank bs with
  | [] => .error .truncated
  | b :: rest =>
    if b = byte ']' then .ok ([], rest)
    else if b = byte ',' then
      match h : r.run rest with
      | .error fault => .error fault
      | .ok (a, rest') => do
        have : rest'.length < bs.length := by
          have := r.consumes h
          have hb := length_skipBlank_le bs
          rw [hs, List.length_cons] at hb
          omega
        let (more, rest'') ← readMoreItems r rest'
        return (a :: more, rest'')
    else .error .malformed
termination_by bs.length

/-- The items of an array after its opening bracket, up to the closing one. -/
def readItems {α : Type} (r : Reader α) (bs : Bytes) : Except Fault (List α × Bytes) :=
  match skipBlank bs with
  | [] => .error .truncated
  | b :: rest =>
    if b = byte ']' then .ok ([], rest)
    else do
      let (a, rest) ← r.run (b :: rest)
      let (more, rest) ← readMoreItems r rest
      return (a :: more, rest)

theorem length_of_readMoreItems {α : Type} {r : Reader α} {bs rest : Bytes} {items : List α}
    (h : readMoreItems r bs = .ok (items, rest)) : rest.length < bs.length := by
  fun_induction readMoreItems r bs generalizing items with
  | case1 => simp at h
  | case2 bs r' hs =>
    have hb := length_skipBlank_le bs
    rw [hs, List.length_cons] at hb
    cases h
    omega
  | case3 => simp at h
  | case4 bs r' a rest' ha hs hc hl ih =>
    obtain ⟨⟨more, r''⟩, hm, h⟩ := bind_eq_ok_iff.1 h
    cases h
    have := ih hm
    omega
  | case5 => simp at h

theorem length_of_readItems {α : Type} {r : Reader α} {bs rest : Bytes} {items : List α}
    (h : readItems r bs = .ok (items, rest)) : rest.length < bs.length := by
  have hb := length_skipBlank_le bs
  unfold readItems at h
  split at h
  next => simp at h
  next hs =>
    rw [hs, List.length_cons] at hb
    split at h
    next => cases h; omega
    next =>
      obtain ⟨⟨a, r'⟩, ha, h⟩ := bind_eq_ok_iff.1 h
      obtain ⟨⟨more, r''⟩, hm, h⟩ := bind_eq_ok_iff.1 h
      have hl := r.consumes ha
      have := length_of_readMoreItems hm
      rw [List.length_cons] at hl
      cases h
      dsimp only at *
      omega

/-- Reads an array of values of one type. -/
def listReader {α : Type} (r : Reader α) : Reader (List α) :=
  .ofToken
    (fun b rest => if b = byte '[' then readItems r rest else refuse b rest)
    (by
      intro b bs a rest h
      split at h
      · exact Nat.le_of_lt (length_of_readItems h)
      · simp [refuse] at h)

instance {α : Type} [Readable α] : Readable (Option α) := ⟨optionReader Readable.reader⟩
instance {α : Type} [Readable α] : Readable (List α) := ⟨listReader Readable.reader⟩

/-! ## Names from a fixed set -/

/-- The value of a name, from after its opening quote. -/
def readName {α : Type} (ofName? : String → Option α) (bs : Bytes) : Except Fault (α × Bytes) := do
  let (name, rest) ← readText bs
  match ofName? name with
  | some a => .ok (a, rest)
  | none => .error .mismatch

/-- The text after `null`. -/
def skipNull (bs : Bytes) : Except Fault Bytes :=
  match skipBlank bs with
  | [] => .error .truncated
  | b :: rest =>
    if b = byte 'n' then skipLiteral (bytesOf "ull") rest else .error (refusal (b :: rest))

/-- The value of an object whose only member has the name of the value and is `null`, from after
the opening bracket. As in any object, a member whose key is no string is malformed, whatever
stands in place of the key. -/
def readNameObject {α : Type} (ofName? : String → Option α) (bs : Bytes) :
    Except Fault (α × Bytes) := do
  let rest ← skipQuote bs
  let (a, rest) ← readName ofName? rest
  let rest ← skipColon rest
  let rest ← skipNull rest
  let rest ← skipToken '}' rest
  return (a, rest)

theorem length_of_skipNull {bs rest : Bytes} (h : skipNull bs = .ok rest) :
    rest.length < bs.length := by
  have hb := length_skipBlank_le bs
  unfold skipNull at h
  split at h
  next => simp at h
  next hs =>
    rw [hs, List.length_cons] at hb
    split at h
    next =>
      have := length_of_skipLiteral h
      omega
    next => simp at h

theorem length_of_readName {α : Type} {ofName? : String → Option α} {bs rest : Bytes} {a : α}
    (h : readName ofName? bs = .ok (a, rest)) : rest.length < bs.length := by
  obtain ⟨⟨name, r⟩, hn, h⟩ := bind_eq_ok_iff.1 h
  have := length_of_readText hn
  dsimp only at h
  split at h
  next =>
    simp only [Except.ok.injEq, Prod.mk.injEq] at h
    rw [← h.2]
    exact this
  next => simp at h

theorem length_of_readNameObject {α : Type} {ofName? : String → Option α} {bs rest : Bytes} {a : α}
    (h : readNameObject ofName? bs = .ok (a, rest)) : rest.length < bs.length := by
  obtain ⟨r1, h1, h⟩ := bind_eq_ok_iff.1 h
  obtain ⟨⟨a', r2⟩, h2, h⟩ := bind_eq_ok_iff.1 h
  obtain ⟨r3, h3, h⟩ := bind_eq_ok_iff.1 h
  obtain ⟨r4, h4, h⟩ := bind_eq_ok_iff.1 h
  obtain ⟨r5, h5, h⟩ := bind_eq_ok_iff.1 h
  have := length_of_skipQuote h1
  have := length_of_readName h2
  have := length_of_skipColon h3
  have := length_of_skipNull h4
  have := length_of_skipToken h5
  cases h
  omega

/-- Reads one of a fixed set of values: its name, or an object with one member of that name
whose value is `null`. -/
def nameReader {α : Type} (ofName? : String → Option α) : Reader α :=
  .ofToken
    (fun b rest =>
      if b = byte '"' then readName ofName? rest
      else if b = byte '{' then readNameObject ofName? rest
      else .error .malformed)
    (by
      intro b bs a rest h
      repeat' split at h
      · exact Nat.le_of_lt (length_of_readName h)
      · exact Nat.le_of_lt (length_of_readNameObject h)
      · simp at h)

/-! ## Whole texts -/

/-- The value that a whole text denotes. -/
def decode {α : Type} [Readable α] (bs : Bytes) : Except Fault α := do
  let (a, rest) ← (Readable.reader : Reader α).run bs
  if skipBlank rest = [] then .ok a else .error .malformed

end MailPush.Json
