import MailPush.Json.Source

set_option autoImplicit false

/-! # JSON strings

A string is read in two steps: its bytes up to the closing quote, with every escape replaced by
the bytes of the character it stands for (`unescape`), and then the text of those bytes, which
must be valid UTF-8 (`readText`). An escape may stand for a character outside the basic plane
by a pair of surrogates; a surrogate without its partner is malformed.

A string whose value is not wanted is only passed over (`skipText`): its escapes must have the
right form, but neither surrogates nor UTF-8 are checked.
-/

namespace MailPush.Json

/-- The number of four hexadecimal digits. A text with fewer than four bytes left is truncated,
whatever they are. -/
def readHex : Bytes → Except Fault (Nat × Bytes)
  | a :: b :: c :: d :: rest =>
    match hexValue? a, hexValue? b, hexValue? c, hexValue? d with
    | some a, some b, some c, some d => .ok (((a * 16 + b) * 16 + c) * 16 + d, rest)
    | _, _, _, _ => .error .malformed
  | _ => .error .truncated

theorem length_of_readHex {bs rest : Bytes} {n : Nat} (h : readHex bs = .ok (n, rest)) :
    rest.length < bs.length := by
  unfold readHex at h
  split at h
  next =>
    split at h
    next => cases h; simp only [List.length_cons]; omega
    next => simp at h
  next => simp at h

/-! ## Escapes -/

/-- The first half of a pair of surrogates. -/
def isLeadingSurrogate (n : Nat) : Bool := 0xD800 ≤ n && n ≤ 0xDBFF

/-- The second half of a pair of surrogates. -/
def isTrailingSurrogate (n : Nat) : Bool := 0xDC00 ≤ n && n ≤ 0xDFFF

/-- The code point of a pair of surrogates. -/
def joinSurrogates (leading trailing : Nat) : Nat :=
  (leading - 0xD800) * 0x400 + (trailing - 0xDC00) + 0x10000

/-- The bytes of a code point. -/
def codePointBytes (n : Nat) : Bytes := String.utf8EncodeChar (Char.ofNat n)

/-- The bytes of the character that four hexadecimal digits stand for, the first half of a pair
of surrogates together with the escape of the second. -/
def readCodePoint (bs : Bytes) : Except Fault (Bytes × Bytes) := do
  let (n, rest) ← readHex bs
  if isTrailingSurrogate n then .error .malformed
  else if isLeadingSurrogate n then
    let rest ← skipByte '\\' rest
    let rest ← skipByte 'u' rest
    let (m, rest) ← readHex rest
    if isTrailingSurrogate m then .ok (codePointBytes (joinSurrogates n m), rest)
    else .error .malformed
  else .ok (codePointBytes n, rest)

/-- The character that a one-letter escape stands for. -/
def shortEscape? (b : UInt8) : Option UInt8 :=
  if b = byte '"' ∨ b = byte '\\' ∨ b = byte '/' then some b
  else if b = byte 'b' then some 0x08
  else if b = byte 'f' then some 0x0C
  else if b = byte 'n' then some 0x0A
  else if b = byte 'r' then some 0x0D
  else if b = byte 't' then some 0x09
  else none

/-- The bytes of the character that an escape stands for, from after its backslash. -/
def readEscape : Bytes → Except Fault (Bytes × Bytes)
  | [] => .error .truncated
  | b :: rest =>
    if b = byte 'u' then readCodePoint rest
    else match shortEscape? b with
      | some c => .ok ([c], rest)
      | none => .error .malformed

theorem length_of_readCodePoint {bs rest out : Bytes} (h : readCodePoint bs = .ok (out, rest)) :
    rest.length < bs.length := by
  obtain ⟨⟨n, r⟩, hn, h⟩ := bind_eq_ok_iff.1 h
  have := length_of_readHex hn
  dsimp only at h
  split at h
  next => simp at h
  next =>
    split at h
    next =>
      obtain ⟨r1, h1, h⟩ := bind_eq_ok_iff.1 h
      obtain ⟨r2, h2, h⟩ := bind_eq_ok_iff.1 h
      obtain ⟨⟨m, r3⟩, h3, h⟩ := bind_eq_ok_iff.1 h
      have := length_of_skipByte h1
      have := length_of_skipByte h2
      have := length_of_readHex h3
      dsimp only at h
      split at h
      next =>
        simp only [Except.ok.injEq, Prod.mk.injEq] at h
        rw [← h.2]
        omega
      next => simp at h
    next =>
      simp only [Except.ok.injEq, Prod.mk.injEq] at h
      rw [← h.2]
      omega

theorem length_of_readEscape {bs rest out : Bytes} (h : readEscape bs = .ok (out, rest)) :
    rest.length < bs.length := by
  unfold readEscape at h
  split at h
  next => simp at h
  next b r =>
    split at h
    next =>
      have := length_of_readCodePoint h
      simp only [List.length_cons]
      omega
    next =>
      split at h
      next => cases h; simp
      next => simp at h

/-! ## Strings that are kept -/

/-- The bytes of a string from after its opening quote, with its escapes replaced. -/
def unescape (bs : Bytes) : Except Fault (Bytes × Bytes) :=
  match bs with
  | [] => .error .truncated
  | b :: rest =>
    if b = byte '"' then .ok ([], rest)
    else if b = byte '\\' then
      match h : readEscape rest with
      | .error fault => .error fault
      | .ok (char, rest') => do
        have := length_of_readEscape h
        let (tail, rest'') ← unescape rest'
        return (char ++ tail, rest'')
    else if b < 0x20 then .error .malformed
    else do
      let (tail, rest') ← unescape rest
      return (b :: tail, rest')
termination_by bs.length
decreasing_by all_goals simp only [List.length_cons]; omega

theorem length_of_unescape {bs rest out : Bytes} (h : unescape bs = .ok (out, rest)) :
    rest.length < bs.length := by
  fun_induction unescape bs generalizing out with
  | case1 => simp at h
  | case2 => cases h; simp
  | case3 => simp at h
  | case4 bs hq char rest' he hl ih =>
    obtain ⟨⟨tail, r⟩, hu, h⟩ := bind_eq_ok_iff.1 h
    cases h
    have := ih hu
    simp only [List.length_cons]
    omega
  | case5 => simp at h
  | case6 b bs hq hb hc ih =>
    obtain ⟨⟨tail, r⟩, hu, h⟩ := bind_eq_ok_iff.1 h
    cases h
    have := ih hu
    simp only [List.length_cons]
    omega

/-- The text of a string, from after its opening quote. -/
def readText (bs : Bytes) : Except Fault (String × Bytes) := do
  let (raw, rest) ← unescape bs
  match textOf? raw with
  | some text => .ok (text, rest)
  | none => .error .malformed

theorem length_of_readText {bs rest : Bytes} {text : String}
    (h : readText bs = .ok (text, rest)) : rest.length < bs.length := by
  obtain ⟨⟨raw, r⟩, hu, h⟩ := bind_eq_ok_iff.1 h
  dsimp only at h
  split at h
  next => cases h; exact length_of_unescape hu
  next => simp at h

/-! ## Strings that are passed over -/

/-- The text after an escape, from after its backslash. -/
def skipEscape : Bytes → Except Fault Bytes
  | [] => .error .truncated
  | b :: rest =>
    if b = byte 'u' then (readHex rest).map Prod.snd
    else match shortEscape? b with
      | some _ => .ok rest
      | none => .error .malformed

theorem length_of_skipEscape {bs rest : Bytes} (h : skipEscape bs = .ok rest) :
    rest.length < bs.length := by
  unfold skipEscape at h
  split at h
  next => simp at h
  next b r =>
    split at h
    next =>
      cases hn : readHex r with
      | error => simp [hn, Except.map] at h
      | ok p =>
        obtain ⟨n, r'⟩ := p
        have := length_of_readHex hn
        simp only [hn, Except.map] at h
        cases h
        simp only [List.length_cons]
        omega
    next =>
      split at h
      next => cases h; simp
      next => simp at h

/-- The text after a string, from after its opening quote. -/
def skipText (bs : Bytes) : Except Fault Bytes :=
  match bs with
  | [] => .error .truncated
  | b :: rest =>
    if b = byte '"' then .ok rest
    else if b = byte '\\' then
      match h : skipEscape rest with
      | .error fault => .error fault
      | .ok rest' =>
        have := length_of_skipEscape h
        skipText rest'
    else if b < 0x20 then .error .malformed
    else skipText rest
termination_by bs.length
decreasing_by all_goals simp only [List.length_cons]; omega

theorem length_of_skipText {bs rest : Bytes} (h : skipText bs = .ok rest) :
    rest.length < bs.length := by
  fun_induction skipText bs with
  | case1 => simp at h
  | case2 => cases h; simp
  | case3 => simp at h
  | case4 bs hq rest' he hl ih =>
    have := ih h
    simp only [List.length_cons]
    omega
  | case5 => simp at h
  | case6 b bs hq hb hc ih =>
    have := ih h
    simp only [List.length_cons]
    omega

end MailPush.Json
