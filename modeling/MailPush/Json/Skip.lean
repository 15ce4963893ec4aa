import MailPush.Json.Number
import MailPush.Json.Text

set_option autoImplicit false

/-! # Passing over JSON values

A value that is not wanted is only checked for its form, to any depth of nesting. The brackets
that are open are kept on a stack (`Frame`); each step passes over one scalar or opening
bracket and then over what closes, up to the place where the next value must stand
(`skipStep`).
-/

namespace MailPush.Json

/-- The text after `null`, `true`, `false`, a number or a string. -/
def skipScalar : Bytes → Except Fault Bytes
  | [] => .error .truncated
  | b :: rest =>
    if b = byte 'n' then skipLiteral (bytesOf "ull") rest
    else if b = byte 't' then skipLiteral (bytesOf "rue") rest
    else if b = byte 'f' then skipLiteral (bytesOf "alse") rest
    else if b = byte '-' ∨ isDigit b then skipNumber (b :: rest)
    else if b = byte '"' then skipText rest
    else .error .malformed

/-- An open bracket. -/
inductive Frame where
  | array
  | object
deriving DecidableEq

/-- The byte that closes a bracket. -/
def Frame.close : Frame → UInt8
  | array => byte ']'
  | object => byte '}'

/-- The text from where a value must stand in an open bracket: in an object, after a key and a
colon. -/
def skipKey : Frame → Bytes → Except Fault Bytes
  | .array, bs => .ok bs
  | .object, bs => do
    let rest ← skipQuote bs
    let rest ← skipText rest
    skipColon rest

/-- After the end of a value: the brackets that stay open, and the text from where the next
value must stand; with no bracket left, the text after the value. -/
def skipToNext : List Frame → Bytes → Except Fault (List Frame × Bytes)
  | [], bs => .ok ([], bs)
  | frame :: stack, bs =>
    match skipBlank bs with
    | [] => .error .truncated
    | b :: rest =>
      if b = byte ',' then do
        let rest ← skipKey frame rest
        return (frame :: stack, rest)
      else if b = frame.close then skipToNext stack rest
      else .error .malformed

/-- After an opening bracket: the same, for its first value. -/
def skipToFirst (frame : Frame) (stack : List Frame) (bs : Bytes) :
    Except Fault (List Frame × Bytes) :=
  match skipBlank bs with
  | [] => .error .truncated
  | b :: rest =>
    if b = frame.close then skipToNext stack rest
    else do
      let rest ← skipKey frame (b :: rest)
      return (frame :: stack, rest)

/-- One step: from where a value must stand to where the next one must. -/
def skipStep (stack : List Frame) (bs : Bytes) : Except Fault (List Frame × Bytes) :=
  match skipBlank bs with
  | [] => .error .truncated
  | b :: rest =>
    if b = byte '[' then skipToFirst .array stack rest
    else if b = byte '{' then skipToFirst .object stack rest
    else do
      let rest ← skipScalar (b :: rest)
      skipToNext stack rest

theorem length_of_skipScalar {bs rest : Bytes} (h : skipScalar bs = .ok rest) :
    rest.length < bs.length := by
  unfold skipScalar at h
  split at h
  next => simp at h
  next =>
    repeat' split at h
    all_goals try simp only [List.length_cons]
    next => have := length_of_skipLiteral h; omega
    next => have := length_of_skipLiteral h; omega
    next => have := length_of_skipLiteral h; omega
    next => exact length_of_skipNumber h
    next => have := length_of_skipText h; omega
    next => simp at h

theorem length_of_skipKey {frame : Frame} {bs rest : Bytes} (h : skipKey frame bs = .ok rest) :
    rest.length ≤ bs.length := by
  cases frame with
  | array => cases h; exact Nat.le_refl _
  | object =>
    obtain ⟨r1, h1, h⟩ := bind_eq_ok_iff.1 h
    obtain ⟨r2, h2, h⟩ := bind_eq_ok_iff.1 h
    have := length_of_skipQuote h1
    have := length_of_skipText h2
    have := length_of_skipColon h
    omega

theorem length_of_skipToNext {stack stack' : List Frame} {bs rest : Bytes}
    (h : skipToNext stack bs = .ok (stack', rest)) : rest.length ≤ bs.length := by
  induction stack generalizing bs with
  | nil => cases h; exact Nat.le_refl _
  | cons frame stack ih =>
    have hb := length_skipBlank_le bs
    unfold skipToNext at h
    split at h
    next => simp at h
    next hr =>
      rw [hr, List.length_cons] at hb
      split at h
      next =>
        obtain ⟨r', h1, h⟩ := bind_eq_ok_iff.1 h
        have := length_of_skipKey h1
        cases h
        omega
      next =>
        split at h
        next => have := ih h; omega
        next => simp at h

theorem length_of_skipToFirst {frame : Frame} {stack stack' : List Frame} {bs rest : Bytes}
    (h : skipToFirst frame stack bs = .ok (stack', rest)) : rest.length ≤ bs.length := by
  have hb := length_skipBlank_le bs
  unfold skipToFirst at h
  split at h
  next => simp at h
  next hr =>
    rw [hr, List.length_cons] at hb
    split at h
    next => have := length_of_skipToNext h; omega
    next =>
      obtain ⟨r', h1, h⟩ := bind_eq_ok_iff.1 h
      have := length_of_skipKey h1
      cases h
      simp only [List.length_cons] at this
      omega

theorem length_of_skipStep {stack stack' : List Frame} {bs rest : Bytes}
    (h : skipStep stack bs = .ok (stack', rest)) : rest.length < bs.length := by
  have hb := length_skipBlank_le bs
  unfold skipStep at h
  split at h
  next => simp at h
  next hr =>
    rw [hr, List.length_cons] at hb
    split at h
    next => have := length_of_skipToFirst h; omega
    next =>
      split at h
      next => have := length_of_skipToFirst h; omega
      next =>
        obtain ⟨r', h1, h⟩ := bind_eq_ok_iff.1 h
        have hs := length_of_skipScalar h1
        have := length_of_skipToNext h
        rw [List.length_cons] at hs
        omega

/-- The text after what the open brackets still demand, from where a value must stand. -/
def skipOpen (stack : List Frame) (bs : Bytes) : Except Fault Bytes :=
  match h : skipStep stack bs with
  | .error fault => .error fault
  | .ok ([], rest) => .ok rest
  | .ok (frame :: stack, rest) =>
    have := length_of_skipStep h
    skipOpen (frame :: stack) rest
termination_by bs.length

/-- The text after a value. -/
def skipValue (bs : Bytes) : Except Fault Bytes := skipOpen [] bs

theorem length_of_skipOpen {stack : List Frame} {bs rest : Bytes}
    (h : skipOpen stack bs = .ok rest) : rest.length < bs.length := by
  fun_induction skipOpen stack bs with
  | case1 => simp at h
  | case2 stack bs r hs => cases h; exact length_of_skipStep hs
  | case3 stack bs frame stack' r hs hl ih => have := ih h; omega

theorem length_of_skipValue {bs rest : Bytes} (h : skipValue bs = .ok rest) :
    rest.length < bs.length := length_of_skipOpen h

/-! ## Values of another kind -/

/-- The fault of a text that does not start with a value of the kind wanted: an array or an
object is of the wrong kind as such, while a scalar is first read in full and may have a fault
of its own. -/
def refusal : Bytes → Fault
  | [] => .truncated
  | b :: rest =>
    let found : Except Fault Unit :=
      if b = byte '[' ∨ b = byte '{' then .ok ()
      else if b = byte '"' then (readText rest).map fun _ => ()
      else if b = byte '-' ∨ isDigit b then (readNumber (b :: rest)).map fun _ => ()
      else (skipScalar (b :: rest)).map fun _ => ()
    match found with
    | .ok () => .mismatch
    | .error fault => fault

end MailPush.Json
