import MailPush.Json.Reader

set_option autoImplicit false

/-! # Records

A record is written as an object, or as the array of its members in their order. It is read
into a draft, which holds the members read so far, and finished when it is closed
(`Shape`). In an object, members may come in any order; one whose name is not known is passed
over, and one that the draft already holds is refused as soon as its name is read. In an array,
members at the end may be missing.
-/

namespace MailPush.Json

/-- A member of a record with drafts of type `δ`. -/
structure Member (δ : Type) where
  name : String
  /-- Whether a draft holds this member. -/
  held : δ → Bool
  /-- Reads the value of this member, to be put into a draft. -/
  value : Reader (δ → δ)

/-- The member that `get` finds in a draft and `put` puts there. -/
def Member.ofSlot {δ α : Type} [Readable α] (name : String) (get : δ → Option α)
    (put : α → δ → δ) : Member δ :=
  ⟨name, fun draft => (get draft).isSome, Readable.reader.map put⟩

/-- How a record of type `ρ` is read by way of drafts of type `δ`. -/
structure Shape (δ ρ : Type) where
  members : List (Member δ)
  /-- The draft that holds no member. -/
  blank : δ
  /-- The record of a draft, unless a required member is missing. -/
  finish : δ → Option ρ

section

variable {δ ρ : Type}

/-! ## Objects -/

/-- The draft after one member, from after the opening quote of its name. -/
def readMember (members : List (Member δ)) (draft : δ) (bs : Bytes) :
    Except Fault (δ × Bytes) := do
  let (name, rest) ← readText bs
  match members.find? fun m => m.name == name with
  | some m =>
    if m.held draft then .error .mismatch
    else
      let rest ← skipColon rest
      let (put, rest) ← m.value.run rest
      .ok (put draft, rest)
  | none =>
    let rest ← skipColon rest
    let rest ← skipValue rest
    .ok (draft, rest)

theorem length_of_readMember {members : List (Member δ)} {draft draft' : δ} {bs rest : Bytes}
    (h : readMember members draft bs = .ok (draft', rest)) : rest.length < bs.length := by
  obtain ⟨⟨name, r1⟩, h1, h⟩ := bind_eq_ok_iff.1 h
  have hl1 := length_of_readText h1
  dsimp only at h
  split at h
  next =>
    split at h
    next => simp at h
    next m _ _ =>
      obtain ⟨r2, h2, h⟩ := bind_eq_ok_iff.1 h
      obtain ⟨⟨put, r3⟩, h3, h⟩ := bind_eq_ok_iff.1 h
      have hl2 := length_of_skipColon h2
      have hl3 := m.value.consumes h3
      simp only [Except.ok.injEq, Prod.mk.injEq] at h
      rw [← h.2]
      omega
  next =>
    obtain ⟨r2, h2, h⟩ := bind_eq_ok_iff.1 h
    obtain ⟨r3, h3, h⟩ := bind_eq_ok_iff.1 h
    have hl2 := length_of_skipColon h2
    have hl3 := length_of_skipValue h3
    simp only [Except.ok.injEq, Prod.mk.injEq] at h
    rw [← h.2]
    omega

/-- One more member after a comma. -/
def readNextMember (members : List (Member δ)) (draft : δ) (bs : Bytes) :
    Except Fault (δ × Bytes) := do
  let rest ← skipQuote bs
  readMember members draft rest

theorem length_of_readNextMember {members : List (Member δ)} {draft draft' : δ} {bs rest : Bytes}
    (h : readNextMember members draft bs = .ok (draft', rest)) : rest.length < bs.length := by
  obtain ⟨r, h1, h⟩ := bind_eq_ok_iff.1 h
  have := length_of_skipQuote h1
  have := length_of_readMember h
  omega

/-- The draft at the end of an object, from after one of its members. -/
def readMoreMembers (members : List (Member δ)) (draft : δ) (bs : Bytes) :
    Except Fault (δ × Bytes) :=
  match hs : skipBlank bs with
  | [] => .error .truncated
  | b :: rest =>
    if b = byte '}' then .ok (draft, rest)
    else if b = byte ',' then
      match h : readNextMember members draft rest with
      | .error fault => .error fault
      | .ok (draft, rest') =>
        have : rest'.length < bs.length := by
          have := length_of_readNextMember h
          have hb := length_skipBlank_le bs
          rw [hs, List.length_cons] at hb
          omega
        readMoreMembers members draft rest'
    else .error .malformed
termination_by bs.length

theorem length_of_readMoreMembers {members : List (Member δ)} {draft draft' : δ}
    {bs rest : Bytes} (h : readMoreMembers members draft bs = .ok (draft', rest)) :
    rest.length < bs.length := by
  fun_induction readMoreMembers members draft bs with
  | case1 => simp at h
  | case2 draft bs r hs =>
    have hb := length_skipBlank_le bs
    rw [hs, List.length_cons] at hb
    cases h
    omega
  | case3 => simp at h
  | case4 _ _ _ _ _ _ _ _ _ ih =>
    have := ih h
    omega
  | case5 => simp at h

/-- The draft at the end of an object, from after its opening bracket. -/
def readMembers (members : List (Member δ)) (draft : δ) (bs : Bytes) :
    Except Fault (δ × Bytes) :=
  match skipBlank bs with
  | [] => .error .truncated
  | b :: rest =>
    if b = byte '}' then .ok (draft, rest)
    else do
      let (draft, rest) ← readNextMember members draft (b :: rest)
      readMoreMembers members draft rest

theorem length_of_readMembers {members : List (Member δ)} {draft draft' : δ} {bs rest : Bytes}
    (h : readMembers members draft bs = .ok (draft', rest)) : rest.length < bs.length := by
  have hb := length_skipBlank_le bs
  unfold readMembers at h
  split at h
  next => simp at h
  next hs =>
    rw [hs, List.length_cons] at hb
    split at h
    next => cases h; omega
    next =>
      obtain ⟨⟨d, r⟩, h1, h⟩ := bind_eq_ok_iff.1 h
      have hl := length_of_readNextMember h1
      have := length_of_readMoreMembers h
      rw [List.length_cons] at hl
      dsimp only at *
      omega

/-! ## Arrays -/

/-- The draft at the end of an array, from after one of its elements, when these members may
still follow. -/
def readMoreElements : List (Member δ) → δ → Bytes → Except Fault (δ × Bytes)
  | [], draft, bs =>
    match skipBlank bs with
    | [] => .error .truncated
    | b :: rest => if b = byte ']' then .ok (draft, rest) else .error .malformed
  | m :: members, draft, bs =>
    match skipBlank bs with
    | [] => .error .truncated
    | b :: rest =>
      if b = byte ']' then .ok (draft, rest)
      else if b = byte ',' then do
        let (put, rest) ← m.value.run rest
        readMoreElements members (put draft) rest
      else .error .malformed

theorem length_of_readMoreElements {members : List (Member δ)} {draft draft' : δ}
    {bs rest : Bytes} (h : readMoreElements members draft bs = .ok (draft', rest)) :
    rest.length < bs.length := by
  induction members generalizing draft bs with
  | nil =>
    have hb := length_skipBlank_le bs
    unfold readMoreElements at h
    split at h
    next => simp at h
    next hs =>
      rw [hs, List.length_cons] at hb
      split at h
      next => cases h; omega
      next => simp at h
  | cons m members ih =>
    have hb := length_skipBlank_le bs
    unfold readMoreElements at h
    split at h
    next => simp at h
    next hs =>
      rw [hs, List.length_cons] at hb
      split at h
      next => cases h; omega
      next =>
        split at h
        next =>
          obtain ⟨⟨put, r⟩, h1, h⟩ := bind_eq_ok_iff.1 h
          have := m.value.consumes h1
          have := ih h
          omega
        next => simp at h

/-- The draft at the end of an array, from after its opening bracket. -/
def readElements : List (Member δ) → δ → Bytes → Except Fault (δ × Bytes)
  | [], draft, bs => readMoreElements [] draft bs
  | m :: members, draft, bs =>
    match skipBlank bs with
    | [] => .error .truncated
    | b :: rest =>
      if b = byte ']' then .ok (draft, rest)
      else do
        let (put, rest) ← m.value.run (b :: rest)
        readMoreElements members (put draft) rest

theorem length_of_readElements {members : List (Member δ)} {draft draft' : δ} {bs rest : Bytes}
    (h : readElements members draft bs = .ok (draft', rest)) : rest.length < bs.length := by
  unfold readElements at h
  split at h
  next => exact length_of_readMoreElements h
  next m members =>
    have hb := length_skipBlank_le bs
    split at h
    next => simp at h
    next hs =>
      rw [hs, List.length_cons] at hb
      split at h
      next => cases h; omega
      next =>
        obtain ⟨⟨put, r⟩, h1, h⟩ := bind_eq_ok_iff.1 h
        have hl := m.value.consumes h1
        have := length_of_readMoreElements h
        rw [List.length_cons] at hl
        omega

/-! ## The reader -/

/-- The record of a draft with the text that follows it. -/
def Shape.close (shape : Shape δ ρ) : δ × Bytes → Except Fault (ρ × Bytes)
  | (draft, rest) =>
    match shape.finish draft with
    | some record => .ok (record, rest)
    | none => .error .mismatch

theorem length_of_close {shape : Shape δ ρ} {p : δ × Bytes} {record : ρ} {rest : Bytes}
    (h : shape.close p = .ok (record, rest)) : rest = p.2 := by
  unfold Shape.close at h
  split at h
  split at h
  · cases h; rfl
  · simp at h

/-- Reads a record, as an object or as an array. -/
def Shape.reader (shape : Shape δ ρ) : Reader ρ :=
  .ofToken
    (fun b rest =>
      if b = byte '{' then readMembers shape.members shape.blank rest >>= shape.close
      else if b = byte '[' then readElements shape.members shape.blank rest >>= shape.close
      else refuse b rest)
    (by
      intro b bs a rest h
      repeat' split at h
      · obtain ⟨p, h1, h⟩ := bind_eq_ok_iff.1 h
        have := length_of_readMembers h1
        rw [length_of_close h]
        omega
      · obtain ⟨p, h1, h⟩ := bind_eq_ok_iff.1 h
        have := length_of_readElements h1
        rw [length_of_close h]
        omega
      · simp [refuse] at h)

end

end MailPush.Json
