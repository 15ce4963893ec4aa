import MailPush.Proofs.Json.Sequences
import MailPush.Proofs.Json.Strings

set_option autoImplicit false

/-! # Records

An object is a sequence whose state is the draft of the members read so far (`continues_members`).
`Fills members d fields d'` says that written fields take a draft `d` to `d'`: each names a member
that the draft does not hold yet. An object of fields that fill the blank draft is read as the
record of the draft that they leave (`delimits_object`).

A type is lawful when every value is read from what is written of it (`Lawful`).
-/

namespace MailPush.Json

/-- The types of which every written value is read as that value. -/
class Lawful (α : Type) [Readable α] [Writable α] : Prop where
  reads : ∀ a : α, Reads (Readable.reader : Reader α).run (utf8 (Writable.write a)) a

section Records

variable {δ ρ : Type} {members : List (Member δ)}

/-! ## The members of an object -/

theorem continues_members (members : List (Member δ)) :
    Continues (readNextMember members) .object (readMoreMembers members) where
  nil draft bs h := by
    rw [readMoreMembers]
    split
    next => rfl
    next b rest h' => rw [h] at h'; cases h'
  close draft bs rest h := by
    rw [readMoreMembers]
    split
    next h' => rw [h] at h'; cases h'
    next b rest' h' =>
      rw [h] at h'
      cases h'
      exact if_pos rfl
  comma draft bs rest h := by
    rw [readMoreMembers]
    split
    next h' => rw [h] at h'; cases h'
    next b rest' h' =>
      rw [h] at h'
      cases h'
      rw [if_neg (by decide), if_pos rfl]
      split
      next fault hnext => rw [hnext]; rfl
      next draft' rest'' hnext =>
        conv => rhs; rw [hnext]
        rfl

theorem utf8_writeMember (name : String) (value : List Char) :
    utf8 (writeMember name value) =
      byte '"' :: (utf8 (name.toList.flatMap writeChar) ++ [byte '"']) ++
        byte ':' :: utf8 value := by
  rw [writeMember, utf8_append, utf8_writeText, utf8_cons_ascii (by decide)]

/-- A member that the draft does not hold is read into it. -/
theorem reads_member {m : Member δ} {draft : δ} {name : String} {value : List Char} {put : δ → δ}
    (hfind : members.find? (fun m => m.name == name) = some m) (hheld : m.held draft = false)
    (hvalue : Reads m.value.run (utf8 value) put) :
    Reads (readNextMember members draft) (utf8 (writeMember name value)) (put draft) := by
  have hname := delimits_readText name
  rw [utf8_writeMember]
  have hquote : ∀ bs, readNextMember members draft (byte '"' :: bs) =
      readMember members draft bs := by
    intro bs
    rw [readNextMember, skipQuote, skipToken_cons (by decide)]
    rfl
  -- after the name come the colon and the value
  have hmember : ∀ bs rest, readText bs = .ok (name, rest) → readMember members draft bs =
      skipColon rest >>= fun bs => m.value.run bs >>= fun p => .ok (p.1 draft, p.2) := by
    intro bs rest h
    rw [readMember, h]
    simp only [bind, Except.bind, hfind, hheld, Bool.false_eq_true, if_false]
  constructor
  · intro rest hrest
    rw [List.cons_append, List.cons_append, hquote, List.append_assoc,
      hmember _ _ (hname.whole _), List.cons_append, skipColon, skipToken_cons (by decide)]
    show (m.value.run (utf8 value ++ rest) >>= _) = _
    rw [hvalue.whole rest hrest]
    rfl
  · intro front hfront
    rw [List.cons_append] at hfront
    rcases hfront.cons_cases with rfl | ⟨front', rfl, hfront'⟩
    · exact .inl rfl
    rw [hquote]
    rcases hfront'.append_cases with hcut | ⟨front'', rfl, hfront''⟩
    · rw [readMember, hname.cut front' hcut]
      exact .inl rfl
    rw [hmember _ _ (hname.whole _)]
    rcases hfront''.cons_cases with rfl | ⟨front₃, rfl, hcut⟩
    · exact .inl rfl
    rw [skipColon, skipToken_cons (by decide)]
    show Starved (m.value.run front₃ >>= _)
    rcases hvalue.cut front₃ hcut with hstarved | ⟨put', hstarved⟩
    · rw [hstarved]
      exact .inl rfl
    · rw [hstarved]
      exact .inr ⟨put' draft, rfl⟩

/-! ## Written objects -/

/-- Written fields fill a draft: each names a member that the draft does not hold yet. -/
inductive Fills (members : List (Member δ)) : δ → List (String × List Char) → δ → Prop
  | nil {draft : δ} : Fills members draft [] draft
  | cons {draft draft' : δ} {m : Member δ} {name : String} {value : List Char} {put : δ → δ}
      {fields : List (String × List Char)} :
      members.find? (fun m => m.name == name) = some m → m.held draft = false →
      Reads m.value.run (utf8 value) put → Fills members (put draft) fields draft' →
      Fills members draft ((name, value) :: fields) draft'

/-- A field of a value that is read as it was written. -/
theorem Fills.slot {α : Type} [Readable α] [Writable α] [Lawful α] {draft draft' : δ}
    {name : String} {get : δ → Option α} {put : α → δ → δ} {a : α}
    {fields : List (String × List Char)}
    (hfind : members.find? (fun m => m.name == name) = some (.ofSlot name get put))
    (hfree : get draft = none) (h : Fills members (put a draft) fields draft') :
    Fills members draft ((name, Writable.write a) :: fields) draft' := by
  refine .cons hfind ?_ ((Lawful.reads a).map put) h
  show (get draft).isSome = false
  rw [hfree]
  rfl

/-- Fields that fill a draft are read into it, each behind a comma. -/
theorem Fills.tail {draft draft' : δ} {fields : List (String × List Char)}
    (h : Fills members draft fields draft') :
    Tail (readNextMember members) .object draft
      ((fields.map fun m => writeMember m.1 m.2).flatMap (fun p => byte ',' :: utf8 p) ++
        [byte '}'])
      draft' := by
  induction h with
  | nil => exact .close blank_of_mem_nil
  | cons hfind hheld hvalue _ ih =>
      rw [List.map_cons, List.flatMap_cons, List.append_assoc]
      exact .more blank_of_mem_nil (reads_member hfind hheld hvalue) ih

theorem Fills.delimits {draft draft' : δ} {fields : List (String × List Char)}
    (h : Fills members draft fields draft') :
    Delimits (readMembers members draft)
      (utf8 (separate (fields.map fun m => writeMember m.1 m.2)) ++ [byte '}']) draft' := by
  cases h with
  | nil =>
      refine ⟨fun rest => rfl, fun front hfront => ?_⟩
      have hnil : front = [] := Cut.eq_nil hfront
      rw [hnil]
      rfl
  | cons hfind hheld hvalue hrest =>
      rename_i m name value put fields
      have hmembers := hrest.tail.delimits_cons (continues_members members)
        (reads_member hfind hheld hvalue)
      rw [List.map_cons, utf8_separate, List.append_assoc]
      -- the name of the first member starts with a quote, so the object does not end there
      have hfirst : ∀ bs, readMembers members draft (byte '"' :: bs) =
          readNextMember members draft (byte '"' :: bs) >>= fun p =>
            readMoreMembers members p.1 p.2 := fun bs => rfl
      rw [utf8_writeMember, List.cons_append] at hmembers ⊢
      constructor
      · intro rest
        exact (hfirst _).trans (hmembers.whole rest)
      · intro front hfront
        have hcut := hmembers.cut front hfront
        rcases hfront.cons_cases with rfl | ⟨front', rfl, -⟩
        · rfl
        · exact (hfirst _).trans hcut

theorem utf8_writeObject (fields : List (String × List Char)) :
    utf8 (writeObject fields) =
      byte '{' :: (utf8 (separate (fields.map fun m => writeMember m.1 m.2)) ++ [byte '}']) := by
  rw [writeObject, List.cons_append, utf8_cons_ascii (by decide), utf8_append]
  rfl

/-- **An object of fields that fill the blank draft is read as the record of the draft that they
leave.** -/
theorem delimits_object {shape : Shape δ ρ} {draft : δ} {record : ρ}
    {fields : List (String × List Char)} (h : Fills shape.members shape.blank fields draft)
    (hfinish : shape.finish draft = some record) :
    Delimits shape.reader.run (utf8 (writeObject fields)) record := by
  have hmembers := h.delimits
  rw [utf8_writeObject]
  refine .token (by decide) ⟨fun rest => ?_, fun front hfront => ?_⟩
  · show readMembers shape.members shape.blank _ >>= shape.close = _
    rw [hmembers.whole rest]
    show shape.close (draft, rest) = _
    rw [Shape.close, hfinish]
  · show readMembers shape.members shape.blank _ >>= shape.close = _
    rw [hmembers.cut front hfront]
    rfl

end Records

/-! ## Whole texts -/

section Texts

variable {α : Type} [Readable α]

/-- A text that is read as a value in full denotes it. -/
theorem decode_of_reads {text : Bytes} {a : α}
    (h : Reads (Readable.reader : Reader α).run text a) : decode text = .ok a := by
  have hwhole := h.whole [] ends_nil
  rw [List.append_nil] at hwhole
  rw [decode, hwhole]
  rfl

/-- **A lawful value is decoded from its encoding.** -/
theorem decode_encode [Writable α] [Lawful α] (a : α) : decode (bytesOf (encode a)) = .ok a := by
  rw [encode, bytesOf_ofList]
  exact decode_of_reads (Lawful.reads a)

/-- A text that shows where it ends is truncated when it is cut short. -/
theorem decode_cut {text front : Bytes} {a : α}
    (h : Delimits (Readable.reader : Reader α).run text a) (hfront : Cut front text) :
    (decode front : Except Fault α) = .error .truncated := by
  rw [decode, h.cut front hfront]
  rfl

/-- A text that shows where it ends is malformed when anything but blanks follows it. -/
theorem decode_append {text more : Bytes} {a : α}
    (h : Delimits (Readable.reader : Reader α).run text a) {b : UInt8} (hmem : b ∈ more)
    (hb : isBlank b = false) : (decode (text ++ more) : Except Fault α) = .error .malformed := by
  have hne : skipBlank more ≠ [] := by
    intro hnil
    rw [skipBlank_eq_nil_iff.1 hnil b hmem] at hb
    cases hb
  rw [decode, h.whole more]
  exact if_neg hne

end Texts

end MailPush.Json
