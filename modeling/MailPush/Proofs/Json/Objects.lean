import MailPush.Proofs.Json.Alignment
import MailPush.Proofs.Json.Lists
import MailPush.Proofs.Json.Records
import MailPush.Proofs.Json.Spelling

set_option autoImplicit false

/-! # Objects by their entries

An array is read item by item and an object entry by entry, whatever blanks stand between the
tokens. An entry of an object puts its value into the draft, if its name is known, and is passed
over otherwise (`Admits`). An object whose entries take the blank draft to another one is read as
the record of that draft (`takes_object`). What a reading of an entry can have found is
`EntryText.read_cases`.
-/

namespace MailPush.Json

/-! ## Values between blanks -/

section Values

variable {α β : Type} {r : Reader α}

/-- A text is read as a value, behind blanks and in front of anything that does not continue it. -/
def Takes (r : Reader α) (a : α) (t : Bytes) : Prop :=
  ∀ ws rest, Blank ws → Ends rest → r.run (ws ++ (t ++ rest)) = .ok (a, rest)

/-- A text is not read as any value. -/
def Refuses (r : Reader α) (t : Bytes) : Prop :=
  ∀ ws rest a rest', Blank ws → Ends rest → r.run (ws ++ (t ++ rest)) ≠ .ok (a, rest')

/-- A well-formed value has been read as a value. -/
def Found (r : Reader α) (a : α) (t : Bytes) : Prop :=
  WellFormed .value t ∧ ∃ ws rest, Blank ws ∧ Ends rest ∧ r.run (ws ++ (t ++ rest)) = .ok (a, rest)

theorem Found.not_refuses {a : α} {t : Bytes} (h : Found r a t) : ¬ Refuses r t := by
  obtain ⟨-, ws, rest, hws, hrest, hr⟩ := h
  exact fun hrefuses => hrefuses ws rest a rest hws hrest hr

/-- What an aligned reader takes from a text with a value at its front is the value. -/
theorem Reader.Aligned.found (h : r.Aligned) {ws t rest rest' : Bytes} {a : α} (hws : Blank ws)
    (ht : WellFormed .value t) (hrest : Ends rest)
    (hr : r.run (ws ++ (t ++ rest)) = .ok (a, rest')) : Found r a t ∧ rest' = rest := by
  obtain rfl := h.rest_eq hws ht hrest hr
  exact ⟨⟨ht, ws, _, hws, hrest, hr⟩, rfl⟩

theorem runToken_blank {read : UInt8 → Bytes → Except Fault (α × Bytes)} {ws : Bytes}
    (hws : Blank ws) (bs : Bytes) : Reader.runToken read (ws ++ bs) = Reader.runToken read bs := by
  rw [Reader.runToken, Reader.runToken, skipBlank_append hws]

/-- A reader does not mind blanks before a value. -/
def Reader.PassesBlanks (r : Reader α) : Prop := ∀ ws bs, Blank ws → r.run (ws ++ bs) = r.run bs

theorem passesBlanks_of_runToken {read : UInt8 → Bytes → Except Fault (α × Bytes)}
    (hrun : r.run = Reader.runToken read) : r.PassesBlanks := by
  intro ws bs hws
  rw [hrun, runToken_blank hws]

theorem Reader.PassesBlanks.map (h : r.PassesBlanks) (f : α → β) : (r.map f).PassesBlanks := by
  intro ws bs hws
  show (r.run (ws ++ bs) >>= _) = r.run bs >>= _
  rw [h ws bs hws]

theorem Reads.takes {t : Bytes} {a : α} (h : Reads r.run t a) (hr : r.PassesBlanks) :
    Takes r a t := by
  intro ws rest hws hrest
  rw [hr ws _ hws]
  exact h.whole rest hrest

theorem Takes.map {t : Bytes} {a : α} (h : Takes r a t) (f : α → β) : Takes (r.map f) (f a) t := by
  intro ws rest hws hrest
  show (r.run (ws ++ (t ++ rest)) >>= _) = _
  rw [h ws rest hws hrest]
  rfl

theorem decode_of_takes [Readable α] {a : α} {t ws ws' : Bytes}
    (h : Takes (Readable.reader : Reader α) a t) (hws : Blank ws) (hws' : Blank ws') :
    decode (ws ++ (t ++ ws')) = .ok a := by
  have hends : Ends ws' := by simpa using ends_blank_append hws' ends_nil
  rw [decode, h ws ws' hws hends]
  exact if_pos (skipBlank_eq_nil_iff.2 hws')

theorem decode_of_refuses [Readable α] {t ws ws' : Bytes}
    (h : Refuses (Readable.reader : Reader α) t) (hws : Blank ws) (hws' : Blank ws') :
    ∃ fault, (decode (ws ++ (t ++ ws')) : Except Fault α) = .error fault := by
  have hends : Ends ws' := by simpa using ends_blank_append hws' ends_nil
  cases hdecode : (decode (ws ++ (t ++ ws')) : Except Fault α) with
  | error fault => exact ⟨fault, rfl⟩
  | ok a =>
      obtain ⟨⟨a', rest⟩, hread, -⟩ := bind_eq_ok_iff.1 hdecode
      exact absurd hread (h ws ws' a' rest hws hends)

/-! ## Arrays -/

theorem ItemsText.read {kind : α → Bytes → Prop} (hkind : ∀ a t, kind a t → Takes r a t)
    {as : List α} {t : Bytes} (h : ItemsText kind as t) (rest : Bytes) :
    (r.run (t ++ byte ']' :: rest) >>= fun p => readMoreItems r p.2 >>= fun q =>
      .ok (p.1 :: q.1, q.2)) = .ok (as, rest) := by
  induction h with
  | last hbefore ht hbehind =>
      rename_i a before t behind
      have hends : Ends (behind ++ byte ']' :: rest) :=
        ends_blank_append hbehind (ends_cons (by decide))
      have hclose : skipBlank (behind ++ byte ']' :: rest) = byte ']' :: rest :=
        skipBlank_append_cons hbehind (by decide) _
      rw [List.append_assoc, List.append_assoc, hkind a t ht before _ hbefore hends]
      show (readMoreItems r (behind ++ byte ']' :: rest) >>= _) = _
      rw [readMoreItems_close hclose]
      rfl
  | more hbefore ht hbehind hts ih =>
      rename_i a as before t behind ts
      have hends : Ends (behind ++ byte ',' :: (ts ++ byte ']' :: rest)) :=
        ends_blank_append hbehind (ends_cons (by decide))
      have hcomma : skipBlank (behind ++ byte ',' :: (ts ++ byte ']' :: rest)) =
          byte ',' :: (ts ++ byte ']' :: rest) :=
        skipBlank_append_cons hbehind (by decide) _
      rw [List.append_assoc, List.append_assoc, List.append_assoc, List.cons_append,
        hkind a t ht before _ hbefore hends]
      show (readMoreItems r (behind ++ byte ',' :: (ts ++ byte ']' :: rest)) >>= _) = _
      rw [readMoreItems_comma hcomma, ih]
      rfl

/-- Items that start with a byte of a value start an array that is not empty. -/
theorem ItemsText.starts {kind : α → Bytes → Prop} (hstart : ∀ a t, kind a t → Starts t)
    {as : List α} {t : Bytes} (h : ItemsText kind as t) : Starts t := by
  cases h with
  | last hbefore ht hbehind => exact .blank hbefore ((hstart _ _ ht).append _)
  | more hbefore ht hbehind hts => exact .blank hbefore ((hstart _ _ ht).append _)

/-- **An array is read item by item**, whatever blanks stand around them. -/
theorem takes_array {kind : α → Bytes → Prop} (hkind : ∀ a t, kind a t → Takes r a t)
    (hstart : ∀ a t, kind a t → Starts t) (hblank : r.PassesBlanks) {as : List α} {t : Bytes}
    (h : ArrayText kind as t) : Takes (listReader r) as t := by
  intro ws rest hws hrest
  have hrun : ∀ bs, (listReader r).run (ws ++ byte '[' :: bs) = readItems r bs := by
    intro bs
    show Reader.runToken _ (ws ++ byte '[' :: bs) = _
    rw [runToken_blank hws, runToken_cons (by decide), if_pos rfl]
  cases h with
  | empty hws' =>
      rename_i ws'
      have hclose : skipBlank (ws' ++ ([byte ']'] ++ rest)) = byte ']' :: rest :=
        skipBlank_append_cons hws' (by decide) _
      rw [List.cons_append, hrun, List.append_assoc, readItems, hclose]
      rfl
  | items hitems =>
      rename_i t
      have hread := hitems.read hkind rest
      -- the first item must not be taken for the end of the array
      obtain ⟨ws', b, t', hws', rfl, hb, hne, -⟩ := hitems.starts hstart
      have hfirst : skipBlank (ws' ++ (b :: t' ++ ([byte ']'] ++ rest))) =
          b :: (t' ++ byte ']' :: rest) :=
        skipBlank_append_cons hws' hb _
      rw [List.append_assoc, hblank ws' _ hws'] at hread
      rw [List.cons_append, hrun, List.append_assoc, List.append_assoc, readItems, hfirst]
      dsimp only
      rw [if_neg hne]
      exact hread

end Values

/-! ## Names -/

/-- A key spells one name at most. -/
theorem Entry.Named.unique {e : Entry} {name name' : String} (h : e.Named name)
    (h' : e.Named name') : name = name' := by
  have hread := h.readText []
  rw [h'.readText []] at hread
  cases hread
  rfl

theorem Omitted.of_cons {name : String} {e : Entry} {es : List Entry}
    (h : Omitted name (e :: es)) : ¬ e.Named name ∧ Omitted name es :=
  ⟨h e List.mem_cons_self, fun e' he' => h e' (List.mem_cons_of_mem _ he')⟩

theorem Given.imp {name : String} {kind kind' : Bytes → Prop} {es : List Entry}
    (h : Given name kind es) (himp : ∀ t, kind t → kind' t) : Given name kind' es := by
  induction h with
  | here hname hkind homitted => exact .here hname (himp _ hkind) homitted
  | later hother _ ih => exact .later hother ih

/-- What an entry of another name does not give, the entries after it give. -/
theorem Given.of_cons {name : String} {kind : Bytes → Prop} {e : Entry} {es : List Entry}
    (h : Given name kind (e :: es)) (hother : ¬ e.Named name) : Given name kind es := by
  cases h with
  | here hname => exact absurd hname hother
  | later _ hes => exact hes

section Records

variable {δ ρ : Type} {members : List (Member δ)}

/-! ## One entry -/

theorem skipColon_blank {ws : Bytes} (hws : Blank ws) (rest : Bytes) :
    skipColon (ws ++ byte ':' :: rest) = .ok rest :=
  skipToken_append hws (by decide) rest

theorem skipValue_blank {ws t rest : Bytes} (hws : Blank ws) (h : WellFormed .value t)
    (hrest : Ends rest) : skipValue (ws ++ (t ++ rest)) = .ok rest := by
  rw [skipValue, skipOpen_blank hws]
  exact skipValue_append h hrest

theorem EntryText.wellFormed {e : Entry} {p : Bytes} (h : EntryText e p) :
    WellFormed .value e.value := by
  obtain ⟨-, -, -, -, hvalue, -⟩ := h
  exact hvalue

/-- Before the value of an entry stand its key and a colon, with blanks around them. -/
theorem EntryText.readNextMember {e : Entry} {p : Bytes} (h : EntryText e p)
    (members : List (Member δ)) : ∃ colon after behind, Blank colon ∧ Blank after ∧ Blank behind ∧
      StringText e.key ∧ ∀ draft rest, readNextMember members draft (p ++ rest) =
        readMember members draft (e.key ++ byte '"' ::
          (colon ++ byte ':' :: (after ++ (e.value ++ (behind ++ rest))))) := by
  obtain ⟨hbefore, hkey, hcolon, hafter, -, hbehind⟩ := h
  rename_i before colon after behind
  refine ⟨colon, after, behind, hcolon, hafter, hbehind, hkey, fun draft rest => ?_⟩
  have hbytes : memberBytes before e.key colon after e.value behind ++ rest =
      before ++ byte '"' :: (e.key ++ byte '"' ::
        (colon ++ byte ':' :: (after ++ (e.value ++ (behind ++ rest))))) := by
    simp only [memberBytes, List.append_assoc, List.cons_append]
  rw [hbytes, Json.readNextMember, skipQuote, skipToken_append hbefore (by decide)]
  rfl

/-- A reading of an entry has found a free member and a value for it, or its name is not known. -/
theorem EntryText.read_cases {e : Entry} {p rest rest' : Bytes} {draft draft' : δ}
    (hp : EntryText e p) (hrest : Ends rest)
    (hr : Json.readNextMember members draft (p ++ rest) = .ok (draft', rest')) :
    ∃ name, (∀ name', e.Named name' → name' = name) ∧ ∃ ws behind, Blank ws ∧ Blank behind ∧
      ((∃ m put, members.find? (fun m => m.name == name) = some m ∧ m.held draft = false ∧
          m.value.run (ws ++ (e.value ++ (behind ++ rest))) = .ok (put, rest') ∧
          draft' = put draft) ∨
        (members.find? (fun m => m.name == name) = none ∧ draft' = draft ∧
          rest' = behind ++ rest)) := by
  obtain ⟨colon, after, behind, hcolon, hafter, hbehind, hkey, hread⟩ := hp.readNextMember members
  rw [hread] at hr
  obtain ⟨⟨name, r₁⟩, hname, hr⟩ := bind_eq_ok_iff.1 hr
  -- the key ends where it would be passed over
  have hr₁ : r₁ = colon ++ byte ':' :: (after ++ (e.value ++ (behind ++ rest))) := by
    have hskip := skipText_of_readText hname
    rw [skipText_append hkey] at hskip
    exact (Except.ok.inj hskip).symm
  subst hr₁
  have hunique : ∀ name', e.Named name' → name' = name := by
    intro name' hname'
    rw [hname'.readText] at hname
    cases hname
    rfl
  refine ⟨name, hunique, after, behind, hafter, hbehind, ?_⟩
  dsimp only at hr
  split at hr
  next m hfind =>
    split at hr
    next => cases hr
    next hheld =>
      obtain ⟨r₂, hr₂, hr⟩ := bind_eq_ok_iff.1 hr
      rw [skipColon_blank hcolon] at hr₂
      cases hr₂
      obtain ⟨⟨put, r₃⟩, hput, hr⟩ := bind_eq_ok_iff.1 hr
      cases hr
      exact .inl ⟨m, put, hfind, eq_false_of_ne_true hheld, hput, rfl⟩
  next hfind =>
    obtain ⟨r₂, hr₂, hr⟩ := bind_eq_ok_iff.1 hr
    rw [skipColon_blank hcolon] at hr₂
    cases hr₂
    obtain ⟨r₃, hr₃, hr⟩ := bind_eq_ok_iff.1 hr
    rw [skipValue_blank hafter hp.wellFormed (ends_blank_append hbehind hrest)] at hr₃
    cases hr₃
    cases hr
    exact .inr ⟨hfind, rfl, rfl⟩

/-- An entry takes a draft to the next: it puts its value into a slot that is free, or its name is
not known. -/
inductive Admits (members : List (Member δ)) (e : Entry) : δ → δ → Prop
  | known {name : String} {m : Member δ} {draft : δ} {put : δ → δ} : e.Named name →
      members.find? (fun m => m.name == name) = some m → m.held draft = false →
      Takes m.value put e.value → Admits members e draft (put draft)
  | extra {name : String} {draft : δ} : e.Named name →
      members.find? (fun m => m.name == name) = none → Admits members e draft draft

theorem Admits.readNextMember {e : Entry} {p : Bytes} {draft draft' : δ}
    (h : Admits members e draft draft') (hp : EntryText e p) :
    ∃ behind, Blank behind ∧ ∀ rest, Ends rest →
      readNextMember members draft (p ++ rest) = .ok (draft', behind ++ rest) := by
  obtain ⟨colon, after, behind, hcolon, hafter, hbehind, -, hread⟩ := hp.readNextMember members
  refine ⟨behind, hbehind, fun rest hrest => ?_⟩
  have hends := ends_blank_append hbehind hrest
  rw [hread, readMember]
  cases h with
  | known hname hfind hheld hput =>
      rw [hname.readText]
      simp only [bind, Except.bind, hfind, hheld, Bool.false_eq_true, if_false,
        skipColon_blank hcolon, hput after _ hafter hends]
  | extra hname hfind =>
      rw [hname.readText]
      simp only [bind, Except.bind, hfind, skipColon_blank hcolon,
        skipValue_blank hafter hp.wellFormed hends]

/-! ## All entries -/

/-- Entries take a draft to another one after the other. -/
inductive AdmitsAll (members : List (Member δ)) : List Entry → δ → δ → Prop
  | nil {draft : δ} : AdmitsAll members [] draft draft
  | cons {e : Entry} {es : List Entry} {draft draft₁ draft₂ : δ} : Admits members e draft draft₁ →
      AdmitsAll members es draft₁ draft₂ → AdmitsAll members (e :: es) draft draft₂

/-- The entries of an object, from the first one to its closing bracket. -/
def readEntries (members : List (Member δ)) (draft : δ) (bs : Bytes) : Except Fault (δ × Bytes) :=
  readNextMember members draft bs >>= fun p => readMoreMembers members p.1 p.2

theorem readMoreMembers_close {ws : Bytes} (hws : Blank ws) (draft : δ) (rest : Bytes) :
    readMoreMembers members draft (ws ++ byte '}' :: rest) = .ok (draft, rest) :=
  (continues_members members).close draft _ rest (skipBlank_append_cons hws (by decide) rest)

theorem readMoreMembers_comma {ws : Bytes} (hws : Blank ws) (draft : δ) (rest : Bytes) :
    readMoreMembers members draft (ws ++ byte ',' :: rest) = readEntries members draft rest :=
  (continues_members members).comma draft _ rest (skipBlank_append_cons hws (by decide) rest)

/-- Blanks behind an entry are left to the comma or the bracket that follows it. -/
theorem AdmitsAll.readEntries {es : List Entry} {t : Bytes} (ht : EntriesText es t)
    {draft draft' : δ} (h : AdmitsAll members es draft draft') (rest : Bytes) :
    readEntries members draft (t ++ byte '}' :: rest) = .ok (draft', rest) := by
  induction ht generalizing draft with
  | last hp =>
      obtain - | ⟨hfirst, - | -⟩ := h
      obtain ⟨behind, hbehind, hread⟩ := hfirst.readNextMember hp
      rw [Json.readEntries, hread _ (ends_cons (by decide))]
      exact readMoreMembers_close hbehind _ rest
  | more hp ht ih =>
      obtain - | ⟨hfirst, hmore⟩ := h
      obtain ⟨behind, hbehind, hread⟩ := hfirst.readNextMember hp
      rw [List.append_assoc, List.cons_append, Json.readEntries, hread _ (ends_cons (by decide))]
      show readMoreMembers members _ (behind ++ _) = _
      rw [readMoreMembers_comma hbehind]
      exact ih hmore

/-- Entries start with a quote. -/
theorem EntriesText.exists_quote {es : List Entry} {t : Bytes} (h : EntriesText es t) :
    ∃ ws t', Blank ws ∧ t = ws ++ byte '"' :: t' := by
  cases h with
  | last hp =>
      obtain ⟨hbefore⟩ := hp
      exact ⟨_, _, hbefore, rfl⟩
  | more hp ht =>
      obtain ⟨hbefore⟩ := hp
      exact ⟨_, _, hbefore, List.append_assoc ..⟩

theorem readNextMember_blank {ws : Bytes} (hws : Blank ws) (draft : δ) (bs : Bytes) :
    readNextMember members draft (ws ++ bs) = readNextMember members draft bs := by
  rw [readNextMember, readNextMember, skipQuote, skipQuote, skipToken, skipToken,
    skipBlank_append hws]

/-- Where a quote stands, an object is not empty. -/
theorem readMembers_quote {ws : Bytes} (hws : Blank ws) (draft : δ) (bs : Bytes) :
    readMembers members draft (ws ++ byte '"' :: bs) =
      readEntries members draft (ws ++ byte '"' :: bs) := by
  rw [readMembers, skipBlank_append_cons hws (by decide), readEntries, readNextMember_blank hws]
  exact if_neg (by decide)

theorem readMembers_entries {es : List Entry} {t : Bytes} (ht : EntriesText es t) (draft : δ)
    (rest : Bytes) :
    readMembers members draft (t ++ rest) = readEntries members draft (t ++ rest) := by
  obtain ⟨ws, t', hws, rfl⟩ := ht.exists_quote
  rw [List.append_assoc, List.cons_append, readMembers_quote hws]

/-- **An object whose entries fill the blank draft is read as the record of the draft.** -/
theorem takes_object {shape : Shape δ ρ} {es : List Entry} {draft : δ} {record : ρ} {t : Bytes}
    (h : AdmitsAll shape.members es shape.blank draft) (hfinish : shape.finish draft = some record)
    (ht : ObjectText es t) : Takes shape.reader record t := by
  intro ws rest hws hrest
  have hrun : ∀ bs, shape.reader.run (ws ++ byte '\x7b' :: bs) =
      readMembers shape.members shape.blank bs >>= shape.close := by
    intro bs
    show Reader.runToken _ (ws ++ byte '\x7b' :: bs) = _
    rw [runToken_blank hws, runToken_cons (by decide), if_pos rfl]
  have hclose : shape.close (draft, rest) = .ok (record, rest) := by
    rw [Shape.close, hfinish]
  cases ht with
  | empty hws' =>
      rename_i ws'
      obtain - | - := h
      have hend : skipBlank (ws' ++ ([byte '}'] ++ rest)) = byte '}' :: rest :=
        skipBlank_append_cons hws' (by decide) _
      rw [List.cons_append, hrun, List.append_assoc, readMembers, hend]
      exact hclose
  | entries hes =>
      rename_i t
      rw [List.cons_append, hrun, List.append_assoc, readMembers_entries hes]
      show (readEntries shape.members shape.blank (t ++ byte '}' :: rest) >>= _) = _
      rw [h.readEntries hes]
      exact hclose

end Records

end MailPush.Json
