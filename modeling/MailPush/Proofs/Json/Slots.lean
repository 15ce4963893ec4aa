import Mathlib.Data.List.Nodup
import MailPush.Proofs.Json.Deciphering
import MailPush.Proofs.Json.Objects

set_option autoImplicit false

/-! # Records by their slots

The members of a record are slots of its drafts, each with a name and a value of its own (`Slots`).
Whatever the order of the entries of an object and whatever else it has, each slot is filled by the
entry of its name, if there is one (`Slots.admitsAll`). Conversely, a reading of an object that
succeeds has found every slot free that it filled (`Traced`). So an object in which the name of a
slot is repeated is not read at all (`Slots.refuses_repeated`), and neither is one with a value that
the slot of its name cannot hold (`Slots.refuses_value`).
-/

namespace MailPush.Json

/-- A part of a draft that holds the value of a member, once it has been read. -/
structure Slot (δ : Type) where
  type : Type
  name : String
  reader : Reader type
  get : δ → Option type
  put : type → δ → δ

section Slots

variable {δ ρ : Type} {members : List (Member δ)} {slots : List (Slot δ)}

/-- The member that fills a slot. -/
def Slot.member (s : Slot δ) : Member δ :=
  ⟨s.name, fun draft => (s.get draft).isSome, s.reader.map s.put⟩

/-- The member of a slot reads a value of the slot, to put it there. -/
theorem Slot.exists_of_member {s : Slot δ} {bs rest : Bytes} {put : δ → δ}
    (h : s.member.value.run bs = .ok (put, rest)) :
    ∃ a, put = s.put a ∧ s.reader.run bs = .ok (a, rest) := by
  obtain ⟨⟨a, r⟩, ha, hput⟩ := bind_eq_ok_iff.1 h
  cases hput
  exact ⟨a, rfl, ha⟩

/-- The members of a record fill slots of different names, which do not disturb each other and are
all that there is of a draft. -/
structure Slots (members : List (Member δ)) (slots : List (Slot δ)) : Prop where
  members_eq : members = slots.map Slot.member
  distinct : (slots.map Slot.name).Nodup
  get_put : ∀ s ∈ slots, ∀ a draft, s.get (s.put a draft) = some a
  get_put_of_ne : ∀ s ∈ slots, ∀ s' ∈ slots, s.name ≠ s'.name →
    ∀ a draft, s'.get (s.put a draft) = s'.get draft
  ext : ∀ draft draft', (∀ s ∈ slots, s.get draft = s.get draft') → draft = draft'

namespace Slots

variable (h : Slots members slots)

include h

theorem eq_of_name {s s' : Slot δ} (hs : s ∈ slots) (hs' : s' ∈ slots) (hname : s.name = s'.name) :
    s = s' :=
  List.inj_on_of_nodup_map h.distinct hs hs' hname

/-- The member of a known name fills the slot of the name. -/
theorem exists_of_find? {name : String} {m : Member δ}
    (hfind : members.find? (fun m => m.name == name) = some m) :
    ∃ s ∈ slots, s.name = name ∧ m = s.member := by
  have hmem := List.mem_of_find?_eq_some hfind
  have hname := List.find?_some hfind
  rw [h.members_eq] at hmem
  obtain ⟨s, hs, rfl⟩ := List.mem_map.1 hmem
  exact ⟨s, hs, eq_of_beq hname, rfl⟩

theorem find? {s : Slot δ} (hs : s ∈ slots) :
    members.find? (fun m => m.name == s.name) = some s.member := by
  cases hfind : members.find? (fun m => m.name == s.name) with
  | none =>
      have hmem : s.member ∈ members := h.members_eq ▸ List.mem_map_of_mem hs
      have hne := List.find?_eq_none.1 hfind s.member hmem
      exact absurd (beq_self_eq_true s.name) hne
  | some m =>
      obtain ⟨s', hs', hname, rfl⟩ := h.exists_of_find? hfind
      rw [h.eq_of_name hs' hs hname]

theorem find?_eq_none {name : String} (hname : ∀ s ∈ slots, s.name ≠ name) :
    members.find? (fun m => m.name == name) = none := by
  cases hfind : members.find? (fun m => m.name == name) with
  | none => rfl
  | some m =>
      obtain ⟨s, hs, hs', -⟩ := h.exists_of_find? hfind
      exact absurd hs' (hname s hs)

/-! ## Filling a draft -/

/-- **Each slot is filled by the entry of its name**, and stays as it is when there is none. -/
theorem admitsAll {es : List Entry} (hnamed : AllNamed es) {start target : δ}
    (hslots : ∀ s ∈ slots, Omitted s.name es ∧ s.get target = s.get start ∨
      s.get start = none ∧ ∃ a, s.get target = some a ∧ Given s.name (Takes s.reader a) es) :
    AdmitsAll members es start target := by
  -- on the entries that are left, from any draft that has free slots for them
  induction es generalizing start with
  | nil =>
      have heq : start = target := by
        refine h.ext start target fun s hs => ?_
        rcases hslots s hs with ⟨-, hget⟩ | ⟨-, a, -, hgiven⟩
        · exact hget.symm
        · cases hgiven
      rw [heq]
      exact .nil
  | cons e es ih =>
      obtain ⟨name, hname⟩ := hnamed e List.mem_cons_self
      have hnamed' : AllNamed es := fun e' he' => hnamed e' (List.mem_cons_of_mem _ he')
      by_cases hknown : ∃ s ∈ slots, s.name = name
      · obtain ⟨s, hs, rfl⟩ := hknown
        rcases hslots s hs with ⟨homitted, -⟩ | ⟨hfree, a, htarget, hgiven⟩
        · exact absurd hname homitted.of_cons.1
        obtain ⟨-, htakes, homitted⟩ | ⟨hother, -⟩ := hgiven
        · have hheld : s.member.held start = false := by
            show (s.get start).isSome = false
            rw [hfree]
            rfl
          refine .cons (.known hname (h.find? hs) hheld (htakes.map s.put)) (ih hnamed' ?_)
          intro s' hs'
          by_cases hsame : s.name = s'.name
          · obtain rfl := h.eq_of_name hs hs' hsame
            exact .inl ⟨homitted, by rw [h.get_put s hs, htarget]⟩
          · have hother : ¬ e.Named s'.name := fun hs'' => hsame (hname.unique hs'')
            rw [h.get_put_of_ne s hs s' hs' hsame]
            exact (hslots s' hs').imp (fun hleft => ⟨hleft.1.of_cons.2, hleft.2⟩)
              fun ⟨hfree', b, hb, hgiven'⟩ => ⟨hfree', b, hb, hgiven'.of_cons hother⟩
        · exact absurd hname hother
      · have hunknown : ∀ s ∈ slots, s.name ≠ name := fun s hs hs' => hknown ⟨s, hs, hs'⟩
        refine .cons (.extra hname (h.find?_eq_none hunknown)) (ih hnamed' ?_)
        intro s' hs'
        have hother : ¬ e.Named s'.name := fun hs'' => hunknown s' hs' (hs''.unique hname)
        exact (hslots s' hs').imp (fun hleft => ⟨hleft.1.of_cons.2, hleft.2⟩)
          fun ⟨hfree, b, hb, hgiven⟩ => ⟨hfree, b, hb, hgiven.of_cons hother⟩

end Slots

/-- A record is read to its end if the value of every slot is. -/
theorem Slots.aligned {shape : Shape δ ρ} (h : Slots shape.members slots)
    (haligned : ∀ s ∈ slots, s.reader.Aligned) : shape.reader.Aligned := by
  refine aligned_shape fun m hm => ?_
  rw [h.members_eq] at hm
  obtain ⟨s, hs, rfl⟩ := List.mem_map.1 hm
  exact Reader.Aligned.map (haligned s hs) s.put

/-- The entries of an object give a value of a member: the one that is read from the entry of its
name, or none when there is no such entry. -/
def Gives {α : Type} (name : String) (r : Reader α) (es : List Entry) : Option α → Prop
  | none => Omitted name es
  | some a => Given name (Takes r a) es

/-- **An object is read as the record of the draft whose slots its entries give.** -/
theorem Slots.takes {shape : Shape δ ρ} (h : Slots shape.members slots) (draft : δ) {record : ρ}
    {es : List Entry} {t : Bytes} (hblank : ∀ s ∈ slots, s.get shape.blank = none)
    (hgives : ∀ s ∈ slots, Gives s.name s.reader es (s.get draft))
    (hfinish : shape.finish draft = some record) (hnamed : AllNamed es) (ht : ObjectText es t) :
    Takes shape.reader record t := by
  refine takes_object (h.admitsAll hnamed fun s hs => ?_) hfinish ht
  have hs' := hgives s hs
  cases hget : s.get draft with
  | none =>
      rw [hget] at hs'
      exact .inl ⟨hs', (hblank s hs).symm⟩
  | some a =>
      rw [hget] at hs'
      exact .inr ⟨hblank s hs, a, rfl, hs'⟩

/-! ## What a reading has found -/

/-- An entry that has been read: a free slot of its name holds what was found of its value, or no
slot has its name. -/
inductive Enters (slots : List (Slot δ)) (e : Entry) : δ → δ → Prop
  | known {s : Slot δ} {a : s.type} {draft : δ} : s ∈ slots → e.Named s.name →
      s.get draft = none → Found s.reader a e.value → Enters slots e draft (s.put a draft)
  | extra {name : String} {draft : δ} : e.Named name → (∀ s ∈ slots, s.name ≠ name) →
      Enters slots e draft draft

/-- Entries that have been read, one after the other. -/
inductive EntersAll (slots : List (Slot δ)) : List Entry → δ → δ → Prop
  | nil {draft : δ} : EntersAll slots [] draft draft
  | cons {e : Entry} {es : List Entry} {draft draft₁ draft₂ : δ} : Enters slots e draft draft₁ →
      EntersAll slots es draft₁ draft₂ → EntersAll slots (e :: es) draft draft₂

/-- The key of an entry that has been read spells a name. -/
theorem EntryText.exists_named {e : Entry} {p rest rest' : Bytes} {draft draft' : δ}
    (hp : EntryText e p)
    (hr : Json.readNextMember members draft (p ++ rest) = .ok (draft', rest')) :
    ∃ name, e.Named name := by
  obtain ⟨colon, after, behind, -, -, -, htext, hread⟩ := hp.readNextMember members
  rw [hread] at hr
  obtain ⟨⟨name, r₁⟩, hname, -⟩ := bind_eq_ok_iff.1 hr
  obtain ⟨t, ht, heq⟩ := exists_spelled_text hname
  have hskip := skipText_of_readText hname
  rw [skipText_append htext] at hskip
  rw [Except.ok.inj hskip] at heq
  refine ⟨name, ?_⟩
  rwa [Entry.Named, show e.key = t from List.append_cancel_right heq]

namespace Slots

variable (h : Slots members slots)

include h

/-- **A reading of an entry** has found the slot of its name free, and ends behind the entry. -/
theorem enters_of_readNextMember (haligned : ∀ s ∈ slots, s.reader.Aligned) {e : Entry}
    {p rest rest' : Bytes} {draft draft' : δ} (hp : EntryText e p) (hrest : Ends rest)
    (hr : readNextMember members draft (p ++ rest) = .ok (draft', rest')) :
    Enters slots e draft draft' ∧ ∃ behind, Blank behind ∧ rest' = behind ++ rest := by
  obtain ⟨name', hname⟩ := hp.exists_named hr
  obtain ⟨name, hunique, ws, behind, hws, hbehind, hread⟩ := hp.read_cases hrest hr
  obtain rfl := hunique name' hname
  rcases hread with ⟨m, put, hfind, hheld, hput, rfl⟩ | ⟨hfind, rfl, hrest'⟩
  · obtain ⟨s, hs, rfl, rfl⟩ := h.exists_of_find? hfind
    obtain ⟨a, rfl, ha⟩ := Slot.exists_of_member hput
    obtain ⟨hfound, hr⟩ := (haligned s hs).found hws hp.wellFormed
      (ends_blank_append hbehind hrest) ha
    have hfree : s.get draft = none :=
      Option.isNone_iff_eq_none.1 (Option.isSome_eq_false_iff.1 hheld)
    exact ⟨.known hs hname hfree hfound, behind, hbehind, hr⟩
  · refine ⟨.extra hname fun s hs hs' => ?_, behind, hbehind, hrest'⟩
    rw [← hs', h.find? hs] at hfind
    cases hfind

/-- Entries are read one after the other; the blanks behind the last one are left. -/
theorem entersAll_of_readEntries (haligned : ∀ s ∈ slots, s.reader.Aligned) {es : List Entry}
    {t more rest' : Bytes} (ht : EntriesText es t) (hmore : Ends more) {draft draft' : δ}
    (hr : readEntries members draft (t ++ more) = .ok (draft', rest')) :
    ∃ draft₁ behind, EntersAll slots es draft draft₁ ∧ Blank behind ∧
      readMoreMembers members draft₁ (behind ++ more) = .ok (draft', rest') := by
  induction ht generalizing draft with
  | last hp =>
      obtain ⟨⟨draft₁, r⟩, hfirst, hr⟩ := bind_eq_ok_iff.1 hr
      obtain ⟨henters, behind, hbehind, rfl⟩ := h.enters_of_readNextMember haligned hp hmore hfirst
      exact ⟨draft₁, behind, .cons henters .nil, hbehind, hr⟩
  | more hp ht ih =>
      rw [List.append_assoc, List.cons_append] at hr
      obtain ⟨⟨draft₁, r⟩, hfirst, hr⟩ := bind_eq_ok_iff.1 hr
      obtain ⟨henters, behind, hbehind, rfl⟩ :=
        h.enters_of_readNextMember haligned hp (ends_cons (by decide)) hfirst
      rw [readMoreMembers_comma hbehind] at hr
      obtain ⟨draft₂, behind', hes, hbehind', hr⟩ := ih hr
      exact ⟨draft₂, behind', .cons henters hes, hbehind', hr⟩

theorem entersAll_of_readMembers (haligned : ∀ s ∈ slots, s.reader.Aligned) {es : List Entry}
    {body rest rest' : Bytes} {draft draft' : δ} (ht : ObjectText es (byte '\x7b' :: body))
    (hr : readMembers members draft (body ++ rest) = .ok (draft', rest')) :
    EntersAll slots es draft draft' := by
  cases ht with
  | empty hws =>
      rename_i ws
      have hend : skipBlank (ws ++ ([byte '}'] ++ rest)) = byte '}' :: rest :=
        skipBlank_append_cons hws (by decide) _
      rw [List.append_assoc, readMembers, hend] at hr
      cases hr
      exact .nil
  | entries hes =>
      rw [List.append_assoc, readMembers_entries hes] at hr
      obtain ⟨draft₁, behind, hall, hbehind, hr⟩ :=
        h.entersAll_of_readEntries haligned hes (ends_cons (by decide)) hr
      rw [readMoreMembers_close hbehind] at hr
      cases hr
      exact hall

end Slots

/-- What is known of a draft before and after an entry has been read: the slot of its name was free
and is not any more, its value is one that the slot can hold, and no slot has been cleared. -/
structure Entered (slots : List (Slot δ)) (e : Entry) (draft draft' : δ) : Prop where
  free : ∀ s ∈ slots, e.Named s.name → s.get draft = none
  filled : ∀ s ∈ slots, e.Named s.name → (s.get draft').isSome
  taken : ∀ s ∈ slots, e.Named s.name → ¬ Refuses s.reader e.value
  kept : ∀ s ∈ slots, (s.get draft).isSome → (s.get draft').isSome

/-- The same of a sequence of entries, one after the other. -/
inductive Traced (slots : List (Slot δ)) : List Entry → δ → δ → Prop
  | nil {draft : δ} : Traced slots [] draft draft
  | cons {e : Entry} {es : List Entry} {draft draft₁ draft₂ : δ} : Entered slots e draft draft₁ →
      Traced slots es draft₁ draft₂ → Traced slots (e :: es) draft draft₂

namespace Traced

variable {es : List Entry} {draft draft' : δ} {s : Slot δ}

/-- Before any entry of its name, a slot is free. -/
theorem free (h : Traced slots es draft draft') (hs : s ∈ slots) {e : Entry} (he : e ∈ es)
    (hname : e.Named s.name) : s.get draft = none := by
  induction h with
  | nil => cases he
  | cons hfirst hmore ih =>
      rename_i e' es draft draft₁ draft₂
      rcases List.mem_cons.1 he with rfl | he
      · exact hfirst.free s hs hname
      · have hfree := ih he
        cases hget : s.get draft with
        | none => rfl
        | some a =>
            have hkept := hfirst.kept s hs (by rw [hget]; rfl)
            rw [hfree] at hkept
            cases hkept

theorem not_repeated (h : Traced slots es draft draft') (hs : s ∈ slots) :
    ¬ Repeated s.name es := by
  rintro ⟨e, e', hsub, hname, hname'⟩
  induction h with
  | nil => cases hsub
  | cons hfirst hmore ih =>
      cases hsub with
      | cons _ hsub => exact ih hsub
      | cons_cons _ hsub =>
          -- the first of the two fills the slot that the second wants
          have hfree := hmore.free hs (List.singleton_sublist.1 hsub) hname'
          have hfilled := hfirst.filled s hs hname
          rw [hfree] at hfilled
          cases hfilled

theorem taken (h : Traced slots es draft draft') (hs : s ∈ slots) {e : Entry} (he : e ∈ es)
    (hname : e.Named s.name) : ¬ Refuses s.reader e.value := by
  induction h with
  | nil => cases he
  | cons hfirst hmore ih =>
      rcases List.mem_cons.1 he with rfl | he
      · exact hfirst.taken s hs hname
      · exact ih he

end Traced

/-- An entry that has been read is known by what it does to the slots. -/
theorem Enters.entered (h : Slots members slots) {e : Entry} {draft draft' : δ}
    (he : Enters slots e draft draft') : Entered slots e draft draft' := by
  cases he with
  | known hs hname hfree hfound =>
      rename_i s a
      have hsame : ∀ s' ∈ slots, e.Named s'.name → s' = s := fun s' hs' hname' =>
        h.eq_of_name hs' hs (hname'.unique hname)
      refine ⟨fun s' hs' hname' => ?_, fun s' hs' hname' => ?_, fun s' hs' hname' => ?_,
        fun s' hs' hsome => ?_⟩
      · rw [hsame s' hs' hname', hfree]
      · rw [hsame s' hs' hname', h.get_put s hs]
        rfl
      · obtain rfl := hsame s' hs' hname'
        exact hfound.not_refuses
      · by_cases hsame' : s.name = s'.name
        · obtain rfl := h.eq_of_name hs hs' hsame'
          rw [h.get_put s hs]
          rfl
        · rw [h.get_put_of_ne s hs s' hs' hsame']
          exact hsome
  | extra hname hunknown =>
      have hother : ∀ s ∈ slots, ¬ e.Named s.name := fun s hs hname' =>
        hunknown s hs (hname'.unique hname)
      exact ⟨fun s hs hname' => absurd hname' (hother s hs),
        fun s hs hname' => absurd hname' (hother s hs),
        fun s hs hname' => absurd hname' (hother s hs), fun _ _ hsome => hsome⟩

theorem EntersAll.traced (h : Slots members slots) {es : List Entry} {draft draft' : δ}
    (hes : EntersAll slots es draft draft') : Traced slots es draft draft' := by
  induction hes with
  | nil => exact .nil
  | cons hfirst hmore ih => exact .cons (hfirst.entered h) ih

/-- A record is read from an object or from an array. -/
theorem Shape.run_cases (shape : Shape δ ρ) {ws body rest : Bytes} {b : UInt8} {record : ρ}
    (hws : Blank ws) (hb : isBlank b = false)
    (hr : shape.reader.run (ws ++ b :: body) = .ok (record, rest)) :
    ∃ draft rest', shape.finish draft = some record ∧
      (b = byte '\x7b' ∧ readMembers shape.members shape.blank body = .ok (draft, rest') ∨
        b = byte '[' ∧ readElements shape.members shape.blank body = .ok (draft, rest')) := by
  have hclose : ∀ {p : δ × Bytes}, shape.close p = .ok (record, rest) →
      shape.finish p.1 = some record := by
    intro p hp
    rw [Shape.close] at hp
    split at hp
    next hfinish =>
      cases hp
      exact hfinish
    next => cases hp
  replace hr : Reader.runToken _ (ws ++ b :: body) = _ := hr
  rw [runToken_blank hws, runToken_cons hb] at hr
  split at hr
  next hopen =>
    obtain ⟨p, hread, hp⟩ := bind_eq_ok_iff.1 hr
    exact ⟨p.1, p.2, hclose hp, .inl ⟨hopen, hread⟩⟩
  next =>
    split at hr
    next hopen =>
      obtain ⟨p, hread, hp⟩ := bind_eq_ok_iff.1 hr
      exact ⟨p.1, p.2, hclose hp, .inr ⟨hopen, hread⟩⟩
    next => exact absurd hr refuse_ne_ok

theorem Shape.exists_members (shape : Shape δ ρ) {ws body rest : Bytes} {record : ρ}
    (hws : Blank ws) (hr : shape.reader.run (ws ++ byte '\x7b' :: body) = .ok (record, rest)) :
    ∃ draft rest', readMembers shape.members shape.blank body = .ok (draft, rest') := by
  obtain ⟨draft, rest', -, ⟨-, hread⟩ | ⟨hopen, -⟩⟩ := shape.run_cases hws (by decide) hr
  · exact ⟨draft, rest', hread⟩
  · exact absurd hopen (by decide)

theorem Shape.exists_elements (shape : Shape δ ρ) {ws body rest : Bytes} {record : ρ}
    (hws : Blank ws) (hr : shape.reader.run (ws ++ byte '[' :: body) = .ok (record, rest)) :
    ∃ draft rest', readElements shape.members shape.blank body = .ok (draft, rest') := by
  obtain ⟨draft, rest', -, ⟨hopen, -⟩ | ⟨-, hread⟩⟩ := shape.run_cases hws (by decide) hr
  · exact absurd hopen (by decide)
  · exact ⟨draft, rest', hread⟩

/-- **A reading of an object that succeeds** has found every slot free that it filled. -/
theorem Slots.traced {shape : Shape δ ρ} (h : Slots shape.members slots)
    (haligned : ∀ s ∈ slots, s.reader.Aligned) {es : List Entry} {ws t rest rest' : Bytes}
    {record : ρ} (hws : Blank ws) (ht : ObjectText es t)
    (hr : shape.reader.run (ws ++ (t ++ rest)) = .ok (record, rest')) :
    ∃ draft, Traced slots es shape.blank draft := by
  obtain ⟨body, rfl⟩ : ∃ body, t = byte '\x7b' :: body := by
    cases ht <;> exact ⟨_, rfl⟩
  obtain ⟨draft, r, hread⟩ := shape.exists_members hws hr
  exact ⟨draft, (h.entersAll_of_readMembers haligned ht hread).traced h⟩

/-- **An object in which a known name is repeated is not read.** -/
theorem Slots.refuses_repeated {shape : Shape δ ρ} (h : Slots shape.members slots)
    (haligned : ∀ s ∈ slots, s.reader.Aligned) {es : List Entry} {t : Bytes} {s : Slot δ}
    (ht : ObjectText es t) (hs : s ∈ slots) (hrepeated : Repeated s.name es) :
    Refuses shape.reader t := by
  intro ws rest record rest' hws hrest hr
  obtain ⟨draft, htraced⟩ := h.traced haligned hws ht hr
  exact htraced.not_repeated hs hrepeated

/-- An object is not read when the value of a known name is not. -/
theorem Slots.refuses_value {shape : Shape δ ρ} (h : Slots shape.members slots)
    (haligned : ∀ s ∈ slots, s.reader.Aligned) {es : List Entry} {t : Bytes} {s : Slot δ}
    (ht : ObjectText es t) (hs : s ∈ slots) {e : Entry} (he : e ∈ es) (hname : e.Named s.name)
    (hrefuses : Refuses s.reader e.value) : Refuses shape.reader t := by
  intro ws rest record rest' hws hrest hr
  obtain ⟨draft, htraced⟩ := h.traced haligned hws ht hr
  exact htraced.taken hs he hname hrefuses

end Slots

end MailPush.Json
