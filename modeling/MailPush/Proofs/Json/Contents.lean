import MailPush.Proofs.Json.Deciphering
import MailPush.Proofs.Json.Integers
import MailPush.Proofs.Json.Slots

set_option autoImplicit false

/-! # What a record is read from

The converse of filling a draft. A record that has been read was written as an object or as an array
(`Written`), and each slot of its draft holds the value that its reader has taken from what was
written under the name of the slot, or nothing when nothing was (`Slots.contents`).

The parts of a record are read from the first one on. So a text in which something that is no value
of a slot stands at the place of one (`Stands`) is not read, whatever is behind it
(`Slots.decode_ne_ok`).
-/

namespace MailPush.Json

/-! ## Values found -/

section Found

variable {α : Type} {r : Reader α} {a : α} {t : Bytes}

/-- What an exact reader has taken is the text of the value. -/
theorem Found.eq_form {form : α → Bytes} (h : Found r a t) (hexact : r.Exact form)
    (hform : WellFormed .value (form a)) : t = form a := by
  obtain ⟨ht, ws, rest, hws, -, hr⟩ := h
  obtain ⟨ws', hws', heq⟩ := hexact _ _ _ hr
  exact List.append_cancel_right
    (append_eq_of_blank hws hws' ht.exists_cons hform.exists_cons heq)

/-- **A text that is decoded is a value, with blanks around it.** -/
theorem found_of_decode [Readable α] (h : (Readable.reader : Reader α).Aligned) {text : Bytes}
    (hdecode : decode text = .ok a) : Found (Readable.reader : Reader α) a (strip text) := by
  obtain ⟨rest, hread, hrest⟩ := exists_of_decode hdecode
  have hskip : skipValue text = .ok rest := h _ _ _ hread []
  obtain ⟨ws, t, hws, ht, rfl⟩ := exists_value hskip
  rw [strip_append hws ht hrest]
  exact ⟨ht, ws, rest, hws, by simpa using ends_blank_append hrest ends_nil, hread⟩

end Found

section Records

variable {δ ρ : Type} {members : List (Member δ)} {slots : List (Slot δ)}

/-! ## Entries -/

/-- A slot has been filled from these entries, or they have none of its name and it is as it was. -/
def Slot.FilledFrom (s : Slot δ) (es : List Entry) (draft draft' : δ) : Prop :=
  Omitted s.name es ∧ s.get draft' = s.get draft ∨
    s.get draft = none ∧ ∃ a, s.get draft' = some a ∧ Given s.name (Found s.reader a) es

/-- An entry of another name leaves a slot to those after it. -/
theorem Slot.FilledFrom.cons {s : Slot δ} {e : Entry} {es : List Entry} {draft draft₁ draft₂ : δ}
    (h : s.FilledFrom es draft₁ draft₂) (hother : ¬ e.Named s.name)
    (hget : s.get draft₁ = s.get draft) : s.FilledFrom (e :: es) draft draft₂ := by
  rw [Slot.FilledFrom, hget] at h
  rcases h with ⟨homitted, heq⟩ | ⟨hfree, a, ha, hgiven⟩
  · refine .inl ⟨fun e' he' => ?_, heq⟩
    rcases List.mem_cons.1 he' with rfl | he'
    · exact hother
    · exact homitted e' he'
  · exact .inr ⟨hfree, a, ha, .later hother hgiven⟩

/-- **A slot holds what was found in the entry of its name**, and is as it was when there is no such
entry. -/
theorem Slots.filledFrom_of_entersAll (h : Slots members slots) {es : List Entry} {draft draft' : δ}
    (hes : EntersAll slots es draft draft') {s : Slot δ} (hs : s ∈ slots) :
    s.FilledFrom es draft draft' := by
  induction hes with
  | nil => exact .inl ⟨fun e he => (nomatch he), rfl⟩
  | cons hfirst hmore ih =>
      cases hfirst with
      | known hs₀ hname hfree hfound =>
          rename_i s₀ a
          by_cases hsame : s₀.name = s.name
          · obtain rfl := h.eq_of_name hs₀ hs hsame
            -- the entries behind find the slot filled, so none of them has its name
            rcases ih with ⟨homitted, hget⟩ | ⟨hnone, -⟩
            · exact .inr ⟨hfree, a, by rw [hget, h.get_put s₀ hs], .here hname hfound homitted⟩
            · rw [h.get_put s₀ hs] at hnone
              cases hnone
          · exact ih.cons (fun hs' => hsame (hname.unique hs'))
              (h.get_put_of_ne s₀ hs₀ s hs hsame a _)
      | extra hname hunknown =>
          exact ih.cons (fun hs' => hunknown s hs (hs'.unique hname)) rfl

/-! ## Items -/

/-- Items of an array that have been read: each slot in turn holds what was found of one of them. -/
inductive Deals : List (Slot δ) → List Bytes → δ → δ → Prop
  | nil {left : List (Slot δ)} {draft : δ} : Deals left [] draft draft
  | cons {s : Slot δ} {left : List (Slot δ)} {a : s.type} {t : Bytes} {ts : List Bytes}
      {draft draft' : δ} : Found s.reader a t → Deals left ts (s.put a draft) draft' →
      Deals (s :: left) (t :: ts) draft draft'

theorem readMoreElements_close {left : List (Member δ)} {bs rest : Bytes}
    (h : skipBlank bs = byte ']' :: rest) (draft : δ) :
    readMoreElements left draft bs = .ok (draft, rest) := by
  cases left <;> rw [readMoreElements, h] <;> exact if_pos rfl

theorem readElements_close {left : List (Member δ)} {bs rest : Bytes}
    (h : skipBlank bs = byte ']' :: rest) (draft : δ) :
    readElements left draft bs = .ok (draft, rest) := by
  cases left with
  | nil => exact readMoreElements_close h draft
  | cons m left =>
      rw [readElements, h]
      exact if_pos rfl

theorem readElements_cons {m : Member δ} {left : List (Member δ)} {b : UInt8} {bs rest : Bytes}
    (h : skipBlank bs = b :: rest) (hb : b ≠ byte ']') (draft : δ) :
    readElements (m :: left) draft bs =
      m.value.run (b :: rest) >>= fun p => readMoreElements left (p.1 draft) p.2 := by
  rw [readElements, h]
  exact if_neg hb

theorem readMoreElements_comma {m : Member δ} {left : List (Member δ)} {bs rest : Bytes}
    (h : skipBlank bs = byte ',' :: rest) (draft : δ) :
    readMoreElements (m :: left) draft bs =
      m.value.run rest >>= fun p => readMoreElements left (p.1 draft) p.2 := by
  rw [readMoreElements, h]
  dsimp only
  rw [if_neg (by decide), if_pos rfl]

/-- Items are read one after the other; the blanks behind the last one are left. -/
theorem deals_of_items {values : List Bytes} {t more rest' : Bytes}
    (ht : ItemsText ItemValue values t) (hmore : Ends more) {s : Slot δ} {left : List (Slot δ)}
    {draft draft' : δ} (haligned : ∀ s' ∈ s :: left, s'.reader.Aligned)
    (hr : (s.member.value.run (t ++ more) >>= fun p =>
      readMoreElements (left.map Slot.member) (p.1 draft) p.2) = .ok (draft', rest')) :
    ∃ draft₁ behind, Deals (s :: left) values draft draft₁ ∧ Blank behind ∧
      readMoreElements (((s :: left).drop values.length).map Slot.member) draft₁
        (behind ++ more) = .ok (draft', rest') := by
  induction ht generalizing s left draft with
  | last hbefore ht hbehind =>
      rename_i value before t behind
      obtain ⟨rfl, hvalue⟩ := ht
      obtain ⟨⟨put, r⟩, hput, hr⟩ := bind_eq_ok_iff.1 hr
      obtain ⟨a, rfl, ha⟩ := Slot.exists_of_member hput
      rw [List.append_assoc, List.append_assoc] at ha
      obtain ⟨hfound, rfl⟩ := (haligned s List.mem_cons_self).found hbefore hvalue
        (ends_blank_append hbehind hmore) ha
      exact ⟨_, behind, .cons hfound .nil, hbehind, hr⟩
  | more hbefore ht hbehind hts ih =>
      rename_i value values before t behind ts
      obtain ⟨rfl, hvalue⟩ := ht
      have hcomma : skipBlank (behind ++ byte ',' :: (ts ++ more)) = byte ',' :: (ts ++ more) :=
        skipBlank_append_cons hbehind (by decide) _
      obtain ⟨⟨put, r⟩, hput, hr⟩ := bind_eq_ok_iff.1 hr
      obtain ⟨a, rfl, ha⟩ := Slot.exists_of_member hput
      rw [List.append_assoc, List.append_assoc, List.append_assoc, List.cons_append] at ha
      obtain ⟨hfound, rfl⟩ := (haligned s List.mem_cons_self).found hbefore hvalue
        (ends_blank_append hbehind (ends_cons (by decide))) ha
      cases left with
      | nil =>
          -- no slot is left for another item
          rw [List.map_nil, readMoreElements, hcomma] at hr
          cases hr
      | cons s' left =>
          rw [List.map_cons, readMoreElements_comma hcomma] at hr
          obtain ⟨draft₁, behind', hdeals, hbehind', hr⟩ :=
            ih (fun s'' hs'' => haligned s'' (List.mem_cons_of_mem _ hs'')) hr
          exact ⟨draft₁, behind', .cons hfound hdeals, hbehind', hr⟩

/-- Items start, behind blanks, with a byte that does not end the array. -/
theorem ItemsText.exists_cons {values : List Bytes} {t : Bytes}
    (h : ItemsText ItemValue values t) : ∃ ws b t', Blank ws ∧ t = ws ++ b :: t' ∧
      isBlank b = false ∧ b ≠ byte ']' ∧ ItemsText ItemValue values (b :: t') := by
  have hfirst : ∀ t : Bytes, WellFormed .value t →
      ∃ b t', t = b :: t' ∧ isBlank b = false ∧ b ≠ byte ']' := by
    intro t ht
    obtain ⟨c, t', rfl, hc⟩ := ht.exists_cons
    obtain ⟨ws, b, t'', hws, heq, hb, hne, -⟩ := ht.starts
    have hskip := congrArg skipBlank heq
    rw [skipBlank_cons hc, skipBlank_append_cons hws hb] at hskip
    exact ⟨b, t'', hskip, hb, hne⟩
  cases h with
  | last hbefore ht hbehind =>
      obtain ⟨b, t', rfl, hb, hne⟩ := hfirst _ (ht.1 ▸ ht.2)
      exact ⟨_, b, _, hbefore, rfl, hb, hne, .last blank_of_mem_nil ht hbehind⟩
  | more hbefore ht hbehind hts =>
      obtain ⟨b, t', rfl, hb, hne⟩ := hfirst _ (ht.1 ▸ ht.2)
      exact ⟨_, b, _, hbefore, rfl, hb, hne, .more blank_of_mem_nil ht hbehind hts⟩

namespace Slots

variable (h : Slots members slots)

include h

theorem deals_of_itemsText (haligned : ∀ s ∈ slots, s.reader.Aligned) {values : List Bytes}
    {t more rest' : Bytes} {draft draft' : δ} (ht : ItemsText ItemValue values t)
    (hmore : Ends more) (hr : readElements members draft (t ++ more) = .ok (draft', rest')) :
    ∃ draft₁ behind, Deals slots values draft draft₁ ∧ Blank behind ∧
      readMoreElements ((slots.drop values.length).map Slot.member) draft₁ (behind ++ more) =
        .ok (draft', rest') := by
  obtain ⟨ws, b, t', hws, rfl, hb, hne, hitems⟩ := ht.exists_cons
  have hfirst : skipBlank (ws ++ b :: t' ++ more) = b :: (t' ++ more) := by
    rw [List.append_assoc]
    exact skipBlank_append_cons hws hb _
  rw [h.members_eq] at hr
  cases slots with
  | nil =>
      rw [List.map_nil, readElements, readMoreElements, hfirst] at hr
      dsimp only at hr
      rw [if_neg hne] at hr
      cases hr
  | cons s left =>
      rw [List.map_cons, readElements_cons hfirst hne] at hr
      exact deals_of_items hitems hmore haligned hr

theorem deals_of_readElements (haligned : ∀ s ∈ slots, s.reader.Aligned) {values : List Bytes}
    {body rest rest' : Bytes} {draft draft' : δ}
    (ht : ArrayText ItemValue values (byte '[' :: body))
    (hr : readElements members draft (body ++ rest) = .ok (draft', rest')) :
    Deals slots values draft draft' := by
  cases ht with
  | empty hws =>
      rename_i ws
      have hend : skipBlank (ws ++ ([byte ']'] ++ rest)) = byte ']' :: rest :=
        skipBlank_append_cons hws (by decide) _
      rw [List.append_assoc, readElements_close hend] at hr
      cases hr
      exact .nil
  | items hitems =>
      rw [List.append_assoc, List.singleton_append] at hr
      obtain ⟨draft₁, behind, hdeals, hbehind, hr⟩ :=
        h.deals_of_itemsText haligned hitems (ends_cons (by decide)) hr
      rw [readMoreElements_close (skipBlank_append_cons hbehind (by decide) _)] at hr
      cases hr
      exact hdeals

end Slots

/-! ## What a slot holds -/

/-- A slot holds what was found of the values that were written for it, and nothing when there are
none. -/
structure Slot.Holds (s : Slot δ) (draft : δ) (written : Bytes → Prop) : Prop where
  found : ∀ t, written t → ∃ a, s.get draft = some a ∧ Found s.reader a t
  exists_written : (s.get draft).isSome → ∃ t, written t

theorem Given.exists_named {name : String} {kind : Bytes → Prop} {es : List Entry}
    (h : Given name kind es) :
    (∃ e ∈ es, e.Named name) ∧ ∀ e ∈ es, e.Named name → kind e.value := by
  induction h with
  | here hname hkind homitted =>
      refine ⟨⟨_, List.mem_cons_self, hname⟩, fun e he hname' => ?_⟩
      rcases List.mem_cons.1 he with rfl | he
      · exact hkind
      · exact absurd hname' (homitted e he)
  | later hother _ ih =>
      obtain ⟨⟨e, he, hname⟩, hkind⟩ := ih
      refine ⟨⟨e, List.mem_cons_of_mem _ he, hname⟩, fun e' he' hname' => ?_⟩
      rcases List.mem_cons.1 he' with rfl | he'
      · exact absurd hname' hother
      · exact hkind e' he' hname'

namespace Slots

variable (h : Slots members slots)

include h

theorem holds_of_entersAll {es : List Entry} {draft draft' : δ}
    (hes : EntersAll slots es draft draft') {s : Slot δ} (hs : s ∈ slots)
    (hfree : s.get draft = none) :
    s.Holds draft' fun t => ∃ e ∈ es, e.Named s.name ∧ e.value = t := by
  rcases h.filledFrom_of_entersAll hes hs with ⟨homitted, hget⟩ | ⟨-, a, ha, hgiven⟩
  · refine ⟨fun t ⟨e, he, hname, _⟩ => absurd hname (homitted e he), fun hsome => ?_⟩
    rw [hget, hfree] at hsome
    cases hsome
  · obtain ⟨⟨e, he, hname⟩, hkind⟩ := hgiven.exists_named
    refine ⟨fun t ⟨e', he', hname', ht⟩ => ⟨a, ha, ht ▸ hkind e' he' hname'⟩, fun _ => ?_⟩
    exact ⟨e.value, e, he, hname, rfl⟩

/-- Dealing to some slots leaves the others as they are. -/
theorem get_eq_of_deals {left : List (Slot δ)} {values : List Bytes} {draft draft' : δ}
    (hdeals : Deals left values draft draft') (hsub : ∀ s ∈ left, s ∈ slots) {s : Slot δ}
    (hs : s ∈ slots) (hname : s.name ∉ left.map Slot.name) : s.get draft' = s.get draft := by
  induction hdeals with
  | nil => rfl
  | cons hfound hmore ih =>
      rename_i s₀ left a t₀ ts draft draft'
      obtain ⟨hne, hname⟩ := not_or.1 (mt List.mem_cons.2 hname)
      rw [ih (fun s' hs' => hsub s' (List.mem_cons_of_mem _ hs')) hname]
      exact h.get_put_of_ne s₀ (hsub s₀ List.mem_cons_self) s hs (fun heq => hne heq.symm) a draft

/-- Slots that are left to be filled are filled in their order. -/
theorem holds_of_deals {left : List (Slot δ)} {values : List Bytes} {draft draft' : δ}
    (hdeals : Deals left values draft draft') (hsub : ∀ s ∈ left, s ∈ slots)
    (hdistinct : (left.map Slot.name).Nodup) (hfree : ∀ s ∈ left, s.get draft = none) :
    ∀ s ∈ left, s.Holds draft' fun t => (s.name, t) ∈ (left.map Slot.name).zip values := by
  induction hdeals with
  | nil =>
      refine fun s hs => ⟨fun t ht => ?_, fun hsome => ?_⟩
      · rw [List.zip_nil_right] at ht
        cases ht
      · rw [hfree s hs] at hsome
        cases hsome
  | cons hfound hmore ih =>
      rename_i s₀ left a t₀ ts draft draft'
      obtain ⟨hnew, hdistinct⟩ := List.nodup_cons.1 hdistinct
      have hs₀ : s₀ ∈ slots := hsub s₀ List.mem_cons_self
      have hsub' : ∀ s ∈ left, s ∈ slots := fun s hs => hsub s (List.mem_cons_of_mem _ hs)
      intro s hs
      rcases List.mem_cons.1 hs with rfl | hs
      · have hget : s.get draft' = some a := by
          rw [h.get_eq_of_deals hmore hsub' hs₀ hnew, h.get_put s hs₀]
        refine ⟨fun t ht => ?_, fun _ => ⟨t₀, List.mem_cons_self⟩⟩
        rcases List.mem_cons.1 ht with heq | ht
        · obtain ⟨-, rfl⟩ := Prod.mk.inj heq
          exact ⟨a, hget, hfound⟩
        · exact absurd (List.of_mem_zip ht).1 hnew
      · have hfree' : ∀ s ∈ left, s.get (s₀.put a draft) = none := fun s hs => by
          rw [h.get_put_of_ne s₀ hs₀ s (hsub' s hs)
            (fun heq => hnew (heq ▸ List.mem_map_of_mem hs)) a draft]
          exact hfree s (List.mem_cons_of_mem _ hs)
        obtain ⟨hfound', hexists⟩ := ih hsub' hdistinct hfree' s hs
        refine ⟨fun t ht => ?_, fun hsome => ?_⟩
        · rcases List.mem_cons.1 ht with heq | ht
          · exact absurd ((Prod.mk.inj heq).1 ▸ List.mem_map_of_mem hs) hnew
          · exact hfound' t ht
        · obtain ⟨t, ht⟩ := hexists hsome
          exact ⟨t, List.mem_cons_of_mem _ ht⟩

end Slots

/-! ## Records -/

/-- A value stands under a name in a text: in an entry of an object, or in the item of an array at
the place of the name among these. -/
inductive Written (names : List String) : String → Bytes → Bytes → Prop
  | entry {es : List Entry} {e : Entry} {name : String} {t : Bytes} : ObjectText es t → e ∈ es →
      e.Named name → Written names name e.value t
  | item {values : List Bytes} {name : String} {value t : Bytes} :
      ArrayText ItemValue values t → (name, value) ∈ names.zip values → Written names name value t

namespace Slots

variable (h : Slots members slots)

include h

theorem holds_of_readMembers (haligned : ∀ s ∈ slots, s.reader.Aligned) {body rest rest' : Bytes}
    {draft draft' : δ} (ht : WellFormed .value (byte '\x7b' :: body))
    (hread : readMembers members draft (body ++ rest) = .ok (draft', rest')) {s : Slot δ}
    (hs : s ∈ slots) (hfree : s.get draft = none) :
    s.Holds draft' fun t => Written (slots.map Slot.name) s.name t (byte '\x7b' :: body) := by
  have hholds : ∀ es, ObjectText es (byte '\x7b' :: body) →
      s.Holds draft' fun t => ∃ e ∈ es, e.Named s.name ∧ e.value = t := fun es hes =>
    h.holds_of_entersAll (h.entersAll_of_readMembers haligned hes hread) hs hfree
  constructor
  · intro t ht
    -- what starts with a curly bracket is no array
    generalize hopen : byte '\x7b' :: body = text at ht
    cases ht with
    | entry hes he hname =>
        rw [← hopen] at hes
        exact (hholds _ hes).found _ ⟨_, he, hname, rfl⟩
    | item hvalues =>
        obtain hws | hitems := hvalues <;> exact absurd (List.cons.inj hopen).1 (by decide)
  · intro hsome
    obtain ⟨es, hes⟩ := exists_objectText ht
    obtain ⟨t, e, he, hname, rfl⟩ := (hholds es hes).exists_written hsome
    exact ⟨e.value, .entry hes he hname⟩

theorem holds_of_readElements (haligned : ∀ s ∈ slots, s.reader.Aligned) {body rest rest' : Bytes}
    {draft draft' : δ} (ht : WellFormed .value (byte '[' :: body))
    (hread : readElements members draft (body ++ rest) = .ok (draft', rest')) {s : Slot δ}
    (hs : s ∈ slots) (hfree : ∀ s ∈ slots, s.get draft = none) :
    s.Holds draft' fun t => Written (slots.map Slot.name) s.name t (byte '[' :: body) := by
  have hholds : ∀ values, ArrayText ItemValue values (byte '[' :: body) →
      s.Holds draft' fun t => (s.name, t) ∈ (slots.map Slot.name).zip values :=
    fun values hvalues => h.holds_of_deals (h.deals_of_readElements haligned hvalues hread)
      (fun s hs => hs) h.distinct hfree s hs
  constructor
  · intro t ht
    generalize hopen : byte '[' :: body = text at ht
    cases ht with
    | entry hes he hname =>
        obtain hws | hes := hes <;> exact absurd (List.cons.inj hopen).1 (by decide)
    | item hvalues hmem =>
        rw [← hopen] at hvalues
        exact (hholds _ hvalues).found _ hmem
  · intro hsome
    obtain ⟨values, hvalues⟩ := exists_arrayText ht
    obtain ⟨t, hmem⟩ := (hholds values hvalues).exists_written hsome
    exact ⟨t, .item hvalues hmem⟩

end Slots

/-- **Every slot of a record that has been read holds what was written under its name**, and nothing
when nothing was. -/
theorem Slots.contents {shape : Shape δ ρ} (h : Slots shape.members slots)
    (haligned : ∀ s ∈ slots, s.reader.Aligned) (hblank : ∀ s ∈ slots, s.get shape.blank = none)
    {record : ρ} {t : Bytes} (hfound : Found shape.reader record t) :
    ∃ draft, shape.finish draft = some record ∧
      ∀ s ∈ slots, s.Holds draft fun value => Written (slots.map Slot.name) s.name value t := by
  obtain ⟨ht, ws, rest, hws, -, hr⟩ := hfound
  obtain ⟨b, body, rfl, hb⟩ := ht.exists_cons
  obtain ⟨draft, rest', hfinish, hread⟩ := shape.run_cases hws hb hr
  refine ⟨draft, hfinish, fun s hs => ?_⟩
  rcases hread with ⟨rfl, hread⟩ | ⟨rfl, hread⟩
  · exact h.holds_of_readMembers haligned ht hread hs (hblank s hs)
  · exact h.holds_of_readElements haligned ht hread hs hblank

/-! ## Places -/

/-- The key of an entry with the colon behind it. -/
def keyBytes (before key colon : Bytes) : Bytes :=
  before ++ byte '"' :: (key ++ byte '"' :: (colon ++ [byte ':']))

theorem keyBytes_append (before key colon more : Bytes) : keyBytes before key colon ++ more =
    before ++ byte '"' :: (key ++ byte '"' :: (colon ++ byte ':' :: more)) := by
  simp only [keyBytes, List.append_assoc, List.cons_append, List.nil_append]

/-- What is in a record before the value of a name: the key, behind the entries before it, or the
items of the names before this one. -/
inductive Fronts (names : List String) (name : String) : Bytes → Prop
  | firstEntry {before key colon : Bytes} : Blank before → Spelled name.toList key → Blank colon →
      Fronts names name (byte '{' :: keyBytes before key colon)
  | laterEntry {es : List Entry} {t before key colon : Bytes} : EntriesText es t → Blank before →
      Spelled name.toList key → Blank colon →
      Fronts names name (byte '{' :: (t ++ byte ',' :: keyBytes before key colon))
  | firstItem : names[0]? = some name → Fronts names name [byte '[']
  | laterItem {values : List Bytes} {t : Bytes} : ItemsText ItemValue values t →
      names[values.length]? = some name → Fronts names name (byte '[' :: (t ++ [byte ',']))

/-- In a text, something stands where the value of a name must stand. What is before it is
well-formed; what is behind it may be anything, but nothing that continues a number. -/
def Stands (names : List String) (name : String) (t text : Bytes) : Prop :=
  ∃ ws front ws' rest, Blank ws ∧ Fronts names name front ∧ Blank ws' ∧ Ends rest ∧
    text = ws ++ (front ++ (ws' ++ (t ++ rest)))

namespace Slots

variable (h : Slots members slots)

include h

/-- Behind its key, the value of a slot is read. -/
theorem exists_of_readEntries {s : Slot δ} (hs : s ∈ slots) {before key colon : Bytes}
    (hbefore : Blank before) (hkey : Spelled s.name.toList key) (hcolon : Blank colon)
    {draft draft' : δ} {more rest : Bytes}
    (hr : readEntries members draft (keyBytes before key colon ++ more) = .ok (draft', rest)) :
    ∃ a r, s.reader.run more = .ok (a, r) := by
  obtain ⟨p, hr, -⟩ := bind_eq_ok_iff.1 hr
  rw [keyBytes_append] at hr
  obtain ⟨r₁, hquote, hr⟩ := bind_eq_ok_iff.1 hr
  rw [skipQuote, skipToken_append hbefore (by decide)] at hquote
  cases hquote
  obtain ⟨⟨name, r₂⟩, hname, hr⟩ := bind_eq_ok_iff.1 hr
  rw [hkey.readText] at hname
  cases hname
  dsimp only at hr
  rw [h.find? hs] at hr
  dsimp only at hr
  split at hr
  next => cases hr
  next =>
    obtain ⟨r₃, hskip, hr⟩ := bind_eq_ok_iff.1 hr
    rw [skipColon_blank hcolon] at hskip
    cases hskip
    obtain ⟨⟨put, r⟩, hput, -⟩ := bind_eq_ok_iff.1 hr
    obtain ⟨a, -, ha⟩ := Slot.exists_of_member hput
    exact ⟨a, r, ha⟩

/-- The slot of a name stands at the place of the name. -/
theorem exists_drop {s : Slot δ} (hs : s ∈ slots) {n : Nat}
    (hn : (slots.map Slot.name)[n]? = some s.name) : ∃ left, slots.drop n = s :: left := by
  rw [List.getElem?_map] at hn
  obtain ⟨s', hs', hname⟩ := Option.map_eq_some_iff.1 hn
  obtain rfl := h.eq_of_name (List.mem_of_getElem? hs') hs hname
  obtain ⟨hlt, hget⟩ := List.getElem?_eq_some_iff.1 hs'
  exact ⟨slots.drop (n + 1), by rw [List.drop_eq_getElem_cons hlt, hget]⟩

end Slots

/-- **At the place of a slot, a value of the slot is read**, if the record is read at all. -/
theorem Slots.exists_of_fronts {shape : Shape δ ρ} (h : Slots shape.members slots)
    (haligned : ∀ s ∈ slots, s.reader.Aligned) {s : Slot δ} (hs : s ∈ slots) {front : Bytes}
    (hfront : Fronts (slots.map Slot.name) s.name front) {b : UInt8} {ws ws' t rest : Bytes}
    {record : ρ} (hws : Blank ws) (hws' : Blank ws') (hb : isBlank b = false) (hne : b ≠ byte ']')
    (hr : shape.reader.run (ws ++ (front ++ (ws' ++ b :: t))) = .ok (record, rest)) :
    ∃ ws'' a r, Blank ws'' ∧ s.reader.run (ws'' ++ b :: t) = .ok (a, r) := by
  -- what is in front is read as a part of the record, and the value of the slot is next
  cases hfront with
  | firstEntry hbefore hkey hcolon =>
      rw [List.cons_append] at hr
      obtain ⟨draft, r, hread⟩ := shape.exists_members hws hr
      rw [keyBytes_append, readMembers_quote hbefore, ← keyBytes_append] at hread
      obtain ⟨a, r, ha⟩ := h.exists_of_readEntries hs hbefore hkey hcolon hread
      exact ⟨ws', a, r, hws', ha⟩
  | laterEntry hes hbefore hkey hcolon =>
      rw [List.cons_append] at hr
      obtain ⟨draft, r, hread⟩ := shape.exists_members hws hr
      rw [List.append_assoc, List.cons_append, readMembers_entries hes] at hread
      obtain ⟨draft₁, behind, -, hbehind, hread⟩ :=
        h.entersAll_of_readEntries haligned hes (ends_cons (by decide)) hread
      rw [readMoreMembers_comma hbehind] at hread
      obtain ⟨a, r, ha⟩ := h.exists_of_readEntries hs hbefore hkey hcolon hread
      exact ⟨ws', a, r, hws', ha⟩
  | firstItem hname =>
      rw [List.cons_append] at hr
      obtain ⟨draft, r, hread⟩ := shape.exists_elements hws hr
      obtain ⟨left, hleft⟩ := h.exists_drop hs hname
      obtain rfl : slots = s :: left := hleft
      rw [h.members_eq, List.map_cons, List.nil_append,
        readElements_cons (skipBlank_append_cons hws' hb _) hne] at hread
      obtain ⟨⟨put, r⟩, hput, -⟩ := bind_eq_ok_iff.1 hread
      obtain ⟨a, -, ha⟩ := Slot.exists_of_member hput
      exact ⟨[], a, r, blank_of_mem_nil, ha⟩
  | laterItem hitems hname =>
      rw [List.cons_append] at hr
      obtain ⟨draft, r, hread⟩ := shape.exists_elements hws hr
      obtain ⟨left, hleft⟩ := h.exists_drop hs hname
      rw [List.append_assoc, List.singleton_append] at hread
      obtain ⟨draft₁, behind, -, hbehind, hread⟩ :=
        h.deals_of_itemsText haligned hitems (ends_cons (by decide)) hread
      rw [hleft, List.map_cons,
        readMoreElements_comma (skipBlank_append_cons hbehind (by decide) _)] at hread
      obtain ⟨⟨put, r⟩, hput, -⟩ := bind_eq_ok_iff.1 hread
      obtain ⟨a, -, ha⟩ := Slot.exists_of_member hput
      exact ⟨ws', a, r, hws', ha⟩

/-- **A record is not read when something that is no value of a slot stands at its place.** -/
theorem Slots.decode_ne_ok [Readable ρ] {shape : Shape δ ρ} (h : Slots shape.members slots)
    (haligned : ∀ s ∈ slots, s.reader.Aligned) (hshape : Readable.reader = shape.reader)
    {s : Slot δ} (hs : s ∈ slots) {b : UInt8} {t text : Bytes} (hb : isBlank b = false)
    (hne : b ≠ byte ']') (hrefuses : Refuses s.reader (b :: t))
    (hstands : Stands (slots.map Slot.name) s.name (b :: t) text) (record : ρ) :
    decode text ≠ .ok record := by
  intro hdecode
  obtain ⟨rest', hread, -⟩ := exists_of_decode hdecode
  obtain ⟨ws, front, ws', rest, hws, hfront, hws', hrest, rfl⟩ := hstands
  rw [hshape] at hread
  obtain ⟨ws'', a, r, hws'', ha⟩ := h.exists_of_fronts haligned hs hfront hws hws' hb hne hread
  exact hrefuses ws'' rest a r hws'' hrest ha

end Records

end MailPush.Json
