import MailPush.Proofs.Json.Contents
import MailPush.Proofs.Ping.CutReplies
import MailPush.Proofs.Wire.Presentation

set_option autoImplicit false

/-! # Numbers are read exactly or refused

A status or an identity is decoded from its decimal numeral, with blanks around it, and from nothing
else. In a policy, a configuration, a response or a folder that is decoded, every number was written
as the numeral of the value that was taken, whether the record is an object or an array (`Fixes`).
What is written in another way or is out of range (`OtherNumber`) is never taken for a number that
is not there: where it stands at the place of one, the text is rejected, and a call that gets the
text as the body of a response backs off.
-/

namespace MailPush

open Json

/-! ## Scalars -/

theorem passesBlanks_int64 : int64Reader.PassesBlanks :=
  (passesBlanks_of_runToken rfl).map Int64.ofInt

theorem takes_int64 (n : Int64) : Takes int64Reader n (decimal n.toInt) :=
  (reads_int64 n).takes passesBlanks_int64

theorem readsNumerals_status :
    (Readable.reader : Reader Status).ReadsNumerals fun status => status.code.toNat :=
  readsNumerals_uint32.map fun _ => rfl

theorem readsNumerals_account :
    (Readable.reader : Reader AccountId).ReadsNumerals fun account => account.number.toInt :=
  readsNumerals_int64.map fun _ => rfl

theorem readsNumerals_folderId :
    (Readable.reader : Reader FolderId).ReadsNumerals fun id => id.number.toInt :=
  readsNumerals_int64.map fun _ => rfl

theorem decode_status_iff {text : Bytes} {status : Status} :
    decode text = .ok status ↔ strip text = decimal status.code.toNat :=
  decode_eq_ok_iff_strip readsNumerals_status.exact
    (fun status => (takes_uint32 status.code).map Status.mk) fun _ => wellFormed_decimal _

theorem decode_account_iff {text : Bytes} {account : AccountId} :
    decode text = .ok account ↔ strip text = decimal account.number.toInt :=
  decode_eq_ok_iff_strip readsNumerals_account.exact
    (fun account => (takes_int64 account.number).map AccountId.mk) fun _ => wellFormed_decimal _

theorem decode_folderId_iff {text : Bytes} {id : FolderId} :
    decode text = .ok id ↔ strip text = decimal id.number.toInt :=
  decode_eq_ok_iff_strip readsNumerals_folderId.exact
    (fun id => (takes_int64 id.number).map FolderId.mk) fun _ => wellFormed_decimal _

/-! ## Members -/

/-- What a text writes under a name is this form and nothing else, and if it writes nothing, the
standard value has been taken. -/
structure Fixes (names : List String) (text : Bytes) (name : String) (form : Bytes)
    (standard : Prop) : Prop where
  eq_form : ∀ t, Written names name t text → t = form
  of_absent : (∀ t, ¬ Written names name t text) → standard

/-- A slot with an exact reader fixes the value that a record takes from it. -/
theorem Fixes.of_holds {δ : Type} {s : Slot δ} {draft : δ} {names : List String} {text : Bytes}
    {form : s.type → Bytes} {a : s.type} {standard : Prop}
    (h : s.Holds draft fun t => Written names s.name t text) (hexact : s.reader.Exact form)
    (hform : ∀ a, WellFormed .value (form a))
    (hget : s.get draft = some a ∨ s.get draft = none ∧ standard) :
    Fixes names text s.name (form a) standard where
  eq_form t ht := by
    obtain ⟨b, hb, hfound⟩ := h.found t ht
    rcases hget with ha | ⟨hnone, -⟩
    · rw [ha] at hb
      cases hb
      exact hfound.eq_form hexact (hform a)
    · rw [hnone] at hb
      cases hb
  of_absent habsent := by
    rcases hget with ha | ⟨-, hstandard⟩
    · obtain ⟨t, ht⟩ := h.exists_written (by rw [ha]; rfl)
      exact absurd ht (habsent t)
    · exact hstandard

/-- A member that may be left out was read, or its standard value is taken. -/
theorem eq_some_or_of_getD {α : Type} {o : Option α} {a standard : α} (h : o.getD standard = a) :
    o = some a ∨ o = none ∧ a = standard := by
  cases o with
  | some b => exact .inl (congrArg some h)
  | none => exact .inr ⟨rfl, h.symm⟩

theorem wellFormed_orNull {α : Type} {form : α → Bytes} (h : ∀ a, WellFormed .value (form a)) :
    ∀ o : Option α, WellFormed .value (orNull form o)
  | none => .word (by simp)
  | some a => h a

/-! ## Policies -/

namespace Policy

/-- The names of the members of a policy, in their order. -/
def memberNames : List String :=
  ["default_secs", "min_secs", "max_secs", "max_step_secs", "request_slack_secs"]

/-- The numbers of a policy are those of a text, and standard where the text has none. -/
def NumbersIn (policy : Policy) (text : Bytes) : Prop :=
  ∀ f : Field, Fixes memberNames text f.name (decimal (policy.get f).toNat)
    (policy.get f = standard.get f)

theorem slots_blank : ∀ s ∈ slots, s.get shape.blank = none := by
  intro s hs
  obtain ⟨f, rfl⟩ := mem_slots_iff.1 hs
  cases f <;> rfl

theorem get_of_finish {draft : Draft} {policy : Policy} (h : shape.finish draft = some policy)
    (f : Field) : (draft.get f).getD (standard.get f) = policy.get f := by
  cases h
  cases f <;> rfl

theorem numbersIn_of_found {policy : Policy} {t : Bytes}
    (h : Found (Readable.reader : Reader Policy) policy t) : policy.NumbersIn t := by
  obtain ⟨draft, hfinish, hholds⟩ := slots_shape.contents aligned_slots slots_blank h
  intro f
  exact .of_holds (hholds f.slot (mem_slots_iff.2 ⟨f, rfl⟩)) readsNumerals_uint64.exact
    (fun _ => wellFormed_decimal _) (eq_some_or_of_getD (get_of_finish hfinish f))

theorem numbersIn_of_decode {text : Bytes} {policy : Policy}
    (h : decode text = .ok policy) : policy.NumbersIn (strip text) :=
  numbersIn_of_found (found_of_decode (slots_shape.aligned aligned_slots) h)

end Policy

/-! ## Configurations -/

namespace PushConfig

/-- The numbers of a configuration are those of the policy in a text, and standard where the text
has none. -/
structure NumbersIn (config : PushConfig) (text : Bytes) : Prop where
  heartbeat : ∀ t, Written ["heartbeat"] "heartbeat" t text → config.heartbeat.NumbersIn t
  of_absent : (∀ t, ¬ Written ["heartbeat"] "heartbeat" t text) → config.heartbeat = .standard

theorem numbersIn_of_found {config : PushConfig} {t : Bytes}
    (h : Found (Readable.reader : Reader PushConfig) config t) : config.NumbersIn t := by
  obtain ⟨⟨heartbeat⟩, hfinish, hholds⟩ :=
    slots_shape.contents aligned_slots (by simp [slots, shape]) h
  obtain ⟨hfound, hexists⟩ := hholds _ List.mem_cons_self
  cases hfinish
  constructor
  · intro t ht
    obtain ⟨policy, hget, hpolicy⟩ := hfound t ht
    obtain rfl : heartbeat = some policy := hget
    exact Policy.numbersIn_of_found hpolicy
  · intro habsent
    cases heartbeat with
    | none => rfl
    | some policy =>
        obtain ⟨t, ht⟩ := hexists rfl
        exact absurd ht (habsent t)

theorem numbersIn_of_decode {text : Bytes} {config : PushConfig}
    (h : decode text = .ok config) : config.NumbersIn (strip text) :=
  numbersIn_of_found (found_of_decode (slots_shape.aligned aligned_slots) h)

end PushConfig

/-! ## Responses -/

namespace Response

/-- The numbers of a response are those of a text, and absent where the text has `null` or none;
a status must be there. -/
structure NumbersIn (r : Response) (text : Bytes) : Prop where
  status : Fixes fieldNames text "status" (decimal r.status.code.toNat) False
  heartbeatInterval : Fixes fieldNames text "heartbeat_interval"
    (orNull (fun n : UInt64 => decimal n.toNat) r.heartbeatInterval) (r.heartbeatInterval = none)
  maxFolders : Fixes fieldNames text "max_folders"
    (orNull (fun n : UInt32 => decimal n.toNat) r.maxFolders) (r.maxFolders = none)

theorem finish_eq_some {draft : Draft} {r : Response} (h : shape.finish draft = some r) :
    draft.status = some r.status ∧ draft.heartbeatInterval.getD none = r.heartbeatInterval ∧
      draft.maxFolders.getD none = r.maxFolders := by
  obtain ⟨status, folders, heartbeatInterval, maxFolders⟩ := draft
  cases status with
  | none => cases h
  | some status =>
      cases h
      exact ⟨rfl, rfl, rfl⟩

theorem numbersIn_of_found {r : Response} {t : Bytes}
    (h : Found (Readable.reader : Reader Response) r t) : r.NumbersIn t := by
  obtain ⟨draft, hfinish, hholds⟩ := slots_shape.contents aligned_slots slots_blank h
  obtain ⟨hstatus, hheartbeat, hmax⟩ := finish_eq_some hfinish
  refine ⟨?_, ?_, ?_⟩
  · exact .of_holds (hholds _ List.mem_cons_self) readsNumerals_status.exact
      (fun _ => wellFormed_decimal _) (.inl hstatus)
  · exact .of_holds (hholds _ (.tail _ (.tail _ List.mem_cons_self)))
      (exact_option readsNumerals_uint64.exact) (wellFormed_orNull fun _ => wellFormed_decimal _)
      (eq_some_or_of_getD hheartbeat)
  · exact .of_holds (hholds _ (.tail _ (.tail _ (.tail _ List.mem_cons_self))))
      (exact_option readsNumerals_uint32.exact) (wellFormed_orNull fun _ => wellFormed_decimal _)
      (eq_some_or_of_getD hmax)

theorem numbersIn_of_decode {text : Bytes} {r : Response}
    (h : decode text = .ok r) : r.NumbersIn (strip text) :=
  numbersIn_of_found (found_of_decode (slots_shape.aligned aligned_slots) h)

end Response

/-! ## Folders -/

namespace Folder

/-- The names of the members of a folder, in their order. -/
def memberNames : List String :=
  ["id", "server_id", "class", "has_completed_initial_sync", "auto_sync_enabled"]

/-- The identity of a folder is the one in a text, which must be there. -/
def NumbersIn (folder : Folder) (text : Bytes) : Prop :=
  Fixes memberNames text "id" (decimal folder.id.number.toInt) False

/-- The parts of a draft. -/
def slots : List (Slot Draft) :=
  [⟨FolderId, "id", Readable.reader, (·.id), fun v d => { d with id := some v }⟩,
   ⟨String, "server_id", Readable.reader, (·.serverId), fun v d => { d with serverId := some v }⟩,
   ⟨FolderClass, "class", Readable.reader, (·.folderClass),
     fun v d => { d with folderClass := some v }⟩,
   ⟨Bool, "has_completed_initial_sync", Readable.reader, (·.hasCompletedInitialSync),
     fun v d => { d with hasCompletedInitialSync := some v }⟩,
   ⟨Bool, "auto_sync_enabled", Readable.reader, (·.autoSyncEnabled),
     fun v d => { d with autoSyncEnabled := some v }⟩]

theorem slots_shape : Slots shape.members slots where
  members_eq := rfl
  distinct := by decide
  get_put := by simp [slots]
  get_put_of_ne := by simp [slots]
  ext := by
    rintro ⟨i, s, c, h, a⟩ ⟨i', s', c', h', a'⟩ hget
    simpa [slots] using hget

theorem slots_blank : ∀ s ∈ slots, s.get shape.blank = none := by
  simp [slots, shape]

theorem aligned_slots : ∀ s ∈ slots, s.reader.Aligned := by
  intro s hs
  simp only [slots, List.mem_cons, List.not_mem_nil, or_false] at hs
  rcases hs with rfl | rfl | rfl | rfl | rfl
  · exact ((aligned_number _).map _).map _
  · exact aligned_text
  · exact aligned_name _
  · exact aligned_bool
  · exact aligned_bool

theorem id_of_finish {draft : Draft} {folder : Folder} (h : shape.finish draft = some folder) :
    draft.id = some folder.id := by
  obtain ⟨id, serverId, folderClass, synced, enabled⟩ := draft
  cases id <;> cases serverId <;> cases folderClass <;> cases synced <;> cases enabled <;> cases h
  rfl

theorem numbersIn_of_found {folder : Folder} {t : Bytes}
    (h : Found (Readable.reader : Reader Folder) folder t) : folder.NumbersIn t := by
  obtain ⟨draft, hfinish, hholds⟩ := slots_shape.contents aligned_slots slots_blank h
  exact .of_holds (hholds _ List.mem_cons_self) readsNumerals_folderId.exact
    (fun _ => wellFormed_decimal _) (.inl (id_of_finish hfinish))

theorem numbersIn_of_decode {text : Bytes} {folder : Folder}
    (h : decode text = .ok folder) : folder.NumbersIn (strip text) :=
  numbersIn_of_found (found_of_decode (slots_shape.aligned aligned_slots) h)

end Folder

/-! ## Other numbers -/

/-- A text is decoded as no value of a type. -/
def Rejected (α : Type) [Readable α] (text : Bytes) : Prop :=
  ∃ fault, (decode text : Except Fault α) = .error fault

theorem rejected_of_ne_ok {α : Type} [Readable α] {text : Bytes}
    (h : ∀ a : α, decode text ≠ .ok a) : Rejected α text := by
  cases hdecode : (decode text : Except Fault α) with
  | error fault => exact ⟨fault, hdecode⟩
  | ok a => exact absurd hdecode (h a)

theorem rejected_of_refuses {α : Type} [Readable α] {text : Bytes}
    (h : Refuses (Readable.reader : Reader α) (strip text)) : Rejected α text := by
  obtain ⟨ws, ws', hws, hws', heq⟩ := exists_strip text
  rw [heq]
  exact decode_of_refuses h hws hws'

/-- A record is rejected when another number stands at the place of a slot that does not take it. -/
theorem rejected_of_stands {δ ρ : Type} [Readable ρ] {shape : Shape δ ρ} {slots : List (Slot δ)}
    (h : Slots shape.members slots) (haligned : ∀ s ∈ slots, s.reader.Aligned)
    (hshape : Readable.reader = shape.reader) {s : Slot δ} (hs : s ∈ slots) {lo hi : Int}
    {t text : Bytes} (hother : OtherNumber lo hi t) (hrefuses : Refuses s.reader t)
    (hstands : Stands (slots.map Slot.name) s.name t text) : Rejected ρ text := by
  obtain ⟨b, t', rfl, hb, hne, -⟩ := hother.exists_cons
  exact rejected_of_ne_ok (h.decode_ne_ok haligned hshape hs hb hne hrefuses hstands)

theorem refuses_uint32 {t : Bytes} (h : OtherNumber 0 4294967295 t) : Refuses uint32Reader t :=
  h.refuses readsNumerals_uint32 fun n => by
    have hn := n.toNat_lt
    omega

theorem refuses_uint64 {t : Bytes} (h : OtherNumber 0 18446744073709551615 t) :
    Refuses uint64Reader t :=
  h.refuses readsNumerals_uint64 fun n => by
    have hn := n.toNat_lt
    omega

theorem refuses_int64 {t : Bytes}
    (h : OtherNumber (-9223372036854775808) 9223372036854775807 t) : Refuses int64Reader t :=
  h.refuses readsNumerals_int64 fun n => by
    have hlo := n.le_toInt
    have hhi := n.toInt_lt
    omega

theorem Policy.rejected_of_stands {f : Policy.Field} {t text : Bytes}
    (hstands : Stands Policy.memberNames f.name t text)
    (hother : OtherNumber 0 18446744073709551615 t) : Rejected Policy text :=
  MailPush.rejected_of_stands slots_shape aligned_slots rfl (mem_slots_iff.2 ⟨f, rfl⟩) hother
    (refuses_uint64 hother) hstands

theorem Folder.rejected_of_stands {t text : Bytes} (hstands : Stands Folder.memberNames "id" t text)
    (hother : OtherNumber (-9223372036854775808) 9223372036854775807 t) : Rejected Folder text :=
  MailPush.rejected_of_stands slots_shape aligned_slots rfl List.mem_cons_self hother
    ((refuses_int64 hother).map FolderId.mk) hstands

namespace Response

/-- At the place of a number in a text stands another one, which no response can have. -/
def OtherNumberIn (text : Bytes) : Prop :=
  ∃ t, (Stands fieldNames "status" t text ∨ Stands fieldNames "max_folders" t text) ∧
      OtherNumber 0 4294967295 t ∨
    Stands fieldNames "heartbeat_interval" t text ∧ OtherNumber 0 18446744073709551615 t

theorem rejected_of_otherNumberIn {text : Bytes} (h : OtherNumberIn text) :
    Rejected Response text := by
  obtain ⟨t, ⟨hstands | hstands, hother⟩ | ⟨hstands, hother⟩⟩ := h
  · exact rejected_of_stands slots_shape aligned_slots rfl List.mem_cons_self hother
      ((refuses_uint32 hother).map Status.mk) hstands
  · exact rejected_of_stands slots_shape aligned_slots rfl
      (.tail _ (.tail _ (.tail _ List.mem_cons_self))) hother
      (hother.refuses_option (refuses_uint32 hother)) hstands
  · exact rejected_of_stands slots_shape aligned_slots rfl (.tail _ (.tail _ List.mem_cons_self))
      hother (hother.refuses_option (refuses_uint64 hother)) hstands

theorem OtherNumberIn.ne_nil {text : Bytes} (h : OtherNumberIn text) : text ≠ [] := by
  have hstands : ∀ {name t}, Stands fieldNames name t text → text ≠ [] := by
    rintro name t ⟨ws, front, ws', rest, -, hfront, -, -, rfl⟩ hnil
    have hfront' := (List.append_eq_nil_iff.1 (List.append_eq_nil_iff.1 hnil).2).1
    cases hfront <;> cases hfront'
  obtain ⟨t, ⟨h | h, -⟩ | ⟨h, -⟩⟩ := h <;> exact hstands h

end Response

/-- A call whose body has another number at the place of one backs off. -/
theorem Ping.backsOff_of_otherNumberIn {σ : Type} {env : Collaborators σ} {ping : Ping}
    {x : Exchange} {world : σ} {folders : List Folder} {request : Request}
    {payload body : Bytes} (hcodec : env.codec = Codec.json)
    (hprep : Ping.Prepared env ping world folders request payload)
    (hreply : x.ending ping.heartbeat.timeout = .replied (.ok body))
    (h : Response.OtherNumberIn body) : ∃ fault : Fault,
      Ping.BacksOff env ping x world
        (.unusable ("Failed to decode response: " ++ fault.category)) := by
  obtain ⟨fault, hfault⟩ := Response.rejected_of_otherNumberIn h
  have hdecode : env.codec.decode body = .error (.decode fault.category) := by
    rw [hcodec, Codec.json_of_fault hfault]
  exact ⟨fault, Ping.backsOff_of_unusable hprep hreply h.ne_nil hdecode⟩

/-- **Numbers are read exactly or refused.** A status, an account or a folder id is decoded from its
decimal numeral with blanks around it and from nothing else. Every number in a policy, a
configuration, a response or a folder that is decoded is written as the numeral of the value taken.
A text is rejected when a number is written in another way or is out of range, and a call whose body
is such a text fails and backs off. -/
theorem numbers_exact :
    (∀ text : Bytes,
      (∀ status : Status, decode text = .ok status ↔ strip text = decimal status.code.toNat) ∧
      (∀ account : AccountId,
        decode text = .ok account ↔ strip text = decimal account.number.toInt) ∧
      (∀ id : FolderId, decode text = .ok id ↔ strip text = decimal id.number.toInt)) ∧
    (∀ text : Bytes,
      (∀ policy : Policy, decode text = .ok policy → policy.NumbersIn (strip text)) ∧
      (∀ config : PushConfig, decode text = .ok config → config.NumbersIn (strip text)) ∧
      (∀ response : Response, decode text = .ok response → response.NumbersIn (strip text)) ∧
      (∀ folder : Folder, decode text = .ok folder → folder.NumbersIn (strip text))) ∧
    (∀ text : Bytes,
      (OtherNumber 0 4294967295 (strip text) → Rejected Status text) ∧
      (OtherNumber (-9223372036854775808) 9223372036854775807 (strip text) →
        Rejected AccountId text ∧ Rejected FolderId text) ∧
      (∀ (f : Policy.Field) (t : Bytes), Stands Policy.memberNames f.name t text →
        OtherNumber 0 18446744073709551615 t → Rejected Policy text) ∧
      (∀ t : Bytes, Stands Folder.memberNames "id" t text →
        OtherNumber (-9223372036854775808) 9223372036854775807 t → Rejected Folder text) ∧
      (Response.OtherNumberIn text → Rejected Response text ∧
        ∀ {σ : Type} (env : Collaborators σ) (ping : Ping) (x : Exchange) (world : σ)
          (folders : List Folder) (request : Request) (payload : Bytes),
          env.codec = Codec.json → Ping.Prepared env ping world folders request payload →
          x.ending ping.heartbeat.timeout = .replied (.ok text) →
          ∃ fault : Fault, Ping.BacksOff env ping x world
            (.unusable ("Failed to decode response: " ++ fault.category)))) := by
  refine ⟨fun text => ⟨fun _ => decode_status_iff, fun _ => decode_account_iff,
    fun _ => decode_folderId_iff⟩, fun text => ⟨fun _ => Policy.numbersIn_of_decode,
    fun _ => PushConfig.numbersIn_of_decode, fun _ => Response.numbersIn_of_decode,
    fun _ => Folder.numbersIn_of_decode⟩, fun text => ⟨?_, ?_, ?_, ?_, ?_⟩⟩
  · exact fun hother => rejected_of_refuses ((refuses_uint32 hother).map Status.mk)
  · exact fun hother => ⟨rejected_of_refuses ((refuses_int64 hother).map AccountId.mk),
      rejected_of_refuses ((refuses_int64 hother).map FolderId.mk)⟩
  · exact fun f t => Policy.rejected_of_stands
  · exact fun t => Folder.rejected_of_stands
  · exact fun hother => ⟨Response.rejected_of_otherNumberIn hother,
      fun env ping x world folders request payload hcodec hprep hreply =>
        Ping.backsOff_of_otherNumberIn hcodec hprep hreply hother⟩

/-- Something stands in the first entry of an object, without blanks. -/
theorem stands_entry {names : List String} {name : String} {t rest text : Bytes}
    (hname : ∀ c ∈ name.toList, c ≠ '"' ∧ c ≠ '\\' ∧ ¬ c < ' ') (hrest : Ends rest)
    (htext : text = byte '\x7b' :: (keyBytes [] (utf8 name.toList) [] ++ (t ++ rest))) :
    Stands names name t text :=
  ⟨[], _, [], rest, blank_of_mem_nil, .firstEntry blank_of_mem_nil (spelled_utf8 hname)
    blank_of_mem_nil, blank_of_mem_nil, hrest, htext⟩

/-- The largest status and the least account with blanks around them, records with numbers that are
taken, and the numbers next to them that are not: zero with a minus sign, a zero too many, a plus
sign, and a status that is too large by one. -/
theorem numbers_exact_at_limits :
    let env := Scripted.collaborators Codec.json
    let ping : Ping := ⟨⟨1⟩, ⟨.standard, 900⟩⟩
    let body := bytesOf "\x7b\"status\":4294967296\x7d"
    decode (bytesOf " 4294967295\n") = .ok (Status.mk 4294967295) ∧
    decode (bytesOf "-9223372036854775808 ") = .ok (AccountId.mk Int64.minValue) ∧
    Policy.NumbersIn { Policy.standard with maxSecs := 900 }
      (strip (bytesOf "\x7b\"max_secs\":900\x7d")) ∧
    (Response.mk ⟨5⟩ [] (some 480) none).NumbersIn (strip (bytesOf "[5,[],480]")) ∧
    Rejected Status (bytesOf "-0") ∧
    Rejected AccountId (bytesOf "9223372036854775808") ∧
    Rejected Policy (bytesOf "\x7b\"max_secs\":0900\x7d") ∧
    Rejected Folder (bytesOf "[+1") ∧
    Rejected Response body ∧
    ∃ fault : Fault, Ping.BacksOff env ping ⟨.ok body, some .zero, none⟩ (Ping.watching none)
      (.unusable ("Failed to decode response: " ++ fault.category)) := by
  intro env ping body
  obtain ⟨hscalars, hrecords, hothers⟩ := numbers_exact
  have hprep : Ping.Prepared env ping (Ping.watching none)
      [⟨⟨1⟩, "inbox", .email, true, true⟩] _ _ := ⟨rfl, rfl, rfl⟩
  have hends : Ends [byte '}'] := ends_cons (by decide)
  have hbody : Response.OtherNumberIn body :=
    ⟨decimal 4294967296, .inl ⟨.inl (stands_entry (by simp) hends (by decide +kernel)),
      .outside (by decide)⟩⟩
  have hpolicy : Stands Policy.memberNames "max_secs" (bytesOf "0900")
      (bytesOf "\x7b\"max_secs\":0900\x7d") := stands_entry (by simp) hends (by decide)
  have hfolder : Stands Folder.memberNames "id" (bytesOf "+1") (bytesOf "[+1") :=
    ⟨[], _, [], [], blank_of_mem_nil, .firstItem rfl, blank_of_mem_nil, ends_nil, rfl⟩
  have hzero : OtherNumber 0 4294967295 (strip (bytesOf "-0")) := .negativeZero
  have hbeyond : strip (bytesOf "9223372036854775808") = decimal 9223372036854775808 := by
    decide +kernel
  refine ⟨?_, ?_, ?_, ?_, ?_, ?_, ?_, ?_, ?_, ?_⟩
  · exact ((hscalars _).1 _).2 (by decide +kernel)
  · exact ((hscalars _).2.1 _).2 (by decide +kernel)
  · exact (hrecords _).1 _ (by decide +kernel)
  · exact (hrecords _).2.2.1 _ (by decide +kernel)
  · exact (hothers _).1 hzero
  · exact ((hothers _).2.1 (hbeyond ▸ .outside (by decide))).1
  · exact (hothers _).2.2.1 .maxSecs _ hpolicy (.leadingZero (.inl rfl) (by decide))
  · exact (hothers _).2.2.2.1 _ hfolder .plus
  · exact ((hothers _).2.2.2.2 hbody).1
  · exact ((hothers _).2.2.2.2 hbody).2 env ping _ _ _ _ _ rfl hprep (Ping.ending_at_once _ _)

end MailPush
