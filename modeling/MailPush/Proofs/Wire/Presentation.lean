import MailPush.Proofs.Json.Slots
import MailPush.Proofs.Ping.Calls
import MailPush.Proofs.Wire.RoundTrip

set_option autoImplicit false

/-! # Presentations

A response, a policy or a configuration can be presented as an object in many ways: with its fields
in any order, with blanks between the tokens, without a field that has its standard value, with
entries of other names. These names must be texts; the escapes of a key need not spell one.

All presentations of a value are decoded to it, and a call that gets one of them runs as with any
other. An object in which a field is repeated is none of them and is rejected.
-/

namespace MailPush

open Json

/-! ## Numbers and texts -/

theorem passesBlanks_uint32 : uint32Reader.PassesBlanks :=
  (passesBlanks_of_runToken rfl).map UInt32.ofNat

theorem passesBlanks_uint64 : uint64Reader.PassesBlanks :=
  (passesBlanks_of_runToken rfl).map UInt64.ofNat

theorem takes_uint32 (n : UInt32) : Takes uint32Reader n (numeral n.toNat) :=
  (reads_uint32 n).takes passesBlanks_uint32

theorem takes_uint64 (n : UInt64) : Takes uint64Reader n (numeral n.toNat) :=
  (reads_uint64 n).takes passesBlanks_uint64

/-- A string is read as the text that it spells. -/
theorem takes_quoted {text : String} {t : Bytes} (h : Quoted text t) : Takes textReader text t := by
  obtain ⟨key, hkey, rfl⟩ := h
  intro ws rest hws hrest
  show Reader.runToken _ (ws ++ (byte '"' :: (key ++ [byte '"']) ++ rest)) = _
  rw [runToken_blank hws, List.cons_append, runToken_cons (by decide), if_pos rfl,
    List.append_assoc]
  exact hkey.readText rest

theorem takes_texts {texts : List String} {t : Bytes} (h : ArrayText Quoted texts t) :
    Takes (listReader textReader) texts t := by
  refine takes_array (fun text t => takes_quoted) (fun text t hquoted => ?_)
    (passesBlanks_of_runToken rfl) h
  obtain ⟨key, -, rfl⟩ := hquoted
  exact starts_cons _ (by decide) (by decide)

theorem takes_null {α : Type} (r : Reader α) :
    Takes (optionReader r) none (utf8 "null".toList) :=
  delimits_none.reads.takes (passesBlanks_of_runToken rfl)

theorem takes_present {α : Type} {r : Reader α} {n : Nat} {a : α} (h : Reads r.run (numeral n) a) :
    Takes (optionReader r) (some a) (numeral n) :=
  (reads_present_numeral h).takes (passesBlanks_of_runToken rfl)

/-! ## Presentations of a response -/

/-- A number that may be absent is given, or it is absent and written as `null` or not at all. -/
def GivenOption (name : String) (n : Option Nat) (es : List Entry) : Prop :=
  match n with
  | some n => Given name (· = numeral n) es
  | none => Given name (· = utf8 "null".toList) es ∨ Omitted name es

namespace Response

/-- The fields of a response are those that the entries give. -/
structure Presents (r : Response) (es : List Entry) : Prop where
  status : Given "status" (· = numeral r.status.code.toNat) es
  folders : Given "folders" (ArrayText Quoted r.folders) es ∨ Omitted "folders" es ∧ r.folders = []
  heartbeatInterval : GivenOption "heartbeat_interval" (r.heartbeatInterval.map UInt64.toNat) es
  maxFolders : GivenOption "max_folders" (r.maxFolders.map UInt32.toNat) es

/-- A text presents a response: it is an object with entries that give its fields, and the names of
all entries are texts. -/
def PresentedBy (r : Response) (text : Bytes) : Prop :=
  ∃ es, r.Presents es ∧ AllNamed es ∧ Document es text

/-- The names of the fields of a response. -/
def fieldNames : List String := ["status", "folders", "heartbeat_interval", "max_folders"]

/-- The parts of a draft. -/
def slots : List (Slot Draft) :=
  [⟨Status, "status", Readable.reader, (·.status), fun v d => { d with status := some v }⟩,
   ⟨List String, "folders", Readable.reader, (·.folders), fun v d => { d with folders := some v }⟩,
   ⟨Option UInt64, "heartbeat_interval", Readable.reader, (·.heartbeatInterval),
     fun v d => { d with heartbeatInterval := some v }⟩,
   ⟨Option UInt32, "max_folders", Readable.reader, (·.maxFolders),
     fun v d => { d with maxFolders := some v }⟩]

theorem slots_shape : Slots shape.members slots where
  members_eq := rfl
  distinct := by decide
  get_put := by simp [slots]
  get_put_of_ne := by simp [slots]
  ext := by
    rintro ⟨s, f, h, m⟩ ⟨s', f', h', m'⟩ hget
    simpa [slots] using hget

theorem slots_blank : ∀ s ∈ slots, s.get shape.blank = none := by
  simp [slots, shape]

theorem aligned_slots : ∀ s ∈ slots, s.reader.Aligned := by
  intro s hs
  simp only [slots, List.mem_cons, List.not_mem_nil, or_false] at hs
  rcases hs with rfl | rfl | rfl | rfl
  · exact ((aligned_number _).map _).map _
  · exact aligned_list aligned_text
  · exact aligned_option ((aligned_number _).map _)
  · exact aligned_option ((aligned_number _).map _)

end Response

/-- What the entries give of a field that may be left out. -/
theorem gives_of_given {α : Type} {name : String} {r : Reader α} {kind : Bytes → Prop} {a std : α}
    {es : List Entry} (htakes : ∀ t, kind t → Takes r a t)
    (h : Given name kind es ∨ Omitted name es ∧ a = std) :
    ∃ v : Option α, v.getD std = a ∧ Gives name r es v := by
  rcases h with hgiven | ⟨homitted, heq⟩
  · exact ⟨some a, rfl, hgiven.imp htakes⟩
  · exact ⟨none, heq.symm, homitted⟩

theorem gives_of_givenOption {α : Type} {name : String} {r : Reader α} {toNat : α → Nat}
    {o : Option α} {es : List Entry} (hreads : ∀ a, Reads r.run (numeral (toNat a)) a)
    (h : GivenOption name (o.map toNat) es) :
    ∃ v : Option (Option α), v.getD none = o ∧ Gives name (optionReader r) es v := by
  cases o with
  | some a =>
      refine gives_of_given (fun t ht => ?_) (.inl h)
      rw [ht]
      exact takes_present (hreads a)
  | none =>
      refine gives_of_given (fun t ht => ?_) (h.imp_right fun homitted => ⟨homitted, rfl⟩)
      rw [ht]
      exact takes_null r

/-- **A response is read from every object whose entries give its fields.** -/
theorem Response.Presents.takes {r : Response} {es : List Entry} (h : r.Presents es)
    (hnamed : AllNamed es) {t : Bytes} (ht : ObjectText es t) : Takes shape.reader r t := by
  obtain ⟨status, folders, heartbeatInterval, maxFolders⟩ := r
  obtain ⟨hstatus, hfolders, hheartbeat, hmax⟩ := h
  obtain ⟨v₁, rfl, hfolders'⟩ := gives_of_given (fun t => takes_texts) hfolders
  obtain ⟨v₂, rfl, hheartbeat'⟩ := gives_of_givenOption reads_uint64 hheartbeat
  obtain ⟨v₃, rfl, hmax'⟩ := gives_of_givenOption reads_uint32 hmax
  have hstatus' : Gives "status" (Readable.reader : Reader Status) es (some status) := by
    refine hstatus.imp fun t ht => ?_
    rw [ht]
    exact (takes_uint32 status.code).map Status.mk
  refine slots_shape.takes ⟨some status, v₁, v₂, v₃⟩ slots_blank ?_ rfl hnamed ht
  intro s hs
  simp only [slots, List.mem_cons, List.not_mem_nil, or_false] at hs
  rcases hs with rfl | rfl | rfl | rfl
  · exact hstatus'
  · exact hfolders'
  · exact hheartbeat'
  · exact hmax'

/-! ## Presentations of a policy -/

namespace Policy

/-- The value of a member. -/
def get (policy : Policy) : Field → UInt64
  | .defaultSecs => policy.defaultSecs
  | .minSecs => policy.minSecs
  | .maxSecs => policy.maxSecs
  | .maxStepSecs => policy.maxStepSecs
  | .requestSlackSecs => policy.requestSlackSecs

/-- The members of a policy are those that the entries give, and standard where they give none. -/
def Presents (policy : Policy) (es : List Entry) : Prop :=
  ∀ f : Field, Given f.name (· = numeral (policy.get f).toNat) es ∨
    Omitted f.name es ∧ policy.get f = standard.get f

/-- A text presents a policy. -/
def PresentedBy (policy : Policy) (text : Bytes) : Prop :=
  ∃ es, policy.Presents es ∧ AllNamed es ∧ Document es text

/-- The part of a draft that holds a member. -/
def Field.slot (f : Field) : Slot Draft :=
  ⟨UInt64, f.name, Readable.reader, (·.get f), fun v draft => draft.set ⟨f, v⟩⟩

/-- The parts of a draft. -/
def slots : List (Slot Draft) :=
  [Field.defaultSecs, .minSecs, .maxSecs, .maxStepSecs, .requestSlackSecs].map Field.slot

theorem mem_slots_iff {s : Slot Draft} : s ∈ slots ↔ ∃ f : Field, f.slot = s := by
  rw [slots, List.mem_map]
  refine exists_congr fun f => and_iff_right ?_
  cases f <;> decide

theorem slots_shape : Slots shape.members slots where
  members_eq := rfl
  distinct := by decide
  get_put s hs v draft := by
    obtain ⟨f, rfl⟩ := mem_slots_iff.1 hs
    cases f <;> rfl
  get_put_of_ne s hs s' hs' hne v draft := by
    obtain ⟨f, rfl⟩ := mem_slots_iff.1 hs
    obtain ⟨f', rfl⟩ := mem_slots_iff.1 hs'
    exact Draft.get_set fun hf => hne (congrArg Field.name hf)
  ext draft draft' hget := by
    have hfield : ∀ f : Field, draft.get f = draft'.get f := fun f =>
      hget f.slot (mem_slots_iff.2 ⟨f, rfl⟩)
    cases draft
    cases draft'
    congr
    · exact hfield .defaultSecs
    · exact hfield .minSecs
    · exact hfield .maxSecs
    · exact hfield .maxStepSecs
    · exact hfield .requestSlackSecs

theorem aligned_slots : ∀ s ∈ slots, s.reader.Aligned := by
  intro s hs
  obtain ⟨f, rfl⟩ := mem_slots_iff.1 hs
  exact (aligned_number _).map _

/-- **A policy is read from every object whose entries give its members.** -/
theorem Presents.takes {policy : Policy} {es : List Entry} (h : policy.Presents es)
    (hnamed : AllNamed es) {t : Bytes} (ht : ObjectText es t) : Takes shape.reader policy t := by
  have hgives : ∀ f : Field, ∃ v : Option UInt64,
      v.getD (standard.get f) = policy.get f ∧ Gives f.name uint64Reader es v := by
    intro f
    refine gives_of_given (fun t ht => ?_) (h f)
    rw [ht]
    exact takes_uint64 _
  choose v hv hgives using hgives
  let draft : Draft := ⟨v .defaultSecs, v .minSecs, v .maxSecs, v .maxStepSecs, v .requestSlackSecs⟩
  have hget : ∀ f : Field, draft.get f = v f := fun f => by cases f <;> rfl
  have hfinish : shape.finish draft = some policy := by
    obtain ⟨d, lo, hi, step, slack⟩ := policy
    show some (Policy.mk _ _ _ _ _) = _
    congr
    · exact hv .defaultSecs
    · exact hv .minSecs
    · exact hv .maxSecs
    · exact hv .maxStepSecs
    · exact hv .requestSlackSecs
  refine slots_shape.takes draft ?_ ?_ hfinish hnamed ht
  · intro s hs
    obtain ⟨f, rfl⟩ := mem_slots_iff.1 hs
    cases f <;> rfl
  · intro s hs
    obtain ⟨f, rfl⟩ := mem_slots_iff.1 hs
    show Gives f.name uint64Reader es (draft.get f)
    rw [hget]
    exact hgives f

/-- A policy is not read from an object in which a member is repeated. -/
theorem refuses_repeated {es : List Entry} {t : Bytes} {f : Field} (ht : ObjectText es t)
    (h : Repeated f.name es) : Refuses shape.reader t :=
  slots_shape.refuses_repeated aligned_slots ht (mem_slots_iff.2 ⟨f, rfl⟩) h

end Policy

/-! ## Presentations of a configuration -/

namespace PushConfig

/-- The policy of a configuration is the one that the entries present, and the standard one when
they present none. -/
def Presents (config : PushConfig) (es : List Entry) : Prop :=
  Given "heartbeat" (fun t => ∃ es', config.heartbeat.Presents es' ∧ AllNamed es' ∧
    ObjectText es' t) es ∨ Omitted "heartbeat" es ∧ config.heartbeat = .standard

/-- A text presents a configuration. -/
def PresentedBy (config : PushConfig) (text : Bytes) : Prop :=
  ∃ es, config.Presents es ∧ AllNamed es ∧ Document es text

/-- The one part of a draft. -/
def slots : List (Slot Draft) :=
  [⟨Policy, "heartbeat", Readable.reader, (·.heartbeat), fun v _ => ⟨some v⟩⟩]

theorem slots_shape : Slots shape.members slots where
  members_eq := rfl
  distinct := by decide
  get_put := by simp [slots]
  get_put_of_ne := by simp [slots]
  ext := by
    rintro ⟨p⟩ ⟨p'⟩ hget
    simpa [slots] using hget

theorem aligned_slots : ∀ s ∈ slots, s.reader.Aligned := by
  intro s hs
  rw [List.mem_singleton.1 hs]
  exact Policy.slots_shape.aligned Policy.aligned_slots

/-- **A configuration is read from every object that presents its policy.** -/
theorem Presents.takes {config : PushConfig} {es : List Entry} (h : config.Presents es)
    (hnamed : AllNamed es) {t : Bytes} (ht : ObjectText es t) : Takes shape.reader config t := by
  obtain ⟨policy⟩ := config
  obtain ⟨v, rfl, hgives⟩ := gives_of_given
    (fun t ⟨es', hpolicy, hnamed', ht'⟩ => hpolicy.takes hnamed' ht') h
  refine slots_shape.takes ⟨v⟩ (by simp [slots, shape]) ?_ rfl hnamed ht
  intro s hs
  rw [List.mem_singleton.1 hs]
  exact hgives

end PushConfig

/-! ## Calls that get a presentation -/

/-- What an exchange yields depends on its reply by what is received from it. -/
theorem Exchange.received?_congr {codec : Codec} {reply reply' : Except TransportError Bytes}
    (h : Ping.receive codec reply = Ping.receive codec reply')
    (replyAfter cancelAfter : Option Span) (deadline : Span) :
    (Exchange.mk reply replyAfter cancelAfter).received? codec deadline =
      (Exchange.mk reply' replyAfter cancelAfter).received? codec deadline := by
  -- neither who gives up nor who is late depends on the reply
  have hcancels : (Exchange.mk reply replyAfter cancelAfter).cancelsBy deadline =
      (Exchange.mk reply' replyAfter cancelAfter).cancelsBy deadline := rfl
  have hreplies : (Exchange.mk reply replyAfter cancelAfter).repliesBy deadline =
      (Exchange.mk reply' replyAfter cancelAfter).repliesBy deadline := rfl
  rw [received?, received?, ending, ending, hcancels, hreplies]
  by_cases hcancel : (Exchange.mk reply' replyAfter cancelAfter).cancelsBy deadline = true
  · rw [if_pos hcancel, if_pos hcancel]
  · rw [if_neg hcancel, if_neg hcancel]
    by_cases hreply : (Exchange.mk reply' replyAfter cancelAfter).repliesBy deadline = true
    · rw [if_pos hreply, if_pos hreply]
      exact congrArg some h
    · rw [if_neg hreply, if_neg hreply]

namespace Ping

variable {σ : Type} {env : Collaborators σ}

/-- A call depends on its reply by what is received from it. -/
theorem run_congr_reply {reply reply' : Except TransportError Bytes}
    (h : receive env.codec reply = receive env.codec reply') (ping : Ping)
    (replyAfter cancelAfter : Option Span) (world : σ) :
    run env ping ⟨reply, replyAfter, cancelAfter⟩ world =
      run env ping ⟨reply', replyAfter, cancelAfter⟩ world := by
  have hreceived := Exchange.received?_congr h replyAfter cancelAfter ping.heartbeat.timeout
  have hends := ends_run env ping ⟨reply, replyAfter, cancelAfter⟩ world
  generalize run env ping ⟨reply, replyAfter, cancelAfter⟩ world = r at hends
  cases hends with
  | unread hf => simp only [run, hf]
  | idle hf hr => simp only [run, hf, hr]
  | unwritten hf hr hp => simp only [run, hf, hr, hp]
  | cancelled hprep hx =>
      rw [run_of_prepared hprep, ← hreceived, hx]
      rfl
  | concluded hprep hx =>
      rw [run_of_prepared hprep, ← hreceived, hx]
      rfl

/-- A body that is decoded is received. -/
theorem receive_of_decode (hcodec : env.codec = Codec.json) {body : Bytes} {r : Response}
    (h : decode body = .ok r) : receive env.codec (.ok body) = .ok r := by
  have hne : body ≠ [] := by
    rintro rfl
    cases h
  refine receive_eq_ok_iff.2 ⟨body, rfl, hne, ?_⟩
  rw [hcodec]
  show (decode body : Except Fault Response).mapError _ = _
  rw [h]
  rfl

end Ping

/-! ## All presentations of a value -/

/-- **A value is decoded from each of its presentations.** A body that presents a response is
decoded to it, and a call that gets the body is the call that gets the response as it is written; a
text that presents a policy or a configuration is decoded to it. An object in which a field is
repeated is rejected, whatever the values, and so is a configuration with such a policy. -/
theorem presentations_agree :
    (∀ (r : Response) (body : Bytes), r.PresentedBy body →
      decode body = .ok r ∧
      ∀ {σ : Type} (env : Collaborators σ) (ping : Ping) (replyAfter cancelAfter : Option Span)
        (world : σ), env.codec = Codec.json →
        Ping.run env ping ⟨.ok body, replyAfter, cancelAfter⟩ world =
          Ping.run env ping ⟨.ok (bytesOf (encode r)), replyAfter, cancelAfter⟩ world) ∧
    (∀ (policy : Policy) (text : Bytes), policy.PresentedBy text → decode text = .ok policy) ∧
    (∀ (config : PushConfig) (text : Bytes), config.PresentedBy text →
      decode text = .ok config ∧
      ∀ source : String, bytesOf source = text →
        PushConfig.ofJson source = PushConfig.ofJson (encode config)) ∧
    (∀ (es : List Entry) (text : Bytes), Document es text →
      ((∃ name ∈ Response.fieldNames, Repeated name es) →
        ∃ fault, (decode text : Except Fault Response) = .error fault) ∧
      ((∃ f : Policy.Field, Repeated f.name es) →
        ∃ fault, (decode text : Except Fault Policy) = .error fault) ∧
      (Repeated "heartbeat" es ∨
        (∃ e ∈ es, e.Named "heartbeat" ∧ ∃ es' f, ObjectText es' e.value ∧
          Repeated (Policy.Field.name f) es') →
        ∃ fault, (decode text : Except Fault PushConfig) = .error fault)) := by
  refine ⟨?_, ?_, ?_, ?_⟩
  · rintro r body ⟨es, hpresents, hnamed, ws, t, ws', hws, ht, hws', rfl⟩
    have hdecode : decode (ws ++ (t ++ ws')) = .ok r :=
      decode_of_takes (hpresents.takes hnamed ht) hws hws'
    refine ⟨hdecode, fun env ping replyAfter cancelAfter world hcodec => ?_⟩
    have hreceive : Ping.receive env.codec (.ok (ws ++ (t ++ ws'))) =
        Ping.receive env.codec (.ok (bytesOf (encode r))) := by
      rw [Ping.receive_of_decode hcodec hdecode, Ping.receive_of_decode hcodec (decode_encode r)]
    exact Ping.run_congr_reply hreceive ping replyAfter cancelAfter world
  · rintro policy text ⟨es, hpresents, hnamed, ws, t, ws', hws, ht, hws', rfl⟩
    exact decode_of_takes (hpresents.takes hnamed ht) hws hws'
  · rintro config text ⟨es, hpresents, hnamed, ws, t, ws', hws, ht, hws', rfl⟩
    have hdecode : decode (ws ++ (t ++ ws')) = .ok config :=
      decode_of_takes (hpresents.takes hnamed ht) hws hws'
    refine ⟨hdecode, fun source hsource => ?_⟩
    rw [PushConfig.ofJson, PushConfig.ofJson, hsource, hdecode, decode_encode config]
  · rintro es text ⟨ws, t, ws', hws, ht, hws', rfl⟩
    refine ⟨?_, ?_, ?_⟩
    · rintro ⟨name, hname, hrepeated⟩
      obtain ⟨s, hs, rfl⟩ := List.mem_map.1 (show name ∈ Response.slots.map Slot.name from hname)
      exact decode_of_refuses
        (Response.slots_shape.refuses_repeated Response.aligned_slots ht hs hrepeated) hws hws'
    · rintro ⟨f, hrepeated⟩
      exact decode_of_refuses (Policy.refuses_repeated ht hrepeated) hws hws'
    · intro hfault
      refine decode_of_refuses ?_ hws hws'
      rcases hfault with hrepeated | ⟨e, he, hname, es', f, ht', hrepeated⟩
      · exact PushConfig.slots_shape.refuses_repeated PushConfig.aligned_slots ht
          List.mem_cons_self hrepeated
      · exact PushConfig.slots_shape.refuses_value PushConfig.aligned_slots ht
          List.mem_cons_self he hname (Policy.refuses_repeated ht' hrepeated)

/-! ## Texts by example -/

theorem wellFormed_numeral (n : Nat) : WellFormed .value (numeral n) := by
  have hwhole : WholeText (numeral n) := by
    refine ⟨⟨numeral_ne_nil n, isDigit_of_mem_numeral n⟩, fun hhead => ?_⟩
    obtain ⟨b, bs, hbs, -, hzero⟩ := exists_numeral_cons n
    rw [hbs] at hhead
    obtain rfl : b = byte '0' := Option.some.inj hhead
    have hn : n = 0 := Nat.eq_zero_of_not_pos fun hpos => hzero hpos rfl
    rw [hn]
    rfl
  have hnumber := NumberText.mk (.inl rfl) hwhole (.inl rfl) (.inl rfl)
  rw [List.nil_append, List.append_nil, List.append_nil] at hnumber
  exact .number hnumber

/-- An entry without blanks. -/
theorem entryText_of_named {e : Entry} {name : String} (hname : e.Named name)
    (hvalue : WellFormed .value e.value) : EntryText e (memberBytes [] e.key [] [] e.value []) :=
  .mk blank_of_mem_nil hname.stringText blank_of_mem_nil blank_of_mem_nil hvalue blank_of_mem_nil

/-- Entries with these names have no other names. -/
theorem omitted_of_named {es : List Entry} {names : List String} {name : String}
    (h : List.Forall₂ Entry.Named es names) (hname : name ∉ names) : Omitted name es := by
  induction h with
  | nil => exact fun e he => nomatch he
  | cons hfirst _ ih =>
      obtain ⟨hne, hrest⟩ := not_or.1 (mt List.mem_cons.2 hname)
      intro e he
      rcases List.mem_cons.1 he with rfl | he
      · exact fun hnamed => hne (hnamed.unique hfirst)
      · exact ih hrest e he

theorem allNamed_of_named {es : List Entry} {names : List String}
    (h : List.Forall₂ Entry.Named es names) : AllNamed es := by
  induction h with
  | nil => exact fun e he => nomatch he
  | cons hfirst _ ih =>
      intro e he
      rcases List.mem_cons.1 he with rfl | he
      · exact ⟨_, hfirst⟩
      · exact ih e he

/-- A body with blanks around it, a key that is escaped, and an entry whose value is no text. -/
theorem presentedBy_escaped :
    (Response.ofStatus ⟨2⟩).PresentedBy
      (bytesOf " \x7b\"more\":[\"\\ud800\"],\"\\u0073tatus\":2\x7d\n") := by
  let more : Entry := ⟨utf8 "more".toList, bytesOf "[\"\\ud800\"]"⟩
  let status : Entry :=
    ⟨byte '\\' :: byte 'u' :: utf8 "0073".toList ++ utf8 "tatus".toList, numeral 2⟩
  have hmore : more.Named "more" := named_utf8 _ (by simp)
  have hstatus : status.Named "status" := by
    have htail : Spelled "tatus".toList (utf8 "tatus".toList) := spelled_utf8 (by simp)
    show Spelled ('s' :: "tatus".toList) _
    refine .cons (.code ⟨_, _, _, _, 0, 0, 7, 3, rfl, ?_⟩) htail
    decide
  have hnames : List.Forall₂ Entry.Named [more, status] ["more", "status"] :=
    .cons hmore (.cons hstatus .nil)
  have hvalue : WellFormed .value more.value :=
    .bracket (.last (.item blank_of_mem_nil (.string (.code (List.all_eq_true.1 rfl) .nil))
      blank_of_mem_nil))
  have hentries := EntriesText.more (entryText_of_named hmore hvalue)
    (.last (entryText_of_named hstatus (wellFormed_numeral 2)))
  have hgiven : Given "status" (· = numeral 2) [more, status] := by
    refine .later (fun h => ?_) (.here hstatus rfl fun e he => nomatch he)
    exact absurd (h.unique hmore) (by decide)
  refine ⟨[more, status], ⟨hgiven, .inr ⟨?_, rfl⟩, .inr ?_, .inr ?_⟩, allNamed_of_named hnames,
    [byte ' '], _, [byte '\n'], ?_, .entries hentries, ?_, by decide⟩
  · exact omitted_of_named hnames (by decide)
  · exact omitted_of_named hnames (by decide)
  · exact omitted_of_named hnames (by decide)
  · exact fun b hb => List.mem_singleton.1 hb ▸ rfl
  · exact fun b hb => List.mem_singleton.1 hb ▸ rfl

/-- A policy of which one member is written. -/
theorem presentedBy_maxSecs :
    let policy : Policy := { Policy.standard with maxSecs := 900 }
    ∃ es, policy.Presents es ∧ AllNamed es ∧
      ObjectText es (bytesOf "\x7b\"max_secs\":900\x7d") := by
  intro policy
  let maxSecs : Entry := ⟨utf8 "max_secs".toList, numeral 900⟩
  have hmax : maxSecs.Named "max_secs" := named_utf8 _ (by simp)
  have hnames : List.Forall₂ Entry.Named [maxSecs] ["max_secs"] := .cons hmax .nil
  have hentries := EntriesText.last (entryText_of_named hmax (wellFormed_numeral 900))
  refine ⟨[maxSecs], fun f => ?_, allNamed_of_named hnames, .entries hentries⟩
  cases f with
  | maxSecs => exact .inl (.here hmax rfl fun e he => nomatch he)
  | defaultSecs | minSecs | maxStepSecs | requestSlackSecs =>
      exact .inr ⟨omitted_of_named hnames (by decide), rfl⟩

/-- A body with an entry beside the status, a policy and a configuration of which one member is
given, and a status that is given twice. -/
theorem presentations_agree_max_secs :
    let body := bytesOf " \x7b\"more\":[\"\\ud800\"],\"\\u0073tatus\":2\x7d\n"
    let policy : Policy := { Policy.standard with maxSecs := 900 }
    let env := Scripted.collaborators Codec.json
    let ping : Ping := ⟨⟨1⟩, ⟨.standard, 900⟩⟩
    decode body = .ok (Response.ofStatus ⟨2⟩) ∧
    Ping.run env ping ⟨.ok body, some .zero, none⟩ (Ping.watching none) =
      Ping.run env ping ⟨.ok (bytesOf (encode (Response.ofStatus ⟨2⟩))), some .zero, none⟩
        (Ping.watching none) ∧
    decode (bytesOf "\x7b\"max_secs\":900\x7d") = .ok policy ∧
    decode (bytesOf "\x7b\"heartbeat\":\x7b\"max_secs\":900\x7d\x7d") =
      .ok (PushConfig.mk policy) ∧
    ∃ fault, (decode (bytesOf "\x7b\"status\":1,\"status\":2\x7d") : Except Fault Response) =
      .error fault := by
  intro body policy env ping
  obtain ⟨hresponse, hpolicy, hconfig, hrepeated⟩ := presentations_agree
  obtain ⟨hdecode, hrun⟩ := hresponse _ body presentedBy_escaped
  obtain ⟨es, hpresents, hnamed, hobject⟩ := presentedBy_maxSecs
  refine ⟨hdecode, hrun env ping _ _ _ rfl, ?_, ?_, ?_⟩
  · exact hpolicy policy _ ⟨es, hpresents, hnamed, [], _, [], blank_of_mem_nil, hobject,
      blank_of_mem_nil, by decide⟩
  · let heartbeat : Entry := ⟨utf8 "heartbeat".toList, bytesOf "\x7b\"max_secs\":900\x7d"⟩
    have hheartbeat : heartbeat.Named "heartbeat" := named_utf8 _ (by simp)
    have hentries := EntriesText.last (entryText_of_named hheartbeat hobject.wellFormed)
    have hnames : AllNamed [heartbeat] := allNamed_of_named (.cons hheartbeat .nil)
    refine (hconfig ⟨policy⟩ _ ⟨[heartbeat], .inl ?_, hnames, [], _, [], blank_of_mem_nil,
      .entries hentries, blank_of_mem_nil, by decide⟩).1
    exact .here hheartbeat ⟨es, hpresents, hnamed, hobject⟩ fun e he => nomatch he
  · let first : Entry := ⟨utf8 "status".toList, numeral 1⟩
    let second : Entry := ⟨utf8 "status".toList, numeral 2⟩
    have hfirst : first.Named "status" := named_utf8 _ (by simp)
    have hsecond : second.Named "status" := named_utf8 _ (by simp)
    have hentries := EntriesText.more (entryText_of_named hfirst (wellFormed_numeral 1))
      (.last (entryText_of_named hsecond (wellFormed_numeral 2)))
    refine (hrepeated [first, second] _ ⟨[], _, [], blank_of_mem_nil, .entries hentries,
      blank_of_mem_nil, by decide⟩).1 ⟨"status", by decide, first, second, ?_, hfirst, hsecond⟩
    exact List.Sublist.refl _

/-- The name of every entry must be a text: a surrogate without its partner makes a key that is a
well-formed string and no text, and an object with such a key is malformed, although its other
entries give all fields of a response. -/
theorem presentations_limit :
    let es : List Entry := [⟨utf8 "status".toList, numeral 1⟩, ⟨bytesOf "\\ud800", numeral 0⟩]
    let body := bytesOf "\x7b\"status\":1,\"\\ud800\":0\x7d"
    (Response.ofStatus ⟨1⟩).Presents es ∧ Document es body ∧
      (decode body : Except Fault Response) = .error .malformed := by
  intro es body
  have hstatus : (Entry.mk (utf8 "status".toList) (numeral 1)).Named "status" :=
    named_utf8 _ (by simp)
  have hkey : StringText (bytesOf "\\ud800") := .code (List.all_eq_true.1 rfl) .nil
  have hother : ∀ name, ¬ (Entry.mk (bytesOf "\\ud800") (numeral 0)).Named name := by
    intro name hname
    have hread : readText (bytesOf "\\ud800" ++ [byte '"']) = .error .malformed := by
      decide +kernel
    rw [hname.readText []] at hread
    cases hread
  have homitted : ∀ name, name ≠ "status" → Omitted name es := by
    intro name hne e he hname
    rcases List.mem_cons.1 he with rfl | he
    · exact hne (hname.unique hstatus)
    · rw [List.mem_singleton.1 he] at hname
      exact hother name hname
  have hsurrogate : EntryText ⟨bytesOf "\\ud800", numeral 0⟩
      (memberBytes [] (bytesOf "\\ud800") [] [] (numeral 0) []) :=
    .mk blank_of_mem_nil hkey blank_of_mem_nil blank_of_mem_nil (wellFormed_numeral 0)
      blank_of_mem_nil
  have hentries := EntriesText.more (entryText_of_named hstatus (wellFormed_numeral 1))
    (.last hsurrogate)
  refine ⟨⟨.here hstatus rfl fun e he => ?_, .inr ⟨homitted _ (by decide), rfl⟩,
    .inr (homitted _ (by decide)), .inr (homitted _ (by decide))⟩,
    ⟨[], _, [], blank_of_mem_nil, .entries hentries, blank_of_mem_nil, by decide⟩,
    by decide +kernel⟩
  rw [List.mem_singleton.1 he]
  exact hother _

end MailPush
