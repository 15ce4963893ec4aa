import MailPush.Proofs.Json.Lists
import MailPush.Proofs.Json.Numerals
import MailPush.Proofs.Json.Records
import MailPush.Wire.Config
import MailPush.Wire.Ping

set_option autoImplicit false

/-! # Reading what was written

Every type with a JSON form is lawful: scalars, identities and names directly, records because
their fields fill the blank draft. A policy may be written in part. Settings of some of its
members, in any order, are read as the standard policy with these members set
(`delimits_settings`), and the policy as it is written in full is the case of all five.
-/

namespace MailPush

open Json

/-! ## Scalars -/

instance : Lawful Bool := ⟨fun b => (delimits_bool b).reads⟩
instance : Lawful String := ⟨fun text => (delimits_text text).reads⟩
instance : Lawful UInt64 := ⟨reads_uint64⟩
instance : Lawful AccountId := ⟨fun account => (reads_int64 account.number).map AccountId.mk⟩
instance : Lawful FolderId := ⟨fun id => (reads_int64 id.number).map FolderId.mk⟩
instance : Lawful Status := ⟨fun status => (reads_uint32 status.code).map Status.mk⟩

instance : Lawful FolderClass :=
  ⟨fun c => (delimits_name (FolderClass.ofName?_name c)).reads⟩

instance : Lawful (List String) :=
  ⟨fun items => (delimits_list (by decide : isBlank (byte '"') = false) (by decide)
    (fun text => ⟨_, utf8_writeText text, utf8_writeText text ▸ (delimits_text text).reads⟩)
    items).reads⟩

/-- A numeral is a value that is there. -/
theorem reads_present_numeral {α : Type} {r : Reader α} {n : Nat} {a : α}
    (h : Reads r.run (numeral n) a) : Reads (optionReader r).run (numeral n) (some a) := by
  obtain ⟨b, bs, hbs, hdigit, -⟩ := exists_numeral_cons n
  rw [hbs] at h ⊢
  refine h.present (isBlank_of_isDigit hdigit) ?_
  rintro rfl
  revert hdigit
  decide

instance : Lawful (Option UInt32) where
  reads
    | none => delimits_none.reads
    | some n => reads_present_numeral (reads_uint32 n)

instance : Lawful (Option UInt64) where
  reads
    | none => delimits_none.reads
    | some n => reads_present_numeral (reads_uint64 n)

/-! ## Records -/

theorem delimits_watchedFolder (f : WatchedFolder) :
    Delimits WatchedFolder.shape.reader.run (utf8 (Writable.write f)) f :=
  delimits_object (.slot rfl rfl (.slot rfl rfl .nil)) rfl

instance : Lawful WatchedFolder := ⟨fun f => (delimits_watchedFolder f).reads⟩

theorem delimits_folder (f : Folder) :
    Delimits Folder.shape.reader.run (utf8 (Writable.write f)) f :=
  delimits_object (.slot rfl rfl (.slot rfl rfl (.slot rfl rfl (.slot rfl rfl
    (.slot rfl rfl .nil))))) rfl

instance : Lawful Folder := ⟨fun f => (delimits_folder f).reads⟩

theorem delimits_response (r : Response) :
    Delimits Response.shape.reader.run (utf8 (Writable.write r)) r :=
  delimits_object (.slot rfl rfl (.slot rfl rfl (.slot rfl rfl (.slot rfl rfl .nil)))) rfl

instance : Lawful Response := ⟨fun r => (delimits_response r).reads⟩

/-! ## Policies -/

namespace Policy

/-- The members of a policy. -/
inductive Field where
  | defaultSecs
  | minSecs
  | maxSecs
  | maxStepSecs
  | requestSlackSecs
deriving DecidableEq

/-- The name under which a member is written. -/
def Field.name : Field → String
  | defaultSecs => "default_secs"
  | minSecs => "min_secs"
  | maxSecs => "max_secs"
  | maxStepSecs => "max_step_secs"
  | requestSlackSecs => "request_slack_secs"

/-- A member and its value. -/
structure Setting where
  field : Field
  value : UInt64

/-- The policy with a member set. -/
def set (policy : Policy) (setting : Setting) : Policy :=
  match setting.field with
  | .defaultSecs => { policy with defaultSecs := setting.value }
  | .minSecs => { policy with minSecs := setting.value }
  | .maxSecs => { policy with maxSecs := setting.value }
  | .maxStepSecs => { policy with maxStepSecs := setting.value }
  | .requestSlackSecs => { policy with requestSlackSecs := setting.value }

/-- What a draft holds of a member. -/
def Draft.get (draft : Draft) : Field → Option UInt64
  | .defaultSecs => draft.defaultSecs
  | .minSecs => draft.minSecs
  | .maxSecs => draft.maxSecs
  | .maxStepSecs => draft.maxStepSecs
  | .requestSlackSecs => draft.requestSlackSecs

/-- The draft with a member set. -/
def Draft.set (draft : Draft) (setting : Setting) : Draft :=
  match setting.field with
  | .defaultSecs => { draft with defaultSecs := some setting.value }
  | .minSecs => { draft with minSecs := some setting.value }
  | .maxSecs => { draft with maxSecs := some setting.value }
  | .maxStepSecs => { draft with maxStepSecs := some setting.value }
  | .requestSlackSecs => { draft with requestSlackSecs := some setting.value }

/-- Settings as the fields of an object. -/
def writeSettings (settings : List Setting) : List (String × List Char) :=
  settings.map fun s => (s.field.name, Writable.write s.value)

theorem Draft.get_set {draft : Draft} {setting : Setting} {field : Field}
    (h : setting.field ≠ field) : (draft.set setting).get field = draft.get field := by
  obtain ⟨f, v⟩ := setting
  cases f <;> cases field <;> first | rfl | exact absurd rfl h

theorem finish_set {draft : Draft} {policy : Policy} (setting : Setting)
    (h : shape.finish draft = some policy) :
    shape.finish (draft.set setting) = some (policy.set setting) := by
  obtain ⟨f, v⟩ := setting
  cases h
  cases f <;> rfl

theorem finish_settings {draft : Draft} {policy : Policy} (settings : List Setting)
    (h : shape.finish draft = some policy) :
    shape.finish (settings.foldl Draft.set draft) = some (settings.foldl Policy.set policy) := by
  induction settings generalizing draft policy with
  | nil => exact h
  | cons s settings ih => exact ih (finish_set s h)

/-- Settings of different members fill a draft that holds none of them. -/
theorem fills_settings {settings : List Setting} {draft : Draft}
    (hdistinct : (settings.map (·.field)).Nodup)
    (hfree : ∀ s ∈ settings, draft.get s.field = none) :
    Fills shape.members draft (writeSettings settings) (settings.foldl Draft.set draft) := by
  induction settings generalizing draft with
  | nil => exact .nil
  | cons s settings ih =>
      obtain ⟨hnew, hdistinct⟩ := List.nodup_cons.1 hdistinct
      -- the members that are left are other ones, so they stay free
      have hrest : Fills shape.members (draft.set s) (writeSettings settings)
          (settings.foldl Draft.set (draft.set s)) := by
        refine ih hdistinct fun s' hs' => ?_
        have hne : s.field ≠ s'.field := fun h => hnew (List.mem_map.2 ⟨s', hs', h.symm⟩)
        rw [Draft.get_set hne]
        exact hfree s' (List.mem_cons_of_mem _ hs')
      have hheld : draft.get s.field = none := hfree s List.mem_cons_self
      obtain ⟨f, v⟩ := s
      cases f <;> exact .slot rfl hheld hrest

/-- **Settings of different members are read as the standard policy with these members set.** -/
theorem delimits_settings (settings : List Setting)
    (hdistinct : (settings.map (·.field)).Nodup) :
    Delimits shape.reader.run (utf8 (writeObject (writeSettings settings)))
      (settings.foldl Policy.set .standard) := by
  refine delimits_object (fills_settings hdistinct ?_) (finish_settings settings rfl)
  rintro ⟨f, v⟩ -
  cases f <;> rfl

/-- The settings of all members. -/
def settings (policy : Policy) : List Setting :=
  [⟨.defaultSecs, policy.defaultSecs⟩, ⟨.minSecs, policy.minSecs⟩, ⟨.maxSecs, policy.maxSecs⟩,
    ⟨.maxStepSecs, policy.maxStepSecs⟩, ⟨.requestSlackSecs, policy.requestSlackSecs⟩]

theorem nodup_fields (policy : Policy) : (policy.settings.map (·.field)).Nodup := by
  show [Field.defaultSecs, .minSecs, .maxSecs, .maxStepSecs, .requestSlackSecs].Nodup
  decide

end Policy

instance : Lawful Policy :=
  ⟨fun policy => (Policy.delimits_settings policy.settings policy.nodup_fields).reads⟩

theorem delimits_pushConfig (config : PushConfig) :
    Delimits PushConfig.shape.reader.run (utf8 (Writable.write config)) config :=
  delimits_object (.slot rfl rfl .nil) rfl

instance : Lawful PushConfig := ⟨fun config => (delimits_pushConfig config).reads⟩

/-! ## Whole texts -/

/-- **Every value is decoded from its encoding.** -/
theorem round_trip :
    (∀ config : PushConfig, decode (bytesOf (encode config)) = .ok config) ∧
    (∀ policy : Policy, decode (bytesOf (encode policy)) = .ok policy) ∧
    (∀ response : Response, decode (bytesOf (encode response)) = .ok response) ∧
    (∀ folder : Folder, decode (bytesOf (encode folder)) = .ok folder) ∧
    (∀ folder : WatchedFolder, decode (bytesOf (encode folder)) = .ok folder) ∧
    (∀ folderClass : FolderClass, decode (bytesOf (encode folderClass)) = .ok folderClass) ∧
    (∀ status : Status, decode (bytesOf (encode status)) = .ok status) ∧
    (∀ account : AccountId, decode (bytesOf (encode account)) = .ok account) ∧
    (∀ id : FolderId, decode (bytesOf (encode id)) = .ok id) := by
  refine ⟨?_, ?_, ?_, ?_, ?_, ?_, ?_, ?_, ?_⟩ <;> exact decode_encode

end MailPush
