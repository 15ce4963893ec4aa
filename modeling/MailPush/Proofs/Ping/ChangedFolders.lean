import MailPush.Proofs.Ping.StatusTable

set_option autoImplicit false

/-! # Changed folders

A server names the folders that have changed by their server ids. Every name is accounted for on its
own, and in the order of the response (`Accounted`): the first folder that has the server id is to
be synchronised, whether or not it is watched, and a server id that no folder has is reported. So
the effects and the reports of a call are together as many as the names (`changed_ids_accounted`).
-/

namespace MailPush

/-! ## Folders by server id -/

/-- A folder is the first one of a list that has its server id. -/
def Folder.IsFirst (folder : Folder) (folders : List Folder) : Prop :=
  ∃ before behind, folders = before ++ folder :: behind ∧
    ∀ f ∈ before, f.serverId ≠ folder.serverId

theorem Folder.findByServerId?_eq_some_iff {folders : List Folder} {serverId : String}
    {folder : Folder} :
    Folder.findByServerId? folders serverId = some folder ↔
      folder.serverId = serverId ∧ folder.IsFirst folders := by
  rw [findByServerId?, List.find?_eq_some_iff_append, beq_iff_eq]
  constructor
  · rintro ⟨rfl, before, behind, hfolders, hbefore⟩
    exact ⟨rfl, before, behind, hfolders, fun f hf => by simpa using hbefore f hf⟩
  · rintro ⟨rfl, before, behind, hfolders, hbefore⟩
    exact ⟨rfl, before, behind, hfolders, fun f hf => by simpa using hbefore f hf⟩

theorem Folder.findByServerId?_eq_none_iff {folders : List Folder} {serverId : String} :
    Folder.findByServerId? folders serverId = none ↔ ∀ f ∈ folders, f.serverId ≠ serverId := by
  simp [findByServerId?]

/-! ## Accounts of server ids -/

/-- Server ids are accounted for one by one: for each there is one effect, of the first folder that
has it, or it is left over as unknown. -/
inductive Accounted (folders : List Folder) : List String → List Effect → List String → Prop
  | nil : Accounted folders [] [] []
  | found {folder : Folder} {serverIds : List String} {effects : List Effect}
      {unknown : List String} : folder.IsFirst folders →
      Accounted folders serverIds effects unknown →
      Accounted folders (folder.serverId :: serverIds)
        (.syncFolder folder.id folder.serverId folder.folderClass :: effects) unknown
  | missing {serverId : String} {serverIds : List String} {effects : List Effect}
      {unknown : List String} : (∀ f ∈ folders, f.serverId ≠ serverId) →
      Accounted folders serverIds effects unknown →
      Accounted folders (serverId :: serverIds) effects (serverId :: unknown)

variable {folders : List Folder} {serverIds : List String} {effects : List Effect}
  {unknown : List String}

/-- **Resolving accounts for every server id.** -/
theorem accounted_resolve (folders : List Folder) (serverIds : List String) :
    Accounted folders serverIds (Effect.resolve folders serverIds)
      (Folder.unknownIds folders serverIds) := by
  induction serverIds with
  | nil => exact .nil
  | cons serverId serverIds ih =>
      rw [Effect.resolve, Folder.unknownIds, List.filterMap_cons, List.filter_cons]
      cases hfind : Folder.findByServerId? folders serverId with
      | none => exact .missing (Folder.findByServerId?_eq_none_iff.1 hfind) ih
      | some folder =>
          obtain ⟨rfl, hfirst⟩ := Folder.findByServerId?_eq_some_iff.1 hfind
          exact .found hfirst ih

theorem Accounted.length_eq (h : Accounted folders serverIds effects unknown) :
    effects.length + unknown.length = serverIds.length := by
  induction h with
  | nil => rfl
  | found hfirst hrest ih =>
      simp only [List.length_cons]
      omega
  | missing hnone hrest ih =>
      simp only [List.length_cons]
      omega

/-- Every effect of an account is to synchronise a folder whose server id is in it. -/
theorem Accounted.reported (h : Accounted folders serverIds effects unknown) {effect : Effect}
    (hmem : effect ∈ effects) :
    ∃ id serverId folderClass, effect = .syncFolder id serverId folderClass ∧
      serverId ∈ serverIds := by
  induction h with
  | nil => cases hmem
  | found hfirst hrest ih =>
      rcases List.mem_cons.1 hmem with rfl | hmem
      · exact ⟨_, _, _, rfl, List.mem_cons_self⟩
      · obtain ⟨id, serverId, folderClass, heffect, hreported⟩ := ih hmem
        exact ⟨id, serverId, folderClass, heffect, List.mem_cons_of_mem _ hreported⟩
  | missing hnone hrest ih =>
      obtain ⟨id, serverId, folderClass, heffect, hreported⟩ := ih hmem
      exact ⟨id, serverId, folderClass, heffect, List.mem_cons_of_mem _ hreported⟩

/-! ## Calls -/

namespace Ping

variable {σ : Type} {env : Collaborators σ} {ping : Ping} {x : Exchange} {world : σ}
  {response : Response}

/-- What a call reports whose server names changed folders: that the request is sent, what the
response says, and the server ids that no folder has. -/
theorem events_changesFound (h : Decodes env ping x world folders response)
    (hn : response.status.number = 2) :
    ∃ request, ping.request? folders = some request ∧
      (run env ping x world).events =
        ping.sendingEvents (env.registry.folders ping.account world).events request ++
          .classified ping.account (.changesFound response.folders) ::
            (Folder.unknownIds folders response.folders).map (.folderUnknown ping.account) := by
  obtain ⟨request, payload, hprep, hrun⟩ := run_of_decodes h
  have hclass : classify response = .changesFound response.folders := by
    rw [classify_eq_table, hn]
    rfl
  have hadjustment : (ping.conclude folders (.ok response)).adjustment = none := by
    rw [conclude_ok_adjustment, adjustmentTable, hn]
    rfl
  refine ⟨request, hprep.request_eq, ?_⟩
  rw [hrun, finish, hadjustment]
  show _ ++ ping.classificationEvents folders (classify response) = _
  rw [hclass]
  rfl

/-- **Changed folders are accounted for one by one.** Let a call decode a response that names
changed folders, whatever the folders of the account are. In the order of the response, the call
completes with one effect for each server id that a folder has, of the first folder that has it, and
reports each other server id in a warning of its own, behind its other reports. Effects and warnings
are as many as the server ids, every effect is to synchronise a folder whose server id is among
them, and two lists of server ids are resolved like one that holds them both. -/
theorem changed_ids_accounted (h : Decodes env ping x world folders response)
    (hn : response.status.number = 2) :
    let r := run env ping x world
    let read := env.registry.folders ping.account world
    ∃ request effects unknown, ping.request? folders = some request ∧
      Accounted folders response.folders effects unknown ∧
      r.result = .ok (.completed (.changesFound response.folders) effects) ∧
      r.events = read.events ++
        [.sending ping.account request.heartbeatSecs request.folders.length,
          .classified ping.account (.changesFound response.folders)] ++
        unknown.map (.folderUnknown ping.account) ∧
      (unknown.map (Event.folderUnknown ping.account)).map
          (fun e => (e.level, e.message, e.fields)) =
        unknown.map (fun serverId => (.warn, "Changed folder not found",
          [("account", ping.account.text), ("server_id", serverId)])) ∧
      effects.length + unknown.length = response.folders.length ∧
      (∀ effect ∈ effects, ∃ id serverId folderClass,
        effect = .syncFolder id serverId folderClass ∧ serverId ∈ response.folders) ∧
      effects = Effect.resolve folders response.folders ∧
      unknown = Folder.unknownIds folders response.folders ∧
      ∀ serverIds more,
        Effect.resolve folders (serverIds ++ more) =
          Effect.resolve folders serverIds ++ Effect.resolve folders more ∧
        Folder.unknownIds folders (serverIds ++ more) =
          Folder.unknownIds folders serverIds ++ Folder.unknownIds folders more := by
  intro r read
  have haccounted := accounted_resolve folders response.folders
  obtain ⟨request, hrequest, hevents⟩ := events_changesFound h hn
  refine ⟨request, _, _, hrequest, haccounted, run_of_number h hn, ?_, ?_, haccounted.length_eq,
    fun effect hmem => haccounted.reported hmem, rfl, rfl, ?_⟩
  · show (run env ping x world).events = _
    rw [hevents, sendingEvents, List.append_assoc, List.append_assoc]
    rfl
  · rw [List.map_map]
    rfl
  · intro serverIds more
    exact ⟨List.filterMap_append, List.filter_append ..⟩

/-- Two folders have one server id, and the first of them is not watched. It is synchronised twice,
as often as the server names it, and the name that no folder has is reported between the two. -/
theorem changed_ids_accounted_duplicates :
    let folders : List Folder := [⟨⟨3⟩, "b", .calendar, false, true⟩,
      ⟨⟨1⟩, "a", .email, true, true⟩, ⟨⟨2⟩, "b", .email, true, true⟩]
    let call := Call.answered ⟨.changesFound, ["b", "zz", "a", "b"], none, none⟩
    let r := call.run ⟨⟨7⟩, ⟨.standard, 900⟩⟩ (.ofContents none folders)
    r.result = .ok (.completed (.changesFound ["b", "zz", "a", "b"])
        [.syncFolder ⟨3⟩ "b" .calendar, .syncFolder ⟨1⟩ "a" .email,
          .syncFolder ⟨3⟩ "b" .calendar]) ∧
      r.events = [.sending ⟨7⟩ 900 2, .classified ⟨7⟩ (.changesFound ["b", "zz", "a", "b"]),
        .folderUnknown ⟨7⟩ "zz"] := by
  intro folders call r
  have hdecodes : Decodes call.env ⟨⟨7⟩, ⟨.standard, 900⟩⟩ call.exchange
      (.ofContents none folders) folders ⟨.changesFound, ["b", "zz", "a", "b"], none, none⟩ :=
    ⟨⟨_, _, rfl, rfl, rfl⟩, [0], ending_at_once _ _, by decide, rfl⟩
  obtain ⟨request, effects, unknown, hrequest, -, hresult, hevents, -, -, -, heffects, hunknown,
    -⟩ := changed_ids_accounted hdecodes rfl
  obtain rfl := Option.some.inj hrequest
  subst heffects hunknown
  exact ⟨hresult, hevents⟩

end Ping

end MailPush
