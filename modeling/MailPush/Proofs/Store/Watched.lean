import MailPush.Proofs.Ping.Calls
import MailPush.Proofs.Store.FolderWrites

set_option autoImplicit false

/-! # What is watched

A ping of an account over a repository asks the server for exactly those folders that the history
says are to be watched (`watched_of_history`), and without any it sends and writes nothing.
-/

namespace MailPush

open FolderWrite

/-! ## Watched folders -/

namespace FolderWrite

variable {account : AccountId} {serverId : String} {ws : List FolderWrite}

/-- What is saved is registered. -/
theorem mem_registered_of_lastSave? {save : FolderId × NewFolder}
    (h : lastSave? account serverId ws = some save) : serverId ∈ registered account ws := by
  have hserver : save.2.serverId = serverId := by simpa using List.find?_some h
  rw [registered, List.mem_eraseDups, ← hserver]
  exact List.mem_map_of_mem (List.mem_reverse.2 (List.mem_of_find?_eq_some h))

/-- What is watched has been saved, and is watched under its server id. -/
theorem lastSave?_of_watch? {f : WatchedFolder} (h : watch? account ws serverId = some f) :
    f.serverId = serverId ∧ ∃ save, lastSave? account serverId ws = some save := by
  unfold watch? at h
  split at h
  next id folder key hsave _ _ =>
    split at h
    · cases h
    · cases h
      exact ⟨rfl, _, hsave⟩
  · cases h

theorem watched_eq_nil_iff :
    watched account ws = [] ↔ ∀ serverId, watch? account ws serverId = none := by
  rw [watched, List.filterMap_eq_nil_iff]
  constructor
  · intro h serverId
    cases hw : watch? account ws serverId with
    | none => rfl
    | some f =>
        obtain ⟨-, save, hsave⟩ := lastSave?_of_watch? hw
        rw [h serverId (mem_registered_of_lastSave? hsave)] at hw
        cases hw
  · intro h serverId _
    exact h serverId

theorem watched_ne_nil_iff :
    watched account ws ≠ [] ↔ ∃ serverId, (watch? account ws serverId).isSome := by
  rw [Ne, watched_eq_nil_iff, Classical.not_forall]
  exact exists_congr fun serverId => Option.isSome_iff_ne_none.symm

/-- Every folder is watched once. -/
theorem Reflects.nodup_watched {m : FolderMap} (h : Reflects account ws m) :
    ((watched account ws).map (·.serverId)).Nodup := by
  have hregistered : (registered account ws).Nodup :=
    h.serverIds ▸ List.pairwise_map.2 m.distinct
  -- the server id of what is said of a folder is that of the folder
  have hname : ∀ serverId name, name ∈ (watch? account ws serverId).map (·.serverId) →
      name = serverId := by
    intro serverId name hmem
    obtain ⟨f, hw, rfl⟩ := Option.map_eq_some_iff.1 hmem
    exact (lastSave?_of_watch? hw).1
  rw [watched, List.map_filterMap]
  refine hregistered.filterMap fun serverId serverId' name h h' => ?_
  exact (hname _ _ h).symm.trans (hname _ _ h')

end FolderWrite

/-! ## Calls -/

namespace Repository

/-- The folders that a ping reads of a history are selected as the history says. -/
theorem folders_eq (ops : List Op) (account : AccountId) :
    ∃ folders, folderRegistry.folders account (after ops .empty)
        = ⟨.ok folders, after ops .empty, []⟩ ∧
      Folder.select folders = watched account (writes ops) ∧
      ((watched account (writes ops)).map (·.serverId)).Nodup := by
  obtain ⟨m, hrows, hreflects⟩ := reflects_after ops account
  refine ⟨_, ?_, hreflects.select_eq, hreflects.nodup_watched⟩
  rw [show empty = ofTables .empty .empty .empty from rfl, after_ofTables]
  show (ofTables _ _ _).answerRead (FolderTable.list _ account) = _
  rw [FolderMap.list_eq hrows]
  rfl

/-- **What is watched follows from the history.** After any history on a new repository, a ping of
an account whose request can be written, and whose caller has not given up before it starts:

* gives the transport a message exactly when there is a folder to be watched: one that is
  registered, whose last sync key is there and is not "0", and whose last flag is set;
* asks in this message for its heartbeat and for exactly these folders, each once, with the class
  saved last and in the order of their registration;
* ends at once when there is none, with nothing sent and nothing written. -/
theorem watched_of_history (ops : List Op) (codec : Codec) (ping : Ping) {x : Exchange}
    (hsent : x.isSent = true)
    (hencode : ∀ request : Request, request.heartbeatSecs = ping.heartbeat.secs →
      request.folders = watched ping.account (writes ops) →
      ∃ payload, codec.encode request = .ok payload) :
    let r := after ops .empty
    let call := Ping.run (collaborators codec) ping x r
    (call.sent.isSome ↔ ∃ serverId, (watch? ping.account (writes ops) serverId).isSome) ∧
    (∀ message, call.sent = some message → ∃ request : Request,
      codec.encode request = .ok message.payload ∧
        request.heartbeatSecs = ping.heartbeat.secs ∧
        request.folders = (registered ping.account (writes ops)).filterMap
          (watch? ping.account (writes ops)) ∧
        (request.folders.map (·.serverId)).Nodup) ∧
    ((∀ serverId, watch? ping.account (writes ops) serverId = none) →
      call.result = .ok .nothingToWatch ∧ call.sent = none ∧ call.world = r ∧
        call.ping = ping) := by
  intro r call
  obtain ⟨folders, hread, hselect, hnodup⟩ := folders_eq ops ping.account
  have hfolders : ((collaborators codec).registry.folders ping.account r).result = .ok folders :=
    congrArg Answer.result hread
  have hworld : ((collaborators codec).registry.folders ping.account r).world = r :=
    congrArg Answer.world hread
  by_cases hnil : watched ping.account (writes ops) = []
  · obtain ⟨hresult, hunsent, hleft, hping⟩ := Ping.run_of_idle hfolders (hselect.trans hnil) x
    refine ⟨?_, ?_, fun _ => ⟨hresult, hunsent, hleft.trans hworld, hping⟩⟩
    · rw [hunsent, ← watched_ne_nil_iff]
      exact ⟨nofun, fun hne => absurd hnil hne⟩
    · intro message hmessage
      rw [hunsent] at hmessage
      cases hmessage
  · have hrequest : ping.request? folders
        = some ⟨ping.heartbeat.secs, watched ping.account (writes ops), hnil⟩ := by
      rw [Ping.request?, hselect, Request.build?, dif_neg hnil]
    obtain ⟨payload, hpayload⟩ := hencode ⟨_, _, hnil⟩ rfl rfl
    have hmessage : call.sent = _ := Ping.sent_of_prepared ⟨hfolders, hrequest, hpayload⟩ hsent
    refine ⟨?_, ?_, fun hnone => absurd (watched_eq_nil_iff.2 hnone) hnil⟩
    · rw [hmessage, ← watched_ne_nil_iff]
      exact ⟨fun _ => hnil, fun _ => rfl⟩
    · intro message h
      rw [hmessage] at h
      cases h
      exact ⟨_, hpayload, rfl, rfl, hnodup⟩

/-- A folder that gets its sync key later, one that comes back with another class after its flag was
cleared for the old one, one that is at the initial key, and an account that is deleted. -/
theorem watched_of_history_changed_class :
    let ops : List Op := [.saveFolder ⟨1⟩ ⟨"inbox", .email, none, true⟩,
      .saveFolder ⟨1⟩ ⟨"plans", .calendar, some "5", true⟩,
      .saveFolder ⟨2⟩ ⟨"inbox", .email, some "1", true⟩, .setSyncKey ⟨1⟩ (some "7"),
      .saveFolder ⟨1⟩ ⟨"drafts", .email, some "0", true⟩, .setAutoSync ⟨1⟩ .calendar false,
      .saveFolder ⟨1⟩ ⟨"plans", .tasks, some "5", true⟩, .setAutoSync ⟨1⟩ .calendar false,
      .deleteAccount ⟨2⟩]
    let call := fun account => Ping.run (collaborators Codec.json) ⟨account, ⟨.standard, 480⟩⟩
      ⟨.error (.connection "reset"), some .zero, none⟩ (after ops .empty)
    (∃ message request, (call ⟨1⟩).sent = some message ∧
        Codec.json.encode request = .ok message.payload ∧
        request.folders = [⟨"inbox", .email⟩, ⟨"plans", .tasks⟩]) ∧
      (call ⟨2⟩).result = .ok .nothingToWatch := by
  intro ops call
  have hof : ∀ account, _ := fun account =>
    watched_of_history ops Codec.json ⟨account, ⟨.standard, 480⟩⟩
      (show (Exchange.mk (.error (.connection "reset")) (some .zero) none).isSent = true from rfl)
      fun _ _ _ => ⟨_, rfl⟩
  constructor
  · obtain ⟨hsent, hmessage, -⟩ := hof ⟨1⟩
    obtain ⟨message, h⟩ := Option.isSome_iff_exists.1 (hsent.2 ⟨"inbox", by decide⟩)
    obtain ⟨request, hpayload, -, hfolders, -⟩ := hmessage message h
    exact ⟨message, request, h, hpayload, hfolders.trans (by decide)⟩
  · exact ((hof ⟨2⟩).2.2 (watched_eq_nil_iff.1 (by decide))).1

end Repository

end MailPush
