import MailPush.Proofs.Ping.StatusTable
import MailPush.Proofs.Store.Pings

set_option autoImplicit false

/-! # From a response to queued requests

What becomes of a response when a ping runs over a repository and its effects are carried out
there: the requests that it asks for (`FolderTable.work`) stand at the end of the queue of the
account, in order, if there is a number for each of them (`work_of_run`). The folder of a request
is the only one that has the server id in the account, because the table has no two rows of one
account and server id (`FolderTable.findByServerId?_list`).

Without a number the request is refused, and the work is lost (`work_refused`).
-/

namespace MailPush

namespace FolderTable

variable {t : FolderTable} {account : AccountId}

/-- The folder that is listed for a server id is that of the one row that has it. -/
theorem findByServerId?_list {folders : List Folder} (h : t.list account = .ok folders)
    (serverId : String) :
    (Folder.findByServerId? folders serverId).map (·.id.number) = t.find? (account, serverId) := by
  rw [find?_eq_idOf?, idOf?, Folder.findByServerId?]
  have hrows := list_eq_ok_iff.1 h
  generalize t.rowsOf account = rows at hrows
  clear h
  induction hrows with
  | nil => rfl
  | cons hrow hrest ih =>
      rename_i e folder rows' folders'
      obtain ⟨-, hfolder⟩ := FolderRow.folder_eq_ok_iff.1 hrow
      have hnumber : folder.id.number = e.1 := congrArg (·.id.number) hfolder
      have hserver : folder.serverId = e.2.serverId := congrArg Folder.serverId hfolder
      rw [List.find?_cons, List.find?_cons, hserver]
      cases e.2.serverId == serverId with
      | true => exact congrArg some hnumber
      | false => exact ih

/-- The requests that a response asks for, over the folders of an account: to synchronise the
folders that it names, or to refresh their list. -/
def work (t : FolderTable) (account : AccountId) (response : Response) : List SyncRequestKind :=
  if response.status.number = 2 then
    response.folders.filterMap fun serverId =>
      (t.find? (account, serverId)).map fun number => .folder ⟨number⟩
  else if response.status.number = 7 then [.folderList]
  else []

theorem requestKind_resolve {folders : List Folder} (h : t.list account = .ok folders)
    (serverIds : List String) :
    (Effect.resolve folders serverIds).map Effect.requestKind =
      serverIds.filterMap fun serverId =>
        (t.find? (account, serverId)).map fun number => .folder ⟨number⟩ := by
  rw [Effect.resolve, List.map_filterMap]
  congr 1
  funext serverId
  rw [← findByServerId?_list h, Option.map_map, Option.map_map]
  rfl

/-- The effects of a response make the requests that it asks for. -/
theorem requestKind_ofAction {folders : List Folder} (h : t.list account = .ok folders)
    (response : Response) :
    (Effect.ofAction folders (classify response).action).map Effect.requestKind =
      t.work account response := by
  rw [action_classify, actionTable, work]
  by_cases h2 : response.status.number = 2
  · rw [h2]
    exact requestKind_resolve h response.folders
  by_cases h7 : response.status.number = 7
  · rw [h7]
    rfl
  simp only [h2, h7, if_false]
  -- the other two rows that mandate an action adjust the heartbeat
  split_ifs
  · rfl
  · cases response.heartbeatInterval <;> rfl
  · rfl

end FolderTable

namespace Repository

variable {heartbeats : Rows Int64} {folders : FolderTable} {requests : RequestTable}

/-- **From a response to queued requests.** A run over a repository adds nothing to any queue. If
it completes, it has decoded a response, and carrying out its effects puts the requests which that
response asks for at the end of the queue of the account, in their order. If there are fewer
numbers than requests, the first ones get them, and then the registry refuses. No other queue
changes, and the folder of a request is the only one of the account with the server id. -/
theorem work_of_run (codec : Codec) (ping : Ping) (x : Exchange) (heartbeats : Rows Int64)
    (folders : FolderTable) (requests : RequestTable) :
    let start := ofTables heartbeats folders requests
    let r := Ping.run (collaborators codec) ping x start
    r.world.requests = some requests ∧
    (∀ serverId number, folders.find? (ping.account, serverId) = some number ↔
      ∃ row, (number, row) ∈ folders.entries ∧ row.account = ping.account ∧
        row.serverId = serverId) ∧
    ∀ classification effects, r.result = .ok (.completed classification effects) →
      ∃ list response queue,
        Ping.Decodes (collaborators codec) ping x start list response ∧
        classification = classify response ∧
        let work := folders.work ping.account response
        let recorded := fun kind => SyncRequest.mk ping.account kind .recording
        let applied := applyEffects folderRegistry ping.account effects r.world
        applied.world.requests = some queue ∧
        (work.length ≤ requests.left → applied.result = .ok () ∧
          RequestTable.pending queue ping.account =
            RequestTable.pending requests ping.account ++ work.map recorded) ∧
        (requests.left < work.length →
          applied.result = .error (.storage (.store (.database .full))) ∧
          RequestTable.pending queue ping.account =
            RequestTable.pending requests ping.account ++
              (work.take requests.left).map recorded) ∧
        ∀ other, ping.account ≠ other →
          RequestTable.pending queue other = RequestTable.pending requests other := by
  intro start r
  have hworld : r.world =
      ofTables (writeHeartbeat heartbeats ping.account r.adjusted?) folders requests :=
    run_ofTables codec ping x
  refine ⟨congrArg Repository.requests hworld, ?_, ?_⟩
  · intro serverId number
    rw [FolderTable.find?_eq_some_iff]
    simp only [FolderRow.key, Prod.mk.injEq]
  · intro classification effects hresult
    obtain ⟨list, response, hdecodes, hclass, heffects⟩ := Ping.decodes_of_completed hresult
    obtain ⟨_, _, hprep⟩ := hdecodes.prepared
    have hlist : folders.list ping.account = .ok list := list_of_folders hprep.folders_eq
    -- the requests made are those of the table, in the same order
    have hwork : effects.map Effect.requestKind = folders.work ping.account response := by
      rw [heffects]
      exact FolderTable.requestKind_ofAction hlist response
    have hlength : effects.length = (folders.work ping.account response).length := by
      rw [← hwork, List.length_map]
    obtain ⟨happlied, hanswer, hpending, -⟩ :=
      applyEffects_ofTables ping.account effects
        (writeHeartbeat heartbeats ping.account r.adjusted?) folders requests
    rw [← hworld] at happlied hanswer
    have hself : RequestTable.pending (afterEffects ping.account effects requests) ping.account =
        RequestTable.pending requests ping.account ++
          ((folders.work ping.account response).take requests.left).map
            fun kind => ⟨ping.account, kind, .recording⟩ := by
      rw [hpending, if_pos rfl, ← hwork, ← List.map_take, List.map_map]
      rfl
    refine ⟨list, response, afterEffects ping.account effects requests, hdecodes, hclass, ?_⟩
    refine ⟨congrArg Repository.requests happlied, fun hroom => ?_, fun hfull => ?_, ?_⟩
    · rw [hanswer, if_pos (hlength ▸ hroom)]
      rw [List.take_of_length_le hroom] at hself
      exact ⟨rfl, hself⟩
    · rw [hanswer, if_neg (by omega)]
      exact ⟨rfl, hself⟩
    · intro other hne
      rw [hpending, if_neg hne, List.append_nil]

/-- The folders of two accounts: the first has an inbox and a calendar, the second a folder of
its own between them. -/
def sharedFolders : FolderTable :=
  ([.saveFolder ⟨1⟩ ⟨"inbox", .email, some "1", true⟩,
    .saveFolder ⟨2⟩ ⟨"shared", .email, some "1", true⟩,
    .saveFolder ⟨1⟩ ⟨"calendar", .calendar, none, true⟩] : List Op).foldl
    (fun t op => op.onFolders t) .empty

/-- A server reports five changes, one of them twice, one in a folder that is unknown and one in a
folder of another account: three requests follow the one that was in the queue before. -/
theorem work_of_run_changes :
    let response : Response :=
      ⟨.changesFound, ["calendar", "gone", "inbox", "shared", "calendar"], none, none⟩
    let codec : Codec := ⟨fun _ => .ok [0], fun _ => .ok response⟩
    let ping : Ping := ⟨⟨1⟩, .restore .standard none⟩
    let x : Exchange := ⟨.ok [0], some .zero, none⟩
    let requests := (Op.recordRequest ⟨1⟩ .ping).onRequests .empty
    let r := Ping.run (collaborators codec) ping x (ofTables .empty sharedFolders requests)
    ∃ effects queue, r.result = .ok (.completed (.changesFound response.folders) effects) ∧
      (applyEffects folderRegistry ⟨1⟩ effects r.world).world.requests = some queue ∧
      (RequestTable.pending queue ⟨1⟩).map (·.kind) =
        [.ping, .folder ⟨3⟩, .folder ⟨1⟩, .folder ⟨3⟩] := by
  intro response codec ping x requests r
  have hresult : r.result = .ok (.completed (.changesFound response.folders) _) := rfl
  obtain ⟨-, -, hwork⟩ := work_of_run codec ping x .empty sharedFolders requests
  obtain ⟨list, response', queue, hdecodes, -, hqueue, hroom, -⟩ := hwork _ _ hresult
  obtain ⟨body, -, -, hdecode⟩ := hdecodes.body
  obtain rfl : response = response' := Except.ok.inj hdecode
  refine ⟨_, queue, hresult, hqueue, ?_⟩
  rw [(hroom (by decide)).2]
  decide

/-! ## Without numbers -/

theorem after_cons (op : Op) (ops : List Op) (r : Repository) :
    Repository.after (op :: ops) r = Repository.after ops (op.perform r).world := rfl

/-- Requests that are recorded for one account take numbers, and leave the other queues. -/
theorem after_replicate_recordRequest {account other : AccountId} (hne : account ≠ other)
    (kind : SyncRequestKind) (heartbeats : Rows Int64) (folders : FolderTable) {n m : Nat}
    (h : requests.left = n + m) :
    ∃ requests', after (List.replicate n (.recordRequest account kind))
        (ofTables heartbeats folders requests) = ofTables heartbeats folders requests' ∧
      requests'.left = m ∧
      RequestTable.pending requests' other = RequestTable.pending requests other := by
  induction n generalizing requests with
  | zero => exact ⟨requests, rfl, h.trans (Nat.zero_add m), rfl⟩
  | succ n ih =>
      obtain ⟨id, requests₁, hinsert, hleft⟩ := Table.insert?_of_left
        (RequestRow.ofKind account kind) (h.trans (Nat.succ_add n m))
      have hpending : RequestTable.pending requests₁ other = _ :=
        RequestTable.pending_insert? hinsert (RequestRow.stands_ofKind account kind)
      rw [if_neg hne, List.append_nil] at hpending
      obtain ⟨requests', hafter, hleft', hother⟩ := ih hleft
      refine ⟨requests', ?_, hleft', hother.trans hpending⟩
      rw [← hafter, List.replicate_succ]
      show after _ ((Op.recordRequest account kind).perform _).world = _
      rw [Op.perform, recordRequest_ofTables, hinsert]
      rfl

/-- A run over a repository without numbers whose server asks for a new list of folders: the run
completes, and the registry refuses the request. -/
theorem refused_of_left_eq_zero {start : Repository} {codec : Codec} {ping : Ping} {x : Exchange}
    (hstart : start = ofTables heartbeats folders requests) (hleft : requests.left = 0)
    {list : List Folder} {response : Response}
    (hdecodes : Ping.Decodes (collaborators codec) ping x start list response)
    (hstatus : response.status.number = 7) :
    let r := Ping.run (collaborators codec) ping x start
    let applied := applyEffects folderRegistry ping.account [.refreshFolderList] r.world
    r.result = .ok (.completed .folderListStale [.refreshFolderList]) ∧
      applied.result = .error (.storage (.store (.database .full))) ∧
      ∃ queue, applied.world.requests = some queue ∧ ∀ account,
        RequestTable.pending queue account = RequestTable.pending requests account := by
  intro r applied
  subst hstart
  have hworld : r.world = _ := run_ofTables codec ping x
  obtain ⟨hqueue, hanswer, hrest, -⟩ :=
    applyEffects_ofTables ping.account [.refreshFolderList]
      (writeHeartbeat heartbeats ping.account r.adjusted?) folders requests
  rw [← hworld] at hqueue hanswer
  rw [hleft] at hanswer
  refine ⟨Ping.run_of_number hdecodes hstatus, hanswer, _,
    congrArg Repository.requests hqueue, fun account => ?_⟩
  rw [hrest, hleft, List.take_zero, List.map_nil, ite_self, List.append_nil]

/-- **Work is lost when there are no numbers.** Another account has recorded as many requests as
there are numbers. The server asks for a new list of folders, and the run completes; the registry
refuses the request, and nothing is pending afterwards. -/
theorem work_refused :
    let ops : List Op := .saveFolder ⟨1⟩ ⟨"inbox", .email, some "1", true⟩ ::
      List.replicate 9223372036854775807 (.recordRequest ⟨2⟩ .ping)
    let codec : Codec := ⟨fun _ => .ok [0], fun _ => .ok (.ofStatus .folderRefreshNeeded)⟩
    let ping : Ping := ⟨⟨1⟩, .restore .standard none⟩
    let x : Exchange := ⟨.ok [0], some .zero, none⟩
    let r := Ping.run (collaborators codec) ping x (Repository.after ops .empty)
    let applied := applyEffects folderRegistry ping.account [.refreshFolderList] r.world
    r.result = .ok (.completed .folderListStale [.refreshFolderList]) ∧
      applied.result = .error (.storage (.store (.database .full))) ∧
      ∃ queue, applied.world.requests = some queue ∧ RequestTable.pending queue ⟨1⟩ = [] := by
  intro ops codec ping x
  have hleft : (Table.empty : RequestTable).left = 9223372036854775807 + 0 := by decide
  obtain ⟨folders, hsaved⟩ : ∃ folders,
      folders = (Op.saveFolder ⟨1⟩ ⟨"inbox", .email, some "1", true⟩).onFolders .empty := ⟨_, rfl⟩
  have hne : AccountId.mk 2 ≠ ⟨1⟩ := by decide
  obtain ⟨requests, hafter, hnone, hpending⟩ :=
    after_replicate_recordRequest hne .ping .empty folders hleft
  have hfirst : ((Op.saveFolder ⟨1⟩ ⟨"inbox", .email, some "1", true⟩).perform .empty).world =
      ofTables .empty folders .empty := hsaved ▸ perform_ofTables _
  have hstart : Repository.after ops .empty = ofTables .empty folders requests := by
    rw [after_cons, hfirst, hafter]
  -- the history is too long to be computed, and all that matters of it is in `hstart`
  generalize Repository.after ops .empty = start at hstart
  have hdecodes : Ping.Decodes (collaborators codec) ping x start
      [⟨⟨1⟩, "inbox", .email, true, true⟩] (.ofStatus .folderRefreshNeeded) := by
    rw [hstart, hsaved]
    exact ⟨⟨_, _, rfl, rfl, rfl⟩, [0], Ping.ending_at_once _ _, by decide, rfl⟩
  obtain ⟨hresult, hanswer, queue, hqueue, hrest⟩ :=
    refused_of_left_eq_zero hstart hnone hdecodes rfl
  exact ⟨hresult, hanswer, queue, hqueue, (hrest ⟨1⟩).trans hpending⟩

end Repository

end MailPush
