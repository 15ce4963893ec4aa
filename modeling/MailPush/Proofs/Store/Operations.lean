import MailPush.Store.Repository

set_option autoImplicit false

/-! # Histories of a repository

An operation as a value (`Op`), what it does (`Op.perform`), and what a list of operations does
one after the other: the repository they leave (`after`) and what each of them answered
(`trace`).

On a repository that has its three tables every operation works on each table by itself
(`perform_ofTables`), so a history leaves in each table what its operations did to that table
(`after_ofTables`).
-/

namespace MailPush

/-- An answer with its result changed. -/
def Answer.map {σ α β : Type} (f : α → β) (a : Answer σ α) : Answer σ β :=
  ⟨a.result.map f, a.world, a.events⟩

namespace Repository

/-- What an operation yields. -/
inductive Value where
  | done
  | heartbeat (secs : Option UInt64)
  | saved (id : FolderId)
  | folders (list : List Folder)
  | requests (list : List SyncRequest)
deriving DecidableEq

/-- An operation with what it is given. -/
inductive Op where
  | heartbeat (account : AccountId)
  | setHeartbeat (account : AccountId) (secs : UInt64)
  | saveFolder (account : AccountId) (folder : NewFolder)
  | setSyncKey (id : FolderId) (syncKey : Option String)
  | setAutoSync (account : AccountId) (folderClass : FolderClass) (enabled : Bool)
  | listFolders (account : AccountId)
  | recordRequest (account : AccountId) (kind : SyncRequestKind)
  /-- A request that comes in through the registry of folders. -/
  | request (account : AccountId) (kind : SyncRequestKind)
  | pendingRequests (account : AccountId)
  | takePendingRequests (account : AccountId)
  | deleteAccount (account : AccountId)
deriving DecidableEq

namespace Op

/-- What an operation does to a repository. -/
def perform (op : Op) (r : Repository) : Answer Repository Value :=
  match op with
  | heartbeat account => (r.answerRead (r.heartbeat account)).map .heartbeat
  | setHeartbeat account secs => (r.answer (r.setHeartbeat account secs)).map fun _ => .done
  | saveFolder account folder => (r.answer (r.saveFolder account folder)).map .saved
  | setSyncKey id syncKey => (r.answer (r.setSyncKey id syncKey)).map fun _ => .done
  | setAutoSync account folderClass enabled =>
      (r.answer (r.setAutoSync account folderClass enabled)).map fun _ => .done
  | listFolders account => (folderRegistry.folders account r).map .folders
  | recordRequest account kind => (r.answer (r.recordRequest account kind)).map fun _ => .done
  | request account kind => (folderRegistry.request account kind r).map fun _ => .done
  | pendingRequests account => (r.answer (r.pendingRequests account)).map .requests
  | takePendingRequests account => (r.answer (r.takePendingRequests account)).map .requests
  | deleteAccount account => (r.answer (r.deleteAccount account)).map fun _ => .done

/-! ## One table at a time -/

/-- What an operation does to the heartbeats. -/
def onHeartbeats (op : Op) (rows : Rows Int64) : Rows Int64 :=
  match op with
  | setHeartbeat account secs =>
      match storedOfHeartbeat secs with
      | .ok stored => rows.put account.number stored
      | .error _ => rows
  | deleteAccount account => rows.keep fun id _ => id != account.number
  | _ => rows

/-- What an operation does to the folders. -/
def onFolders (op : Op) (t : FolderTable) : FolderTable :=
  match op with
  | saveFolder account folder =>
      match t.save? account folder with
      | some (_, t') => t'
      | none => t
  | setSyncKey id syncKey => t.setSyncKey id syncKey
  | setAutoSync account folderClass enabled => t.setAutoSync account folderClass enabled
  | deleteAccount account => t.deleteAccount account
  | _ => t

/-- What an operation does to the requests. -/
def onRequests (op : Op) (t : RequestTable) : RequestTable :=
  match op with
  | recordRequest account kind | request account kind =>
      match t.insert? (RequestRow.ofKind account kind) with
      | some (_, t') => t'
      | none => t
  | takePendingRequests account => t.removePending account
  | deleteAccount account => t.deleteAccount account
  | _ => t

end Op

/-- The repository of three tables. -/
def ofTables (heartbeats : Rows Int64) (folders : FolderTable) (requests : RequestTable) :
    Repository :=
  ⟨some heartbeats, some folders, some requests⟩

variable {heartbeats : Rows Int64} {folders : FolderTable} {requests : RequestTable}

theorem setHeartbeat_ofTables (account : AccountId) (secs : UInt64) :
    (ofTables heartbeats folders requests).setHeartbeat account secs =
      match storedOfHeartbeat secs with
      | .ok stored =>
          .ok ⟨(), ofTables (heartbeats.put account.number stored) folders requests,
            [.heartbeatStored account secs]⟩
      | .error e => .error e := by
  rw [setHeartbeat]
  cases storedOfHeartbeat secs <;> rfl

theorem saveFolder_ofTables (account : AccountId) (folder : NewFolder) :
    (ofTables heartbeats folders requests).saveFolder account folder =
      match folders.save? account folder with
      | some (id, t) => .ok ⟨id, ofTables heartbeats t requests, []⟩
      | none => .error (.database .full) := rfl

theorem recordRequest_ofTables (account : AccountId) (kind : SyncRequestKind) :
    (ofTables heartbeats folders requests).recordRequest account kind =
      match requests.insert? (RequestRow.ofKind account kind) with
      | some (_, t) => .ok ⟨(), ofTables heartbeats folders t, [.requestQueued account kind]⟩
      | none => .error (.database .full) := rfl

theorem perform_request (account : AccountId) (kind : SyncRequestKind) (r : Repository) :
    (Op.request account kind).perform r = (Op.recordRequest account kind).perform r := rfl

/-- **An operation works on each table by itself**, and never removes one. -/
theorem perform_ofTables (op : Op) :
    (op.perform (ofTables heartbeats folders requests)).world =
      ofTables (op.onHeartbeats heartbeats) (op.onFolders folders) (op.onRequests requests) := by
  cases op with
  | setHeartbeat account secs =>
      rw [Op.perform, setHeartbeat_ofTables, Op.onHeartbeats]
      cases storedOfHeartbeat secs <;> rfl
  | saveFolder account folder =>
      rw [Op.perform, saveFolder_ofTables, Op.onFolders]
      cases folders.save? account folder <;> rfl
  | recordRequest account kind =>
      rw [Op.perform, recordRequest_ofTables, Op.onRequests]
      cases requests.insert? (RequestRow.ofKind account kind) <;> rfl
  | request account kind =>
      rw [perform_request, Op.perform, recordRequest_ofTables, Op.onRequests]
      cases requests.insert? (RequestRow.ofKind account kind) <;> rfl
  | heartbeat | setSyncKey | setAutoSync | listFolders | pendingRequests | takePendingRequests
  | deleteAccount => rfl

/-! ## Histories -/

/-- The repository after a list of operations. -/
def after (ops : List Op) (r : Repository) : Repository :=
  ops.foldl (fun r op => (op.perform r).world) r

/-- An operation of a history with its answer. -/
structure Step where
  op : Op
  answer : Answer Repository Value

/-- What the operations of a history answer, in order. -/
def trace : List Op → Repository → List Step
  | [], _ => []
  | op :: ops, r => ⟨op, op.perform r⟩ :: trace ops (op.perform r).world

theorem trace_concat (ops : List Op) (op : Op) (r : Repository) :
    trace (ops ++ [op]) r = trace ops r ++ [⟨op, op.perform (after ops r)⟩] := by
  induction ops generalizing r with
  | nil => rfl
  | cons first ops ih =>
      show _ :: trace (ops ++ [op]) _ = _
      rw [ih]
      rfl

/-- **A history works on each table by itself.** -/
theorem after_ofTables (ops : List Op) :
    after ops (ofTables heartbeats folders requests) =
      ofTables (ops.foldl (fun rows op => op.onHeartbeats rows) heartbeats)
        (ops.foldl (fun t op => op.onFolders t) folders)
        (ops.foldl (fun t op => op.onRequests t) requests) := by
  induction ops generalizing heartbeats folders requests with
  | nil => rfl
  | cons op ops ih =>
      show after ops (op.perform _).world = _
      rw [perform_ofTables, ih]
      rfl

end Repository

end MailPush
