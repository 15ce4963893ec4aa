import MailPush.Collaborators
import MailPush.Store.Folders
import MailPush.Store.Requests

set_option autoImplicit false

/-! # The repository

Heartbeats, folders and sync requests of all accounts, in three tables. A table may be missing,
and then every operation on it fails. An operation that fails changes nothing; one that
succeeds yields a value, the repository afterwards and the events it reported (`Done`).

The repository is a collaborator of pings (`Repository.collaborators`).
-/

namespace MailPush

/-- The stored state of all accounts; a missing table is `none`. -/
structure Repository where
  heartbeats : Option (Rows Int64)
  folders : Option FolderTable
  requests : Option RequestTable

namespace Repository

/-- The repository whose tables are empty. -/
def empty : Repository := ⟨some .empty, some .empty, some .empty⟩

/-- The repository with its missing tables made anew. -/
def makeTables (r : Repository) : Repository :=
  ⟨some (r.heartbeats.getD .empty), some (r.folders.getD .empty), some (r.requests.getD .empty)⟩

/-- What a successful operation leaves. -/
structure Done (α : Type) where
  value : α
  repository : Repository
  events : List Event

/-- A table that an operation needs. -/
def need {α : Type} (name : TableName) : Option α → Except StoreError α
  | some table => .ok table
  | none => .error (.database (.noSuchTable name))

/-- The folder table. -/
def folderTable (r : Repository) : Except StoreError FolderTable := need .folders r.folders

/-- The table of requests. -/
def requestTable (r : Repository) : Except StoreError RequestTable := need .requests r.requests

/-- The table of heartbeats. -/
def heartbeatRows (r : Repository) : Except StoreError (Rows Int64) := need .heartbeats r.heartbeats

/-! ## Heartbeats

Heartbeats are stored as signed words. A negative one counts as absent. -/

/-- The heartbeat of a stored number. -/
def heartbeatOfStored (n : Int64) : Option UInt64 :=
  if n < 0 then none else some n.toUInt64

/-- The stored number of a heartbeat, if it fits. -/
def storedOfHeartbeat (secs : UInt64) : Except StoreError Int64 :=
  if secs.toNat < 9223372036854775808 then .ok secs.toInt64 else .error (.outOfRange secs)

/-- The stored heartbeat of an account. -/
def heartbeat (r : Repository) (account : AccountId) : Except StoreError (Option UInt64) := do
  let rows ← r.heartbeatRows
  return (rows.get? account.number).bind heartbeatOfStored

/-- Stores the heartbeat of an account. -/
def setHeartbeat (r : Repository) (account : AccountId) (secs : UInt64) :
    Except StoreError (Done Unit) := do
  let stored ← storedOfHeartbeat secs
  let rows ← r.heartbeatRows
  return ⟨(), { r with heartbeats := some (rows.put account.number stored) },
    [.heartbeatStored account secs]⟩

/-! ## Folders -/

/-- Registers a folder, or updates the one with its server id; yields its id. -/
def saveFolder (r : Repository) (account : AccountId) (folder : NewFolder) :
    Except StoreError (Done FolderId) := do
  let table ← r.folderTable
  match table.save? account folder with
  | some (id, table) => return ⟨id, { r with folders := some table }, []⟩
  | none => throw (.database .full)

/-- Sets the sync key of a folder; an unknown id changes nothing. -/
def setSyncKey (r : Repository) (id : FolderId) (syncKey : Option String) :
    Except StoreError (Done Unit) := do
  let table ← r.folderTable
  return ⟨(), { r with folders := some (table.setSyncKey id syncKey) }, []⟩

/-- Enables or disables automatic synchronisation for the folders of a class. -/
def setAutoSync (r : Repository) (account : AccountId) (folderClass : FolderClass)
    (enabled : Bool) : Except StoreError (Done Unit) := do
  let table ← r.folderTable
  return ⟨(), { r with folders := some (table.setAutoSync account folderClass enabled) }, []⟩

/-- The folders of an account, in the order of their registration. -/
def listFolders (r : Repository) (account : AccountId) : Except StoreError (List Folder) := do
  let table ← r.folderTable
  table.list account

/-! ## Sync requests -/

/-- Queues a sync request. -/
def recordRequest (r : Repository) (account : AccountId) (kind : SyncRequestKind) :
    Except StoreError (Done Unit) := do
  let table ← r.requestTable
  match table.insert? (RequestRow.ofKind account kind) with
  | some (_, table) =>
    return ⟨(), { r with requests := some table }, [.requestQueued account kind]⟩
  | none => throw (.database .full)

/-- The queued requests of an account, oldest first. -/
def pendingRequests (r : Repository) (account : AccountId) :
    Except StoreError (Done (List SyncRequest)) := do
  let table ← r.requestTable
  return ⟨RequestTable.pending table account, r, RequestTable.warnings table account⟩

/-- Removes the queued requests of an account and yields them, oldest first. -/
def takePendingRequests (r : Repository) (account : AccountId) :
    Except StoreError (Done (List SyncRequest)) := do
  let table ← r.requestTable
  return ⟨RequestTable.pending table account,
    { r with requests := some (RequestTable.removePending table account) },
    RequestTable.warnings table account⟩

/-! ## Accounts -/

/-- Deletes everything stored for an account. -/
def deleteAccount (r : Repository) (account : AccountId) : Except StoreError (Done Unit) := do
  let rows ← r.heartbeatRows
  let folders ← r.folderTable
  let requests ← r.requestTable
  return ⟨(),
    { heartbeats := some (rows.keep fun id _ => id != account.number)
      folders := some (folders.deleteAccount account)
      requests := some (RequestTable.deleteAccount requests account) }, []⟩

/-! ## As a collaborator of pings -/

/-- The answer of an operation that only reads. -/
def answerRead {α : Type} (r : Repository) (result : Except StoreError α) : Answer Repository α :=
  ⟨result.mapError fun e => .storage (.store e), r, []⟩

/-- The answer of an operation. -/
def answer {α : Type} (r : Repository) : Except StoreError (Done α) → Answer Repository α
  | .ok done => ⟨.ok done.value, done.repository, done.events⟩
  | .error e => ⟨.error (.storage (.store e)), r, []⟩

/-- The repository as a store of heartbeats. -/
def heartbeatStore : HeartbeatStore Repository where
  load account r := r.answerRead (r.heartbeat account)
  store account secs r := r.answer (r.setHeartbeat account secs)

/-- The repository as a registry of folders. -/
def folderRegistry : FolderRegistry Repository where
  folders account r := r.answerRead (r.listFolders account)
  request account kind r := r.answer (r.recordRequest account kind)

/-- The repository with a codec, as the collaborators of a ping. -/
def collaborators (codec : Codec) : Collaborators Repository :=
  ⟨heartbeatStore, folderRegistry, codec⟩

end Repository

end MailPush
