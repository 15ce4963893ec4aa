import MailPush.Account
import MailPush.Folder
import MailPush.Json.Record
import MailPush.Json.Writer

set_option autoImplicit false

/-! # Accounts and folders in JSON

Identities are numbers, a class is its name, and a folder is a record all of whose members are
required.
-/

namespace MailPush

open Json

instance : Readable AccountId := ⟨int64Reader.map AccountId.mk⟩
instance : Writable AccountId := ⟨fun account => Writable.write account.number⟩

instance : Readable FolderId := ⟨int64Reader.map FolderId.mk⟩
instance : Writable FolderId := ⟨fun id => Writable.write id.number⟩

instance : Readable FolderClass := ⟨nameReader FolderClass.ofName?⟩
instance : Writable FolderClass := ⟨fun c => writeText c.name⟩

/-! ## Folders of the registry -/

/-- A folder of which some members have been read. -/
structure Folder.Draft where
  id : Option FolderId
  serverId : Option String
  folderClass : Option FolderClass
  hasCompletedInitialSync : Option Bool
  autoSyncEnabled : Option Bool

/-- The shape of a folder. -/
def Folder.shape : Shape Folder.Draft Folder where
  members :=
    [.ofSlot "id" (·.id) fun v d => { d with id := some v },
     .ofSlot "server_id" (·.serverId) fun v d => { d with serverId := some v },
     .ofSlot "class" (·.folderClass) fun v d => { d with folderClass := some v },
     .ofSlot "has_completed_initial_sync" (·.hasCompletedInitialSync)
       fun v d => { d with hasCompletedInitialSync := some v },
     .ofSlot "auto_sync_enabled" (·.autoSyncEnabled) fun v d => { d with autoSyncEnabled := some v }]
  blank := ⟨none, none, none, none, none⟩
  finish d := do
    return ⟨← d.id, ← d.serverId, ← d.folderClass, ← d.hasCompletedInitialSync,
      ← d.autoSyncEnabled⟩

instance : Readable Folder := ⟨Folder.shape.reader⟩

instance : Writable Folder :=
  ⟨fun f => writeObject
    [("id", Writable.write f.id), ("server_id", Writable.write f.serverId),
     ("class", Writable.write f.folderClass),
     ("has_completed_initial_sync", Writable.write f.hasCompletedInitialSync),
     ("auto_sync_enabled", Writable.write f.autoSyncEnabled)]⟩

/-! ## Watched folders -/

/-- A watched folder of which some members have been read. -/
structure WatchedFolder.Draft where
  serverId : Option String
  folderClass : Option FolderClass

/-- The shape of a watched folder. -/
def WatchedFolder.shape : Shape WatchedFolder.Draft WatchedFolder where
  members :=
    [.ofSlot "server_id" (·.serverId) fun v d => { d with serverId := some v },
     .ofSlot "class" (·.folderClass) fun v d => { d with folderClass := some v }]
  blank := ⟨none, none⟩
  finish d := do
    return ⟨← d.serverId, ← d.folderClass⟩

instance : Readable WatchedFolder := ⟨WatchedFolder.shape.reader⟩

instance : Writable WatchedFolder :=
  ⟨fun f => writeObject
    [("server_id", Writable.write f.serverId), ("class", Writable.write f.folderClass)]⟩

end MailPush
