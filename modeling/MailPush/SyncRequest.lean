import MailPush.Folder

set_option autoImplicit false

/-! # Sync requests

The work that pings leave for the synchronisation loop.
-/

namespace MailPush

/-- What the synchronisation loop is asked to do. -/
inductive SyncRequestKind where
  /-- Synchronise one folder. -/
  | folder (id : FolderId)
  /-- Refresh the folder list. -/
  | folderList
  /-- Start pushing for the account, or start it again. -/
  | ping
deriving DecidableEq

namespace SyncRequestKind

/-- The name of a kind in stored rows. -/
def name : SyncRequestKind → String
  | folder _ => "folder"
  | folderList => "folder_list"
  | ping => "ping"

/-- The folder of a request for one. -/
def folderId? : SyncRequestKind → Option FolderId
  | folder id => some id
  | folderList | ping => none

/-- The kind of a stored name and folder. A request for a folder needs one; the others ignore
it. -/
def ofParts? (name : String) (folder : Option FolderId) : Option SyncRequestKind :=
  if name = "folder" then folder.map .folder
  else if name = "folder_list" then some .folderList
  else if name = "ping" then some .ping
  else none

theorem ofParts?_name (kind : SyncRequestKind) :
    ofParts? kind.name kind.folderId? = some kind := by
  cases kind <;> rfl

end SyncRequestKind

end MailPush
