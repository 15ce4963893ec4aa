import MailPush.Classification
import MailPush.Folder
import MailPush.TransportError

set_option autoImplicit false

/-! # Outcomes of a ping

How a ping can end, and the work that it leaves for its caller.
-/

namespace MailPush

/-- Work that a caller must carry out after a ping. -/
inductive Effect where
  /-- Synchronise a changed folder. -/
  | syncFolder (folder : FolderId) (serverId : String) (folderClass : FolderClass)
  /-- Refresh the folder list of the account. -/
  | refreshFolderList
deriving DecidableEq

/-- The result of one ping. -/
inductive Outcome where
  /-- The server answered with a status after which the caller may keep pushing. -/
  | completed (classification : Classification) (effects : List Effect)
  /-- No folder is to be watched; nothing was sent. -/
  | nothingToWatch
  /-- The account cannot synchronise until it is authorised again; stop pushing. -/
  | fatalAuth (status : Status)
  /-- Client and server disagree about their state; stop pushing. -/
  | fatalProtocol (status : Status)
  /-- The server asks the client to try again. -/
  | retryLater
  /-- The request failed or its response was unusable; the heartbeat has been backed off. -/
  | operationFailure (failure : TransportError)
  /-- The caller gave the ping up before it ended. -/
  | cancelled
deriving DecidableEq

/-- The outcome of a classified response. -/
def Outcome.ofClassification (classification : Classification) (effects : List Effect) : Outcome :=
  match classification with
  | .retryLater => .retryLater
  | .fatalAuth status => .fatalAuth status
  | .fatalProtocol status => .fatalProtocol status
  | _ => .completed classification effects

/-! ## Changed folders -/

/-- The first folder of a list that has a server id. -/
def Folder.findByServerId? (folders : List Folder) (serverId : String) : Option Folder :=
  folders.find? fun folder => folder.serverId == serverId

/-- The request to synchronise a folder. -/
def Effect.ofFolder (folder : Folder) : Effect :=
  .syncFolder folder.id folder.serverId folder.folderClass

/-- The effects of changed server ids, in their order; ids that no folder has are left out. -/
def Effect.resolve (folders : List Folder) (serverIds : List String) : List Effect :=
  serverIds.filterMap fun serverId => (Folder.findByServerId? folders serverId).map .ofFolder

/-- The changed server ids that no folder has. -/
def Folder.unknownIds (folders : List Folder) (serverIds : List String) : List String :=
  serverIds.filter fun serverId => (Folder.findByServerId? folders serverId).isNone

/-- The effects of an action, when these are the folders of the account. -/
def Effect.ofAction (folders : List Folder) : Option Action → List Effect
  | some (.resyncFolders serverIds) => Effect.resolve folders serverIds
  | some .refreshFolderList => [.refreshFolderList]
  | _ => []

end MailPush
