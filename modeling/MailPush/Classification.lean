import MailPush.Response

set_option autoImplicit false

/-! # Classification of responses

A response means one of eleven things, decided by its status alone (`classify`); a
classification carries the one part of the response that its status makes meaningful. Some
classifications mandate an action (`Classification.action`), and two of them are fatal: the
caller must stop pushing for the account (`Classification.isFatal`).
-/

namespace MailPush

/-- What a response means. -/
inductive Classification where
  /-- The heartbeat expired with no changes. -/
  | expired
  /-- These folders changed. -/
  | changesFound (folders : List String)
  /-- The request was incomplete or malformed. -/
  | badRequest (status : Status)
  /-- The heartbeat is outside the bounds of the server, which may have named one inside. -/
  | heartbeatOutOfBounds (serverHeartbeat : Option UInt64)
  /-- The server watches fewer folders, and may have said how many. -/
  | tooManyFolders (maxFolders : Option UInt32)
  /-- The folder list must be refreshed. -/
  | folderListStale
  /-- The server failed. -/
  | transientServerError
  /-- The server asks the client to try again later. -/
  | retryLater
  /-- The account cannot synchronise until it is authorised again. -/
  | fatalAuth (status : Status)
  /-- Client and server disagree about their state. -/
  | fatalProtocol (status : Status)
  /-- The status is none of the known ones. -/
  | unrecognized (status : Status)
deriving DecidableEq

/-- What must be done about a classification. -/
inductive Action where
  /-- Raise the heartbeat by one step. -/
  | increaseHeartbeat
  /-- Adopt the heartbeat of the server. -/
  | forceHeartbeat (secs : UInt64)
  /-- Synchronise the folders of these server ids. -/
  | resyncFolders (serverIds : List String)
  /-- Refresh the folder list. -/
  | refreshFolderList
deriving DecidableEq

/-- The meaning of a response. -/
def classify (response : Response) : Classification :=
  let status := response.status
  if status = .expired then .expired
  else if status = .changesFound then .changesFound response.folders
  else if status = .requestIncomplete ∨ status = .requestMalformed then .badRequest status
  else if status = .heartbeatOutOfBounds then .heartbeatOutOfBounds response.heartbeatInterval
  else if status = .tooManyFolders then .tooManyFolders response.maxFolders
  else if status = .folderRefreshNeeded then .folderListStale
  else if status = .serverError then .transientServerError
  else if status = .serverErrorRetry then .retryLater
  else if status.isFatalAuth then .fatalAuth status
  else if status.isFatalProtocol then .fatalProtocol status
  else .unrecognized status

namespace Classification

/-- The action that a classification mandates, if any. A heartbeat out of bounds mandates
nothing when the server named no other. -/
def action : Classification → Option Action
  | expired => some .increaseHeartbeat
  | changesFound folders => some (.resyncFolders folders)
  | heartbeatOutOfBounds (some secs) => some (.forceHeartbeat secs)
  | folderListStale => some .refreshFolderList
  | _ => none

/-- Whether the caller must stop pushing for the account. -/
def isFatal : Classification → Bool
  | fatalAuth _ | fatalProtocol _ => true
  | _ => false

end Classification

end MailPush
