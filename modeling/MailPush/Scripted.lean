import MailPush.Collaborators

set_option autoImplicit false

/-! # Scripted collaborators

A world in memory whose collaborators fail on demand and keep a record of what was asked of
them: one stored heartbeat, one list of folders, and a sync queue that may fail after a number
of successes. A failed write of a heartbeat is recorded like a successful one, a failed sync
request is not.
-/

namespace MailPush

/-- The failure of sync requests: with this text, after so many more successes. -/
structure RequestFault where
  reason : String
  after : Nat
deriving DecidableEq

/-- The state of scripted collaborators. -/
structure Scripted where
  stored : Option UInt64
  folders : List Folder
  /-- The texts of the failures to come, if any. -/
  loadFault : Option String
  registryFault : Option String
  storeFault : Option String
  requestFault : Option RequestFault
  /-- The accounts whose heartbeat was loaded. -/
  loads : List AccountId
  /-- The writes attempted. -/
  writes : List (AccountId × UInt64)
  /-- The sync requests taken. -/
  requests : List (AccountId × SyncRequestKind)
deriving DecidableEq

namespace Scripted

/-- Collaborators that do not fail, with a stored heartbeat and folders. -/
def ofContents (stored : Option UInt64) (folders : List Folder) : Scripted :=
  ⟨stored, folders, none, none, none, none, [], [], []⟩

/-- The same state with empty records. -/
def clearRecords (s : Scripted) : Scripted := { s with loads := [], writes := [], requests := [] }

/-- The failure with a given text. -/
def failure (reason : String) : Error := .storage (.io (.other reason))

/-- The result of a call that fails if there is a text for it. -/
def unlessFault {α : Type} (fault : Option String) (a : α) : Except Error α :=
  match fault with
  | some reason => .error (failure reason)
  | none => .ok a

/-- The scripted store of heartbeats. -/
def heartbeatStore : HeartbeatStore Scripted where
  load account s := ⟨unlessFault s.loadFault s.stored, { s with loads := s.loads ++ [account] }, []⟩
  store account secs s :=
    let s := { s with writes := s.writes ++ [(account, secs)] }
    match s.storeFault with
    | some reason => ⟨.error (failure reason), s, []⟩
    | none => ⟨.ok (), { s with stored := some secs }, []⟩

/-- Takes a sync request. -/
def takeRequest (account : AccountId) (kind : SyncRequestKind) (s : Scripted) :
    Answer Scripted Unit :=
  let taken := { s with requests := s.requests ++ [(account, kind)] }
  match s.requestFault with
  | none => ⟨.ok (), taken, []⟩
  | some ⟨reason, 0⟩ => ⟨.error (failure reason), s, []⟩
  | some ⟨reason, n + 1⟩ => ⟨.ok (), { taken with requestFault := some ⟨reason, n⟩ }, []⟩

/-- The scripted registry of folders. -/
def folderRegistry : FolderRegistry Scripted where
  folders _ s := ⟨unlessFault s.registryFault s.folders, s, []⟩
  request := takeRequest

/-- The scripted collaborators with a codec. -/
def collaborators (codec : Codec) : Collaborators Scripted :=
  ⟨heartbeatStore, folderRegistry, codec⟩

end Scripted

end MailPush
