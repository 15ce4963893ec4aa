import MailPush.Classification
import MailPush.Error
import MailPush.Heartbeat
import MailPush.SyncRequest

set_option autoImplicit false

/-! # Log events

What the library reports about its work, as values: an event has a level, a message and named
fields, all of which follow from what it says.
-/

namespace MailPush

/-- How much an event matters. -/
inductive Level where
  | debug
  | info
  | warn
  | error
deriving DecidableEq

/-- The name of a level. -/
def Level.name : Level → String
  | debug => "DEBUG"
  | info => "INFO"
  | warn => "WARN"
  | error => "ERROR"

/-- Something that happened. -/
inductive Event where
  /-- An answer left the heartbeat as it is. -/
  | heartbeatKept (secs : UInt64)
  | heartbeatAdjusted (adjustment : Adjustment) (step : UInt64) (change : HeartbeatChange)
  /-- A ping operation starts without the stored heartbeat. -/
  | loadFailed (account : AccountId) (error : Error)
  /-- A ping operation starts with this heartbeat. -/
  | started (account : AccountId) (secs : UInt64)
  | nothingToWatch (account : AccountId)
  | sending (account : AccountId) (secs : UInt64) (folders : Nat)
  | cancelled (account : AccountId)
  | requestFailed (account : AccountId) (failure : TransportError)
  | classified (account : AccountId) (classification : Classification)
  /-- The heartbeat of the server was adopted. -/
  | adopted (account : AccountId) (change : HeartbeatChange) (serverSecs : UInt64)
  /-- The server reported a folder that the registry does not know. -/
  | folderUnknown (account : AccountId) (serverId : String)
  | storeFailed (account : AccountId) (secs : UInt64) (error : Error)
  | heartbeatStored (account : AccountId) (secs : UInt64)
  | requestQueued (account : AccountId) (kind : SyncRequestKind)
  /-- The request of this row is of no known kind. -/
  | requestKindUnknown (row : Int64) (name : String)
  /-- The request of this row has a timestamp that cannot be read. -/
  | timestampUnreadable (row : Int64) (text : String)
deriving DecidableEq

namespace Event

/-- The level at which a classification is reported. -/
def classificationLevel : Classification → Level
  | .badRequest _ | .fatalAuth _ | .fatalProtocol _ => .error
  | .heartbeatOutOfBounds none => .warn
  | .unrecognized _ => .debug
  | _ => .info

/-- The message with which a classification is reported. -/
def classificationMessage : Classification → String
  | .expired => "Ping expired"
  | .changesFound _ => "Ping found changed folders"
  | .badRequest _ => "Bad ping request"
  | .heartbeatOutOfBounds none => "Heartbeat out of bounds without a server value"
  | .heartbeatOutOfBounds (some _) => "Heartbeat out of bounds"
  | .tooManyFolders _ => "Too many folders"
  | .folderListStale => "FolderSync needed"
  | .transientServerError => "Server error"
  | .retryLater => "Retryable server error"
  | .fatalAuth _ | .fatalProtocol _ => "Unexpected error on ping"
  | .unrecognized _ => "Unrecognized ping status"

/-- The text of a number that may be absent. -/
def optionText : Option UInt32 → String
  | none => "None"
  | some n => "Some(" ++ toString n.toNat ++ ")"

/-- The fields with which a classification is reported, besides the account. -/
def classificationFields : Classification → List (String × String)
  | .changesFound folders => [("changed", toString folders.length)]
  | .badRequest status | .fatalAuth status | .fatalProtocol status | .unrecognized status =>
    [("status", status.text)]
  | .tooManyFolders maxFolders => [("max_folders", optionText maxFolders)]
  | _ => []

/-- The level of an event. -/
def level : Event → Level
  | loadFailed .. | requestFailed .. | folderUnknown .. | storeFailed .. | requestKindUnknown ..
  | timestampUnreadable .. => .warn
  | nothingToWatch _ | adopted .. => .info
  | classified _ classification => classificationLevel classification
  | _ => .debug

/-- The message of an event. -/
def message : Event → String
  | heartbeatKept _ => "heartbeat kept"
  | heartbeatAdjusted .increase .. => "heartbeat increased"
  | heartbeatAdjusted .backOff .. => "heartbeat decreased"
  | heartbeatAdjusted (.adopt _) .. => "heartbeat set by server"
  | loadFailed _ error => "Failed to load heartbeat, using default: " ++ error.message
  | started .. => "initial ping duration"
  | nothingToWatch _ => "No folders want push"
  | sending .. => "sending ping"
  | cancelled _ => "ping cancelled"
  | requestFailed _ failure => "Ping request failure: " ++ failure.message
  | classified _ classification => classificationMessage classification
  | adopted .. => "Heartbeat out of bounds"
  | folderUnknown .. => "Changed folder not found"
  | storeFailed _ _ error => "Failed to store heartbeat: " ++ error.message
  | heartbeatStored .. => "Stored ping duration"
  | requestQueued .. => "Queued sync request"
  | requestKindUnknown _ name => "Skipping unknown sync request kind: " ++ name
  | timestampUnreadable _ _ => "Skipping sync request with bad timestamp"

/-- The text of a number of seconds. -/
def secsText (secs : UInt64) : String := toString secs.toNat

/-- The fields of an event, each a name and a text. -/
def fields : Event → List (String × String)
  | heartbeatKept secs => [("heartbeat", secsText secs)]
  | heartbeatAdjusted adjustment step change =>
    (match adjustment with
      | .adopt serverSecs => ("server", secsText serverSecs)
      | _ => ("step", secsText step)) ::
      [("previous", secsText change.previous), ("heartbeat", secsText change.current)]
  | loadFailed account _ => [("account", account.text)]
  | started account secs => [("account", account.text), ("heartbeat", secsText secs)]
  | nothingToWatch account => [("account", account.text)]
  | sending account secs folders =>
    [("account", account.text), ("heartbeat", secsText secs), ("folders", toString folders)]
  | cancelled account => [("account", account.text)]
  | requestFailed account _ => [("account", account.text)]
  | classified account classification =>
    ("account", account.text) :: classificationFields classification
  | adopted account change serverSecs =>
    [("account", account.text), ("old", secsText change.previous),
     ("new", secsText change.current), ("server", secsText serverSecs)]
  | folderUnknown account serverId => [("account", account.text), ("server_id", serverId)]
  | storeFailed account secs _ => [("account", account.text), ("heartbeat", secsText secs)]
  | heartbeatStored account secs => [("account", account.text), ("heartbeat", secsText secs)]
  | requestQueued account kind => [("account", account.text), ("kind", kind.name)]
  | requestKindUnknown row _ => [("request", toString row.toInt)]
  | timestampUnreadable row _ => [("request", toString row.toInt)]

end Event

end MailPush
