import MailPush.Account
import MailPush.Event
import MailPush.Store.Table
import MailPush.Time.Timestamp

set_option autoImplicit false

/-! # The table of sync requests

A queue of requests for all accounts, in the order in which they were recorded. A row whose kind
is unknown, or whose timestamp cannot be read, is no request; it is passed over with a warning
and stays in the table (`RequestRow.request`).
-/

namespace MailPush

/-- When a request was recorded, as it is stored: the moment of recording, or a text. -/
inductive Stamp where
  | recording
  | text (value : String)
deriving DecidableEq

/-- When a request was recorded: at the moment of recording, or at a known point in time. -/
inductive RequestTime where
  | recording
  | known (time : Timestamp)
deriving DecidableEq

/-- The time of a stamp, or its text if that cannot be read. -/
def Stamp.time : Stamp → Except String RequestTime
  | recording => .ok .recording
  | text value =>
    match Timestamp.ofText? value with
    | some time => .ok (.known time)
    | none => .error value

/-- A queued sync request. -/
structure SyncRequest where
  account : AccountId
  kind : SyncRequestKind
  time : RequestTime
deriving DecidableEq

/-- A stored request. Every cell holds a value of the type that its column is declared with; a direct
edit could store one of another type, and such rows are not considered. -/
structure RequestRow where
  account : AccountId
  kindName : String
  folder : Option FolderId
  stamp : Stamp
deriving DecidableEq

namespace RequestRow

/-- The row of a request that is being recorded. -/
def ofKind (account : AccountId) (kind : SyncRequestKind) : RequestRow :=
  ⟨account, kind.name, kind.folderId?, .recording⟩

/-- The request of a row, or the warning with which it is passed over. -/
def request (id : Int64) (row : RequestRow) : Except Event SyncRequest :=
  match SyncRequestKind.ofParts? row.kindName row.folder with
  | none => .error (.requestKindUnknown id row.kindName)
  | some kind =>
    match row.stamp.time with
    | .ok time => .ok ⟨row.account, kind, time⟩
    | .error value => .error (.timestampUnreadable id value)

end RequestRow

/-- The queue of sync requests. -/
abbrev RequestTable := Table RequestRow

namespace RequestTable

/-- The rows of an account, in the order of their numbers. -/
def rowsOf (t : RequestTable) (account : AccountId) : List (Int64 × RequestRow) :=
  t.rows.entries.filter fun e => e.2.account == account

/-- The requests of an account, oldest first. -/
def pending (t : RequestTable) (account : AccountId) : List SyncRequest :=
  (rowsOf t account).filterMap fun e => (e.2.request e.1).toOption

/-- The warnings about rows of an account that are no requests. -/
def warnings (t : RequestTable) (account : AccountId) : List Event :=
  (rowsOf t account).filterMap fun e =>
    match e.2.request e.1 with
    | .ok _ => none
    | .error warning => some warning

/-- The table without the requests of an account; its rows that are no requests stay. -/
def removePending (t : RequestTable) (account : AccountId) : RequestTable :=
  t.keep fun id row => row.account != account || !(row.request id).isOk

/-- The table without the rows of an account. -/
def deleteAccount (t : RequestTable) (account : AccountId) : RequestTable :=
  t.keep fun _ row => row.account != account

end RequestTable

end MailPush
