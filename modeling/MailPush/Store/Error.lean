import MailPush.FileSystem

set_option autoImplicit false

/-! # Failures of the store -/

namespace MailPush

/-- The tables of the store. -/
inductive TableName where
  | heartbeats
  | folders
  | requests
deriving DecidableEq

/-- The name under which a table is stored. -/
def TableName.name : TableName → String
  | heartbeats => "push_state"
  | folders => "folders"
  | requests => "sync_requests"

/-- Every table. -/
def TableName.all : List TableName := [heartbeats, folders, requests]

/-- How a database can fail. -/
inductive DatabaseError where
  /-- A statement names a table that does not exist. -/
  | noSuchTable (table : TableName)
  /-- A new row finds no unused id. -/
  | full
  /-- The database file cannot be opened. -/
  | cannotOpen
  /-- The connection URL names no database. -/
  | urlRefused
deriving DecidableEq

namespace DatabaseError

/-- The text of a failure that a database reports with its number and a reason. -/
def reported (code : Nat) (reason : String) : String :=
  "error returned from database: (code: " ++ toString code ++ ") " ++ reason

/-- The text of a failure. For a refused URL it leaves out what the database finds wrong in it. -/
def message : DatabaseError → String
  | noSuchTable table => reported 1 ("no such table: " ++ table.name)
  | full => reported 13 "database or disk is full"
  | cannotOpen => reported 14 "unable to open database file"
  | urlRefused => "error with configuration"

end DatabaseError

/-- How an operation of the store can fail. -/
inductive StoreError where
  | database (error : DatabaseError)
  | io (error : FileError)
  /-- A heartbeat does not fit its column. -/
  | outOfRange (secs : UInt64)
  /-- A folder row holds the name of no class. -/
  | unknownClass (name : String)
deriving DecidableEq

/-- The text of a failure. -/
def StoreError.message : StoreError → String
  | database error => "Database error: " ++ error.message
  | io error => "I/O error: " ++ error.message
  | outOfRange secs => "Value out of range: " ++ toString secs.toNat
  | unknownClass name => "Corrupt row: unknown folder class " ++ name

end MailPush
