import MailPush.Store.Repository

set_option autoImplicit false

/-! # Editing the tables directly

Changes to the tables that do not go through the operations of the repository, as another
program could make them. An edit is refused when its table is missing, when a row number is
already used, or when a second folder row would have the same account and server id; a refused
edit changes nothing.
-/

namespace MailPush.Repository

/-- Sets the stored number of an account. -/
def putHeartbeatRow (r : Repository) (account : AccountId) (stored : Int64) : Option Repository :=
  r.heartbeats.map fun rows => { r with heartbeats := some (rows.put account.number stored) }

/-- The number of a row to be inserted: the given one, unless it is used, or the next one. -/
def freeId? {ρ : Type} (table : Table ρ) : Option Int64 → Option Int64
  | some id => if table.rows.contains id then none else some id
  | none => table.nextId?

/-- Inserts a folder row. -/
def insertFolderRow (r : Repository) (id : Option Int64) (row : FolderRow) : Option Repository := do
  let folders ← r.folders
  let id ← freeId? folders.table id
  if h : folders.find? row.key = none then
    return { r with folders := some (folders.put id row h) }
  else none

/-- Inserts a request row. -/
def insertRequestRow (r : Repository) (id : Option Int64) (row : RequestRow) :
    Option Repository := do
  let requests ← r.requests
  let id ← freeId? requests id
  return { r with requests := some (requests.put id row) }

/-- The repository without a table. -/
def dropTable (r : Repository) : TableName → Option Repository
  | .heartbeats => r.heartbeats.map fun _ => { r with heartbeats := none }
  | .folders => r.folders.map fun _ => { r with folders := none }
  | .requests => r.requests.map fun _ => { r with requests := none }

/-- The number of rows in a table. -/
def countRows (r : Repository) : TableName → Option Nat
  | .heartbeats => r.heartbeats.map (·.size)
  | .folders => r.folders.map (·.table.rows.size)
  | .requests => r.requests.map (·.rows.size)

end MailPush.Repository
