import MailPush.Account
import MailPush.Folder
import MailPush.Store.Error
import MailPush.Store.Table

set_option autoImplicit false

/-! # The folder table

One row per account and server id. A row holds the name of its class as text, which may be
the name of no class when the row was not written by this library; such a row cannot be read
as a folder (`FolderRow.folder`).
-/

namespace MailPush

/-- A stored folder. Every cell holds a value of the type that its column is declared with; a direct
edit could store one of another type, and such rows are not considered. -/
structure FolderRow where
  account : AccountId
  serverId : String
  className : String
  /-- The key of the last synchronisation. -/
  syncKey : Option String
  /-- Whether the folder synchronises automatically: any number but zero means that it does. -/
  autoSync : Int64
deriving DecidableEq

/-- A folder to be registered. -/
structure NewFolder where
  serverId : String
  folderClass : FolderClass
  syncKey : Option String
  autoSync : Bool
deriving DecidableEq

/-- A folder that has not been synchronised and synchronises automatically. -/
def NewFolder.ofClass (serverId : String) (folderClass : FolderClass) : NewFolder :=
  ⟨serverId, folderClass, none, true⟩

namespace FolderRow

/-- The stored form of a flag. -/
def flag (b : Bool) : Int64 := if b then 1 else 0

/-- What identifies a row besides its number. -/
def key (row : FolderRow) : AccountId × String := (row.account, row.serverId)

/-- The row of a new folder. -/
def ofNew (account : AccountId) (folder : NewFolder) : FolderRow :=
  ⟨account, folder.serverId, folder.folderClass.name, folder.syncKey, flag folder.autoSync⟩

/-- The row with the class, sync key and flag of another one. -/
def overwrite (row : FolderRow) (new : FolderRow) : FolderRow :=
  { row with className := new.className, syncKey := new.syncKey, autoSync := new.autoSync }

/-- The folder of a row. -/
def folder (id : Int64) (row : FolderRow) : Except StoreError Folder :=
  match FolderClass.ofName? row.className with
  | some c => .ok ⟨⟨id⟩, row.serverId, c, syncKeyCompleted row.syncKey, row.autoSync != 0⟩
  | none => .error (.unknownClass row.className)

end FolderRow

/-- The table of folders; no two rows have the same account and server id. -/
structure FolderTable where
  table : Table FolderRow
  unique : table.rows.entries.Pairwise fun a b => a.2.key ≠ b.2.key

namespace FolderTable

/-- The table without folders. -/
def empty : FolderTable := ⟨.empty, .nil⟩

/-- The rows of the table with their numbers. -/
def entries (t : FolderTable) : List (Int64 × FolderRow) := t.table.rows.entries

/-- The number of the row with an account and server id. -/
def find? (t : FolderTable) (key : AccountId × String) : Option Int64 :=
  (t.entries.find? fun e => e.2.key == key).map (·.1)

theorem key_ne_of_find?_eq_none {t : FolderTable} {key : AccountId × String}
    (h : t.find? key = none) : ∀ e ∈ t.entries, e.2.key ≠ key := by
  intro e he heq
  simp only [find?, Option.map_eq_none_iff, List.find?_eq_none] at h
  exact h e he (by simp [heq])

theorem pairwise_putEntry {id : Int64} {row : FolderRow} {es : List (Int64 × FolderRow)}
    (h : es.Pairwise fun a b => a.2.key ≠ b.2.key) (hrow : ∀ e ∈ es, e.2.key ≠ row.key) :
    (Rows.putEntry id row es).Pairwise fun a b => a.2.key ≠ b.2.key := by
  induction es with
  | nil => exact List.pairwise_singleton _ _
  | cons e es ih =>
    obtain ⟨he, hes⟩ := List.pairwise_cons.1 h
    have hrow' : ∀ x ∈ es, x.2.key ≠ row.key := fun x hx => hrow x (List.mem_cons_of_mem _ hx)
    unfold Rows.putEntry
    split
    · exact List.pairwise_cons.2 ⟨fun x hx => (hrow x hx).symm, h⟩
    · split
      · exact List.pairwise_cons.2 ⟨fun x hx => (hrow' x hx).symm, hes⟩
      · refine List.pairwise_cons.2 ⟨fun x hx => ?_, ih hes hrow'⟩
        rcases Rows.mem_putEntry hx with rfl | hx
        · exact hrow e List.mem_cons_self
        · exact he x hx

/-- The table with its sequence raised to a row number. -/
def advance (t : FolderTable) (id : Int64) : FolderTable := ⟨t.table.advance id, t.unique⟩

/-- The table with a row put at a number, when its account and server id are in no row. -/
def put (t : FolderTable) (id : Int64) (row : FolderRow) (h : t.find? row.key = none) :
    FolderTable :=
  ⟨t.table.put id row, pairwise_putEntry t.unique (key_ne_of_find?_eq_none h)⟩

/-- The table with each row changed by a function that leaves account and server id. -/
def update (t : FolderTable) (f : Int64 → FolderRow → FolderRow)
    (h : ∀ id row, (f id row).key = row.key) : FolderTable :=
  ⟨t.table.update f, List.pairwise_map.2 (t.unique.imp fun {a b} hne => by
    show (f a.1 a.2).key ≠ (f b.1 b.2).key
    rw [h, h]
    exact hne)⟩

/-- The table with the rows that satisfy a condition. -/
def keep (t : FolderTable) (p : Int64 → FolderRow → Bool) : FolderTable :=
  ⟨t.table.keep p, t.unique.filter _⟩

/-! ## Operations -/

/-- Registers a folder, or overwrites the row that has its account and server id. A new number
is taken in both cases, before it is known whether there is such a row. -/
def save? (t : FolderTable) (account : AccountId) (folder : NewFolder) :
    Option (FolderId × FolderTable) :=
  t.table.nextId?.map fun id =>
    let row := FolderRow.ofNew account folder
    match h : t.find? row.key with
    | none => (⟨id⟩, t.put id row h)
    | some known =>
      (⟨known⟩, (t.advance id).update (fun i r => if i = known then r.overwrite row else r) (by
        intro i r
        split <;> rfl))

/-- Sets the sync key of the row with a number, if there is one. -/
def setSyncKey (t : FolderTable) (id : FolderId) (syncKey : Option String) : FolderTable :=
  t.update (fun i row => if i = id.number then { row with syncKey := syncKey } else row) (by
    intro i row
    split <;> rfl)

/-- Sets the flag of every row of an account and class. -/
def setAutoSync (t : FolderTable) (account : AccountId) (folderClass : FolderClass)
    (enabled : Bool) : FolderTable :=
  t.update
    (fun _ row =>
      if row.account = account ∧ row.className = folderClass.name then
        { row with autoSync := FolderRow.flag enabled }
      else row)
    (by
      intro i row
      split <;> rfl)

/-- The rows of an account, in the order of their numbers. -/
def rowsOf (t : FolderTable) (account : AccountId) : List (Int64 × FolderRow) :=
  t.entries.filter fun e => e.2.account == account

/-- The folders of an account, in the order of their numbers; the first row that is no folder
makes the whole list unreadable. -/
def list (t : FolderTable) (account : AccountId) : Except StoreError (List Folder) :=
  (t.rowsOf account).mapM fun e => e.2.folder e.1

/-- The table without the rows of an account. -/
def deleteAccount (t : FolderTable) (account : AccountId) : FolderTable :=
  t.keep fun _ row => row.account != account

end FolderTable

end MailPush
