set_option autoImplicit false

/-! # Folders

A folder as the registry describes it (`Folder`), what a ping names of it (`WatchedFolder`)
and the rule for which folders a ping watches (`Folder.select`).
-/

namespace MailPush

/-- The identity of a folder in the folder registry. -/
structure FolderId where
  number : Int64
deriving DecidableEq

namespace FolderId

/-- A folder id is written as its number. -/
def text (id : FolderId) : String := toString id.number.toInt

instance : ToString FolderId := ⟨text⟩

end FolderId

/-- What a folder holds. -/
inductive FolderClass where
  | email
  | calendar
  | contacts
  | tasks
deriving DecidableEq

namespace FolderClass

/-- A folder holds mail unless something else is said. -/
instance : Inhabited FolderClass := ⟨email⟩

/-- The name of a class in requests and in stored rows. -/
def name : FolderClass → String
  | email => "Email"
  | calendar => "Calendar"
  | contacts => "Contacts"
  | tasks => "Tasks"

/-- Every class. -/
def all : List FolderClass := [email, calendar, contacts, tasks]

/-- The class of a name. -/
def ofName? (name : String) : Option FolderClass :=
  all.find? fun c => c.name == name

theorem name_inj {c d : FolderClass} : c.name = d.name ↔ c = d := by
  cases c <;> cases d <;> decide

theorem ofName?_name (c : FolderClass) : ofName? c.name = some c := by
  cases c <;> decide

theorem ofName?_eq_some_iff {name : String} {c : FolderClass} :
    ofName? name = some c ↔ name = c.name := by
  refine ⟨fun h => ?_, fun h => h ▸ ofName?_name c⟩
  unfold ofName? at h
  have hb := List.find?_some h
  exact (eq_of_beq hb).symm

end FolderClass

/-- A folder as the registry describes it. -/
structure Folder where
  id : FolderId
  /-- The identity given by the server. -/
  serverId : String
  folderClass : FolderClass
  /-- Whether the first full synchronisation has finished. -/
  hasCompletedInitialSync : Bool
  /-- Whether folders of this class are synchronised automatically. -/
  autoSyncEnabled : Bool
deriving DecidableEq

/-- What a ping says of a folder. -/
structure WatchedFolder where
  serverId : String
  folderClass : FolderClass
deriving DecidableEq

namespace Folder

/-- A ping watches a folder that has been synchronised once and synchronises automatically. -/
def isEligible (folder : Folder) : Bool :=
  folder.hasCompletedInitialSync && folder.autoSyncEnabled

/-- What a ping says of this folder. -/
def watched (folder : Folder) : WatchedFolder := ⟨folder.serverId, folder.folderClass⟩

/-- The folders that a ping watches, in the order of the list. -/
def select (folders : List Folder) : List WatchedFolder :=
  (folders.filter isEligible).map watched

end Folder

/-- The key that a folder has before its first synchronisation. -/
def initialSyncKey : String := "0"

/-- Whether a stored sync key shows that the first synchronisation has finished: it is present
and is not the initial one. -/
def syncKeyCompleted : Option String → Bool
  | some key => key != initialSyncKey
  | none => false

end MailPush
