import MailPush.FileSystem
import MailPush.Store.Location
import MailPush.Store.Repository

set_option autoImplicit false

/-! # Opening a repository

Opening a repository makes its file when that is missing, and the tables that the file lacks. It
fails when the connection URL names nothing. What the paths of the file system lead to is a
parameter.
-/

namespace MailPush.Repository

/-- The repository of a file, given what its path leads to. -/
def ofEntry : PathEntry Repository → Except StoreError Repository
  | .file r => .ok r.makeTables
  | .missing => .ok .empty
  | .directory | .missingParent | .parentIsFile => .error (.database .cannotOpen)

/-- Opens what a URL names; a database without a file is always a new one. -/
def openUrl (files : String → PathEntry Repository) (url : String) :
    Except StoreError Repository :=
  match Location.ofUrl? url with
  | some .memory => .ok .empty
  | some (.file name) => ofEntry (files name)
  | none => .error (.database .urlRefused)

/-- Opens the repository at a path. -/
def openAt (files : String → PathEntry Repository) (path : String) :
    Except StoreError Repository :=
  openUrl files (connectionUrl path)

/-- Opens a repository without a file. -/
def inMemory : Except StoreError Repository :=
  openUrl (fun _ => .missingParent) (scheme ++ ":memory:")

/-- What a path leads to once its directory has been made. -/
def withDirectory : PathEntry Repository → PathEntry Repository
  | .missingParent => .missing
  | entry => entry

/-- Opens the repository of a user at its default path, making the directory for it. -/
def openDefault (files : String → PathEntry Repository) (dataHome home : Option String) :
    Except StoreError Repository :=
  let path := defaultPath dataHome home
  match files path with
  | .parentIsFile => .error (.io .alreadyExists)
  | entry => openAt (fun p => if p = path then withDirectory entry else files p) path

end MailPush.Repository
