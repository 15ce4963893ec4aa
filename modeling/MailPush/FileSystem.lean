set_option autoImplicit false

/-! # Files

What a path can lead to, and how using it can fail.
-/

namespace MailPush

/-- How the use of a file can fail. -/
inductive FileError where
  /-- A directory stands where a file is wanted. -/
  | isDirectory
  /-- A file stands where the path needs a directory. -/
  | notDirectory
  /-- A file stands where a directory is to be made. -/
  | alreadyExists
  /-- The content is not valid UTF-8. -/
  | notText
  /-- Any other failure, with its text. -/
  | other (reason : String)
deriving DecidableEq

/-- The text of a failure. -/
def FileError.message : FileError → String
  | isDirectory => "Is a directory (os error 21)"
  | notDirectory => "Not a directory (os error 20)"
  | alreadyExists => "File exists (os error 17)"
  | notText => "stream did not contain valid UTF-8"
  | other reason => reason

/-- What a path leads to, when files hold values of type `α`. -/
inductive PathEntry (α : Type) where
  /-- A file. -/
  | file (content : α)
  | directory
  /-- Nothing, in a directory that exists. -/
  | missing
  /-- Nothing, and no directory for it either. -/
  | missingParent
  /-- Nothing, since the parent is a file. -/
  | parentIsFile
deriving DecidableEq

end MailPush
