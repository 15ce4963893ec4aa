import MailPush.Folder

set_option autoImplicit false

/-! # Requests -/

namespace MailPush

/-- A ping: the heartbeat for which the server is asked to hold it, and the folders that it
watches. There is always a folder to watch. -/
structure Request where
  heartbeatSecs : UInt64
  folders : List WatchedFolder
  folders_ne_nil : folders ≠ []
deriving DecidableEq

/-- The ping with this heartbeat for these folders; there is none without folders. -/
def Request.build? (heartbeatSecs : UInt64) (folders : List WatchedFolder) : Option Request :=
  if h : folders = [] then none else some ⟨heartbeatSecs, folders, h⟩

end MailPush
