import MailPush.Status

set_option autoImplicit false

/-! # Responses -/

namespace MailPush

/-- What a server answers to a ping. Apart from the status, every part is meaningful for one
status only. -/
structure Response where
  status : Status
  /-- The server ids of changed folders. -/
  folders : List String
  /-- The heartbeat that the server will accept, in seconds. -/
  heartbeatInterval : Option UInt64
  /-- The number of folders that the server will watch. -/
  maxFolders : Option UInt32
deriving DecidableEq

/-- The response that carries a status and nothing else. -/
def Response.ofStatus (status : Status) : Response := ⟨status, [], none, none⟩

end MailPush
