import MailPush.Request
import MailPush.Response
import MailPush.Wire.Folder

set_option autoImplicit false

/-! # Requests and responses in JSON

A request is only written. Of a response only the status is required.
-/

namespace MailPush

open Json

instance : Writable Request :=
  ⟨fun r => writeObject
    [("heartbeat_secs", Writable.write r.heartbeatSecs), ("folders", Writable.write r.folders)]⟩

instance : Readable Status := ⟨uint32Reader.map Status.mk⟩
instance : Writable Status := ⟨fun status => Writable.write status.code⟩

/-- A response of which some members have been read. -/
structure Response.Draft where
  status : Option Status
  folders : Option (List String)
  heartbeatInterval : Option (Option UInt64)
  maxFolders : Option (Option UInt32)

/-- The shape of a response. -/
def Response.shape : Shape Response.Draft Response where
  members :=
    [.ofSlot "status" (·.status) fun v d => { d with status := some v },
     .ofSlot "folders" (·.folders) fun v d => { d with folders := some v },
     .ofSlot "heartbeat_interval" (·.heartbeatInterval)
       fun v d => { d with heartbeatInterval := some v },
     .ofSlot "max_folders" (·.maxFolders) fun v d => { d with maxFolders := some v }]
  blank := ⟨none, none, none, none⟩
  finish d := do
    return ⟨← d.status, d.folders.getD [], d.heartbeatInterval.getD none, d.maxFolders.getD none⟩

instance : Readable Response := ⟨Response.shape.reader⟩

instance : Writable Response :=
  ⟨fun r => writeObject
    [("status", Writable.write r.status), ("folders", Writable.write r.folders),
     ("heartbeat_interval", Writable.write r.heartbeatInterval),
     ("max_folders", Writable.write r.maxFolders)]⟩

end MailPush
