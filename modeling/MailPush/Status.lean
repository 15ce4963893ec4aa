set_option autoImplicit false

/-! # Status codes

The number with which a server answers a ping. The codes from 1 to 8 belong to the ping
itself; the codes from 100 up are common to all commands. Two sets of the common codes are
fatal: those by which the account may not synchronise until it is authorised again
(`Status.isFatalAuth`), and those that a ping should never receive
(`Status.isFatalProtocol`). The two sets are disjoint.
-/

namespace MailPush

/-- A status code. -/
structure Status where
  code : UInt32
deriving DecidableEq

namespace Status

/-- A status is written as its number. -/
def text (status : Status) : String := toString status.code.toNat

instance : ToString Status := ⟨text⟩

instance : LE Status := ⟨fun s t => s.code ≤ t.code⟩

instance (s t : Status) : Decidable (s ≤ t) := inferInstanceAs (Decidable (s.code ≤ t.code))

/-- The statuses in increasing order. -/
def sort (statuses : List Status) : List Status := statuses.mergeSort

/-! ## Codes of the ping -/

/-- The heartbeat expired with no changes. -/
def expired : Status := ⟨1⟩
/-- Changes were found in the folders named. -/
def changesFound : Status := ⟨2⟩
/-- The request omitted required parameters. -/
def requestIncomplete : Status := ⟨3⟩
/-- The request was malformed. -/
def requestMalformed : Status := ⟨4⟩
/-- The heartbeat is outside the bounds of the server. -/
def heartbeatOutOfBounds : Status := ⟨5⟩
/-- The request named more folders than the server allows. -/
def tooManyFolders : Status := ⟨6⟩
/-- The folder hierarchy must be synchronised again. -/
def folderRefreshNeeded : Status := ⟨7⟩
/-- The server failed. -/
def serverError : Status := ⟨8⟩

/-! ## Common codes -/

/-- The server failed for the moment; retry later. -/
def serverErrorRetry : Status := ⟨111⟩

/-- The codes of the account and of its provisioning: users disabled for synchronisation (126,
127), a user on a legacy server (128), a device in quarantine (129), access denied (130), a
disabled account (131), a device that cannot be provisioned fully (139), a legacy device under
a strict policy (141), and too many partnerships (177). -/
def fatalAuthCodes : List UInt32 := [126, 127, 128, 129, 130, 131, 139, 141, 177]

/-- The codes of the synchronisation state and of the protocol: a state not found, locked,
corrupt, already existing or invalid (132 to 136), an invalid command (137) or protocol version
(138), a remote wipe (140), a device not provisioned (142), a policy refresh (143), an invalid
policy key (144), a device managed elsewhere (145), an unknown item type (147), a proxy
without encryption (148), and an item not found (150). -/
def fatalProtocolCodes : List UInt32 :=
  [132, 133, 134, 135, 136, 137, 138, 140, 142, 143, 144, 145, 147, 148, 150]

/-- Whether the account cannot synchronise until it is authorised again. -/
def isFatalAuth (status : Status) : Bool := fatalAuthCodes.contains status.code

/-- Whether the status is one that a ping should never receive. -/
def isFatalProtocol (status : Status) : Bool := fatalProtocolCodes.contains status.code

theorem not_isFatalProtocol_of_isFatalAuth {status : Status} (h : status.isFatalAuth) :
    status.isFatalProtocol = false := by
  have hm : status.code ∈ fatalAuthCodes := by simpa [isFatalAuth] using h
  have hd : fatalAuthCodes.all (fun c => !fatalProtocolCodes.contains c) = true := by decide
  simpa [isFatalProtocol] using List.all_eq_true.1 hd _ hm

end Status

end MailPush
