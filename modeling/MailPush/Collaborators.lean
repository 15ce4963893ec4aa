import MailPush.Event

set_option autoImplicit false

/-! # Collaborators

What a ping needs from its surroundings: a store for heartbeats, a registry of folders that
also takes sync requests, and a codec. A call to one of them is a function of the world in
which it happens, of type `σ`; it answers with a result, the world afterwards and the events it
reported.
-/

namespace MailPush

/-- The answer to a call. -/
structure Answer (σ α : Type) where
  result : Except Error α
  world : σ
  events : List Event

/-- Durable storage of one heartbeat per account. -/
structure HeartbeatStore (σ : Type) where
  /-- The stored heartbeat, in seconds, if there is one. -/
  load : AccountId → σ → Answer σ (Option UInt64)
  store : AccountId → UInt64 → σ → Answer σ Unit

/-- The folders of accounts, and the requests that a ping can make about them. -/
structure FolderRegistry (σ : Type) where
  folders : AccountId → σ → Answer σ (List Folder)
  request : AccountId → SyncRequestKind → σ → Answer σ Unit

/-- Everything that a ping works with. -/
structure Collaborators (σ : Type) where
  heartbeats : HeartbeatStore σ
  registry : FolderRegistry σ
  codec : Codec

end MailPush
