import MailPush.Collaborators
import MailPush.Config
import MailPush.Ping.Exchange
import MailPush.Ping.Outcome

set_option autoImplicit false

/-! # The ping operation

A ping operation belongs to one account and owns its heartbeat (`Ping`). One run reads the
folders, sends a ping with the current heartbeat, waits for the reply, the deadline or the
caller, classifies the response and adjusts the heartbeat (`Ping.run`). What a run concludes
from a reply is a pure function (`Ping.conclude`); the only write is that of an adjusted
heartbeat, and it comes last. A write that fails is reported and changes nothing else.
-/

namespace MailPush

/-- The ping operation of one account. -/
structure Ping where
  account : AccountId
  heartbeat : Heartbeat
deriving DecidableEq

namespace Ping

variable {σ : Type}

/-! ## Starting -/

/-- The ping operation of an account, with the stored heartbeat. An inconsistent policy is
refused before the store is used; a heartbeat that cannot be loaded counts as absent. -/
def start (store : HeartbeatStore σ) (account : AccountId) (config : PushConfig) (world : σ) :
    Answer σ Ping :=
  match config.check with
  | .error e => ⟨.error e, world, []⟩
  | .ok () =>
    let loaded := store.load account world
    let heartbeat := Heartbeat.restore config.heartbeat (loaded.result.toOption.getD none)
    let complaints := match loaded.result with
      | .ok _ => []
      | .error e => [Event.loadFailed account e]
    ⟨.ok ⟨account, heartbeat⟩, loaded.world,
      loaded.events ++ complaints ++ [.started account heartbeat.secs]⟩

/-! ## Sending -/

/-- A request as it is given to the transport, with the deadline of its reply. -/
structure Message where
  payload : Bytes
  timeout : Span
deriving DecidableEq

/-- The request of the current heartbeat for the folders to be watched, if there are any. -/
def request? (ping : Ping) (folders : List Folder) : Option Request :=
  Request.build? ping.heartbeat.secs (Folder.select folders)

/-! ## Concluding -/

/-- The response of a reply: a body must not be empty, and must be one that the codec reads. -/
def receive (codec : Codec) (reply : Except TransportError Bytes) :
    Except TransportError Response := do
  let body ← reply
  if body = [] then .error .emptyBody
  else (codec.decode body).mapError fun e => .unusable e.message

/-- What a run makes of a reply: its outcome, the adjustment of the heartbeat, and the events
reported on the way. -/
structure Conclusion where
  outcome : Outcome
  adjustment : Option Adjustment
  events : List Event

/-- The adjustment that an action mandates. -/
def adjustmentOf : Option Action → Option Adjustment
  | some .increaseHeartbeat => some .increase
  | some (.forceHeartbeat secs) => some (.adopt secs)
  | _ => none

/-- The report of an adjustment. -/
def adjusted (ping : Ping) (adjustment : Adjustment) : Event :=
  .heartbeatAdjusted adjustment ping.heartbeat.policy.maxStepSecs
    (ping.heartbeat.change adjustment)

/-- The events of a classified response. -/
def classificationEvents (ping : Ping) (folders : List Folder) (classification : Classification) :
    List Event :=
  match classification with
  | .heartbeatOutOfBounds (some secs) =>
    [ping.adjusted (.adopt secs),
     .adopted ping.account (ping.heartbeat.change (.adopt secs)) secs]
  | .expired => [.classified ping.account classification, ping.adjusted .increase]
  | .changesFound serverIds =>
    .classified ping.account classification ::
      (Folder.unknownIds folders serverIds).map (.folderUnknown ping.account)
  | .retryLater =>
    [.classified ping.account classification, .heartbeatKept ping.heartbeat.secs]
  | _ => [.classified ping.account classification]

/-- What a run makes of a response, or of the failure to get one. -/
def conclude (ping : Ping) (folders : List Folder) :
    Except TransportError Response → Conclusion
  | .error failure =>
    ⟨.operationFailure failure, some .backOff,
      [.requestFailed ping.account failure, ping.adjusted .backOff]⟩
  | .ok response =>
    let classification := classify response
    let action := classification.action
    ⟨.ofClassification classification (Effect.ofAction folders action), adjustmentOf action,
      ping.classificationEvents folders classification⟩

/-! ## Running -/

/-- The result of one run: what the caller is told, the operation and the world afterwards, the
message given to the transport, and the events in their order. -/
structure Run (σ : Type) where
  result : Except Error Outcome
  ping : Ping
  world : σ
  sent : Option Message
  events : List Event

/-- Stores the heartbeat of an operation; a failure is only reported. -/
def persist (store : HeartbeatStore σ) (ping : Ping) (world : σ) : σ × List Event :=
  let written := store.store ping.account ping.heartbeat.secs world
  let complaints := match written.result with
    | .ok () => []
    | .error e => [Event.storeFailed ping.account ping.heartbeat.secs e]
  (written.world, written.events ++ complaints)

/-- The operation after an adjustment. -/
def adjust (ping : Ping) (adjustment : Adjustment) : Ping :=
  { ping with heartbeat := ping.heartbeat.adjust adjustment }

/-- Carries out what a run has concluded: adjusts the heartbeat and stores it, if it is to be
adjusted. -/
def finish (store : HeartbeatStore σ) (ping : Ping) (conclusion : Conclusion) (world : σ)
    (sent : Option Message) (events : List Event) : Run σ :=
  match conclusion.adjustment with
  | none => ⟨.ok conclusion.outcome, ping, world, sent, events ++ conclusion.events⟩
  | some adjustment =>
    let after := ping.adjust adjustment
    let (world, stored) := persist store after world
    ⟨.ok conclusion.outcome, after, world, sent, events ++ conclusion.events ++ stored⟩

/-- One ping. Reading the folders and writing the request come first, so that their failures win
over a caller who has already given up. -/
def run (env : Collaborators σ) (ping : Ping) (exchange : Exchange) (world : σ) : Run σ :=
  let read := env.registry.folders ping.account world
  let world := read.world
  match read.result with
  | .error e => ⟨.error (.metadataUnavailable ping.account e), ping, world, none, read.events⟩
  | .ok folders =>
    match ping.request? folders with
    | none =>
      ⟨.ok .nothingToWatch, ping, world, none, read.events ++ [.nothingToWatch ping.account]⟩
    | some request =>
      match env.codec.encode request with
      | .error e => ⟨.error (.encode e), ping, world, none, read.events⟩
      | .ok payload =>
        let deadline := ping.heartbeat.timeout
        let sent := if exchange.isSent then some ⟨payload, deadline⟩ else none
        let events := read.events ++
          [.sending ping.account request.heartbeatSecs request.folders.length]
        match exchange.ending deadline with
        | .cancelled =>
          ⟨.ok .cancelled, ping, world, sent, events ++ [.cancelled ping.account]⟩
        | .replied reply =>
          finish env.heartbeats ping (ping.conclude folders (receive env.codec reply)) world sent
            events
        | .timedOut =>
          finish env.heartbeats ping (ping.conclude folders (.error (.timedOut deadline))) world
            sent events

end Ping

/-! ## Carrying out effects -/

/-- The request that an effect makes to the registry. -/
def Effect.requestKind : Effect → SyncRequestKind
  | syncFolder folder _ _ => .folder folder
  | refreshFolderList => .folderList

/-- Makes the requests of effects in their order, up to the first that fails. -/
def applyEffects {σ : Type} (registry : FolderRegistry σ) (account : AccountId) :
    List Effect → σ → Answer σ Unit
  | [], world => ⟨.ok (), world, []⟩
  | effect :: effects, world =>
    let made := registry.request account effect.requestKind world
    match made.result with
    | .error e => ⟨.error e, made.world, made.events⟩
    | .ok () =>
      let others := applyEffects registry account effects made.world
      ⟨others.result, others.world, made.events ++ others.events⟩

end MailPush
