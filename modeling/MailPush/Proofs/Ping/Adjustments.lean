import MailPush.Proofs.Ping.Calls

set_option autoImplicit false

/-! # The adjustment of a call

Whether a call adjusts the heartbeat, and how, can be read off its result
(`Outcome.adjustment?`): a failed request backs it off, an expired ping lets it grow, and a
heartbeat named by the server is adopted. `run_ping_eq` and `run_world_eq` say that this is all
that a call does to its operation, and that the only write is that of the adjusted heartbeat.
-/

namespace MailPush

/-- The adjustment that has led to an outcome. -/
def Outcome.adjustment? : Outcome → Option Adjustment
  | operationFailure _ => some .backOff
  | completed .expired _ => some .increase
  | completed (.heartbeatOutOfBounds (some secs)) _ => some (.adopt secs)
  | _ => none

namespace Ping

variable {σ : Type} {env : Collaborators σ} {ping : Ping} {x : Exchange} {world : σ}

/-- The adjustment made by a run. -/
def Run.adjustment? (r : Run σ) : Option Adjustment :=
  match r.result with
  | .ok outcome => outcome.adjustment?
  | .error _ => none

theorem adjustment?_finish (store : HeartbeatStore σ) (ping : Ping) (c : Conclusion) (world : σ)
    (sent : Option Message) (events : List Event) :
    (finish store ping c world sent events).adjustment? = c.outcome.adjustment? := by
  rw [Run.adjustment?, finish_result]

/-- A conclusion makes the adjustment that its outcome shows. -/
theorem conclude_adjustment (ping : Ping) (folders : List Folder)
    (received : Except TransportError Response) :
    (ping.conclude folders received).adjustment =
      (ping.conclude folders received).outcome.adjustment? := by
  cases received with
  | error failure => rfl
  | ok response =>
      show adjustmentOf (classify response).action =
        (Outcome.ofClassification (classify response) _).adjustment?
      -- of the eleven classifications one has two cases
      cases classify response with
      | heartbeatOutOfBounds serverHeartbeat => cases serverHeartbeat <;> rfl
      | expired | changesFound | badRequest | tooManyFolders | folderListStale
      | transientServerError | retryLater | fatalAuth | fatalProtocol | unrecognized => rfl

/-- **A call does to its operation the adjustment that its result shows**, and nothing else. -/
theorem run_ping_eq (env : Collaborators σ) (ping : Ping) (x : Exchange) (world : σ) :
    (run env ping x world).ping = ping.adjustBy (run env ping x world).adjustment? := by
  have hends := ends_run env ping x world
  generalize run env ping x world = r at hends
  cases hends with
  | unread => rfl
  | idle => rfl
  | unwritten => rfl
  | cancelled => rfl
  | concluded hprep hx => rw [finish_ping, adjustment?_finish, conclude_adjustment]

/-- **The only write of a call is that of the adjusted heartbeat.** -/
theorem run_world_eq (env : Collaborators σ) (ping : Ping) (x : Exchange) (world : σ) :
    (run env ping x world).world =
      storedBy env.heartbeats ping (env.registry.folders ping.account world).world
        (run env ping x world).adjustment? := by
  have hends := ends_run env ping x world
  generalize run env ping x world = r at hends
  cases hends with
  | unread => rfl
  | idle => rfl
  | unwritten => rfl
  | cancelled => rfl
  | concluded hprep hx => rw [finish_world, adjustment?_finish, conclude_adjustment]

/-! ## The store -/

/-- **What is read of the folders decides a call**, for a given codec: whatever else the
collaborators do, the result, the operation and the message are the same. -/
theorem run_of_reads {τ : Type} {env' : Collaborators τ} {world' : τ}
    (hcodec : env'.codec = env.codec)
    (hread : (env'.registry.folders ping.account world').result =
      (env.registry.folders ping.account world).result) (x : Exchange) :
    let r := run env ping x world
    let r' := run env' ping x world'
    r'.result = r.result ∧ r'.ping = r.ping ∧ r'.sent = r.sent := by
  intro r r'
  have hends := ends_run env ping x world
  change Ends env ping x world r at hends
  show (run env' ping x world').result = _ ∧ (run env' ping x world').ping = _ ∧
    (run env' ping x world').sent = _
  generalize r = r₀ at hends
  cases hends with
  | unread hf => simp only [run, hread, hf, and_self]
  | idle hf hr => simp only [run, hread, hf, hr, and_self]
  | unwritten hf hr hp => simp only [run, hread, hf, hr, hcodec, hp, and_self]
  | cancelled hprep hx =>
      have hprep' : Prepared env' ping world' _ _ _ :=
        ⟨hread.trans hprep.folders_eq, hprep.request_eq, hcodec ▸ hprep.payload_eq⟩
      rw [run_of_prepared hprep', hcodec, hx]
      exact ⟨rfl, rfl, rfl⟩
  | concluded hprep hx =>
      have hprep' : Prepared env' ping world' _ _ _ :=
        ⟨hread.trans hprep.folders_eq, hprep.request_eq, hcodec ▸ hprep.payload_eq⟩
      rw [run_of_prepared hprep', hcodec, hx]
      simp only [finish_result, finish_ping, finish_sent, and_self]

/-- **The store has no say in a call**: over any other store the result, the operation and the
message are the same. -/
theorem run_of_store (env : Collaborators σ) (store : HeartbeatStore σ) (ping : Ping)
    (x : Exchange) (world : σ) :
    let r := run env ping x world
    let r' := run { env with heartbeats := store } ping x world
    r'.result = r.result ∧ r'.ping = r.ping ∧ r'.sent = r.sent := by
  have hcodec : ({ env with heartbeats := store } : Collaborators σ).codec = env.codec := rfl
  exact run_of_reads hcodec rfl x

/-- A write that the store refuses is reported. -/
theorem storeFailed_mem_events {a : Adjustment} (ha : (run env ping x world).adjustment? = some a)
    {e : Error} (he : (env.heartbeats.store ping.account (ping.adjust a).heartbeat.secs
      (env.registry.folders ping.account world).world).result = .error e) :
    Event.storeFailed ping.account (ping.adjust a).heartbeat.secs e ∈
      (run env ping x world).events := by
  have hends := ends_run env ping x world
  generalize run env ping x world = r at hends ha
  cases hends with
  | unread => cases ha
  | idle => cases ha
  | unwritten => cases ha
  | cancelled => cases ha
  | concluded hprep hx =>
      rw [adjustment?_finish, ← conclude_adjustment] at ha
      rw [finish, ha]
      refine List.mem_append_right _ ?_
      show _ ∈ (persist env.heartbeats (ping.adjust a) _).2
      rw [persist, adjust_account]
      dsimp only
      rw [he]
      exact List.mem_append_right _ (List.mem_singleton.2 rfl)

end Ping

end MailPush
