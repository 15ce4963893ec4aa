import MailPush.Ping.Run
import MailPush.Scripted
import MailPush.Proofs.Classification.Table

set_option autoImplicit false

/-! # Calls of a ping operation

The ways in which one call of `Ping.run` can end (`Ends`), each with the run it leaves: the
folders are unreadable, there is nothing to watch, the request cannot be written, the caller
gives up, or the call concludes from a response or from the failure to get one. `ends_run` says
that there are no others, so a property of calls is proved by cases on `Ends`, and `run` need
not be unfolded again.

A history is a list of calls (`Call`), each with the collaborators as they behave in it;
`after` is the operation and the world that it leaves. What every call preserves holds after
every history (`after_induction`).
-/

namespace MailPush

/-- What an exchange yields against a deadline, unless the caller gives up before: a response,
or the failure to get one. -/
def Exchange.received? (x : Exchange) (codec : Codec) (deadline : Span) :
    Option (Except TransportError Response) :=
  match x.ending deadline with
  | .cancelled => none
  | .replied reply => some (Ping.receive codec reply)
  | .timedOut => some (.error (.timedOut deadline))

namespace Exchange

variable {x : Exchange}

theorem happensBy_iff {moment : Option Span} {limit : Span} :
    happensBy moment limit = true ↔ ∃ t, moment = some t ∧ t ≤ limit := by
  cases moment with
  | none => simp [happensBy]
  | some t => simp [happensBy]

/-- Nothing is sent if the caller has given up at once, and only then. -/
theorem isSent_eq_false_iff : x.isSent = false ↔ x.cancelAfter = some .zero := by
  rw [isSent, Bool.not_eq_false', happensBy_iff]
  constructor
  · rintro ⟨t, ht, hle⟩
    have hnanos : t.toNanos = Span.zero.toNanos := Nat.le_antisymm hle (Nat.zero_le _)
    rw [ht, Span.toNanos_inj.1 hnanos]
  · intro h
    exact ⟨.zero, h, Span.le_iff.2 (Nat.le_refl _)⟩

/-- A caller who has given up at once has done so before any reply and any deadline. -/
theorem ending_of_unsent (h : x.isSent = false) (deadline : Span) :
    x.ending deadline = .cancelled := by
  have hby : ∀ limit : Span, happensBy x.cancelAfter limit = true := by
    intro limit
    exact happensBy_iff.2 ⟨.zero, isSent_eq_false_iff.1 h, Nat.zero_le _⟩
  have hcancel : x.cancelsBy deadline = true := by
    unfold cancelsBy
    cases x.replyAfter with
    | none => simp [hby deadline]
    | some t => simp [hby deadline, hby t]
  rw [ending, if_pos hcancel]

theorem received?_of_unsent (h : x.isSent = false) (codec : Codec) (deadline : Span) :
    x.received? codec deadline = none := by
  rw [received?, ending_of_unsent h]

/-- An exchange that ends with a reply has been sent. -/
theorem isSent_of_replied {deadline : Span} {reply : Except TransportError Bytes}
    (h : x.ending deadline = .replied reply) : x.isSent = true := by
  cases hs : x.isSent with
  | true => rfl
  | false =>
      rw [ending_of_unsent hs] at h
      cases h

end Exchange

namespace Ping

variable {σ : Type}

/-! ## Starting -/

/-- The operation with which an account starts, given what its store answers. -/
def restored (store : HeartbeatStore σ) (account : AccountId) (p : Policy) (world : σ) : Ping :=
  ⟨account, .restore p ((store.load account world).result.toOption.getD none)⟩

theorem start_of_valid {store : HeartbeatStore σ} {account : AccountId} {config : PushConfig}
    {world : σ} (hp : config.heartbeat.Valid) :
    (start store account config world).result
        = .ok (restored store account config.heartbeat world) ∧
      (start store account config world).world = (store.load account world).world := by
  have hcheck : config.check = .ok () := by
    rw [PushConfig.check, Policy.problem_eq_none_iff.2 hp]
  constructor
  · rw [start, hcheck]
    rfl
  · rw [start, hcheck]

/-- An operation starts when its policy is consistent, and only then. -/
theorem start_eq_ok_iff {store : HeartbeatStore σ} {account : AccountId} {config : PushConfig}
    {world : σ} {ping : Ping} :
    (start store account config world).result = .ok ping
      ↔ config.heartbeat.Valid ∧ ping = restored store account config.heartbeat world := by
  constructor
  · intro h
    have hp : config.heartbeat.Valid := by
      rw [← Policy.problem_eq_none_iff]
      cases hproblem : config.heartbeat.problem with
      | none => rfl
      | some problem =>
          simp only [start, PushConfig.check, hproblem] at h
          cases h
    rw [(start_of_valid hp).1] at h
    cases h
    exact ⟨hp, rfl⟩
  · rintro ⟨hp, rfl⟩
    exact (start_of_valid hp).1

/-! ## Responses -/

theorem receive_nil (codec : Codec) : receive codec (.ok []) = .error .emptyBody := rfl

theorem receive_body (codec : Codec) {body : Bytes} (hb : body ≠ []) :
    receive codec (.ok body)
      = (codec.decode body).mapError fun e => TransportError.unusable e.message := by
  show (if body = [] then Except.error TransportError.emptyBody else _) = _
  rw [if_neg hb]

theorem receive_eq_ok_iff {codec : Codec} {reply : Except TransportError Bytes}
    {response : Response} :
    receive codec reply = .ok response
      ↔ ∃ body, reply = .ok body ∧ body ≠ [] ∧ codec.decode body = .ok response := by
  constructor
  · intro h
    cases reply with
    | error failure => cases h
    | ok body =>
        by_cases hb : body = []
        · rw [hb, receive_nil] at h
          cases h
        · rw [receive_body codec hb] at h
          cases hd : codec.decode body with
          | error e =>
              rw [hd] at h
              cases h
          | ok response' =>
              rw [hd] at h
              cases h
              exact ⟨body, rfl, hb, hd⟩
  · rintro ⟨body, rfl, hb, hd⟩
    rw [receive_body codec hb, hd]
    rfl

/-- The request of a call has been made ready: the folders are read, there is one to watch, and
the request is written. -/
structure Prepared (env : Collaborators σ) (ping : Ping) (world : σ) (folders : List Folder)
    (request : Request) (payload : Bytes) : Prop where
  folders_eq : (env.registry.folders ping.account world).result = .ok folders
  request_eq : ping.request? folders = some request
  payload_eq : env.codec.encode request = .ok payload

/-- A call decodes a response: its request is made ready, and a body arrives in time from which
the codec reads the response. -/
structure Decodes (env : Collaborators σ) (ping : Ping) (x : Exchange) (world : σ)
    (folders : List Folder) (response : Response) : Prop where
  prepared : ∃ request payload, Prepared env ping world folders request payload
  body : ∃ body, x.ending ping.heartbeat.timeout = .replied (.ok body) ∧ body ≠ [] ∧
    env.codec.decode body = .ok response

theorem received?_eq_ok_iff {x : Exchange} {codec : Codec} {deadline : Span}
    {response : Response} :
    x.received? codec deadline = some (.ok response)
      ↔ ∃ body, x.ending deadline = .replied (.ok body) ∧ body ≠ [] ∧
          codec.decode body = .ok response := by
  unfold Exchange.received?
  cases x.ending deadline with
  | cancelled => simp
  | timedOut => simp
  | replied reply =>
      simp only [Option.some.injEq, receive_eq_ok_iff, Ending.replied.injEq]

/-! ## How a call ends -/

/-- The message that a call gives to the transport, unless the caller has given up before. -/
def message? (ping : Ping) (x : Exchange) (payload : Bytes) : Option Message :=
  if x.isSent then some ⟨payload, ping.heartbeat.timeout⟩ else none

/-- The events of a call up to the moment when its request is sent. -/
def sendingEvents (ping : Ping) (read : List Event) (request : Request) : List Event :=
  read ++ [.sending ping.account request.heartbeatSecs request.folders.length]

/-- The ways in which a call can end, each with the run that it leaves. -/
inductive Ends (env : Collaborators σ) (ping : Ping) (x : Exchange) (world : σ) : Run σ → Prop
  | unread {e : Error} :
      (env.registry.folders ping.account world).result = .error e →
      Ends env ping x world
        ⟨.error (.metadataUnavailable ping.account e), ping,
          (env.registry.folders ping.account world).world, none,
          (env.registry.folders ping.account world).events⟩
  | idle {folders : List Folder} :
      (env.registry.folders ping.account world).result = .ok folders →
      ping.request? folders = none →
      Ends env ping x world
        ⟨.ok .nothingToWatch, ping, (env.registry.folders ping.account world).world, none,
          (env.registry.folders ping.account world).events ++ [.nothingToWatch ping.account]⟩
  | unwritten {folders : List Folder} {request : Request} {e : CodecError} :
      (env.registry.folders ping.account world).result = .ok folders →
      ping.request? folders = some request →
      env.codec.encode request = .error e →
      Ends env ping x world
        ⟨.error (.encode e), ping, (env.registry.folders ping.account world).world, none,
          (env.registry.folders ping.account world).events⟩
  | cancelled {folders : List Folder} {request : Request} {payload : Bytes} :
      Prepared env ping world folders request payload →
      x.received? env.codec ping.heartbeat.timeout = none →
      Ends env ping x world
        ⟨.ok .cancelled, ping, (env.registry.folders ping.account world).world,
          ping.message? x payload,
          ping.sendingEvents (env.registry.folders ping.account world).events request
            ++ [.cancelled ping.account]⟩
  | concluded {folders : List Folder} {request : Request} {payload : Bytes}
      {received : Except TransportError Response} :
      Prepared env ping world folders request payload →
      x.received? env.codec ping.heartbeat.timeout = some received →
      Ends env ping x world
        (finish env.heartbeats ping (ping.conclude folders received)
          (env.registry.folders ping.account world).world (ping.message? x payload)
          (ping.sendingEvents (env.registry.folders ping.account world).events request))

/-- A call whose request is made ready is decided by what its exchange yields. -/
theorem run_of_prepared {env : Collaborators σ} {ping : Ping} {world : σ}
    {folders : List Folder} {request : Request} {payload : Bytes}
    (h : Prepared env ping world folders request payload) (x : Exchange) :
    run env ping x world
      = match x.received? env.codec ping.heartbeat.timeout with
        | none =>
          ⟨.ok .cancelled, ping, (env.registry.folders ping.account world).world,
            ping.message? x payload,
            ping.sendingEvents (env.registry.folders ping.account world).events request
              ++ [.cancelled ping.account]⟩
        | some received =>
          finish env.heartbeats ping (ping.conclude folders received)
            (env.registry.folders ping.account world).world (ping.message? x payload)
            (ping.sendingEvents (env.registry.folders ping.account world).events request) := by
  obtain ⟨hf, hr, hp⟩ := h
  simp only [run, hf, hr, hp, Exchange.received?]
  cases x.ending ping.heartbeat.timeout <;> rfl

/-- **The ends of a call.** Every call ends in one of the five ways. -/
theorem ends_run (env : Collaborators σ) (ping : Ping) (x : Exchange) (world : σ) :
    Ends env ping x world (run env ping x world) := by
  cases hf : (env.registry.folders ping.account world).result with
  | error e =>
      have h := Ends.unread (x := x) hf
      simpa only [run, hf] using h
  | ok folders =>
      cases hr : ping.request? folders with
      | none =>
          have h := Ends.idle (x := x) hf hr
          simpa only [run, hf, hr] using h
      | some request =>
          cases hp : env.codec.encode request with
          | error e =>
              have h := Ends.unwritten (x := x) hf hr hp
              simpa only [run, hf, hr, hp] using h
          | ok payload =>
              have hprep : Prepared env ping world folders request payload := ⟨hf, hr, hp⟩
              rw [run_of_prepared hprep]
              cases hx : x.received? env.codec ping.heartbeat.timeout with
              | none => exact .cancelled hprep hx
              | some received => exact .concluded hprep hx

/-! ## Calls whose request is not made ready -/

section Unready

variable {env : Collaborators σ} {ping : Ping} {world : σ} {folders : List Folder}

theorem run_of_unread {e : Error}
    (hfolders : (env.registry.folders ping.account world).result = .error e) (x : Exchange) :
    run env ping x world = ⟨.error (.metadataUnavailable ping.account e), ping,
      (env.registry.folders ping.account world).world, none,
      (env.registry.folders ping.account world).events⟩ := by
  simp only [run, hfolders]

/-- A call that finds nothing to watch sends nothing, and leaves what it has read. -/
theorem run_of_idle (hfolders : (env.registry.folders ping.account world).result = .ok folders)
    (hselect : Folder.select folders = []) (x : Exchange) :
    (run env ping x world).result = .ok .nothingToWatch ∧
      (run env ping x world).sent = none ∧
      (run env ping x world).world = (env.registry.folders ping.account world).world ∧
      (run env ping x world).ping = ping := by
  have hrequest : ping.request? folders = none := by
    rw [request?, Request.build?, dif_pos hselect]
  simp only [run, hfolders, hrequest, and_self]

theorem run_of_unwritten {request : Request} {e : CodecError}
    (hfolders : (env.registry.folders ping.account world).result = .ok folders)
    (hrequest : ping.request? folders = some request)
    (hencode : env.codec.encode request = .error e) (x : Exchange) :
    run env ping x world = ⟨.error (.encode e), ping,
      (env.registry.folders ping.account world).world, none,
      (env.registry.folders ping.account world).events⟩ := by
  simp only [run, hfolders, hrequest, hencode]

end Unready

/-! ## Calls that decode a response -/

/-- A call that decodes a response concludes from it. -/
theorem run_of_decodes {env : Collaborators σ} {ping : Ping} {x : Exchange} {world : σ}
    {folders : List Folder} {response : Response}
    (h : Decodes env ping x world folders response) :
    ∃ request payload, Prepared env ping world folders request payload ∧
      run env ping x world
        = finish env.heartbeats ping (ping.conclude folders (.ok response))
            (env.registry.folders ping.account world).world (ping.message? x payload)
            (ping.sendingEvents (env.registry.folders ping.account world).events request) := by
  obtain ⟨⟨request, payload, hprep⟩, hbody⟩ := h
  refine ⟨request, payload, hprep, ?_⟩
  rw [run_of_prepared hprep, received?_eq_ok_iff.2 hbody]

/-! ## What a call concludes -/

/-- The operation after an adjustment, if there is one. -/
def adjustBy (ping : Ping) : Option Adjustment → Ping
  | none => ping
  | some a => ping.adjust a

/-- The world after an adjustment, if there is one: the store has been given the new heartbeat. -/
def storedBy (store : HeartbeatStore σ) (ping : Ping) (world : σ) : Option Adjustment → σ
  | none => world
  | some a => (store.store ping.account (ping.adjust a).heartbeat.secs world).world

@[simp] theorem adjustBy_none (ping : Ping) : ping.adjustBy none = ping := rfl

@[simp] theorem adjustBy_some (ping : Ping) (a : Adjustment) :
    ping.adjustBy (some a) = ping.adjust a := rfl

section Finish

variable (store : HeartbeatStore σ) (ping : Ping) (c : Conclusion) (world : σ)
  (sent : Option Message) (events : List Event)

@[simp] theorem finish_result :
    (finish store ping c world sent events).result = .ok c.outcome := by
  unfold finish
  cases c.adjustment <;> rfl

@[simp] theorem finish_sent : (finish store ping c world sent events).sent = sent := by
  unfold finish
  cases c.adjustment <;> rfl

@[simp] theorem finish_ping :
    (finish store ping c world sent events).ping = ping.adjustBy c.adjustment := by
  unfold finish
  cases c.adjustment <;> rfl

@[simp] theorem finish_world :
    (finish store ping c world sent events).world
      = storedBy store ping world c.adjustment := by
  unfold finish
  cases c.adjustment <;> rfl

end Finish

section Ready

variable {env : Collaborators σ} {ping : Ping} {world : σ} {folders : List Folder}
  {request : Request} {payload : Bytes}

theorem message_of_prepared (hprep : Prepared env ping world folders request payload)
    (x : Exchange) : (run env ping x world).sent = ping.message? x payload := by
  rw [run_of_prepared hprep]
  cases x.received? env.codec ping.heartbeat.timeout with
  | none => rfl
  | some received => exact finish_sent ..

/-- A call whose request is made ready sends it, unless the caller has given up before. -/
theorem sent_of_prepared (hprep : Prepared env ping world folders request payload) {x : Exchange}
    (hsent : x.isSent = true) :
    (run env ping x world).sent = some ⟨payload, ping.heartbeat.timeout⟩ :=
  (message_of_prepared hprep x).trans (if_pos hsent)

end Ready

@[simp] theorem adjust_account (ping : Ping) (a : Adjustment) :
    (ping.adjust a).account = ping.account := rfl

@[simp] theorem adjust_heartbeat (ping : Ping) (a : Adjustment) :
    (ping.adjust a).heartbeat = ping.heartbeat.adjust a := rfl

theorem conclude_error (ping : Ping) (folders : List Folder) (failure : TransportError) :
    (ping.conclude folders (.error failure)).outcome = .operationFailure failure ∧
      (ping.conclude folders (.error failure)).adjustment = some .backOff :=
  ⟨rfl, rfl⟩

/-- The adjustment that a response asks for. There are two statuses with one: a step up when the
ping expired, and another heartbeat when the server names it. -/
def adjustmentTable (r : Response) : Option Adjustment :=
  if r.status.number = 1 then some .increase
  else if r.status.number = 5 then r.heartbeatInterval.map .adopt
  else none

/-- A response asks for an adjustment. -/
def Tuning (r : Response) : Prop :=
  r.status.number = 1 ∨ (r.status.number = 5 ∧ r.heartbeatInterval.isSome)

theorem adjustmentTable_eq_none {r : Response} (ht : ¬ Tuning r) : adjustmentTable r = none := by
  have h1 : r.status.number ≠ 1 := fun hs => ht (.inl hs)
  rw [adjustmentTable, if_neg h1]
  by_cases h5 : r.status.number = 5
  · rw [if_pos h5]
    cases hi : r.heartbeatInterval with
    | none => rfl
    | some secs => exact absurd (.inr ⟨h5, by rw [hi]; rfl⟩) ht
  · rw [if_neg h5]

theorem conclude_ok_adjustment (ping : Ping) (folders : List Folder) (r : Response) :
    (ping.conclude folders (.ok r)).adjustment = adjustmentTable r := by
  show adjustmentOf (classify r).action = _
  rw [action_classify, actionTable, adjustmentTable]
  by_cases h5 : r.status.number = 5
  · rw [h5]
    cases r.heartbeatInterval <;> rfl
  · simp only [if_neg h5]
    split_ifs <;> rfl

theorem conclude_ok_outcome (ping : Ping) (folders : List Folder) (r : Response) :
    (ping.conclude folders (.ok r)).outcome
      = .ofClassification (classify r) (Effect.ofAction folders (classify r).action) := rfl

/-- The conclusion depends on the meaning of a response alone. -/
theorem conclude_congr (ping : Ping) (folders : List Folder) {r r' : Response}
    (h : classify r = classify r') :
    ping.conclude folders (.ok r) = ping.conclude folders (.ok r') := by
  simp only [conclude, h]

/-- A response is never reported as a failed request. -/
theorem ofClassification_ne_operationFailure (c : Classification) (effects : List Effect)
    (failure : TransportError) :
    Outcome.ofClassification c effects ≠ .operationFailure failure := by
  cases c <;> exact Outcome.noConfusion

/-- What a call concludes is neither that it was cancelled nor that there was nothing to watch. -/
theorem conclude_outcome_ne (ping : Ping) (folders : List Folder)
    (received : Except TransportError Response) :
    (ping.conclude folders received).outcome ≠ .cancelled ∧
      (ping.conclude folders received).outcome ≠ .nothingToWatch := by
  cases received with
  | error failure => exact ⟨Outcome.noConfusion, Outcome.noConfusion⟩
  | ok response =>
      rw [conclude_ok_outcome]
      cases classify response <;> exact ⟨Outcome.noConfusion, Outcome.noConfusion⟩

/-- A call whose request is made ready has an outcome, and has not found nothing to watch. -/
theorem outcome_of_prepared {env : Collaborators σ} {ping : Ping} {world : σ}
    {folders : List Folder} {request : Request} {payload : Bytes}
    (hprep : Prepared env ping world folders request payload) (x : Exchange) :
    ∃ outcome, (run env ping x world).result = .ok outcome ∧ outcome ≠ .nothingToWatch := by
  rw [run_of_prepared hprep]
  cases x.received? env.codec ping.heartbeat.timeout with
  | none => exact ⟨.cancelled, rfl, Outcome.noConfusion⟩
  | some received =>
      exact ⟨_, finish_result .., (conclude_outcome_ne ping folders received).2⟩

theorem ofClassification_eq_completed {c c' : Classification} {effects effects' : List Effect}
    (h : Outcome.ofClassification c effects = .completed c' effects') :
    c = c' ∧ effects = effects' := by
  cases c with
  | retryLater | fatalAuth | fatalProtocol => cases h
  | expired | changesFound | badRequest | heartbeatOutOfBounds | tooManyFolders | folderListStale
  | transientServerError | unrecognized => exact Outcome.completed.inj h

/-- A run that completes has decoded the response that it classifies. -/
theorem decodes_of_completed {env : Collaborators σ} {ping : Ping} {x : Exchange} {world : σ}
    {classification : Classification} {effects : List Effect}
    (h : (run env ping x world).result = .ok (.completed classification effects)) :
    ∃ folders response, Decodes env ping x world folders response ∧
      classification = classify response ∧
      effects = Effect.ofAction folders (classify response).action := by
  have hends := ends_run env ping x world
  generalize run env ping x world = r at hends h
  cases hends with
  | unread => cases h
  | idle => cases h
  | unwritten => cases h
  | cancelled => cases h
  | concluded hprep hx =>
      rename_i folders request payload received
      rw [finish_result] at h
      have houtcome := Except.ok.inj h
      cases received with
      | error failure => cases houtcome
      | ok response =>
          rw [conclude_ok_outcome] at houtcome
          obtain ⟨hclass, heffects⟩ := ofClassification_eq_completed houtcome
          exact ⟨folders, response, ⟨⟨request, payload, hprep⟩, received?_eq_ok_iff.1 hx⟩,
            hclass.symm, heffects.symm⟩

/-! ## Histories -/

/-- A call: the collaborators as they behave in it, and the course of its exchange. -/
structure Call (σ : Type) where
  env : Collaborators σ
  exchange : Exchange

/-- The run of a call. -/
def Call.run (call : Call σ) (ping : Ping) (world : σ) : Run σ :=
  Ping.run call.env ping call.exchange world

/-- The operation and the world after calls, one after the other. -/
def after (ping : Ping) (world : σ) : List (Call σ) → Ping × σ
  | [] => (ping, world)
  | call :: calls => after (call.run ping world).ping (call.run ping world).world calls

/-- What every call preserves holds after every history. -/
theorem after_induction {P : Ping → σ → Prop} {calls : List (Call σ)} {ping : Ping} {world : σ}
    (hstep : ∀ call ∈ calls, ∀ ping world, P ping world →
      P (call.run ping world).ping (call.run ping world).world)
    (h : P ping world) : P (after ping world calls).1 (after ping world calls).2 := by
  induction calls generalizing ping world with
  | nil => exact h
  | cons call calls ih =>
      refine ih (fun c hc => hstep c (List.mem_cons_of_mem _ hc)) ?_
      exact hstep call List.mem_cons_self ping world h

/-! ## Scripted calls

Calls with scripted collaborators, at which the general statements are tried. -/

/-- A reply that arrives at once is in time for every deadline. -/
theorem ending_at_once (reply : Except TransportError Bytes) (deadline : Span) :
    (Exchange.mk reply (some .zero) none).ending deadline = .replied reply := by
  have hle : Span.zero ≤ deadline := Nat.zero_le _
  simp [Exchange.ending, Exchange.cancelsBy, Exchange.repliesBy, Exchange.happensBy, hle]

/-- A world with a stored heartbeat and one folder to watch. -/
def watching (stored : Option UInt64) : Scripted :=
  .ofContents stored [⟨⟨1⟩, "inbox", .email, true, true⟩]

/-- A call whose server answers at once, with this response. -/
def Call.answered (r : Response) : Call Scripted where
  env := Scripted.collaborators ⟨fun _ => .ok [0], fun _ => .ok r⟩
  exchange := ⟨.ok [0], some .zero, none⟩

/-- A call whose connection fails at once. -/
def Call.failed : Call Scripted where
  env := Scripted.collaborators ⟨fun _ => .ok [0], fun _ => .ok (.ofStatus .expired)⟩
  exchange := ⟨.error (.connection "reset"), some .zero, none⟩

end Ping

end MailPush
