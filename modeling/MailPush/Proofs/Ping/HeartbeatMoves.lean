import MailPush.Proofs.Heartbeat.Range
import MailPush.Proofs.Ping.Calls

set_option autoImplicit false

/-! # How calls move the heartbeat

A call leaves the operation as it is, backs its heartbeat off, or adjusts it as the decoded
response says (`run_ping_cases`); nothing else happens to it. From this follow the invariant
of an operation that was started with a policy (`Governed`), which every call preserves, and
the main statement `heartbeat_of_history`: after any calls the heartbeat lies within the
bounds, the next message carries it, and the next call moves it by at most one step unless
the server names another heartbeat.
-/

namespace MailPush

namespace Ping

variable {σ : Type}

/-! ## One call -/

theorem run_ping_of_decodes {env : Collaborators σ} {ping : Ping} {x : Exchange} {world : σ}
    {folders : List Folder} {response : Response}
    (h : Decodes env ping x world folders response) :
    (run env ping x world).ping = ping.adjustBy (adjustmentTable response) := by
  obtain ⟨request, payload, -, hrun⟩ := run_of_decodes h
  rw [hrun, finish_ping, conclude_ok_adjustment]

/-- A call that decodes an expired ping lets the heartbeat grow. -/
theorem run_ping_expired {env : Collaborators σ} {ping : Ping} {x : Exchange} {world : σ}
    {folders : List Folder} {response : Response}
    (h : Decodes env ping x world folders response) (hs : response.status.number = 1) :
    (run env ping x world).ping = ping.adjust .increase := by
  rw [run_ping_of_decodes h, adjustmentTable, if_pos hs]
  rfl

/-- A call that decodes a heartbeat named by the server adopts it. -/
theorem run_ping_adopted {env : Collaborators σ} {ping : Ping} {x : Exchange} {world : σ}
    {folders : List Folder} {response : Response} {secs : UInt64}
    (h : Decodes env ping x world folders response) (hs : response.status.number = 5)
    (hn : response.heartbeatInterval = some secs) :
    (run env ping x world).ping = ping.adjust (.adopt secs) := by
  rw [run_ping_of_decodes h, adjustmentTable, if_neg (by omega), if_pos hs, hn]
  rfl

/-- A call that decodes any other response leaves the heartbeat as it is. -/
theorem run_ping_kept {env : Collaborators σ} {ping : Ping} {x : Exchange} {world : σ}
    {folders : List Folder} {response : Response}
    (h : Decodes env ping x world folders response) (ht : ¬ Tuning response) :
    (run env ping x world).ping = ping := by
  rw [run_ping_of_decodes h, adjustmentTable_eq_none ht, adjustBy_none]

/-- **What a call does to its operation.** It leaves the operation as it is, unless its request
failed or it decoded a response that tunes the heartbeat. -/
theorem run_ping_cases (env : Collaborators σ) (ping : Ping) (x : Exchange) (world : σ) :
    (run env ping x world).ping = ping
    ∨ (∃ failure, (run env ping x world).result = .ok (.operationFailure failure))
        ∧ (run env ping x world).ping = ping.adjust .backOff
    ∨ ∃ folders response, Decodes env ping x world folders response ∧ Tuning response := by
  generalize hr : run env ping x world = r
  have hends : Ends env ping x world r := hr ▸ ends_run env ping x world
  cases hends with
  | unread => exact .inl rfl
  | idle => exact .inl rfl
  | unwritten => exact .inl rfl
  | cancelled => exact .inl rfl
  | concluded hprep hx =>
      rename_i folders request payload received
      cases received with
      | error failure =>
          refine .inr (.inl ⟨⟨failure, ?_⟩, ?_⟩)
          · rw [finish_result, (conclude_error ping folders failure).1]
          · rw [finish_ping, (conclude_error ping folders failure).2, adjustBy_some]
      -- a decoded response moves the heartbeat only in the two rows that tune it
      | ok response =>
          have hd : Decodes env ping x world folders response :=
            ⟨⟨request, payload, hprep⟩, received?_eq_ok_iff.1 hx⟩
          by_cases ht : Tuning response
          · exact .inr (.inr ⟨folders, response, hd, ht⟩)
          · exact .inl (hr ▸ run_ping_kept hd ht)

/-- A call whose request failed backs the heartbeat off. -/
theorem run_ping_failed {env : Collaborators σ} {ping : Ping} {x : Exchange} {world : σ}
    {failure : TransportError}
    (h : (run env ping x world).result = .ok (.operationFailure failure)) :
    (run env ping x world).ping = ping.adjust .backOff := by
  have hends := ends_run env ping x world
  generalize run env ping x world = r at h hends
  cases hends with
  | unread => cases h
  | idle => cases h
  | unwritten => cases h
  | cancelled => cases h
  | concluded hprep hx =>
      rename_i folders request payload received
      rw [finish_result] at h
      -- a decoded response, whatever it says, is not reported as a failed request
      cases received with
      | error e => rw [finish_ping, (conclude_error ping folders e).2, adjustBy_some]
      | ok response =>
          rw [conclude_ok_outcome] at h
          exact absurd (Except.ok.inj h) (ofClassification_ne_operationFailure _ _ _)

/-- A call that ends before its exchange does leaves the operation as it is. -/
theorem run_ping_early {env : Collaborators σ} {ping : Ping} {x : Exchange} {world : σ}
    (h : (∃ e, (run env ping x world).result = .error e) ∨
      (run env ping x world).result = .ok .nothingToWatch ∨
      (run env ping x world).result = .ok .cancelled) :
    (run env ping x world).ping = ping := by
  have hends := ends_run env ping x world
  generalize run env ping x world = r at h hends
  cases hends with
  | unread => rfl
  | idle => rfl
  | unwritten => rfl
  | cancelled => rfl
  | concluded hprep hx =>
      rename_i folders request payload received
      rw [finish_result] at h
      -- the outcome of a conclusion is none of the three
      cases received with
      | error e => rcases h with ⟨_, h⟩ | h | h <;> cases h
      | ok response =>
          rw [conclude_ok_outcome] at h
          generalize classify response = c at h
          cases c <;> rcases h with ⟨_, h⟩ | h | h <;> cases h

/-- The message of a call is the request of the current heartbeat for the watched folders, and
its deadline is that of the same heartbeat. -/
theorem run_sent {env : Collaborators σ} {ping : Ping} {x : Exchange} {world : σ}
    {m : Message} (h : (run env ping x world).sent = some m) :
    ∃ folders request payload, Prepared env ping world folders request payload ∧
      m = ⟨payload, ping.heartbeat.timeout⟩ := by
  have hends := ends_run env ping x world
  generalize run env ping x world = r at h hends
  cases hends with
  | unread => cases h
  | idle => cases h
  | unwritten => cases h
  | cancelled hprep hx =>
      refine ⟨_, _, _, hprep, ?_⟩
      simp only [message?] at h
      split_ifs at h
      exact (Option.some.inj h).symm
  | concluded hprep hx =>
      refine ⟨_, _, _, hprep, ?_⟩
      simp only [finish_sent, message?] at h
      split_ifs at h
      exact (Option.some.inj h).symm

/-- A request carries the heartbeat for which it is built, and the folders to be watched. -/
theorem request?_eq_some {ping : Ping} {folders : List Folder} {request : Request}
    (h : ping.request? folders = some request) :
    request.heartbeatSecs = ping.heartbeat.secs ∧ request.folders = Folder.select folders := by
  simp only [request?, Request.build?] at h
  split_ifs at h
  cases h
  exact ⟨rfl, rfl⟩

/-! ## Every call -/

/-- The operation belongs to an account, and its heartbeat is in range of a policy. -/
structure Governed (account : AccountId) (p : Policy) (ping : Ping) : Prop where
  account_eq : ping.account = account
  policy_eq : ping.heartbeat.policy = p
  inRange : ping.heartbeat.InRange

theorem governed_restored {store : HeartbeatStore σ} {account : AccountId} {p : Policy}
    (hp : p.Valid) (world : σ) : Governed account p (restored store account p world) where
  account_eq := rfl
  policy_eq := Heartbeat.restore_policy p _
  inRange := Heartbeat.inRange_restore hp.min_le_max _

theorem Governed.adjust {account : AccountId} {p : Policy} {ping : Ping} (hp : p.Valid)
    (h : Governed account p ping) (a : Adjustment) : Governed account p (ping.adjust a) where
  account_eq := h.account_eq
  policy_eq := h.policy_eq
  inRange := by
    have hle : ping.heartbeat.policy.minSecs ≤ ping.heartbeat.policy.maxSecs := by
      rw [h.policy_eq]
      exact hp.min_le_max
    exact Heartbeat.inRange_adjust hle a

/-- A call keeps the operation governed: all that it does to it is at most one adjustment. -/
theorem Governed.run {account : AccountId} {p : Policy} {ping : Ping} (hp : p.Valid)
    (h : Governed account p ping) (env : Collaborators σ) (x : Exchange) (world : σ) :
    Governed account p (run env ping x world).ping := by
  rcases run_ping_cases env ping x world with hkept | ⟨-, hback⟩ | ⟨folders, response, hd, -⟩
  · rw [hkept]
    exact h
  · rw [hback]
    exact h.adjust hp .backOff
  · rw [run_ping_of_decodes hd]
    cases adjustmentTable response with
    | none => exact h
    | some a => exact h.adjust hp a

theorem Governed.after {account : AccountId} {p : Policy} {ping : Ping} (hp : p.Valid)
    (h : Governed account p ping) (world : σ) (calls : List (Call σ)) :
    Governed account p (after ping world calls).1 :=
  after_induction (P := fun ping _ => Governed account p ping)
    (fun call _ _ world h => h.run hp call.env call.exchange world) h

/-- A call moves the heartbeat by at most one step, unless the server names another one. -/
theorem Governed.run_step {account : AccountId} {p : Policy} {ping : Ping}
    (h : Governed account p ping) (env : Collaborators σ) (x : Exchange) (world : σ)
    (hn : ¬ ∃ folders response, Decodes env ping x world folders response ∧
      response.status.number = 5 ∧ response.heartbeatInterval.isSome) :
    (Ping.run env ping x world).ping.heartbeat.secs.toNat
        ≤ ping.heartbeat.secs.toNat + p.maxStepSecs.toNat ∧
      ping.heartbeat.secs.toNat
        ≤ (Ping.run env ping x world).ping.heartbeat.secs.toNat + p.maxStepSecs.toNat := by
  have hup := Heartbeat.increase_bounds h.inRange
  have hdown := Heartbeat.backOff_bounds h.inRange
  rw [h.policy_eq] at hup hdown
  -- a heartbeat named by the server is excluded, and the other adjustments are single steps
  rcases run_ping_cases env ping x world with hkept | ⟨-, hback⟩ | ⟨folders, response, hd, ht⟩
  · rw [hkept]
    omega
  · rw [hback, adjust_heartbeat]
    omega
  · rcases ht with h1 | h5
    · rw [run_ping_expired hd h1, adjust_heartbeat]
      omega
    · exact absurd ⟨folders, response, hd, h5⟩ hn

/-! ## Every history -/

/-- **The heartbeat of a history.** An operation has been started with a policy, and any calls
have been made. Then its heartbeat lies within the bounds of the policy, and for every further
call: the message carries this heartbeat; a failed request takes it down by at most one step;
an expired ping takes it up by at most one step; a heartbeat named by the server is adopted,
clamped; unless one is named, it moves by at most one step; and unless one of these happens,
it does not move, in particular when the call ends before its exchange does. -/
theorem heartbeat_of_history {store : HeartbeatStore σ} {account : AccountId}
    {config : PushConfig} {world : σ} {ping : Ping}
    (hstart : (start store account config world).result = .ok ping) (calls : List (Call σ)) :
    let policy := config.heartbeat
    let s := after ping (start store account config world).world calls
    (policy.minSecs ≤ s.1.heartbeat.secs ∧ s.1.heartbeat.secs ≤ policy.maxSecs) ∧
    ∀ call : Call σ,
      let r := call.run s.1 s.2
      let old := s.1.heartbeat.secs.toNat
      let new := r.ping.heartbeat.secs.toNat
      let step := policy.maxStepSecs.toNat
      (∀ m, r.sent = some m → ∃ request, request.heartbeatSecs = s.1.heartbeat.secs ∧
        call.env.codec.encode request = .ok m.payload) ∧
      (∀ failure, r.result = .ok (.operationFailure failure) →
        new ≤ old ∧ old ≤ new + step) ∧
      (∀ folders response, Decodes call.env s.1 call.exchange s.2 folders response →
        (response.status.number = 1 → old ≤ new ∧ new ≤ old + step) ∧
        (∀ secs, response.status.number = 5 → response.heartbeatInterval = some secs →
          r.ping.heartbeat.secs = policy.clamp secs)) ∧
      ((¬ ∃ folders response, Decodes call.env s.1 call.exchange s.2 folders response ∧
          response.status.number = 5 ∧ response.heartbeatInterval.isSome) →
        new ≤ old + step ∧ old ≤ new + step) ∧
      ((¬ ∃ failure, r.result = .ok (.operationFailure failure)) →
        (¬ ∃ folders response, Decodes call.env s.1 call.exchange s.2 folders response ∧
          (response.status.number = 1 ∨
            (response.status.number = 5 ∧ response.heartbeatInterval.isSome))) →
        r.ping = s.1) ∧
      ((∃ e, r.result = .error e) ∨ r.result = .ok .nothingToWatch ∨
        r.result = .ok .cancelled → r.ping = s.1) := by
  intro policy s
  obtain ⟨hp, rfl⟩ := start_eq_ok_iff.1 hstart
  have hg : Governed account policy s.1 := (governed_restored hp world).after hp _ calls
  have hrange := hg.inRange
  rw [Heartbeat.InRange, hg.policy_eq] at hrange
  refine ⟨hrange, fun call => ?_⟩
  intro r old new step
  refine ⟨?_, ?_, ?_, ?_, ?_, ?_⟩
  · intro m hm
    obtain ⟨folders, request, payload, hprep, rfl⟩ := run_sent hm
    exact ⟨request, (request?_eq_some hprep.request_eq).1, hprep.payload_eq⟩
  · intro failure hf
    have hdown := Heartbeat.backOff_bounds hg.inRange
    rw [hg.policy_eq] at hdown
    have hping : r.ping = s.1.adjust .backOff := run_ping_failed hf
    show r.ping.heartbeat.secs.toNat ≤ old ∧ old ≤ r.ping.heartbeat.secs.toNat + step
    rw [hping]
    exact hdown
  · intro folders response hd
    refine ⟨fun h1 => ?_, fun secs h5 hsecs => ?_⟩
    · have hup := Heartbeat.increase_bounds hg.inRange
      rw [hg.policy_eq] at hup
      have hping : r.ping = s.1.adjust .increase := run_ping_expired hd h1
      show old ≤ r.ping.heartbeat.secs.toNat ∧ r.ping.heartbeat.secs.toNat ≤ old + step
      rw [hping]
      exact hup
    · have hping : r.ping = s.1.adjust (.adopt secs) := run_ping_adopted hd h5 hsecs
      rw [hping, adjust_heartbeat, Heartbeat.adopt_secs, hg.policy_eq]
  · exact hg.run_step call.env call.exchange s.2
  · intro hnf hnt
    rcases run_ping_cases call.env s.1 call.exchange s.2 with hkept | ⟨hf, -⟩ | ht
    · exact hkept
    · exact absurd hf hnf
    · exact absurd ht hnt
  · exact run_ping_early

/-- An account that starts at 600 seconds stands at 480 after a failed call, and when the next
ping expires, its heartbeat grows by no more than 300. -/
theorem heartbeat_of_history_failed_then_expired :
    let started := start Scripted.heartbeatStore ⟨7⟩ .standard (watching (some 600))
    let s := after ⟨⟨7⟩, ⟨.standard, 600⟩⟩ started.world [.failed]
    let r := (Call.answered (.ofStatus .expired)).run s.1 s.2
    started.result = .ok ⟨⟨7⟩, ⟨.standard, 600⟩⟩ ∧ s.1.heartbeat.secs = 480 ∧
      (480 ≤ s.1.heartbeat.secs ∧ s.1.heartbeat.secs ≤ 1680) ∧
      (480 ≤ r.ping.heartbeat.secs.toNat ∧ r.ping.heartbeat.secs.toNat ≤ 480 + 300) := by
  intro started s r
  have hstart : started.result = .ok ⟨⟨7⟩, ⟨.standard, 600⟩⟩ := rfl
  obtain ⟨hrange, hcall⟩ := heartbeat_of_history hstart [.failed]
  have hd : Decodes (Call.answered (.ofStatus .expired)).env s.1
      (Call.answered (.ofStatus .expired)).exchange s.2
      [⟨⟨1⟩, "inbox", .email, true, true⟩] (.ofStatus .expired) :=
    ⟨⟨_, _, rfl, rfl, rfl⟩, [0], ending_at_once _ _, by decide, rfl⟩
  obtain ⟨-, -, hdecoded, -⟩ := hcall (.answered (.ofStatus .expired))
  exact ⟨hstart, rfl, hrange, (hdecoded _ _ hd).1 rfl⟩

end Ping

end MailPush
