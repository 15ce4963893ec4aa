import MailPush.Proofs.Ping.WriteDiscipline

set_option autoImplicit false

/-! # Preparing a call

Before a call waits for anything it reads the folders, selects those to be watched and writes the
request. The first of these steps that does not succeed ends the call, even if the caller has given
up already, and otherwise the message is that of the request (`preparation_first`).

A call that gives the transport nothing has moved nothing (`leavesNoTrace_of_unsent`): not the
heartbeat, not the store, and no later call that reads the same folders.
-/

namespace MailPush

/-- There is nothing to be watched when no folder is eligible. -/
theorem Folder.select_eq_nil_iff {folders : List Folder} :
    Folder.select folders = [] ↔ ∀ f ∈ folders, ¬ f.isEligible = true := by
  rw [select, List.map_eq_nil_iff, List.filter_eq_nil_iff]

namespace Ping

variable {σ : Type} {env : Collaborators σ} {ping : Ping} {x : Exchange} {world : σ}

/-! ## Calls that send nothing -/

/-- A call leaves no trace: it gives the transport nothing, leaves the heartbeat as it is and the
world as the reading of the folders leaves it, and attempts no write. The calls that come after it
are the same without it, if the reading of the folders changes nothing; and in any case those that
read what they would have read without it have the same results, send the same messages and leave
the same operations. -/
structure LeavesNoTrace (env : Collaborators σ) (ping : Ping) (x : Exchange) (world : σ) :
    Prop where
  sent_eq : (run env ping x world).sent = none
  ping_eq : (run env ping x world).ping = ping
  world_eq : (run env ping x world).world = (env.registry.folders ping.account world).world
  attempts_eq : attempts env ping x world = []
  runs_eq : (env.registry.folders ping.account world).world = world → ∀ calls : List (Call σ),
    runs (run env ping x world).ping (run env ping x world).world calls = runs ping world calls
  observed_eq : ∀ calls calls' : List (Call σ),
    StoresApart ping world calls (run env ping x world).ping (run env ping x world).world calls' →
    (runs (run env ping x world).ping (run env ping x world).world calls').map Run.observed
      = (runs ping world calls).map Run.observed

/-- A call that sends nothing makes no adjustment. -/
theorem adjustment?_of_unsent (h : (run env ping x world).sent = none) :
    (run env ping x world).adjustment? = none := by
  have hends := ends_run env ping x world
  generalize run env ping x world = r at h hends
  cases hends with
  | unread => rfl
  | idle => rfl
  | unwritten => rfl
  | cancelled => rfl
  | concluded hprep hx =>
      -- the request was ready, so only a caller who has given up keeps it from being sent
      have hsent : x.isSent = false := by
        rw [finish_sent, message?] at h
        cases hs : x.isSent with
        | false => rfl
        | true =>
            rw [hs] at h
            cases h
      rw [Exchange.received?_of_unsent hsent] at hx
      cases hx

/-- **A call that sends nothing leaves no trace.** -/
theorem leavesNoTrace_of_unsent (h : (run env ping x world).sent = none) :
    LeavesNoTrace env ping x world := by
  have hadjustment := adjustment?_of_unsent h
  have hping : (run env ping x world).ping = ping := by
    rw [run_ping_eq, hadjustment]
    rfl
  have hworld : (run env ping x world).world
      = (env.registry.folders ping.account world).world := by
    rw [run_world_eq, hadjustment]
    rfl
  refine ⟨h, hping, hworld, ?_, ?_, ?_⟩
  · rw [attempts_eq, hadjustment]
    rfl
  · intro hread calls
    rw [hping, hworld, hread]
  · intro calls calls' happart
    rw [hping] at happart ⊢
    exact observed_runs happart

/-! ## The order of the preparation -/

/-- **The preparation comes first, and its failures change nothing.** Whatever the operation, its
collaborators and the exchange are, also if the caller has given up at once:

* a call whose reading of the folders fails ends with this failure, for its account;
* otherwise a call without an eligible folder has nothing to watch;
* otherwise its request asks for its heartbeat and the eligible folders, in the order of the list
  and as often as they stand there, and a call that cannot write this request ends with the failure
  of the codec;
* otherwise the call has an outcome, and the transport is given one message, which is this request
  with the deadline of the same heartbeat; but a caller who has given up at once cancels the call,
  and nothing is sent.

In the first three cases the call leaves no trace. -/
theorem preparation_first (env : Collaborators σ) (ping : Ping) (x : Exchange) (world : σ) :
    let read := env.registry.folders ping.account world
    let r := run env ping x world
    let eligible := fun f : Folder => f.hasCompletedInitialSync && f.autoSyncEnabled
    (∀ e, read.result = .error e →
      r.result = .error (.metadataUnavailable ping.account e) ∧ LeavesNoTrace env ping x world) ∧
    ∀ folders, read.result = .ok folders →
      ((∀ f ∈ folders, ¬ eligible f) →
        r.result = .ok .nothingToWatch ∧ LeavesNoTrace env ping x world) ∧
      ((∃ f ∈ folders, eligible f) → ∃ request : Request,
        request.heartbeatSecs = ping.heartbeat.secs ∧
        request.folders = (folders.filter eligible).map (fun f => ⟨f.serverId, f.folderClass⟩) ∧
        (∀ e, env.codec.encode request = .error e →
          r.result = .error (.encode e) ∧ LeavesNoTrace env ping x world) ∧
        ∀ payload, env.codec.encode request = .ok payload →
          (∃ outcome, r.result = .ok outcome ∧ outcome ≠ .nothingToWatch) ∧
          (x.cancelAfter ≠ some .zero → r.sent = some ⟨payload, ping.heartbeat.timeout⟩) ∧
          (x.cancelAfter = some .zero → r.sent = none ∧ r.result = .ok .cancelled)) := by
  intro read r eligible
  constructor
  · intro e hread
    have hrun : r = _ := run_of_unread hread x
    exact ⟨congrArg Run.result hrun, leavesNoTrace_of_unsent (congrArg Run.sent hrun)⟩
  intro folders hread
  constructor
  · intro hnone
    obtain ⟨hresult, hsent, -⟩ := run_of_idle hread (Folder.select_eq_nil_iff.2 hnone) x
    exact ⟨hresult, leavesNoTrace_of_unsent hsent⟩
  · rintro ⟨f, hf, heligible⟩
    have hne : Folder.select folders ≠ [] := fun h =>
      Folder.select_eq_nil_iff.1 h f hf heligible
    have hrequest : ping.request? folders = some ⟨_, _, hne⟩ := dif_neg hne
    refine ⟨⟨_, _, hne⟩, rfl, rfl, ?_, ?_⟩
    · intro e hencode
      have hrun : r = _ := run_of_unwritten hread hrequest hencode x
      exact ⟨congrArg Run.result hrun, leavesNoTrace_of_unsent (congrArg Run.sent hrun)⟩
    · intro payload hencode
      have hprep : Prepared env ping world folders ⟨_, _, hne⟩ payload := ⟨hread, hrequest, hencode⟩
      refine ⟨outcome_of_prepared hprep x, fun hlater => ?_, fun hzero => ?_⟩
      · refine sent_of_prepared hprep ?_
        rw [← Bool.not_eq_false, Exchange.isSent_eq_false_iff]
        exact hlater
      · have hunsent := Exchange.isSent_eq_false_iff.2 hzero
        have hrun : r = _ := run_of_prepared hprep x
        rw [Exchange.received?_of_unsent hunsent] at hrun
        refine ⟨(congrArg Run.sent hrun).trans ?_, congrArg Run.result hrun⟩
        show ping.message? x payload = none
        rw [message?, hunsent]
        rfl

/-- A caller who gives up at once still learns that the folders cannot be read, that there is
nothing to watch, or that the request cannot be written. With none of this in the way the call is
cancelled; and a caller who waits has the folder that stands twice in the list watched twice. -/
theorem preparation_first_given_up :
    let ping : Ping := ⟨⟨7⟩, ⟨.standard, 900⟩⟩
    let gone : Exchange := ⟨.ok [0], some .zero, some .zero⟩
    let waits : Exchange := ⟨.ok [0], some .zero, none⟩
    let counting : Codec :=
      ⟨fun request => .ok [.ofNat request.folders.length], fun _ => .ok (.ofStatus .expired)⟩
    let env := Scripted.collaborators counting
    let mute := Scripted.collaborators (counting.refusing "full")
    let inbox : Folder := ⟨⟨1⟩, "inbox", .email, true, true⟩
    let plans : Folder := ⟨⟨2⟩, "plans", .calendar, true, false⟩
    let down : Scripted := { watching none with registryFault := some "down" }
    let idle := Scripted.ofContents none [plans]
    let twice := Scripted.ofContents none [inbox, plans, inbox]
    ((run env ping gone down).result
        = .error (.metadataUnavailable ⟨7⟩ (Scripted.failure "down")) ∧
      LeavesNoTrace env ping gone down) ∧
    ((run env ping gone idle).result = .ok .nothingToWatch ∧ LeavesNoTrace env ping gone idle) ∧
    ((run mute ping gone twice).result = .error (.encode (.encode "full")) ∧
      LeavesNoTrace mute ping gone twice) ∧
    (run env ping gone twice).result = .ok .cancelled ∧
    (run env ping waits twice).sent = some ⟨[2], ping.heartbeat.timeout⟩ := by
  intro ping gone waits counting env mute inbox plans down idle twice
  have hinbox : ∃ f ∈ [inbox, plans, inbox], f.hasCompletedInitialSync && f.autoSyncEnabled :=
    ⟨inbox, List.mem_cons_self, rfl⟩
  have hplans : ∀ f ∈ [plans], ¬ (f.hasCompletedInitialSync && f.autoSyncEnabled) := by decide
  refine ⟨(preparation_first env ping gone down).1 _ rfl,
    ((preparation_first env ping gone idle).2 _ rfl).1 hplans, ?_, ?_, ?_⟩
  · obtain ⟨request, -, -, hrefused, -⟩ :=
      ((preparation_first mute ping gone twice).2 _ rfl).2 hinbox
    exact hrefused _ rfl
  · obtain ⟨request, -, -, -, hwritten⟩ :=
      ((preparation_first env ping gone twice).2 _ rfl).2 hinbox
    exact ((hwritten _ rfl).2.2 rfl).2
  · obtain ⟨request, -, hfolders, -, hwritten⟩ :=
      ((preparation_first env ping waits twice).2 _ rfl).2 hinbox
    have htwo : request.folders.length = 2 := congrArg List.length hfolders
    rw [(hwritten _ rfl).2.1 nofun, htwo]
    rfl

end Ping

end MailPush
