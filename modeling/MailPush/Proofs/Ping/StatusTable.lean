import MailPush.Proofs.Ping.HeartbeatMoves

set_option autoImplicit false

/-! # The status table at the level of a call

What a call that decodes a response yields for each status: the outcome with its effects, the
heartbeat afterwards, and whether the store is written (`status_table_of_call`). A status has
one field at most that has a meaning for it; two responses that agree on that field give the
same run, whatever the other fields hold.
-/

namespace MailPush

namespace Ping

variable {σ : Type} {env : Collaborators σ} {ping : Ping} {x : Exchange} {world : σ}
  {folders : List Folder} {response : Response}

/-! ## Outcomes -/

theorem run_result_of_decodes (h : Decodes env ping x world folders response) :
    (run env ping x world).result
      = .ok (.ofClassification (classificationTable response.status.number response)
          (Effect.ofAction folders (actionTable response.status.number response))) := by
  obtain ⟨request, payload, -, hrun⟩ := run_of_decodes h
  rw [hrun, finish_result, conclude_ok_outcome, action_classify, classify_eq_table]

theorem run_world_of_decodes (h : Decodes env ping x world folders response) :
    (run env ping x world).world
      = storedBy env.heartbeats ping (env.registry.folders ping.account world).world
          (adjustmentTable response) := by
  obtain ⟨request, payload, -, hrun⟩ := run_of_decodes h
  rw [hrun, finish_world, conclude_ok_adjustment]

theorem run_fatalAuth (h : Decodes env ping x world folders response)
    (hn : FatalAuthCode response.status.number) :
    (run env ping x world).result = .ok (.fatalAuth response.status) := by
  rw [run_result_of_decodes h, classificationTable_fatalAuth hn]
  rfl

theorem run_fatalProtocol (h : Decodes env ping x world folders response)
    (hn : FatalProtocolCode response.status.number) :
    (run env ping x world).result = .ok (.fatalProtocol response.status) := by
  rw [run_result_of_decodes h, classificationTable_fatalProtocol hn]
  rfl

/-- A status of no row is passed through, with no effects. -/
theorem run_unrecognized (h : Decodes env ping x world folders response)
    (hn : response.status.number = 0 ∨ 8 < response.status.number)
    (h111 : response.status.number ≠ 111) (hauth : ¬ FatalAuthCode response.status.number)
    (hprotocol : ¬ FatalProtocolCode response.status.number) :
    (run env ping x world).result = .ok (.completed (.unrecognized response.status) []) := by
  have haction : actionTable response.status.number response = none := by
    rw [actionTable, if_neg (by omega), if_neg (by omega), if_neg (by omega), if_neg (by omega)]
  rw [run_result_of_decodes h, classificationTable_other hn h111 hauth hprotocol, haction]
  rfl

/-- The rows of the codes that have one number each. -/
theorem run_of_number (h : Decodes env ping x world folders response) {n : Nat}
    (hn : response.status.number = n) :
    (run env ping x world).result
      = .ok (.ofClassification (classificationTable n response)
          (Effect.ofAction folders (actionTable n response))) := by
  rw [run_result_of_decodes h, hn]

/-- A heartbeat out of bounds leaves no effects, whether or not the server names another. -/
theorem run_outOfBounds (h : Decodes env ping x world folders response)
    (hn : response.status.number = 5) :
    (run env ping x world).result
      = .ok (.completed (.heartbeatOutOfBounds response.heartbeatInterval) []) := by
  have hrow : classificationTable 5 response
      = .heartbeatOutOfBounds response.heartbeatInterval := rfl
  rw [run_of_number h hn, hrow, actionTable]
  cases response.heartbeatInterval <;> rfl

/-! ## Writes -/

theorem run_world_expired (h : Decodes env ping x world folders response)
    (hn : response.status.number = 1) :
    (run env ping x world).world
      = (env.heartbeats.store ping.account (run env ping x world).ping.heartbeat.secs
          (env.registry.folders ping.account world).world).world := by
  rw [run_world_of_decodes h, run_ping_expired h hn, adjustmentTable, if_pos hn]
  rfl

theorem run_world_adopted (h : Decodes env ping x world folders response)
    (hn : response.status.number = 5) {secs : UInt64}
    (hsecs : response.heartbeatInterval = some secs) :
    (run env ping x world).world
      = (env.heartbeats.store ping.account (run env ping x world).ping.heartbeat.secs
          (env.registry.folders ping.account world).world).world := by
  rw [run_world_of_decodes h, run_ping_adopted h hn hsecs, adjustmentTable, if_neg (by omega),
    if_pos hn, hsecs]
  rfl

/-! ## Irrelevant fields -/

/-- Two calls in the same state whose responses have the same meaning are the same run. -/
theorem run_eq_of_sameMeaning {x' : Exchange} {folders' : List Folder} {response' : Response}
    (h : Decodes env ping x world folders response)
    (h' : Decodes env ping x' world folders' response')
    (hs : SameMeaning response response') :
    run env ping x' world = run env ping x world := by
  obtain ⟨request, payload, hprep, hrun⟩ := run_of_decodes h
  obtain ⟨request', payload', hprep', hrun'⟩ := run_of_decodes h'
  obtain ⟨body, hbody, -⟩ := h.body
  obtain ⟨body', hbody', -⟩ := h'.body
  -- the two calls prepare the same request
  obtain rfl : folders = folders' :=
    Except.ok.inj (hprep.folders_eq.symm.trans hprep'.folders_eq)
  obtain rfl : request = request' :=
    Option.some.inj (hprep.request_eq.symm.trans hprep'.request_eq)
  obtain rfl : payload = payload' :=
    Except.ok.inj (hprep.payload_eq.symm.trans hprep'.payload_eq)
  have hsent : ping.message? x' payload = ping.message? x payload := by
    rw [message?, message?, Exchange.isSent_of_replied hbody, Exchange.isSent_of_replied hbody']
  rw [hrun, hrun', hsent, conclude_congr ping folders hs.classify_eq]

/-! ## The table -/

/-- **The status table.** A call that decodes a response yields what the row of its status says:
the outcome, the heartbeat with its write, and nothing else. A response with the same meaning
yields the same run. -/
theorem status_table_of_call (h : Decodes env ping x world folders response) :
    let r := run env ping x world
    let n := response.status.number
    let policy := ping.heartbeat.policy
    let read := (env.registry.folders ping.account world).world
    let written := (env.heartbeats.store ping.account r.ping.heartbeat.secs read).world
    (FatalAuthCode n → r.result = .ok (.fatalAuth response.status)) ∧
    (FatalProtocolCode n → r.result = .ok (.fatalProtocol response.status)) ∧
    (n = 111 → r.result = .ok .retryLater) ∧
    (n = 1 → r.result = .ok (.completed .expired [])) ∧
    (n = 2 → r.result = .ok (.completed (.changesFound response.folders)
      (Effect.resolve folders response.folders))) ∧
    (n = 3 ∨ n = 4 → r.result = .ok (.completed (.badRequest response.status) [])) ∧
    (n = 5 → r.result
      = .ok (.completed (.heartbeatOutOfBounds response.heartbeatInterval) [])) ∧
    (n = 6 → r.result = .ok (.completed (.tooManyFolders response.maxFolders) [])) ∧
    (n = 7 → r.result = .ok (.completed .folderListStale [.refreshFolderList])) ∧
    (n = 8 → r.result = .ok (.completed .transientServerError [])) ∧
    (n = 0 ∨ 8 < n → n ≠ 111 → ¬ FatalAuthCode n → ¬ FatalProtocolCode n →
      r.result = .ok (.completed (.unrecognized response.status) [])) ∧
    (n = 1 → r.ping = ⟨ping.account, policy,
        policy.clamp (saturatingAdd ping.heartbeat.secs policy.maxStepSecs)⟩ ∧
      r.world = written) ∧
    (∀ secs, n = 5 → response.heartbeatInterval = some secs →
      r.ping = ⟨ping.account, policy, policy.clamp secs⟩ ∧ r.world = written) ∧
    (n ≠ 1 → ¬ (n = 5 ∧ response.heartbeatInterval.isSome) →
      r.ping = ping ∧ r.world = read) ∧
    ∀ x' folders' response', Decodes env ping x' world folders' response' →
      SameMeaning response response' → run env ping x' world = r := by
  intro r n policy read written
  refine ⟨run_fatalAuth h, run_fatalProtocol h, run_of_number h, run_of_number h,
    run_of_number h, ?_, run_outOfBounds h, run_of_number h, run_of_number h, run_of_number h,
    run_unrecognized h, ?_, ?_, ?_, ?_⟩
  · rintro (hn | hn)
    · exact run_of_number h hn
    · exact run_of_number h hn
  · intro hn
    exact ⟨run_ping_expired h hn, run_world_expired h hn⟩
  · intro secs hn hsecs
    exact ⟨run_ping_adopted h hn hsecs, run_world_adopted h hn hsecs⟩
  · intro h1 h5
    have ht : ¬ Tuning response := fun ht => ht.elim h1 h5
    refine ⟨run_ping_kept h ht, ?_⟩
    show (run env ping x world).world = read
    rw [run_world_of_decodes h, adjustmentTable_eq_none ht]
    rfl
  · intro x' folders' response' h' hs
    exact run_eq_of_sameMeaning h h' hs

/-- The server of a call reports a changed folder, and beside it a heartbeat and a limit that
have no meaning for this status: the folder is to be synchronised, the heartbeat stays, and the
run is that of a response without these fields. When the ping expires instead, 600 seconds become
900, which is what is written. -/
theorem status_table_of_call_changes :
    let response : Response := ⟨.changesFound, ["inbox"], some 900, some 3⟩
    let plain : Response := ⟨.changesFound, ["inbox"], none, none⟩
    let ping : Ping := ⟨⟨7⟩, .standard, 600⟩
    let env : Collaborators Scripted := Scripted.collaborators
      ⟨fun _ => .ok [0], fun body => .ok (if body = [1] then plain else response)⟩
    let x : Exchange := ⟨.ok [0], some .zero, none⟩
    let x' : Exchange := ⟨.ok [1], some .zero, none⟩
    let world := watching (some 600)
    let expired := (Call.answered (.ofStatus .expired)).run ping world
    Decodes env ping x world world.folders response ∧
      (run env ping x world).result
        = .ok (.completed (.changesFound ["inbox"]) [.syncFolder ⟨1⟩ "inbox" .email]) ∧
      ((run env ping x world).ping = ping ∧ (run env ping x world).world = world) ∧
      run env ping x' world = run env ping x world ∧
      (expired.result = .ok (.completed .expired []) ∧ expired.ping = ⟨⟨7⟩, .standard, 900⟩ ∧
        expired.world = { world with stored := some 900, writes := [(⟨7⟩, 900)] }) := by
  intro response plain ping env x x' world expired
  have h : Decodes env ping x world world.folders response :=
    ⟨⟨_, _, rfl, rfl, rfl⟩, [0], ending_at_once _ _, by decide, rfl⟩
  have h' : Decodes env ping x' world world.folders plain :=
    ⟨⟨_, _, rfl, rfl, rfl⟩, [1], ending_at_once _ _, by decide, rfl⟩
  have hexpired : Decodes (Call.answered (.ofStatus .expired)).env ping x world world.folders
      (.ofStatus .expired) := ⟨⟨_, _, rfl, rfl, rfl⟩, [0], ending_at_once _ _, by decide, rfl⟩
  obtain ⟨-, -, -, -, hchanges, -, -, -, -, -, -, -, -, hkept, hsame⟩ := status_table_of_call h
  obtain ⟨-, -, -, hresult, -, -, -, -, -, -, -, hgrown, -⟩ := status_table_of_call hexpired
  have hn : response.status.number = 2 := rfl
  have hone : (Response.ofStatus .expired).status.number = 1 := rfl
  obtain ⟨hping, hworld⟩ := hgrown hone
  have hsecs : Policy.clamp .standard (saturatingAdd 600 300) = 900 := by decide
  change expired.ping = ⟨⟨7⟩, .standard, Policy.clamp .standard (saturatingAdd 600 300)⟩ at hping
  change expired.world
    = (Scripted.heartbeatStore.store ⟨7⟩ expired.ping.heartbeat.secs world).world at hworld
  rw [hsecs] at hping
  refine ⟨h, hchanges hn, hkept (by omega) (by omega), ?_, hresult hone, hping, ?_⟩
  · exact hsame x' _ plain h' ⟨rfl, fun _ => rfl, fun h5 => by omega, fun h6 => by omega⟩
  · rw [hping] at hworld
    exact hworld

end Ping

end MailPush
