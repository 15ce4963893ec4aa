import MailPush.Proofs.Ping.Adjustments
import MailPush.Proofs.Store.FolderRows
import MailPush.Proofs.Store.Queue

set_option autoImplicit false

/-! # Pings over a repository

What a ping does to the tables of a repository that is its store and its registry. Starting reads
the stored heartbeat of the account and changes nothing (`start_ofTables`); a run writes
the adjusted heartbeat of its account, if it made an adjustment, and touches nothing else
(`run_ofTables`); carrying out effects adds one row to the queue for each of them, up to the
first for which there is no number (`applyEffects_ofTables`).
-/

namespace MailPush

/-- The heartbeat to which a run has adjusted its operation, if it made an adjustment. -/
def Ping.Run.adjusted? {σ : Type} (r : Ping.Run σ) : Option UInt64 :=
  r.adjustment?.map fun _ => r.ping.heartbeat.secs

namespace Repository

variable {heartbeats : Rows Int64} {folders : FolderTable} {requests : RequestTable}

/-! ## Starting -/

theorem start_world (account : AccountId) (config : PushConfig) (r : Repository) :
    (Ping.start heartbeatStore account config r).world = r := by
  rw [Ping.start]
  cases config.check <;> rfl

/-- **An operation starts with the stored heartbeat of its account**, if its policy is
consistent. -/
theorem start_ofTables (account : AccountId) (config : PushConfig) :
    (Ping.start heartbeatStore account config (ofTables heartbeats folders requests)).result =
      config.check.map fun _ => ⟨account, .restore config.heartbeat
        ((heartbeats.get? account.number).bind heartbeatOfStored)⟩ := by
  rw [Ping.start]
  cases config.check <;> rfl

/-! ## Runs -/

/-- The heartbeats after one has been written for an account, if there is one. -/
def writeHeartbeat (rows : Rows Int64) (account : AccountId) : Option UInt64 → Rows Int64
  | none => rows
  | some secs => (Op.setHeartbeat account secs).onHeartbeats rows

theorem store_ofTables (account : AccountId) (secs : UInt64) :
    (heartbeatStore.store account secs (ofTables heartbeats folders requests)).world =
      ofTables (writeHeartbeat heartbeats account (some secs)) folders requests :=
  perform_ofTables (.setHeartbeat account secs)

/-- **A run writes the heartbeat that it has adjusted**, and leaves the folders and requests. -/
theorem run_ofTables (codec : Codec) (ping : Ping) (x : Exchange) :
    let r := Ping.run (collaborators codec) ping x (ofTables heartbeats folders requests)
    r.world = ofTables (writeHeartbeat heartbeats ping.account r.adjusted?) folders requests := by
  intro r
  have hworld := Ping.run_world_eq (collaborators codec) ping x
    (ofTables heartbeats folders requests)
  have hping := Ping.run_ping_eq (collaborators codec) ping x
    (ofTables heartbeats folders requests)
  show r.world = _
  rw [Ping.Run.adjusted?]
  change r.world = Ping.storedBy _ ping (ofTables heartbeats folders requests) r.adjustment?
    at hworld
  change r.ping = _ at hping
  rw [hworld, hping]
  cases r.adjustment? with
  | none => rfl
  | some a => exact store_ofTables ping.account (ping.adjust a).heartbeat.secs

/-- The folders that a run reads are those of the table. -/
theorem list_of_folders {account : AccountId} {list : List Folder}
    (h : (folderRegistry.folders account (ofTables heartbeats folders requests)).result =
      .ok list) : folders.list account = .ok list := by
  change (folders.list account).mapError _ = _ at h
  cases hlist : folders.list account with
  | error e =>
      rw [hlist] at h
      cases h
  | ok list' =>
      rw [hlist] at h
      exact congrArg Except.ok (Except.ok.inj h)

/-! ## Effects -/

/-- An effect to synchronise a folder is that of a folder over which it was resolved. -/
theorem exists_of_syncFolder_mem {folders : List Folder} {action : Option Action} {id : FolderId}
    {serverId : String} {folderClass : FolderClass}
    (h : .syncFolder id serverId folderClass ∈ Effect.ofAction folders action) :
    ∃ folder ∈ folders, folder.id = id ∧ folder.serverId = serverId := by
  unfold Effect.ofAction at h
  split at h
  · obtain ⟨name, -, h⟩ := List.mem_filterMap.1 h
    obtain ⟨folder, hfolder, heffect⟩ := Option.map_eq_some_iff.1 h
    cases heffect
    exact ⟨folder, List.mem_of_find?_eq_some hfolder, rfl, rfl⟩
  · cases List.mem_singleton.1 h
  · cases h

/-- The operation by which an effect is carried out. -/
def effectOp (account : AccountId) (effect : Effect) : Op := .request account effect.requestKind

/-- The request that an effect leaves in the queue of an account. -/
def queued (account : AccountId) (effect : Effect) : SyncRequest :=
  ⟨account, effect.requestKind, .recording⟩

/-- The table of requests after effects have been carried out for an account. -/
def afterEffects (account : AccountId) (effects : List Effect) (t : RequestTable) : RequestTable :=
  requestsAfter (effects.map (effectOp account)) t

/-- A table without numbers stays as it is. -/
theorem afterEffects_of_left_eq_zero (account : AccountId) (effects : List Effect)
    (h : requests.left = 0) : afterEffects account effects requests = requests := by
  induction effects with
  | nil => rfl
  | cons effect effects ih =>
      show afterEffects account effects ((effectOp account effect).onRequests requests) = requests
      rw [effectOp, Op.onRequests, Table.insert?_of_left_eq_zero _ h]
      exact ih

/-- **Effects are carried out in order, as long as there are numbers.** The queue of the account
gets one request for each of them, up to the first for which no number is left, and no other
queue changes. -/
theorem applyEffects_ofTables (account : AccountId) (effects : List Effect)
    (heartbeats : Rows Int64) (folders : FolderTable) (requests : RequestTable) :
    let done := applyEffects folderRegistry account effects (ofTables heartbeats folders requests)
    done.world = ofTables heartbeats folders (afterEffects account effects requests) ∧
    done.result = (if effects.length ≤ requests.left then .ok ()
      else .error (.storage (.store (.database .full)))) ∧
    (∀ other, RequestTable.pending (afterEffects account effects requests) other =
      RequestTable.pending requests other ++
        if account = other then (effects.take requests.left).map (queued account) else []) ∧
    (afterEffects account effects requests).left = requests.left - effects.length := by
  induction effects generalizing requests with
  | nil =>
      refine ⟨rfl, rfl, fun other => ?_, rfl⟩
      rw [List.take_nil, List.map_nil, ite_self, List.append_nil]
      rfl
  | cons effect effects ih =>
      have hrequest : folderRegistry.request account effect.requestKind
          (ofTables heartbeats folders requests) = _ :=
        congrArg (answer (ofTables heartbeats folders requests))
          (recordRequest_ofTables account effect.requestKind)
      cases hleft : requests.left with
      | zero =>
          -- the first effect is refused, and the others are not tried
          rw [Table.insert?_of_left_eq_zero _ hleft] at hrequest
          rw [applyEffects, hrequest, afterEffects_of_left_eq_zero account _ hleft]
          refine ⟨rfl, rfl, fun other => ?_, ?_⟩
          · rw [List.take_zero, List.map_nil, ite_self, List.append_nil]
          · rw [hleft, Nat.zero_sub]
      | succ n =>
          -- the first effect takes a number, and the others are carried out with those left
          obtain ⟨id, requests₁, hinsert, hleft₁⟩ := Table.insert?_of_left
            (RequestRow.ofKind account effect.requestKind) hleft
          have hpending : ∀ other, RequestTable.pending requests₁ other = _ := fun other =>
            RequestTable.pending_insert? hinsert (RequestRow.stands_ofKind account _)
          have hafter : afterEffects account (effect :: effects) requests =
              afterEffects account effects requests₁ := by
            show afterEffects account effects ((effectOp account effect).onRequests requests) = _
            rw [effectOp, Op.onRequests, hinsert]
          rw [hinsert] at hrequest
          obtain ⟨hworld, hresult, hqueue, hrest⟩ := ih requests₁
          rw [applyEffects, hrequest, hafter]
          refine ⟨hworld, hresult.trans ?_, fun other => ?_, ?_⟩
          · rw [hleft₁, List.length_cons]
            simp only [Nat.add_le_add_iff_right]
          · rw [hqueue, hpending, hleft₁, List.take_succ_cons, List.map_cons]
            by_cases haccount : account = other
            · rw [if_pos haccount, if_pos haccount, if_pos haccount, List.append_assoc]
              rfl
            · rw [if_neg haccount, if_neg haccount, if_neg haccount, List.append_nil]
          · rw [hrest, hleft₁, List.length_cons]
            omega

end Repository

end MailPush
