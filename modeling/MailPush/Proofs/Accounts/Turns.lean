import MailPush.Proofs.Store.Owners
import MailPush.Proofs.Store.Work

set_option autoImplicit false

/-! # Accounts that take turns

Several accounts share one repository, and each has its own ping operation beside it (`Shared`).
They take turns (`Turn`): an account starts its operation over the repository, calls an operation
of the repository, runs its ping, or carries out effects. Each turn tells its account something
(`Told`), and what an account has been told over a list of turns is all that it observes (`told`).

Over a repository with its three tables a turn works on the tables (`State`, `next_shared`). It
leaves everything that belongs to the other accounts (`State.Keeps`), provided that it is
addressed to its own account and sets the sync keys of its own folders only.
-/

namespace MailPush.Accounts

open Repository

/-! ## Turns -/

/-- A repository, and beside it the heartbeat of the operation of every account. -/
structure Shared where
  repository : Repository
  heartbeats : AccountId → Heartbeat

/-- The ping operation of an account. -/
def Shared.ping (s : Shared) (account : AccountId) : Ping := ⟨account, s.heartbeats account⟩

/-- What an account can do in a turn. -/
inductive Move where
  /-- Start the ping operation, with this configuration. -/
  | start (config : PushConfig)
  /-- Call an operation of the repository. -/
  | call (op : Op)
  /-- Run the ping, with this codec and this course of the exchange. -/
  | run (codec : Codec) (exchange : Exchange)
  /-- Carry out effects. -/
  | apply (effects : List Effect)

/-- An account that makes a move. -/
structure Turn where
  account : AccountId
  move : Move

/-- What an account is told in a turn. -/
inductive Told where
  /-- The heartbeat with which the operation has started. -/
  | started (result : Except Error Heartbeat)
  | answered (result : Except Error Value)
  /-- The result of a run, the message that was sent, and the heartbeat afterwards. -/
  | ran (result : Except Error Outcome) (sent : Option Ping.Message) (secs : UInt64)
  | applied (result : Except Error Unit)

/-- The heartbeats after an account has tried to start its operation. One that is refused leaves
the operation that was there. -/
def startedWith (heartbeats : AccountId → Heartbeat) (account : AccountId) :
    Except Error Ping → AccountId → Heartbeat
  | .ok ping => Function.update heartbeats account ping.heartbeat
  | .error _ => heartbeats

/-- The folder of an effect. -/
def effectFolder? : Effect → Option FolderId
  | .syncFolder folder _ _ => some folder
  | .refreshFolderList => none

namespace Turn

/-- The operation that a turn starts. -/
def startOver (turn : Turn) (config : PushConfig) (s : Shared) : Answer Repository Ping :=
  Ping.start heartbeatStore turn.account config s.repository

/-- The run of a turn that runs the ping. -/
def ranOver (turn : Turn) (codec : Codec) (x : Exchange) (s : Shared) : Ping.Run Repository :=
  Ping.run (collaborators codec) (s.ping turn.account) x s.repository

/-- What a turn tells its account. -/
def tells (turn : Turn) (s : Shared) : Told :=
  match turn.move with
  | .start config => .started ((turn.startOver config s).result.map (·.heartbeat))
  | .call op => .answered (op.perform s.repository).result
  | .run codec x =>
      let r := turn.ranOver codec x s
      .ran r.result r.sent r.ping.heartbeat.secs
  | .apply effects =>
      .applied (applyEffects folderRegistry turn.account effects s.repository).result

/-- What a turn leaves. -/
def next (turn : Turn) (s : Shared) : Shared :=
  match turn.move with
  | .start config =>
      let started := turn.startOver config s
      ⟨started.world, startedWith s.heartbeats turn.account started.result⟩
  | .call op => { s with repository := (op.perform s.repository).world }
  | .run codec x =>
      let r := turn.ranOver codec x s
      ⟨r.world, Function.update s.heartbeats turn.account r.ping.heartbeat⟩
  | .apply effects =>
      { s with
        repository := (applyEffects folderRegistry turn.account effects s.repository).world }

/-- A turn is addressed to its account: a call is, or it is addressed to a folder alone. -/
def Addressed (turn : Turn) : Prop :=
  match turn.move with
  | .call op => op.account?.getD turn.account = turn.account
  | _ => True

/-- The folder to which a turn is addressed. -/
def target? (turn : Turn) : Option FolderId :=
  match turn.move with
  | .call op => op.target?
  | _ => none

/-- The folders that a turn names. -/
def named (turn : Turn) : List FolderId :=
  match turn.move with
  | .call (.setSyncKey id _) => [id]
  | .call (.recordRequest _ kind) | .call (.request _ kind) => kind.folderId?.toList
  | .apply effects => effects.filterMap effectFolder?
  | _ => []

/-- How many numbers a turn takes for folders. -/
def saves (turn : Turn) : Nat :=
  match turn.move with
  | .call op => if op.Saves then 1 else 0
  | _ => 0

/-- How many numbers a turn takes for requests. -/
def records (turn : Turn) : Nat :=
  match turn.move with
  | .call op => if op.Records then 1 else 0
  | .apply effects => effects.length
  | _ => 0

end Turn

theorem account_eq_of_addressed {actor owner : AccountId} {op : Op}
    (h : Turn.Addressed ⟨actor, .call op⟩) (hop : op.account? = some owner) : owner = actor := by
  change op.account?.getD actor = actor at h
  rw [hop] at h
  exact h

/-- What is left after turns, one after the other. -/
def after (turns : List Turn) (s : Shared) : Shared := turns.foldl (fun s turn => turn.next s) s

/-- What an account is told over turns, in order. -/
def told (account : AccountId) : List Turn → Shared → List Told
  | [], _ => []
  | turn :: turns, s =>
      (if turn.account = account then [turn.tells s] else []) ++ told account turns (turn.next s)

/-! ## Turns over three tables -/

/-- The three tables, and the heartbeats of the operations. -/
structure State where
  stored : Rows Int64
  folders : FolderTable
  requests : RequestTable
  heartbeats : AccountId → Heartbeat

namespace State

/-- The repository of the tables. -/
def repository (s : State) : Repository := ofTables s.stored s.folders s.requests

/-- What the accounts share in a state. -/
def shared (s : State) : Shared := ⟨s.repository, s.heartbeats⟩

/-- What a turn does to each of the tables, and to the heartbeats. -/
def next (turn : Turn) (s : State) : State :=
  match turn.move with
  | .start config =>
      { s with
        heartbeats :=
          startedWith s.heartbeats turn.account (turn.startOver config s.shared).result }
  | .call op =>
      { s with
        stored := op.onHeartbeats s.stored
        folders := op.onFolders s.folders
        requests := op.onRequests s.requests }
  | .run codec x =>
      let r := turn.ranOver codec x s.shared
      { s with
        stored := writeHeartbeat s.stored turn.account r.adjusted?
        heartbeats := Function.update s.heartbeats turn.account r.ping.heartbeat }
  | .apply effects =>
      { s with requests := afterEffects turn.account effects s.requests }

/-- The state after turns, one after the other. -/
def after (turns : List Turn) (s : State) : State := turns.foldl (fun s turn => s.next turn) s

end State

/-- **A turn over three tables leaves three tables.** -/
theorem next_shared (turn : Turn) (s : State) : turn.next s.shared = (s.next turn).shared := by
  obtain ⟨account, move⟩ := turn
  cases move with
  | start config =>
      have hworld : (Ping.start heartbeatStore account config s.repository).world = s.repository :=
        start_world account config s.repository
      exact congrArg (Shared.mk · _) hworld
  | call op =>
      have hworld : (op.perform s.repository).world = _ := perform_ofTables op
      exact congrArg (Shared.mk · s.heartbeats) hworld
  | run codec x =>
      have hworld : (Ping.run (collaborators codec) (s.shared.ping account) x s.repository).world =
        _ := run_ofTables codec (s.shared.ping account) x
      exact congrArg (Shared.mk · _) hworld
  | apply effects =>
      have hworld := (applyEffects_ofTables account effects s.stored s.folders s.requests).1
      exact congrArg (Shared.mk · s.heartbeats) hworld

theorem after_shared (turns : List Turn) (s : State) :
    after turns s.shared = (s.after turns).shared := by
  induction turns generalizing s with
  | nil => rfl
  | cons turn turns ih =>
      show after turns (turn.next s.shared) = _
      rw [next_shared, ih]
      rfl

/-! ## What a turn leaves alone -/

variable {account : AccountId} {turn : Turn} {s : State}

/-- Everything that belongs to an account is the same in two states. -/
structure State.Keeps (account : AccountId) (s s' : State) : Prop where
  stored : s'.stored.get? account.number = s.stored.get? account.number
  rows : s'.folders.rowsOf account = s.folders.rowsOf account
  pending : RequestTable.pending s'.requests account = RequestTable.pending s.requests account
  heartbeat : s'.heartbeats account = s.heartbeats account

theorem startedWith_self {heartbeats heartbeats' : AccountId → Heartbeat}
    (h : heartbeats' account = heartbeats account) (result : Except Error Ping) :
    startedWith heartbeats' account result account =
      startedWith heartbeats account result account := by
  cases result with
  | ok ping =>
      rw [startedWith, startedWith, Function.update_self, Function.update_self]
  | error e => exact h

theorem startedWith_of_ne {other : AccountId} (h : other ≠ account)
    (heartbeats : AccountId → Heartbeat) (result : Except Error Ping) :
    startedWith heartbeats other result account = heartbeats account := by
  cases result with
  | ok ping => exact Function.update_of_ne (Ne.symm h) _ _
  | error e => rfl

/-- The heartbeat that a run writes is that of its own account. -/
theorem get?_writeHeartbeat_of_ne {other : AccountId} (rows : Rows Int64) (h : other ≠ account)
    (secs : Option UInt64) :
    (writeHeartbeat rows other secs).get? account.number = rows.get? account.number := by
  cases secs with
  | none => rfl
  | some secs =>
      have hop : (Op.setHeartbeat other secs).account? ≠ some account :=
        fun heq => h (Option.some.inj heq)
      exact Op.get?_onHeartbeats_of_ne hop rows

theorem get?_writeHeartbeat_congr {rows rows' : Rows Int64}
    (h : rows'.get? account.number = rows.get? account.number) (secs : Option UInt64) :
    (writeHeartbeat rows' account secs).get? account.number =
      (writeHeartbeat rows account secs).get? account.number := by
  cases secs with
  | none => exact h
  | some secs => exact Op.get?_onHeartbeats_congr (.setHeartbeat account secs) h

/-- Effects are recorded for their own account. -/
theorem pending_afterEffects_of_ne {other : AccountId} (h : other ≠ account)
    (effects : List Effect) (t : RequestTable) :
    RequestTable.pending (afterEffects other effects t) account =
      RequestTable.pending t account := by
  obtain ⟨-, -, hpending, -⟩ := applyEffects_ofTables other effects .empty .empty t
  rw [hpending, if_neg h, List.append_nil]

/-- **A turn keeps everything of the other accounts**, if it is addressed to its own account and,
when it sets a sync key, to a folder of its own. -/
theorem keeps_next (hne : turn.account ≠ account) (haddressed : turn.Addressed)
    (htarget : ∀ id ∈ turn.target?, s.folders.Owns turn.account id) :
    State.Keeps account s (s.next turn) := by
  obtain ⟨actor, move⟩ := turn
  cases move with
  | start config => exact ⟨rfl, rfl, rfl, startedWith_of_ne hne s.heartbeats _⟩
  | call op =>
      have hop : op.account? ≠ some account := fun heq =>
        hne (account_eq_of_addressed haddressed heq).symm
      refine ⟨Op.get?_onHeartbeats_of_ne hop s.stored, ?_, Op.pending_onRequests_of_ne hop, rfl⟩
      exact Op.rowsOf_onFolders_of_ne hop fun id hid => (htarget id hid).ne_of_mem_rowsOf hne
  | run codec x =>
      exact ⟨get?_writeHeartbeat_of_ne s.stored hne _, rfl, rfl,
        Function.update_of_ne (Ne.symm hne) _ _⟩
  | apply effects => exact ⟨rfl, rfl, pending_afterEffects_of_ne hne effects s.requests, rfl⟩

/-- A turn takes its numbers from those that are left. -/
theorem left_next (turn : Turn) (s : State) :
    (s.next turn).folders.table.left = s.folders.table.left - turn.saves ∧
      (s.next turn).requests.left = s.requests.left - turn.records := by
  obtain ⟨actor, move⟩ := turn
  cases move with
  | start config => exact ⟨rfl, rfl⟩
  | call op => exact ⟨Op.left_onFolders op s.folders, Op.left_onRequests op s.requests⟩
  | run codec x => exact ⟨rfl, rfl⟩
  | apply effects =>
      exact ⟨rfl, (applyEffects_ofTables actor effects s.stored s.folders s.requests).2.2.2⟩

/-! ## Folders that are known -/

/-- The folders in what an operation yields. -/
def valueFolders : Value → List FolderId
  | .saved id => [id]
  | .folders list => list.map (·.id)
  | _ => []

/-- The folders of the requests that an operation yields. -/
def valueRequested : Value → List FolderId
  | .requests list => list.filterMap (·.kind.folderId?)
  | _ => []

/-- The folders in the outcome of a run. -/
def outcomeFolders : Outcome → List FolderId
  | .completed _ effects => effects.filterMap effectFolder?
  | _ => []

/-- The folders of an account that it is told of. -/
def Told.folders : Told → List FolderId
  | answered (.ok value) => valueFolders value
  | ran (.ok outcome) _ _ => outcomeFolders outcome
  | _ => []

/-- The folders that are named in the requests which an account is told of. -/
def Told.requested : Told → List FolderId
  | answered (.ok value) => valueRequested value
  | _ => []

theorem inherits_next (turn : Turn) (s : State) : s.folders.Inherits (s.next turn).folders := by
  obtain ⟨actor, move⟩ := turn
  cases move with
  | start config => exact .refl _
  | call op => exact FolderTable.inherits_onFolders op s.folders
  | run codec x => exact .refl _
  | apply effects => exact .refl _

/-- The folders of effects are folders of the list over which they were resolved. -/
theorem exists_of_mem_ofAction {folders : List Folder} {action : Option Action} {effect : Effect}
    (h : effect ∈ Effect.ofAction folders action) {id : FolderId}
    (hid : effectFolder? effect = some id) : ∃ folder ∈ folders, folder.id = id := by
  cases effect with
  | syncFolder folder serverId folderClass =>
      cases hid
      obtain ⟨f, hf, hid, -⟩ := exists_of_syncFolder_mem h
      exact ⟨f, hf, hid⟩
  | refreshFolderList => cases hid

theorem owns_of_mem_list {t : FolderTable} {list : List Folder}
    (h : t.list account = .ok list) {folder : Folder} (hmem : folder ∈ list) :
    t.Owns account folder.id := by
  obtain ⟨e, he, hrow⟩ := FolderTable.exists_of_mem_list h hmem
  obtain ⟨-, hfolder⟩ := FolderRow.folder_eq_ok_iff.1 hrow
  rw [hfolder]
  exact FolderTable.owns_of_mem_rowsOf he

/-- A saved folder belongs to the account that has saved it. -/
theorem owns_of_save? {t t' : FolderTable} {folder : NewFolder} {id : FolderId}
    (h : t.save? account folder = some (id, t')) : t'.Owns account id := by
  obtain ⟨n, -, -, ⟨-, rfl, hentries⟩ | ⟨known, hknown, rfl, -⟩⟩ := FolderTable.of_save? h
  · have hmem : (n, FolderRow.ofNew account folder) ∈ t'.rowsOf account := by
      rw [FolderTable.mem_rowsOf, hentries]
      exact ⟨List.mem_append_right _ (List.mem_singleton.2 rfl), rfl⟩
    exact FolderTable.owns_of_mem_rowsOf (e := (n, _)) hmem
  · obtain ⟨row, hrow, hkey⟩ := FolderTable.find?_eq_some_iff.1 hknown
    have hmem : (known, row) ∈ t.rowsOf account :=
      FolderTable.mem_rowsOf.2 ⟨hrow, (Prod.mk.inj hkey).1⟩
    exact (FolderTable.inherits_save? h).owns
      (FolderTable.owns_of_mem_rowsOf (e := (known, row)) hmem)

theorem of_map_eq_ok {σ α β : Type} {f : α → β} {a : Answer σ α} {b : β}
    (h : (a.map f).result = .ok b) : ∃ x, a.result = .ok x ∧ f x = b := by
  change a.result.map f = .ok b at h
  cases hresult : a.result with
  | error e =>
      rw [hresult] at h
      cases h
  | ok x =>
      rw [hresult] at h
      exact ⟨x, rfl, Except.ok.inj h⟩

/-- Only saving a folder yields the id of one. -/
theorem of_perform_saved {op : Op} {id : FolderId}
    (h : (op.perform s.repository).result = .ok (.saved id)) :
    ∃ owner folder t', op = .saveFolder owner folder ∧
      s.folders.save? owner folder = some (id, t') := by
  cases op with
  | saveFolder owner folder =>
      rw [Op.perform, State.repository, saveFolder_ofTables] at h
      cases hsave : s.folders.save? owner folder with
      | none =>
          rw [hsave] at h
          cases h
      | some new =>
          rw [hsave] at h
          obtain ⟨x, hx, hid⟩ := of_map_eq_ok h
          cases hx
          cases hid
          exact ⟨owner, folder, new.2, rfl, hsave⟩
  | heartbeat | setHeartbeat | setSyncKey | setAutoSync | listFolders | recordRequest | request
  | pendingRequests | takePendingRequests | deleteAccount =>
      obtain ⟨x, -, hid⟩ := of_map_eq_ok h
      cases hid

/-- Only listing folders yields folders. -/
theorem of_perform_folders {op : Op} {list : List Folder}
    (h : (op.perform s.repository).result = .ok (.folders list)) :
    ∃ owner, op = .listFolders owner ∧ s.folders.list owner = .ok list := by
  cases op with
  | listFolders owner =>
      obtain ⟨x, hx, hlist⟩ := of_map_eq_ok h
      cases hlist
      exact ⟨owner, rfl, list_of_folders hx⟩
  | heartbeat | setHeartbeat | saveFolder | setSyncKey | setAutoSync | recordRequest | request
  | pendingRequests | takePendingRequests | deleteAccount =>
      obtain ⟨x, -, hlist⟩ := of_map_eq_ok h
      cases hlist

/-- **The folders that an account is told of are its own.** -/
theorem owns_of_told (haddressed : turn.Addressed) {id : FolderId}
    (h : id ∈ (turn.tells s.shared).folders) :
    (s.next turn).folders.Owns turn.account id := by
  obtain ⟨actor, move⟩ := turn
  cases move with
  | start config => cases h
  | call op =>
      have htells : Turn.tells ⟨actor, .call op⟩ s.shared =
          .answered (op.perform s.repository).result := rfl
      rw [htells] at h
      cases hresult : (op.perform s.repository).result with
      | error e =>
          rw [hresult] at h
          cases h
      | ok value =>
          rw [hresult] at h
          -- folder ids are told by the two operations that save a folder or list folders
          cases value with
          | saved saved =>
              obtain ⟨owner, folder, t', rfl, hsave⟩ := of_perform_saved hresult
              obtain rfl : owner = actor := account_eq_of_addressed haddressed rfl
              obtain rfl : id = saved := List.mem_singleton.1 h
              show ((Op.saveFolder owner folder).onFolders s.folders).Owns owner id
              rw [Op.onFolders, hsave]
              exact owns_of_save? hsave
          | folders list =>
              obtain ⟨owner, rfl, hlist⟩ := of_perform_folders hresult
              obtain rfl : owner = actor := account_eq_of_addressed haddressed rfl
              obtain ⟨folder, hfolder, rfl⟩ := List.mem_map.1 h
              exact owns_of_mem_list hlist hfolder
          | done | heartbeat | requests => cases h
  | run codec x =>
      have htells : Turn.tells ⟨actor, .run codec x⟩ s.shared = .ran
          (Turn.ranOver ⟨actor, .run codec x⟩ codec x s.shared).result _ _ := rfl
      rw [htells] at h
      cases hresult : (Turn.ranOver ⟨actor, .run codec x⟩ codec x s.shared).result with
      | error e =>
          rw [hresult] at h
          cases h
      | ok outcome =>
          rw [hresult] at h
          cases outcome with
          | completed classification effects =>
              obtain ⟨effect, heffect, hid⟩ := List.mem_filterMap.1 h
              obtain ⟨list, response, hdecodes, -, rfl⟩ := Ping.decodes_of_completed hresult
              obtain ⟨_, _, hprep⟩ := hdecodes.prepared
              obtain ⟨folder, hfolder, rfl⟩ := exists_of_mem_ofAction heffect hid
              exact owns_of_mem_list (list_of_folders hprep.folders_eq) hfolder
          | nothingToWatch | fatalAuth | fatalProtocol | retryLater | operationFailure
          | cancelled => cases h
  | apply effects => cases h

end MailPush.Accounts
