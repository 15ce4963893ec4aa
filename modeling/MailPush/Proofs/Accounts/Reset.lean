import MailPush.Proofs.Accounts.Independence
import MailPush.Proofs.Store.Watched

set_option autoImplicit false

/-! # Deleting an account

Deleting an account leaves nothing of it in the tables, also none of its rows that cannot be read
(`unused_delete`), and everything of the other accounts (`keeps_next`). What an account is told
depends only on what is there of it, so from then on it is told what it would be told over any
tables that it has never used (`Mirrors.of_unused`), as long as there are numbers for what it saves
and records: those that were taken before are not given out again.

An operation of the account that was started before the deletion finds nothing to watch, until one
of the folders that were saved since is to be watched again (`RowsReflect.run_iff`).
-/

namespace MailPush

open Repository

/-! ## Pings over the rows of an account -/

/-- **A ping finds nothing to watch exactly when nothing is to be watched**, and then it sends
nothing, and leaves the repository and itself as they are. -/
theorem Repository.RowsReflect.run_iff {t : FolderTable} {ping : Ping} {ws : List FolderWrite}
    (h : RowsReflect t ping.account ws) (heartbeats : Rows Int64) (requests : RequestTable)
    (codec : Codec) (x : Exchange) :
    let world := ofTables heartbeats t requests
    let r := Ping.run (collaborators codec) ping x world
    (r.result = .ok .nothingToWatch ↔
        ∀ serverId, FolderWrite.watch? ping.account ws serverId = none) ∧
      (r.result = .ok .nothingToWatch → r.sent = none ∧ r.world = world ∧ r.ping = ping) := by
  intro world r
  obtain ⟨folders, hlist, hselect⟩ := h.select
  have hread : (collaborators codec).registry.folders ping.account world =
      ⟨.ok folders, world, []⟩ := by
    show world.answerRead (t.list ping.account) = _
    rw [hlist]
    rfl
  have hfolders := congrArg Answer.result hread
  rw [← FolderWrite.watched_eq_nil_iff, ← hselect]
  by_cases hnil : Folder.select folders = []
  · obtain ⟨hresult, hsent, hworld, hping⟩ := Ping.run_of_idle hfolders hnil x
    exact ⟨iff_of_true hresult hnil,
      fun _ => ⟨hsent, hworld.trans (congrArg Answer.world hread), hping⟩⟩
  · -- something is to be watched, so the call ends in another way
    have hbusy : r.result ≠ .ok .nothingToWatch := by
      have hends : Ping.Ends (collaborators codec) ping x world r := Ping.ends_run _ _ _ _
      generalize r = r₀ at hends
      cases hends with
      | unread => rintro ⟨⟩
      | idle hf hr =>
          rw [hfolders] at hf
          cases hf
          rw [Ping.request?, Request.build?, dif_neg hnil] at hr
          cases hr
      | unwritten => rintro ⟨⟩
      | cancelled => rintro ⟨⟩
      | concluded =>
          rw [Ping.finish_result]
          intro hresult
          exact (Ping.conclude_outcome_ne _ _ _).2 (Except.ok.inj hresult)
    exact ⟨iff_of_false hbusy hnil, fun hresult => absurd hresult hbusy⟩

namespace Accounts

variable {account : AccountId} {s s' : State}

/-! ## What is written over turns -/

/-- What a turn has written to the folders. -/
def Turn.write? (turn : Turn) (s : Shared) : Option FolderWrite :=
  match turn.move with
  | .call op => Step.write? ⟨op, op.perform s.repository⟩
  | _ => none

/-- What turns have written to the folders, latest first. -/
def folderWrites : List Turn → Shared → List FolderWrite
  | [], _ => []
  | turn :: turns, s => folderWrites turns (turn.next s) ++ (turn.write? s).toList

theorem rowsReflect_next {ws : List FolderWrite} (h : RowsReflect s.folders account ws)
    (turn : Turn) :
    RowsReflect (s.next turn).folders account ((turn.write? s.shared).toList ++ ws) := by
  obtain ⟨actor, move⟩ := turn
  cases move with
  | start config => exact h
  | call op => exact h.step op s.stored s.requests
  | run codec x => exact h
  | apply effects => exact h

/-- The rows of an account reflect what was written over turns, and before. -/
theorem rowsReflect_after {ws : List FolderWrite} (h : RowsReflect s.folders account ws)
    (turns : List Turn) :
    RowsReflect (s.after turns).folders account (folderWrites turns s.shared ++ ws) := by
  induction turns generalizing s ws with
  | nil => exact h
  | cons turn turns ih =>
      rw [folderWrites, List.append_assoc, next_shared]
      exact ih (rowsReflect_next h turn)

/-! ## Accounts that have left nothing -/

/-- Nothing of an account is in the tables, also no row that cannot be read. -/
structure State.Unused (account : AccountId) (s : State) : Prop where
  stored : s.stored.get? account.number = none
  rows : s.folders.rowsOf account = []
  requests : RequestTable.rowsOf s.requests account = []

/-- **Nothing is left of an account that is deleted.** -/
theorem unused_delete (account : AccountId) (s : State) :
    (s.next ⟨account, .call (.deleteAccount account)⟩).Unused account where
  stored := by
    refine (Rows.get?_keep s.stored (· != account.number) account.number).trans (if_neg ?_)
    rw [bne_self_eq_false]
    exact Bool.false_ne_true
  rows := FolderTable.rowsOf_deleteAccount_self s.folders account
  requests := by
    rw [RequestTable.rowsOf, List.filter_eq_nil_iff]
    intro e he
    have hkept : (e.2.account != account) = true := (List.mem_filter.1 he).2
    rw [bne, Bool.not_eq_true'] at hkept
    rw [hkept]
    exact Bool.false_ne_true

/-- The renaming of no folder id. -/
def Renaming.none : Renaming where
  rel _ _ := False
  order := nofun

/-- Two states with nothing of an account in their tables are the same to it. -/
theorem Mirrors.of_unused (h : s.Unused account) (h' : s'.Unused account)
    (hheartbeat : s'.heartbeats account = s.heartbeats account) :
    Mirrors account .none s s' where
  stored := h'.stored.trans h.stored.symm
  rows := by
    rw [h.rows, h'.rows]
    exact .nil
  pending := by
    rw [RequestTable.pending, RequestTable.pending, h.requests, h'.requests]
    exact .nil
  heartbeat := hheartbeat
  given := nofun

/-- An account to which everything of it has been kept gets the same answers. -/
theorem State.Keeps.result_eq (h : State.Keeps account s s') {op : Op}
    (hop : op ∈ [Op.heartbeat account, .listFolders account, .pendingRequests account]) :
    (op.perform s'.repository).result = (op.perform s.repository).result := by
  simp only [List.mem_cons, List.not_mem_nil, or_false] at hop
  rcases hop with rfl | rfl | rfl
  · show Except.ok (Value.heartbeat ((s'.stored.get? _).bind heartbeatOfStored)) = _
    rw [h.stored]
    rfl
  · show ((s'.folders.list account).mapError _).map Value.folders = _
    rw [FolderTable.list, h.rows]
    rfl
  · show Except.ok (Value.requests (RequestTable.pending s'.requests account)) = _
    rw [h.pending]
    rfl

/-! ## The reset -/

/-- **Deleting an account resets it.** Over any three tables, with any rows of the account in
them, where a run of an operation is one step, so that none of the account is in flight when the
account is deleted:

* nothing of the account is left in the tables;
* every other account has its heartbeat, its folders, its pending requests and its operation as
  before;
* over any later turns of all accounts, in which each acts for itself and the deleted one uses the
  folder ids only that it is told of in them, the account is told what it would be told by its own
  turns over any tables that it has never used, up to a renaming of its folder ids that respects
  their order; provided that there are numbers in both for what is saved and recorded;
* after any later turns, a ping of the account with any heartbeat, whatever it is answered, finds
  nothing to watch as long as no folder that was saved since the deletion has a completed sync key
  and its flag set by what was written last, and only so long; it then sends nothing and writes
  nothing. -/
theorem reset_of_deletion (account : AccountId) (s : State) :
    let gone := s.next ⟨account, .call (.deleteAccount account)⟩
    gone.Unused account ∧
    (∀ other, other ≠ account → gone.heartbeats other = s.heartbeats other ∧
      ∀ op ∈ [Op.heartbeat other, .listFolders other, .pendingRequests other],
        (op.perform gone.repository).result = (op.perform s.repository).result) ∧
    (∀ (turns : List Turn) (known : AccountId → List FolderId) (new : State),
      known account = [] → (∀ other, ∀ id ∈ known other, gone.folders.Owns other id) →
      Proper ⟨known, fun _ => []⟩ turns gone.shared →
      new.Unused account → new.heartbeats account = gone.heartbeats account →
      Room turns gone → Room (turns.filter (·.account = account)) new →
      ∃ (R : Renaming) (own : List Turn),
        List.Forall₂ R.SameTurn (turns.filter (·.account = account)) own ∧
        List.Forall₂ R.SameTold (told account turns gone.shared) (told account own new.shared)) ∧
    ∀ (turns : List Turn) (heartbeat : Heartbeat) (codec : Codec) (x : Exchange),
      let later := (gone.after turns).repository
      let ping : Ping := ⟨account, heartbeat⟩
      let r := Ping.run (collaborators codec) ping x later
      (r.result = .ok .nothingToWatch ↔
          ∀ serverId, FolderWrite.watch? account (folderWrites turns gone.shared) serverId = none) ∧
        (r.result = .ok .nothingToWatch → r.sent = none ∧ r.world = later ∧ r.ping = ping) := by
  intro gone
  have hunused : gone.Unused account := unused_delete account s
  refine ⟨hunused, ?_, ?_, ?_⟩
  · intro other hne
    have hkeeps : State.Keeps other s gone := keeps_next (Ne.symm hne) rfl nofun
    exact ⟨hkeeps.heartbeat, fun op hop => hkeeps.result_eq hop⟩
  · intro turns known new hknown howned hproper hnew hheartbeat room room'
    have hmirrors := Mirrors.of_unused hunused hnew hheartbeat
    -- the account knows no folder id yet, so the renaming need not know one
    have hknows : ∀ id, Knowledge.Has ⟨known, fun _ => []⟩ account id → Renaming.none.Knows id := by
      rintro id (hid | hid)
      · change id ∈ known account at hid
        rw [hknown] at hid
        cases hid
      · cases hid
    obtain ⟨R, own, -, hown, htold, -⟩ :=
      told_of_mirrors hmirrors hproper howned hknows room room'
    exact ⟨R, own, hown, htold⟩
  · intro turns heartbeat codec x later ping r
    have hreflects := rowsReflect_after (.of_rowsOf_eq_nil hunused.rows) turns
    rw [List.append_nil] at hreflects
    have hping : RowsReflect _ ping.account _ := hreflects
    exact hping.run_iff _ _ codec x

/-- Tables in which an account has a heartbeat, a folder of an unknown class and a request of an
unknown kind. -/
def State.worn : State where
  stored := Rows.empty.put 1 720
  folders := FolderTable.empty.put 3 ⟨⟨1⟩, "inbox", "Notes", some "5", 1⟩ rfl
  requests := Table.empty.put 9 ⟨⟨1⟩, "telegram", none, .recording⟩
  heartbeats := fun _ => .restore .standard (some 720)

/-- What two accounts do after the first one has been deleted. -/
def resumed : List Turn :=
  [⟨⟨2⟩, .call (.saveFolder ⟨2⟩ ⟨"inbox", .email, some "1", true⟩)⟩,
    ⟨⟨1⟩, .call (.saveFolder ⟨1⟩ ⟨"inbox", .email, none, true⟩)⟩,
    ⟨⟨1⟩, .call (.listFolders ⟨1⟩)⟩,
    ⟨⟨1⟩, .call (.recordRequest ⟨1⟩ .ping)⟩,
    ⟨⟨1⟩, .call (.pendingRequests ⟨1⟩)⟩]

/-- The deleted account can list its folders again, and is told what it would be told over new
tables. The ping that it had started before finds nothing to watch, because the folder that was
saved since has no sync key yet. -/
theorem reset_of_deletion_worn :
    let gone := State.worn.next ⟨⟨1⟩, .call (.deleteAccount ⟨1⟩)⟩
    let new : State := { State.empty with heartbeats := gone.heartbeats }
    (∃ (R : Renaming) (own : List Turn),
      List.Forall₂ R.SameTurn (resumed.filter (·.account = ⟨1⟩)) own ∧
      List.Forall₂ R.SameTold (told ⟨1⟩ resumed gone.shared) (told ⟨1⟩ own new.shared)) ∧
    (Ping.run (collaborators Codec.json) ⟨⟨1⟩, gone.heartbeats ⟨1⟩⟩ ⟨.ok [], some .zero, none⟩
      (gone.after resumed).repository).result = .ok .nothingToWatch := by
  intro gone new
  obtain ⟨-, -, hsame, hping⟩ := reset_of_deletion ⟨1⟩ State.worn
  have proper : Proper ⟨fun _ => [], fun _ => []⟩ resumed gone.shared := by decide
  have room : Room resumed gone := ⟨by decide, by decide⟩
  have room' : Room (resumed.filter (·.account = ⟨1⟩)) new := ⟨by decide, by decide⟩
  refine ⟨hsame resumed (fun _ => []) new rfl nofun proper ⟨rfl, rfl, rfl⟩ rfl room room', ?_⟩
  exact (hping resumed _ Codec.json _).1.2 (FolderWrite.watched_eq_nil_iff.1 (by decide))

/-- Two limits of the reset. The numbers of deleted rows are not given out again: an account whose
request had the last number records none after its deletion, where it would record one in tables
that it has never used. And a folder that is saved without a sync key can get one later: then the
ping that is still there finds something to watch, though no folder was saved with a key. -/
theorem reset_limits :
    let delete : Turn := ⟨⟨1⟩, .call (.deleteAccount ⟨1⟩)⟩
    let record : Op := .recordRequest ⟨1⟩ .ping
    let full : State :=
      { State.empty with requests := Table.empty.put Int64.maxValue (.ofKind ⟨1⟩ .ping) }
    let keyed := (State.empty.next delete).after
      [⟨⟨1⟩, .call (.saveFolder ⟨1⟩ ⟨"inbox", .email, none, true⟩)⟩,
        ⟨⟨1⟩, .call (.setSyncKey ⟨1⟩ (some "5"))⟩]
    ((record.perform (full.next delete).repository).result
        = .error (.storage (.store (.database .full))) ∧
      (record.perform State.empty.repository).result = .ok .done) ∧
    (Ping.run (collaborators ⟨fun _ => .ok [0], fun _ => .ok (.ofStatus .expired)⟩)
      ⟨⟨1⟩, State.empty.heartbeats ⟨1⟩⟩ ⟨.ok [0], some .zero, none⟩ keyed.repository).result
        = .ok (.completed .expired []) :=
  ⟨⟨rfl, rfl⟩, rfl⟩

end Accounts

end MailPush
