import MailPush.Proofs.Accounts.Reset
import MailPush.Proofs.Store.CorruptRows

set_option autoImplicit false

/-! # What the rows of an account do to the others

Two states that differ in what is stored of one account only (`State.SameBut`) stay so over any
turns of all accounts (`State.SameBut.next`), because what an operation does to the rows of an
account depends on these and on the next number (`Repository.Op.rowsOf_onFolders_congr`), and the
next number does not depend on what the rows are. So the other accounts are told the same in both
(`State.SameBut.told_eq`).

A corrupt row is a case of this: it makes the folders of its own account unreadable, until it is
repaired, and no other account is told anything of it (`corrupt_rows_contained`).
-/

namespace MailPush

open Repository

namespace Accounts

variable {account other : AccountId} {s s' : State} {turn : Turn}

/-! ## States that differ in one account -/

/-- Two states differ in what is stored of an account, and in the heartbeat of its operation, and in
nothing else. -/
structure State.SameBut (account : AccountId) (s s' : State) : Prop where
  stored : ∀ other, other ≠ account → s'.stored.get? other.number = s.stored.get? other.number
  rows : ∀ other, other ≠ account → s'.folders.rowsOf other = s.folders.rowsOf other
  sequence : s'.folders.table.sequence = s.folders.table.sequence
  requests : s'.requests = s.requests
  heartbeats : ∀ other, other ≠ account → s'.heartbeats other = s.heartbeats other

namespace State.SameBut

theorem keeps (h : s.SameBut account s') (hne : other ≠ account) : State.Keeps other s s' :=
  ⟨h.stored other hne, h.rows other hne, by rw [h.requests], h.heartbeats other hne⟩

theorem startOver_eq (h : s.SameBut account s') (turn : Turn) (hne : turn.account ≠ account)
    (config : PushConfig) :
    (turn.startOver config s'.shared).result = (turn.startOver config s.shared).result := by
  have hstart : (turn.startOver config s.shared).result = _ := start_ofTables turn.account config
  have hstart' : (turn.startOver config s'.shared).result = _ := start_ofTables turn.account config
  rw [hstart, hstart', h.stored turn.account hne]

/-- The runs of another account are the same, and adjust its heartbeat alike. -/
theorem ranOver_eq (h : s.SameBut account s') (turn : Turn) (hne : turn.account ≠ account)
    (codec : Codec) (x : Exchange) :
    let r := turn.ranOver codec x s.shared
    let r' := turn.ranOver codec x s'.shared
    r'.result = r.result ∧ r'.ping = r.ping ∧ r'.sent = r.sent ∧ r'.adjusted? = r.adjusted? := by
  intro r r'
  have hping : s'.shared.ping turn.account = s.shared.ping turn.account :=
    congrArg (Ping.mk turn.account) (h.heartbeats turn.account hne)
  have hread : (folderRegistry.folders turn.account s'.repository).result =
      (folderRegistry.folders turn.account s.repository).result := by
    show (s'.folders.list turn.account).mapError _ = (s.folders.list turn.account).mapError _
    rw [FolderTable.list, h.rows turn.account hne]
    rfl
  obtain ⟨hresult, hafter, hsent⟩ : r'.result = r.result ∧ r'.ping = r.ping ∧ r'.sent = r.sent := by
    have hr' : r' = Ping.run (collaborators codec) (s.shared.ping turn.account) x s'.repository :=
      congrArg (Ping.run _ · x _) hping
    rw [hr']
    exact Ping.run_of_reads rfl hread x
  refine ⟨hresult, hafter, hsent, ?_⟩
  rw [Ping.Run.adjusted?, Ping.Run.adjusted?, Ping.Run.adjustment?, Ping.Run.adjustment?, hresult,
    hafter]

/-- What a call yields to another account is the same, if it is addressed to that account. -/
theorem result_eq (h : s.SameBut account s') (hne : other ≠ account) {op : Op}
    (haddressed : op.account?.getD other = other) :
    (op.perform s'.repository).result = (op.perform s.repository).result := by
  cases op with
  | heartbeat owner | listFolders owner | pendingRequests owner =>
      obtain rfl : owner = other := haddressed
      exact (h.keeps hne).result_eq (by simp)
  | setHeartbeat owner secs =>
      rw [Op.perform, Op.perform, State.repository, State.repository, setHeartbeat_ofTables,
        setHeartbeat_ofTables]
      cases storedOfHeartbeat secs <;> rfl
  | saveFolder owner folder =>
      obtain rfl : owner = other := haddressed
      rw [State.repository, State.repository, Op.result_saveFolder, Op.result_saveFolder,
        Table.nextId?_congr h.sequence, h.rows owner hne]
  | recordRequest owner kind =>
      rw [Op.perform, Op.perform, State.repository, State.repository, recordRequest_ofTables,
        recordRequest_ofTables, h.requests]
      cases s.requests.insert? (RequestRow.ofKind owner kind) <;> rfl
  | request owner kind =>
      rw [perform_request, perform_request, Op.perform, Op.perform, State.repository,
        State.repository, recordRequest_ofTables, recordRequest_ofTables, h.requests]
      cases s.requests.insert? (RequestRow.ofKind owner kind) <;> rfl
  | takePendingRequests owner =>
      show Except.ok (Value.requests (RequestTable.pending s'.requests owner)) = _
      rw [h.requests]
      rfl
  | setSyncKey | setAutoSync | deleteAccount => rfl

/-- **A turn of any account leaves states that differ in one account only.** -/
theorem next (h : s.SameBut account s') (turn : Turn) :
    (s.next turn).SameBut account (s'.next turn) := by
  obtain ⟨actor, move⟩ := turn
  -- the account itself may act too; what is asked of the others is only whether one of them acts
  cases move with
  | start config =>
      refine ⟨h.stored, h.rows, h.sequence, h.requests, fun other hne => ?_⟩
      by_cases hactor : actor = other
      · subst hactor
        have hresult := h.startOver_eq ⟨actor, .start config⟩ hne config
        show startedWith s'.heartbeats actor (Turn.startOver _ config s'.shared).result actor = _
        rw [hresult]
        exact startedWith_self (h.heartbeats actor hne) _
      · exact (startedWith_of_ne hactor _ _).trans
          ((h.heartbeats other hne).trans (startedWith_of_ne hactor _ _).symm)
  | call op =>
      refine ⟨fun other hne => Op.get?_onHeartbeats_congr op (h.stored other hne),
        fun other hne => Op.rowsOf_onFolders_congr op h.sequence (h.rows other hne),
        Op.sequence_onFolders_congr op h.sequence, ?_, h.heartbeats⟩
      show op.onRequests s'.requests = op.onRequests s.requests
      rw [h.requests]
  | run codec x =>
      refine ⟨fun other hne => ?_, h.rows, h.sequence, h.requests, fun other hne => ?_⟩
      · show (writeHeartbeat s'.stored actor _).get? other.number =
          (writeHeartbeat s.stored actor _).get? other.number
        by_cases hactor : actor = other
        · subst hactor
          obtain ⟨-, -, -, hadjusted⟩ := h.ranOver_eq ⟨actor, .run codec x⟩ hne codec x
          rw [hadjusted]
          exact get?_writeHeartbeat_congr (h.stored actor hne) _
        · rw [get?_writeHeartbeat_of_ne _ hactor, get?_writeHeartbeat_of_ne _ hactor,
            h.stored other hne]
      · by_cases hactor : actor = other
        · subst hactor
          obtain ⟨-, hping, -, -⟩ := h.ranOver_eq ⟨actor, .run codec x⟩ hne codec x
          refine (Function.update_self actor _ s'.heartbeats).trans ?_
          rw [hping]
          exact (Function.update_self actor _ s.heartbeats).symm
        · exact (Function.update_of_ne (Ne.symm hactor) _ _).trans
            ((h.heartbeats other hne).trans (Function.update_of_ne (Ne.symm hactor) _ _).symm)
  | apply effects =>
      refine ⟨h.stored, h.rows, h.sequence, ?_, h.heartbeats⟩
      show afterEffects actor effects s'.requests = afterEffects actor effects s.requests
      rw [h.requests]

theorem after (h : s.SameBut account s') (turns : List Turn) :
    (s.after turns).SameBut account (s'.after turns) := by
  induction turns generalizing s s' with
  | nil => exact h
  | cons turn turns ih => exact ih (h.next turn)

/-- What a turn of another account tells it. -/
theorem tells_eq (h : s.SameBut account s') (hne : turn.account ≠ account)
    (haddressed : turn.Addressed) : turn.tells s'.shared = turn.tells s.shared := by
  obtain ⟨actor, move⟩ := turn
  cases move with
  | start config =>
      have hresult := h.startOver_eq ⟨actor, .start config⟩ hne config
      show Told.started _ = Told.started _
      rw [hresult]
  | call op => exact congrArg Told.answered (h.result_eq hne haddressed)
  | run codec x =>
      obtain ⟨hresult, hping, hsent, -⟩ := h.ranOver_eq ⟨actor, .run codec x⟩ hne codec x
      show Told.ran _ _ _ = Told.ran _ _ _
      rw [hresult, hping, hsent]
  | apply effects =>
      obtain ⟨-, hresult, -⟩ := applyEffects_ofTables actor effects s.stored s.folders s.requests
      obtain ⟨-, hresult', -⟩ :=
        applyEffects_ofTables actor effects s'.stored s'.folders s'.requests
      have hleft : s'.requests.left = s.requests.left := by rw [h.requests]
      rw [hleft] at hresult'
      exact congrArg Told.applied (hresult'.trans hresult.symm)

/-- **No other account is told of the difference**, as long as its calls are addressed to itself. -/
theorem told_eq (h : s.SameBut account s') (hne : other ≠ account) {turns : List Turn}
    (haddressed : ∀ turn ∈ turns, turn.account = other → turn.Addressed) :
    told other turns s'.shared = told other turns s.shared := by
  induction turns generalizing s s' with
  | nil => rfl
  | cons turn turns ih =>
      have hrest := ih (h.next turn) fun turn hturn =>
        haddressed turn (List.mem_cons_of_mem _ hturn)
      rw [told, told, next_shared, next_shared, hrest]
      by_cases hturn : turn.account = other
      · have htells := h.tells_eq (hturn ▸ hne) (haddressed turn List.mem_cons_self hturn)
        rw [htells]
      · rw [if_neg hturn, if_neg hturn]

end State.SameBut

/-! ## Corrupt rows -/

/-- The corrupt rows of an account that are left over turns are those which no turn has repaired. -/
theorem corruptIds_after (turns : List Turn) (s : State) (account : AccountId) :
    FolderTable.corruptIds ((s.after turns).folders.rowsOf account) =
      FolderWrite.unrepaired account (folderWrites turns s.shared)
        (FolderTable.corruptIds (s.folders.rowsOf account)) := by
  induction turns generalizing s with
  | nil => exact (FolderWrite.unrepaired_nil account _).symm
  | cons turn turns ih =>
      have hnext : FolderTable.corruptIds ((s.next turn).folders.rowsOf account) =
          FolderWrite.unrepaired account (turn.write? s.shared).toList
            (FolderTable.corruptIds (s.folders.rowsOf account)) := by
        obtain ⟨actor, move⟩ := turn
        cases move with
        | call op => exact corruptIds_onFolders op s.folders account s.stored s.requests
        | start | run | apply => exact (FolderWrite.unrepaired_nil account _).symm
      show FolderTable.corruptIds (((s.next turn).after turns).folders.rowsOf account) = _
      rw [ih, hnext, folderWrites, next_shared, FolderWrite.unrepaired_append]

/-- **A corrupt row fails closed, and stays contained.** Over any three tables, with any texts in
the class column:

* the folders of an account can be listed exactly when each of its rows has one of the four class
  names, and then the list has one folder for each row; otherwise the error names the class of the
  corrupt row with the lowest number, and a ping of the account, with any heartbeat and whatever it
  would be answered, ends with this error, sends nothing, and leaves the repository and itself as
  they are;
* what is stored of the account, and so each corrupt row, is nothing to the others: over any turns
  of all accounts another one, whose calls are addressed to itself, is told the same as over tables
  that differ in this account, and what is stored of it stays the same;
* after any turns of all accounts the folders of the account can be listed exactly when the account
  was deleted, or each row that was corrupt was saved again under its server id. -/
theorem corrupt_rows_contained (account : AccountId) (s : State) :
    let names := ["Email", "Calendar", "Contacts", "Tasks"]
    let rows := s.folders.rowsOf account
    ((∃ folders, s.repository.listFolders account = .ok folders) ↔
      ∀ e ∈ rows, e.2.className ∈ names) ∧
    (∀ folders, s.repository.listFolders account = .ok folders →
      List.Forall₂ (fun e f => e.2.className = f.folderClass.name ∧
        f = ⟨⟨e.1⟩, e.2.serverId, f.folderClass, syncKeyCompleted e.2.syncKey,
          e.2.autoSync != 0⟩) rows folders) ∧
    (∀ error, s.repository.listFolders account = .error error →
      (∃ e ∈ rows, e.2.className ∉ names ∧ (∀ x ∈ rows, x.2.className ∉ names → e.1 ≤ x.1) ∧
        error = .unknownClass e.2.className ∧
        error.message = "Corrupt row: unknown folder class " ++ e.2.className) ∧
      ∀ (heartbeat : Heartbeat) (codec : Codec) (x : Exchange),
        let failure := Error.metadataUnavailable account (.storage (.store error))
        Ping.run (collaborators codec) ⟨account, heartbeat⟩ x s.repository =
            ⟨.error failure, ⟨account, heartbeat⟩, s.repository, none, []⟩ ∧
          failure.message = "Folder metadata unavailable for account " ++ account.text ++
            ": Storage error: " ++ error.message) ∧
    (∀ s', s.SameBut account s' → ∀ (turns : List Turn) (other : AccountId), other ≠ account →
      State.Keeps other (s.after turns) (s'.after turns) ∧
      ((∀ turn ∈ turns, turn.account = other → turn.Addressed) →
        told other turns s'.shared = told other turns s.shared)) ∧
    ∀ turns : List Turn,
      let written := folderWrites turns s.shared
      (∃ folders, (s.after turns).repository.listFolders account = .ok folders) ↔
        .deleted account ∈ written ∨ ∀ e ∈ rows, e.2.className ∉ names →
          ∃ folder id, .saved account folder id ∈ written ∧ folder.serverId = e.2.serverId := by
  intro names rows
  refine ⟨?_, fun folders hlist => FolderTable.list_rows hlist, ?_, ?_, ?_⟩
  · refine FolderTable.exists_list_iff.trans (forall₂_congr fun e _ => ?_)
    exact not_not
  · intro error hlist
    have hlist : s.folders.list account = .error error := hlist
    obtain ⟨e, he, hcorrupt, hfirst, rfl⟩ := FolderTable.of_list_eq_error hlist
    exact ⟨⟨e, he, hcorrupt, hfirst, rfl, rfl⟩, fun heartbeat codec x =>
      ⟨run_of_corrupt hlist heartbeat s.stored s.requests codec x,
        Error.message_unreadable account _⟩⟩
  · intro s' hsame turns other hne
    exact ⟨(hsame.after turns).keeps hne, hsame.told_eq hne⟩
  · intro turns written
    refine FolderTable.exists_list_iff.trans ?_
    rw [← FolderTable.corruptIds_eq_nil_iff, corruptIds_after, FolderWrite.unrepaired_eq_nil_iff]
    constructor
    · intro h
      by_cases hdeleted : .deleted account ∈ written
      · exact .inl hdeleted
      · exact .inr fun e he hcorrupt =>
          (h _ (FolderTable.mem_corruptIds.2 ⟨e, he, hcorrupt, rfl⟩)).resolve_left hdeleted
    · intro h serverId hmem
      obtain ⟨e, he, hcorrupt, rfl⟩ := FolderTable.mem_corruptIds.1 hmem
      exact h.imp_right fun hsaved => hsaved e he hcorrupt

/-- Tables in which two of three folders have classes that are none. -/
def State.spoiled : State where
  stored := .empty
  folders := ((FolderTable.empty.put 2 ⟨⟨1⟩, "a", "Notes", some "1", 1⟩ rfl).put 3
    ⟨⟨2⟩, "inbox", "Email", some "1", 1⟩ rfl).put 5 ⟨⟨1⟩, "b", "email", none, 1⟩ rfl
  requests := .empty
  heartbeats := fun _ => .restore .standard none

/-- The error names the class of the first one. Its account has to save both folders before they can
be listed, and the other account is not concerned. -/
theorem corrupt_rows_contained_spoiled :
    let s := State.spoiled
    let save : String → Turn := fun serverId =>
      ⟨⟨1⟩, .call (.saveFolder ⟨1⟩ ⟨serverId, .email, none, true⟩)⟩
    let x : Exchange := ⟨.error (.connection "reset"), some .zero, none⟩
    let turns : List Turn := [⟨⟨2⟩, .call (.listFolders ⟨2⟩)⟩, save "a", ⟨⟨2⟩, .run .json x⟩]
    let without : State := { s with folders := s.folders.deleteAccount ⟨1⟩ }
    (∃ failure, (Ping.run (collaborators .json) ⟨⟨1⟩, s.heartbeats ⟨1⟩⟩ x s.repository).result =
        .error failure ∧
      failure.message = "Folder metadata unavailable for account 1: Storage error: " ++
        "Corrupt row: unknown folder class Notes") ∧
      told ⟨2⟩ turns without.shared = told ⟨2⟩ turns s.shared ∧
      (¬ ∃ folders, (s.after [save "a"]).repository.listFolders ⟨1⟩ = .ok folders) ∧
      ∃ folders, (s.after [save "a", save "b"]).repository.listFolders ⟨1⟩ = .ok folders := by
  intro s save x turns without
  obtain ⟨-, -, hrun, hothers, hrepaired⟩ := corrupt_rows_contained ⟨1⟩ s
  have hlist : s.repository.listFolders ⟨1⟩ = .error (.unknownClass "Notes") := rfl
  have hsame : s.SameBut ⟨1⟩ without :=
    ⟨fun _ _ => rfl, fun other hne => FolderTable.rowsOf_deleteAccount_of_ne _ (Ne.symm hne), rfl,
      rfl, fun _ _ => rfl⟩
  refine ⟨?_, (hothers without hsame turns ⟨2⟩ (by decide)).2 (by decide), ?_, ?_⟩
  · obtain ⟨hresult, hmessage⟩ := (hrun _ hlist).2 (s.heartbeats ⟨1⟩) .json x
    exact ⟨_, congrArg Ping.Run.result hresult, hmessage.trans (by decide)⟩
  · intro hreadable
    have hwritten : folderWrites [save "a"] s.shared =
        [.saved ⟨1⟩ ⟨"a", .email, none, true⟩ ⟨2⟩] := rfl
    rcases (hrepaired [save "a"]).1 hreadable with hdeleted | hsaved
    · exact absurd hdeleted (by decide)
    · obtain ⟨folder, id, hmem, hserver⟩ :=
        hsaved (5, ⟨⟨1⟩, "b", "email", none, 1⟩) (by decide) (by decide)
      rw [hwritten, List.mem_singleton] at hmem
      cases hmem
      exact absurd hserver (by decide)
  · refine (hrepaired [save "a", save "b"]).2 (.inr fun e he _ => ?_)
    have hwritten : folderWrites [save "a", save "b"] s.shared =
        [.saved ⟨1⟩ ⟨"b", .email, none, true⟩ ⟨5⟩, .saved ⟨1⟩ ⟨"a", .email, none, true⟩ ⟨2⟩] := rfl
    rw [hwritten]
    rcases List.mem_cons.1 (show e ∈ [(2, _), (5, _)] from he) with rfl | he
    · exact ⟨_, _, List.mem_cons_of_mem _ List.mem_cons_self, rfl⟩
    · obtain rfl := List.mem_singleton.1 he
      exact ⟨_, _, List.mem_cons_self, rfl⟩

end Accounts

end MailPush
