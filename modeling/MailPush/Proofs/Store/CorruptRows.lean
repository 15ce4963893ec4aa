import MailPush.Proofs.Store.FolderWrites
import MailPush.Proofs.Store.Pings

set_option autoImplicit false

/-! # Folder rows of unknown classes

The text in the class column of a folder row may be the name of no class (`FolderRow.Corrupt`). One
such row makes the list of its account unreadable, with an error that names the class of the first
of them (`FolderTable.list_cases`); a ping of the account then ends with this error, before anything
is sent or written (`Repository.run_of_corrupt`).

No operation writes such a row. A row that is there stays until its server id is saved or its
account is deleted, so which ones are left follows from what was written
(`Repository.corruptIds_onFolders`).
-/

namespace MailPush

/-! ## Reading -/

namespace FolderRow

/-- The class of a row is none of the four. -/
def Corrupt (row : FolderRow) : Prop :=
  row.className ∉ ["Email", "Calendar", "Contacts", "Tasks"]

instance (row : FolderRow) : Decidable row.Corrupt := inferInstanceAs (Decidable (¬ _))

variable {row : FolderRow}

theorem corrupt_iff : row.Corrupt ↔ FolderClass.ofName? row.className = none := by
  have hnames : ["Email", "Calendar", "Contacts", "Tasks"] = FolderClass.all.map (·.name) := rfl
  rw [Corrupt, hnames, FolderClass.ofName?, List.find?_eq_none]
  simp only [List.mem_map, not_exists, not_and, beq_iff_eq]

theorem corrupt_congr {row' : FolderRow} (h : row.className = row'.className) :
    row.Corrupt ↔ row'.Corrupt := by
  rw [Corrupt, Corrupt, h]

theorem folder_of_corrupt (h : row.Corrupt) (id : Int64) :
    row.folder id = .error (.unknownClass row.className) := by
  rw [folder, corrupt_iff.1 h]

theorem exists_folder (h : ¬ row.Corrupt) (id : Int64) : ∃ folder, row.folder id = .ok folder := by
  rw [corrupt_iff, ← ne_eq, Option.ne_none_iff_exists'] at h
  obtain ⟨c, hc⟩ := h
  rw [folder, hc]
  exact ⟨_, rfl⟩

/-- A row that is written for a new folder has one of the classes. -/
theorem not_corrupt_ofNew (account : AccountId) (folder : NewFolder) :
    ¬ (ofNew account folder).Corrupt := by
  rw [corrupt_iff]
  show FolderClass.ofName? folder.folderClass.name ≠ none
  rw [FolderClass.ofName?_name]
  exact nofun

end FolderRow

namespace FolderTable

/-- Rows are read one after the other, up to the first corrupt one. -/
theorem mapM_folder_cases (rows : List (Int64 × FolderRow)) :
    ((∀ e ∈ rows, ¬ e.2.Corrupt) ∧
        ∃ folders, (rows.mapM fun e => e.2.folder e.1) = .ok folders) ∨
      ∃ before e behind, rows = before ++ e :: behind ∧ (∀ x ∈ before, ¬ x.2.Corrupt) ∧
        e.2.Corrupt ∧
        (rows.mapM fun e => e.2.folder e.1) = .error (.unknownClass e.2.className) := by
  induction rows with
  | nil => exact .inl ⟨nofun, [], rfl⟩
  | cons e rows ih =>
      rw [List.mapM_cons]
      by_cases he : e.2.Corrupt
      · rw [FolderRow.folder_of_corrupt he]
        exact .inr ⟨[], e, rows, rfl, nofun, he, rfl⟩
      · obtain ⟨folder, hfolder⟩ := FolderRow.exists_folder he e.1
        rw [hfolder]
        rcases ih with ⟨hrows, folders, hread⟩ | ⟨before, x, behind, rfl, hbefore, hx, hread⟩
        · rw [hread]
          exact .inl ⟨List.forall_mem_cons.2 ⟨he, hrows⟩, _, rfl⟩
        · rw [hread]
          exact .inr ⟨e :: before, x, behind, rfl, List.forall_mem_cons.2 ⟨he, hbefore⟩, hx, rfl⟩

/-- **The list of an account can be read if none of its rows is corrupt**; otherwise it cannot, and
the error names the class of the corrupt row with the lowest number. -/
theorem list_cases (t : FolderTable) (account : AccountId) :
    ((∀ e ∈ t.rowsOf account, ¬ e.2.Corrupt) ∧ ∃ folders, t.list account = .ok folders) ∨
      ∃ e ∈ t.rowsOf account, e.2.Corrupt ∧
        (∀ x ∈ t.rowsOf account, x.2.Corrupt → e.1 ≤ x.1) ∧
        t.list account = .error (.unknownClass e.2.className) := by
  rcases mapM_folder_cases (t.rowsOf account) with
    hread | ⟨before, e, behind, hrows, hbefore, he, hread⟩
  · exact .inl hread
  · refine .inr ⟨e, ?_, he, fun x hx hcorrupt => ?_, hread⟩
    · rw [hrows]
      exact List.mem_append_right _ List.mem_cons_self
    · -- rows stand in the order of their numbers, so the first corrupt one has the lowest
      have hordered := t.rowsOf_ordered account
      rw [hrows] at hx hordered
      rcases List.mem_append.1 hx with hx | hx
      · exact absurd hcorrupt (hbefore x hx)
      · rcases List.mem_cons.1 hx with rfl | hx
        · exact Int64.le_refl _
        · obtain ⟨-, hrest, -⟩ := List.pairwise_append.1 hordered
          exact Int64.le_of_lt (List.rel_of_pairwise_cons hrest hx)

theorem exists_list_iff {t : FolderTable} {account : AccountId} :
    (∃ folders, t.list account = .ok folders) ↔ ∀ e ∈ t.rowsOf account, ¬ e.2.Corrupt := by
  rcases list_cases t account with ⟨hrows, hread⟩ | ⟨e, he, hcorrupt, -, hread⟩
  · exact iff_of_true hread hrows
  · refine iff_of_false ?_ fun h => h e he hcorrupt
    rintro ⟨folders, hok⟩
    rw [hread] at hok
    cases hok

theorem of_list_eq_error {t : FolderTable} {account : AccountId} {error : StoreError}
    (h : t.list account = .error error) :
    ∃ e ∈ t.rowsOf account, e.2.Corrupt ∧ (∀ x ∈ t.rowsOf account, x.2.Corrupt → e.1 ≤ x.1) ∧
      error = .unknownClass e.2.className := by
  rcases list_cases t account with ⟨-, folders, hread⟩ | ⟨e, he, hcorrupt, hfirst, hread⟩
  · rw [hread] at h
    cases h
  · rw [hread] at h
    cases h
    exact ⟨e, he, hcorrupt, hfirst, rfl⟩

/-- A list that can be read has one folder for each row, with what is in the row. -/
theorem list_rows {t : FolderTable} {account : AccountId} {folders : List Folder}
    (h : t.list account = .ok folders) :
    List.Forall₂ (fun e f => e.2.className = f.folderClass.name ∧
        f = ⟨⟨e.1⟩, e.2.serverId, f.folderClass, syncKeyCompleted e.2.syncKey, e.2.autoSync != 0⟩)
      (t.rowsOf account) folders :=
  (list_eq_ok_iff.1 h).imp fun _ _ hrow => FolderRow.folder_eq_ok_iff.1 hrow

end FolderTable

/-- The text of the error with which a ping ends when the store cannot read its folders. -/
theorem Error.message_unreadable (account : AccountId) (error : StoreError) :
    (metadataUnavailable account (.storage (.store error))).message =
      "Folder metadata unavailable for account " ++ account.text ++ ": Storage error: " ++
        error.message := by
  have hjoin : ": Storage error: " = ": " ++ "Storage error: " := by decide
  rw [hjoin, ← String.append_assoc]
  exact String.append_assoc.symm

/-- A ping of an account with a corrupt row ends before anything is sent or written. -/
theorem Repository.run_of_corrupt {t : FolderTable} {account : AccountId} {name : String}
    (h : t.list account = .error (.unknownClass name)) (heartbeat : Heartbeat)
    (heartbeats : Rows Int64) (requests : RequestTable) (codec : Codec) (x : Exchange) :
    Ping.run (collaborators codec) ⟨account, heartbeat⟩ x (ofTables heartbeats t requests) =
      ⟨.error (.metadataUnavailable account (.storage (.store (.unknownClass name)))),
        ⟨account, heartbeat⟩, ofTables heartbeats t requests, none, []⟩ := by
  have hread : (collaborators codec).registry.folders account (ofTables heartbeats t requests) =
      ⟨.error (.storage (.store (.unknownClass name))), ofTables heartbeats t requests, []⟩ := by
    show (ofTables heartbeats t requests).answerRead (t.list account) = _
    rw [h]
    rfl
  rw [Ping.run_of_unread (congrArg Answer.result hread), hread]

/-! ## Repair -/

namespace FolderWrite

/-- A write that leaves no corrupt row with a server id in an account. -/
def repairs (account : AccountId) (serverId : String) : FolderWrite → Bool
  | saved owner folder _ => owner == account && folder.serverId == serverId
  | deleted owner => owner == account
  | keySet .. | flagSet .. => false

/-- The server ids that no write has repaired in an account. -/
def unrepaired (account : AccountId) (ws : List FolderWrite) (serverIds : List String) :
    List String :=
  serverIds.filter fun serverId => !(ws.any (·.repairs account serverId))

variable {account : AccountId} {serverIds : List String} {ws : List FolderWrite}

theorem repairs_iff {serverId : String} {w : FolderWrite} :
    w.repairs account serverId = true ↔
      w = deleted account ∨
        ∃ folder id, w = saved account folder id ∧ folder.serverId = serverId := by
  cases w with
  | saved owner folder id =>
      rw [repairs, Bool.and_eq_true, beq_iff_eq, beq_iff_eq]
      constructor
      · rintro ⟨rfl, rfl⟩
        exact .inr ⟨folder, id, rfl, rfl⟩
      · rintro (⟨⟨⟩⟩ | ⟨_, _, ⟨⟩, hserver⟩)
        exact ⟨rfl, hserver⟩
  | deleted owner =>
      rw [repairs, beq_iff_eq]
      constructor
      · rintro rfl
        exact .inl rfl
      · rintro (⟨⟨⟩⟩ | ⟨_, _, ⟨⟩, _⟩)
        rfl
  | keySet | flagSet => exact iff_of_false nofun (by rintro (⟨⟨⟩⟩ | ⟨_, _, ⟨⟩, _⟩))

theorem unrepaired_append (ws ws' : List FolderWrite) (serverIds : List String) :
    unrepaired account (ws ++ ws') serverIds =
      unrepaired account ws (unrepaired account ws' serverIds) := by
  simp only [unrepaired, List.filter_filter, List.any_append, Bool.not_or]

theorem unrepaired_nil (account : AccountId) (serverIds : List String) :
    unrepaired account [] serverIds = serverIds :=
  List.filter_eq_self.2 fun _ _ => rfl

/-- A write that repairs nothing in an account leaves all that is to be repaired there. -/
theorem unrepaired_of_not {w : FolderWrite} (h : ∀ serverId, w.repairs account serverId = false) :
    unrepaired account [w] serverIds = serverIds := by
  refine List.filter_eq_self.2 fun serverId _ => ?_
  rw [List.any_cons, List.any_nil, h]
  rfl

theorem unrepaired_saved (folder : NewFolder) (id : FolderId) (serverIds : List String) :
    unrepaired account [saved account folder id] serverIds =
      serverIds.filter (· ≠ folder.serverId) := by
  refine List.filter_congr fun serverId _ => ?_
  rw [List.any_cons, List.any_nil, Bool.or_false, repairs, beq_self_eq_true, Bool.true_and,
    Bool.eq_iff_iff]
  simp only [Bool.not_eq_true', beq_eq_false_iff_ne, decide_eq_true_eq]
  exact ne_comm

theorem unrepaired_deleted (account : AccountId) (serverIds : List String) :
    unrepaired account [deleted account] serverIds = [] := by
  refine List.filter_eq_nil_iff.2 fun serverId _ => ?_
  rw [List.any_cons, repairs, beq_self_eq_true]
  exact Bool.false_ne_true

/-- Nothing is left to be repaired when the account was deleted, or everything was saved. -/
theorem unrepaired_eq_nil_iff :
    unrepaired account ws serverIds = [] ↔
      ∀ serverId ∈ serverIds, deleted account ∈ ws ∨
        ∃ folder id, saved account folder id ∈ ws ∧ folder.serverId = serverId := by
  simp only [unrepaired, List.filter_eq_nil_iff, Bool.not_eq_true', Bool.not_eq_false,
    List.any_eq_true, repairs_iff]
  refine forall₂_congr fun serverId _ => ?_
  constructor
  · rintro ⟨w, hw, rfl | ⟨folder, id, rfl, hserver⟩⟩
    · exact .inl hw
    · exact .inr ⟨folder, id, hw, hserver⟩
  · rintro (hw | ⟨folder, id, hw, hserver⟩)
    · exact ⟨_, hw, .inl rfl⟩
    · exact ⟨_, hw, .inr ⟨folder, id, rfl, hserver⟩⟩

end FolderWrite

namespace FolderTable

/-- The server ids of the corrupt rows among those of an account. -/
def corruptIds (rows : List (Int64 × FolderRow)) : List String :=
  (rows.filter (·.2.Corrupt)).map (·.2.serverId)

theorem mem_corruptIds {rows : List (Int64 × FolderRow)} {serverId : String} :
    serverId ∈ corruptIds rows ↔ ∃ e ∈ rows, e.2.Corrupt ∧ e.2.serverId = serverId := by
  simp only [corruptIds, List.mem_map, List.mem_filter, decide_eq_true_eq, and_assoc]

theorem corruptIds_cons (e : Int64 × FolderRow) (rows : List (Int64 × FolderRow)) :
    corruptIds (e :: rows) =
      if e.2.Corrupt then e.2.serverId :: corruptIds rows else corruptIds rows := by
  simp only [corruptIds, List.filter_cons, decide_eq_true_eq]
  split <;> rfl

theorem corruptIds_eq_nil_iff {rows : List (Int64 × FolderRow)} :
    corruptIds rows = [] ↔ ∀ e ∈ rows, ¬ e.2.Corrupt := by
  simp only [corruptIds, List.map_eq_nil_iff, List.filter_eq_nil_iff, decide_eq_true_eq]

/-- A change of rows that leaves their classes and server ids leaves the corrupt ones. -/
theorem corruptIds_map (rows : List (Int64 × FolderRow)) {f : Int64 × FolderRow → FolderRow}
    (h : ∀ e, (f e).className = e.2.className ∧ (f e).serverId = e.2.serverId) :
    corruptIds (rows.map fun e => (e.1, f e)) = corruptIds rows := by
  rw [corruptIds, List.filter_map, List.map_map, corruptIds]
  have hcorrupt : ((fun e : Int64 × FolderRow => decide e.2.Corrupt) ∘ fun e => (e.1, f e)) =
      fun e => decide e.2.Corrupt :=
    funext fun e => decide_eq_decide.2 (FolderRow.corrupt_congr (h e).1)
  rw [hcorrupt]
  exact List.map_congr_left fun e _ => (h e).2

/-- Saving a row repairs the one that has its server id. -/
theorem corruptIds_saveRow {row : FolderRow} (hrow : ¬ row.Corrupt) (n : Int64)
    (rows : List (Int64 × FolderRow)) :
    corruptIds (saveRow n row rows) = (corruptIds rows).filter (· ≠ row.serverId) := by
  rw [saveRow]
  cases hid : idOf? rows row.serverId with
  | some id =>
      dsimp only
      clear hid
      induction rows with
      | nil => rfl
      | cons e rows ih =>
          rw [List.map_cons, corruptIds_cons, corruptIds_cons, ih]
          by_cases hserver : e.2.serverId = row.serverId
          · rw [if_pos hserver, if_neg hrow]
            split
            · rw [List.filter_cons_of_neg (by simpa using hserver)]
            · rfl
          · rw [if_neg hserver]
            split
            · rw [List.filter_cons_of_pos (by simpa using hserver)]
            · rfl
  | none =>
      -- no row has the server id, so there is nothing to repair
      rw [idOf?, Option.map_eq_none_iff, List.find?_eq_none] at hid
      have hnew : [(n, row)].filter (fun e => decide e.2.Corrupt) = [] :=
        List.filter_cons_of_neg (by simpa using hrow)
      rw [corruptIds, List.filter_append, hnew, List.append_nil]
      refine (List.filter_eq_self.2 fun serverId hmem => ?_).symm
      obtain ⟨e, he, rfl⟩ := List.mem_map.1 hmem
      simpa using hid e (List.mem_filter.1 he).1

end FolderTable

namespace Repository

variable {t : FolderTable} {account : AccountId}

/-- **Corrupt rows stay until they are repaired.** After an operation those are left whose server id
it has not saved, if it has not deleted the account. -/
theorem corruptIds_onFolders (op : Op) (t : FolderTable) (account : AccountId)
    (heartbeats : Rows Int64) (requests : RequestTable) :
    FolderTable.corruptIds ((op.onFolders t).rowsOf account) =
      FolderWrite.unrepaired account
        (Step.write? ⟨op, op.perform (ofTables heartbeats t requests)⟩).toList
        (FolderTable.corruptIds (t.rowsOf account)) := by
  cases op with
  | saveFolder owner folder =>
      cases hsave : t.save? owner folder with
      | none =>
          rw [write?_of_full hsave, Op.onFolders, hsave]
          exact (FolderWrite.unrepaired_nil account _).symm
      | some saved =>
          obtain ⟨id, t'⟩ := saved
          rw [write?_of_saved hsave, Op.onFolders, hsave, Option.toList_some]
          by_cases howner : owner = account
          · subst howner
            obtain ⟨n, -, -, hrows⟩ := FolderTable.rowsOf_save?_self hsave
            rw [hrows, FolderTable.corruptIds_saveRow (FolderRow.not_corrupt_ofNew owner folder)]
            exact (FolderWrite.unrepaired_saved folder id _).symm
          · rw [FolderTable.rowsOf_save?_of_ne hsave howner, FolderWrite.unrepaired_of_not]
            intro serverId
            rw [FolderWrite.repairs, beq_eq_false_iff_ne.2 howner, Bool.false_and]
  | setSyncKey id syncKey =>
      show FolderTable.corruptIds ((t.setSyncKey id syncKey).rowsOf account) =
        FolderWrite.unrepaired account [.keySet id syncKey] _
      rw [FolderTable.rowsOf_setSyncKey, FolderWrite.unrepaired_of_not fun _ => rfl]
      exact FolderTable.corruptIds_map _ fun e => by split <;> exact ⟨rfl, rfl⟩
  | setAutoSync owner folderClass enabled =>
      show FolderTable.corruptIds ((t.setAutoSync owner folderClass enabled).rowsOf account) =
        FolderWrite.unrepaired account [.flagSet owner folderClass enabled] _
      rw [FolderWrite.unrepaired_of_not fun _ => rfl]
      by_cases howner : owner = account
      · subst howner
        rw [FolderTable.rowsOf_setAutoSync_self]
        exact FolderTable.corruptIds_map _ fun e => by split <;> exact ⟨rfl, rfl⟩
      · rw [FolderTable.rowsOf_setAutoSync_of_ne t folderClass enabled howner]
  | deleteAccount owner =>
      show FolderTable.corruptIds ((t.deleteAccount owner).rowsOf account) =
        FolderWrite.unrepaired account [.deleted owner] _
      by_cases howner : owner = account
      · subst howner
        rw [FolderTable.rowsOf_deleteAccount_self, FolderWrite.unrepaired_deleted]
        rfl
      · rw [FolderTable.rowsOf_deleteAccount_of_ne t howner, FolderWrite.unrepaired_of_not]
        intro serverId
        rw [FolderWrite.repairs, beq_eq_false_iff_ne.2 howner]
  | heartbeat | setHeartbeat | listFolders | recordRequest | request | pendingRequests
  | takePendingRequests => exact (FolderWrite.unrepaired_nil account _).symm

end Repository

end MailPush
