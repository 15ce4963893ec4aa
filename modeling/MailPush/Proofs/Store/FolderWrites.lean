import MailPush.Proofs.Store.FolderBook

set_option autoImplicit false

/-! # What was written to the folders

The folders of an account in terms of the history alone. `writes` lists what the operations of a
history have written to folders, the latest write first; an operation that failed has written
nothing. From this list are read the server ids that an account has registered since it was deleted
last (`registered`), the last time that one was saved (`lastSave?`), and what was written last of
its sync key and of its flag (`last?`). A sync key is written by id and a flag by class, so whether
such a write concerns a folder depends on what was written before.

The map of an account reflects these writes (`Reflects`), and the rows of the account are those of
the map (`RowsReflect`). Every operation preserves this, whatever the rows of the other accounts
are, and it holds after every history, also of one that has used up the numbers for new folders
(`reflects_after`).
-/

namespace MailPush

/-! ## Writes -/

/-- What an operation has written to the folders. -/
inductive FolderWrite where
  | saved (account : AccountId) (folder : NewFolder) (id : FolderId)
  | keySet (id : FolderId) (syncKey : Option String)
  | flagSet (account : AccountId) (folderClass : FolderClass) (enabled : Bool)
  | deleted (account : AccountId)
deriving DecidableEq

namespace FolderWrite

/-- The folder that a write saves for an account. -/
def savedFor? (account : AccountId) : FolderWrite → Option (FolderId × NewFolder)
  | saved a folder id => if a = account then some (id, folder) else none
  | _ => none

/-- The folders that an account has saved since it was deleted last, latest first. -/
def saves (account : AccountId) (writes : List FolderWrite) : List (FolderId × NewFolder) :=
  (writes.takeWhile (· != deleted account)).filterMap (savedFor? account)

/-- The server ids of an account in the order in which each was saved first since the account was
deleted last. -/
def registered (account : AccountId) (writes : List FolderWrite) : List String :=
  ((saves account writes).reverse.map fun s => s.2.serverId).eraseDups

/-- The last time that a server id was saved since its account was deleted last. -/
def lastSave? (account : AccountId) (serverId : String) (writes : List FolderWrite) :
    Option (FolderId × NewFolder) :=
  (saves account writes).find? fun s => s.2.serverId == serverId

/-- The sync key that a write gives to a folder, after these earlier ones. -/
def syncKeyFor? (account : AccountId) (serverId : String) (before : List FolderWrite) :
    FolderWrite → Option (Option String)
  | saved a folder _ =>
      if a = account ∧ folder.serverId = serverId then some folder.syncKey else none
  | keySet id syncKey =>
      if (lastSave? account serverId before).map (·.1) = some id then some syncKey else none
  | _ => none

/-- The flag that a write gives to a folder, after these earlier ones. -/
def autoSyncFor? (account : AccountId) (serverId : String) (before : List FolderWrite) :
    FolderWrite → Option Bool
  | saved a folder _ =>
      if a = account ∧ folder.serverId = serverId then some folder.autoSync else none
  | flagSet a folderClass enabled =>
      if a = account ∧
          (lastSave? account serverId before).map (·.2.folderClass) = some folderClass then
        some enabled
      else none
  | _ => none

/-- What the last write gives that gives anything. -/
def last? {α : Type} (gives : List FolderWrite → FolderWrite → Option α) :
    List FolderWrite → Option α
  | [] => none
  | w :: before => (gives before w).or (last? gives before)

/-- What a ping says of a server id: its class, if it is registered, its last sync key is there and
is not the initial one, and the last flag is set. -/
def watch? (account : AccountId) (writes : List FolderWrite) (serverId : String) :
    Option WatchedFolder :=
  match lastSave? account serverId writes, last? (syncKeyFor? account serverId) writes,
    last? (autoSyncFor? account serverId) writes with
  | some (_, folder), some (some syncKey), some true =>
      if syncKey = "0" then none else some ⟨serverId, folder.folderClass⟩
  | _, _, _ => none

/-- What a ping says of all folders of an account, in the order of their registration. -/
def watched (account : AccountId) (writes : List FolderWrite) : List WatchedFolder :=
  (registered account writes).filterMap (watch? account writes)

variable {account : AccountId} {serverId : String} {w : FolderWrite} {ws : List FolderWrite}

theorem saves_deleted (account : AccountId) (ws : List FolderWrite) :
    saves account (deleted account :: ws) = [] := by
  rw [saves, List.takeWhile_cons_of_neg (by simp), List.filterMap_nil]

theorem saves_cons (h : w ≠ deleted account) :
    saves account (w :: ws) = (savedFor? account w).toList ++ saves account ws := by
  rw [saves, List.takeWhile_cons_of_pos (by simpa using h), List.filterMap_cons]
  cases savedFor? account w <;> rfl

theorem saves_saved (folder : NewFolder) (id : FolderId) :
    saves account (saved account folder id :: ws) = (id, folder) :: saves account ws := by
  have hne : saved account folder id ≠ deleted account := nofun
  rw [saves_cons hne, savedFor?, if_pos rfl]
  rfl

/-- A write that neither deletes an account nor saves a folder for it registers nothing. -/
theorem saves_cons_of_none (h : w ≠ deleted account) (hsaved : savedFor? account w = none) :
    saves account (w :: ws) = saves account ws := by
  rw [saves_cons h, hsaved]
  rfl

/-- Only the first of equal elements is kept, so an element at the end is kept when it is new. -/
theorem eraseDups_concat (l : List String) (a : String) :
    (l ++ [a]).eraseDups = if a ∈ l then l.eraseDups else l.eraseDups ++ [a] := by
  rw [List.eraseDups_append, List.removeAll]
  by_cases h : a ∈ l
  · rw [if_pos h, List.filter_cons_of_neg (by simpa using h), List.filter_nil, List.eraseDups_nil,
      List.append_nil]
  · rw [if_neg h, List.filter_cons_of_pos (by simpa using h), List.filter_nil, List.eraseDups_cons,
      List.filter_nil, List.eraseDups_nil]

/-- A server id that is saved is registered at the end, unless it is registered already. -/
theorem registered_saved (folder : NewFolder) (id : FolderId) :
    registered account (saved account folder id :: ws)
      = if folder.serverId ∈ registered account ws then registered account ws
        else registered account ws ++ [folder.serverId] := by
  simp only [registered, saves_saved, List.reverse_cons, List.map_append, List.map_cons,
    List.map_nil, eraseDups_concat, List.mem_eraseDups]

theorem lastSave?_saved_self (folder : NewFolder) (id : FolderId) :
    lastSave? account folder.serverId (saved account folder id :: ws) = some (id, folder) := by
  rw [lastSave?, saves_saved, List.find?_cons_of_pos (by simp)]

theorem lastSave?_saved_of_ne {folder : NewFolder} {id : FolderId}
    (h : folder.serverId ≠ serverId) :
    lastSave? account serverId (saved account folder id :: ws) = lastSave? account serverId ws := by
  rw [lastSave?, saves_saved, List.find?_cons_of_neg (by simpa using h), lastSave?]

theorem last?_cons_of_none {α : Type} {gives : List FolderWrite → FolderWrite → Option α}
    (h : gives ws w = none) : last? gives (w :: ws) = last? gives ws := by
  rw [last?, h, Option.none_or]

theorem last?_cons_of_some {α : Type} {gives : List FolderWrite → FolderWrite → Option α} {a : α}
    (h : gives ws w = some a) : last? gives (w :: ws) = some a := by
  rw [last?, h, Option.some_or]

end FolderWrite

/-! ## Maps after saving -/

namespace FolderMap

variable {m : FolderMap} {folder : NewFolder} {fresh : FolderId}

theorem find?_of_mem {e : FolderEntry} (h : e ∈ m.entries) : m.find? e.serverId = some e := by
  have hnodup : (m.entries.map (·.serverId)).Nodup := List.pairwise_map.2 m.distinct
  cases hfind : m.find? e.serverId with
  | none => exact absurd (List.find?_eq_none.1 hfind e h) (by simp)
  | some f =>
      have hserver : f.serverId = e.serverId := by simpa using List.find?_some hfind
      rw [List.inj_on_of_nodup_map hnodup (List.mem_of_find?_eq_some hfind) h hserver]

/-- After a folder has been saved there is its entry, and those of the other server ids. -/
theorem mem_save {e : FolderEntry} (h : e ∈ (m.save fresh folder).entries) :
    e = .ofNew (m.idFor fresh folder.serverId) folder ∨
      (e ∈ m.entries ∧ folder.serverId ≠ e.serverId) := by
  unfold save at h
  split at h
  next known hknown =>
    obtain ⟨e', he', rfl⟩ := List.mem_map.1 h
    by_cases hs : e'.serverId = folder.serverId
    · left
      rw [if_pos hs, idFor, ← hs, find?_of_mem he', FolderEntry.renew, hs]
      rfl
    · right
      rw [if_neg hs]
      exact ⟨he', Ne.symm hs⟩
  next hnone =>
    rcases List.mem_append.1 h with h | h
    · refine .inr ⟨h, fun hs => ?_⟩
      rw [hs, find?_of_mem h] at hnone
      cases hnone
    · left
      rw [List.mem_singleton.1 h, idFor, hnone]
      rfl

theorem serverIds_save (m : FolderMap) (fresh : FolderId) (folder : NewFolder) :
    (m.save fresh folder).entries.map (·.serverId)
      = if folder.serverId ∈ m.entries.map (·.serverId) then m.entries.map (·.serverId)
        else m.entries.map (·.serverId) ++ [folder.serverId] := by
  unfold save
  split
  next known hknown =>
    have hmem : folder.serverId ∈ m.entries.map (·.serverId) := by
      have hserver : known.serverId = folder.serverId := by simpa using List.find?_some hknown
      exact hserver ▸ List.mem_map_of_mem (List.mem_of_find?_eq_some hknown)
    rw [if_pos hmem, update, List.map_map]
    apply List.map_congr_left
    intro e _
    dsimp only [Function.comp]
    split <;> rfl
  next hnone =>
    have hnew : folder.serverId ∉ m.entries.map (·.serverId) := by
      intro hmem
      obtain ⟨e, he, hserver⟩ := List.mem_map.1 hmem
      rw [← hserver, find?_of_mem he] at hnone
      cases hnone
    rw [if_neg hnew]
    exact List.map_append

end FolderMap

/-! ## Maps reflect writes -/

namespace FolderWrite

variable {account : AccountId} {w : FolderWrite} {ws : List FolderWrite} {e : FolderEntry}
  {m m' : FolderMap}

/-- An entry holds what was written last of its folder. -/
structure Recorded (account : AccountId) (ws : List FolderWrite) (e : FolderEntry) : Prop where
  saved : ∃ folder, lastSave? account e.serverId ws = some (e.id, folder) ∧
    folder.folderClass = e.folderClass
  syncKey : last? (syncKeyFor? account e.serverId) ws = some e.syncKey
  autoSync : last? (autoSyncFor? account e.serverId) ws = some e.autoSync

/-- A map has the registered server ids in their order, and each entry holds what was written last
of its folder. -/
structure Reflects (account : AccountId) (ws : List FolderWrite) (m : FolderMap) : Prop where
  serverIds : m.entries.map (·.serverId) = registered account ws
  entries : ∀ e ∈ m.entries, Recorded account ws e

theorem reflects_nil (account : AccountId) : Reflects account [] .empty := ⟨rfl, nofun⟩

theorem Reflects.deleted (account : AccountId) (ws : List FolderWrite) :
    Reflects account (.deleted account :: ws) .empty := by
  refine ⟨?_, nofun⟩
  rw [registered, saves_deleted]
  rfl

theorem Reflects.saved (h : Reflects account ws m) (fresh : FolderId) (folder : NewFolder) :
    Reflects account (.saved account folder (m.idFor fresh folder.serverId) :: ws)
      (m.save fresh folder) := by
  constructor
  · rw [FolderMap.serverIds_save, h.serverIds, registered_saved]
  · intro e he
    rcases FolderMap.mem_save he with rfl | ⟨hmem, hne⟩
    · exact ⟨⟨folder, lastSave?_saved_self _ _, rfl⟩, last?_cons_of_some (if_pos ⟨rfl, rfl⟩),
        last?_cons_of_some (if_pos ⟨rfl, rfl⟩)⟩
    · obtain ⟨hsaved, hkey, hflag⟩ := h.entries e hmem
      have hother : ¬ (account = account ∧ folder.serverId = e.serverId) := fun hs => hne hs.2
      constructor
      · rw [lastSave?_saved_of_ne hne]
        exact hsaved
      · rw [last?_cons_of_none (if_neg hother)]
        exact hkey
      · rw [last?_cons_of_none (if_neg hother)]
        exact hflag

/-- What a write other than a save makes of an entry. -/
def onEntry (account : AccountId) (ws : List FolderWrite) (w : FolderWrite) (e : FolderEntry) :
    FolderEntry :=
  { e with
    syncKey := (syncKeyFor? account e.serverId ws w).getD e.syncKey
    autoSync := (autoSyncFor? account e.serverId ws w).getD e.autoSync }

theorem Recorded.onEntry (h : Recorded account ws e) (hdeleted : w ≠ .deleted account)
    (hsaved : savedFor? account w = none) :
    Recorded account (w :: ws) (onEntry account ws w e) where
  saved := by
    show ∃ folder, lastSave? account e.serverId (w :: ws) = some (e.id, folder) ∧ _
    rw [lastSave?, saves_cons_of_none hdeleted hsaved]
    exact h.saved
  syncKey := by
    show last? (syncKeyFor? account e.serverId) (w :: ws) = some (Option.getD _ e.syncKey)
    rw [last?, h.syncKey]
    cases syncKeyFor? account e.serverId ws w <;> rfl
  autoSync := by
    show last? (autoSyncFor? account e.serverId) (w :: ws) = some (Option.getD _ e.autoSync)
    rw [last?, h.autoSync]
    cases autoSyncFor? account e.serverId ws w <;> rfl

/-- A write other than a save changes the entries one by one. -/
theorem Reflects.onEntries (h : Reflects account ws m) (hdeleted : w ≠ .deleted account)
    (hsaved : savedFor? account w = none)
    (hm : m'.entries = m.entries.map (onEntry account ws w)) : Reflects account (w :: ws) m' where
  serverIds := by
    rw [registered, saves_cons_of_none hdeleted hsaved, ← registered, ← h.serverIds, hm,
      List.map_map]
    rfl
  entries := by
    intro e he
    rw [hm] at he
    obtain ⟨e', he', rfl⟩ := List.mem_map.1 he
    exact (h.entries e' he').onEntry hdeleted hsaved

/-- A write that concerns no folder of an account. -/
theorem Reflects.other (h : Reflects account ws m) (hdeleted : w ≠ .deleted account)
    (hsaved : savedFor? account w = none)
    (hkey : ∀ serverId, syncKeyFor? account serverId ws w = none)
    (hflag : ∀ serverId, autoSyncFor? account serverId ws w = none) :
    Reflects account (w :: ws) m := by
  refine h.onEntries hdeleted hsaved ?_
  refine ((List.map_congr_left fun e _ => ?_).trans (List.map_id _)).symm
  rw [FolderWrite.onEntry, hkey, hflag]
  rfl

theorem Reflects.keySet (h : Reflects account ws m) (id : FolderId) (syncKey : Option String) :
    Reflects account (.keySet id syncKey :: ws) (m.setSyncKey id syncKey) := by
  refine h.onEntries nofun rfl (List.map_congr_left fun e he => ?_)
  -- the id of the entry is that under which its folder was saved last
  obtain ⟨folder, hsave, -⟩ := (h.entries e he).saved
  have hkey : syncKeyFor? account e.serverId ws (.keySet id syncKey)
      = if e.id = id then some syncKey else none := by
    rw [syncKeyFor?, hsave, Option.map_some]
    simp only [Option.some.injEq]
  rw [FolderWrite.onEntry, hkey]
  by_cases hid : e.id = id
  · rw [if_pos hid, if_pos hid]
    rfl
  · rw [if_neg hid, if_neg hid]
    rfl

theorem Reflects.flagSet (h : Reflects account ws m) (folderClass : FolderClass)
    (enabled : Bool) :
    Reflects account (.flagSet account folderClass enabled :: ws)
      (m.setAutoSync folderClass enabled) := by
  refine h.onEntries nofun rfl (List.map_congr_left fun e he => ?_)
  -- the class of the entry is that with which its folder was saved last
  obtain ⟨folder, hsave, hclass⟩ := (h.entries e he).saved
  have hflag : autoSyncFor? account e.serverId ws (.flagSet account folderClass enabled)
      = if e.folderClass = folderClass then some enabled else none := by
    rw [autoSyncFor?, hsave, Option.map_some, hclass]
    simp only [Option.some.injEq, true_and]
  rw [FolderWrite.onEntry, hflag]
  by_cases hc : e.folderClass = folderClass
  · rw [if_pos hc, if_pos hc]
    rfl
  · rw [if_neg hc, if_neg hc]
    rfl

/-! ## What is watched -/

/-- A ping says of an entry what follows from the writes. -/
theorem Recorded.watch?_eq (h : Recorded account ws e) :
    watch? account ws e.serverId = if e.folder.isEligible then some e.folder.watched else none := by
  obtain ⟨id, serverId, folderClass, syncKey, autoSync⟩ := e
  obtain ⟨⟨folder, hsave, rfl⟩, hkey, hflag⟩ := h
  rw [watch?, hsave, hkey, hflag]
  cases syncKey with
  | none => rfl
  | some key =>
      cases autoSync with
      | false =>
          have hlazy : (key != initialSyncKey && false) = false := Bool.and_false _
          exact (if_neg (ne_true_of_eq_false hlazy)).symm
      | true =>
          by_cases hinitial : key = "0"
          · rw [hinitial]
            rfl
          · have hdone : (key != initialSyncKey && true) = true := by
              rw [Bool.and_true, bne_iff_ne]
              exact hinitial
            exact (if_neg hinitial).trans (if_pos hdone).symm

/-- The folders that a ping selects from a map are those that follow from the writes. -/
theorem Reflects.select_eq (h : Reflects account ws m) :
    Folder.select (m.entries.map FolderEntry.folder) = watched account ws := by
  rw [watched, ← h.serverIds, List.filterMap_map, Folder.select, List.filter_map, List.map_map,
    ← List.filterMap_eq_map, List.filterMap_filter]
  exact List.filterMap_congr fun e he => (h.entries e he).watch?_eq.symm

end FolderWrite

/-! ## Histories -/

namespace Repository

/-- What a step of a history has written to the folders; one that failed has written nothing. -/
def Step.write? (step : Step) : Option FolderWrite :=
  match step.op, step.answer.result with
  | .saveFolder account folder, .ok (.saved id) => some (.saved account folder id)
  | .setSyncKey id syncKey, .ok _ => some (.keySet id syncKey)
  | .setAutoSync account folderClass enabled, .ok _ => some (.flagSet account folderClass enabled)
  | .deleteAccount account, .ok _ => some (.deleted account)
  | _, _ => none

/-- What the operations of a history on a new repository have written to the folders, latest
first. -/
def writes (ops : List Op) : List FolderWrite := ((trace ops .empty).filterMap Step.write?).reverse

theorem writes_concat (ops : List Op) (op : Op) :
    writes (ops ++ [op])
      = (Step.write? ⟨op, op.perform (after ops .empty)⟩).toList ++ writes ops := by
  rw [writes, trace_concat, List.filterMap_append, List.reverse_append, writes]
  cases hw : Step.write? ⟨op, op.perform (after ops .empty)⟩ with
  | none => rw [List.filterMap_cons_none hw]; rfl
  | some w => rw [List.filterMap_cons_some hw]; rfl

variable {t t' : FolderTable} {account : AccountId} {ws : List FolderWrite}

theorem write?_of_saved {account : AccountId} {folder : NewFolder} {id : FolderId}
    (h : t.save? account folder = some (id, t')) (heartbeats : Rows Int64)
    (requests : RequestTable) :
    Step.write? ⟨.saveFolder account folder,
        (Op.saveFolder account folder).perform (ofTables heartbeats t requests)⟩
      = some (.saved account folder id) := by
  rw [Op.perform, saveFolder_ofTables, h]
  rfl

theorem write?_of_full {account : AccountId} {folder : NewFolder}
    (h : t.save? account folder = none) (heartbeats : Rows Int64) (requests : RequestTable) :
    Step.write? ⟨.saveFolder account folder,
        (Op.saveFolder account folder).perform (ofTables heartbeats t requests)⟩ = none := by
  rw [Op.perform, saveFolder_ofTables, h]
  rfl

/-- The rows of an account are those of a map that reflects writes. -/
def RowsReflect (t : FolderTable) (account : AccountId) (ws : List FolderWrite) : Prop :=
  ∃ m : FolderMap, t.rowsOf account = m.rows account ∧ FolderWrite.Reflects account ws m

/-- An account without rows starts with no writes. -/
theorem RowsReflect.of_rowsOf_eq_nil (h : t.rowsOf account = []) : RowsReflect t account [] :=
  ⟨.empty, h, FolderWrite.reflects_nil account⟩

theorem RowsReflect.save (h : RowsReflect t account ws) {owner : AccountId} {folder : NewFolder}
    {id : FolderId} (hsave : t.save? owner folder = some (id, t')) :
    RowsReflect t' account (.saved owner folder id :: ws) := by
  obtain ⟨m, hrows, hreflects⟩ := h
  by_cases howner : owner = account
  · subst howner
    obtain ⟨n, -, rfl, hsaved⟩ := FolderTable.rowsOf_save?_self hsave
    rw [hrows] at hsaved ⊢
    refine ⟨m.save ⟨n⟩ folder, hsaved.trans (FolderMap.rows_save owner m ⟨n⟩ folder).symm, ?_⟩
    have hid := FolderMap.mk_idOf?_rows owner m ⟨n⟩ folder.serverId
    rw [hid]
    exact hreflects.saved ⟨n⟩ folder
  · refine ⟨m, (FolderTable.rowsOf_save?_of_ne hsave howner).trans hrows, ?_⟩
    exact hreflects.other nofun (if_neg howner) (fun _ => if_neg fun h => howner h.1)
      fun _ => if_neg fun h => howner h.1

/-- **The rows of an account reflect the writes after every operation**, whether it succeeds or
not, and whatever the rows of the other accounts are. -/
theorem RowsReflect.step (h : RowsReflect t account ws) (op : Op) (heartbeats : Rows Int64)
    (requests : RequestTable) :
    RowsReflect (op.onFolders t) account
      ((Step.write? ⟨op, op.perform (ofTables heartbeats t requests)⟩).toList ++ ws) := by
  cases op with
  | saveFolder owner folder =>
      cases hsave : t.save? owner folder with
      | none =>
          -- no number is left, so the operation fails and the table stays as it is
          rw [write?_of_full hsave, Op.onFolders, hsave]
          exact h
      | some p =>
          obtain ⟨id, t'⟩ := p
          rw [write?_of_saved hsave, Op.onFolders, hsave]
          exact h.save hsave
  | setSyncKey id syncKey =>
      obtain ⟨m, hrows, hreflects⟩ := h
      refine ⟨_, ?_, hreflects.keySet id syncKey⟩
      rw [FolderMap.rows_setSyncKey, ← hrows]
      exact FolderTable.rowsOf_setSyncKey t id syncKey account
  | setAutoSync owner folderClass enabled =>
      obtain ⟨m, hrows, hreflects⟩ := h
      by_cases howner : owner = account
      · subst howner
        refine ⟨_, ?_, hreflects.flagSet folderClass enabled⟩
        rw [FolderMap.rows_setAutoSync, ← hrows]
        exact FolderTable.rowsOf_setAutoSync_self t owner folderClass enabled
      · refine ⟨m, (FolderTable.rowsOf_setAutoSync_of_ne t folderClass enabled howner).trans hrows,
          hreflects.other ?_ rfl (fun _ => rfl) fun _ => if_neg fun h => howner h.1⟩
        rintro ⟨⟩
  | deleteAccount owner =>
      obtain ⟨m, hrows, hreflects⟩ := h
      by_cases howner : owner = account
      · subst howner
        exact ⟨.empty, FolderTable.rowsOf_deleteAccount_self t owner, .deleted owner ws⟩
      · refine ⟨m, (FolderTable.rowsOf_deleteAccount_of_ne t howner).trans hrows,
          hreflects.other ?_ rfl (fun _ => rfl) fun _ => rfl⟩
        rintro ⟨⟩
        exact howner rfl
  | heartbeat | setHeartbeat | listFolders | recordRequest | request | pendingRequests
  | takePendingRequests => exact h

/-- The folders that are selected from the list of an account are those to be watched, each
once. -/
theorem RowsReflect.select (h : RowsReflect t account ws) :
    ∃ folders, t.list account = .ok folders ∧
      Folder.select folders = FolderWrite.watched account ws := by
  obtain ⟨m, hrows, hreflects⟩ := h
  exact ⟨_, FolderMap.list_eq hrows, hreflects.select_eq⟩

/-- **The folders of a history follow from what it has written.** -/
theorem reflects_after (ops : List Op) (account : AccountId) :
    RowsReflect (ops.foldl (fun t op => op.onFolders t) .empty) account (writes ops) := by
  induction ops using List.reverseRecOn with
  | nil => exact .of_rowsOf_eq_nil rfl
  | append_singleton ops op ih =>
      rw [List.foldl_append, writes_concat, show empty = ofTables .empty .empty .empty from rfl,
        after_ofTables]
      exact ih.step op _ _

end Repository

end MailPush
