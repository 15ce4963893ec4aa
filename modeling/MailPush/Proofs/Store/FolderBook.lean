import Mathlib.Data.List.Induction
import MailPush.Proofs.Store.FolderRows
import MailPush.Proofs.Store.Operations

set_option autoImplicit false

/-! # The folder table as a map for each account

What the folder table is for: each account has a map from server ids to folders, in the order of
their registration (`FolderMap`). Saving a folder updates it in its place or appends it with a
number that was never used; a sync key is set by number, a flag by class, and deleting an account
empties its map. A book (`FolderBook`) has the maps of all accounts and counts the numbers taken.

The one table with the rows of all accounts models the book (`FolderBook.Models`), every operation
preserves this (`FolderBook.Models.onFolders`), and so after every history the folders listed for
an account are those of its map (`folders_of_history`).
-/

namespace MailPush

theorem FolderId.number_inj {i j : FolderId} : i.number = j.number ↔ i = j := by
  cases i
  cases j
  exact FolderId.mk.injEq _ _ ▸ Iff.rfl

/-- A folder in the map of its account. -/
structure FolderEntry where
  id : FolderId
  serverId : String
  folderClass : FolderClass
  syncKey : Option String
  autoSync : Bool
deriving DecidableEq

namespace FolderEntry

/-- The entry of a new folder. -/
def ofNew (id : FolderId) (folder : NewFolder) : FolderEntry :=
  ⟨id, folder.serverId, folder.folderClass, folder.syncKey, folder.autoSync⟩

/-- The entry under which a folder is saved again: all that it keeps is its id and server id. -/
def renew (e : FolderEntry) (folder : NewFolder) : FolderEntry :=
  { e with
    folderClass := folder.folderClass
    syncKey := folder.syncKey
    autoSync := folder.autoSync }

/-- What is listed of an entry. -/
def folder (e : FolderEntry) : Folder :=
  ⟨e.id, e.serverId, e.folderClass, syncKeyCompleted e.syncKey, e.autoSync⟩

/-- The row of an entry. -/
def row (account : AccountId) (e : FolderEntry) : Int64 × FolderRow :=
  (e.id.number, ⟨account, e.serverId, e.folderClass.name, e.syncKey, FolderRow.flag e.autoSync⟩)

/-- The first synchronisation has completed when there is a sync key, and it is not the initial
one. -/
theorem hasCompletedInitialSync_iff {e : FolderEntry} :
    e.folder.hasCompletedInitialSync = true ↔ ∃ key, e.syncKey = some key ∧ key ≠ "0" := by
  show syncKeyCompleted e.syncKey = true ↔ _
  cases e.syncKey with
  | none => exact ⟨fun h => (nomatch h), fun ⟨_, h, _⟩ => (nomatch h)⟩
  | some key =>
      show (key != initialSyncKey) = true ↔ _
      rw [bne_iff_ne]
      exact ⟨fun h => ⟨key, rfl, h⟩, fun ⟨_, hkey, h⟩ => Option.some.inj hkey ▸ h⟩

theorem folder_row (account : AccountId) (e : FolderEntry) :
    (e.row account).2.folder (e.row account).1 = .ok e.folder := by
  rw [FolderRow.folder_eq_ok_iff]
  refine ⟨rfl, ?_⟩
  show e.folder = ⟨e.id, e.serverId, e.folderClass, _, FolderRow.flag e.autoSync != 0⟩
  have hflag : (FolderRow.flag e.autoSync != 0) = e.autoSync := by
    cases e.autoSync <;> decide
  rw [hflag]
  rfl

end FolderEntry

/-- The folders of one account in the order of their registration, at most one for a server
id. -/
structure FolderMap where
  entries : List FolderEntry
  distinct : entries.Pairwise fun a b => a.serverId ≠ b.serverId

namespace FolderMap

def empty : FolderMap := ⟨[], .nil⟩

/-- The entry of a server id. -/
def find? (m : FolderMap) (serverId : String) : Option FolderEntry :=
  m.entries.find? fun e => e.serverId == serverId

/-- The map with every entry changed, each under the same server id. -/
def update (m : FolderMap) (f : FolderEntry → FolderEntry)
    (h : ∀ e, (f e).serverId = e.serverId) : FolderMap :=
  ⟨m.entries.map f, List.pairwise_map.2 (m.distinct.imp fun {a b} hne => by
    rw [h, h]
    exact hne)⟩

/-- The map with an entry for a server id that has none. -/
def append (m : FolderMap) (e : FolderEntry) (h : m.find? e.serverId = none) : FolderMap :=
  ⟨m.entries ++ [e], List.pairwise_append.2 ⟨m.distinct, List.pairwise_singleton _ _, by
    intro a ha b hb
    rw [List.mem_singleton.1 hb]
    simpa using List.find?_eq_none.1 h a ha⟩⟩

/-- The map after a folder has been saved: updated in its place, or with a new entry at the end,
whose id is the given one. -/
def save (m : FolderMap) (fresh : FolderId) (folder : NewFolder) : FolderMap :=
  match h : m.find? folder.serverId with
  | some _ =>
    m.update (fun e => if e.serverId = folder.serverId then e.renew folder else e) (by
      intro e
      split <;> rfl)
  | none => m.append (.ofNew fresh folder) h

/-- The id under which a folder is saved: that of its server id, or the given one if it has
none. -/
def idFor (m : FolderMap) (fresh : FolderId) (serverId : String) : FolderId :=
  ((m.find? serverId).map (·.id)).getD fresh

/-- The map with the sync key of the entry with an id, if there is one. -/
def setSyncKey (m : FolderMap) (id : FolderId) (syncKey : Option String) : FolderMap :=
  m.update (fun e => if e.id = id then { e with syncKey := syncKey } else e) (by
    intro e
    split <;> rfl)

/-- The map with the flag of every entry that has a class now. -/
def setAutoSync (m : FolderMap) (folderClass : FolderClass) (enabled : Bool) : FolderMap :=
  m.update (fun e => if e.folderClass = folderClass then { e with autoSync := enabled } else e) (by
    intro e
    split <;> rfl)

/-- The rows of a map. -/
def rows (account : AccountId) (m : FolderMap) : List (Int64 × FolderRow) :=
  m.entries.map (FolderEntry.row account)

theorem mem_rows {account : AccountId} {m : FolderMap} {e : FolderEntry} (h : e ∈ m.entries) :
    e.row account ∈ m.rows account :=
  List.mem_map_of_mem h

theorem idOf?_rows (account : AccountId) (m : FolderMap) (serverId : String) :
    FolderTable.idOf? (m.rows account) serverId = (m.find? serverId).map (·.id.number) := by
  rw [FolderTable.idOf?, rows, List.find?_map, Option.map_map]
  rfl

/-- The id under which a folder is saved is that of its row, or the given one if it has none. -/
theorem mk_idOf?_rows (account : AccountId) (m : FolderMap) (fresh : FolderId)
    (serverId : String) :
    FolderId.mk ((FolderTable.idOf? (m.rows account) serverId).getD fresh.number)
      = m.idFor fresh serverId := by
  rw [idOf?_rows, idFor]
  cases m.find? serverId <;> rfl

/-- The folders listed for an account with the rows of a map are the entries of the map. -/
theorem list_eq {t : FolderTable} {account : AccountId} {m : FolderMap}
    (h : t.rowsOf account = m.rows account) :
    t.list account = .ok (m.entries.map FolderEntry.folder) := by
  rw [FolderTable.list, h, FolderMap.rows, List.mapM_map]
  induction m.entries with
  | nil => rfl
  | cons e es ih =>
      rw [List.mapM_cons, ih, Function.comp_apply, FolderEntry.folder_row]
      rfl

/-- Rows are updated one by one, as the entries are. -/
theorem rows_update {account : AccountId} {m : FolderMap} {f : FolderEntry → FolderEntry}
    {h : ∀ e, (f e).serverId = e.serverId} {g : Int64 × FolderRow → Int64 × FolderRow}
    (hfg : ∀ e, (f e).row account = g (e.row account)) :
    (m.update f h).rows account = (m.rows account).map g := by
  rw [rows, rows, update, List.map_map, List.map_map]
  exact List.map_congr_left fun e _ => hfg e

theorem rows_setSyncKey (account : AccountId) (m : FolderMap) (id : FolderId)
    (syncKey : Option String) :
    (m.setSyncKey id syncKey).rows account =
      (m.rows account).map fun e =>
        (e.1, if e.1 = id.number then { e.2 with syncKey := syncKey } else e.2) := by
  refine rows_update fun e => ?_
  show _ = (e.id.number, if e.id.number = id.number then _ else _)
  by_cases hid : e.id = id
  · rw [if_pos hid, if_pos (congrArg FolderId.number hid)]
    rfl
  · rw [if_neg hid, if_neg fun hnumber => hid (FolderId.number_inj.1 hnumber)]
    rfl

theorem rows_setAutoSync (account : AccountId) (m : FolderMap) (folderClass : FolderClass)
    (enabled : Bool) :
    (m.setAutoSync folderClass enabled).rows account =
      (m.rows account).map fun e =>
        (e.1, if e.2.className = folderClass.name then
            { e.2 with autoSync := FolderRow.flag enabled }
          else e.2) := by
  refine rows_update fun e => ?_
  show _ = (e.id.number, if e.folderClass.name = folderClass.name then _ else _)
  by_cases hclass : e.folderClass = folderClass
  · rw [if_pos hclass, if_pos (FolderClass.name_inj.2 hclass)]
    rfl
  · rw [if_neg hclass, if_neg fun hname => hclass (FolderClass.name_inj.1 hname)]
    rfl

theorem rows_save (account : AccountId) (m : FolderMap) (fresh : FolderId) (folder : NewFolder) :
    (m.save fresh folder).rows account =
      FolderTable.saveRow fresh.number (.ofNew account folder) (m.rows account) := by
  have hserver : (FolderRow.ofNew account folder).serverId = folder.serverId := rfl
  have hid := idOf?_rows account m folder.serverId
  rw [FolderTable.saveRow, hserver, save]
  split
  next e hknown =>
    rw [hknown] at hid
    rw [hid]
    apply rows_update
    intro e
    show _ = (e.id.number, if e.serverId = folder.serverId then _ else _)
    by_cases hs : e.serverId = folder.serverId
    · rw [if_pos hs, if_pos hs]
      show (e.id.number, FolderRow.mk account e.serverId _ _ _) = _
      rw [hs]
      rfl
    · rw [if_neg hs, if_neg hs]
      rfl
  next hnone =>
    rw [hnone] at hid
    rw [hid]
    exact List.map_append

end FolderMap

/-- The maps of all accounts, and how many numbers have been taken for folders. -/
structure FolderBook where
  folders : AccountId → FolderMap
  taken : Nat

namespace FolderBook

open Repository

/-- The book of a new repository. -/
def empty : FolderBook := ⟨fun _ => .empty, 0⟩

/-- The id of the next new folder. -/
def fresh (b : FolderBook) : FolderId := ⟨Int64.ofNat (b.taken + 1)⟩

/-- The book with another map for an account. -/
def put (b : FolderBook) (account : AccountId) (m : FolderMap) : FolderBook :=
  { b with folders := Function.update b.folders account m }

end FolderBook

namespace Repository

namespace Op

/-- An operation that takes a number for a folder. -/
def Saves : Op → Bool
  | saveFolder _ _ => true
  | _ => false

/-- An operation that writes to the folder table. -/
def WritesFolders : Op → Bool
  | saveFolder _ _ | setSyncKey _ _ | setAutoSync _ _ _ | deleteAccount _ => true
  | _ => false

/-- What an operation does to the book. -/
def onBook (op : Op) (b : FolderBook) : FolderBook :=
  match op with
  | saveFolder account folder =>
      { b.put account ((b.folders account).save b.fresh folder) with taken := b.taken + 1 }
  | setSyncKey id syncKey => { b with folders := fun a => (b.folders a).setSyncKey id syncKey }
  | setAutoSync account folderClass enabled =>
      b.put account ((b.folders account).setAutoSync folderClass enabled)
  | deleteAccount account => b.put account .empty
  | _ => b

/-- What an operation that writes to the folder table yields. -/
def bookValue (op : Op) (b : FolderBook) : Value :=
  match op with
  | saveFolder account folder => .saved ((b.folders account).idFor b.fresh folder.serverId)
  | _ => .done

end Op

end Repository

namespace FolderBook

open Repository

/-- The book after a list of operations on a new repository. -/
def after (ops : List Op) : FolderBook := ops.foldl (fun b op => op.onBook b) empty

/-! ## The table models the book -/

/-- A table has the rows of a book, and its sequence counts the numbers taken. -/
structure Models (t : FolderTable) (b : FolderBook) : Prop where
  rows : ∀ account, t.rowsOf account = (b.folders account).rows account
  sequence : t.table.sequence.toInt = b.taken

variable {t t' : FolderTable} {b b' : FolderBook} {account : AccountId}

theorem Models.mem_entries (h : Models t b) {e : FolderEntry}
    (he : e ∈ (b.folders account).entries) : e.row account ∈ t.entries := by
  have hmem : e.row account ∈ t.rowsOf account := h.rows account ▸ FolderMap.mem_rows he
  exact (FolderTable.mem_rowsOf.1 hmem).1

/-- A table that changes the rows of one account, as its map changes, models the book again. -/
theorem Models.put (h : Models t b) {m : FolderMap}
    (hself : t'.rowsOf account = m.rows account)
    (hother : ∀ other, account ≠ other → t'.rowsOf other = t.rowsOf other)
    (hsequence : t'.table.sequence.toInt = b'.taken)
    (hbook : b'.folders = Function.update b.folders account m) : Models t' b' where
  rows := by
    intro other
    rw [hbook]
    by_cases hne : account = other
    · rw [← hne, Function.update_self]
      exact hself
    · rw [Function.update_of_ne (Ne.symm hne), hother other hne]
      exact h.rows other
  sequence := hsequence

/-- The next number of the table is that of the book. -/
theorem Models.fresh_number (h : Models t b) {n : Int64} (hn : t.table.nextId? = some n) :
    b.fresh.number = n := by
  have hlt := n.toInt_lt
  have hnext := Table.toInt_nextId hn
  rw [h.sequence] at hnext
  have hfresh : (Int64.ofNat (b.taken + 1)).toInt = (b.taken + 1 : Nat) :=
    Int64.toInt_ofNat_of_lt (by omega)
  rw [← Int64.toInt_inj, hnext]
  show (Int64.ofNat (b.taken + 1)).toInt = (b.taken : Int) + 1
  rw [hfresh]
  omega

/-- A number that is taken next is above all numbers in the book. -/
theorem Models.lt_fresh (h : Models t b)
    (room : t.table.sequence.toInt < Int64.maxValue.toInt) {e : FolderEntry}
    (he : e ∈ (b.folders account).entries) : e.id.number < b.fresh.number := by
  obtain ⟨n, hn⟩ := Table.nextId?_of_room room
  rw [h.fresh_number hn]
  exact Table.lt_nextId hn (e.row account) (h.mem_entries he)

theorem Models.save (h : Models t b) {folder : NewFolder} {id : FolderId}
    (hsave : t.save? account folder = some (id, t')) :
    id = (b.folders account).idFor b.fresh folder.serverId ∧
      Models t' ((Op.saveFolder account folder).onBook b) := by
  obtain ⟨n, hn, rfl, hself⟩ := FolderTable.rowsOf_save?_self hsave
  have hfresh := h.fresh_number hn
  rw [h.rows account] at hself ⊢
  constructor
  · rw [← hfresh]
    exact FolderMap.mk_idOf?_rows account _ b.fresh folder.serverId
  · refine h.put (m := (b.folders account).save b.fresh folder) ?_ ?_ ?_ rfl
    · rw [hself, FolderMap.rows_save, hfresh]
    · intro other hne
      exact FolderTable.rowsOf_save?_of_ne hsave hne
    · rw [FolderTable.sequence_save? hsave, h.sequence]
      rfl

/-- **Every operation on the table is the one on the book**, as long as there are numbers. -/
theorem Models.onFolders (h : Models t b) (op : Op)
    (room : op.Saves → t.table.sequence.toInt < Int64.maxValue.toInt) :
    Models (op.onFolders t) (op.onBook b) := by
  cases op with
  | saveFolder account folder =>
      obtain ⟨id, t', hsave⟩ := FolderTable.save?_of_room account folder (room rfl)
      rw [Op.onFolders, hsave]
      exact (h.save hsave).2
  | setSyncKey id syncKey =>
      -- the number is looked for in the rows of every account
      refine ⟨fun account => ?_, h.sequence⟩
      refine (FolderTable.rowsOf_setSyncKey t id syncKey account).trans ?_
      rw [h.rows account]
      exact (FolderMap.rows_setSyncKey account _ id syncKey).symm
  | setAutoSync account folderClass enabled =>
      refine h.put (m := (b.folders account).setAutoSync folderClass enabled) ?_ ?_ h.sequence rfl
      · refine (FolderTable.rowsOf_setAutoSync_self t account folderClass enabled).trans ?_
        rw [h.rows account]
        exact (FolderMap.rows_setAutoSync account _ folderClass enabled).symm
      · intro other hne
        exact FolderTable.rowsOf_setAutoSync_of_ne t folderClass enabled hne
  | deleteAccount account =>
      refine h.put (m := .empty) (FolderTable.rowsOf_deleteAccount_self t account) ?_ h.sequence rfl
      intro other hne
      exact FolderTable.rowsOf_deleteAccount_of_ne t hne
  | heartbeat | setHeartbeat | listFolders | recordRequest | request | pendingRequests
  | takePendingRequests => exact h

/-! ## What the book says of the table -/

/-- The folders listed for an account are the entries of its map. -/
theorem Models.list (h : Models t b) (account : AccountId) :
    t.list account = .ok ((b.folders account).entries.map FolderEntry.folder) :=
  FolderMap.list_eq (h.rows account)

/-- Entries are in the order of their numbers. -/
theorem Models.ordered (h : Models t b) (account : AccountId) :
    (b.folders account).entries.Pairwise fun e f => e.id.number < f.id.number := by
  have hrows := FolderTable.rowsOf_ordered t account
  rw [h.rows account, FolderMap.rows, List.pairwise_map] at hrows
  exact hrows

/-- An id belongs to one entry of one account. -/
theorem Models.entry_eq (h : Models t b) {other : AccountId} {e f : FolderEntry}
    (he : e ∈ (b.folders account).entries) (hf : f ∈ (b.folders other).entries)
    (hid : e.id = f.id) : account = other ∧ e = f := by
  have hrow : e.row account = f.row other :=
    FolderTable.row_eq (h.mem_entries he) (h.mem_entries hf) (congrArg FolderId.number hid)
  have haccount : account = other := congrArg (fun row => row.2.account) hrow
  have hserver : e.serverId = f.serverId := congrArg (fun row => row.2.serverId) hrow
  refine ⟨haccount, ?_⟩
  have hnodup : ((b.folders account).entries.map (·.serverId)).Nodup :=
    List.pairwise_map.2 (b.folders account).distinct
  exact List.inj_on_of_nodup_map hnodup he (haccount ▸ hf) hserver

/-- An operation that writes to the table yields what the book says. -/
theorem Models.value (h : Models t b) {op : Op} (hop : op.WritesFolders)
    (room : op.Saves → t.table.sequence.toInt < Int64.maxValue.toInt)
    (heartbeats : Rows Int64) (requests : RequestTable) :
    (op.perform (ofTables heartbeats t requests)).result = .ok (op.bookValue b) := by
  cases op with
  | saveFolder account folder =>
      obtain ⟨id, t', hsave⟩ := FolderTable.save?_of_room account folder (room rfl)
      rw [Op.perform, saveFolder_ofTables, hsave, Op.bookValue, ← (h.save hsave).1]
      rfl
  | setSyncKey | setAutoSync | deleteAccount => rfl
  | heartbeat | setHeartbeat | listFolders | recordRequest | request | pendingRequests
  | takePendingRequests => cases hop

/-! ## Histories -/

/-- After a history on a new repository the table models the book, if there were numbers for all
folders that it saved. -/
theorem models_after {ops : List Op}
    (room : (ops.countP Op.Saves : Int) ≤ Int64.maxValue.toInt) :
    Models (ops.foldl (fun t op => op.onFolders t) .empty) (after ops) ∧
      (after ops).taken = ops.countP Op.Saves := by
  induction ops using List.reverseRecOn with
  | nil => exact ⟨⟨fun _ => rfl, rfl⟩, rfl⟩
  | append_singleton ops op ih =>
      rw [List.countP_append, List.countP_singleton] at room ⊢
      obtain ⟨hmodels, htaken⟩ := ih (by omega)
      -- the sequence counts the folders saved so far, so the last operation has a number left
      rw [after, List.foldl_append, List.foldl_append]
      refine ⟨hmodels.onFolders op fun hop => ?_, ?_⟩
      · rw [if_pos hop] at room
        rw [hmodels.sequence, htaken]
        omega
      · show (op.onBook (after ops)).taken = _
        rw [← htaken]
        cases op <;> rfl

end FolderBook

namespace Repository

/-- **The folder table is a map for each account.** After any history on a new repository, with
numbers for all folders that it saves:

* the folders listed for an account are the entries of its map, in the order of registration, and
  the initial synchronisation of one has completed when its sync key is there and is not "0";
* no two of them have the same server id, and an id belongs to one entry of one account;
* the next operation on the folders succeeds, and a folder is saved under the id of its server id
  or, if the account has none for it, under an id above all others. -/
theorem folders_of_history (ops : List Op)
    (room : (ops.countP Op.Saves : Int) ≤ Int64.maxValue.toInt) :
    let r := Repository.after ops .empty
    let book := FolderBook.after ops
    (∀ account,
      r.listFolders account = .ok ((book.folders account).entries.map FolderEntry.folder)) ∧
    (∀ account, ∀ e ∈ (book.folders account).entries,
      e.folder.hasCompletedInitialSync = true ↔ ∃ key, e.syncKey = some key ∧ key ≠ "0") ∧
    (∀ account list, r.listFolders account = .ok list →
      list.Pairwise (fun f g => f.serverId ≠ g.serverId) ∧
        list.Pairwise fun f g => f.id ≠ g.id) ∧
    (∀ account other, ∀ e ∈ (book.folders account).entries, ∀ f ∈ (book.folders other).entries,
      e.id = f.id → account = other ∧ e = f) ∧
    ∀ op : Op, op.WritesFolders →
      ((ops ++ [op]).countP Op.Saves : Int) ≤ Int64.maxValue.toInt →
      (op.perform r).result = .ok (op.bookValue book) ∧
        (op.Saves → ∀ account, ∀ e ∈ (book.folders account).entries,
          e.id.number < book.fresh.number) := by
  intro r book
  obtain ⟨hmodels, htaken⟩ := FolderBook.models_after room
  have hr : r = ofTables _ _ _ := after_ofTables ops
  have hlist : ∀ account,
      r.listFolders account = .ok ((book.folders account).entries.map FolderEntry.folder) := by
    intro account
    rw [hr]
    exact hmodels.list account
  refine ⟨hlist, fun _ e _ => FolderEntry.hasCompletedInitialSync_iff, ?_, ?_, ?_⟩
  · intro account list hok
    obtain rfl := Except.ok.inj ((hlist account).symm.trans hok)
    refine ⟨List.pairwise_map.2 (book.folders account).distinct, List.pairwise_map.2 ?_⟩
    refine (hmodels.ordered account).imp fun {e f} hlt heq => ?_
    rw [show e.id = f.id from heq] at hlt
    exact Int64.lt_irrefl hlt
  · intro account other e he f hf hid
    exact hmodels.entry_eq he hf hid
  · intro op hop hroom
    rw [List.countP_append, List.countP_singleton] at hroom
    have hsequence : op.Saves → (ops.foldl (fun t op => op.onFolders t)
        FolderTable.empty).table.sequence.toInt < Int64.maxValue.toInt := by
      intro hsaves
      rw [if_pos hsaves] at hroom
      rw [hmodels.sequence, htaken]
      omega
    refine ⟨?_, fun hsaves account e he => hmodels.lt_fresh (hsequence hsaves) he⟩
    rw [hr]
    exact hmodels.value hop hsequence _ _

/-- Two accounts with folders of one server id, a server id with a null character, a folder saved
again with another class, a flag set for a class that one folder no longer has, a sync key set
for an unknown id, and an account that registers a folder again after its deletion. -/
theorem folders_of_history_two_accounts :
    let ops : List Op := [.saveFolder ⟨1⟩ ⟨"inbox", .email, none, true⟩,
      .saveFolder ⟨2⟩ ⟨"inbox", .calendar, some "9", true⟩,
      .saveFolder ⟨1⟩ ⟨"\x00", .email, some "", true⟩,
      .saveFolder ⟨1⟩ ⟨"inbox", .tasks, some "0", true⟩, .setAutoSync ⟨1⟩ .email false,
      .setSyncKey ⟨1⟩ (some "7"), .setSyncKey ⟨99⟩ none, .deleteAccount ⟨2⟩,
      .saveFolder ⟨2⟩ ⟨"inbox", .calendar, none, false⟩]
    let r := Repository.after ops .empty
    (ops.countP Op.Saves : Int) ≤ Int64.maxValue.toInt ∧
      r.listFolders ⟨1⟩ = .ok [⟨⟨1⟩, "inbox", .tasks, true, true⟩,
        ⟨⟨3⟩, "\x00", .email, true, false⟩] ∧
      r.listFolders ⟨2⟩ = .ok [⟨⟨5⟩, "inbox", .calendar, false, false⟩] ∧
      ((Op.saveFolder ⟨1⟩ ⟨"\x00", .email, none, true⟩).perform r).result = .ok (.saved ⟨3⟩) := by
  intro ops r
  have room : (ops.countP Op.Saves : Int) ≤ Int64.maxValue.toInt := by decide
  obtain ⟨hlist, -, -, -, hnext⟩ := folders_of_history ops room
  refine ⟨room, ?_, ?_, ?_⟩
  · rw [hlist]
    decide
  · rw [hlist]
    decide
  · rw [(hnext (.saveFolder ⟨1⟩ ⟨"\x00", .email, none, true⟩) rfl (by decide)).1]
    decide

end Repository

end MailPush
