import Mathlib.Data.List.Forall2
import Mathlib.Data.List.Nodup
import MailPush.Proofs.Store.Tables
import MailPush.Store.Folders

set_option autoImplicit false

/-! # The folders of one account in the shared table

All accounts have their folders in one table. The rows of one account
(`FolderTable.rowsOf`) are the view of it through which the operations are described: what each
of them does to the rows of an account is a function of these rows alone, and for three of them
it is nothing when they are addressed to another account. Setting a sync key is addressed to a
row number; it does nothing to the accounts that do not have this row.

An account has at most one row for a server id, and a number is the number of one row at most,
so what is found by either is unique (`FolderTable.find?_eq_some_iff`, `FolderTable.row_eq`).
-/

namespace MailPush

namespace FolderRow

theorem folder_eq_ok_iff {row : FolderRow} {id : Int64} {folder : Folder} :
    row.folder id = .ok folder ↔
      row.className = folder.folderClass.name ∧
        folder = ⟨⟨id⟩, row.serverId, folder.folderClass, syncKeyCompleted row.syncKey,
          row.autoSync != 0⟩ := by
  unfold FolderRow.folder
  cases hclass : FolderClass.ofName? row.className with
  | none =>
      refine ⟨fun h => (nomatch h), fun h => ?_⟩
      rw [FolderClass.ofName?_eq_some_iff.2 h.1] at hclass
      cases hclass
  | some c =>
      have hname : row.className = c.name := FolderClass.ofName?_eq_some_iff.1 hclass
      constructor
      · intro h
        cases h
        exact ⟨hname, rfl⟩
      · rintro ⟨hfolder, heq⟩
        have hc : c = folder.folderClass := FolderClass.name_inj.1 (hname.symm.trans hfolder)
        rw [heq, hc]

/-- A row overwritten by one with its account and server id becomes that row. -/
theorem overwrite_eq {row new : FolderRow} (h : row.key = new.key) : row.overwrite new = new := by
  obtain ⟨haccount, hserver⟩ := Prod.mk.inj h
  rw [overwrite, haccount, hserver]

end FolderRow

namespace FolderTable

/-! ## Rows of one account -/

/-- The number of the row with a server id, among the rows of one account. -/
def idOf? (rows : List (Int64 × FolderRow)) (serverId : String) : Option Int64 :=
  (rows.find? fun e => e.2.serverId == serverId).map (·.1)

/-- The rows of an account with a row in place of the one that has its server id, or with the row
at the end, under the given number, if there is none. -/
def saveRow (id : Int64) (row : FolderRow) (rows : List (Int64 × FolderRow)) :
    List (Int64 × FolderRow) :=
  match idOf? rows row.serverId with
  | some _ => rows.map fun e => (e.1, if e.2.serverId = row.serverId then row else e.2)
  | none => rows ++ [(id, row)]

variable {t t' : FolderTable} {account : AccountId} {folder : NewFolder} {id : FolderId}

theorem mem_rowsOf {e : Int64 × FolderRow} :
    e ∈ t.rowsOf account ↔ e ∈ t.entries ∧ e.2.account = account := by
  rw [rowsOf, List.mem_filter, beq_iff_eq]

theorem rowsOf_ordered (t : FolderTable) (account : AccountId) :
    (t.rowsOf account).Pairwise fun a b => a.1 < b.1 :=
  t.table.rows.ordered.filter _

/-- A number is the number of one row at most. -/
theorem row_eq {a b : Int64 × FolderRow} (ha : a ∈ t.entries) (hb : b ∈ t.entries)
    (h : a.1 = b.1) : a = b := by
  have hnodup : (t.entries.map Prod.fst).Nodup :=
    List.pairwise_map.2 (t.table.rows.ordered.imp Int64.ne_of_lt)
  exact List.inj_on_of_nodup_map hnodup ha hb h

/-- What is found for an account and server id is the number of their row, which is the only
one. -/
theorem find?_eq_some_iff {key : AccountId × String} {n : Int64} :
    t.find? key = some n ↔ ∃ row, (n, row) ∈ t.entries ∧ row.key = key := by
  constructor
  · intro h
    obtain ⟨e, he, rfl⟩ := Option.map_eq_some_iff.1 h
    exact ⟨e.2, List.mem_of_find?_eq_some he, by simpa using List.find?_some he⟩
  · rintro ⟨row, hmem, rfl⟩
    have hnodup : (t.entries.map fun e => e.2.key).Nodup := List.pairwise_map.2 t.unique
    cases hfind : t.find? row.key with
    | none => exact absurd rfl (key_ne_of_find?_eq_none hfind _ hmem)
    | some m =>
        obtain ⟨e, he, rfl⟩ := Option.map_eq_some_iff.1 hfind
        have hkey : e.2.key = row.key := by simpa using List.find?_some he
        have heq : e = (n, row) :=
          List.inj_on_of_nodup_map hnodup (List.mem_of_find?_eq_some he) hmem hkey
        rw [heq]

/-- A change that leaves every account as it is can be made on the rows of one account. -/
theorem filter_account_map {g : Int64 × FolderRow → Int64 × FolderRow}
    (hg : ∀ e, (g e).2.account = e.2.account) (es : List (Int64 × FolderRow))
    (account : AccountId) :
    (es.map g).filter (fun e => e.2.account == account) =
      (es.filter fun e => e.2.account == account).map g := by
  rw [List.filter_map]
  congr 1
  apply List.filter_congr
  intro e _
  show ((g e).2.account == account) = _
  rw [hg]

/-- Among the rows of its account a server id is found as in the whole table. -/
theorem find?_eq_idOf? (t : FolderTable) (account : AccountId) (serverId : String) :
    t.find? (account, serverId) = idOf? (t.rowsOf account) serverId := by
  rw [find?, idOf?, rowsOf, List.find?_filter]
  congr 2
  funext e
  rw [Bool.eq_iff_iff]
  simp only [beq_iff_eq, decide_eq_true_eq]
  exact Prod.ext_iff

/-- The list of an account has one folder for each of its rows, which is that of the row. -/
theorem list_eq_ok_iff {folders : List Folder} :
    t.list account = .ok folders ↔
      List.Forall₂ (fun e f => e.2.folder e.1 = .ok f) (t.rowsOf account) folders := by
  rw [list]
  induction t.rowsOf account generalizing folders with
  | nil =>
      rw [List.forall₂_nil_left_iff]
      exact ⟨fun h => by cases h; rfl, fun h => by rw [h]; rfl⟩
  | cons e es ih =>
      rw [List.mapM_cons, List.forall₂_cons_left_iff]
      cases he : e.2.folder e.1 with
      | error failure => exact ⟨fun h => (nomatch h), fun ⟨_, _, h, _⟩ => (nomatch h)⟩
      | ok f =>
          cases hes : es.mapM (fun e => e.2.folder e.1) with
          | error failure =>
              refine ⟨fun h => (nomatch h), fun ⟨_, fs, _, hfs, _⟩ => ?_⟩
              rw [ih.2 hfs] at hes
              cases hes
          | ok fs =>
              constructor
              · intro h
                cases h
                exact ⟨f, fs, rfl, ih.1 hes, rfl⟩
              · rintro ⟨g, gs, hg, hgs, rfl⟩
                rw [ih.2 hgs] at hes
                cases hg
                cases hes
                rfl

/-- A listed folder is that of a row. -/
theorem exists_of_mem_list {folders : List Folder} (h : t.list account = .ok folders)
    {f : Folder} (hf : f ∈ folders) : ∃ e ∈ t.rowsOf account, e.2.folder e.1 = .ok f := by
  have hrows := list_eq_ok_iff.1 h
  generalize t.rowsOf account = rows at hrows
  clear h
  induction hrows with
  | nil => cases hf
  | cons hrow hrest ih =>
      rename_i e g rows' folders'
      rcases List.mem_cons.1 hf with rfl | hf
      · exact ⟨e, List.mem_cons_self, hrow⟩
      · obtain ⟨x, hx, hxf⟩ := ih hf
        exact ⟨x, List.mem_cons_of_mem _ hx, hxf⟩

/-! ## Operations -/

/-- What saving a folder does to the whole table. -/
theorem of_save? (h : t.save? account folder = some (id, t')) :
    ∃ n, t.table.nextId? = some n ∧ t'.table.sequence = n ∧
      ((t.find? (account, folder.serverId) = none ∧ id = ⟨n⟩ ∧
          t'.entries = t.entries ++ [(n, .ofNew account folder)]) ∨
        ∃ known, t.find? (account, folder.serverId) = some known ∧ id = ⟨known⟩ ∧
          t'.entries = t.entries.map fun e =>
            (e.1, if e.1 = known then e.2.overwrite (.ofNew account folder) else e.2)) := by
  rw [save?, Option.map_eq_some_iff] at h
  obtain ⟨n, hn, h⟩ := h
  have hraise : Table.raise t.table.sequence n = n := if_pos (Table.sequence_lt_nextId hn)
  have hlt : ∀ e ∈ t.entries, e.1 < n := Table.lt_nextId hn
  refine ⟨n, hn, ?_⟩
  -- the two cases of the definition: the server id is new, or it is known
  dsimp only at h
  split at h
  next hnone =>
    cases h
    exact ⟨hraise, .inl ⟨hnone, rfl, Rows.putEntry_of_lt hlt⟩⟩
  next known hknown =>
    cases h
    exact ⟨hraise, .inr ⟨known, hknown, rfl, rfl⟩⟩

theorem save?_eq_none_iff : t.save? account folder = none ↔ t.table.nextId? = none :=
  Option.map_eq_none_iff

/-- A folder can be saved as long as there are numbers. -/
theorem save?_of_room (account : AccountId) (folder : NewFolder)
    (h : t.table.sequence.toInt < Int64.maxValue.toInt) :
    ∃ id t', t.save? account folder = some (id, t') := by
  obtain ⟨n, hn⟩ := Table.nextId?_of_room h
  rw [save?, hn]
  exact ⟨_, _, rfl⟩

/-- Saving a folder takes one number of the sequence, also when its server id is known. -/
theorem sequence_save? (h : t.save? account folder = some (id, t')) :
    t'.table.sequence.toInt = t.table.sequence.toInt + 1 := by
  obtain ⟨n, hn, hsequence, -⟩ := of_save? h
  rw [hsequence, Table.toInt_nextId hn]

/-- **Saving a folder changes its row in place, or adds one at the end.** -/
theorem rowsOf_save?_self (h : t.save? account folder = some (id, t')) :
    ∃ n, t.table.nextId? = some n ∧
      id = ⟨(idOf? (t.rowsOf account) folder.serverId).getD n⟩ ∧
      t'.rowsOf account = saveRow n (.ofNew account folder) (t.rowsOf account) := by
  obtain ⟨n, hn, -, ⟨hnone, rfl, hentries⟩ | ⟨known, hknown, rfl, hentries⟩⟩ := of_save? h
  · rw [find?_eq_idOf?] at hnone
    refine ⟨n, hn, by rw [hnone]; rfl, ?_⟩
    have hnew : [(n, FolderRow.ofNew account folder)].filter (fun e => e.2.account == account) =
        [(n, FolderRow.ofNew account folder)] :=
      List.filter_cons_of_pos (by exact beq_self_eq_true account)
    have hserver : (FolderRow.ofNew account folder).serverId = folder.serverId := rfl
    rw [saveRow, hserver, hnone, rowsOf, hentries, List.filter_append, hnew]
    rfl
  · obtain ⟨row, hrow, hkey⟩ := find?_eq_some_iff.1 hknown
    rw [find?_eq_idOf?] at hknown
    refine ⟨n, hn, by rw [hknown]; rfl, ?_⟩
    have hserver : (FolderRow.ofNew account folder).serverId = folder.serverId := rfl
    rw [saveRow, hserver, hknown, rowsOf, hentries,
      filter_account_map (fun e => by dsimp only; split <;> rfl)]
    -- the row with the known number is that of the server id
    apply List.map_congr_left
    intro e he
    obtain ⟨hmem, haccount⟩ := mem_rowsOf.1 he
    by_cases hs : e.2.serverId = folder.serverId
    · have hsame : e.2.key = row.key := (Prod.ext haccount hs).trans hkey.symm
      have hnumber : e.1 = known := by
        have hfound := find?_eq_some_iff.2 ⟨e.2, hmem, rfl⟩
        rw [hsame, find?_eq_some_iff.2 ⟨row, hrow, rfl⟩] at hfound
        exact (Option.some.inj hfound).symm
      have hnew : e.2.key = (FolderRow.ofNew account folder).key := hsame.trans hkey
      rw [if_pos hnumber, if_pos hs, FolderRow.overwrite_eq hnew]
    · have hnumber : e.1 ≠ known := by
        intro heq
        have hrows : e = (known, row) := row_eq hmem hrow heq
        exact hs (hrows ▸ (Prod.mk.inj hkey).2)
      rw [if_neg hnumber, if_neg hs]

/-- Saving a folder changes no row of another account. -/
theorem rowsOf_save?_of_ne {other : AccountId} (h : t.save? account folder = some (id, t'))
    (hne : account ≠ other) : t'.rowsOf other = t.rowsOf other := by
  obtain ⟨n, -, -, ⟨-, -, hentries⟩ | ⟨known, hknown, -, hentries⟩⟩ := of_save? h
  · have hnew : [(n, FolderRow.ofNew account folder)].filter (fun e => e.2.account == other) = [] :=
      List.filter_cons_of_neg (by simpa [FolderRow.ofNew] using hne)
    rw [rowsOf, hentries, List.filter_append, hnew, List.append_nil]
    rfl
  · obtain ⟨row, hrow, hkey⟩ := find?_eq_some_iff.1 hknown
    rw [rowsOf, hentries, filter_account_map (fun e => by dsimp only; split <;> rfl)]
    refine (List.map_congr_left fun e he => ?_).trans (List.map_id _)
    obtain ⟨hmem, haccount⟩ := mem_rowsOf.1 he
    have hnumber : e.1 ≠ known := by
      intro heq
      have hrows : e = (known, row) := row_eq hmem hrow heq
      rw [hrows] at haccount
      exact hne ((Prod.mk.inj hkey).1.symm.trans haccount)
    rw [if_neg hnumber]
    rfl

/-- An update works on the rows of an account one by one. -/
theorem rowsOf_update (t : FolderTable) (f : Int64 → FolderRow → FolderRow)
    (h : ∀ id row, (f id row).key = row.key) (account : AccountId) :
    (t.update f h).rowsOf account = (t.rowsOf account).map fun e => (e.1, f e.1 e.2) :=
  filter_account_map (fun e => (Prod.mk.inj (h e.1 e.2)).1) t.entries account

/-- Setting the sync key of a number changes the row that has it. -/
theorem rowsOf_setSyncKey (t : FolderTable) (id : FolderId) (syncKey : Option String)
    (account : AccountId) :
    (t.setSyncKey id syncKey).rowsOf account =
      (t.rowsOf account).map fun e =>
        (e.1, if e.1 = id.number then { e.2 with syncKey := syncKey } else e.2) :=
  rowsOf_update t _ _ account

/-- Setting the sync key of a number that an account does not have changes none of its rows. -/
theorem rowsOf_setSyncKey_of_ne {id : FolderId} (syncKey : Option String)
    (h : ∀ e ∈ t.rowsOf account, e.1 ≠ id.number) :
    (t.setSyncKey id syncKey).rowsOf account = t.rowsOf account := by
  rw [rowsOf_setSyncKey]
  refine (List.map_congr_left fun e he => ?_).trans (List.map_id _)
  rw [if_neg (h e he)]
  rfl

/-- Setting the flag of a class changes the rows that have this class at the moment. -/
theorem rowsOf_setAutoSync_self (t : FolderTable) (account : AccountId)
    (folderClass : FolderClass) (enabled : Bool) :
    (t.setAutoSync account folderClass enabled).rowsOf account =
      (t.rowsOf account).map fun e =>
        (e.1, if e.2.className = folderClass.name then
            { e.2 with autoSync := FolderRow.flag enabled }
          else e.2) := by
  refine (rowsOf_update t _ _ account).trans (List.map_congr_left fun e he => ?_)
  simp only [(mem_rowsOf.1 he).2, true_and]

theorem rowsOf_setAutoSync_of_ne {other : AccountId} (t : FolderTable) (folderClass : FolderClass)
    (enabled : Bool) (hne : account ≠ other) :
    (t.setAutoSync account folderClass enabled).rowsOf other = t.rowsOf other := by
  refine (rowsOf_update t _ _ other).trans ?_
  refine (List.map_congr_left fun e he => ?_).trans (List.map_id _)
  have haccount : e.2.account ≠ account := fun heq => hne (heq.symm.trans (mem_rowsOf.1 he).2)
  rw [if_neg fun hrow => haccount hrow.1]
  rfl

theorem rowsOf_deleteAccount_self (t : FolderTable) (account : AccountId) :
    (t.deleteAccount account).rowsOf account = [] := by
  rw [List.eq_nil_iff_forall_not_mem]
  intro e he
  obtain ⟨hmem, haccount⟩ := mem_rowsOf.1 he
  have hkept : (e.2.account != account) = true := (List.mem_filter.1 hmem).2
  rw [haccount, bne_self_eq_false] at hkept
  cases hkept

theorem rowsOf_deleteAccount_of_ne {other : AccountId} (t : FolderTable) (hne : account ≠ other) :
    (t.deleteAccount account).rowsOf other = t.rowsOf other := by
  show (t.entries.filter _).filter _ = t.entries.filter _
  rw [List.filter_filter]
  apply List.filter_congr
  intro e _
  rw [Bool.eq_iff_iff, Bool.and_eq_true, beq_iff_eq, bne_iff_ne, and_iff_left_iff_imp]
  intro haccount heq
  exact hne (heq.symm.trans haccount)

end FolderTable

end MailPush
