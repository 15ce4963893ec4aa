import MailPush.Proofs.Store.FolderBook
import MailPush.Proofs.Store.Heartbeats
import MailPush.Proofs.Store.Queue

set_option autoImplicit false

/-! # What belongs to an account

All accounts share three tables, and an operation is addressed to one account (`Op.account?`) or,
when it sets a sync key, to one folder (`Op.target?`). It leaves the heartbeat, the folders and
the queue of every other account, as far as it does not name a folder of that account
(`Op.rowsOf_onFolders_of_ne` and its companions).

The number of a folder belongs to the account that has got it, whatever is done afterwards
(`FolderTable.Owns`): numbers are not given out again, and no row changes its account. So an
account that uses its own folders only does not meet those of another.
-/

namespace MailPush

/-! ## Numbers of folders -/

namespace FolderTable

variable {t t' : FolderTable} {account : AccountId} {folder : NewFolder} {id : FolderId}

/-- A number has been given out, and no account but this one has its row. -/
def Owns (t : FolderTable) (account : AccountId) (id : FolderId) : Prop :=
  id.number ≤ t.table.sequence ∧ ∀ e ∈ t.entries, e.1 = id.number → e.2.account = account

/-- A number has been given out, and the row that has it, if there is one, has an account and server
id with a property. -/
def Settled (t : FolderTable) (id : FolderId) (p : AccountId × String → Prop) : Prop :=
  id.number ≤ t.table.sequence ∧ ∀ e ∈ t.entries, e.1 = id.number → p e.2.key

/-- The number of a row belongs to the account of the row. -/
theorem owns_of_mem_rowsOf {e : Int64 × FolderRow} (h : e ∈ t.rowsOf account) :
    t.Owns account ⟨e.1⟩ := by
  obtain ⟨hmem, haccount⟩ := mem_rowsOf.1 h
  refine ⟨t.table.le_sequence e hmem, fun x hx hnumber => ?_⟩
  rw [row_eq hx hmem hnumber, haccount]

theorem Owns.ne_of_mem_rowsOf {other : AccountId} (h : t.Owns account id) (hne : account ≠ other) :
    ∀ e ∈ t.rowsOf other, e.1 ≠ id.number := by
  intro e he hnumber
  obtain ⟨hmem, haccount⟩ := mem_rowsOf.1 he
  exact hne ((h.2 e hmem hnumber).symm.trans haccount)

/-- A row whose number was given out before stands for the same account and server id as then. -/
def Inherits (t t' : FolderTable) : Prop :=
  t.table.sequence ≤ t'.table.sequence ∧ ∀ e ∈ t'.entries, e.1 ≤ t.table.sequence →
    ∃ row, (e.1, row) ∈ t.entries ∧ row.key = e.2.key

theorem Inherits.refl (t : FolderTable) : t.Inherits t :=
  ⟨Int64.le_refl _, fun e he _ => ⟨e.2, he, rfl⟩⟩

theorem Inherits.trans {t'' : FolderTable} (h : t.Inherits t') (h' : t'.Inherits t'') :
    t.Inherits t'' := by
  refine ⟨Int64.le_trans h.1 h'.1, fun e he hle => ?_⟩
  obtain ⟨row', hrow', hkey'⟩ := h'.2 e he (Int64.le_trans hle h.1)
  obtain ⟨row, hrow, hkey⟩ := h.2 _ hrow' hle
  exact ⟨row, hrow, hkey.trans hkey'⟩

theorem Inherits.settled {p : AccountId × String → Prop} (h : t.Inherits t')
    (hsettled : t.Settled id p) : t'.Settled id p := by
  refine ⟨Int64.le_trans hsettled.1 h.1, fun e he hnumber => ?_⟩
  obtain ⟨row, hrow, hkey⟩ := h.2 e he (hnumber ▸ hsettled.1)
  exact hkey ▸ hsettled.2 _ hrow hnumber

theorem Inherits.owns (h : t.Inherits t') (howns : t.Owns account id) : t'.Owns account id :=
  h.settled (p := fun key => key.1 = account) howns

theorem inherits_update (t : FolderTable) (f : Int64 → FolderRow → FolderRow)
    (h : ∀ id row, (f id row).key = row.key) : t.Inherits (t.update f h) := by
  refine ⟨Int64.le_refl _, fun e he _ => ?_⟩
  obtain ⟨x, hx, rfl⟩ := List.mem_map.1 he
  exact ⟨x.2, hx, (h x.1 x.2).symm⟩

theorem inherits_save? (h : t.save? account folder = some (id, t')) : t.Inherits t' := by
  obtain ⟨n, hn, hsequence, hentries⟩ := of_save? h
  have hlt : t.table.sequence < n := Table.sequence_lt_nextId hn
  refine ⟨hsequence ▸ Int64.le_of_lt hlt, fun e he hle => ?_⟩
  rcases hentries with ⟨-, -, hentries⟩ | ⟨known, hknown, -, hentries⟩
  · rw [hentries, List.mem_append, List.mem_singleton] at he
    rcases he with he | rfl
    · exact ⟨e.2, he, rfl⟩
    · exact absurd (Int64.lt_of_lt_of_le hlt hle) Int64.lt_irrefl
  · rw [hentries, List.mem_map] at he
    obtain ⟨x, hx, rfl⟩ := he
    refine ⟨x.2, hx, ?_⟩
    dsimp only
    split <;> rfl

/-- **Numbers keep their meaning**: whatever an operation does, the rows that it leaves under the
numbers given out before stand for the same account and server id. -/
theorem inherits_onFolders (op : Repository.Op) (t : FolderTable) :
    t.Inherits (op.onFolders t) := by
  cases op with
  | saveFolder account folder =>
      rw [Repository.Op.onFolders]
      cases hsave : t.save? account folder with
      | none => exact .refl t
      | some new => exact inherits_save? hsave
  | setSyncKey id syncKey =>
      show t.Inherits (t.setSyncKey id syncKey)
      rw [setSyncKey]
      exact inherits_update t _ _
  | setAutoSync account folderClass enabled =>
      show t.Inherits (t.setAutoSync account folderClass enabled)
      rw [setAutoSync]
      exact inherits_update t _ _
  | deleteAccount account =>
      exact ⟨Int64.le_refl _, fun e he _ => ⟨e.2, (List.mem_filter.1 he).1, rfl⟩⟩
  | heartbeat | setHeartbeat | listFolders | recordRequest | request | pendingRequests
  | takePendingRequests => exact .refl t

end FolderTable

namespace Repository.Op

variable {op : Op} {account : AccountId}

/-! ## Addresses -/

/-- The account to which an operation is addressed. Setting a sync key is addressed to a folder
alone. -/
def account? : Op → Option AccountId
  | heartbeat account | setHeartbeat account _ | saveFolder account _ | setAutoSync account _ _
  | listFolders account | recordRequest account _ | request account _ | pendingRequests account
  | takePendingRequests account | deleteAccount account => some account
  | setSyncKey _ _ => none

/-- The folder to which an operation is addressed. -/
def target? : Op → Option FolderId
  | setSyncKey id _ => some id
  | _ => none

theorem get?_onHeartbeats_of_ne (h : op.account? ≠ some account) (rows : Rows Int64) :
    (op.onHeartbeats rows).get? account.number = rows.get? account.number := by
  cases op with
  | setHeartbeat other secs =>
      have hne : account.number ≠ other.number := fun heq =>
        h (congrArg some (AccountId.number_inj.1 heq.symm))
      rw [onHeartbeats]
      cases storedOfHeartbeat secs with
      | ok stored => exact Rows.get?_put_of_ne rows stored hne
      | error e => rfl
  | deleteAccount other =>
      have hne : (account.number != other.number) = true := bne_iff_ne.2 fun heq =>
        h (congrArg some (AccountId.number_inj.1 heq.symm))
      exact (Rows.get?_keep rows (· != other.number) account.number).trans (if_pos hne)
  | heartbeat | saveFolder | setSyncKey | setAutoSync | listFolders | recordRequest | request
  | pendingRequests | takePendingRequests => rfl

theorem rowsOf_onFolders_of_ne {t : FolderTable} (h : op.account? ≠ some account)
    (htarget : ∀ id ∈ op.target?, ∀ e ∈ t.rowsOf account, e.1 ≠ id.number) :
    (op.onFolders t).rowsOf account = t.rowsOf account := by
  cases op with
  | saveFolder other folder =>
      have hne : other ≠ account := fun heq => h (congrArg some heq)
      rw [onFolders]
      cases hsave : t.save? other folder with
      | none => rfl
      | some new => exact FolderTable.rowsOf_save?_of_ne hsave hne
  | setSyncKey id syncKey =>
      exact FolderTable.rowsOf_setSyncKey_of_ne syncKey (htarget id rfl)
  | setAutoSync other folderClass enabled =>
      have hne : other ≠ account := fun heq => h (congrArg some heq)
      exact FolderTable.rowsOf_setAutoSync_of_ne t folderClass enabled hne
  | deleteAccount other =>
      have hne : other ≠ account := fun heq => h (congrArg some heq)
      exact FolderTable.rowsOf_deleteAccount_of_ne t hne
  | heartbeat | setHeartbeat | listFolders | recordRequest | request | pendingRequests
  | takePendingRequests => rfl

theorem pending_onRequests_of_ne {t : RequestTable} (h : op.account? ≠ some account) :
    RequestTable.pending (op.onRequests t) account = RequestTable.pending t account := by
  cases op with
  | recordRequest other kind | request other kind =>
      have hne : other ≠ account := fun heq => h (congrArg some heq)
      rw [onRequests]
      cases hinsert : t.insert? (RequestRow.ofKind other kind) with
      | none => rfl
      | some new =>
          refine (RequestTable.pending_insert? hinsert
            (RequestRow.stands_ofKind other kind)).trans ?_
          rw [if_neg hne, List.append_nil]
  | takePendingRequests other =>
      have hne : other ≠ account := fun heq => h (congrArg some heq)
      exact RequestTable.pending_removePending_of_ne hne
  | deleteAccount other =>
      have hne : other ≠ account := fun heq => h (congrArg some heq)
      exact RequestTable.pending_deleteAccount_of_ne hne
  | heartbeat | setHeartbeat | saveFolder | setSyncKey | setAutoSync | listFolders
  | pendingRequests => rfl

/-! ## What an operation depends on

What an operation does to what is stored of an account depends on that, and on the number that is
next, whatever is stored of the others. -/

section Dependence

variable {t t' : FolderTable}

theorem get?_onHeartbeats_congr (op : Op) {rows rows' : Rows Int64}
    (h : rows'.get? account.number = rows.get? account.number) :
    (op.onHeartbeats rows').get? account.number = (op.onHeartbeats rows).get? account.number := by
  by_cases hop : op.account? = some account
  · cases op with
    | setHeartbeat owner secs =>
        cases hop
        rw [onHeartbeats, onHeartbeats]
        cases storedOfHeartbeat secs with
        | ok n => exact (Rows.get?_put_self _ _ _).trans (Rows.get?_put_self _ _ _).symm
        | error e => exact h
    | deleteAccount owner =>
        have hkeep := fun rows : Rows Int64 =>
          Rows.get?_keep rows (· != owner.number) account.number
        exact (hkeep rows').trans (h ▸ (hkeep rows).symm)
    | heartbeat | saveFolder | setSyncKey | setAutoSync | listFolders | recordRequest | request
    | pendingRequests | takePendingRequests => exact h
  · rw [get?_onHeartbeats_of_ne hop, get?_onHeartbeats_of_ne hop, h]

theorem sequence_saveFolder (owner : AccountId) (folder : NewFolder) (t : FolderTable) :
    ((saveFolder owner folder).onFolders t).table.sequence =
      t.table.nextId?.getD t.table.sequence := by
  rw [onFolders]
  cases hsave : t.save? owner folder with
  | none =>
      rw [FolderTable.save?_eq_none_iff.1 hsave]
      rfl
  | some saved =>
      obtain ⟨n, hn, hsequence, -⟩ := FolderTable.of_save? hsave
      rw [hn]
      exact hsequence

theorem rowsOf_saveFolder_self (owner : AccountId) (folder : NewFolder) (t : FolderTable) :
    ((saveFolder owner folder).onFolders t).rowsOf owner =
      t.table.nextId?.elim (t.rowsOf owner) fun n =>
        FolderTable.saveRow n (.ofNew owner folder) (t.rowsOf owner) := by
  rw [onFolders]
  cases hsave : t.save? owner folder with
  | none =>
      rw [FolderTable.save?_eq_none_iff.1 hsave]
      rfl
  | some saved =>
      obtain ⟨n, hn, -, hrows⟩ := FolderTable.rowsOf_save?_self hsave
      rw [hn]
      exact hrows

theorem result_saveFolder (owner : AccountId) (folder : NewFolder) (heartbeats : Rows Int64)
    (t : FolderTable) (requests : RequestTable) :
    ((saveFolder owner folder).perform (ofTables heartbeats t requests)).result =
      t.table.nextId?.elim (.error (.storage (.store (.database .full)))) fun n =>
        .ok (.saved ⟨(FolderTable.idOf? (t.rowsOf owner) folder.serverId).getD n⟩) := by
  rw [perform, saveFolder_ofTables]
  cases hsave : t.save? owner folder with
  | none =>
      rw [FolderTable.save?_eq_none_iff.1 hsave]
      rfl
  | some saved =>
      obtain ⟨n, hn, hid, -⟩ := FolderTable.rowsOf_save?_self hsave
      rw [hn]
      exact congrArg (fun id => Except.ok (Value.saved id)) hid

theorem rowsOf_saveFolder_of_ne {owner : AccountId} (h : owner ≠ account) (folder : NewFolder)
    (t : FolderTable) :
    ((saveFolder owner folder).onFolders t).rowsOf account = t.rowsOf account :=
  rowsOf_onFolders_of_ne (fun heq => h (Option.some.inj heq)) nofun

theorem sequence_onFolders_congr (op : Op) (h : t'.table.sequence = t.table.sequence) :
    (op.onFolders t').table.sequence = (op.onFolders t).table.sequence := by
  cases op with
  | saveFolder owner folder =>
      rw [sequence_saveFolder, sequence_saveFolder, Table.nextId?_congr h, h]
  | setSyncKey | setAutoSync | deleteAccount | heartbeat | setHeartbeat | listFolders
  | recordRequest | request | pendingRequests | takePendingRequests => exact h

/-- What an operation does to the rows of an account depends on these and on the next number. -/
theorem rowsOf_onFolders_congr (op : Op) (hsequence : t'.table.sequence = t.table.sequence)
    (h : t'.rowsOf account = t.rowsOf account) :
    (op.onFolders t').rowsOf account = (op.onFolders t).rowsOf account := by
  cases op with
  | saveFolder owner folder =>
      by_cases howner : owner = account
      · subst howner
        rw [rowsOf_saveFolder_self, rowsOf_saveFolder_self, Table.nextId?_congr hsequence, h]
      · rw [rowsOf_saveFolder_of_ne howner, rowsOf_saveFolder_of_ne howner, h]
  | setSyncKey id syncKey =>
      show (t'.setSyncKey id syncKey).rowsOf account = (t.setSyncKey id syncKey).rowsOf account
      rw [FolderTable.rowsOf_setSyncKey, FolderTable.rowsOf_setSyncKey, h]
  | setAutoSync owner folderClass enabled =>
      show (t'.setAutoSync owner folderClass enabled).rowsOf account =
        (t.setAutoSync owner folderClass enabled).rowsOf account
      by_cases howner : owner = account
      · subst howner
        rw [FolderTable.rowsOf_setAutoSync_self, FolderTable.rowsOf_setAutoSync_self, h]
      · rw [FolderTable.rowsOf_setAutoSync_of_ne _ _ _ howner,
          FolderTable.rowsOf_setAutoSync_of_ne _ _ _ howner, h]
  | deleteAccount owner =>
      show (t'.deleteAccount owner).rowsOf account = (t.deleteAccount owner).rowsOf account
      by_cases howner : owner = account
      · subst howner
        rw [FolderTable.rowsOf_deleteAccount_self, FolderTable.rowsOf_deleteAccount_self]
      · rw [FolderTable.rowsOf_deleteAccount_of_ne _ howner,
          FolderTable.rowsOf_deleteAccount_of_ne _ howner, h]
  | heartbeat | setHeartbeat | listFolders | recordRequest | request | pendingRequests
  | takePendingRequests => exact h

end Dependence

/-! ## Numbers left -/

/-- Saving a folder takes one of the numbers that are left. -/
theorem left_onFolders (op : Op) (t : FolderTable) :
    (op.onFolders t).table.left = t.table.left - if op.Saves then 1 else 0 := by
  cases op with
  | saveFolder account folder =>
      rw [onFolders]
      cases hsave : t.save? account folder with
      | none =>
          rw [FolderTable.save?_eq_none_iff] at hsave
          show t.table.left = t.table.left - 1
          cases hleft : t.table.left with
          | zero => rfl
          | succ n =>
              have hpos : 0 < t.table.left := by omega
              obtain ⟨id, hid⟩ := Table.nextId?_of_room (Table.room_of_left_pos hpos)
              rw [hid] at hsave
              cases hsave
      | some new =>
          have hsequence := FolderTable.sequence_save? hsave
          show new.2.table.left = t.table.left - 1
          rw [Table.left, Table.left, hsequence]
          omega
  | setSyncKey | setAutoSync | deleteAccount | heartbeat | setHeartbeat | listFolders
  | recordRequest | request | pendingRequests | takePendingRequests => rfl

/-- Recording a request takes one of the numbers that are left. -/
theorem left_onRequests (op : Op) (t : RequestTable) :
    (op.onRequests t).left = t.left - if op.Records then 1 else 0 := by
  cases op with
  | recordRequest account kind | request account kind =>
      rw [onRequests]
      cases hleft : t.left with
      | zero =>
          rw [Table.insert?_of_left_eq_zero _ hleft]
          exact hleft
      | succ n =>
          obtain ⟨id, t', hinsert, hleft'⟩ :=
            Table.insert?_of_left (RequestRow.ofKind account kind) hleft
          rw [hinsert]
          exact hleft'
  | heartbeat | setHeartbeat | saveFolder | setSyncKey | setAutoSync | listFolders
  | pendingRequests | takePendingRequests | deleteAccount => rfl

end Repository.Op

end MailPush
