import MailPush.Proofs.Ping.StatusTable
import MailPush.Proofs.Store.Owners
import MailPush.Proofs.Store.Watched
import MailPush.Proofs.Store.Pings

set_option autoImplicit false

/-! # Folder ids keep their meaning

An id that is returned when a folder is saved designates the account and server id of that folder
(`FolderWrite.Designates`), now and after any further history. Saving the folder again returns its
id, and a folder that is registered gets an id above all that were returned before, also when its
account was deleted in between (`folder_ids_of_history`).

What carries this is that the row which has a number keeps its account and server id for as long as
it is there, and that nothing brings the number back once the row is gone
(`FolderTable.Inherits.settled`).
-/

namespace MailPush

open FolderWrite

/-! ## What an id designates -/

namespace FolderWrite

/-- An id has been returned for a server id of an account. -/
def Designates (ws : List FolderWrite) (id : FolderId) (account : AccountId)
    (serverId : String) : Prop :=
  ∃ folder, saved account folder id ∈ ws ∧ folder.serverId = serverId

variable {account : AccountId} {serverId : String} {id : FolderId} {ws : List FolderWrite}

theorem mem_of_savedFor? {w : FolderWrite} {folder : NewFolder}
    (h : savedFor? account w = some (id, folder)) : w = saved account folder id := by
  cases w with
  | saved owner new number =>
      obtain ⟨rfl, heq⟩ := Option.ite_none_right_eq_some.1 h
      cases heq
      rfl
  | keySet | flagSet | deleted => cases h

/-- A server id is designated by the id under which it was saved last. -/
theorem designates_of_lastSave? {folder : NewFolder}
    (h : lastSave? account serverId ws = some (id, folder)) :
    Designates ws id account serverId := by
  refine ⟨folder, ?_, by simpa using List.find?_some h⟩
  obtain ⟨w, hw, hsaved⟩ := List.mem_filterMap.1 (List.mem_of_find?_eq_some h)
  rw [← mem_of_savedFor? hsaved]
  exact (List.takeWhile_sublist _).subset hw

end FolderWrite

/-! ## Numbers of rows -/

namespace FolderTable

variable {t t' : FolderTable} {account : AccountId} {folder : NewFolder} {id : FolderId}

/-- A saved folder has a row under the number that is returned. -/
theorem mem_save? (h : t.save? account folder = some (id, t')) :
    ∃ row, (id.number, row) ∈ t'.entries ∧ row.key = (account, folder.serverId) := by
  obtain ⟨n, -, -, ⟨-, rfl, hentries⟩ | ⟨known, hknown, rfl, hentries⟩⟩ := of_save? h
  · refine ⟨.ofNew account folder, ?_, rfl⟩
    rw [hentries]
    exact List.mem_append_right _ List.mem_cons_self
  · obtain ⟨row, hrow, hkey⟩ := find?_eq_some_iff.1 hknown
    refine ⟨row.overwrite (.ofNew account folder), ?_, hkey⟩
    rw [hentries]
    exact List.mem_map.2 ⟨_, hrow, by rw [if_pos rfl]⟩

theorem eq_of_table (h : t.table = t'.table) : t = t' := by
  cases t
  cases t'
  cases h
  rfl

/-- The number of a row has been given out for the account and server id of the row. -/
theorem settled_of_mem {row : FolderRow} (h : (id.number, row) ∈ t.entries) :
    t.Settled id fun key => key = row.key := by
  refine ⟨t.table.le_sequence (id.number, row) h, fun e he hnumber => ?_⟩
  rw [row_eq he h hnumber]

/-- Setting the sync key of a number that no row has changes nothing. -/
theorem setSyncKey_of_ne (syncKey : Option String) (h : ∀ e ∈ t.entries, e.1 ≠ id.number) :
    t.setSyncKey id syncKey = t := by
  refine eq_of_table (Table.eq_of_entries ?_ rfl)
  refine (List.map_congr_left fun e he => ?_).trans (List.map_id _)
  dsimp only
  rw [if_neg (h e he)]
  rfl

/-- Deleting an account retires the numbers of its rows. -/
theorem Settled.deleteAccount {p : AccountId × String → Prop} (h : t.Settled id p)
    (hp : ∀ key, p key → key.1 = account) :
    (t.deleteAccount account).Settled id fun _ => False := by
  refine ⟨h.1, fun e he hnumber => ?_⟩
  obtain ⟨hmem, hkept⟩ := List.mem_filter.1 he
  have hother : (e.2.account != account) = true := hkept
  have haccount : e.2.account = account := hp _ (h.2 e hmem hnumber)
  rw [haccount, bne_self_eq_false] at hother
  cases hother

end FolderTable

/-! ## Histories -/

namespace Repository

/-- The folder table after a list of operations on a new repository. -/
def foldersAfter (ops : List Op) : FolderTable := ops.foldl (fun t op => op.onFolders t) .empty

theorem after_empty (ops : List Op) :
    ∃ heartbeats requests, after ops .empty = ofTables heartbeats (foldersAfter ops) requests :=
  ⟨_, _, after_ofTables ops⟩

variable {ops : List Op} {op : Op} {account other : AccountId} {serverId name : String}
  {id : FolderId}

theorem foldersAfter_concat (ops : List Op) (op : Op) :
    foldersAfter (ops ++ [op]) = op.onFolders (foldersAfter ops) :=
  List.foldl_append

theorem inherits_after (ops later : List Op) :
    (foldersAfter ops).Inherits (foldersAfter (ops ++ later)) := by
  induction later using List.reverseRecOn with
  | nil =>
      rw [List.append_nil]
      exact .refl _
  | append_singleton later op ih =>
      rw [← List.append_assoc, foldersAfter_concat]
      exact ih.trans (FolderTable.inherits_onFolders op _)

/-- What an operation has written is written last. -/
theorem mem_writes_concat {w : FolderWrite} :
    w ∈ writes (ops ++ [op]) ↔
      Step.write? ⟨op, op.perform (after ops .empty)⟩ = some w ∨ w ∈ writes ops := by
  rw [writes_concat, List.mem_append, Option.mem_toList]

theorem mem_writes_append {w : FolderWrite} (h : w ∈ writes ops) (later : List Op) :
    w ∈ writes (ops ++ later) := by
  induction later using List.reverseRecOn with
  | nil => rwa [List.append_nil]
  | append_singleton later op ih =>
      rw [← List.append_assoc, mem_writes_concat]
      exact .inr ih

/-- Only saving a folder writes that it has been saved. -/
theorem of_write?_saved {folder : NewFolder}
    (h : Step.write? ⟨op, op.perform (after ops .empty)⟩ = some (.saved account folder id)) :
    ∃ t, (foldersAfter ops).save? account folder = some (id, t) ∧
      foldersAfter (ops ++ [op]) = t := by
  obtain ⟨heartbeats, requests, hafter⟩ := after_empty ops
  rw [hafter] at h
  rw [foldersAfter_concat]
  cases op with
  | saveFolder owner new =>
      cases hsave : (foldersAfter ops).save? owner new with
      | none =>
          rw [write?_of_full hsave] at h
          cases h
      | some saved =>
          rw [write?_of_saved hsave] at h
          cases h
          exact ⟨saved.2, hsave, by rw [Op.onFolders, hsave]⟩
  | setSyncKey | setAutoSync | deleteAccount | heartbeat | setHeartbeat | listFolders
  | recordRequest | request | pendingRequests | takePendingRequests => cases h

/-- An id that has just been returned is the number of a row with its account and server id. -/
theorem exists_row_of_saved {folder : NewFolder}
    (h : Step.write? ⟨op, op.perform (after ops .empty)⟩ = some (.saved account folder id)) :
    ∃ row, (id.number, row) ∈ (foldersAfter (ops ++ [op])).entries ∧
      row.key = (account, folder.serverId) := by
  obtain ⟨t, hsave, rfl⟩ := of_write?_saved h
  exact FolderTable.mem_save? hsave

/-- **The row of an id that was returned has the account and server id for which it was
returned**, for as long as it is there. -/
theorem settled_of_designates (h : Designates (writes ops) id account serverId) :
    (foldersAfter ops).Settled id fun key => key = (account, serverId) := by
  induction ops using List.reverseRecOn with
  | nil =>
      obtain ⟨folder, hmem, -⟩ := h
      cases hmem
  | append_singleton ops op ih =>
      obtain ⟨folder, hmem, rfl⟩ := h
      rcases mem_writes_concat.1 hmem with hnew | hold
      · obtain ⟨row, hrow, hkey⟩ := exists_row_of_saved hnew
        rw [← hkey]
        exact FolderTable.settled_of_mem hrow
      · exact (inherits_after ops [op]).settled (ih ⟨folder, hold, rfl⟩)

/-- **An id designates one server id of one account.** -/
theorem designates_unique (h : Designates (writes ops) id account serverId)
    (h' : Designates (writes ops) id other name) : (account, serverId) = (other, name) := by
  induction ops using List.reverseRecOn with
  | nil =>
      obtain ⟨folder, hmem, -⟩ := h
      cases hmem
  | append_singleton ops op ih =>
      have hsettled := settled_of_designates h
      have hsettled' := settled_of_designates h'
      -- an id returned just now has a row, which both designations describe
      have hnew : ∀ row, (id.number, row) ∈ (foldersAfter (ops ++ [op])).entries →
          (account, serverId) = (other, name) := fun row hrow =>
        (hsettled.2 _ hrow rfl).symm.trans (hsettled'.2 _ hrow rfl)
      obtain ⟨folder, hmem, rfl⟩ := h
      obtain ⟨folder', hmem', rfl⟩ := h'
      rcases mem_writes_concat.1 hmem with hsaved | hold
      · obtain ⟨row, hrow, -⟩ := exists_row_of_saved hsaved
        exact hnew row hrow
      · rcases mem_writes_concat.1 hmem' with hsaved' | hold'
        · obtain ⟨row, hrow, -⟩ := exists_row_of_saved hsaved'
          exact hnew row hrow
        · exact ih ⟨folder, hold, rfl⟩ ⟨folder', hold', rfl⟩

/-! ## What is saved, listed and asked for -/

/-- The row of a server id is that under which it was saved last. -/
theorem RowsReflect.find?_eq {t : FolderTable} {ws : List FolderWrite}
    (h : RowsReflect t account ws) (serverId : String) :
    t.find? (account, serverId) = (lastSave? account serverId ws).map (·.1.number) := by
  obtain ⟨m, hrows, hreflects⟩ := h
  rw [FolderTable.find?_eq_idOf?, hrows, FolderMap.idOf?_rows]
  cases hfind : m.find? serverId with
  | some e =>
      have hserver : e.serverId = serverId := by simpa using List.find?_some hfind
      obtain ⟨folder, hsave, -⟩ := (hreflects.entries e (List.mem_of_find?_eq_some hfind)).saved
      rw [← hserver, hsave]
      rfl
  | none =>
      cases hsave : lastSave? account serverId ws with
      | none => rfl
      | some save =>
          -- what is saved is registered, so the map has an entry for it
          have hmem := mem_registered_of_lastSave? hsave
          rw [← hreflects.serverIds] at hmem
          obtain ⟨e, he, hserver⟩ := List.mem_map.1 hmem
          rw [← hserver, FolderMap.find?_of_mem he] at hfind
          cases hfind

/-- A listed folder has the id that was returned for it. -/
theorem designates_of_mem_list {folders : List Folder}
    (h : (foldersAfter ops).list account = .ok folders) {f : Folder} (hf : f ∈ folders) :
    Designates (writes ops) f.id account f.serverId := by
  obtain ⟨m, hrows, hreflects⟩ := reflects_after ops account
  rw [foldersAfter, FolderMap.list_eq hrows] at h
  cases h
  obtain ⟨e, he, rfl⟩ := List.mem_map.1 hf
  obtain ⟨folder, hsave, -⟩ := (hreflects.entries e he).saved
  exact designates_of_lastSave? hsave

/-- A folder that a ping asks to be synchronised has the id that was returned for it. -/
theorem designates_of_effect {codec : Codec} {ping : Ping} {x : Exchange}
    {classification : Classification} {effects : List Effect} {folderClass : FolderClass}
    (h : (Ping.run (collaborators codec) ping x (after ops .empty)).result =
      .ok (.completed classification effects))
    (hmem : .syncFolder id serverId folderClass ∈ effects) :
    Designates (writes ops) id ping.account serverId := by
  obtain ⟨heartbeats, requests, hafter⟩ := after_empty ops
  rw [hafter] at h
  obtain ⟨list, response, hdecodes, -, rfl⟩ := Ping.decodes_of_completed h
  obtain ⟨_, _, hprep⟩ := hdecodes.prepared
  obtain ⟨folder, hfolder, rfl, rfl⟩ := exists_of_syncFolder_mem hmem
  exact designates_of_mem_list (list_of_folders hprep.folders_eq) hfolder

/-- A folder is saved under the id that was returned for it before, or, if it was not saved since
its account was deleted last, under an id above all that were returned. -/
theorem id_of_saved {folder : NewFolder}
    (h : ((Op.saveFolder account folder).perform (after ops .empty)).result = .ok (.saved id)) :
    (∀ save, lastSave? account folder.serverId (writes ops) = some save → id = save.1) ∧
      (lastSave? account folder.serverId (writes ops) = none →
        ∀ old other name, Designates (writes ops) old other name → old.number < id.number) := by
  have hwrite : Step.write? ⟨.saveFolder account folder,
      (Op.saveFolder account folder).perform (after ops .empty)⟩ =
        some (.saved account folder id) := by
    simp only [Step.write?, h]
  obtain ⟨t, hsave, -⟩ := of_write?_saved hwrite
  have hfind : (foldersAfter ops).find? (account, folder.serverId) = _ :=
    (reflects_after ops account).find?_eq folder.serverId
  obtain ⟨n, hn, -, ⟨hnone, rfl, -⟩ | ⟨known, hknown, rfl, -⟩⟩ := FolderTable.of_save? hsave
  · rw [hnone] at hfind
    have hunsaved := Option.map_eq_none_iff.1 hfind.symm
    constructor
    · intro save hsaved
      rw [hunsaved] at hsaved
      cases hsaved
    · intro _ old other name hold
      exact Int64.lt_of_le_of_lt (settled_of_designates hold).1 (Table.sequence_lt_nextId hn)
  · rw [hknown] at hfind
    obtain ⟨save, hsaved, rfl⟩ := Option.map_eq_some_iff.1 hfind.symm
    constructor
    · intro save' hsaved'
      rw [hsaved] at hsaved'
      cases hsaved'
      rfl
    · intro hunsaved
      rw [hsaved] at hunsaved
      cases hunsaved

/-- A folder is saved as long as there are numbers. -/
theorem exists_saved (account : AccountId) (folder : NewFolder)
    (room : (ops.countP Op.Saves : Int) < Int64.maxValue.toInt) :
    ∃ id, ((Op.saveFolder account folder).perform (after ops .empty)).result =
      .ok (.saved id) := by
  obtain ⟨hmodels, htaken⟩ := FolderBook.models_after (Int.le_of_lt room)
  rw [← htaken, ← hmodels.sequence] at room
  obtain ⟨heartbeats, requests, hafter⟩ := after_empty ops
  obtain ⟨id, t, hsave⟩ := FolderTable.save?_of_room account folder room
  refine ⟨id, ?_⟩
  rw [hafter, Op.perform, saveFolder_ofTables, foldersAfter, hsave]
  rfl

/-! ## Deleted accounts -/

/-- **The ids of an account that is deleted are retired**: no row has one of them again. -/
theorem retired_of_deleted (h : Designates (writes ops) id account serverId) {later : List Op}
    (hdeleted : .deleteAccount account ∈ later) :
    ∀ e ∈ (foldersAfter (ops ++ later)).entries, e.1 ≠ id.number := by
  obtain ⟨before, behind, rfl⟩ := List.append_of_mem hdeleted
  -- the row may have gone before, but it has gone by then, and the number is not given out again
  have hbefore := (inherits_after ops before).settled (settled_of_designates h)
  have hgone :
      (foldersAfter (ops ++ before ++ [.deleteAccount account])).Settled id fun _ => False := by
    rw [foldersAfter_concat]
    exact hbefore.deleteAccount fun key hkey => congrArg Prod.fst hkey
  have hlater := (inherits_after _ behind).settled hgone
  rw [List.append_assoc, List.append_assoc, List.singleton_append] at hlater
  exact hlater.2

/-- **A folder id never changes its meaning.** After any history on a new repository, in which an id
designates the account and the server id for which it was returned:

* as long as there are numbers a folder is saved, under the id that was returned when it was saved
  last, unless its account was deleted since; otherwise it is registered, under an id above all ids
  that were returned before, for any account;
* every id that is listed for an account, and every id in an effect of a ping of the account,
  designates this account and the server id that is listed, or stands in the effect;
* whatever is done later, an id that designates a server id of an account designates no other one;
* and when the account is deleted later, then no folder of any account has the id any more, so
  setting a sync key by it changes nothing. -/
theorem folder_ids_of_history (ops : List Op) :
    let r := after ops .empty
    let designates := Designates (writes ops)
    (∀ account folder,
      ((ops.countP Op.Saves : Int) < Int64.maxValue.toInt →
        ∃ id, ((Op.saveFolder account folder).perform r).result = .ok (.saved id)) ∧
      ∀ id, ((Op.saveFolder account folder).perform r).result = .ok (.saved id) →
        (∀ save, lastSave? account folder.serverId (writes ops) = some save → id = save.1) ∧
        (lastSave? account folder.serverId (writes ops) = none →
          ∀ old other name, designates old other name → old.number < id.number)) ∧
    (∀ account list, r.listFolders account = .ok list →
      ∀ f ∈ list, designates f.id account f.serverId) ∧
    (∀ codec ping x classification effects,
      (Ping.run (collaborators codec) ping x r).result = .ok (.completed classification effects) →
      ∀ id serverId folderClass, .syncFolder id serverId folderClass ∈ effects →
        designates id ping.account serverId) ∧
    ∀ id account serverId, designates id account serverId → ∀ later : List Op,
      let r' := after (ops ++ later) .empty
      (∀ other name, Designates (writes (ops ++ later)) id other name ↔
        other = account ∧ name = serverId) ∧
      (.deleteAccount account ∈ later →
        (∀ other list, r'.listFolders other = .ok list → ∀ f ∈ list, f.id ≠ id) ∧
        ∀ syncKey, ((Op.setSyncKey id syncKey).perform r').world = r') := by
  intro r designates
  obtain ⟨heartbeats, requests, hr⟩ : ∃ heartbeats requests, r = _ := after_empty ops
  refine ⟨fun account folder => ⟨exists_saved account folder, fun id hsaved => id_of_saved hsaved⟩,
    ?_, fun _ _ _ _ _ hrun _ _ _ hmem => designates_of_effect hrun hmem, ?_⟩
  · intro account list hlist f hf
    rw [hr] at hlist
    exact designates_of_mem_list hlist hf
  · intro id account serverId hid later r'
    obtain ⟨heartbeats', requests', hr'⟩ : ∃ heartbeats requests, r' = _ :=
      after_empty (ops ++ later)
    have hlater : Designates (writes (ops ++ later)) id account serverId := by
      obtain ⟨folder, hmem, hserver⟩ := hid
      exact ⟨folder, mem_writes_append hmem later, hserver⟩
    constructor
    · intro other name
      refine ⟨fun h => ?_, fun ⟨haccount, hname⟩ => by rwa [haccount, hname]⟩
      exact Prod.mk.inj (designates_unique h hlater)
    · intro hdeleted
      have hgone := retired_of_deleted hid hdeleted
      constructor
      · intro other list hlist f hf heq
        rw [hr'] at hlist
        obtain ⟨e, he, hfolder⟩ := FolderTable.exists_of_mem_list hlist hf
        have hnumber : f.id.number = e.1 := by rw [(FolderRow.folder_eq_ok_iff.1 hfolder).2]
        exact hgone e (FolderTable.mem_rowsOf.1 he).1 (hnumber.symm.trans (heq ▸ rfl))
      · intro syncKey
        rw [hr', perform_ofTables, Op.onFolders, FolderTable.setSyncKey_of_ne syncKey hgone]
        rfl

/-- Two accounts have a folder of one name. A ping of the first one asks to synchronise its folder;
then the account is deleted, and registers the name again. -/
theorem folder_ids_of_history_deleted :
    let inbox : NewFolder := ⟨"inbox", .email, some "1", true⟩
    let ops : List Op := [.saveFolder ⟨1⟩ inbox, .saveFolder ⟨2⟩ inbox]
    let later : List Op := [.deleteAccount ⟨1⟩, .saveFolder ⟨1⟩ inbox]
    let codec : Codec :=
      ⟨fun _ => .ok [0], fun _ => .ok ⟨.changesFound, ["inbox"], none, none⟩⟩
    let x : Exchange := ⟨.ok [0], some .zero, none⟩
    let saved := fun ops account =>
      ((Op.saveFolder account inbox).perform (after ops .empty)).result
    (Ping.run (collaborators codec) ⟨⟨1⟩, ⟨.standard, 480⟩⟩ x (after ops .empty)).result =
        .ok (.completed (.changesFound ["inbox"]) [.syncFolder ⟨1⟩ "inbox" .email]) ∧
      Designates (writes ops) ⟨1⟩ ⟨1⟩ "inbox" ∧
      saved ops ⟨1⟩ = .ok (.saved ⟨1⟩) ∧ saved ops ⟨2⟩ = .ok (.saved ⟨2⟩) ∧
      (∃ id, saved (ops ++ [.deleteAccount ⟨1⟩]) ⟨1⟩ = .ok (.saved id) ∧ (2 : Int64) < id.number) ∧
      (∃ list f, (after (ops ++ later) .empty).listFolders ⟨1⟩ = .ok list ∧ f ∈ list ∧
        f.serverId = "inbox" ∧ f.id ≠ ⟨1⟩) ∧
      (∀ account name, Designates (writes (ops ++ later)) ⟨1⟩ account name ↔
        account = ⟨1⟩ ∧ name = "inbox") ∧
      ((Op.setSyncKey ⟨1⟩ (some "9")).perform (after (ops ++ later) .empty)).world =
        after (ops ++ later) .empty := by
  intro inbox ops later codec x saved
  have hdecodes : Ping.Decodes (collaborators codec) ⟨⟨1⟩, ⟨.standard, 480⟩⟩ x (after ops .empty)
      [⟨⟨1⟩, "inbox", .email, true, true⟩] ⟨.changesFound, ["inbox"], none, none⟩ :=
    ⟨⟨_, _, rfl, rfl, rfl⟩, [0], Ping.ending_at_once _ _, by decide, rfl⟩
  have hrun : (Ping.run (collaborators codec) ⟨⟨1⟩, ⟨.standard, 480⟩⟩ x
      (after ops .empty)).result = .ok (.completed _ [.syncFolder ⟨1⟩ "inbox" .email]) :=
    Ping.run_of_number hdecodes rfl
  obtain ⟨hsave, -, heffect, hlater⟩ := folder_ids_of_history ops
  have hid := heffect codec _ x _ _ hrun ⟨1⟩ "inbox" .email List.mem_cons_self
  have hfirst : ∀ id, saved ops ⟨1⟩ = .ok (.saved id) → id = ⟨1⟩ := fun id h =>
    ((hsave ⟨1⟩ inbox).2 id h).1 (⟨1⟩, inbox) (by decide)
  have hsecond : ∀ id, saved ops ⟨2⟩ = .ok (.saved id) → id = ⟨2⟩ := fun id h =>
    ((hsave ⟨2⟩ inbox).2 id h).1 (⟨2⟩, inbox) (by decide)
  obtain ⟨id₁, h₁⟩ := (hsave ⟨1⟩ inbox).1 (by decide)
  obtain ⟨id₂, h₂⟩ := (hsave ⟨2⟩ inbox).1 (by decide)
  obtain ⟨hnew, -, -, -⟩ := folder_ids_of_history (ops ++ [.deleteAccount ⟨1⟩])
  obtain ⟨id₃, h₃⟩ := (hnew ⟨1⟩ inbox).1 (by decide)
  have habove := ((hnew ⟨1⟩ inbox).2 id₃ h₃).2 (by decide) ⟨2⟩ ⟨2⟩ "inbox"
    ⟨inbox, by decide, rfl⟩
  obtain ⟨hmeaning, hretired⟩ := hlater _ _ _ hid later
  obtain ⟨hlisted, hkey⟩ := hretired (by decide)
  refine ⟨hrun, hid, hfirst id₁ h₁ ▸ h₁, hsecond id₂ h₂ ▸ h₂, ⟨id₃, h₃, habove⟩,
    ⟨_, ⟨⟨3⟩, "inbox", .email, true, true⟩, rfl, List.mem_cons_self, rfl,
      hlisted ⟨1⟩ _ rfl _ List.mem_cons_self⟩, hmeaning, hkey (some "9")⟩

end Repository

end MailPush
