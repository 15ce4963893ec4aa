import Mathlib.Data.List.Forall2
import MailPush.Store.Requests
import MailPush.Proofs.Store.Tables

set_option autoImplicit false

/-! # Which rows are requests

A row is read as a request exactly when it is the stored form of one (`RequestRow.Stands`,
`request_eq_ok_iff`), and there is one for it exactly when its kind is known, it names a folder
where its kind needs one, and its timestamp can be read (`RequestRow.Interpretable`).

The queue of an account is then a list of rows seen through `Stands`
(`RequestTable.pending_stands`). Rows that stand for nothing are neither in it nor in its way:
`RequestTable.pending_keep` says that only the account's interpretable rows matter.
-/

namespace MailPush

namespace SyncRequestKind

/-- A kind is read from its name, and from its folder if it has one. -/
theorem ofParts?_eq_some_iff {name : String} {folder : Option FolderId} {kind : SyncRequestKind} :
    ofParts? name folder = some kind ↔
      name = kind.name ∧ ∀ id, kind = .folder id → folder = some id := by
  constructor
  · intro h
    unfold ofParts? at h
    split at h
    next hname =>
      obtain ⟨id, rfl, rfl⟩ := Option.map_eq_some_iff.1 h
      exact ⟨hname, fun id' h' => by cases h'; rfl⟩
    next =>
      split at h
      next hname =>
        cases h
        exact ⟨hname, fun id' h' => by cases h'⟩
      next =>
        split at h
        next hname =>
          cases h
          exact ⟨hname, fun id' h' => by cases h'⟩
        next => cases h
  · rintro ⟨rfl, hfolder⟩
    cases kind with
    | folder id =>
        rw [hfolder id rfl]
        rfl
    | folderList => rfl
    | ping => rfl

end SyncRequestKind

/-! ## Rows -/

/-- The time of a stamp can be read. -/
def Stamp.Readable : Stamp → Prop
  | recording => True
  | text value => (Timestamp.ofText? value).isSome

instance : DecidablePred Stamp.Readable
  | .recording => inferInstanceAs (Decidable True)
  | .text _ => inferInstanceAs (Decidable (_ = true))

theorem Stamp.readable_iff {stamp : Stamp} :
    stamp.Readable ↔ ∃ time, stamp.time = .ok time := by
  cases stamp with
  | recording => exact ⟨fun _ => ⟨.recording, rfl⟩, fun _ => trivial⟩
  | text value =>
      show (Timestamp.ofText? value).isSome ↔ _
      rw [time]
      cases Timestamp.ofText? value with
      | some t => exact ⟨fun _ => ⟨.known t, rfl⟩, fun _ => rfl⟩
      | none => exact ⟨fun h => (nomatch h), fun ⟨_, h⟩ => (nomatch h)⟩

namespace RequestRow

/-- A row is the stored form of a request. -/
structure Stands (row : RequestRow) (request : SyncRequest) : Prop where
  account : row.account = request.account
  kindName : row.kindName = request.kind.name
  folder : ∀ id, request.kind = .folder id → row.folder = some id
  time : row.stamp.time = .ok request.time

/-- A row has a known kind, a folder where its kind needs one, and a timestamp that can be
read. -/
def Interpretable (row : RequestRow) : Prop :=
  (row.kindName = "folder" ∧ row.folder.isSome ∨ row.kindName = "folder_list" ∨
    row.kindName = "ping") ∧ row.stamp.Readable

instance : DecidablePred Interpretable := fun _ => inferInstanceAs (Decidable (_ ∧ _))

variable {row : RequestRow} {request : SyncRequest} {id : Int64}

/-- **A row is read as the request whose stored form it is**, and as no other. -/
theorem request_eq_ok_iff : row.request id = .ok request ↔ row.Stands request := by
  constructor
  · intro h
    unfold RequestRow.request at h
    split at h
    next => cases h
    next kind hkind =>
      split at h
      next time htime =>
        cases h
        obtain ⟨hname, hfolder⟩ := SyncRequestKind.ofParts?_eq_some_iff.1 hkind
        exact ⟨rfl, hname, hfolder, htime⟩
      next => cases h
  · rintro ⟨haccount, hname, hfolder, htime⟩
    have hkind := SyncRequestKind.ofParts?_eq_some_iff.2 ⟨hname, hfolder⟩
    rw [RequestRow.request, hkind]
    simp only [htime, haccount]

/-- The rows that stand for a request are the interpretable ones. -/
theorem interpretable_iff : row.Interpretable ↔ ∃ request, row.Stands request := by
  constructor
  · rintro ⟨hkind, htime⟩
    obtain ⟨time, htime⟩ := Stamp.readable_iff.1 htime
    rcases hkind with ⟨hname, hfolder⟩ | hname | hname
    · obtain ⟨folder, hfolder⟩ := Option.isSome_iff_exists.1 hfolder
      refine ⟨⟨row.account, .folder folder, time⟩, rfl, hname, ?_, htime⟩
      intro id heq
      cases heq
      exact hfolder
    · exact ⟨⟨row.account, .folderList, time⟩, rfl, hname, fun id heq => (nomatch heq), htime⟩
    · exact ⟨⟨row.account, .ping, time⟩, rfl, hname, fun id heq => (nomatch heq), htime⟩
  · rintro ⟨request, -, hname, hfolder, htime⟩
    -- the name of a kind determines which of the three cases it is
    refine ⟨?_, Stamp.readable_iff.2 ⟨request.time, htime⟩⟩
    cases hkind : request.kind with
    | folder id => exact .inl ⟨by rw [hname, hkind]; rfl, by rw [hfolder id hkind]; rfl⟩
    | folderList => exact .inr (.inl (by rw [hname, hkind]; rfl))
    | ping => exact .inr (.inr (by rw [hname, hkind]; rfl))

theorem isOk_request : (row.request id).isOk = decide row.Interpretable := by
  cases h : row.request id with
  | ok request =>
      have hrow : row.Interpretable := interpretable_iff.2 ⟨request, request_eq_ok_iff.1 h⟩
      exact (decide_eq_true hrow).symm
  | error warning =>
      have hrow : ¬ row.Interpretable := by
        intro hrow
        obtain ⟨request, hstands⟩ := interpretable_iff.1 hrow
        rw [request_eq_ok_iff.2 hstands] at h
        cases h
      exact (decide_eq_false hrow).symm

/-- What is recorded is what will be read. -/
theorem stands_ofKind (account : AccountId) (kind : SyncRequestKind) :
    (ofKind account kind).Stands ⟨account, kind, .recording⟩ :=
  ⟨rfl, rfl, fun _ h => by cases h; rfl, rfl⟩

theorem interpretable_ofKind (account : AccountId) (kind : SyncRequestKind) :
    (ofKind account kind).Interpretable :=
  interpretable_iff.2 ⟨_, stands_ofKind account kind⟩

end RequestRow

/-! ## Tables -/

namespace RequestTable

variable {t t' : RequestTable} {row : RequestRow} {request : SyncRequest} {id : Int64}
  {account : AccountId}

/-- The rows of an account that stand for requests, in the order of their numbers. -/
def requestRows (t : RequestTable) (account : AccountId) : List RequestRow :=
  (t.rows.entries.map Prod.snd).filter fun row => row.account = account ∧ row.Interpretable

/-- The rows that stand for no request. -/
def uninterpretable (t : RequestTable) : List (Int64 × RequestRow) :=
  t.rows.entries.filter fun e => ¬ e.2.Interpretable

/-- The table without the rows that stand for no request. -/
def interpretable (t : RequestTable) : RequestTable := t.keep fun _ row => row.Interpretable

/-- The request that an entry holds for an account. -/
def entryRequest? (account : AccountId) (e : Int64 × RequestRow) : Option SyncRequest :=
  if e.2.account == account then (e.2.request e.1).toOption else none

theorem pending_eq : pending t account = t.rows.entries.filterMap (entryRequest? account) :=
  List.filterMap_filter

theorem entryRequest?_of_stands (h : row.Stands request) :
    entryRequest? account (id, row) = if request.account = account then some request else none := by
  unfold entryRequest?
  rw [RequestRow.request_eq_ok_iff.2 h, h.account]
  by_cases heq : request.account = account
  · rw [if_pos heq, if_pos (by simpa using heq)]
    rfl
  · rw [if_neg heq, if_neg (by simpa using heq)]

theorem entryRequest?_eq_none (h : row.account = account → ¬ row.Interpretable) :
    entryRequest? account (id, row) = none := by
  unfold entryRequest?
  split
  next haccount =>
    have hrow := h (by simpa using haccount)
    cases hr : row.request id with
    | ok request =>
        exact absurd (RequestRow.interpretable_iff.2 ⟨_, RequestRow.request_eq_ok_iff.1 hr⟩) hrow
    | error warning => rfl
  next => rfl

/-- **The queue of an account is what its interpretable rows stand for**, in their order. -/
theorem pending_stands (t : RequestTable) (account : AccountId) :
    List.Forall₂ RequestRow.Stands (requestRows t account) (pending t account) := by
  rw [pending_eq, requestRows]
  -- a row that is no request of the account is missing on both sides
  induction t.rows.entries with
  | nil => exact .nil
  | cons e es ih =>
      rw [List.map_cons]
      by_cases he : e.2.account = account ∧ e.2.Interpretable
      · obtain ⟨request, hstands⟩ := RequestRow.interpretable_iff.1 he.2
        have hreq : entryRequest? account e = some request := by
          rw [show e = (e.1, e.2) from rfl, entryRequest?_of_stands hstands,
            if_pos (hstands.account ▸ he.1)]
        rw [List.filter_cons_of_pos (by simpa using he), List.filterMap_cons_some hreq]
        exact .cons hstands ih
      · have hreq : entryRequest? account e = none :=
          entryRequest?_eq_none fun haccount hrow => he ⟨haccount, hrow⟩
        rw [List.filter_cons_of_neg (by simpa using he), List.filterMap_cons_none hreq]
        exact ih

/-! ## What changes a queue -/

/-- A new row for a request comes last in the queue of its account, and in no other. -/
theorem pending_insert? (h : t.insert? row = some (id, t')) (hrow : row.Stands request) :
    pending t' account =
      pending t account ++ if request.account = account then [request] else [] := by
  rw [pending_eq, pending_eq, Table.entries_insert? h, List.filterMap_append]
  congr 1
  by_cases haccount : request.account = account
  · rw [if_pos haccount, List.filterMap_cons_some
      (by rw [entryRequest?_of_stands hrow, if_pos haccount]), List.filterMap_nil]
  · rw [if_neg haccount, List.filterMap_cons_none
      (by rw [entryRequest?_of_stands hrow, if_neg haccount]), List.filterMap_nil]

/-- Only the interpretable rows of an account matter to its queue. -/
theorem pending_keep {p : Int64 → RequestRow → Bool}
    (h : ∀ id row, row.account = account → row.Interpretable → p id row = true) :
    pending (t.keep p) account = pending t account := by
  rw [pending_eq, pending_eq]
  show (t.rows.entries.filter fun e => p e.1 e.2).filterMap _ = _
  rw [List.filterMap_filter]
  apply List.filterMap_congr
  intro e _
  by_cases he : e.2.account = account ∧ e.2.Interpretable
  · rw [if_pos (h e.1 e.2 he.1 he.2)]
  · have hnone : entryRequest? account e = none :=
      entryRequest?_eq_none fun haccount hrow => he ⟨haccount, hrow⟩
    rw [hnone, ite_self]

/-- Without its interpretable rows the queue of an account is empty. -/
theorem pending_keep_eq_nil {p : Int64 → RequestRow → Bool}
    (h : ∀ id row, row.account = account → row.Interpretable → p id row = false) :
    pending (t.keep p) account = [] := by
  rw [pending_eq, List.filterMap_eq_nil_iff]
  intro e he
  obtain ⟨-, hp⟩ := List.mem_filter.1 he
  apply entryRequest?_eq_none
  intro haccount hrow
  rw [h e.1 e.2 haccount hrow] at hp
  cases hp

theorem pending_interpretable : pending (interpretable t) account = pending t account :=
  pending_keep fun _ _ _ hrow => decide_eq_true hrow

theorem pending_removePending_self : pending (removePending t account) account = [] := by
  apply pending_keep_eq_nil
  intro id row haccount hrow
  rw [haccount, bne_self_eq_false, RequestRow.isOk_request, decide_eq_true hrow]
  rfl

theorem pending_removePending_of_ne {other : AccountId} (h : other ≠ account) :
    pending (removePending t other) account = pending t account := by
  apply pending_keep
  intro id row haccount _
  rw [haccount, bne_iff_ne.2 h.symm, Bool.true_or]

theorem pending_deleteAccount_self : pending (deleteAccount t account) account = [] := by
  apply pending_keep_eq_nil
  intro id row haccount _
  rw [haccount, bne_self_eq_false]

theorem pending_deleteAccount_of_ne {other : AccountId} (h : other ≠ account) :
    pending (deleteAccount t other) account = pending t account := by
  apply pending_keep
  intro id row haccount _
  rw [haccount, bne_iff_ne.2 h.symm]

/-- A new request does not meet the rows that stand for nothing. -/
theorem insert?_interpretable (account : AccountId) (kind : SyncRequestKind) :
    (interpretable t).insert? (.ofKind account kind) =
      (t.insert? (.ofKind account kind)).map fun new => (new.1, interpretable new.2) :=
  Table.insert?_keep _ fun _ => decide_eq_true (RequestRow.interpretable_ofKind account kind)

/-! ## What changes the rows that stand for no request -/

theorem uninterpretable_keep (p : Int64 → RequestRow → Bool) :
    uninterpretable (t.keep p) = (uninterpretable t).filter fun e => p e.1 e.2 := by
  show (t.rows.entries.filter _).filter _ = (t.rows.entries.filter _).filter _
  rw [List.filter_filter, List.filter_filter]
  apply List.filter_congr
  intro e _
  exact Bool.and_comm _ _

theorem uninterpretable_insert? (h : t.insert? row = some (id, t')) (hrow : row.Interpretable) :
    uninterpretable t' = uninterpretable t := by
  have hnew : [(id, row)].filter (fun e => ¬ e.2.Interpretable) = [] :=
    List.filter_cons_of_neg (by simpa using hrow)
  rw [uninterpretable, Table.entries_insert? h, List.filter_append, hnew, List.append_nil]
  rfl

theorem uninterpretable_removePending :
    uninterpretable (removePending t account) = uninterpretable t := by
  rw [removePending, uninterpretable_keep]
  rw [List.filter_eq_self]
  intro e he
  have hrow : ¬ e.2.Interpretable := by simpa using (List.mem_filter.1 he).2
  rw [RequestRow.isOk_request, decide_eq_false hrow, Bool.not_false, Bool.or_true]

end RequestTable

end MailPush
