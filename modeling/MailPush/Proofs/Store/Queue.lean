import Mathlib.Data.List.DropRight
import MailPush.Proofs.Store.Operations
import MailPush.Proofs.Store.Requests

set_option autoImplicit false

/-! # Every request is handed out once, in order

What one operation does to the queue of an account is a conservation law (`conservation`): the
requests that it takes, followed by those that it leaves, are those that were there, followed by
the one that it records. Only the deletion of the account is outside the law; it empties the
queue. Over a history the law adds up since the last deletion (`conservation_of_history`).

Rows that stand for no request stay where they are until their account is deleted
(`uninterpretable_of_history`), and no answer depends on them (`trace_interpretable`).
-/

namespace MailPush.Repository

open RequestTable

/-! ## What a step takes and records -/

namespace Op

/-- An operation that adds a row to the table of requests. -/
def Records : Op → Bool
  | recordRequest _ _ | request _ _ => true
  | _ => false

/-- An operation that needs the table of requests. -/
def OnQueue : Op → Bool
  | recordRequest _ _ | request _ _ | pendingRequests _ | takePendingRequests _
  | deleteAccount _ => true
  | _ => false

/-- The request that an operation records for an account. -/
def recorded (account : AccountId) : Op → List SyncRequest
  | recordRequest a kind | request a kind =>
      if a = account then [⟨a, kind, .recording⟩] else []
  | _ => []

end Op

/-- The requests that a step took out of the queue of an account. -/
def Step.taken (account : AccountId) (step : Step) : List SyncRequest :=
  match step.op, step.answer.result with
  | .takePendingRequests a, .ok (.requests list) => if a = account then list else []
  | _, _ => []

/-- The steps of a history after the last deletion of an account. -/
def sinceDeletion (account : AccountId) (history : List Step) : List Step :=
  history.rtakeWhile fun step => step.op ≠ .deleteAccount account

variable {heartbeats : Rows Int64} {folders : FolderTable} {t : RequestTable}
  {account : AccountId} {op : Op}

theorem sinceDeletion_concat_self (history : List Step) (answer : Answer Repository Value) :
    sinceDeletion account (history ++ [⟨.deleteAccount account, answer⟩]) = [] :=
  List.rtakeWhile_concat_neg _ _ _ (by simp)

theorem sinceDeletion_concat_of_ne (history : List Step) (answer : Answer Repository Value)
    (h : op ≠ .deleteAccount account) :
    sinceDeletion account (history ++ [⟨op, answer⟩]) =
      sinceDeletion account history ++ [⟨op, answer⟩] :=
  List.rtakeWhile_concat_pos _ _ _ (by simpa using h)

/-! ## One operation -/

/-- **Requests are conserved**: what an operation takes and leaves is what was there and what it
records. -/
theorem conservation (heartbeats : Rows Int64) (folders : FolderTable)
    (room : op.Records → t.sequence.toInt < Int64.maxValue.toInt)
    (hne : op ≠ .deleteAccount account) :
    Step.taken account ⟨op, op.perform (ofTables heartbeats folders t)⟩ ++
        pending (op.onRequests t) account =
      pending t account ++ op.recorded account := by
  cases op with
  | recordRequest a kind | request a kind =>
      obtain ⟨id, t', hinsert⟩ := Table.insert?_of_room (.ofKind a kind) (room rfl)
      have hqueue : pending t' account = pending t account ++ _ :=
        pending_insert? hinsert (RequestRow.stands_ofKind a kind)
      simp only [Op.onRequests, hinsert]
      exact hqueue
  | takePendingRequests a =>
      -- taking moves the whole queue of one account to the side of what is taken
      show (if a = account then pending t a else []) ++ pending (removePending t a) account =
        pending t account ++ []
      rw [List.append_nil]
      by_cases ha : a = account
      · rw [if_pos ha, ha, pending_removePending_self, List.append_nil]
      · rw [if_neg ha, pending_removePending_of_ne ha, List.nil_append]
  | deleteAccount a =>
      have ha : a ≠ account := fun h => hne (h ▸ rfl)
      show pending (RequestTable.deleteAccount t a) account = pending t account ++ []
      rw [pending_deleteAccount_of_ne ha, List.append_nil]
  | heartbeat | setHeartbeat | saveFolder | setSyncKey | setAutoSync | listFolders
  | pendingRequests => exact (List.append_nil _).symm

/-- An operation on the queue succeeds, if there is a number for what it records. -/
theorem ok_of_onQueue (room : op.Records → t.sequence.toInt < Int64.maxValue.toInt)
    (hop : op.OnQueue) :
    ∃ value, (op.perform (ofTables heartbeats folders t)).result = .ok value := by
  cases op with
  | recordRequest a kind | request a kind =>
      obtain ⟨id, t', hinsert⟩ := Table.insert?_of_room (.ofKind a kind) (room rfl)
      refine ⟨.done, ?_⟩
      show ((Op.recordRequest a kind).perform _).result = _
      rw [Op.perform, recordRequest_ofTables, hinsert]
      rfl
  | pendingRequests | takePendingRequests | deleteAccount => exact ⟨_, rfl⟩
  | heartbeat | setHeartbeat | saveFolder | setSyncKey | setAutoSync | listFolders => cases hop

/-- An operation moves the sequence by one if it records, and not at all otherwise. -/
theorem sequence_onRequests_le (op : Op) (t : RequestTable) :
    (op.onRequests t).sequence.toInt ≤ t.sequence.toInt + (if op.Records then 1 else 0 : Nat) := by
  cases op with
  | recordRequest a kind | request a kind =>
      rw [Op.onRequests]
      cases hinsert : t.insert? (RequestRow.ofKind a kind) with
      | none => exact Int.le_add_of_nonneg_right (Int.natCast_nonneg _)
      | some new => exact Int.le_of_eq (Table.sequence_insert? hinsert)
  | heartbeat | setHeartbeat | saveFolder | setSyncKey | setAutoSync | listFolders
  | pendingRequests | takePendingRequests | deleteAccount =>
      exact Int.le_add_of_nonneg_right (Int.natCast_nonneg _)

/-- Only the deletion of their account removes rows that stand for no request, and nothing adds
one. -/
theorem uninterpretable_onRequests :
    uninterpretable (op.onRequests t) =
      (uninterpretable t).filter fun e => .deleteAccount e.2.account ≠ op := by
  cases op with
  | recordRequest a kind | request a kind =>
      refine Eq.trans ?_ (List.filter_eq_self.2 fun e _ => rfl).symm
      rw [Op.onRequests]
      cases hinsert : t.insert? (RequestRow.ofKind a kind) with
      | none => rfl
      | some new => exact uninterpretable_insert? hinsert (RequestRow.interpretable_ofKind a kind)
  | takePendingRequests a =>
      rw [Op.onRequests, uninterpretable_removePending]
      exact (List.filter_eq_self.2 fun e _ => rfl).symm
  | deleteAccount a =>
      rw [Op.onRequests, RequestTable.deleteAccount, uninterpretable_keep]
      apply List.filter_congr
      intro e _
      rw [Bool.eq_iff_iff]
      simp
  | heartbeat | setHeartbeat | saveFolder | setSyncKey | setAutoSync | listFolders
  | pendingRequests => exact (List.filter_eq_self.2 fun e _ => rfl).symm

/-! ## Without the rows that stand for nothing -/

theorem interpretable_onRequests :
    interpretable (op.onRequests t) = op.onRequests (interpretable t) := by
  cases op with
  | recordRequest a kind | request a kind =>
      rw [Op.onRequests, Op.onRequests, insert?_interpretable]
      cases t.insert? (RequestRow.ofKind a kind) <;> rfl
  | takePendingRequests | deleteAccount => exact Table.keep_comm _ _
  | heartbeat | setHeartbeat | saveFolder | setSyncKey | setAutoSync | listFolders
  | pendingRequests => rfl

theorem result_interpretable :
    (op.perform (ofTables heartbeats folders (interpretable t))).result =
      (op.perform (ofTables heartbeats folders t)).result := by
  cases op with
  | setHeartbeat a secs =>
      rw [Op.perform, setHeartbeat_ofTables, Op.perform, setHeartbeat_ofTables]
      cases storedOfHeartbeat secs <;> rfl
  | saveFolder a folder =>
      rw [Op.perform, saveFolder_ofTables, Op.perform, saveFolder_ofTables]
      cases folders.save? a folder <;> rfl
  | recordRequest a kind | request a kind =>
      show ((Op.recordRequest a kind).perform _).result =
        ((Op.recordRequest a kind).perform _).result
      rw [Op.perform, recordRequest_ofTables, Op.perform, recordRequest_ofTables,
        insert?_interpretable]
      cases t.insert? (RequestRow.ofKind a kind) <;> rfl
  | pendingRequests a | takePendingRequests a =>
      show Except.ok (Value.requests (pending (interpretable t) a)) = _
      rw [pending_interpretable]
      rfl
  | heartbeat | setSyncKey | setAutoSync | listFolders | deleteAccount => rfl

/-! ## Histories -/

/-- The table of requests after a list of operations. -/
def requestsAfter (ops : List Op) (t : RequestTable) : RequestTable :=
  ops.foldl (fun t op => op.onRequests t) t

theorem requestsAfter_concat (ops : List Op) (op : Op) (t : RequestTable) :
    requestsAfter (ops ++ [op]) t = op.onRequests (requestsAfter ops t) :=
  List.foldl_append

variable {ops : List Op}

/-- There are enough numbers for the requests that a history records. -/
def Room (ops : List Op) (t : RequestTable) : Prop :=
  t.sequence.toInt + ops.countP Op.Records ≤ Int64.maxValue.toInt

theorem sequence_requestsAfter_le (ops : List Op) (t : RequestTable) :
    (requestsAfter ops t).sequence.toInt ≤ t.sequence.toInt + ops.countP Op.Records := by
  induction ops using List.reverseRecOn with
  | nil => exact Int.le_add_of_nonneg_right (Int.natCast_nonneg _)
  | append_singleton ops op ih =>
      have hop := sequence_onRequests_le op (requestsAfter ops t)
      rw [requestsAfter_concat, List.countP_append, List.countP_singleton]
      omega

theorem Room.before (h : Room (ops ++ [op]) t) : Room ops t := by
  unfold Room at h ⊢
  rw [List.countP_append] at h
  omega

/-- The last request of a history that has room finds a number. -/
theorem Room.last (h : Room (ops ++ [op]) t) (hop : op.Records) :
    (requestsAfter ops t).sequence.toInt < Int64.maxValue.toInt := by
  have hle := sequence_requestsAfter_le ops t
  unfold Room at h
  rw [List.countP_append, List.countP_singleton, if_pos hop] at h
  omega

/-- After a history an operation still works on three tables. -/
theorem perform_after_ofTables (heartbeats : Rows Int64) (folders : FolderTable)
    (t : RequestTable) (ops : List Op) (op : Op) :
    ∃ heartbeats' folders',
      op.perform (after ops (ofTables heartbeats folders t)) =
        op.perform (ofTables heartbeats' folders' (requestsAfter ops t)) :=
  ⟨_, _, congrArg op.perform (after_ofTables ops)⟩

/-- **Requests are conserved over a history**: what it took since the last deletion of an
account, and what is left in the queue, are what was there before and what was recorded since. -/
theorem conservation_of_history (room : Room ops t) :
    (sinceDeletion account (trace ops (ofTables heartbeats folders t))).flatMap
          (Step.taken account) ++
        pending (requestsAfter ops t) account =
      (if .deleteAccount account ∈ ops then [] else pending t account) ++
        (sinceDeletion account (trace ops (ofTables heartbeats folders t))).flatMap
          fun step => step.op.recorded account := by
  induction ops using List.reverseRecOn with
  | nil => exact (List.append_nil _).symm
  | append_singleton ops op ih =>
      rw [trace_concat, requestsAfter_concat]
      by_cases hop : op = .deleteAccount account
      -- a deletion starts the account anew: nothing taken, nothing recorded, nothing pending
      · subst hop
        rw [sinceDeletion_concat_self, if_pos (List.mem_concat_self)]
        exact pending_deleteAccount_self
      · have hmem : Op.deleteAccount account ∈ ops ++ [op] ↔ Op.deleteAccount account ∈ ops := by
          rw [List.mem_append, List.mem_singleton, or_iff_left (Ne.symm hop)]
        obtain ⟨heartbeats', folders', hperform⟩ :=
          perform_after_ofTables heartbeats folders t ops op
        have hlast := conservation heartbeats' folders' room.last hop
        simp only [hmem]
        rw [sinceDeletion_concat_of_ne _ _ hop, List.flatMap_append, List.flatMap_append,
          List.flatMap_singleton, List.flatMap_singleton, hperform]
        have hih := ih room.before
        generalize sinceDeletion account (trace ops _) = past at hih ⊢
        -- what the last operation takes goes behind what was taken before it
        calc past.flatMap (Step.taken account) ++ Step.taken account _ ++
              pending (op.onRequests (requestsAfter ops t)) account
            = past.flatMap (Step.taken account) ++
                (pending (requestsAfter ops t) account ++ op.recorded account) := by
              rw [List.append_assoc, hlast]
          _ = (if .deleteAccount account ∈ ops then [] else pending t account) ++
                past.flatMap (fun step => step.op.recorded account) ++ op.recorded account := by
              rw [← List.append_assoc, hih]
          _ = (if .deleteAccount account ∈ ops then [] else pending t account) ++
                (past.flatMap (fun step => step.op.recorded account) ++ op.recorded account) :=
              List.append_assoc _ _ _

/-- The rows that stand for no request after a history are those of the accounts that it did not
delete, all in their old order. -/
theorem uninterpretable_of_history (ops : List Op) (t : RequestTable) :
    uninterpretable (requestsAfter ops t) =
      (uninterpretable t).filter fun e => .deleteAccount e.2.account ∉ ops := by
  induction ops using List.reverseRecOn with
  | nil => exact (List.filter_eq_self.2 fun e _ => rfl).symm
  | append_singleton ops op ih =>
      rw [requestsAfter_concat, uninterpretable_onRequests, ih, List.filter_filter]
      apply List.filter_congr
      intro e _
      rw [Bool.eq_iff_iff]
      simp only [Bool.and_eq_true, decide_eq_true_eq, List.mem_append, List.mem_singleton, not_or]
      exact and_comm

/-- **Rows that stand for no request change no answer.** -/
theorem trace_interpretable (ops : List Op) (t : RequestTable) :
    (trace ops (ofTables heartbeats folders (interpretable t))).map (·.answer.result) =
      (trace ops (ofTables heartbeats folders t)).map (·.answer.result) := by
  induction ops generalizing heartbeats folders t with
  | nil => rfl
  | cons op ops ih =>
      rw [trace, trace, perform_ofTables, perform_ofTables, ← interpretable_onRequests,
        List.map_cons, List.map_cons, ih, result_interpretable]

/-- A history that has room meets no failure on the queue. -/
theorem ok_of_history (room : Room ops t) {step : Step}
    (hstep : step ∈ trace ops (ofTables heartbeats folders t)) (hop : step.op.OnQueue) :
    ∃ value, step.answer.result = .ok value := by
  induction ops using List.reverseRecOn with
  | nil => cases hstep
  | append_singleton ops op ih =>
      rw [trace_concat, List.mem_append, List.mem_singleton] at hstep
      rcases hstep with hstep | rfl
      · exact ih room.before hstep
      · obtain ⟨heartbeats', folders', hperform⟩ :=
          perform_after_ofTables heartbeats folders t ops op
        rw [hperform]
        exact ok_of_onQueue room.last hop

/-- **The queue hands out every request once, in order.** From any content of the table, and
over any history that has room:

* no operation on the queue fails;
* for each account, what was taken since its last deletion, followed by what is pending, is what
  the interpretable rows at the start stand for, unless the account was deleted, followed by the
  requests recorded since;
* looking at the queue changes nothing, and shows what would be taken next;
* the rows that stand for no request are still there, except those of deleted accounts, and all
  answers are as if these rows had never been there. -/
theorem queue_of_history (heartbeats : Rows Int64) (folders : FolderTable)
    (start : RequestTable) (ops : List Op)
    (room : start.sequence.toInt + ops.countP Op.Records ≤ Int64.maxValue.toInt) :
    ∃ queue,
      (after ops (ofTables heartbeats folders start)).requests = some queue ∧
      (∀ step ∈ trace ops (ofTables heartbeats folders start), step.op.OnQueue →
        ∃ value, step.answer.result = .ok value) ∧
      (∀ account,
        List.Forall₂ RequestRow.Stands (requestRows start account) (pending start account) ∧
        (sinceDeletion account (trace ops (ofTables heartbeats folders start))).flatMap
              (Step.taken account) ++
            pending queue account =
          (if .deleteAccount account ∈ ops then [] else pending start account) ++
            (sinceDeletion account (trace ops (ofTables heartbeats folders start))).flatMap
              fun step => step.op.recorded account) ∧
      (∀ account,
        let now := after ops (ofTables heartbeats folders start)
        let shown := (Op.pendingRequests account).perform now
        shown.result = .ok (.requests (pending queue account)) ∧ shown.world = now ∧
          ((Op.takePendingRequests account).perform shown.world).result = shown.result) ∧
      uninterpretable queue =
        (uninterpretable start).filter (fun e => .deleteAccount e.2.account ∉ ops) ∧
      (trace ops (ofTables heartbeats folders (interpretable start))).map (·.answer.result) =
        (trace ops (ofTables heartbeats folders start)).map (·.answer.result) := by
  refine ⟨requestsAfter ops start, ?_, ?_, ?_, ?_, uninterpretable_of_history ops start,
    trace_interpretable ops start⟩
  · rw [after_ofTables]
    rfl
  · intro step hstep hop
    exact ok_of_history room hstep hop
  · intro account
    exact ⟨pending_stands start account, conservation_of_history room⟩
  · intro account
    rw [after_ofTables]
    exact ⟨rfl, rfl, rfl⟩

/-- A queue in which rows without a folder, of no known kind and without a readable time stand
between two requests. -/
def mixedRequests : RequestTable :=
  [⟨⟨1⟩, "folder", some ⟨7⟩, .recording⟩, ⟨⟨1⟩, "folder", none, .recording⟩,
    ⟨⟨2⟩, "refresh", none, .recording⟩, ⟨⟨1⟩, "ping", none, .text "yesterday"⟩,
    ⟨⟨1⟩, "folder_list", some ⟨7⟩, .recording⟩].foldl
    (fun t row => (t.insert? row).elim t Prod.snd) (Table.empty : RequestTable)

/-- The law at a queue with such rows: the first account gets its two old requests and the two
new ones, and of the three rows between them only that of the deleted account is gone. -/
theorem queue_of_history_between_bad_rows :
    let ops : List Op := [.recordRequest ⟨1⟩ .ping, .takePendingRequests ⟨1⟩, .deleteAccount ⟨2⟩,
      .pendingRequests ⟨1⟩, .request ⟨1⟩ (.folder ⟨8⟩)]
    let start := ofTables .empty .empty mixedRequests
    mixedRequests.sequence.toInt + ops.countP Op.Records ≤ Int64.maxValue.toInt ∧
      ∃ queue, (after ops start).requests = some queue ∧
        (sinceDeletion ⟨1⟩ (trace ops start)).flatMap (Step.taken ⟨1⟩) ++ pending queue ⟨1⟩ =
          [⟨⟨1⟩, .folder ⟨7⟩, .recording⟩, ⟨⟨1⟩, .folderList, .recording⟩,
            ⟨⟨1⟩, .ping, .recording⟩, ⟨⟨1⟩, .folder ⟨8⟩, .recording⟩] ∧
        (uninterpretable queue).map Prod.fst = [2, 4] := by
  intro ops start
  have room : mixedRequests.sequence.toInt + ops.countP Op.Records ≤ Int64.maxValue.toInt := by
    decide
  obtain ⟨queue, hqueue, -, hfifo, -, hbad, -⟩ :=
    queue_of_history .empty .empty mixedRequests ops room
  refine ⟨room, queue, hqueue, ?_, ?_⟩
  · rw [(hfifo ⟨1⟩).2]
    decide
  · rw [hbad]
    decide

end MailPush.Repository
