import Mathlib.Algebra.Order.BigOperators.Group.List
import Mathlib.Algebra.Order.Ring.Nat
import MailPush.Proofs.Accounts.SameRuns

set_option autoImplicit false

/-! # Accounts do not observe each other

Accounts that share a repository take turns in any order, each for itself and with the folder ids
that it has been told (`Proper`). What one of them is told is what it would be told if the others
had never made a turn, up to a renaming of its folder ids that respects their order
(`independence`): numbers are taken from one sequence for all, so the others make them larger,
and nothing else.

The two runs are compared state by state (`Mirrors`). A turn of another account leaves everything
that the account has (`Mirrors.other`). A turn of the account itself, made in both runs, tells it
the same and leaves states that mirror each other again (`Mirrors.own`); the renaming grows when a
folder is saved, by two numbers that are above all others.
-/

namespace MailPush.Accounts

open Repository

/-! ## Turns within what is known -/

/-- The folder ids that accounts know: those of their folders, and those that their requests
name. -/
structure Knowledge where
  folders : AccountId → List FolderId
  requested : AccountId → List FolderId

namespace Knowledge

/-- What is known when an account has been told something. -/
def learn (k : Knowledge) (account : AccountId) (t : Told) : Knowledge where
  folders := Function.update k.folders account (k.folders account ++ t.folders)
  requested := Function.update k.requested account (k.requested account ++ t.requested)

/-- An account knows an id. -/
def Has (k : Knowledge) (account : AccountId) (id : FolderId) : Prop :=
  id ∈ k.folders account ∨ id ∈ k.requested account

theorem mem_update_append (f : AccountId → List FolderId) (account : AccountId)
    (l : List FolderId) {other : AccountId} {id : FolderId} :
    id ∈ Function.update f account (f account ++ l) other ↔
      id ∈ f other ∨ account = other ∧ id ∈ l := by
  by_cases h : account = other
  · subst h
    rw [Function.update_self, List.mem_append]
    simp only [true_and]
  · rw [Function.update_of_ne (Ne.symm h)]
    simp only [h, false_and, or_false]

theorem mem_folders_learn {k : Knowledge} {account other : AccountId} {t : Told} {id : FolderId} :
    id ∈ (k.learn account t).folders other ↔
      id ∈ k.folders other ∨ account = other ∧ id ∈ t.folders :=
  mem_update_append k.folders account t.folders

theorem has_learn {k : Knowledge} {account other : AccountId} {t : Told} {id : FolderId} :
    (k.learn account t).Has other id ↔
      k.Has other id ∨ account = other ∧ (id ∈ t.folders ∨ id ∈ t.requested) := by
  have hrequested : id ∈ (k.learn account t).requested other ↔ _ :=
    mem_update_append k.requested account t.requested
  rw [Has, Has, mem_folders_learn, hrequested, and_or_left, or_or_or_comm]

end Knowledge

/-- Every turn is addressed to its account, sets the sync keys of folders that are known to be
folders of the account, and names only folder ids that the account knows. -/
def Proper : Knowledge → List Turn → Shared → Prop
  | _, [], _ => True
  | k, turn :: turns, s =>
      turn.Addressed ∧ (∀ id ∈ turn.target?, id ∈ k.folders turn.account) ∧
        (∀ id ∈ turn.named, k.Has turn.account id) ∧
        Proper (k.learn turn.account (turn.tells s)) turns (turn.next s)

instance (turn : Turn) : Decidable turn.Addressed :=
  match h : turn.move with
  | .call op => decidable_of_iff (op.account?.getD turn.account = turn.account) (by
      rw [Turn.Addressed, h])
  | .start _ | .run _ _ | .apply _ => isTrue (by
      rw [Turn.Addressed, h]
      trivial)

instance (k : Knowledge) (account : AccountId) (id : FolderId) : Decidable (k.Has account id) :=
  inferInstanceAs (Decidable (_ ∨ _))

instance decidableProper : ∀ k turns s, Decidable (Proper k turns s)
  | _, [], _ => isTrue trivial
  | k, turn :: turns, s =>
      have := decidableProper (k.learn turn.account (turn.tells s)) turns (turn.next s)
      inferInstanceAs (Decidable (_ ∧ _ ∧ _ ∧ _))

/-- The folders of which accounts know are their own. -/
def Knowledge.Sound (k : Knowledge) (t : FolderTable) : Prop :=
  ∀ account, ∀ id ∈ k.folders account, t.Owns account id

theorem Knowledge.Sound.next {k : Knowledge} {turn : Turn} {s : State} (h : k.Sound s.folders)
    (haddressed : turn.Addressed) :
    (k.learn turn.account (turn.tells s.shared)).Sound (s.next turn).folders := by
  intro account id hid
  rcases Knowledge.mem_folders_learn.1 hid with hold | ⟨rfl, hnew⟩
  · exact (inherits_next turn s).owns (h account id hold)
  · exact owns_of_told haddressed hnew

/-! ## States that mirror each other -/

/-- Two states are the same to an account, up to a renaming of the ids given out so far. -/
structure Mirrors (account : AccountId) (R : Renaming) (s s' : State) : Prop where
  stored : s'.stored.get? account.number = s.stored.get? account.number
  rows : List.Forall₂ R.SameRow (s.folders.rowsOf account) (s'.folders.rowsOf account)
  pending : List.Forall₂ R.SameRequest (RequestTable.pending s.requests account)
    (RequestTable.pending s'.requests account)
  heartbeat : s'.heartbeats account = s.heartbeats account
  given : ∀ i j, R.rel i j →
    i.number ≤ s.folders.table.sequence ∧ j.number ≤ s'.folders.table.sequence

/-- There are numbers for what turns save and record. -/
structure Room (turns : List Turn) (s : State) : Prop where
  saves : (turns.map Turn.saves).sum ≤ s.folders.table.left
  records : (turns.map Turn.records).sum ≤ s.requests.left

theorem Room.next {turn : Turn} {turns : List Turn} {s : State} (h : Room (turn :: turns) s) :
    Room turns (s.next turn) := by
  obtain ⟨hsaves, hrecords⟩ := h
  obtain ⟨hfolders, hrequests⟩ := left_next turn s
  rw [List.map_cons, List.sum_cons] at hsaves hrecords
  exact ⟨by omega, by omega⟩

variable {account : AccountId} {R : Renaming} {s s' : State} {turn turn' : Turn}

/-- A turn of another account leaves what mirrors the state. -/
theorem Mirrors.other (h : Mirrors account R s s') (hne : turn.account ≠ account)
    (haddressed : turn.Addressed)
    (htarget : ∀ id ∈ turn.target?, s.folders.Owns turn.account id) :
    Mirrors account R (s.next turn) s' := by
  have hkeeps := keeps_next hne haddressed htarget
  refine ⟨h.stored.trans hkeeps.stored.symm, ?_, ?_, h.heartbeat.trans hkeeps.heartbeat.symm, ?_⟩
  · rw [hkeeps.rows]
    exact h.rows
  · rw [hkeeps.pending]
    exact h.pending
  · intro i j hij
    exact ⟨Int64.le_trans (h.given i j hij).1 (inherits_next turn s).1, (h.given i j hij).2⟩

/-! ## Calls -/

/-- A request that is recorded in both tables comes last in both queues. -/
theorem pending_recordRequest_same {t t' : RequestTable} (room : 0 < t.left) (room' : 0 < t'.left)
    {kind kind' : SyncRequestKind} (hkind : R.SameKind kind kind')
    (h : List.Forall₂ R.SameRequest (RequestTable.pending t account)
      (RequestTable.pending t' account)) :
    List.Forall₂ R.SameRequest
      (RequestTable.pending ((Op.recordRequest account kind).onRequests t) account)
      (RequestTable.pending ((Op.recordRequest account kind').onRequests t') account) := by
  obtain ⟨id, t₁, hinsert⟩ := Table.insert?_of_room (.ofKind account kind)
    (Table.room_of_left_pos room)
  obtain ⟨id', t₁', hinsert'⟩ := Table.insert?_of_room (.ofKind account kind')
    (Table.room_of_left_pos room')
  rw [Op.onRequests, Op.onRequests, hinsert, hinsert']
  show List.Forall₂ R.SameRequest (RequestTable.pending t₁ account)
    (RequestTable.pending t₁' account)
  rw [RequestTable.pending_insert? hinsert (RequestRow.stands_ofKind account kind),
    RequestTable.pending_insert? hinsert' (RequestRow.stands_ofKind account kind'), if_pos rfl,
    if_pos rfl]
  exact List.rel_append h (.cons ⟨hkind, rfl⟩ .nil)

theorem perform_recordRequest_of_left (owner : AccountId) (kind : SyncRequestKind)
    (room : 0 < s.requests.left) :
    ((Op.recordRequest owner kind).perform s.repository).result = .ok .done := by
  obtain ⟨id, t, hinsert⟩ := Table.insert?_of_room (.ofKind owner kind)
    (Table.room_of_left_pos room)
  rw [Op.perform, State.repository, recordRequest_ofTables, hinsert]
  rfl

section Calls

variable {op op' : Op}

theorem onHeartbeats_same (hop : R.SameOp op op') : op'.onHeartbeats = op.onHeartbeats := by
  cases hop <;> rfl

theorem rows_same {t t' : FolderTable} (hop : R.SameOp op op')
    (haddressed : op.account?.getD account = account) (hsaves : op.Saves = false)
    (h : List.Forall₂ R.SameRow (t.rowsOf account) (t'.rowsOf account)) :
    List.Forall₂ R.SameRow ((op.onFolders t).rowsOf account)
      ((op'.onFolders t').rowsOf account) := by
  cases hop with
  | setSyncKey syncKey hij =>
      rename_i i j
      show List.Forall₂ R.SameRow ((t.setSyncKey i syncKey).rowsOf account)
        ((t'.setSyncKey j syncKey).rowsOf account)
      rw [FolderTable.rowsOf_setSyncKey, FolderTable.rowsOf_setSyncKey]
      refine List.rel_map ?_ h
      rintro e e' ⟨hid, hrow⟩
      refine ⟨hid, ?_⟩
      -- the renaming relates the two ids, so a row has the one where its image has the other
      have hiff : e.1 = i.number ↔ e'.1 = j.number := by
        have hids := R.eq_iff hid hij
        rwa [← FolderId.number_inj, ← FolderId.number_inj] at hids
      simp only [hiff, hrow]
  | recordRequest | request => exact h
  | other =>
      cases op with
      | saveFolder => cases hsaves
      | setAutoSync owner folderClass enabled =>
          obtain rfl : owner = account := haddressed
          show List.Forall₂ R.SameRow ((t.setAutoSync owner folderClass enabled).rowsOf owner)
            ((t'.setAutoSync owner folderClass enabled).rowsOf owner)
          rw [FolderTable.rowsOf_setAutoSync_self, FolderTable.rowsOf_setAutoSync_self]
          refine List.rel_map ?_ h
          rintro e e' ⟨hid, hrow⟩
          exact ⟨hid, by simp only [hrow]⟩
      | deleteAccount owner =>
          obtain rfl : owner = account := haddressed
          show List.Forall₂ R.SameRow ((t.deleteAccount owner).rowsOf owner)
            ((t'.deleteAccount owner).rowsOf owner)
          rw [FolderTable.rowsOf_deleteAccount_self, FolderTable.rowsOf_deleteAccount_self]
          exact .nil
      | setSyncKey i syncKey => rename_i htarget _; cases htarget
      | heartbeat | setHeartbeat | listFolders | recordRequest | request | pendingRequests
      | takePendingRequests => exact h

theorem pending_same {t t' : RequestTable} (hop : R.SameOp op op')
    (haddressed : op.account?.getD account = account) (room : op.Records → 0 < t.left)
    (room' : op.Records → 0 < t'.left)
    (h : List.Forall₂ R.SameRequest (RequestTable.pending t account)
      (RequestTable.pending t' account)) :
    List.Forall₂ R.SameRequest (RequestTable.pending (op.onRequests t) account)
      (RequestTable.pending (op'.onRequests t') account) := by
  cases hop with
  | setSyncKey => exact h
  | recordRequest owner hkind =>
      rename_i kind kind'
      obtain rfl : owner = account := haddressed
      exact pending_recordRequest_same (room rfl) (room' rfl) hkind h
  | request owner hkind =>
      rename_i kind kind'
      obtain rfl : owner = account := haddressed
      exact pending_recordRequest_same (room rfl) (room' rfl) hkind h
  | other htarget hrecords =>
      cases op with
      | takePendingRequests owner =>
          obtain rfl : owner = account := haddressed
          show List.Forall₂ R.SameRequest (RequestTable.pending (t.removePending owner) owner)
            (RequestTable.pending (t'.removePending owner) owner)
          rw [RequestTable.pending_removePending_self, RequestTable.pending_removePending_self]
          exact .nil
      | deleteAccount owner =>
          obtain rfl : owner = account := haddressed
          show List.Forall₂ R.SameRequest (RequestTable.pending (t.deleteAccount owner) owner)
            (RequestTable.pending (t'.deleteAccount owner) owner)
          rw [RequestTable.pending_deleteAccount_self, RequestTable.pending_deleteAccount_self]
          exact .nil
      | recordRequest | request => cases hrecords
      | heartbeat | setHeartbeat | saveFolder | setSyncKey | setAutoSync | listFolders
      | pendingRequests => exact h

/-- What an operation yields is the same in states that mirror each other; saving a folder is
another matter, because its id is a new one. -/
theorem result_same (h : Mirrors account R s s') (hop : R.SameOp op op')
    (haddressed : op.account?.getD account = account) (hsaves : op.Saves = false)
    (room : op.Records → 0 < s.requests.left) (room' : op.Records → 0 < s'.requests.left) :
    Agree R.SameValue (op.perform s.repository).result (op'.perform s'.repository).result := by
  cases hop with
  | setSyncKey => exact .ok .done
  | recordRequest owner hkind =>
      rw [perform_recordRequest_of_left _ _ (room rfl),
        perform_recordRequest_of_left _ _ (room' rfl)]
      exact .ok .done
  | request owner hkind =>
      rw [perform_request, perform_request, perform_recordRequest_of_left _ _ (room rfl),
        perform_recordRequest_of_left _ _ (room' rfl)]
      exact .ok .done
  | other htarget hrecords =>
      cases op with
      | heartbeat owner =>
          obtain rfl : owner = account := haddressed
          show Agree R.SameValue
            (.ok (.heartbeat ((s.stored.get? owner.number).bind heartbeatOfStored)))
            (.ok (.heartbeat ((s'.stored.get? owner.number).bind heartbeatOfStored)))
          rw [h.stored]
          exact .ok (.heartbeat _)
      | setHeartbeat owner secs =>
          rw [Op.perform, Op.perform, State.repository, State.repository, setHeartbeat_ofTables,
            setHeartbeat_ofTables]
          cases storedOfHeartbeat secs with
          | ok n => exact .ok .done
          | error e => exact .error _
      | listFolders owner =>
          obtain rfl : owner = account := haddressed
          exact ((Renaming.list_same h.rows).mapError _).map fun _ _ hlist => .folders hlist
      | pendingRequests owner =>
          obtain rfl : owner = account := haddressed
          exact .ok (.requests h.pending)
      | takePendingRequests owner =>
          obtain rfl : owner = account := haddressed
          exact .ok (.requests h.pending)
      | saveFolder => cases hsaves
      | recordRequest | request => cases hrecords
      | setSyncKey | setAutoSync | deleteAccount => exact .ok .done

end Calls

/-! ## Own turns -/

/-- Starting the operation in both states. -/
theorem Mirrors.start (h : Mirrors account R s s') (config : PushConfig) :
    let turn : Turn := ⟨account, .start config⟩
    Mirrors account R (s.next turn) (s'.next turn) ∧
      R.SameTold (turn.tells s.shared) (turn.tells s'.shared) := by
  intro turn
  have hresult : (turn.startOver config s'.shared).result =
      (turn.startOver config s.shared).result := by
    have hstart : (turn.startOver config s.shared).result = _ := start_ofTables account config
    have hstart' : (turn.startOver config s'.shared).result = _ := start_ofTables account config
    rw [hstart, hstart', h.stored]
  refine ⟨⟨h.stored, h.rows, h.pending, ?_, h.given⟩, ?_⟩
  · show startedWith s'.heartbeats account (turn.startOver config s'.shared).result account =
      startedWith s.heartbeats account (turn.startOver config s.shared).result account
    rw [hresult]
    exact startedWith_self h.heartbeat _
  · have htells' : turn.tells s'.shared = turn.tells s.shared := by
      show Told.started ((turn.startOver config s'.shared).result.map _) =
        .started ((turn.startOver config s.shared).result.map _)
      rw [hresult]
    rw [htells']
    exact .started _

/-- States that mirror each other do so after the same call, if it saves no folder. -/
theorem Mirrors.call (h : Mirrors account R s s') {op op' : Op} (hop : R.SameOp op op')
    (haddressed : op.account?.getD account = account) (hsaves : op.Saves = false)
    (room : op.Records → 0 < s.requests.left) (room' : op.Records → 0 < s'.requests.left) :
    Mirrors account R (s.next ⟨account, .call op⟩) (s'.next ⟨account, .call op'⟩) where
  stored := by
    rw [show (s'.next ⟨account, .call op'⟩).stored = op'.onHeartbeats s'.stored from rfl,
      onHeartbeats_same hop]
    exact Op.get?_onHeartbeats_congr op h.stored
  rows := rows_same hop haddressed hsaves h.rows
  pending := pending_same hop haddressed room room' h.pending
  heartbeat := h.heartbeat
  given := by
    intro i j hij
    obtain ⟨hi, hj⟩ := h.given i j hij
    exact ⟨Int64.le_trans hi (FolderTable.inherits_onFolders op s.folders).1,
      Int64.le_trans hj (FolderTable.inherits_onFolders op' s'.folders).1⟩

/-- Saving a folder in both states adds two ids to the renaming, which are above all others. -/
theorem Mirrors.save (h : Mirrors account R s s') (folder : NewFolder)
    (room : 0 < s.folders.table.left) (room' : 0 < s'.folders.table.left) :
    let turn : Turn := ⟨account, .call (.saveFolder account folder)⟩
    ∃ R' : Renaming, R.Within R' ∧ Mirrors account R' (s.next turn) (s'.next turn) ∧
      R'.SameTold (turn.tells s.shared) (turn.tells s'.shared) := by
  intro turn
  obtain ⟨id, t, hsave⟩ :=
    FolderTable.save?_of_room account folder (Table.room_of_left_pos room)
  obtain ⟨id', t', hsave'⟩ :=
    FolderTable.save?_of_room account folder (Table.room_of_left_pos room')
  obtain ⟨n, hn, hid, hrows⟩ := FolderTable.rowsOf_save?_self hsave
  obtain ⟨n', hn', hid', hrows'⟩ := FolderTable.rowsOf_save?_self hsave'
  -- the new ids are above all that were given out, so they respect the order
  have habove : ∀ i j, R.rel i j → i.number < n ∧ j.number < n' := by
    intro i j hij
    obtain ⟨hi, hj⟩ := h.given i j hij
    exact ⟨Int64.lt_of_le_of_lt hi (Table.sequence_lt_nextId hn),
      Int64.lt_of_le_of_lt hj (Table.sequence_lt_nextId hn')⟩
  have hwithin : R.Within (R.extend ⟨n⟩ ⟨n'⟩ habove) := fun _ _ hij => .inl hij
  have hnew : (R.extend ⟨n⟩ ⟨n'⟩ habove).rel ⟨n⟩ ⟨n'⟩ := .inr ⟨rfl, rfl⟩
  have hfolders : (s.next turn).folders = t := by
    show (Op.saveFolder account folder).onFolders s.folders = t
    rw [Op.onFolders, hsave]
  have hfolders' : (s'.next turn).folders = t' := by
    show (Op.saveFolder account folder).onFolders s'.folders = t'
    rw [Op.onFolders, hsave']
  have hsequence : ∀ {x y : FolderTable} {i : FolderId} {m : Int64},
      x.save? account folder = some (i, y) → x.table.nextId? = some m →
        y.table.sequence = m := by
    intro x y i m hxy hm
    obtain ⟨m', hm', hseq, -⟩ := FolderTable.of_save? hxy
    rw [hseq]
    exact Option.some.inj (hm'.symm.trans hm)
  have hrows₀ := h.rows.imp fun _ _ he => he.within hwithin
  refine ⟨R.extend ⟨n⟩ ⟨n'⟩ habove, hwithin, ⟨h.stored, ?_, ?_, h.heartbeat, ?_⟩, ?_⟩
  · rw [hfolders, hfolders', hrows, hrows']
    exact Renaming.saveRow_same hrows₀ hnew _
  · exact h.pending.imp fun _ _ hr => hr.within hwithin
  · intro i j hij
    rw [hfolders, hfolders', hsequence hsave hn, hsequence hsave' hn']
    rcases hij with hij | ⟨rfl, rfl⟩
    · exact ⟨Int64.le_of_lt (habove i j hij).1, Int64.le_of_lt (habove i j hij).2⟩
    · exact ⟨Int64.le_refl _, Int64.le_refl _⟩
  · have htells : turn.tells s.shared =
        .answered ((Op.saveFolder account folder).perform s.repository).result := rfl
    have htells' : turn.tells s'.shared =
        .answered ((Op.saveFolder account folder).perform s'.repository).result := rfl
    rw [htells, htells', Op.perform, Op.perform, State.repository, State.repository,
      saveFolder_ofTables, saveFolder_ofTables, hsave, hsave', hid, hid']
    refine .answered (.ok (.saved ?_))
    have hfound := Renaming.idOf?_same hrows₀ folder.serverId
    generalize FolderTable.idOf? (s.folders.rowsOf account) folder.serverId = found at hfound
    generalize FolderTable.idOf? (s'.folders.rowsOf account) folder.serverId = found' at hfound
    cases hfound with
    | none => exact hnew
    | some hknown => exact hknown

/-- The run of the ping in both states. -/
theorem Mirrors.run (h : Mirrors account R s s') (codec : Codec) (x : Exchange) :
    let turn : Turn := ⟨account, .run codec x⟩
    Mirrors account R (s.next turn) (s'.next turn) ∧
      R.SameTold (turn.tells s.shared) (turn.tells s'.shared) := by
  intro turn
  have hping : s'.shared.ping account = s.shared.ping account :=
    congrArg (Ping.mk account) h.heartbeat
  obtain ⟨r, hr⟩ : ∃ r, turn.ranOver codec x s.shared = r := ⟨_, rfl⟩
  obtain ⟨r', hr'⟩ : ∃ r', turn.ranOver codec x s'.shared = r' := ⟨_, rfl⟩
  have hlists := (Renaming.list_same h.rows).mapError fun e => Error.storage (.store e)
  obtain ⟨hresult, hsent⟩ : Agree R.SameOutcome r.result r'.result ∧ r.sent = r'.sent := by
    rw [← hr, ← hr', Turn.ranOver, Turn.ranOver, hping]
    exact Renaming.run_same rfl hlists x
  -- the adjustment can be read off the outcome, so both runs make the same
  have hadjustment := Renaming.adjustment?_same hresult
  have hafter : r'.ping = r.ping := by
    have hrun : r.ping = (s.shared.ping account).adjustBy r.adjustment? :=
      hr ▸ Ping.run_ping_eq _ _ _ _
    have hrun' : r'.ping = (s'.shared.ping account).adjustBy r'.adjustment? :=
      hr' ▸ Ping.run_ping_eq _ _ _ _
    rw [hrun, hrun', hping, hadjustment]
  have hadjusted : r'.adjusted? = r.adjusted? := by
    rw [Ping.Run.adjusted?, Ping.Run.adjusted?, hafter, hadjustment]
  have hnext : s.next turn = { s with
      stored := writeHeartbeat s.stored account r.adjusted?
      heartbeats := Function.update s.heartbeats account r.ping.heartbeat } := by
    rw [← hr]
    rfl
  have hnext' : s'.next turn = { s' with
      stored := writeHeartbeat s'.stored account r.adjusted?
      heartbeats := Function.update s'.heartbeats account r.ping.heartbeat } := by
    rw [← hadjusted, ← hafter, ← hr']
    rfl
  have htells : turn.tells s.shared = .ran r.result r.sent r.ping.heartbeat.secs := by
    rw [← hr]
    rfl
  have htells' : turn.tells s'.shared = .ran r'.result r.sent r.ping.heartbeat.secs := by
    rw [hsent, ← hafter, ← hr']
    rfl
  rw [hnext, hnext', htells, htells']
  refine ⟨⟨?_, h.rows, h.pending, ?_, h.given⟩, .ran _ _ hresult⟩
  · show (writeHeartbeat s'.stored account r.adjusted?).get? account.number =
      (writeHeartbeat s.stored account r.adjusted?).get? account.number
    exact get?_writeHeartbeat_congr h.stored r.adjusted?
  · exact (Function.update_self account _ s'.heartbeats).trans
      (Function.update_self account _ s.heartbeats).symm

/-- Effects are carried out in both states. -/
theorem Mirrors.apply (h : Mirrors account R s s') {effects effects' : List Effect}
    (heffects : List.Forall₂ R.SameEffect effects effects')
    (room : effects.length ≤ s.requests.left) (room' : effects.length ≤ s'.requests.left) :
    Mirrors account R (s.next ⟨account, .apply effects⟩) (s'.next ⟨account, .apply effects'⟩) ∧
      R.SameTold (Turn.tells ⟨account, .apply effects⟩ s.shared)
        (Turn.tells ⟨account, .apply effects'⟩ s'.shared) := by
  obtain ⟨-, hresult, hpending, -⟩ :=
    applyEffects_ofTables account effects s.stored s.folders s.requests
  obtain ⟨-, hresult', hpending', -⟩ :=
    applyEffects_ofTables account effects' s'.stored s'.folders s'.requests
  rw [heffects.length_eq] at room'
  rw [if_pos room] at hresult
  rw [if_pos room'] at hresult'
  refine ⟨⟨h.stored, h.rows, ?_, h.heartbeat, h.given⟩, ?_⟩
  · show List.Forall₂ R.SameRequest
      (RequestTable.pending (afterEffects account effects s.requests) account)
      (RequestTable.pending (afterEffects account effects' s'.requests) account)
    rw [hpending, hpending', if_pos rfl, if_pos rfl, List.take_of_length_le room,
      List.take_of_length_le room']
    refine List.rel_append h.pending (List.rel_map ?_ heffects)
    intro e e' he
    cases he with
    | syncFolder serverId folderClass hij => exact ⟨.folder hij, rfl⟩
    | refreshFolderList => exact ⟨.folderList, rfl⟩
  · have htells : Turn.tells ⟨account, .apply effects⟩ s.shared = .applied (.ok ()) :=
      congrArg Told.applied hresult
    have htells' : Turn.tells ⟨account, .apply effects'⟩ s'.shared = .applied (.ok ()) :=
      congrArg Told.applied hresult'
    rw [htells, htells']
    exact .applied _

/-- **An own turn, made in both states**, tells the account the same, and leaves states that mirror
each other. -/
theorem Mirrors.own (h : Mirrors turn.account R s s') (hturn : R.SameTurn turn turn')
    (haddressed : turn.Addressed) (hsaves : turn.saves ≤ s.folders.table.left)
    (hsaves' : turn.saves ≤ s'.folders.table.left) (hrecords : turn.records ≤ s.requests.left)
    (hrecords' : turn.records ≤ s'.requests.left) :
    ∃ R' : Renaming, R.Within R' ∧ Mirrors turn.account R' (s.next turn) (s'.next turn') ∧
      R'.SameTold (turn.tells s.shared) (turn'.tells s'.shared) := by
  cases hturn with
  | start owner config =>
      obtain ⟨hnext, htold⟩ := h.start config
      exact ⟨R, fun _ _ hij => hij, hnext, htold⟩
  | call owner hop =>
      rename_i op op'
      by_cases hsave : op.Saves
      · cases op with
        | saveFolder owner' folder =>
            obtain rfl : owner' = owner := haddressed
            cases hop with
            | other => exact h.save folder hsaves hsaves'
        | heartbeat | setHeartbeat | setSyncKey | setAutoSync | listFolders | recordRequest
        | request | pendingRequests | takePendingRequests | deleteAccount => cases hsave
      · have hsave' : op.Saves = false := by simpa using hsave
        have room : ∀ {n : Nat}, Turn.records ⟨owner, .call op⟩ ≤ n → op.Records → 0 < n := by
          intro n hn hop
          have hone : Turn.records ⟨owner, .call op⟩ = 1 := if_pos hop
          omega
        refine ⟨R, fun _ _ hij => hij,
          h.call hop haddressed hsave' (room hrecords) (room hrecords'), ?_⟩
        exact .answered
          (result_same h hop haddressed hsave' (room hrecords) (room hrecords'))
  | run owner codec x =>
      obtain ⟨hnext, htold⟩ := h.run codec x
      exact ⟨R, fun _ _ hij => hij, hnext, htold⟩
  | apply owner heffects =>
      obtain ⟨hnext, htold⟩ := h.apply heffects hrecords hrecords'
      exact ⟨R, fun _ _ hij => hij, hnext, htold⟩

/-! ## Runs -/

theorem saves_eq_of_sameTurn (h : R.SameTurn turn turn') : turn.saves = turn'.saves := by
  cases h with
  | start => rfl
  | call owner hop => cases hop <;> rfl
  | run => rfl
  | apply => rfl

theorem records_eq_of_sameTurn (h : R.SameTurn turn turn') : turn.records = turn'.records := by
  cases h with
  | start => rfl
  | call owner hop => cases hop <;> rfl
  | run => rfl
  | apply owner heffects => exact heffects.length_eq

/-- What two states that mirror each other tell an account over turns: over all of them in the
one, and over its own in the other. The invariant is that the states mirror each other under a
renaming that knows what the account knows. -/
theorem told_of_mirrors {turns : List Turn} {k : Knowledge} (h : Mirrors account R s s')
    (hproper : Proper k turns s.shared) (hsound : k.Sound s.folders)
    (hknows : ∀ id, k.Has account id → R.Knows id) (room : Room turns s)
    (room' : Room (turns.filter (·.account = account)) s') :
    ∃ (R' : Renaming) (own : List Turn), R.Within R' ∧
      List.Forall₂ R'.SameTurn (turns.filter (·.account = account)) own ∧
      List.Forall₂ R'.SameTold (told account turns s.shared) (told account own s'.shared) ∧
      Mirrors account R' (s.after turns) (s'.after own) := by
  induction turns generalizing k R s s' with
  | nil => exact ⟨R, [], fun _ _ hij => hij, .nil, .nil, h⟩
  | cons turn turns ih =>
      obtain ⟨haddressed, htarget, hnamed, hrest⟩ := hproper
      rw [next_shared] at hrest
      have hsound' := hsound.next haddressed
      by_cases haccount : turn.account = account
      -- an own turn is made in both states
      · subst haccount
        have hfilter : (turn :: turns).filter (·.account = turn.account) =
            turn :: turns.filter (·.account = turn.account) :=
          List.filter_cons_of_pos (by simp)
        rw [hfilter] at room' ⊢
        obtain ⟨turn', hturn⟩ := Renaming.exists_sameTurn fun id hid => hknows id (hnamed id hid)
        have hsaves := saves_eq_of_sameTurn hturn
        have hrecords := records_eq_of_sameTurn hturn
        have hroom := room.saves
        have hroom' := room'.saves
        have hrequests := room.records
        have hrequests' := room'.records
        rw [List.map_cons, List.sum_cons] at hroom hroom' hrequests hrequests'
        obtain ⟨R₁, hwithin₁, h₁, htold⟩ := h.own hturn haddressed (by omega) (by omega) (by omega)
          (by omega)
        have hknows₁ : ∀ id, (k.learn turn.account (turn.tells s.shared)).Has turn.account id →
            R₁.Knows id := by
          intro id hid
          rcases Knowledge.has_learn.1 hid with hid | ⟨-, hid⟩
          · obtain ⟨j, hj⟩ := hknows id hid
            exact ⟨j, hwithin₁ _ _ hj⟩
          · exact htold.knows hid
        have hleft' : Room (turns.filter (·.account = turn.account)) (s'.next turn') := by
          obtain ⟨hfolders, hrequests⟩ := left_next turn' s'
          exact ⟨by omega, by omega⟩
        obtain ⟨R₂, own, hwithin₂, hown, htolds, h₂⟩ :=
          ih h₁ hrest hsound' hknows₁ room.next hleft'
        refine ⟨R₂, turn' :: own, fun _ _ hij => hwithin₂ _ _ (hwithin₁ _ _ hij),
          .cons ((hturn.within hwithin₁).within hwithin₂) hown, ?_, h₂⟩
        have hactor : turn'.account = turn.account := by cases hturn <;> rfl
        rw [told, told, if_pos rfl, if_pos hactor, next_shared, next_shared]
        exact .cons (htold.within hwithin₂) htolds
      -- a turn of another account is made in one of them only
      · have hfilter : (turn :: turns).filter (·.account = account) =
            turns.filter (·.account = account) :=
          List.filter_cons_of_neg (by simpa using haccount)
        rw [hfilter] at room' ⊢
        have h₁ := h.other haccount haddressed fun id hid =>
          hsound turn.account id (htarget id hid)
        have hknows₁ : ∀ id, (k.learn turn.account (turn.tells s.shared)).Has account id →
            R.Knows id := by
          intro id hid
          rcases Knowledge.has_learn.1 hid with hid | ⟨heq, -⟩
          · exact hknows id hid
          · exact absurd heq haccount
        obtain ⟨R₂, own, hwithin₂, hown, htolds, h₂⟩ :=
          ih h₁ hrest hsound' hknows₁ room.next room'
        refine ⟨R₂, own, hwithin₂, hown, ?_, h₂⟩
        rw [told, if_neg haccount, next_shared]
        exact htolds

/-! ## Independence -/

theorem mirrors_self (s : State)
    (hgiven : ∀ request ∈ RequestTable.pending s.requests account, ∀ id,
      request.kind = .folder id → id.number ≤ s.folders.table.sequence) :
    Mirrors account (.upTo s.folders.table.sequence) s s where
  stored := rfl
  rows := by
    rw [List.forall₂_same]
    intro e he
    exact ⟨⟨rfl, s.folders.table.le_sequence e (FolderTable.mem_rowsOf.1 he).1⟩, rfl⟩
  pending := by
    rw [List.forall₂_same]
    intro request hrequest
    refine ⟨?_, rfl⟩
    cases hkind : request.kind with
    | folder id => exact .folder ⟨rfl, hgiven request hrequest id hkind⟩
    | folderList => exact .folderList
    | ping => exact .ping
  heartbeat := rfl
  given := by
    rintro i _ ⟨rfl, hi⟩
    exact ⟨hi, hi⟩

/-- There is room for some of the turns where there is room for all. -/
theorem Room.filter {turns : List Turn} (h : Room turns s) (p : Turn → Bool) :
    Room (turns.filter p) s where
  saves := Nat.le_trans ((List.filter_sublist.map _).sum_le_sum fun _ _ => Nat.zero_le _) h.saves
  records :=
    Nat.le_trans ((List.filter_sublist.map _).sum_le_sum fun _ _ => Nat.zero_le _) h.records

/-- **Accounts do not observe each other.** Accounts take turns over any three tables; each acts
for itself, and with the folder ids that it knew at the start, which are its own, or has been told
since. The requests that are pending for the account at the start name ids that were given out
before. There are numbers for all that the accounts save and record.

Then there are turns of one account alone, the same as its own up to a renaming of folder ids that
respects their order, over which it is told the same up to the renaming: its outcomes, messages,
deadlines and heartbeats, the answers to its calls, and at the end its heartbeats, its folders and
its pending requests. -/
theorem independence (account : AccountId) (s : State) (turns : List Turn)
    (known : AccountId → List FolderId) (proper : Proper ⟨known, fun _ => []⟩ turns s.shared)
    (owned : ∀ other, ∀ id ∈ known other, s.folders.Owns other id)
    (given : ∀ request ∈ RequestTable.pending s.requests account, ∀ id,
      request.kind = .folder id → id.number ≤ s.folders.table.sequence)
    (room : Room turns s) :
    ∃ (R : Renaming) (own : List Turn),
      List.Forall₂ R.SameTurn (turns.filter (·.account = account)) own ∧
      List.Forall₂ R.SameTold (told account turns s.shared) (told account own s.shared) ∧
      (after own s.shared).heartbeats account = (after turns s.shared).heartbeats account ∧
      ∀ op ∈ [Op.heartbeat account, .listFolders account, .pendingRequests account],
        R.SameTold (Turn.tells ⟨account, .call op⟩ (after turns s.shared))
          (Turn.tells ⟨account, .call op⟩ (after own s.shared)) := by
  have hknows : ∀ id, Knowledge.Has ⟨known, fun _ => []⟩ account id →
      (Renaming.upTo s.folders.table.sequence).Knows id := by
    rintro id (hid | hid)
    · exact ⟨id, rfl, (owned account id hid).1⟩
    · cases hid
  obtain ⟨R, own, -, hown, htold, hmirrors⟩ :=
    told_of_mirrors (mirrors_self s given) proper owned hknows room (room.filter _)
  refine ⟨R, own, hown, htold, ?_, ?_⟩
  · rw [after_shared, after_shared]
    exact hmirrors.heartbeat
  · intro op hop
    rw [after_shared, after_shared]
    simp only [List.mem_cons, List.not_mem_nil, or_false] at hop
    rcases hop with rfl | rfl | rfl
    · exact .answered (result_same hmirrors (.other rfl rfl) rfl rfl nofun nofun)
    · exact .answered (result_same hmirrors (.other rfl rfl) rfl rfl nofun nofun)
    · exact .answered (result_same hmirrors (.other rfl rfl) rfl rfl nofun nofun)

/-- An empty repository, and heartbeats of the standard policy. -/
def State.empty : State := ⟨.empty, .empty, .empty, fun _ => .restore .standard none⟩

/-- Two accounts take turns. The second one registers a folder before the first one does, sets its
sync key, deletes itself and records a request; the first one is told of a change in its folder,
carries it out, and takes the request. -/
def interleaved : List Turn :=
  [⟨⟨2⟩, .call (.saveFolder ⟨2⟩ ⟨"inbox", .email, none, true⟩)⟩,
    ⟨⟨1⟩, .call (.saveFolder ⟨1⟩ ⟨"inbox", .email, none, true⟩)⟩,
    ⟨⟨2⟩, .call (.setSyncKey ⟨1⟩ (some "9"))⟩,
    ⟨⟨1⟩, .call (.setSyncKey ⟨2⟩ (some "5"))⟩,
    ⟨⟨2⟩, .call (.deleteAccount ⟨2⟩)⟩,
    ⟨⟨1⟩, .run ⟨fun _ => .ok [0], fun _ => .ok ⟨.changesFound, ["inbox"], none, none⟩⟩
      ⟨.ok [0], some .zero, none⟩⟩,
    ⟨⟨2⟩, .call (.recordRequest ⟨2⟩ .ping)⟩,
    ⟨⟨1⟩, .apply [.syncFolder ⟨2⟩ "inbox" .email]⟩,
    ⟨⟨1⟩, .call (.takePendingRequests ⟨1⟩)⟩]

/-- The first account has the folder id 2 where it would have 1 on its own, and is told the same
otherwise. -/
theorem independence_interleaved :
    Proper ⟨fun _ => [], fun _ => []⟩ interleaved State.empty.shared ∧
    ∃ (R : Renaming) (own : List Turn), R.rel ⟨2⟩ ⟨1⟩ ∧
      List.Forall₂ R.SameTurn (interleaved.filter (·.account = ⟨1⟩)) own ∧
      List.Forall₂ R.SameTold (told ⟨1⟩ interleaved State.empty.shared)
        (told ⟨1⟩ own State.empty.shared) := by
  have proper : Proper ⟨fun _ => [], fun _ => []⟩ interleaved State.empty.shared := by decide
  have room : Room interleaved State.empty := ⟨by decide, by decide⟩
  obtain ⟨R, own, hown, htold, -⟩ :=
    independence ⟨1⟩ .empty interleaved (fun _ => []) proper nofun nofun room
  refine ⟨proper, R, own, ?_, hown, htold⟩
  -- the first turn is the same on its own, and yields another id there
  obtain ⟨turn, rest, hturn, -, rfl⟩ := List.forall₂_cons_left_iff.1 hown
  cases hturn with
  | call _ hop =>
      cases hop with
      | other =>
          have hfirst : R.SameTold (.answered (.ok (.saved ⟨2⟩))) (.answered (.ok (.saved ⟨1⟩))) :=
            (List.forall₂_cons.1 htold).1
          cases hfirst with
          | answered hresult =>
              cases hresult with
              | ok hvalue =>
                  cases hvalue with
                  | saved hid => exact hid

end MailPush.Accounts
