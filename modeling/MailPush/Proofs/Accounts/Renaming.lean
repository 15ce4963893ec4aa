import Mathlib.Data.List.Forall2
import MailPush.Proofs.Accounts.Turns

set_option autoImplicit false

/-! # Renaming folder ids

Two runs in which an account gets different numbers for its folders, in the same order, are the
same up to a renaming (`Renaming`): a relation between folder ids that respects their order, and
so relates each id to one at most. Everything in which a folder id can occur is the same up to a
renaming when it is the same but for related ids (`SameFolder` and what follows it).

A renaming may grow (`Within`), and what is the same up to a renaming is so up to a larger one. A
turn that names only ids which are renamed (`Knows`) can be made by the renamed ids instead
(`exists_sameTurn`).
-/

namespace MailPush.Accounts

open Repository

/-- A relation between folder ids that respects their order. -/
structure Renaming where
  rel : FolderId → FolderId → Prop
  order : ∀ {a b c d}, rel a b → rel c d → (a.number < c.number ↔ b.number < d.number)

/-- Two results are both values, which are related, or both the same error. -/
inductive Agree {ε α β : Type} (r : α → β → Prop) : Except ε α → Except ε β → Prop
  | ok {a : α} {b : β} : r a b → Agree r (.ok a) (.ok b)
  | error (e : ε) : Agree r (.error e) (.error e)

namespace Agree

variable {ε ε' α β γ δ : Type} {r : α → β → Prop} {x : Except ε α} {y : Except ε β}

theorem imp {r' : α → β → Prop} (h : Agree r x y) (hr : ∀ a b, r a b → r' a b) :
    Agree r' x y := by
  cases h with
  | ok hab => exact .ok (hr _ _ hab)
  | error e => exact .error e

theorem mapError (h : Agree r x y) (f : ε → ε') : Agree r (x.mapError f) (y.mapError f) := by
  cases h with
  | ok hab => exact .ok hab
  | error e => exact .error (f e)

theorem map {r' : γ → δ → Prop} (h : Agree r x y) {f : α → γ} {g : β → δ}
    (hfg : ∀ a b, r a b → r' (f a) (g b)) : Agree r' (x.map f) (y.map g) := by
  cases h with
  | ok hab => exact .ok (hfg _ _ hab)
  | error e => exact .error e

end Agree

namespace Renaming

variable {R : Renaming}

/-- Each id is related to one at most, and only one is related to it. -/
theorem eq_iff {a b c d : FolderId} (hab : R.rel a b) (hcd : R.rel c d) : a = c ↔ b = d := by
  constructor
  · rintro rfl
    have hlt : ¬ b.number < d.number := fun h => Int64.lt_irrefl ((R.order hab hcd).2 h)
    have hgt : ¬ d.number < b.number := fun h => Int64.lt_irrefl ((R.order hcd hab).2 h)
    exact FolderId.number_inj.1 (Int64.le_antisymm (Int64.not_lt.1 hgt) (Int64.not_lt.1 hlt))
  · rintro rfl
    have hlt : ¬ a.number < c.number := fun h => Int64.lt_irrefl ((R.order hab hcd).1 h)
    have hgt : ¬ c.number < a.number := fun h => Int64.lt_irrefl ((R.order hcd hab).1 h)
    exact FolderId.number_inj.1 (Int64.le_antisymm (Int64.not_lt.1 hgt) (Int64.not_lt.1 hlt))

/-- The renaming that leaves the ids up to a number as they are. -/
def upTo (n : Int64) : Renaming where
  rel a b := a = b ∧ a.number ≤ n
  order := by
    rintro a b c d ⟨rfl, -⟩ ⟨rfl, -⟩
    exact Iff.rfl

/-- The renaming with a pair of ids that are above all others. -/
def extend (R : Renaming) (i j : FolderId)
    (h : ∀ a b, R.rel a b → a.number < i.number ∧ b.number < j.number) : Renaming where
  rel a b := R.rel a b ∨ a = i ∧ b = j
  order := by
    rintro a b c d (hab | ⟨rfl, rfl⟩) (hcd | ⟨rfl, rfl⟩)
    · exact R.order hab hcd
    · exact iff_of_true (h a b hab).1 (h a b hab).2
    · obtain ⟨hc, hd⟩ := h c d hcd
      exact iff_of_false (Int64.lt_asymm hc) (Int64.lt_asymm hd)
    · exact iff_of_false Int64.lt_irrefl Int64.lt_irrefl

/-- One renaming renames all that another one does. -/
def Within (R R' : Renaming) : Prop := ∀ a b, R.rel a b → R'.rel a b

/-- A renaming renames an id. -/
def Knows (R : Renaming) (id : FolderId) : Prop := ∃ j, R.rel id j

/-! ## The same up to a renaming -/

/-- Folders that differ in their ids alone. -/
def SameFolder (R : Renaming) (f g : Folder) : Prop := R.rel f.id g.id ∧ g = { f with id := g.id }

/-- Rows that differ in their numbers alone. -/
def SameRow (R : Renaming) (e e' : Int64 × FolderRow) : Prop := R.rel ⟨e.1⟩ ⟨e'.1⟩ ∧ e.2 = e'.2

inductive SameKind (R : Renaming) : SyncRequestKind → SyncRequestKind → Prop
  | folder {i j : FolderId} : R.rel i j → SameKind R (.folder i) (.folder j)
  | folderList : SameKind R .folderList .folderList
  | ping : SameKind R .ping .ping

/-- Requests that differ in the folder of their kind alone. -/
def SameRequest (R : Renaming) (r r' : SyncRequest) : Prop :=
  R.SameKind r.kind r'.kind ∧ r' = { r with kind := r'.kind }

inductive SameEffect (R : Renaming) : Effect → Effect → Prop
  | syncFolder {i j : FolderId} (serverId : String) (folderClass : FolderClass) : R.rel i j →
      SameEffect R (.syncFolder i serverId folderClass) (.syncFolder j serverId folderClass)
  | refreshFolderList : SameEffect R .refreshFolderList .refreshFolderList

inductive SameOutcome (R : Renaming) : Outcome → Outcome → Prop
  | completed (c : Classification) {effects effects' : List Effect} :
      List.Forall₂ R.SameEffect effects effects' →
      SameOutcome R (.completed c effects) (.completed c effects')
  | other {outcome : Outcome} : (∀ c effects, outcome ≠ .completed c effects) →
      SameOutcome R outcome outcome

inductive SameValue (R : Renaming) : Value → Value → Prop
  | done : SameValue R .done .done
  | heartbeat (secs : Option UInt64) : SameValue R (.heartbeat secs) (.heartbeat secs)
  | saved {i j : FolderId} : R.rel i j → SameValue R (.saved i) (.saved j)
  | folders {list list' : List Folder} : List.Forall₂ R.SameFolder list list' →
      SameValue R (.folders list) (.folders list')
  | requests {list list' : List SyncRequest} : List.Forall₂ R.SameRequest list list' →
      SameValue R (.requests list) (.requests list')

inductive SameOp (R : Renaming) : Op → Op → Prop
  | setSyncKey {i j : FolderId} (syncKey : Option String) : R.rel i j →
      SameOp R (.setSyncKey i syncKey) (.setSyncKey j syncKey)
  | recordRequest (account : AccountId) {kind kind' : SyncRequestKind} : R.SameKind kind kind' →
      SameOp R (.recordRequest account kind) (.recordRequest account kind')
  | request (account : AccountId) {kind kind' : SyncRequestKind} : R.SameKind kind kind' →
      SameOp R (.request account kind) (.request account kind')
  | other {op : Op} : op.target? = none → op.Records = false → SameOp R op op

/-- Turns of one account that differ in the folders which they name alone. -/
inductive SameTurn (R : Renaming) : Turn → Turn → Prop
  | start (account : AccountId) (config : PushConfig) :
      SameTurn R ⟨account, .start config⟩ ⟨account, .start config⟩
  | call (account : AccountId) {op op' : Op} : R.SameOp op op' →
      SameTurn R ⟨account, .call op⟩ ⟨account, .call op'⟩
  | run (account : AccountId) (codec : Codec) (x : Exchange) :
      SameTurn R ⟨account, .run codec x⟩ ⟨account, .run codec x⟩
  | apply (account : AccountId) {effects effects' : List Effect} :
      List.Forall₂ R.SameEffect effects effects' →
      SameTurn R ⟨account, .apply effects⟩ ⟨account, .apply effects'⟩

/-- An account is told the same, but for the ids of its folders. -/
inductive SameTold (R : Renaming) : Told → Told → Prop
  | started (result : Except Error Heartbeat) : SameTold R (.started result) (.started result)
  | answered {result result' : Except Error Value} : Agree R.SameValue result result' →
      SameTold R (.answered result) (.answered result')
  | ran {result result' : Except Error Outcome} (sent : Option Ping.Message) (secs : UInt64) :
      Agree R.SameOutcome result result' →
      SameTold R (.ran result sent secs) (.ran result' sent secs)
  | applied (result : Except Error Unit) : SameTold R (.applied result) (.applied result)

/-! ## Larger renamings -/

section Within

variable {R' : Renaming} (h : R.Within R')

include h

theorem SameFolder.within {f g : Folder} (hfg : R.SameFolder f g) : R'.SameFolder f g :=
  ⟨h _ _ hfg.1, hfg.2⟩

theorem SameRow.within {e e' : Int64 × FolderRow} (he : R.SameRow e e') : R'.SameRow e e' :=
  ⟨h _ _ he.1, he.2⟩

theorem SameKind.within {kind kind' : SyncRequestKind} (hkind : R.SameKind kind kind') :
    R'.SameKind kind kind' := by
  cases hkind with
  | folder hij => exact .folder (h _ _ hij)
  | folderList => exact .folderList
  | ping => exact .ping

theorem SameRequest.within {r r' : SyncRequest} (hr : R.SameRequest r r') :
    R'.SameRequest r r' :=
  ⟨hr.1.within h, hr.2⟩

theorem SameEffect.within {e e' : Effect} (he : R.SameEffect e e') : R'.SameEffect e e' := by
  cases he with
  | syncFolder serverId folderClass hij => exact .syncFolder serverId folderClass (h _ _ hij)
  | refreshFolderList => exact .refreshFolderList

theorem SameOutcome.within {o o' : Outcome} (ho : R.SameOutcome o o') : R'.SameOutcome o o' := by
  cases ho with
  | completed c heffects => exact .completed c (heffects.imp fun _ _ he => he.within h)
  | other hne => exact .other hne

theorem SameValue.within {v v' : Value} (hv : R.SameValue v v') : R'.SameValue v v' := by
  cases hv with
  | done => exact .done
  | heartbeat secs => exact .heartbeat secs
  | saved hij => exact .saved (h _ _ hij)
  | folders hlist => exact .folders (hlist.imp fun _ _ hf => hf.within h)
  | requests hlist => exact .requests (hlist.imp fun _ _ hr => hr.within h)

theorem SameOp.within {op op' : Op} (hop : R.SameOp op op') : R'.SameOp op op' := by
  cases hop with
  | setSyncKey syncKey hij => exact .setSyncKey syncKey (h _ _ hij)
  | recordRequest account hkind => exact .recordRequest account (hkind.within h)
  | request account hkind => exact .request account (hkind.within h)
  | other htarget hrecords => exact .other htarget hrecords

theorem SameTurn.within {turn turn' : Turn} (hturn : R.SameTurn turn turn') :
    R'.SameTurn turn turn' := by
  cases hturn with
  | start account config => exact .start account config
  | call account hop => exact .call account (hop.within h)
  | run account codec x => exact .run account codec x
  | apply account heffects => exact .apply account (heffects.imp fun _ _ he => he.within h)

theorem SameTold.within {t t' : Told} (ht : R.SameTold t t') : R'.SameTold t t' := by
  cases ht with
  | started result => exact .started result
  | answered hresult => exact .answered (hresult.imp fun _ _ hv => hv.within h)
  | ran sent secs hresult => exact .ran sent secs (hresult.imp fun _ _ ho => ho.within h)
  | applied result => exact .applied result

end Within

/-! ## Renaming what is known -/

theorem exists_sameKind {kind : SyncRequestKind} (h : ∀ id ∈ kind.folderId?, R.Knows id) :
    ∃ kind', R.SameKind kind kind' := by
  cases kind with
  | folder id =>
      obtain ⟨j, hj⟩ := h id rfl
      exact ⟨.folder j, .folder hj⟩
  | folderList => exact ⟨.folderList, .folderList⟩
  | ping => exact ⟨.ping, .ping⟩

theorem exists_sameEffects {effects : List Effect}
    (h : ∀ id ∈ effects.filterMap effectFolder?, R.Knows id) :
    ∃ effects', List.Forall₂ R.SameEffect effects effects' := by
  induction effects with
  | nil => exact ⟨[], .nil⟩
  | cons effect effects ih =>
      cases effect with
      | syncFolder i serverId folderClass =>
          obtain ⟨j, hj⟩ := h i List.mem_cons_self
          obtain ⟨effects', heffects⟩ := ih fun id hid => h id (List.mem_cons_of_mem _ hid)
          exact ⟨_, .cons (.syncFolder serverId folderClass hj) heffects⟩
      | refreshFolderList =>
          obtain ⟨effects', heffects⟩ := ih h
          exact ⟨_, .cons .refreshFolderList heffects⟩

/-- A turn that names known folders can be renamed. -/
theorem exists_sameTurn {turn : Turn} (h : ∀ id ∈ turn.named, R.Knows id) :
    ∃ turn', R.SameTurn turn turn' := by
  obtain ⟨account, move⟩ := turn
  cases move with
  | start config => exact ⟨_, .start account config⟩
  | call op =>
      cases op with
      | setSyncKey i syncKey =>
          obtain ⟨j, hj⟩ := h i List.mem_cons_self
          exact ⟨_, .call account (.setSyncKey syncKey hj)⟩
      | recordRequest owner kind =>
          obtain ⟨kind', hkind⟩ := exists_sameKind fun id hid => h id (Option.mem_toList.2 hid)
          exact ⟨_, .call account (.recordRequest owner hkind)⟩
      | request owner kind =>
          obtain ⟨kind', hkind⟩ := exists_sameKind fun id hid => h id (Option.mem_toList.2 hid)
          exact ⟨_, .call account (.request owner hkind)⟩
      | heartbeat | setHeartbeat | saveFolder | setAutoSync | listFolders | pendingRequests
      | takePendingRequests | deleteAccount => exact ⟨_, .call account (.other rfl rfl)⟩
  | run codec x => exact ⟨_, .run account codec x⟩
  | apply effects =>
      obtain ⟨effects', heffects⟩ := exists_sameEffects h
      exact ⟨_, .apply account heffects⟩

theorem exists_of_forall₂ {α β : Type} {r : α → β → Prop} {l : List α} {l' : List β}
    (h : List.Forall₂ r l l') {a : α} (ha : a ∈ l) : ∃ b, r a b := by
  obtain ⟨i, hi, rfl⟩ := List.mem_iff_getElem.1 ha
  exact ⟨_, h.get hi (h.length_eq ▸ hi)⟩

theorem SameRequest.knows {r r' : SyncRequest} (h : R.SameRequest r r') {id : FolderId}
    (hid : r.kind.folderId? = some id) : R.Knows id := by
  obtain ⟨hkind, -⟩ := h
  generalize r'.kind = kind' at hkind
  generalize r.kind = kind at hkind hid
  cases hkind with
  | folder hij =>
      cases hid
      exact ⟨_, hij⟩
  | folderList => cases hid
  | ping => cases hid

theorem SameEffect.knows {e e' : Effect} (h : R.SameEffect e e') {id : FolderId}
    (hid : effectFolder? e = some id) : R.Knows id := by
  cases h with
  | syncFolder serverId folderClass hij =>
      cases hid
      exact ⟨_, hij⟩
  | refreshFolderList => cases hid

theorem SameOutcome.knows {o o' : Outcome} (h : R.SameOutcome o o') {id : FolderId}
    (hid : id ∈ outcomeFolders o) : R.Knows id := by
  cases o with
  | completed c effects =>
      obtain ⟨e, he, hfolder⟩ := List.mem_filterMap.1 hid
      cases h with
      | completed _ heffects =>
          obtain ⟨e', hsame⟩ := exists_of_forall₂ heffects he
          exact hsame.knows hfolder
      | other hne => exact absurd rfl (hne c effects)
  | nothingToWatch | fatalAuth | fatalProtocol | retryLater | operationFailure | cancelled =>
      cases hid

theorem SameValue.knows {v v' : Value} (h : R.SameValue v v') {id : FolderId}
    (hid : id ∈ valueFolders v ∨ id ∈ valueRequested v) : R.Knows id := by
  cases h with
  | done => rcases hid with hid | hid <;> cases hid
  | heartbeat secs => rcases hid with hid | hid <;> cases hid
  | saved hij =>
      rcases hid with hid | hid
      · exact ⟨_, List.mem_singleton.1 hid ▸ hij⟩
      · cases hid
  | folders hlist =>
      rcases hid with hid | hid
      · obtain ⟨f, hf, rfl⟩ := List.mem_map.1 hid
        obtain ⟨g, hg⟩ := exists_of_forall₂ hlist hf
        exact ⟨g.id, hg.1⟩
      · cases hid
  | requests hlist =>
      rcases hid with hid | hid
      · cases hid
      · obtain ⟨r, hr, hfolder⟩ := List.mem_filterMap.1 hid
        obtain ⟨r', hsame⟩ := exists_of_forall₂ hlist hr
        exact hsame.knows hfolder

/-- A renaming under which an account is told the same knows the ids in what it is told. -/
theorem SameTold.knows {t t' : Told} (h : R.SameTold t t') {id : FolderId}
    (hid : id ∈ t.folders ∨ id ∈ t.requested) : R.Knows id := by
  cases h with
  | started result => rcases hid with hid | hid <;> cases hid
  | answered hresult =>
      cases hresult with
      | ok hvalue => exact hvalue.knows hid
      | error e => rcases hid with hid | hid <;> cases hid
  | ran sent secs hresult =>
      cases hresult with
      | ok houtcome =>
          rcases hid with hid | hid
          · exact houtcome.knows hid
          · cases hid
      | error e => rcases hid with hid | hid <;> cases hid
  | applied result => rcases hid with hid | hid <;> cases hid

end Renaming

end MailPush.Accounts
