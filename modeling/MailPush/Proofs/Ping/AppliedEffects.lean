import MailPush.Proofs.Store.Tables
import MailPush.Scripted
import MailPush.Ping.Run
import MailPush.Store.Repository

set_option autoImplicit false

/-! # Effects up to the first that fails

Carrying out effects makes one request to the registry after the other, and stops at the first one
that is refused. Two things are said of the requests: which ones were attempted, by a log that is
kept beside the world (`FolderRegistry.logged`), and which ones the registry has recorded, for a
registry that records what it takes and nothing else (`FolderRegistry.Records`). The repository and
the scripted registry are such registries.

Effects of two lists are carried out like those of the first, followed by those of the second if the
first succeeded (`applyEffects_append`), so what was left over can be carried out later
(`effects_applied_until_failure`).
-/

namespace MailPush

variable {σ : Type}

/-! ## One request after the other -/

/-- A call, followed by another one if it succeeded. -/
def Answer.andThen (a : Answer σ Unit) (next : σ → Answer σ Unit) : Answer σ Unit :=
  match a.result with
  | .error _ => a
  | .ok () => ⟨(next a.world).result, (next a.world).world, a.events ++ (next a.world).events⟩

namespace Answer

variable {a : Answer σ Unit} {next more : σ → Answer σ Unit}

theorem andThen_of_error {e : Error} (h : a.result = .error e) : a.andThen next = a := by
  simp only [andThen, h]

theorem andThen_of_ok (h : a.result = .ok ()) :
    a.andThen next =
      ⟨(next a.world).result, (next a.world).world, a.events ++ (next a.world).events⟩ := by
  simp only [andThen, h]

theorem andThen_assoc (a : Answer σ Unit) (next more : σ → Answer σ Unit) :
    (a.andThen next).andThen more = a.andThen fun world => (next world).andThen more := by
  cases ha : a.result with
  | error e => rw [andThen_of_error ha, andThen_of_error ha, andThen_of_error ha]
  | ok _ =>
      rw [andThen_of_ok ha, andThen_of_ok ha]
      cases hnext : (next a.world).result with
      | error e => rw [andThen_of_error hnext, andThen_of_error rfl, hnext]
      | ok _ => rw [andThen_of_ok hnext, andThen_of_ok rfl, List.append_assoc]

end Answer

section Applying

variable {registry : FolderRegistry σ} {account : AccountId} {effect : Effect}
  {effects : List Effect} {world : σ}

theorem applyEffects_cons (registry : FolderRegistry σ) (account : AccountId) (effect : Effect)
    (effects : List Effect) (world : σ) :
    applyEffects registry account (effect :: effects) world =
      (registry.request account effect.requestKind world).andThen
        (applyEffects registry account effects) := by
  rw [applyEffects]
  generalize registry.request account effect.requestKind world = made
  obtain ⟨result, _, _⟩ := made
  cases result <;> rfl

/-- **Effects of two lists are carried out one list after the other**, the second one only if the
first one succeeded. -/
theorem applyEffects_append (registry : FolderRegistry σ) (account : AccountId)
    (xs ys : List Effect) (world : σ) :
    applyEffects registry account (xs ++ ys) world =
      (applyEffects registry account xs world).andThen (applyEffects registry account ys) := by
  induction xs generalizing world with
  | nil => rw [List.nil_append, applyEffects, Answer.andThen_of_ok rfl, List.nil_append]
  | cons x xs ih =>
      have hxs : applyEffects registry account (xs ++ ys) = _ := funext fun world => ih world
      rw [List.cons_append, applyEffects_cons, applyEffects_cons, Answer.andThen_assoc, hxs]

/-- A registry that refuses nothing, in the worlds which it gets into, carries out all effects. -/
theorem applyEffects_eq_ok {works : σ → Prop} (hworld : works world)
    (h : ∀ kind world, works world → (registry.request account kind world).result = .ok () ∧
      works (registry.request account kind world).world) :
    (applyEffects registry account effects world).result = .ok () := by
  induction effects generalizing world with
  | nil => rfl
  | cons effect effects ih =>
      obtain ⟨hok, hnext⟩ := h effect.requestKind world hworld
      rw [applyEffects_cons, Answer.andThen_of_ok hok]
      exact ih hnext

end Applying

/-! ## What is attempted, and what is recorded -/

/-- A request that was made to a registry, and how it was answered. -/
structure Attempt where
  account : AccountId
  kind : SyncRequestKind
  result : Except Error Unit

/-- An answer with a log of attempts beside its world. -/
def Answer.withAttempts {α : Type} (a : Answer σ α) (log : List Attempt) :
    Answer (σ × List Attempt) α :=
  ⟨a.result, (a.world, log), a.events⟩

namespace FolderRegistry

/-- The same registry, keeping a log of the requests made to it beside its world. -/
def logged (registry : FolderRegistry σ) : FolderRegistry (σ × List Attempt) where
  folders account w := (registry.folders account w.1).withAttempts w.2
  request account kind w :=
    let made := registry.request account kind w.1
    made.withAttempts (w.2 ++ [⟨account, kind, made.result⟩])

/-- What a registry records are the requests that it takes, each once and in the order in which they
are made. -/
structure Records (registry : FolderRegistry σ)
    (recorded : σ → List (AccountId × SyncRequestKind)) : Prop where
  taken : ∀ account kind world, (registry.request account kind world).result = .ok () →
    recorded (registry.request account kind world).world = recorded world ++ [(account, kind)]
  refused : ∀ account kind world e, (registry.request account kind world).result = .error e →
    recorded (registry.request account kind world).world = recorded world

end FolderRegistry

/-- The request of an effect, as a registry records it. -/
def Effect.request (account : AccountId) (effect : Effect) : AccountId × SyncRequestKind :=
  (account, effect.requestKind)

/-- The attempts to carry out effects, when the registry takes those of `before` and answers the
first one of `rest` with `result`. -/
def attempts (account : AccountId) (before rest : List Effect) (result : Except Error Unit) :
    List Attempt :=
  before.map (fun effect => ⟨account, effect.requestKind, .ok ()⟩) ++
    rest.head?.toList.map fun effect => ⟨account, effect.requestKind, result⟩

/-- Effects are carried out up to the first one of `rest`. It is refused, and its refusal is the
result; or there is none, and all effects are carried out. -/
structure Stops (registry : FolderRegistry σ) (account : AccountId) (effects : List Effect)
    (world : σ) (before rest : List Effect) : Prop where
  effects_eq : effects = before ++ rest
  ok_iff : (applyEffects registry account effects world).result = .ok () ↔ rest = []
  logged_eq : ∀ log, applyEffects registry.logged account effects (world, log) =
    (applyEffects registry account effects world).withAttempts (log ++
      attempts account before rest (applyEffects registry account effects world).result)
  recorded_eq : ∀ recorded, registry.Records recorded →
    recorded (applyEffects registry account effects world).world =
      recorded world ++ before.map (Effect.request account)

namespace Stops

variable {registry : FolderRegistry σ} {account : AccountId} {effect : Effect}
  {effects before rest : List Effect} {world : σ}

theorem nil (registry : FolderRegistry σ) (account : AccountId) (world : σ) :
    Stops registry account [] world [] [] where
  effects_eq := rfl
  ok_iff := iff_of_true rfl rfl
  logged_eq log :=
    congrArg (Answer.withAttempts ⟨.ok (), world, []⟩) (List.append_nil log).symm
  recorded_eq recorded _ := (List.append_nil (recorded world)).symm

/-- The first effect is refused, and none is left to be tried. -/
theorem refused {e : Error}
    (h : (registry.request account effect.requestKind world).result = .error e)
    (effects : List Effect) :
    Stops registry account (effect :: effects) world [] (effect :: effects) := by
  have hdone := (applyEffects_cons registry account effect effects world).trans
    (Answer.andThen_of_error h)
  refine ⟨rfl, ?_, fun log => ?_, fun recorded hrecords => ?_⟩
  · rw [hdone, h]
    exact iff_of_false nofun nofun
  · have hlogged : (registry.logged.request account effect.requestKind (world, log)).result =
        .error e := h
    rw [hdone, applyEffects_cons, Answer.andThen_of_error hlogged]
    rfl
  · rw [hdone, List.map_nil, List.append_nil]
    exact hrecords.refused _ _ _ _ h

/-- The first effect is taken, and the others are carried out after it. -/
theorem taken (h : (registry.request account effect.requestKind world).result = .ok ())
    (hrest : Stops registry account effects
      (registry.request account effect.requestKind world).world before rest) :
    Stops registry account (effect :: effects) world (effect :: before) rest := by
  have hdone := (applyEffects_cons registry account effect effects world).trans
    (Answer.andThen_of_ok h)
  refine ⟨congrArg (effect :: ·) hrest.effects_eq, ?_, fun log => ?_, fun recorded hrecords => ?_⟩
  · rw [hdone]
    exact hrest.ok_iff
  · have hlogged : (registry.logged.request account effect.requestKind (world, log)).result =
        .ok () := h
    -- the log of the others begins with what has been attempted so far
    have hothers := hrest.logged_eq (log ++ [⟨account, effect.requestKind, .ok ()⟩])
    rw [hdone, applyEffects_cons, Answer.andThen_of_ok hlogged]
    simp only [FolderRegistry.logged, Answer.withAttempts, h] at hothers ⊢
    rw [hothers, List.append_assoc]
    rfl
  · rw [hdone, hrest.recorded_eq recorded hrecords, hrecords.taken _ _ _ h, List.append_assoc]
    rfl

/-- When all that was left is carried out later, by a registry that has recorded the same, then all
requests are recorded, each once. -/
theorem recorded_again {τ : Type} {registry' : FolderRegistry τ} {world' : τ}
    {recorded : σ → List (AccountId × SyncRequestKind)}
    {recorded' : τ → List (AccountId × SyncRequestKind)}
    (h : Stops registry account effects world before rest) (hrecords : registry.Records recorded)
    {before' rest' : List Effect} (h' : Stops registry' account rest world' before' rest')
    (hrecords' : registry'.Records recorded')
    (heq : recorded' world' = recorded (applyEffects registry account effects world).world)
    (hok : (applyEffects registry' account rest world').result = .ok ()) :
    recorded' (applyEffects registry' account rest world').world =
      recorded world ++ effects.map (Effect.request account) := by
  have hall : rest = before' := by
    rw [h'.effects_eq, h'.ok_iff.1 hok, List.append_nil]
  rw [h'.recorded_eq recorded' hrecords', heq, h.recorded_eq recorded hrecords, ← hall,
    h.effects_eq, List.map_append, List.append_assoc]

end Stops

/-- Every list of effects is carried out up to some point. -/
theorem exists_stops (registry : FolderRegistry σ) (account : AccountId) (effects : List Effect)
    (world : σ) : ∃ before rest, Stops registry account effects world before rest := by
  induction effects generalizing world with
  | nil => exact ⟨[], [], .nil registry account world⟩
  | cons effect effects ih =>
      cases h : (registry.request account effect.requestKind world).result with
      | error e => exact ⟨[], _, .refused h effects⟩
      | ok _ =>
          -- the others are carried out in the world which this request has left
          obtain ⟨before, rest, hrest⟩ :=
            ih (registry.request account effect.requestKind world).world
          exact ⟨effect :: before, rest, .taken h hrest⟩

/-! ## Registries that record what they take -/

/-- A scripted registry that is not to fail takes every request. -/
theorem Scripted.request_of_working {s : Scripted} (account : AccountId) (kind : SyncRequestKind)
    (h : s.requestFault = none) :
    Scripted.folderRegistry.request account kind s =
      ⟨.ok (), { s with requests := s.requests ++ [(account, kind)] }, []⟩ := by
  show Scripted.takeRequest account kind s = _
  rw [Scripted.takeRequest, h]

/-- The scripted registry records what it takes, whenever it fails. -/
theorem Scripted.records_folderRegistry : Scripted.folderRegistry.Records (·.requests) := by
  constructor
  · intro account kind s h
    obtain ⟨_, _, _, _, _, fault, _, _, _⟩ := s
    rcases fault with _ | ⟨reason, _ | n⟩
    · rfl
    · cases h
    · rfl
  · intro account kind s e h
    obtain ⟨_, _, _, _, _, fault, _, _, _⟩ := s
    rcases fault with _ | ⟨reason, _ | n⟩
    · cases h
    · rfl
    · cases h

namespace Repository

/-- The requests in the table of a repository, of all accounts; rows of unknown kinds are none. -/
def queuedRequests (r : Repository) : List (AccountId × SyncRequestKind) :=
  match r.requests with
  | none => []
  | some table => table.rows.entries.filterMap fun e =>
      (SyncRequestKind.ofParts? e.2.kindName e.2.folder).map fun kind => (e.2.account, kind)

theorem recordRequest_of_table (heartbeats : Option (Rows Int64)) (folders : Option FolderTable)
    (table : RequestTable) (account : AccountId) (kind : SyncRequestKind) :
    recordRequest ⟨heartbeats, folders, some table⟩ account kind =
      match table.insert? (RequestRow.ofKind account kind) with
      | some (_, t) => .ok ⟨(), ⟨heartbeats, folders, some t⟩, [.requestQueued account kind]⟩
      | none => .error (.database .full) := rfl

/-- The repository records what it takes, whenever it is out of numbers. -/
theorem records_folderRegistry : folderRegistry.Records queuedRequests := by
  constructor
  · intro account kind r h
    obtain ⟨heartbeats, folders, _ | table⟩ := r
    · cases h
    · have hrequest : folderRegistry.request account kind ⟨heartbeats, folders, some table⟩ = _ :=
        congrArg (answer _) (recordRequest_of_table heartbeats folders table account kind)
      cases hinsert : table.insert? (RequestRow.ofKind account kind) with
      | none =>
          rw [hrequest, hinsert] at h
          cases h
      | some inserted =>
          rw [hrequest, hinsert]
          show inserted.2.rows.entries.filterMap _ = table.rows.entries.filterMap _ ++ _
          rw [Table.entries_insert? hinsert, List.filterMap_append, List.filterMap_cons_some]
          · rfl
          · rw [RequestRow.ofKind, SyncRequestKind.ofParts?_name]
            rfl
  · intro account kind r e h
    obtain ⟨heartbeats, folders, _ | table⟩ := r
    · rfl
    · have hrequest : folderRegistry.request account kind ⟨heartbeats, folders, some table⟩ = _ :=
        congrArg (answer _) (recordRequest_of_table heartbeats folders table account kind)
      cases hinsert : table.insert? (RequestRow.ofKind account kind) with
      | none =>
          rw [hrequest, hinsert]
          rfl
      | some inserted =>
          rw [hrequest, hinsert] at h
          cases h

end Repository

/-! ## The exact prefix -/

/-- **Effects are carried out up to the first that fails.** Whatever the registry answers, there are
effects `before` and `rest`, the second of which start with the one that was refused:

* what is attempted are the requests of `before`, which are taken, and then that of the first
  effect of `rest`, each once and for the account; nothing is attempted after it, and its refusal is
  the result, so the result is a success exactly if nothing is left;
* a registry that records what it takes has recorded the requests of `before`, in their order;
* when `rest` is carried out later, by any registry that starts with the same records, and it
  succeeds, as it does if that registry refuses nothing, then the requests of all effects are
  recorded, each once and in their order.

And more effects behind these are carried out if these succeeded, and else have no part in it. -/
theorem effects_applied_until_failure (registry : FolderRegistry σ) (account : AccountId)
    (effects : List Effect) (world : σ) :
    let done := applyEffects registry account effects world
    (∃ before rest,
      effects = before ++ rest ∧ (done.result = .ok () ↔ rest = []) ∧
      (∀ log, applyEffects registry.logged account effects (world, log) =
        ⟨done.result, (done.world, log ++
          (before.map (fun effect => ⟨account, effect.requestKind, .ok ()⟩) ++
            rest.head?.toList.map fun effect => ⟨account, effect.requestKind, done.result⟩)),
          done.events⟩) ∧
      ∀ recorded, registry.Records recorded →
        recorded done.world = recorded world ++ before.map (Effect.request account) ∧
        ∀ (τ : Type) (registry' : FolderRegistry τ) (recorded' : τ → _) (world' : τ),
          registry'.Records recorded' → recorded' world' = recorded done.world →
          let again := applyEffects registry' account rest world'
          (again.result = .ok () → recorded' again.world =
            recorded world ++ effects.map (Effect.request account)) ∧
          ∀ works : τ → Prop, works world' →
            (∀ kind w, works w → (registry'.request account kind w).result = .ok () ∧
              works (registry'.request account kind w).world) →
            again.result = .ok ()) ∧
    ∀ more, applyEffects registry account (effects ++ more) world =
      done.andThen (applyEffects registry account more) := by
  intro done
  obtain ⟨before, rest, h⟩ := exists_stops registry account effects world
  refine ⟨⟨before, rest, h.effects_eq, h.ok_iff, h.logged_eq, ?_⟩,
    fun more => applyEffects_append registry account effects more world⟩
  intro recorded hrecords
  refine ⟨h.recorded_eq recorded hrecords, fun τ registry' recorded' world' hrecords' heq => ?_⟩
  obtain ⟨before', rest', h'⟩ := exists_stops registry' account rest world'
  exact ⟨h.recorded_again hrecords h' hrecords' heq,
    fun works hworld htakes => applyEffects_eq_ok hworld htakes⟩

/-- The registry takes one request and refuses the next one. Once it works again, the two effects
that are left are carried out. -/
theorem effects_applied_until_failure_then_again :
    let effects : List Effect := [.refreshFolderList, .syncFolder ⟨10⟩ "inbox" .email,
      .syncFolder ⟨11⟩ "plans" .calendar]
    let start : Scripted :=
      { Scripted.ofContents none [] with requestFault := some ⟨"disk on fire", 1⟩ }
    let logged := applyEffects Scripted.folderRegistry.logged ⟨7⟩ effects (start, [])
    let again := applyEffects Scripted.folderRegistry ⟨7⟩ (effects.drop 1)
      { logged.world.1 with requestFault := none }
    logged.result = .error (Scripted.failure "disk on fire") ∧
      logged.world.2 = [⟨⟨7⟩, .folderList, .ok ()⟩,
        ⟨⟨7⟩, .folder ⟨10⟩, .error (Scripted.failure "disk on fire")⟩] ∧
      logged.world.1.requests = [(⟨7⟩, .folderList)] ∧ again.result = .ok () ∧
      again.world.requests =
        [(⟨7⟩, .folderList), (⟨7⟩, .folder ⟨10⟩), (⟨7⟩, .folder ⟨11⟩)] := by
  intro effects start logged again
  obtain ⟨⟨before, rest, heffects, -, hlogged, hrecorded⟩, -⟩ :=
    effects_applied_until_failure Scripted.folderRegistry ⟨7⟩ effects start
  obtain ⟨hfront, hagain⟩ := hrecorded (·.requests) Scripted.records_folderRegistry
  have hlength : before.length = 1 := by
    have hone : 1 = (before.map (Effect.request ⟨7⟩)).length := congrArg List.length hfront
    rw [hone, List.length_map]
  have hrest : rest = effects.drop 1 := by
    rw [heffects, ← hlength, List.drop_left]
  have hbefore : before = effects.take 1 := by
    rw [heffects, ← hlength, List.take_left]
  subst hrest hbefore
  obtain ⟨hall, hworks⟩ := hagain Scripted Scripted.folderRegistry (·.requests)
    { logged.world.1 with requestFault := none } Scripted.records_folderRegistry rfl
  have hok : again.result = .ok () := by
    refine hworks (·.requestFault = none) rfl fun kind s hs => ?_
    rw [Scripted.request_of_working ⟨7⟩ kind hs]
    exact ⟨rfl, hs⟩
  have hlog : logged = _ := hlogged []
  exact ⟨congrArg Answer.result hlog, congrArg (·.world.2) hlog, congrArg (·.world.1.requests) hlog,
    hok, hall hok⟩

end MailPush
