import MailPush.Proofs.Ping.ChangedFolders
import MailPush.Proofs.Ping.WriteDiscipline

set_option autoImplicit false

/-! # What a call reports

The events of a call are scattered over its parts: the heartbeat reports its own moves, a failed
request and a classified response are reported where they are met, a refused write where it was
attempted, and an unknown server id where it was looked up. Here they are added up. Of the
collaborators it is assumed that they report nothing themselves (`Collaborators.Quiet`).

A response leads to one report (`Ping.report`), whatever else is said of it on the side
(`Event.isAside`), and the number of its status decides the level of that report
(`Response.reportLevel`). `log_account` has the sums over all calls.
-/

namespace MailPush

/-- Collaborators that report nothing themselves when folders are read and heartbeats stored. -/
structure Collaborators.Quiet {σ : Type} (env : Collaborators σ) : Prop where
  folders_events : ∀ account world, (env.registry.folders account world).events = []
  store_events : ∀ account secs world, (env.heartbeats.store account secs world).events = []

/-- Scripted collaborators are quiet, whatever they are told to fail at. -/
theorem Scripted.quiet (codec : Codec) : (Scripted.collaborators codec).Quiet where
  folders_events _ _ := rfl
  store_events account secs world := by
    show (Scripted.heartbeatStore.store account secs world).events = []
    cases hfault : world.storeFault <;> simp only [Scripted.heartbeatStore, hfault]

/-! ## Counting events -/

namespace Event

/-- The errors among events. -/
def errors (events : List Event) : List Event := events.filter fun e => e.level = .error

/-- The number of warnings among events. -/
def warnings (events : List Event) : Nat := events.countP fun e => e.level = .warn

/-- What may be reported of a call beside the main thing: that the request is sent, the moves of
the heartbeat, a write that was refused, and a server id that no folder has. -/
def isAside : Event → Bool
  | sending .. | heartbeatKept _ | heartbeatAdjusted .. | storeFailed .. | folderUnknown .. => true
  | _ => false

/-- The events that are not said on the side. -/
def verdicts (events : List Event) : List Event := events.filter fun e => !e.isAside

variable (events more : List Event)

theorem errors_append : errors (events ++ more) = errors events ++ errors more :=
  List.filter_append ..

theorem warnings_append : warnings (events ++ more) = warnings events + warnings more :=
  List.countP_append

theorem verdicts_append : verdicts (events ++ more) = verdicts events ++ verdicts more :=
  List.filter_append ..

/-- The server ids that no folder has are reported in warnings, one for each, all on the side. -/
theorem counts_folderUnknown (account : AccountId) (serverIds : List String) :
    errors (serverIds.map (.folderUnknown account)) = [] ∧
      warnings (serverIds.map (.folderUnknown account)) = serverIds.length ∧
      verdicts (serverIds.map (.folderUnknown account)) = [] := by
  refine ⟨?_, ?_, ?_⟩
  · simp [errors, level]
  · rw [warnings, List.countP_map]
    exact List.countP_eq_length.2 fun _ _ => rfl
  · simp [verdicts, isAside]

end Event

open Event

/-! ## What responses and outcomes say -/

/-- The server finds the heartbeat out of bounds and names no other. -/
def Response.namesNoHeartbeat (r : Response) : Bool :=
  r.status.number = 5 ∧ r.heartbeatInterval = none

/-- The number of the server ids that are reported as changed and that no folder has. -/
def Response.strangers (r : Response) (folders : List Folder) : Nat :=
  if r.status.number = 2 then r.folders.countP fun id => id ∉ folders.map Folder.serverId else 0

/-- The level at which a response is reported. -/
def Response.reportLevel (r : Response) : Level :=
  let n := r.status.number
  if n = 1 ∨ n = 2 ∨ n = 6 ∨ n = 7 ∨ n = 8 ∨ n = 111 then .info
  else if n = 5 then if r.heartbeatInterval = none then .warn else .info
  else if n = 3 ∨ n = 4 ∨ FatalAuthCode n ∨ FatalProtocolCode n then .error
  else .debug

/-- The status of an outcome that is an alarm. -/
def Outcome.alarm? : Outcome → Option Status
  | fatalAuth status | fatalProtocol status | completed (.badRequest status) _ => some status
  | _ => none

/-- An outcome is the failure of a request. -/
def Outcome.isFailure : Outcome → Bool
  | operationFailure _ => true
  | _ => false

theorem Outcome.isFailure_ofClassification (c : Classification) (effects : List Effect) :
    (Outcome.ofClassification c effects).isFailure = false := by
  cases c <;> rfl

theorem length_unknownIds (folders : List Folder) (serverIds : List String) :
    (Folder.unknownIds folders serverIds).length =
      serverIds.countP fun id => id ∉ folders.map Folder.serverId := by
  rw [Folder.unknownIds, ← List.countP_eq_length_filter]
  refine List.countP_congr fun id _ => ?_
  rw [Option.isNone_iff_eq_none, Folder.findByServerId?_eq_none_iff]
  simp

namespace Ping

variable {σ : Type} {env : Collaborators σ} {ping : Ping} {x : Exchange} {world : σ}
  {folders : List Folder} {response : Response}

/-- The one report of a classification that is not on the side. -/
def report (ping : Ping) : Classification → Event
  | .heartbeatOutOfBounds (some secs) =>
    .adopted ping.account (ping.heartbeat.change (.adopt secs)) secs
  | classification => .classified ping.account classification

/-- The server ids in a classification that no folder has. -/
def unknownIn (folders : List Folder) : Classification → List String
  | .changesFound serverIds => Folder.unknownIds folders serverIds
  | _ => []

/-- **The events of a classification** are its report, debug events of the heartbeat, and the
warnings of unknown server ids. -/
theorem counts_classificationEvents (ping : Ping) (folders : List Folder) (c : Classification) :
    errors (ping.classificationEvents folders c) = errors [ping.report c] ∧
      warnings (ping.classificationEvents folders c) =
        warnings [ping.report c] + (unknownIn folders c).length ∧
      verdicts (ping.classificationEvents folders c) = [ping.report c] := by
  cases c with
  | changesFound serverIds =>
      obtain ⟨herrors, hwarnings, hverdicts⟩ :=
        counts_folderUnknown ping.account (Folder.unknownIds folders serverIds)
      have hevents : ping.classificationEvents folders (.changesFound serverIds) =
          [ping.report (.changesFound serverIds)] ++
            (Folder.unknownIds folders serverIds).map (.folderUnknown ping.account) := rfl
      rw [hevents, errors_append, warnings_append, verdicts_append, herrors, hwarnings, hverdicts]
      exact ⟨rfl, rfl, rfl⟩
  | heartbeatOutOfBounds serverHeartbeat =>
      cases serverHeartbeat <;> exact ⟨rfl, rfl, rfl⟩
  | expired | badRequest | tooManyFolders | folderListStale | transientServerError | retryLater
  | fatalAuth | fatalProtocol | unrecognized => exact ⟨rfl, rfl, rfl⟩

/-- The level of a report is that of the table. -/
theorem level_report (ping : Ping) (r : Response) :
    (ping.report (classify r)).level = r.reportLevel := by
  rw [classify_eq_table, Response.reportLevel]
  generalize r.status.number = n
  by_cases hn : n = 0 ∨ 8 < n
  · by_cases h111 : n = 111
    · rw [h111]
      rfl
    have hping : ¬ (n = 1 ∨ n = 2 ∨ n = 6 ∨ n = 7 ∨ n = 8 ∨ n = 111) := by omega
    have h5 : n ≠ 5 := by omega
    rw [classificationTable_common hn, if_neg h111, if_neg hping, if_neg h5]
    by_cases hauth : FatalAuthCode n
    · rw [if_pos hauth, if_pos (.inr (.inr (.inl hauth)))]
      rfl
    · by_cases hprotocol : FatalProtocolCode n
      · rw [if_neg hauth, if_pos hprotocol, if_pos (.inr (.inr (.inr hprotocol)))]
        rfl
      · have hother : ¬ (n = 3 ∨ n = 4 ∨ FatalAuthCode n ∨ FatalProtocolCode n) := by
          rintro (h3 | h4 | h | h)
          · omega
          · omega
          · exact hauth h
          · exact hprotocol h
        rw [if_neg hauth, if_neg hprotocol, if_neg hother]
        rfl
  · -- the codes of pings, of which one has two levels
    have hcode : n = 1 ∨ n = 2 ∨ n = 3 ∨ n = 4 ∨ n = 5 ∨ n = 6 ∨ n = 7 ∨ n = 8 := by omega
    rcases hcode with rfl | rfl | rfl | rfl | rfl | rfl | rfl | rfl
    case inr.inr.inr.inr.inl =>
      show (ping.report (.heartbeatOutOfBounds r.heartbeatInterval)).level = _
      cases r.heartbeatInterval <;> rfl
    all_goals rfl

/-- A report is an error when the outcome is an alarm, and then it names the account and the
status. -/
theorem errors_report (ping : Ping) (c : Classification) (effects : List Effect) :
    (errors [ping.report c]).map Event.fields =
      (Outcome.ofClassification c effects).alarm?.toList.map fun status =>
        [("account", ping.account.text), ("status", status.text)] := by
  cases c with
  | heartbeatOutOfBounds serverHeartbeat => cases serverHeartbeat <;> rfl
  | expired | changesFound | badRequest | tooManyFolders | folderListStale | transientServerError
  | retryLater | fatalAuth | fatalProtocol | unrecognized => rfl

/-- A report is a warning when the server named no heartbeat. -/
theorem warnings_report (ping : Ping) (r : Response) :
    warnings [ping.report (classify r)] = r.namesNoHeartbeat.toNat := by
  have hlevel : r.reportLevel = .warn ↔ r.namesNoHeartbeat = true := by
    rw [Response.namesNoHeartbeat, decide_eq_true_iff, Response.reportLevel]
    by_cases h5 : r.status.number = 5
    · simp [h5]
    · simp only [h5, if_false, false_and, iff_false]
      split_ifs <;> simp
  rw [warnings, List.countP_singleton, level_report]
  by_cases hnone : r.namesNoHeartbeat = true
  · simp [hlevel.2 hnone, hnone]
  · simp [mt hlevel.1 hnone, hnone]

theorem length_unknownIn (folders : List Folder) (r : Response) :
    (unknownIn folders (classify r)).length = r.strangers folders := by
  rw [Response.strangers, classify_eq_table]
  by_cases h2 : r.status.number = 2
  · rw [if_pos h2, h2]
    exact length_unknownIds folders r.folders
  · rw [if_neg h2, classificationTable, if_neg h2]
    split_ifs <;> rfl

/-! ## Refused writes -/

/-- What is reported of the write of an adjustment: that it was refused, if it was. -/
def complaints (store : HeartbeatStore σ) (ping : Ping) (world : σ) :
    Option Adjustment → List Event
  | none => []
  | some a =>
    match (store.store ping.account (ping.adjust a).heartbeat.secs world).result with
    | .ok () => []
    | .error e => [.storeFailed ping.account (ping.adjust a).heartbeat.secs e]

theorem finish_events (henv : env.Quiet) (ping : Ping) (c : Conclusion) (world : σ)
    (sent : Option Message) (events : List Event) :
    (finish env.heartbeats ping c world sent events).events =
      events ++ c.events ++ complaints env.heartbeats ping world c.adjustment := by
  unfold finish
  cases c.adjustment with
  | none => exact (List.append_nil _).symm
  | some a =>
      have hpersist : (persist env.heartbeats (ping.adjust a) world).2 =
          complaints env.heartbeats ping world (some a) :=
        (congrArg (· ++ _) (henv.store_events _ _ _)).trans (List.nil_append _)
      exact congrArg (events ++ c.events ++ ·) hpersist

/-- A refused write is reported in one warning, on the side. -/
theorem counts_complaints (store : HeartbeatStore σ) (ping : Ping) (world : σ)
    (adjustment : Option Adjustment) :
    errors (complaints store ping world adjustment) = [] ∧
      warnings (complaints store ping world adjustment) =
        (complaints store ping world adjustment).length ∧
      verdicts (complaints store ping world adjustment) = [] := by
  cases adjustment with
  | none => exact ⟨rfl, rfl, rfl⟩
  | some a =>
      simp only [complaints]
      generalize (store.store ping.account (ping.adjust a).heartbeat.secs world).result = written
      cases written <;> exact ⟨rfl, rfl, rfl⟩

/-- A call has attempted a write that was refused. -/
def refused (env : Collaborators σ) (ping : Ping) (x : Exchange) (world : σ) : Bool :=
  (attempts env ping x world).any fun write => !write.taken

/-- There is a complaint for each attempt that was refused. -/
theorem length_complaints (env : Collaborators σ) (ping : Ping) (x : Exchange) (world : σ) :
    (complaints env.heartbeats ping (env.registry.folders ping.account world).world
      (run env ping x world).adjustment?).length = (refused env ping x world).toNat := by
  have hattempts := attempts_eq env ping x world
  dsimp only at hattempts
  rw [refused, hattempts, run_ping_eq]
  cases (run env ping x world).adjustment? with
  | none => rfl
  | some a =>
      simp only [complaints, adjustBy_some, Option.isSome_some, if_true, List.any_cons,
        List.any_nil, Bool.or_false]
      split <;> rename_i hresult <;> rw [hresult] <;> rfl

/-! ## The events of a call -/

/-- What a call has decoded, if it has: the folders of the account, and the response. -/
def decoded? (env : Collaborators σ) (ping : Ping) (x : Exchange) (world : σ) :
    Option (List Folder × Response) := do
  let folders ← (env.registry.folders ping.account world).result.toOption
  let request ← ping.request? folders
  let _ ← (env.codec.encode request).toOption
  let received ← x.received? env.codec ping.heartbeat.timeout
  let response ← received.toOption
  return (folders, response)

theorem toOption_eq_some_iff {ε α : Type} {r : Except ε α} {a : α} :
    r.toOption = some a ↔ r = .ok a := by
  cases r <;> simp [Except.toOption]

theorem decoded?_eq_some_iff :
    decoded? env ping x world = some (folders, response) ↔
      Decodes env ping x world folders response := by
  simp only [decoded?, Option.bind_eq_bind, Option.bind_eq_some_iff, toOption_eq_some_iff,
    Option.pure_def, Option.some.injEq, Prod.mk.injEq]
  constructor
  · rintro ⟨folders, hfolders, request, hrequest, payload, hpayload, received, hreceived, response,
      rfl, rfl, rfl⟩
    exact ⟨⟨request, payload, hfolders, hrequest, hpayload⟩, received?_eq_ok_iff.1 hreceived⟩
  · rintro ⟨⟨request, payload, hfolders, hrequest, hpayload⟩, hbody⟩
    exact ⟨folders, hfolders, request, hrequest, payload, hpayload, _,
      received?_eq_ok_iff.2 hbody, response, rfl, rfl, rfl⟩

theorem decoded?_of_prepared {request : Request} {payload : Bytes}
    (h : Prepared env ping world folders request payload) (x : Exchange) :
    decoded? env ping x world =
      (x.received? env.codec ping.heartbeat.timeout).bind fun received =>
        received.toOption.map (folders, ·) := by
  obtain ⟨hfolders, hrequest, hpayload⟩ := h
  simp only [decoded?, hfolders, hrequest, hpayload, Except.toOption, Option.bind_eq_bind,
    Option.bind_some, Option.pure_def]
  refine congrArg _ (funext fun received => ?_)
  cases received <;> rfl

/-- The status of an alarm that a run ends with. -/
def Run.alarm? (r : Run σ) : Option Status := r.result.toOption.bind Outcome.alarm?

/-- A run ends with the failure of its request. -/
def Run.hasFailed (r : Run σ) : Bool := r.result.toOption.any Outcome.isFailure

theorem alarm?_finish (store : HeartbeatStore σ) (ping : Ping) (c : Conclusion) (world : σ)
    (sent : Option Message) (events : List Event) :
    (finish store ping c world sent events).alarm? = c.outcome.alarm? := by
  rw [Run.alarm?, finish_result]
  rfl

theorem hasFailed_finish (store : HeartbeatStore σ) (ping : Ping) (c : Conclusion) (world : σ)
    (sent : Option Message) (events : List Event) :
    (finish store ping c world sent events).hasFailed = c.outcome.isFailure := by
  rw [Run.hasFailed, finish_result]
  rfl

/-- Errors and warnings of a conclusion: those of the failure, or those of the response. -/
theorem counts_conclude (ping : Ping) (folders : List Folder)
    (received : Except TransportError Response) :
    let c := ping.conclude folders received
    let decoded := received.toOption.map (folders, ·)
    (errors c.events).map Event.fields = c.outcome.alarm?.toList.map (fun status =>
        [("account", ping.account.text), ("status", status.text)]) ∧
      warnings c.events = c.outcome.isFailure.toNat +
        (decoded.any fun d => d.2.namesNoHeartbeat).toNat +
        (decoded.map fun d => d.2.strangers d.1).getD 0 := by
  cases received with
  | error failure => exact ⟨rfl, rfl⟩
  | ok response =>
      obtain ⟨herrors, hwarnings, -⟩ := counts_classificationEvents ping folders (classify response)
      constructor
      · exact (congrArg _ herrors).trans (errors_report ping (classify response) _)
      · have hkept : (ping.conclude folders (.ok response)).outcome.isFailure = false :=
          Outcome.isFailure_ofClassification ..
        rw [warnings_report, length_unknownIn] at hwarnings
        rw [hkept, Bool.toNat_false, Nat.zero_add]
        exact hwarnings

/-- **Errors and warnings of a call, added up.** -/
theorem counts_run (henv : env.Quiet) (ping : Ping) (x : Exchange) (world : σ) :
    let r := run env ping x world
    let decoded := decoded? env ping x world
    (errors r.events).map Event.fields = r.alarm?.toList.map (fun status =>
        [("account", ping.account.text), ("status", status.text)]) ∧
      warnings r.events = r.hasFailed.toNat +
        (decoded.any fun d => d.2.namesNoHeartbeat).toNat + (refused env ping x world).toNat +
        (decoded.map fun d => d.2.strangers d.1).getD 0 := by
  intro r decoded
  have hrefused : (complaints _ _ _ r.adjustment?).length = _ := length_complaints env ping x world
  have hends : Ends env ping x world r := ends_run env ping x world
  have hdecoded : decoded? env ping x world = decoded := rfl
  rw [← hrefused]
  -- a call that decodes nothing has only the summands of a failure and of a refused write
  generalize r = r at hends
  generalize decoded = decoded at hdecoded
  cases hends with
  | unread hfolders =>
      obtain rfl : none = decoded := by rw [← hdecoded, decoded?, hfolders]; rfl
      rw [henv.folders_events]
      exact ⟨rfl, rfl⟩
  | idle hfolders hrequest =>
      obtain rfl : none = decoded := by
        rw [← hdecoded]
        simp [decoded?, hfolders, hrequest, Except.toOption]
      rw [henv.folders_events]
      exact ⟨rfl, rfl⟩
  | unwritten hfolders hrequest hencode =>
      obtain rfl : none = decoded := by
        rw [← hdecoded]
        simp [decoded?, hfolders, hrequest, hencode, Except.toOption]
      rw [henv.folders_events]
      exact ⟨rfl, rfl⟩
  | cancelled hprep hx =>
      obtain rfl : none = decoded := by rw [← hdecoded, decoded?_of_prepared hprep, hx]; rfl
      rw [henv.folders_events]
      exact ⟨rfl, rfl⟩
  | concluded hprep hx =>
      rename_i folders request payload received
      obtain rfl : received.toOption.map (folders, ·) = decoded := by
        rw [← hdecoded, decoded?_of_prepared hprep, hx, Option.bind_some]
      obtain ⟨herrors, hwarnings, -⟩ := counts_complaints env.heartbeats ping
        (env.registry.folders ping.account world).world (ping.conclude folders received).adjustment
      obtain ⟨herrors', hwarnings'⟩ := counts_conclude ping folders received
      have hsending : errors (ping.sendingEvents [] request) = [] ∧
          warnings (ping.sendingEvents [] request) = 0 := ⟨rfl, rfl⟩
      rw [adjustment?_finish, ← conclude_adjustment, finish_events henv, henv.folders_events,
        errors_append, warnings_append, errors_append, warnings_append, herrors, hwarnings,
        hwarnings', hsending.1, hsending.2, alarm?_finish, hasFailed_finish, List.append_nil,
        List.nil_append]
      refine ⟨herrors', ?_⟩
      omega

/-- A call that ends with an error reports nothing. -/
theorem events_of_error (henv : env.Quiet) {e : Error}
    (h : (run env ping x world).result = .error e) : (run env ping x world).events = [] := by
  have hends := ends_run env ping x world
  generalize run env ping x world = r at hends h
  cases hends with
  | unread => exact henv.folders_events ..
  | unwritten => exact henv.folders_events ..
  | idle => cases h
  | cancelled => cases h
  | concluded =>
      rw [finish_result] at h
      cases h

/-- A call that decodes a response says one thing that is not on the side. -/
theorem verdicts_of_decodes (henv : env.Quiet) (h : Decodes env ping x world folders response) :
    verdicts (run env ping x world).events = [ping.report (classify response)] := by
  obtain ⟨request, payload, -, hrun⟩ := run_of_decodes h
  obtain ⟨-, -, hcomplaints⟩ := counts_complaints env.heartbeats ping
    (env.registry.folders ping.account world).world
    (ping.conclude folders (.ok response)).adjustment
  obtain ⟨-, -, hreport⟩ := counts_classificationEvents ping folders (classify response)
  rw [hrun, finish_events henv, henv.folders_events, verdicts_append, verdicts_append, hcomplaints,
    List.append_nil]
  exact hreport

/-! ## The account -/

/-- **The account of what a call reports**, whatever the operation, the exchange and the failures of
the collaborators are. An error is reported when the outcome is an alarm (`Outcome.alarm?`: a fatal
status, or a bad request), and then one, with the account and the status. There is one warning each
for a failed request, for status 5 without a heartbeat, and for a write that was attempted and
refused, one for every server id of status 2 that no folder has, and no other. A call that ends with
an error reports nothing. A call that decodes a response says one thing besides what is said on the
side (`Event.isAside`), at the level that the table has for the status (`Response.reportLevel`). -/
theorem log_account (henv : env.Quiet) (ping : Ping) (x : Exchange) (world : σ) :
    let r := run env ping x world
    let decoded := decoded? env ping x world
    (∀ status, r.alarm? = some status → ∃ e, errors r.events = [e] ∧
      e.fields = [("account", ping.account.text), ("status", status.text)]) ∧
    (r.alarm? = none → errors r.events = []) ∧
    warnings r.events = r.hasFailed.toNat + (decoded.any fun d => d.2.namesNoHeartbeat).toNat +
      (refused env ping x world).toNat + (decoded.map fun d => d.2.strangers d.1).getD 0 ∧
    (∀ e, r.result = .error e → r.events = []) ∧
    ∀ folders response,
      (decoded = some (folders, response) ↔ Decodes env ping x world folders response) ∧
      (Decodes env ping x world folders response →
        ∃ e, verdicts r.events = [e] ∧ e.level = response.reportLevel) := by
  intro r decoded
  obtain ⟨herrors, hwarnings⟩ := counts_run henv ping x world
  change (errors r.events).map Event.fields = r.alarm?.toList.map _ at herrors
  refine ⟨?_, ?_, hwarnings, fun e => events_of_error henv, fun folders response =>
    ⟨decoded?_eq_some_iff, fun h => ⟨_, verdicts_of_decodes henv h, level_report ping response⟩⟩⟩
  · intro status halarm
    rw [halarm] at herrors
    exact List.map_eq_singleton_iff.1 herrors
  · intro halarm
    rw [halarm] at herrors
    exact List.map_eq_nil_iff.1 herrors

/-- Over a store that refuses every write, the server finds the heartbeat out of bounds without
naming another, names one, reports three server ids of which one is known, and disables the account:
the first three calls warn for three different reasons, and the last one reports an error. -/
theorem log_account_four_calls :
    let ping : Ping := ⟨⟨7⟩, ⟨.standard, 900⟩⟩
    let world := { watching none with storeFault := some "full" }
    let unnamed := Call.answered ⟨.heartbeatOutOfBounds, [], none, none⟩
    let named := Call.answered ⟨.heartbeatOutOfBounds, [], some 600, none⟩
    let changed := Call.answered ⟨.changesFound, ["zz", "inbox", "zz"], none, none⟩
    let disabled := Call.answered (.ofStatus ⟨126⟩)
    warnings (unnamed.run ping world).events = 0 + 1 + 0 + 0 ∧
      warnings (named.run ping world).events = 0 + 0 + 1 + 0 ∧
      warnings (changed.run ping world).events = 0 + 0 + 0 + 2 ∧
      ∃ e, errors (disabled.run ping world).events = [e] ∧
        e.fields = [("account", "7"), ("status", "126")] := by
  intro ping world unnamed named changed disabled
  have hquiet (r : Response) : (Call.answered r).env.Quiet := Scripted.quiet _
  have account (r : Response) := log_account (hquiet r) ping (Call.answered r).exchange world
  obtain ⟨-, -, hunnamed, -⟩ := account ⟨.heartbeatOutOfBounds, [], none, none⟩
  obtain ⟨-, -, hnamed, -⟩ := account ⟨.heartbeatOutOfBounds, [], some 600, none⟩
  obtain ⟨-, -, hchanged, -⟩ := account ⟨.changesFound, ["zz", "inbox", "zz"], none, none⟩
  obtain ⟨hdisabled, -⟩ := account (.ofStatus ⟨126⟩)
  have haccount : AccountId.text ⟨7⟩ = "7" := by decide
  have hstatus : Status.text ⟨126⟩ = "126" := by decide
  rw [← haccount, ← hstatus]
  exact ⟨hunnamed, hnamed, hchanged, hdisabled ⟨126⟩ rfl⟩

end Ping

end MailPush
