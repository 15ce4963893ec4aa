import MailPush.Proofs.Ping.Adjustments
import MailPush.Proofs.Ping.Restart

set_option autoImplicit false

/-! # When a call writes, and what its writes can do

A call attempts to store a heartbeat once if it adjusts the heartbeat, and otherwise not at all;
what it attempts to store is the heartbeat with which it ends (`attempts_eq`). It makes an
adjustment when its request has failed, or when it has decoded a response that tunes the heartbeat
(`isSome_adjustment?_iff`).

What the store makes of an attempt is not seen by any call, this one or a later one: two histories
that differ in their stores alone (`StoresApart`) have the same results, send the same messages
and leave the same operations (`observed_runs`).
-/

namespace MailPush.Ping

variable {σ τ : Type}

/-! ## Attempts -/

/-- The attempts of a call to store a heartbeat. -/
def attempts (env : Collaborators σ) (ping : Ping) (x : Exchange) (world : σ) : List Write :=
  (run env.logged ping x (world, [])).world.2

/-- **A call attempts to store the heartbeat that it has adjusted**, and nothing else. -/
theorem attempts_eq (env : Collaborators σ) (ping : Ping) (x : Exchange) (world : σ) :
    let r := run env ping x world
    let written := env.heartbeats.store ping.account r.ping.heartbeat.secs
      (env.registry.folders ping.account world).world
    attempts env ping x world = if r.adjustment?.isSome then
      [⟨ping.account, r.ping.heartbeat.secs, written.result.isOk⟩] else [] := by
  intro r written
  have hrelated := run_related (env.logged_related ping.account) (w := (world, [])) rfl x
  have hadjustment : (run env.logged ping x (world, [])).adjustment? = r.adjustment? := by
    rw [Run.adjustment?, Run.adjustment?, hrelated.result_eq]
  have hping : r.ping = ping.adjustBy r.adjustment? := run_ping_eq env ping x world
  have hworld : attempts env ping x world = (storedBy env.logged.heartbeats ping
      (env.logged.registry.folders ping.account (world, [])).world r.adjustment?).2 := by
    rw [attempts, run_world_eq, hadjustment]
  rw [hworld]
  -- what is stored is the heartbeat of the operation after the adjustment
  cases ha : r.adjustment? with
  | none => rfl
  | some a =>
      have hsecs : (ping.adjust a).heartbeat.secs = r.ping.heartbeat.secs := by
        rw [hping, ha, adjustBy_some]
      show [Write.mk ping.account (ping.adjust a).heartbeat.secs _] = _
      rw [hsecs]
      rfl

theorem isSome_adjustmentTable_iff {r : Response} : (adjustmentTable r).isSome ↔ Tuning r := by
  constructor
  · intro h
    apply Classical.byContradiction
    intro ht
    rw [adjustmentTable_eq_none ht] at h
    cases h
  · rintro (h1 | ⟨h5, hinterval⟩)
    · rw [adjustmentTable, if_pos h1]
      rfl
    · rw [adjustmentTable, if_neg (by omega), if_pos h5, Option.isSome_map]
      exact hinterval

/-- A call adjusts the heartbeat when its request has failed, or when it has decoded a response
that tunes the heartbeat. -/
theorem isSome_adjustment?_iff {env : Collaborators σ} {ping : Ping} {x : Exchange} {world : σ} :
    (run env ping x world).adjustment?.isSome ↔
      (∃ failure, (run env ping x world).result = .ok (.operationFailure failure)) ∨
        ∃ folders response, Decodes env ping x world folders response ∧ Tuning response := by
  constructor
  · intro h
    have hends := ends_run env ping x world
    generalize run env ping x world = r at h hends
    cases hends with
    | unread => cases h
    | idle => cases h
    | unwritten => cases h
    | cancelled => cases h
    | concluded hprep hx =>
        rename_i folders request payload received
        cases received with
        | error failure => exact .inl ⟨failure, finish_result ..⟩
        | ok response =>
            rw [adjustment?_finish, ← conclude_adjustment, conclude_ok_adjustment,
              isSome_adjustmentTable_iff] at h
            exact .inr ⟨folders, response,
              ⟨⟨request, payload, hprep⟩, received?_eq_ok_iff.1 hx⟩, h⟩
  · rintro (⟨failure, h⟩ | ⟨folders, response, hdecodes, htuning⟩)
    · rw [Run.adjustment?, h]
      rfl
    · obtain ⟨request, payload, -, hrun⟩ := run_of_decodes hdecodes
      rw [hrun, adjustment?_finish, ← conclude_adjustment, conclude_ok_adjustment]
      exact isSome_adjustmentTable_iff.2 htuning

/-! ## Histories that differ in their stores -/

/-- The runs of calls, one after the other. -/
def runs (ping : Ping) (world : σ) : List (Call σ) → List (Run σ)
  | [] => []
  | call :: calls =>
      let r := call.run ping world
      r :: runs r.ping r.world calls

/-- What is seen of a run besides its world and its events: the result, the message that was sent,
and the operation afterwards. -/
def Run.observed (r : Run σ) : Except Error Outcome × Option Message × Ping :=
  (r.result, r.sent, r.ping)

/-- Two histories differ in their stores alone: their calls come in pairs with the same codec and
the same exchange, and in each pair the same folders are read. Nothing is said of what the stores
answer, or of the worlds that they leave. -/
inductive StoresApart : Ping → σ → List (Call σ) → Ping → τ → List (Call τ) → Prop
  | nil {ping ping' : Ping} {world : σ} {world' : τ} : StoresApart ping world [] ping' world' []
  | cons {ping ping' : Ping} {world : σ} {world' : τ} {call : Call σ} {call' : Call τ}
      {calls : List (Call σ)} {calls' : List (Call τ)} :
      call'.env.codec = call.env.codec → call'.exchange = call.exchange →
      (call'.env.registry.folders ping'.account world').result =
        (call.env.registry.folders ping.account world).result →
      StoresApart (call.run ping world).ping (call.run ping world).world calls
        (call'.run ping' world').ping (call'.run ping' world').world calls' →
      StoresApart ping world (call :: calls) ping' world' (call' :: calls')

/-- **No call sees what the store has made of a write**, its own or an earlier one. -/
theorem observed_runs {ping : Ping} {world : σ} {calls : List (Call σ)} {world' : τ}
    {calls' : List (Call τ)} (h : StoresApart ping world calls ping world' calls') :
    (runs ping world' calls').map Run.observed = (runs ping world calls).map Run.observed := by
  induction calls generalizing ping world world' calls' with
  | nil =>
      cases h with
      | nil => rfl
  | cons call calls ih =>
      cases h with
      | cons hcodec hexchange hread hrest =>
          rename_i call' calls'
          obtain ⟨hresult, hping, hsent⟩ := run_of_reads hcodec hread call'.exchange
          rw [hexchange] at hresult hping hsent
          have hrun : call'.run ping world' = run call'.env ping call.exchange world' := by
            rw [Call.run, hexchange]
          have hobserved : (call'.run ping world').observed = (call.run ping world).observed := by
            rw [hrun, Run.observed, hresult, hsent, hping]
            rfl
          rw [hrun, hping] at hrest
          show Run.observed _ :: _ = Run.observed _ :: _
          rw [hobserved, hrun, hping]
          exact congrArg _ (ih hrest)

/-! ## The discipline -/

/-- **The discipline of writes.** Whatever the operation, its collaborators and the exchange are:
a call attempts exactly one write if its request failed or if it decoded status 1, or status 5
with a heartbeat, and then the write is for the account of the operation and of the heartbeat with
which the call ends; every other call attempts none. And two histories that differ in what their
stores make of the writes differ in nothing else that is seen of their calls: not in a result with
its effects, nor in a message, nor in an operation. -/
theorem write_discipline :
    (∀ {σ : Type} (env : Collaborators σ) (ping : Ping) (x : Exchange) (world : σ),
      let r := run env ping x world
      let writes := attempts env ping x world
      let adjusts := (∃ failure, r.result = .ok (.operationFailure failure)) ∨
        ∃ folders response, Decodes env ping x world folders response ∧
          (response.status.number = 1 ∨
            (response.status.number = 5 ∧ response.heartbeatInterval.isSome))
      (adjusts → ∃ taken, writes = [⟨ping.account, r.ping.heartbeat.secs, taken⟩]) ∧
        (¬ adjusts → writes = [])) ∧
    ∀ {σ τ : Type} {ping : Ping} {world : σ} {calls : List (Call σ)} {world' : τ}
      {calls' : List (Call τ)}, StoresApart ping world calls ping world' calls' →
      (runs ping world' calls').map Run.observed = (runs ping world calls).map Run.observed := by
  refine ⟨?_, fun h => observed_runs h⟩
  intro σ env ping x world r writes adjusts
  have hwrites : writes = if r.adjustment?.isSome then [⟨ping.account, r.ping.heartbeat.secs, _⟩]
      else [] := attempts_eq env ping x world
  have hadjusts : r.adjustment?.isSome ↔ adjusts := isSome_adjustment?_iff
  constructor
  · intro h
    rw [hwrites, if_pos (hadjusts.2 h)]
    exact ⟨_, rfl⟩
  · intro h
    rw [hwrites, if_neg (mt hadjusts.1 h)]

/-- The heartbeat grows to 1200 seconds, and the next call fails. Whether the store takes the
write of that call shows in the store, and in nothing else. -/
theorem write_discipline_refused_write :
    let ping : Ping := ⟨⟨7⟩, ⟨.standard, 900⟩⟩
    let grows : Call Scripted := .answered (.ofStatus .expired)
    let taken := [grows, .failed]
    let refused := [grows, Call.refused .failed]
    (∃ taken, attempts grows.env ping grows.exchange (watching none) = [⟨⟨7⟩, 1200, taken⟩]) ∧
      (runs ping (watching none) refused).map Run.observed
        = (runs ping (watching none) taken).map Run.observed ∧
      (after ping (watching none) taken).2.stored = some 900 ∧
      (after ping (watching none) refused).2.stored = some 1200 := by
  intro ping grows taken refused
  have hdecodes : Decodes grows.env ping grows.exchange (watching none)
      [⟨⟨1⟩, "inbox", .email, true, true⟩] (.ofStatus .expired) :=
    ⟨⟨_, _, rfl, rfl, rfl⟩, [0], ending_at_once _ _, by decide, rfl⟩
  have happart : StoresApart ping (watching none) taken ping (watching none) refused :=
    .cons rfl rfl rfl (.cons rfl rfl rfl .nil)
  obtain ⟨hone, -⟩ := write_discipline.1 grows.env ping grows.exchange (watching none)
  exact ⟨hone (.inr ⟨_, _, hdecodes, .inl rfl⟩), write_discipline.2 happart, by decide, by decide⟩

end MailPush.Ping
