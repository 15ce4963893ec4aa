import MailPush.Proofs.Ping.Calls

set_option autoImplicit false

/-! # A log of the writes

Every attempt to store a heartbeat, as the store sees it (`Write`), kept beside the world by
collaborators that do nothing else differently (`Collaborators.logged`). The log is not part of
an operation; it lets a statement speak of the last write that succeeded. That it changes
nothing is an instance of a general fact: collaborators that answer alike in related worlds
give the same run, and leave related worlds (`run_related`).
-/

namespace MailPush

/-! ## Related worlds -/

/-- Two answers say the same, and leave related worlds. -/
structure Answer.Related {σ τ α : Type} (R : σ → τ → Prop) (a : Answer σ α) (b : Answer τ α) :
    Prop where
  result_eq : a.result = b.result
  events_eq : a.events = b.events
  world : R a.world b.world

/-- Collaborators answer alike, in related worlds, to everything that the operation of an
account asks of them. -/
structure Collaborators.Related {σ τ : Type} (R : σ → τ → Prop) (account : AccountId)
    (env : Collaborators σ) (env' : Collaborators τ) : Prop where
  codec_eq : env.codec = env'.codec
  folders : ∀ w w', R w w' →
    Answer.Related R (env.registry.folders account w) (env'.registry.folders account w')
  store : ∀ secs w w', R w w' →
    Answer.Related R (env.heartbeats.store account secs w) (env'.heartbeats.store account secs w')

namespace Ping

/-- Two runs are the same but for their worlds, which are related. -/
structure Run.Related {σ τ : Type} (R : σ → τ → Prop) (r : Run σ) (r' : Run τ) : Prop where
  result_eq : r.result = r'.result
  ping_eq : r.ping = r'.ping
  sent_eq : r.sent = r'.sent
  events_eq : r.events = r'.events
  world : R r.world r'.world

variable {σ τ : Type} {R : σ → τ → Prop} {env : Collaborators σ} {env' : Collaborators τ}
  {ping : Ping}

theorem finish_related (h : Collaborators.Related R ping.account env env') {w : σ} {w' : τ}
    (hw : R w w') (c : Conclusion) (sent : Option Message) (events : List Event) :
    Run.Related R (finish env.heartbeats ping c w sent events)
      (finish env'.heartbeats ping c w' sent events) := by
  unfold finish
  cases c.adjustment with
  | none => exact ⟨rfl, rfl, rfl, rfl, hw⟩
  | some a =>
      obtain ⟨hres, hev, hworld⟩ := h.store (ping.adjust a).heartbeat.secs w w' hw
      refine ⟨rfl, rfl, rfl, ?_, hworld⟩
      simp only [persist, adjust_account, hres, hev]

/-- **Collaborators that answer alike give the same run**, and leave related worlds. -/
theorem run_related (h : Collaborators.Related R ping.account env env') {w : σ} {w' : τ}
    (hw : R w w') (x : Exchange) :
    Run.Related R (run env ping x w) (run env' ping x w') := by
  obtain ⟨hres, hev, hworld⟩ := h.folders w w' hw
  have hends := ends_run env ping x w
  generalize run env ping x w = r at hends
  cases hends with
  | unread hf =>
      have hf' := hres ▸ hf
      rw [run, hf']
      exact ⟨rfl, rfl, rfl, hev, hworld⟩
  | idle hf hr =>
      have hf' := hres ▸ hf
      rw [run, hf']
      simp only [hr]
      exact ⟨rfl, rfl, rfl, by rw [hev], hworld⟩
  | unwritten hf hr he =>
      have hf' := hres ▸ hf
      rw [run, hf']
      simp only [hr, ← h.codec_eq, he]
      exact ⟨rfl, rfl, rfl, hev, hworld⟩
  | cancelled hprep hx =>
      have hprep' : Prepared env' ping w' _ _ _ :=
        ⟨hres ▸ hprep.folders_eq, hprep.request_eq, h.codec_eq ▸ hprep.payload_eq⟩
      rw [run_of_prepared hprep', ← h.codec_eq, hx, hev]
      exact ⟨rfl, rfl, rfl, rfl, hworld⟩
  | concluded hprep hx =>
      have hprep' : Prepared env' ping w' _ _ _ :=
        ⟨hres ▸ hprep.folders_eq, hprep.request_eq, h.codec_eq ▸ hprep.payload_eq⟩
      rw [run_of_prepared hprep', ← h.codec_eq, hx, hev]
      exact finish_related h hworld _ _ _

end Ping

/-! ## The log -/

/-- An attempt to store a heartbeat, and whether it succeeded. -/
structure Write where
  account : AccountId
  secs : UInt64
  taken : Bool
deriving DecidableEq

/-- An answer with a log beside its world. -/
def Answer.withLog {σ α : Type} (a : Answer σ α) (log : List Write) :
    Answer (σ × List Write) α :=
  ⟨a.result, (a.world, log), a.events⟩

/-- The same collaborators, keeping a log of the writes beside their world. -/
def Collaborators.logged {σ : Type} (env : Collaborators σ) :
    Collaborators (σ × List Write) where
  heartbeats :=
    { load := fun account w => (env.heartbeats.load account w.1).withLog w.2
      store := fun account secs w =>
        let written := env.heartbeats.store account secs w.1
        written.withLog (w.2 ++ [⟨account, secs, written.result.isOk⟩]) }
  registry :=
    { folders := fun account w => (env.registry.folders account w.1).withLog w.2
      request := fun account kind w => (env.registry.request account kind w.1).withLog w.2 }
  codec := env.codec

/-- Keeping a log changes no answer. -/
theorem Collaborators.logged_related {σ : Type} (env : Collaborators σ) (account : AccountId) :
    Collaborators.Related (fun w w' => w.1 = w') account env.logged env where
  codec_eq := rfl
  folders := by
    rintro w w' rfl
    exact ⟨rfl, rfl, rfl⟩
  store := by
    rintro secs w w' rfl
    exact ⟨rfl, rfl, rfl⟩

/-- The number of the last write that succeeded. -/
def lastTaken (log : List Write) : Option UInt64 :=
  (log.filter (·.taken)).getLast?.map (·.secs)

theorem lastTaken_append_taken (log : List Write) {w : Write} (h : w.taken = true) :
    lastTaken (log ++ [w]) = some w.secs := by
  simp [lastTaken, List.filter_append, h]

theorem lastTaken_append_refused (log : List Write) {w : Write} (h : w.taken = false) :
    lastTaken (log ++ [w]) = lastTaken log := by
  simp [lastTaken, List.filter_append, h]

theorem exists_of_lastTaken {log : List Write} {secs : UInt64} (h : lastTaken log = some secs) :
    ∃ w ∈ log, w.taken = true ∧ w.secs = secs := by
  obtain ⟨w, hw, hsecs⟩ := Option.map_eq_some_iff.1 h
  obtain ⟨hmem, htaken⟩ := List.mem_filter.1 (List.mem_of_getLast? hw)
  exact ⟨w, hmem, htaken, hsecs⟩

namespace Ping

variable {σ : Type}

/-- The same call, with a log of the writes. -/
def Call.logged (call : Call σ) : Call (σ × List Write) := ⟨call.env.logged, call.exchange⟩

/-- A history leaves the same operation and the same world, with or without a log. -/
theorem after_logged (calls : List (Call σ)) (ping : Ping) (world : σ) (log : List Write) :
    (after ping (world, log) (calls.map .logged)).1 = (after ping world calls).1 ∧
      (after ping (world, log) (calls.map .logged)).2.1 = (after ping world calls).2 := by
  induction calls generalizing ping world log with
  | nil => exact ⟨rfl, rfl⟩
  | cons call calls ih =>
      have hrun : Run.Related (fun w w' => w.1 = w') (call.logged.run ping (world, log))
          (call.run ping world) :=
        run_related (call.env.logged_related ping.account) rfl call.exchange
      obtain ⟨log', hlog⟩ : ∃ log', (call.logged.run ping (world, log)).world
          = ((call.run ping world).world, log') :=
        ⟨_, Prod.ext hrun.world rfl⟩
      simp only [List.map_cons, after, hrun.ping_eq, hlog]
      exact ih _ _ log'

end Ping

end MailPush
