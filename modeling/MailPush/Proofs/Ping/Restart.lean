import MailPush.Proofs.Ping.HeartbeatMoves
import MailPush.Proofs.Ping.WriteLog

set_option autoImplicit false

/-! # Restarting an operation

What the store holds after a history of calls, some of whose writes failed, and where an
operation starts that is created over it. Of the store it is assumed that it holds one number
for the account, which a write that succeeds replaces and a write that fails leaves
(`HeartbeatStore.Keeps`).

The invariant (`Traced`) ties three numbers together: the heartbeat in memory is that of the
last attempt to write it, the held number is that of the last attempt that succeeded, and no
attempt writes zero, so that a number which was written is never read back as unset.
-/

namespace MailPush

/-- A store holds a number for an account, if any: loading answers it, a write that succeeds
replaces it, and a write that fails leaves it. -/
structure HeartbeatStore.Keeps {σ : Type} (store : HeartbeatStore σ) (account : AccountId)
    (held : σ → Option UInt64) : Prop where
  load_eq : ∀ world secs, (store.load account world).result = .ok secs → secs = held world
  held_load : ∀ world, held (store.load account world).world = held world
  held_taken : ∀ secs world, (store.store account secs world).result = .ok () →
    held (store.store account secs world).world = some secs
  held_refused : ∀ secs world e, (store.store account secs world).result = .error e →
    held (store.store account secs world).world = held world

/-- Collaborators keep the number of an account: their store does, and reading the folders does
not touch it. -/
structure Collaborators.Keep {σ : Type} (env : Collaborators σ) (account : AccountId)
    (held : σ → Option UInt64) : Prop where
  heartbeats : env.heartbeats.Keeps account held
  held_folders : ∀ world, held (env.registry.folders account world).world = held world

namespace Ping

variable {σ : Type} {account : AccountId} {p : Policy} {held : σ → Option UInt64}
  {initial : Option UInt64}

/-! ## The invariant -/

/-- An operation was started from a held number, and its writes have been logged since. -/
structure Traced (account : AccountId) (p : Policy) (held : σ → Option UInt64)
    (initial : Option UInt64) (ping : Ping) (w : σ × List Write) : Prop where
  governed : Governed account p ping
  held_eq : held w.1 = (lastTaken w.2).or initial
  secs_eq : ∀ write, w.2.getLast? = some write → write.secs = ping.heartbeat.secs
  unwritten : w.2 = [] → ping.heartbeat = .restore p initial
  secs_ne_zero : ∀ write ∈ w.2, write.secs ≠ 0

/-- What does not touch the number leaves the trace. -/
theorem Traced.of_held_eq {ping : Ping} {w : σ × List Write}
    (h : Traced account p held initial ping w) {world : σ} (hw : held world = held w.1) :
    Traced account p held initial ping (world, w.2) where
  governed := h.governed
  held_eq := hw.trans h.held_eq
  secs_eq := h.secs_eq
  unwritten := h.unwritten
  secs_ne_zero := h.secs_ne_zero

/-- An adjustment and its write extend the trace, whether or not the write succeeds. -/
theorem Traced.adjust {env : Collaborators σ} (hp : p.Valid) (henv : env.Keep account held)
    {ping : Ping} {w : σ × List Write} (h : Traced account p held initial ping w)
    (a : Adjustment) :
    Traced account p held initial (ping.adjust a)
      (storedBy env.logged.heartbeats ping w (some a)) := by
  have hg : Governed account p (ping.adjust a) := h.governed.adjust hp a
  have hne : (ping.adjust a).heartbeat.secs ≠ 0 :=
    hg.inRange.secs_ne_zero (hg.policy_eq.symm ▸ hp)
  have haccount : ping.account = account := h.governed.account_eq
  -- the write as the store sees it
  obtain ⟨written, hwritten⟩ : ∃ written,
      env.heartbeats.store account (ping.adjust a).heartbeat.secs w.1 = written := ⟨_, rfl⟩
  have hstored : storedBy env.logged.heartbeats ping w (some a)
      = (written.world,
          w.2 ++ [⟨account, (ping.adjust a).heartbeat.secs, written.result.isOk⟩]) := by
    rw [← hwritten, ← haccount]
    rfl
  rw [hstored]
  refine ⟨hg, ?_, ?_, ?_, ?_⟩
  · cases hres : written.result with
    | ok u =>
        rw [lastTaken_append_taken _ rfl]
        have htaken := henv.heartbeats.held_taken (ping.adjust a).heartbeat.secs w.1
        rw [hwritten] at htaken
        exact htaken hres
    | error e =>
        rw [lastTaken_append_refused _ rfl]
        have hrefused := henv.heartbeats.held_refused (ping.adjust a).heartbeat.secs w.1 e
        rw [hwritten] at hrefused
        exact (hrefused hres).trans h.held_eq
  · intro write hlast
    rw [List.getLast?_concat] at hlast
    obtain rfl := Option.some.inj hlast
    rfl
  · intro hnil
    exact absurd hnil (by simp)
  · intro write hmem
    rcases List.mem_append.1 hmem with hmem | hmem
    · exact h.secs_ne_zero write hmem
    · obtain rfl := List.mem_singleton.1 hmem
      exact hne

/-- **A call extends the trace.** The calls that end before an adjustment write nothing, and the
others write the adjusted heartbeat. -/
theorem Traced.run {env : Collaborators σ} (hp : p.Valid) (henv : env.Keep account held)
    {ping : Ping} {w : σ × List Write} (h : Traced account p held initial ping w)
    (x : Exchange) :
    Traced account p held initial (run env.logged ping x w).ping
      (run env.logged ping x w).world := by
  have hread : Traced account p held initial ping
      (env.logged.registry.folders ping.account w).world := by
    rw [h.governed.account_eq]
    exact h.of_held_eq (henv.held_folders w.1)
  have hends := ends_run env.logged ping x w
  generalize Ping.run env.logged ping x w = r at hends
  -- reading the folders leaves the trace, and all ends but the last stop there
  cases hends with
  | unread => exact hread
  | idle => exact hread
  | unwritten => exact hread
  | cancelled => exact hread
  | concluded hprep hx =>
      rename_i folders request payload received
      rw [finish_ping, finish_world]
      cases (ping.conclude folders received).adjustment with
      | none => exact hread
      | some a => exact hread.adjust hp henv a

theorem Traced.after (hp : p.Valid) {calls : List (Call σ)}
    (hcalls : ∀ call ∈ calls, call.env.Keep account held) {ping : Ping} {w : σ × List Write}
    (h : Traced account p held initial ping w) :
    Traced account p held initial (after ping w (calls.map .logged)).1
      (after ping w (calls.map .logged)).2 := by
  refine after_induction (P := fun ping w => Traced account p held initial ping w) ?_ h
  intro call hcall ping w h
  obtain ⟨plain, hplain, rfl⟩ := List.mem_map.1 hcall
  exact h.run hp (hcalls plain hplain) plain.exchange

/-! ## Starting over a store -/

/-- An operation starts from the number that its store holds, if this can be loaded. -/
theorem restored_of_keeps {store : HeartbeatStore σ} (hkeeps : store.Keeps account held)
    {world : σ} {secs : Option UInt64} (hload : (store.load account world).result = .ok secs) :
    restored store account p world = ⟨account, .restore p (held world)⟩ := by
  rw [restored, hload, ← hkeeps.load_eq world secs hload]
  rfl

theorem Traced.start {store : HeartbeatStore σ} (hp : p.Valid) (hkeeps : store.Keeps account held)
    {world : σ} (hload : (store.load account world).result = .ok initial) :
    Traced account p held initial (restored store account p world)
      ((store.load account world).world, []) where
  governed := governed_restored hp world
  held_eq := (hkeeps.held_load world).trans (hkeeps.load_eq world initial hload).symm
  secs_eq := by
    intro write hlast
    cases hlast
  unwritten := by
    intro _
    rw [restored_of_keeps hkeeps hload, hkeeps.load_eq world initial hload]
  secs_ne_zero := by
    intro write hmem
    cases hmem

/-- The operation in memory and the one that starts over its store agree, if the last attempt to
write succeeded. -/
theorem Traced.restore_eq {ping : Ping} {w : σ × List Write}
    (h : Traced account p held initial ping w)
    (hlast : ∀ write, w.2.getLast? = some write → write.taken = true) :
    Heartbeat.restore p (held w.1) = ping.heartbeat := by
  rw [h.held_eq]
  -- without a write the operation is still as it was started; otherwise the last one was taken
  rcases List.eq_nil_or_concat w.2 with hnil | ⟨log, write, hlog⟩
  · rw [h.unwritten hnil, hnil]
    rfl
  · have hwrite : w.2.getLast? = some write := by
      rw [hlog, List.concat_eq_append, List.getLast?_concat]
    have hsecs : write.secs = ping.heartbeat.secs := h.secs_eq write hwrite
    have hne : write.secs ≠ 0 := h.secs_ne_zero write (List.mem_of_getLast? hwrite)
    rw [hlog, List.concat_eq_append, lastTaken_append_taken _ (hlast write hwrite), Option.some_or,
      hsecs, ← h.governed.policy_eq]
    exact h.governed.inRange.restore_secs (hsecs ▸ hne)

/-! ## The law -/

/-- **The restart law.** An operation has been started over a store from the number `initial`,
and any calls have been made, in which any of the writes failed. Then the store holds the number
of the last write that succeeded, or `initial`. An operation that starts over it with any
consistent policy starts at that number, clamped; if nothing was written, it starts as from
`initial`. With the policy of the first operation, it starts at the heartbeat of that one, unless
the last attempt to write has failed. -/
theorem restart_law {store : HeartbeatStore σ} {config : PushConfig} {world : σ} {ping : Ping}
    (hstart : (start store account config world).result = .ok ping)
    (hload : (store.load account world).result = .ok initial)
    (hkeeps : store.Keeps account held) {calls : List (Call σ)}
    (hcalls : ∀ call ∈ calls, call.env.Keep account held) :
    let started := (start store account config world).world
    let s := after ping started calls
    let log := (after ping (started, []) (calls.map .logged)).2.2
    held s.2 = (lastTaken log).or initial ∧
    ∀ (store' : HeartbeatStore σ) (config' : PushConfig),
      store'.Keeps account held → config'.heartbeat.Valid →
      (∃ secs, (store'.load account s.2).result = .ok secs) →
      ∃ ping', (start store' account config' s.2).result = .ok ping' ∧
        (∀ secs, lastTaken log = some secs →
          ping'.heartbeat.secs = config'.heartbeat.clamp secs) ∧
        (lastTaken log = none →
          (initial = none ∨ initial = some 0 →
            ping'.heartbeat.secs = config'.heartbeat.defaultSecs) ∧
          (∀ secs, initial = some secs → secs ≠ 0 →
            ping'.heartbeat.secs = config'.heartbeat.clamp secs)) ∧
        (config'.heartbeat = config.heartbeat →
          (∀ write, log.getLast? = some write → write.taken = true) →
          ping'.heartbeat = s.1.heartbeat) := by
  intro started s log
  obtain ⟨hp, rfl⟩ := start_eq_ok_iff.1 hstart
  -- the log is kept in a history of its own, which agrees with the given one otherwise
  have htrace : Traced account config.heartbeat held initial s.1 (s.2, log) := by
    have h := (Traced.start hp hkeeps hload).after hp hcalls
    rw [← (start_of_valid hp).2] at h
    obtain ⟨hping, hworld⟩ := after_logged calls (restored store account config.heartbeat world)
      started []
    rw [hping] at h
    exact ⟨h.governed, hworld ▸ h.held_eq, h.secs_eq, h.unwritten, h.secs_ne_zero⟩
  have hheld : held s.2 = (lastTaken log).or initial := htrace.held_eq
  refine ⟨hheld, ?_⟩
  rintro store' config' hkeeps' hp' ⟨secs, hload'⟩
  have hrestored := restored_of_keeps (p := config'.heartbeat) hkeeps' hload'
  refine ⟨_, (start_of_valid hp').1, ?_, ?_, ?_⟩
  · intro n hn
    -- a number that was written is not zero, so it is not read back as unset
    obtain ⟨write, hmem, -, rfl⟩ := exists_of_lastTaken hn
    rw [hrestored, hheld, hn, Option.some_or]
    exact Heartbeat.restore_some (htrace.secs_ne_zero write hmem)
  · intro hnone
    rw [hrestored, hheld, hnone, Option.none_or]
    refine ⟨Heartbeat.restore_unset hp', ?_⟩
    rintro n rfl hn
    exact Heartbeat.restore_some hn
  · intro hsame hlast
    rw [hrestored, hsame]
    exact htrace.restore_eq hlast

/-! ## Scripted stores -/

/-- The scripted store keeps its number, also while it refuses writes. -/
theorem scripted_keeps (account : AccountId) :
    Scripted.heartbeatStore.Keeps account (·.stored) where
  load_eq := by
    intro world secs h
    simp only [Scripted.heartbeatStore, Scripted.unlessFault] at h
    cases hfault : world.loadFault with
    | none =>
        rw [hfault] at h
        exact (Except.ok.inj h).symm
    | some reason =>
        rw [hfault] at h
        cases h
  held_load := fun _ => rfl
  held_taken := by
    intro secs world h
    simp only [Scripted.heartbeatStore] at h ⊢
    cases hfault : world.storeFault with
    | none => rfl
    | some reason =>
        rw [hfault] at h
        cases h
  held_refused := by
    intro secs world e h
    simp only [Scripted.heartbeatStore] at h ⊢
    cases hfault : world.storeFault with
    | none =>
        rw [hfault] at h
        cases h
    | some reason => rfl

theorem scripted_keep (account : AccountId) (codec : Codec) :
    (Scripted.collaborators codec).Keep account (·.stored) where
  heartbeats := scripted_keeps account
  held_folders := fun _ => rfl

/-- The same call, during which the store refuses every write. -/
def Call.refused (call : Call Scripted) : Call Scripted where
  env :=
    { call.env with
      heartbeats :=
        { call.env.heartbeats with
          store := fun _ _ world => ⟨.error (Scripted.failure "full"), world, []⟩ } }
  exchange := call.exchange

/-- A failed call stores 480 seconds; the heartbeat then grows to 780, but that write is refused.
The account restarts at 480, not at the 600 of the beginning and not at 780. -/
theorem restart_law_refused_write :
    let calls : List (Call Scripted) := [.failed, Call.refused (.answered (.ofStatus .expired))]
    let started := start Scripted.heartbeatStore ⟨7⟩ .standard (watching (some 600))
    let s := after ⟨⟨7⟩, .standard, 600⟩ started.world calls
    started.result = .ok ⟨⟨7⟩, .standard, 600⟩ ∧ s.1.heartbeat.secs = 780 ∧
      s.2.stored = some 480 ∧
      ∃ ping', (start Scripted.heartbeatStore ⟨7⟩ .standard s.2).result = .ok ping' ∧
        ping'.heartbeat.secs = Policy.standard.clamp 480 := by
  intro calls started s
  have hstart : started.result = .ok ⟨⟨7⟩, .standard, 600⟩ := rfl
  have hp : PushConfig.standard.heartbeat.Valid := (start_eq_ok_iff.1 hstart).1
  have hcalls : ∀ call ∈ calls, call.env.Keep ⟨7⟩ (·.stored) := by
    intro call hcall
    rcases List.mem_cons.1 hcall with rfl | hcall
    · exact scripted_keep ⟨7⟩ _
    · obtain rfl := List.mem_singleton.1 hcall
      refine ⟨⟨(scripted_keeps ⟨7⟩).load_eq, fun _ => rfl, ?_, fun _ _ _ _ => rfl⟩, fun _ => rfl⟩
      intro secs world h
      cases h
  obtain ⟨hheld, hrestart⟩ := restart_law hstart rfl (scripted_keeps ⟨7⟩) hcalls
  obtain ⟨ping', hping, hclamp, -⟩ :=
    hrestart Scripted.heartbeatStore .standard (scripted_keeps ⟨7⟩) hp ⟨_, rfl⟩
  exact ⟨hstart, rfl, hheld, ping', hping, hclamp 480 rfl⟩

end Ping

end MailPush
