import MailPush.Proofs.Accounts.Turns
import MailPush.Proofs.Ping.HeartbeatMoves

set_option autoImplicit false

/-! # The stored heartbeat of an account

The row of a heartbeat takes numbers below 2^63 only, whereas the bounds of a policy are any words.
So an adjustment may be too large for its row: then it is refused, the row stays as it was, and
the operation goes on with a heartbeat that is not stored.

Here the row of one account is left to the runs of its operation, while all other accounts take any
turns (`Turn.Spares`). The log of its adjustments (`adjustments`) determines both heartbeats, and
this is the invariant (`Durable`): the one in memory is that of the last adjustment, the one in the
row that of the last adjustment which fits (`lastStorable`). The main statement
`heartbeat_of_turns` says where the account would start again.
-/

namespace MailPush.Accounts

open Repository

variable {account : AccountId} {p : Policy} {initial : Option UInt64} {log : List UInt64}
  {turn : Turn} {s : State}

/-! ## Adjustments -/

/-- A turn leaves the heartbeat of an account to the runs of its operation. -/
def Turn.Spares (account : AccountId) (turn : Turn) : Prop :=
  match turn.move with
  | .start _ => turn.account ≠ account
  | .call (.setHeartbeat owner _) | .call (.deleteAccount owner) => owner ≠ account
  | _ => True

/-- The heartbeat to which a turn adjusts the operation of its account, if it does. -/
def Turn.adjusted? (turn : Turn) (s : Shared) : Option UInt64 :=
  match turn.move with
  | .run codec x => (turn.ranOver codec x s).adjusted?
  | _ => none

/-- The heartbeats to which a turn adjusts the operation of an account: one, or none. -/
def adjustmentIn (account : AccountId) (turn : Turn) (s : Shared) : List UInt64 :=
  if turn.account = account then (turn.adjusted? s).toList else []

/-- The heartbeats to which turns adjust the operation of an account, in order. -/
def adjustments (account : AccountId) : List Turn → Shared → List UInt64
  | [], _ => []
  | turn :: turns, s => adjustmentIn account turn s ++ adjustments account turns (turn.next s)

/-- The last of some heartbeats that fits a row. -/
def lastStorable (log : List UInt64) : Option UInt64 := (log.filter storable).getLast?

theorem lastStorable_concat (log : List UInt64) (secs : UInt64) :
    lastStorable (log ++ [secs]) = if storable secs then some secs else lastStorable log := by
  rw [lastStorable, List.filter_append]
  by_cases h : storable secs
  · rw [List.filter_cons_of_pos h, List.filter_nil, List.getLast?_concat, if_pos h]
  · rw [List.filter_cons_of_neg h, List.filter_nil, List.append_nil, if_neg h]
    rfl

/-! ## The row -/

/-- The heartbeat in the row of an account. -/
def State.row (s : State) (account : AccountId) : Option UInt64 :=
  (s.stored.get? account.number).bind heartbeatOfStored

/-- A heartbeat that fits is what is read after it has been written; another one changes
nothing. -/
theorem row_writeHeartbeat (s : State) (account : AccountId) (secs : UInt64) :
    { s with stored := writeHeartbeat s.stored account (some secs) }.row account =
      if storable secs then some secs else s.row account := by
  rw [State.row, writeHeartbeat, Op.onHeartbeats]
  by_cases h : storable secs
  · rw [storedOfHeartbeat_of_storable h, if_pos h, Rows.get?_put_self]
    exact heartbeatOfStored_toInt64 h
  · rw [storedOfHeartbeat_of_not_storable h, if_neg h]
    rfl

/-- A write that is refused leaves the repository. -/
theorem store_of_not_storable (account : AccountId) {secs : UInt64} (h : ¬ storable secs)
    (s : State) :
    s.repository.setHeartbeat account secs = .error (.outOfRange secs) ∧
      writeHeartbeat s.stored account (some secs) = s.stored := by
  have hrefused := storedOfHeartbeat_of_not_storable h
  constructor
  · rw [State.repository, setHeartbeat_ofTables, hrefused]
  · rw [writeHeartbeat, Op.onHeartbeats, hrefused]

/-- A call of another kind than those that touch the row leaves it, whoever makes it. -/
theorem get?_onHeartbeats_of_spares {op : Op} {actor : AccountId}
    (h : Turn.Spares account ⟨actor, .call op⟩) (rows : Rows Int64) :
    (op.onHeartbeats rows).get? account.number = rows.get? account.number := by
  cases op with
  | setHeartbeat owner secs =>
      have hop : (Op.setHeartbeat owner secs).account? ≠ some account :=
        fun heq => h (Option.some.inj heq)
      exact Op.get?_onHeartbeats_of_ne hop rows
  | deleteAccount owner =>
      have hop : (Op.deleteAccount owner).account? ≠ some account :=
        fun heq => h (Option.some.inj heq)
      exact Op.get?_onHeartbeats_of_ne hop rows
  | heartbeat | saveFolder | setSyncKey | setAutoSync | listFolders | recordRequest | request
  | pendingRequests | takePendingRequests => rfl

/-! ## The invariant -/

/-- The operation of an account was started from a number, with a policy, and has been adjusted
since to the heartbeats of a log. -/
structure Durable (account : AccountId) (p : Policy) (initial : Option UInt64)
    (log : List UInt64) (s : State) : Prop where
  governed : Ping.Governed account p (s.shared.ping account)
  row_eq : s.row account = (lastStorable log).or initial
  secs_eq : ∀ secs, log.getLast? = some secs → secs = (s.heartbeats account).secs
  unadjusted : log = [] → s.heartbeats account = .restore p initial
  le_max : ∀ secs ∈ log, secs ≤ p.maxSecs

/-- What touches neither heartbeat preserves the invariant. -/
theorem Durable.keep (h : Durable account p initial log s) {s' : State}
    (hrow : s'.stored.get? account.number = s.stored.get? account.number)
    (hheartbeat : s'.heartbeats account = s.heartbeats account) :
    Durable account p initial log s' where
  governed := by
    have hping : s'.shared.ping account = s.shared.ping account :=
      congrArg (Ping.mk account) hheartbeat
    rw [hping]
    exact h.governed
  row_eq := (congrArg (·.bind heartbeatOfStored) hrow).trans h.row_eq
  secs_eq := by
    rw [hheartbeat]
    exact h.secs_eq
  unadjusted := by
    rw [hheartbeat]
    exact h.unadjusted
  le_max := h.le_max

/-- An adjustment, with the attempt to store it, extends the log. -/
theorem Durable.adjust (h : Durable account p initial log s) {ping : Ping}
    (hping : Ping.Governed account p ping) :
    Durable account p initial (log ++ [ping.heartbeat.secs])
      { s with
        stored := writeHeartbeat s.stored account (some ping.heartbeat.secs)
        heartbeats := Function.update s.heartbeats account ping.heartbeat } where
  governed := by
    have hshared : Ping.mk account ping.heartbeat = ping := by rw [← hping.account_eq]
    show Ping.Governed account p ⟨account, Function.update s.heartbeats account _ account⟩
    rw [Function.update_self, hshared]
    exact hping
  row_eq := by
    refine (row_writeHeartbeat s account ping.heartbeat.secs).trans ?_
    rw [lastStorable_concat]
    by_cases hfits : storable ping.heartbeat.secs
    · rw [if_pos hfits, if_pos hfits, Option.some_or]
    · rw [if_neg hfits, if_neg hfits, h.row_eq]
  secs_eq := by
    intro secs hlast
    rw [List.getLast?_concat] at hlast
    show secs = (Function.update s.heartbeats account ping.heartbeat account).secs
    rw [Function.update_self, Option.some.inj hlast]
  unadjusted := by
    intro hnil
    exact absurd hnil (List.concat_ne_nil _ _)
  le_max := by
    intro secs hmem
    rcases List.mem_append.1 hmem with hmem | hmem
    · exact h.le_max secs hmem
    · rw [List.mem_singleton.1 hmem, ← hping.policy_eq]
      exact hping.inRange.2

/-- **A run extends the log** by its adjustment, if it makes one. -/
theorem Durable.run (hp : p.Valid) (h : Durable account p initial log s) (codec : Codec)
    (x : Exchange) :
    let turn : Turn := ⟨account, .run codec x⟩
    Durable account p initial (log ++ (turn.adjusted? s.shared).toList) (s.next turn) := by
  intro turn
  obtain ⟨r, hr⟩ : ∃ r, turn.ranOver codec x s.shared = r := ⟨_, rfl⟩
  have hping : r.ping = (s.shared.ping account).adjustBy r.adjustment? :=
    hr ▸ Ping.run_ping_eq _ _ _ _
  have hgoverned : Ping.Governed account p r.ping := hr ▸ h.governed.run hp _ x _
  have hadjusted : turn.adjusted? s.shared = r.adjusted? := congrArg Ping.Run.adjusted? hr
  have hnext : s.next turn =
      { s with
        stored := writeHeartbeat s.stored account r.adjusted?
        heartbeats := Function.update s.heartbeats account r.ping.heartbeat } := by
    rw [← hr]
    rfl
  rw [hadjusted, hnext, Ping.Run.adjusted?]
  cases hadjustment : r.adjustment? with
  | none =>
      -- a run without an adjustment leaves the operation as it is
      rw [hadjustment] at hping
      have hheartbeat : r.ping.heartbeat = s.heartbeats account := congrArg Ping.heartbeat hping
      rw [Option.map_none, Option.toList_none, List.append_nil]
      exact h.keep rfl ((Function.update_self ..).trans hheartbeat)
  | some a => exact h.adjust hgoverned

/-- **A turn preserves the invariant**, if it leaves the row to the runs of the account. -/
theorem Durable.next (hp : p.Valid) (h : Durable account p initial log s)
    (hspares : turn.Spares account) :
    Durable account p initial (log ++ adjustmentIn account turn s.shared) (s.next turn) := by
  obtain ⟨actor, move⟩ := turn
  have hkeep : Turn.adjusted? ⟨actor, move⟩ s.shared = none →
      adjustmentIn account ⟨actor, move⟩ s.shared = [] := by
    intro hnone
    rw [adjustmentIn, hnone, Option.toList_none, ite_self]
  -- only an own run adjusts the operation; all else touches neither heartbeat of the account
  cases move with
  | start config =>
      rw [hkeep rfl, List.append_nil]
      exact h.keep rfl (startedWith_of_ne hspares s.heartbeats _)
  | call op =>
      rw [hkeep rfl, List.append_nil]
      exact h.keep (get?_onHeartbeats_of_spares hspares s.stored) rfl
  | run codec x =>
      by_cases haccount : actor = account
      · subst haccount
        rw [adjustmentIn, if_pos rfl]
        exact h.run hp codec x
      · rw [adjustmentIn, if_neg haccount, List.append_nil]
        exact h.keep (get?_writeHeartbeat_of_ne s.stored haccount _)
          (Function.update_of_ne (Ne.symm haccount) _ _)
  | apply effects =>
      rw [hkeep rfl, List.append_nil]
      exact h.keep rfl rfl

theorem Durable.after (hp : p.Valid) (h : Durable account p initial log s) {turns : List Turn}
    (hspares : ∀ turn ∈ turns, turn.Spares account) :
    Durable account p initial (log ++ adjustments account turns s.shared) (s.after turns) := by
  induction turns generalizing log s with
  | nil =>
      rw [adjustments, List.append_nil]
      exact h
  | cons turn turns ih =>
      have hnext := h.next hp (hspares turn List.mem_cons_self)
      have hafter := ih hnext fun turn hturn => hspares turn (List.mem_cons_of_mem _ hturn)
      rw [adjustments, next_shared, ← List.append_assoc]
      exact hafter

/-- An operation that has just started has not been adjusted. -/
theorem durable_of_start {config : PushConfig}
    (hstart : (Ping.start heartbeatStore account config s.repository).result =
      .ok (s.shared.ping account)) :
    config.heartbeat.Valid ∧ Durable account config.heartbeat (s.row account) [] s := by
  obtain ⟨hp, hrestored⟩ := Ping.start_eq_ok_iff.1 hstart
  have hheartbeat : s.heartbeats account = .restore config.heartbeat (s.row account) :=
    congrArg Ping.heartbeat hrestored
  refine ⟨hp, ?_, rfl, nofun, fun _ => hheartbeat, nofun⟩
  rw [hrestored]
  exact Ping.governed_restored hp s.repository

/-- If all heartbeats of the policy fit, the one in the row restores the one in memory. -/
theorem Durable.restore_row (hp : p.Valid) (h : Durable account p initial log s)
    (hmax : storable p.maxSecs) : .restore p (s.row account) = s.heartbeats account := by
  have hfits : ∀ secs ∈ log, storable secs := by
    intro secs hmem
    have hle := UInt64.le_iff_toNat_le.1 (h.le_max secs hmem)
    have hlt := storable_iff.1 hmax
    exact storable_iff.2 (by omega)
  rw [h.row_eq, lastStorable, List.filter_eq_self.2 hfits]
  -- the heartbeat in memory is the one that was restored, or that of the last adjustment
  cases hlast : log.getLast? with
  | none =>
      rw [Option.none_or]
      exact (h.unadjusted (List.getLast?_eq_none_iff.1 hlast)).symm
  | some secs =>
      have hpolicy : (s.heartbeats account).policy = p := h.governed.policy_eq
      have hrange : (s.heartbeats account).InRange := h.governed.inRange
      rw [Option.some_or, h.secs_eq secs hlast, ← hpolicy]
      exact hrange.restore_secs (hrange.secs_ne_zero (hpolicy.symm ▸ hp))

/-! ## Every interleaving -/

/-- A run whose adjustment does not fit its row leaves the repository, reports the refusal, and
ends as it would with a store that takes all numbers. -/
theorem run_of_not_storable {codec : Codec} {x : Exchange} {secs : UInt64}
    (hadjusted : Turn.adjusted? ⟨account, .run codec x⟩ s.shared = some secs)
    (hfits : ¬ storable secs) :
    let r := Ping.run (collaborators codec) (s.shared.ping account) x s.repository
    s.repository.setHeartbeat account secs = .error (.outOfRange secs) ∧
      r.world = s.repository ∧
      Event.storeFailed account secs (.storage (.store (.outOfRange secs))) ∈ r.events ∧
      r.ping.heartbeat.secs = secs ∧
      ∀ store : HeartbeatStore Repository,
        let r' := Ping.run { collaborators codec with heartbeats := store }
          (s.shared.ping account) x s.repository
        r'.result = r.result ∧ r'.ping = r.ping ∧ r'.sent = r.sent := by
  intro r
  obtain ⟨hrefused, hrow⟩ := store_of_not_storable account hfits s
  have hadjusted' : r.adjusted? = some secs := hadjusted
  obtain ⟨a, ha, hsecs⟩ := Option.map_eq_some_iff.1 hadjusted'
  have hping : r.ping = (s.shared.ping account).adjustBy r.adjustment? := Ping.run_ping_eq _ _ _ _
  rw [ha] at hping
  have hadjust : ((s.shared.ping account).adjust a).heartbeat.secs = secs := by
    rw [← hsecs, hping]
    rfl
  refine ⟨hrefused, ?_, ?_, hsecs, fun store => Ping.run_of_store _ store _ x _⟩
  · have hworld : r.world =
        ofTables (writeHeartbeat s.stored account r.adjusted?) s.folders s.requests :=
      run_ofTables codec (s.shared.ping account) x
    rw [hworld, hadjusted', hrow]
    rfl
  · have hstore : (heartbeatStore.store account ((s.shared.ping account).adjust a).heartbeat.secs
        s.repository).result = .error (.storage (.store (.outOfRange secs))) := by
      rw [hadjust]
      show (s.repository.answer (s.repository.setHeartbeat account secs)).result = _
      rw [hrefused]
      rfl
    have hfailed := Ping.storeFailed_mem_events ha hstore
    rw [hadjust] at hfailed
    exact hfailed

/-- **The stored heartbeat under any interleaving.** The operation of an account has been started
over three tables, and accounts have taken turns, of which none but the runs of this operation
touches the row of the account. Then the row holds the last adjustment below 2^63, or what was in
it at the start.

A run that adjusts to a larger number is refused its write: the repository stays as it is, and
the heartbeat in memory and the outcome are what they would be with any other store. An operation
that starts with the same policy starts at the heartbeat in memory, if the upper bound is below
2^63, and in any case at the number in the row, clamped, or at the default if there is none. -/
theorem heartbeat_of_turns {config : PushConfig}
    (hstart : (Ping.start heartbeatStore account config s.repository).result =
      .ok (s.shared.ping account))
    {turns : List Turn} (hspares : ∀ turn ∈ turns, turn.Spares account) :
    let now := after turns s.shared
    ∃ initial stored, s.repository.heartbeat account = .ok initial ∧
      now.repository.heartbeat account = .ok stored ∧
      stored = (lastStorable (adjustments account turns s.shared)).or initial ∧
      (∀ codec x secs, Turn.adjusted? ⟨account, .run codec x⟩ now = some secs →
        9223372036854775808 ≤ secs.toNat →
        let r := Ping.run (collaborators codec) (now.ping account) x now.repository
        now.repository.setHeartbeat account secs = .error (.outOfRange secs) ∧
        r.world = now.repository ∧
        Event.storeFailed account secs (.storage (.store (.outOfRange secs))) ∈ r.events ∧
        r.ping.heartbeat.secs = secs ∧
        ∀ store : HeartbeatStore Repository,
          let r' := Ping.run { collaborators codec with heartbeats := store }
            (now.ping account) x now.repository
          r'.result = r.result ∧ r'.ping = r.ping ∧ r'.sent = r.sent) ∧
      ∀ config' : PushConfig, config'.heartbeat = config.heartbeat →
        ∃ ping, (Ping.start heartbeatStore account config' now.repository).result = .ok ping ∧
          (config.heartbeat.maxSecs.toNat < 9223372036854775808 → ping = now.ping account) ∧
          (stored = none ∨ stored = some 0 →
            ping.heartbeat.secs = config.heartbeat.defaultSecs) ∧
          ∀ n, stored = some n → n ≠ 0 → ping.heartbeat.secs = config.heartbeat.clamp n := by
  intro now
  obtain ⟨hp, hdurable⟩ := durable_of_start hstart
  have hnow : Durable account config.heartbeat (s.row account)
      (adjustments account turns s.shared) (s.after turns) := hdurable.after hp hspares
  have hshared : now = (s.after turns).shared := after_shared turns s
  rw [hshared]
  refine ⟨s.row account, (s.after turns).row account, rfl, rfl, hnow.row_eq, ?_, ?_⟩
  · intro codec x secs hadjusted hlarge
    refine run_of_not_storable hadjusted fun hfits => ?_
    exact absurd (storable_iff.1 hfits) (Nat.not_lt.2 hlarge)
  · intro config' hsame
    have hp' : config'.heartbeat.Valid := hsame.symm ▸ hp
    refine ⟨_, (Ping.start_of_valid hp').1, ?_, ?_, ?_⟩
    · intro hmax
      show Ping.mk account (.restore config'.heartbeat ((s.after turns).row account)) = _
      rw [hsame, hnow.restore_row hp (storable_iff.2 hmax)]
      rfl
    · intro hunset
      rw [← hsame]
      exact Heartbeat.restore_unset hp' hunset
    · intro n hn hne
      show (Heartbeat.restore config'.heartbeat ((s.after turns).row account)).secs = _
      rw [hn, hsame]
      exact Heartbeat.restore_some hne

/-- A configuration whose heartbeats start just below 2^63 and reach up to the largest word. -/
def crossingConfig : PushConfig := ⟨⟨9223372036854775806, 1, 18446744073709551615, 3, 5⟩⟩

/-- Accounts with folders, whose operations have started with this configuration. -/
def State.crossing : State :=
  ⟨.empty, sharedFolders, .empty, fun _ => .restore crossingConfig.heartbeat none⟩

/-- Every response says that the ping expired. -/
def expiring : Codec := ⟨fun _ => .ok [0], fun _ => .ok (.ofStatus .expired)⟩

/-- The request of the first account fails, then its ping expires twice; in between the second
account stores its heartbeat and is deleted. -/
def crossing : List Turn :=
  [⟨⟨1⟩, .run expiring ⟨.error (.connection "reset"), some .zero, none⟩⟩,
    ⟨⟨2⟩, .call (.setHeartbeat ⟨2⟩ 600)⟩,
    ⟨⟨1⟩, .run expiring ⟨.ok [0], some .zero, none⟩⟩,
    ⟨⟨2⟩, .call (.deleteAccount ⟨2⟩)⟩,
    ⟨⟨1⟩, .run expiring ⟨.ok [0], some .zero, none⟩⟩]

/-- The first account goes from 2^63 - 2 down by one step, up again, and up beyond 2^63. The last
adjustment is refused: the account would start again at 2^63 - 2. -/
theorem heartbeat_of_turns_crossing :
    let s := State.crossing.shared
    let now := after crossing s
    adjustments ⟨1⟩ crossing s = [9223372036854775803, 9223372036854775806, 9223372036854775809] ∧
      (now.heartbeats ⟨1⟩).secs = 9223372036854775809 ∧
      now.repository.heartbeat ⟨1⟩ = .ok (some 9223372036854775806) ∧
      now.repository.setHeartbeat ⟨1⟩ 9223372036854775812 =
        .error (.outOfRange 9223372036854775812) ∧
      ∃ ping, (Ping.start heartbeatStore ⟨1⟩ crossingConfig now.repository).result = .ok ping ∧
        ping.heartbeat.secs = 9223372036854775806 := by
  intro s now
  have hstart : (Ping.start heartbeatStore ⟨1⟩ crossingConfig s.repository).result =
      .ok (s.ping ⟨1⟩) := rfl
  have hspares : ∀ turn ∈ crossing, turn.Spares ⟨1⟩ := by
    simp [crossing, Turn.Spares]
  obtain ⟨initial, stored, hinitial, hstored, hrow, hrefused, hrestart⟩ :=
    heartbeat_of_turns hstart hspares
  have hlog : adjustments ⟨1⟩ crossing s =
      [9223372036854775803, 9223372036854775806, 9223372036854775809] := by decide
  obtain rfl : none = initial := Except.ok.inj hinitial
  obtain rfl : stored = some 9223372036854775806 := by
    rw [hrow, hlog]
    rfl
  obtain ⟨ping, hping, -, -, hclamp⟩ := hrestart crossingConfig rfl
  have hnext := hrefused expiring ⟨.ok [0], some .zero, none⟩ 9223372036854775812 (by decide)
    (by decide)
  exact ⟨hlog, by decide, hstored, hnext.1, ping, hping, hclamp _ rfl (by decide)⟩

end MailPush.Accounts
