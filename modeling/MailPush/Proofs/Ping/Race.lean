import MailPush.Proofs.Heartbeat.Deadline
import MailPush.Proofs.Ping.CutReplies
import MailPush.Proofs.Ping.HeartbeatMoves
import MailPush.Proofs.Ping.WriteDiscipline

set_option autoImplicit false

/-! # The caller, the reply and the deadline

Once its request is made ready, a call waits for three moments: that at which the caller gives up,
that of the reply, and the deadline. The first of them decides, where the caller wins every tie
(`Exchange.GivesUpFirst`) and the reply wins over the deadline (`race`). The deadline lies behind
the heartbeat, so a server that answers within the heartbeat is not taken for one that does not.
-/

namespace MailPush

namespace Exchange

variable {x x' : Exchange} {deadline : Span} {codec : Codec}

/-- The caller gives up, no later than the deadline and no later than the reply, if there is
one. -/
def GivesUpFirst (x : Exchange) (deadline : Span) : Prop :=
  ∃ c, x.cancelAfter = some c ∧ c ≤ deadline ∧ ∀ t, x.replyAfter = some t → c ≤ t

theorem cancelsBy_iff : x.cancelsBy deadline = true ↔ x.GivesUpFirst deadline := by
  rw [cancelsBy, Bool.and_eq_true, happensBy_iff]
  constructor
  · rintro ⟨⟨c, hc, hdeadline⟩, hreply⟩
    refine ⟨c, hc, hdeadline, fun t ht => ?_⟩
    rw [ht, hc] at hreply
    exact decide_eq_true_iff.1 hreply
  · rintro ⟨c, hc, hdeadline, hfirst⟩
    refine ⟨⟨c, hc, hdeadline⟩, ?_⟩
    cases hr : x.replyAfter with
    | none => rfl
    | some t => exact happensBy_iff.2 ⟨c, hc, hfirst t hr⟩

/-! ## What an exchange yields -/

theorem received?_of_givesUpFirst (h : x.GivesUpFirst deadline) :
    x.received? codec deadline = none := by
  rw [received?, ending, if_pos (cancelsBy_iff.2 h)]

theorem ending_of_reply (h : ¬ x.GivesUpFirst deadline) {t : Span} (ht : x.replyAfter = some t)
    (hle : t ≤ deadline) : x.ending deadline = .replied x.reply := by
  have hreply : x.repliesBy deadline = true := happensBy_iff.2 ⟨t, ht, hle⟩
  rw [ending, if_neg (mt cancelsBy_iff.1 h), if_pos hreply]

theorem ending_of_late (h : ¬ x.GivesUpFirst deadline)
    (hlate : ∀ t, x.replyAfter = some t → ¬ t ≤ deadline) : x.ending deadline = .timedOut := by
  have hreply : ¬ x.repliesBy deadline = true := by
    intro hby
    obtain ⟨t, ht, hle⟩ := happensBy_iff.1 hby
    exact hlate t ht hle
  rw [ending, if_neg (mt cancelsBy_iff.1 h), if_neg hreply]

/-- A caller who gives up first leaves nothing to conclude from, and no other caller does. -/
theorem received?_eq_none_iff (codec : Codec) :
    x.received? codec deadline = none ↔ x.GivesUpFirst deadline := by
  refine ⟨fun h => ?_, received?_of_givesUpFirst⟩
  by_cases hfirst : x.GivesUpFirst deadline
  · exact hfirst
  rw [received?] at h
  by_cases hby : ∃ t, x.replyAfter = some t ∧ t ≤ deadline
  · obtain ⟨t, ht, hle⟩ := hby
    rw [ending_of_reply hfirst ht hle] at h
    cases h
  · rw [ending_of_late hfirst fun t ht hle => hby ⟨t, ht, hle⟩] at h
    cases h

end Exchange

namespace Ping

variable {σ : Type} {env : Collaborators σ} {ping : Ping} {x : Exchange} {world : σ}
  {folders : List Folder} {request : Request} {payload : Bytes}

/-- A call that concludes from what the server has sent is not reported as one that the server has
not answered in time. -/
theorem receive_outcome_ne_timedOut (codec : Codec) (body : Bytes) (deadline : Span) :
    (ping.conclude folders (receive codec (.ok body))).outcome
      ≠ .operationFailure (.timedOut deadline) := by
  by_cases hb : body = []
  · rw [hb, receive_nil]
    intro h
    cases h
  rw [receive_body codec hb]
  cases codec.decode body with
  | error e =>
      intro h
      cases h
  | ok response => exact ofClassification_ne_operationFailure _ _ _

/-- A call whose request is made ready is cancelled if the caller gives up first, and only
then. -/
theorem result_eq_cancelled_iff (hprep : Prepared env ping world folders request payload) :
    (run env ping x world).result = .ok .cancelled ↔ x.GivesUpFirst ping.heartbeat.timeout := by
  rw [run_of_prepared hprep, ← Exchange.received?_eq_none_iff env.codec]
  cases x.received? env.codec ping.heartbeat.timeout with
  | none => simp
  | some received =>
      simp only [finish_result, Except.ok.injEq, reduceCtorEq, iff_false]
      exact (conclude_outcome_ne ping folders received).1

/-- A call that is cancelled does not see what it would have been sent. -/
theorem run_of_givesUpFirst (hprep : Prepared env ping world folders request payload)
    {x' : Exchange} (hx : x.GivesUpFirst ping.heartbeat.timeout)
    (hx' : x'.GivesUpFirst ping.heartbeat.timeout) (hcancel : x'.cancelAfter = x.cancelAfter) :
    run env ping x' world = run env ping x world := by
  have hsent : ping.message? x' payload = ping.message? x payload := by
    rw [message?, message?, Exchange.isSent, Exchange.isSent, hcancel]
  rw [run_of_prepared hprep, run_of_prepared hprep, Exchange.received?_of_givesUpFirst hx,
    Exchange.received?_of_givesUpFirst hx', hsent]

/-- A call that is not given up before a reply in time concludes from the reply, as if the reply
had come at once. -/
theorem run_of_reply (hprep : Prepared env ping world folders request payload)
    (hx : ¬ x.GivesUpFirst ping.heartbeat.timeout) {t : Span} (ht : x.replyAfter = some t)
    (hle : t ≤ ping.heartbeat.timeout) :
    run env ping x world = run env ping ⟨x.reply, some .zero, none⟩ world := by
  have hending := Exchange.ending_of_reply hx ht hle
  have hsent : ping.message? x payload = ping.message? ⟨x.reply, some .zero, none⟩ payload := by
    rw [message?, if_pos (Exchange.isSent_of_replied hending)]
    rfl
  rw [run_of_prepared hprep, run_of_prepared hprep, Exchange.received?, Exchange.received?,
    hending, ending_at_once, hsent]

/-! ## The race -/

/-- **The race of the caller, the reply and the deadline.** The request of a call has been made
ready. The call is cancelled if and only if the caller gives up first; it then leaves the
heartbeat, the store and the sync requests alone, and is the same call whatever reply it has not
waited for. Otherwise a reply that comes by the deadline decides the call, as if it had come at
once; and without such a reply the call backs off, once, for the deadline. In particular a server
that answers within the heartbeat of the request is never taken for one that has not answered. -/
theorem race (hprep : Prepared env ping world folders request payload) (x : Exchange) :
    let r := run env ping x world
    let deadline := ping.heartbeat.timeout
    (r.result = .ok .cancelled ↔ x.GivesUpFirst deadline) ∧
    (x.GivesUpFirst deadline →
      r.ping = ping ∧ r.world = (env.registry.folders ping.account world).world ∧
        attempts env ping x world = [] ∧
        ∀ x', x'.GivesUpFirst deadline → x'.cancelAfter = x.cancelAfter →
          run env ping x' world = r) ∧
    (¬ x.GivesUpFirst deadline → ∀ t, x.replyAfter = some t → t ≤ deadline →
      r = run env ping ⟨x.reply, some .zero, none⟩ world ∧
        r.result = .ok (ping.conclude folders (receive env.codec x.reply)).outcome) ∧
    (¬ x.GivesUpFirst deadline → (∀ t, x.replyAfter = some t → ¬ t ≤ deadline) →
      BacksOff env ping x world (.timedOut deadline)) ∧
    (∀ body t, x.reply = .ok body → x.replyAfter = some t → t ≤ .ofSecs request.heartbeatSecs →
      ∀ d, r.result ≠ .ok (.operationFailure (.timedOut d))) := by
  intro r deadline
  have hreplied : ¬ x.GivesUpFirst deadline → ∀ t, x.replyAfter = some t → t ≤ deadline →
      r = run env ping ⟨x.reply, some .zero, none⟩ world ∧
        r.result = .ok (ping.conclude folders (receive env.codec x.reply)).outcome := by
    intro hx t ht hle
    have hrun : r = run env ping ⟨x.reply, some .zero, none⟩ world := run_of_reply hprep hx ht hle
    refine ⟨hrun, ?_⟩
    rw [hrun, run_of_prepared hprep, Exchange.received?, ending_at_once]
    exact finish_result ..
  refine ⟨result_eq_cancelled_iff hprep, ?_, hreplied, ?_, ?_⟩
  · intro hx
    have hcancelled : r.result = .ok .cancelled := (result_eq_cancelled_iff hprep).2 hx
    have hadjustment : r.adjustment? = none := by
      rw [Run.adjustment?, hcancelled]
      rfl
    refine ⟨run_ping_early (.inr (.inr hcancelled)), ?_, ?_, ?_⟩
    · exact (run_world_eq env ping x world).trans (congrArg _ hadjustment)
    · rw [attempts_eq, hadjustment]
      rfl
    · intro x' hx' hcancel
      exact run_of_givesUpFirst hprep hx hx' hcancel
  · intro hx hlate
    refine backsOff_of_received hprep ?_
    rw [Exchange.received?, Exchange.ending_of_late hx hlate]
  · intro body t hbody ht hle d
    by_cases hx : x.GivesUpFirst deadline
    · rw [(result_eq_cancelled_iff hprep).2 hx]
      intro h
      cases h
    -- the request names the heartbeat, and the deadline lies behind it
    have hspan : t ≤ ping.heartbeat.span := by
      rw [(request?_eq_some hprep.request_eq).1] at hle
      exact hle
    have hintime : t ≤ deadline :=
      Nat.le_trans hspan (Nat.le_of_lt (Span.lt_iff.1 ping.heartbeat.span_lt_timeout))
    rw [(hreplied hx t ht hintime).2, hbody]
    intro h
    exact receive_outcome_ne_timedOut env.codec body d (Except.ok.inj h)

/-- The caller gives up at the moment of the reply, which is also that of the deadline: the call is
cancelled. Without the caller it has its answer, and without the reply as well it backs off, from
900 seconds to 600; from the bound of 480 seconds it does not go down any further. -/
theorem race_ties :
    let call := Call.answered (.ofStatus .expired)
    let ping : Ping := ⟨⟨7⟩, ⟨.standard, 900⟩⟩
    let lowest : Ping := ⟨⟨7⟩, ⟨.standard, 480⟩⟩
    let deadline := ping.heartbeat.timeout
    let silence : Exchange := ⟨.ok [0], none, none⟩
    (run call.env ping ⟨.ok [0], some deadline, some deadline⟩ (watching none)).result
        = .ok .cancelled ∧
      (run call.env ping ⟨.ok [0], some deadline, none⟩ (watching none)).result
        = .ok (.completed .expired []) ∧
      (BacksOff call.env ping silence (watching none) (.timedOut deadline) ∧
        deadline = .ofSecs 905 ∧ ping.loweredSecs = 600) ∧
      (BacksOff call.env lowest silence (watching none) (.timedOut lowest.heartbeat.timeout) ∧
        lowest.heartbeat.timeout = .ofSecs 485 ∧ lowest.loweredSecs = 480) := by
  intro call ping lowest deadline silence
  have hprep : Prepared call.env ping (watching none) [⟨⟨1⟩, "inbox", .email, true, true⟩] _ _ :=
    ⟨rfl, rfl, rfl⟩
  have hlowest : Prepared call.env lowest (watching none) [⟨⟨1⟩, "inbox", .email, true, true⟩] _ _ :=
    ⟨rfl, rfl, rfl⟩
  have hself : deadline ≤ deadline := Span.le_iff.2 (Nat.le_refl _)
  have hpatient : ∀ d, ¬ silence.GivesUpFirst d := by
    rintro d ⟨c, hc, -⟩
    cases hc
  have hsilent : ∀ d t, silence.replyAfter = some t → ¬ t ≤ d := by
    intro d t ht
    cases ht
  refine ⟨?_, ?_, ⟨?_, by decide, by decide⟩, ?_, by decide, by decide⟩
  · obtain ⟨hcancelled, -⟩ := race hprep ⟨.ok [0], some deadline, some deadline⟩
    exact hcancelled.2 ⟨deadline, rfl, hself, fun t ht => Option.some.inj ht ▸ hself⟩
  · obtain ⟨-, -, hreplied, -⟩ := race hprep ⟨.ok [0], some deadline, none⟩
    exact (hreplied (by rintro ⟨c, hc, -⟩; cases hc) deadline rfl hself).2
  · obtain ⟨-, -, -, hlate, -⟩ := race hprep silence
    exact hlate (hpatient _) (hsilent _)
  · obtain ⟨-, -, -, hlate, -⟩ := race hlowest silence
    exact hlate (hpatient _) (hsilent _)

end Ping

end MailPush
