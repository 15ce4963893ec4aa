import MailPush.Policy

set_option autoImplicit false

/-! # The adaptive heartbeat

The heartbeat of an account is how long its server is asked to hold a ping before it answers
that nothing changed. A ping that expires in this way shows that the path sustains the wait,
and the heartbeat grows by one step; a failure takes it back by one step; a heartbeat named by
the server is adopted at once. Every result is clamped by the policy.
-/

namespace MailPush

/-- The sum of two words, or the largest word if the sum exceeds it. -/
def saturatingAdd (a b : UInt64) : UInt64 :=
  UInt64.ofNat (min (a.toNat + b.toNat) 18446744073709551615)

/-- The difference of two words, or zero if it is negative. -/
def saturatingSub (a b : UInt64) : UInt64 := UInt64.ofNat (a.toNat - b.toNat)

theorem toNat_saturatingAdd (a b : UInt64) :
    (saturatingAdd a b).toNat = min (a.toNat + b.toNat) 18446744073709551615 := by
  simp only [saturatingAdd, UInt64.toNat_ofNat']
  omega

theorem toNat_saturatingSub (a b : UInt64) : (saturatingSub a b).toNat = a.toNat - b.toNat := by
  have := a.toNat_lt
  simp only [saturatingSub, UInt64.toNat_ofNat']
  omega

/-- The heartbeat of one account, in seconds, and the policy that governs it. -/
structure Heartbeat where
  policy : Policy
  secs : UInt64
deriving DecidableEq

/-- What may happen to a heartbeat. -/
inductive Adjustment where
  /-- A ping expired without changes. -/
  | increase
  /-- A ping failed. -/
  | backOff
  /-- The server named a heartbeat. -/
  | adopt (serverSecs : UInt64)
deriving DecidableEq

/-- The heartbeat before and after an adjustment, in seconds. -/
structure HeartbeatChange where
  previous : UInt64
  current : UInt64
deriving DecidableEq

/-- Whether an adjustment made a difference. -/
def HeartbeatChange.isChanged (change : HeartbeatChange) : Bool :=
  change.previous != change.current

namespace Heartbeat

/-- The heartbeat with which an account starts: the stored one, clamped. An account without a
stored heartbeat, or with zero, starts at the default of the policy. -/
def restore (policy : Policy) : Option UInt64 → Heartbeat
  | none => ⟨policy, policy.clamp policy.defaultSecs⟩
  | some secs => ⟨policy, policy.clamp (if secs = 0 then policy.defaultSecs else secs)⟩

/-- The number of seconds that an adjustment aims at, before it is clamped. -/
def target (h : Heartbeat) : Adjustment → UInt64
  | .increase => saturatingAdd h.secs h.policy.maxStepSecs
  | .backOff => saturatingSub h.secs h.policy.maxStepSecs
  | .adopt serverSecs => serverSecs

/-- The heartbeat after an adjustment. -/
def adjust (h : Heartbeat) (a : Adjustment) : Heartbeat :=
  { h with secs := h.policy.clamp (h.target a) }

/-- What an adjustment changes. -/
def change (h : Heartbeat) (a : Adjustment) : HeartbeatChange := ⟨h.secs, (h.adjust a).secs⟩

/-- The heartbeat as a span. -/
def span (h : Heartbeat) : Span := .ofSecs h.secs

/-- How long a client waits for the answer to a ping: longer than the heartbeat by the slack of
the policy, and by at least one second. -/
def timeout (h : Heartbeat) : Span := h.span + max h.policy.slack (.ofSecs 1)

end Heartbeat

end MailPush
