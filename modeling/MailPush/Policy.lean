import MailPush.Time.Span

set_option autoImplicit false

/-! # Heartbeat policies

The bounds of the heartbeat, the largest step by which one answer may move it, the heartbeat
of an account that has none yet, and the slack that a client waits beyond it. A policy may be
inconsistent; `Policy.problem` finds the first rule it breaks. Clamping (`Policy.clamp`) is
defined for every policy, and yields the upper bound when the bounds are inverted.
-/

namespace MailPush

/-- The bounds and the step of the heartbeat, in seconds. -/
structure Policy where
  /-- The heartbeat of an account that has none yet. -/
  defaultSecs : UInt64
  minSecs : UInt64
  maxSecs : UInt64
  /-- The largest change made by one adjustment. -/
  maxStepSecs : UInt64
  /-- How much longer than the heartbeat the client waits. -/
  requestSlackSecs : UInt64
deriving DecidableEq

namespace Policy

/-- From 8 minutes, where an account starts, to 28 minutes, by steps of 5 minutes, with a slack
of 5 seconds. -/
def standard : Policy := ⟨480, 480, 1680, 300, 5⟩

instance : Inhabited Policy := ⟨standard⟩

/-- The nearest heartbeat within the bounds; the upper bound counts first. -/
def clamp (policy : Policy) (secs : UInt64) : UInt64 :=
  min (max secs policy.minSecs) policy.maxSecs

/-- The slack as a span. -/
def slack (policy : Policy) : Span := .ofSecs policy.requestSlackSecs

/-- A rule that a policy breaks. -/
inductive Problem where
  | minZero
  | boundsInverted (minSecs maxSecs : UInt64)
  | defaultOutside (defaultSecs minSecs maxSecs : UInt64)
  | stepZero
  | slackZero
deriving DecidableEq

/-- The text of a problem. -/
def Problem.message : Problem → String
  | minZero => "heartbeat min_secs must be positive"
  | boundsInverted lo hi =>
    "heartbeat min_secs (" ++ toString lo.toNat ++ ") exceeds max_secs (" ++ toString hi.toNat ++
      ")"
  | defaultOutside d lo hi =>
    "heartbeat default_secs (" ++ toString d.toNat ++ ") outside [" ++ toString lo.toNat ++ ", " ++
      toString hi.toNat ++ "]"
  | stepZero => "heartbeat max_step_secs must be positive"
  | slackZero => "request_slack_secs must be positive"

/-- The first rule that a policy breaks, if any: the lower bound is positive, the bounds are in
order, the default lies within them, the step is positive, the slack is positive. -/
def problem (policy : Policy) : Option Problem :=
  if policy.minSecs = 0 then some .minZero
  else if policy.minSecs > policy.maxSecs then
    some (.boundsInverted policy.minSecs policy.maxSecs)
  else if policy.defaultSecs < policy.minSecs ∨ policy.defaultSecs > policy.maxSecs then
    some (.defaultOutside policy.defaultSecs policy.minSecs policy.maxSecs)
  else if policy.maxStepSecs = 0 then some .stepZero
  else if policy.requestSlackSecs = 0 then some .slackZero
  else none

/-- The rules that a consistent policy keeps. -/
structure Valid (policy : Policy) : Prop where
  min_pos : 0 < policy.minSecs
  min_le_default : policy.minSecs ≤ policy.defaultSecs
  default_le_max : policy.defaultSecs ≤ policy.maxSecs
  step_pos : 0 < policy.maxStepSecs
  slack_pos : 0 < policy.requestSlackSecs

theorem problem_eq_none_iff {policy : Policy} : policy.problem = none ↔ policy.Valid := by
  have pos : ∀ n : UInt64, 0 < n ↔ n ≠ 0 := fun n => by
    rw [UInt64.lt_iff_toNat_lt, Ne, ← UInt64.toNat_inj]
    simp only [UInt64.toNat_zero]
    omega
  constructor
  · intro h
    simp only [problem] at h
    repeat' split at h
    all_goals simp_all only [UInt64.not_lt, not_or, reduceCtorEq, gt_iff_lt]
    constructor <;> simp_all
  · rintro ⟨h1, h2, h3, h4, h5⟩
    have h6 := UInt64.le_trans h2 h3
    simp_all [problem, ← UInt64.not_le]

end Policy

end MailPush
