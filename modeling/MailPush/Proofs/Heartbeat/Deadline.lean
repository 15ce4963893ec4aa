import MailPush.Proofs.Heartbeat.Recurrence

set_option autoImplicit false

/-! # The deadline of a request

A client waits for an answer longer than the server was asked to hold the request
(`Heartbeat.span_lt_timeout`), also where the sum of the two would exceed the longest span: this
one ends with a fraction of a second, and the span of a heartbeat has none. Reckoned in natural
numbers, which have no end, the seconds of a deadline are a sum (`Heartbeat.deadlineSecs`). The
deadline is this sum, or the longest span if no word holds it, and both grow with the heartbeat
(`Heartbeat.deadline_of_course`).
-/

namespace MailPush

namespace Span

theorem toNanos_max (s t : Span) : (max s t).toNanos = max s.toNanos t.toNanos := by
  show (if s ≤ t then t else s).toNanos = _
  by_cases h : s ≤ t
  · rw [if_pos h, Nat.max_eq_right (le_iff.1 h)]
  · rw [if_neg h]
    rw [le_iff] at h
    omega

/-- A whole number of seconds is shorter than the longest span. -/
theorem toNanos_ofSecs_lt_longest (n : UInt64) : (ofSecs n).toNanos < longest.toNanos := by
  have := n.toNat_lt
  rw [toNanos_ofSecs, toNanos_longest, nanosPerSec]
  omega

/-- A number of seconds fits into the longest span if and only if a word holds it. -/
theorem mul_nanosPerSec_le_longest_iff (n : Nat) :
    n * nanosPerSec ≤ longest.toNanos ↔ n < 2 ^ 64 := by
  rw [toNanos_longest, nanosPerSec]
  omega

end Span

namespace Heartbeat

variable {behind ahead : Heartbeat}

/-- The seconds of a deadline, reckoned in natural numbers: those of the heartbeat and those of the
slack, of which there is at least one. -/
def deadlineSecs (h : Heartbeat) : Nat := h.secs.toNat + max h.policy.requestSlackSecs.toNat 1

theorem secs_lt_deadlineSecs (h : Heartbeat) : h.secs.toNat < h.deadlineSecs := by
  rw [deadlineSecs]
  omega

theorem deadlineSecs_le (hpolicy : behind.policy = ahead.policy) (hle : behind.secs ≤ ahead.secs) :
    behind.deadlineSecs ≤ ahead.deadlineSecs := by
  rw [UInt64.le_iff_toNat_le] at hle
  rw [deadlineSecs, deadlineSecs, hpolicy]
  omega

/-! ## The span of a deadline -/

theorem toNanos_span (h : Heartbeat) : h.span.toNanos = h.secs.toNat * Span.nanosPerSec :=
  Span.toNanos_ofSecs h.secs

/-- A deadline has its seconds, cut off by the longest span. -/
theorem toNanos_timeout (h : Heartbeat) :
    h.timeout.toNanos = min (h.deadlineSecs * Span.nanosPerSec) Span.longest.toNanos := by
  have hslack : (max h.policy.slack (.ofSecs 1)).toNanos
      = max h.policy.requestSlackSecs.toNat 1 * Span.nanosPerSec := by
    rw [Span.toNanos_max, Policy.slack, Span.toNanos_ofSecs, Span.toNanos_ofSecs, UInt64.toNat_one,
      Nat.mul_max_mul_right]
  calc h.timeout.toNanos
      = min (h.span.toNanos + (max h.policy.slack (.ofSecs 1)).toNanos) Span.longest.toNanos :=
        Span.toNanos_add ..
    _ = min (h.secs.toNat * Span.nanosPerSec
          + max h.policy.requestSlackSecs.toNat 1 * Span.nanosPerSec) Span.longest.toNanos := by
        rw [toNanos_span, hslack]
    _ = min (h.deadlineSecs * Span.nanosPerSec) Span.longest.toNanos := by
        rw [deadlineSecs, Nat.add_mul]

/-- **The deadline is later than the heartbeat.** -/
theorem span_lt_timeout (h : Heartbeat) : h.span < h.timeout := by
  have hsecond : 0 < Span.nanosPerSec := by decide
  have hsum : h.span.toNanos < h.deadlineSecs * Span.nanosPerSec := by
    rw [toNanos_span]
    exact Nat.mul_lt_mul_of_pos_right h.secs_lt_deadlineSecs hsecond
  -- where the sum is cut off, the fraction of a second in the longest span makes it later
  have hlongest : h.span.toNanos < Span.longest.toNanos := Span.toNanos_ofSecs_lt_longest h.secs
  rw [Span.lt_iff, toNanos_timeout]
  exact Nat.lt_min.2 ⟨hsum, hlongest⟩

/-- Under one policy a longer heartbeat has no earlier deadline. -/
theorem timeout_le_timeout (hpolicy : behind.policy = ahead.policy)
    (hle : behind.secs ≤ ahead.secs) : behind.timeout ≤ ahead.timeout := by
  have hnanos := Nat.mul_le_mul_right Span.nanosPerSec (deadlineSecs_le hpolicy hle)
  rw [Span.le_iff, toNanos_timeout, toNanos_timeout]
  omega

theorem timeout_eq_ofSecs {h : Heartbeat} (hword : h.deadlineSecs < 2 ^ 64) :
    h.timeout = .ofSecs (.ofNat h.deadlineSecs) := by
  have hfits := (Span.mul_nanosPerSec_le_longest_iff _).2 hword
  rw [← Span.toNanos_inj, toNanos_timeout, Nat.min_eq_left hfits, Span.toNanos_ofSecs,
    UInt64.toNat_ofNat', Nat.mod_eq_of_lt hword]

theorem timeout_eq_longest {h : Heartbeat} (hword : 2 ^ 64 ≤ h.deadlineSecs) :
    h.timeout = .longest := by
  have hexceeds := mt (Span.mul_nanosPerSec_le_longest_iff _).1 (Nat.not_lt.2 hword)
  rw [← Span.toNanos_inj, toNanos_timeout, Nat.min_eq_right (Nat.le_of_not_le hexceeds)]

/-! ## The law -/

/-- **The deadline of a heartbeat.** Let a heartbeat have been restored with any policy, consistent
or not, from any stored number, and have taken any course.

* The deadline is later than the heartbeat.
* It has as many whole seconds as the heartbeat and the slack of the policy together, where the
  slack counts as one second at least, if a word holds their number. If none does, it is the longest
  span.
* Of two heartbeats under the policy, reached or not, the longer has no earlier deadline. -/
theorem deadline_of_course (p : Policy) (stored : Option UInt64) (course : List Step) :
    let h := (restore p stored).after course
    let secs := h.secs.toNat + max p.requestSlackSecs.toNat 1
    h.span < h.timeout ∧
    (secs < 2 ^ 64 → h.timeout.secs.toNat = secs ∧ h.timeout.nanos = 0) ∧
    (2 ^ 64 ≤ secs → h.timeout = .longest) ∧
    ∀ behind ahead : Heartbeat, behind.policy = p → ahead.policy = p → behind.secs ≤ ahead.secs →
      behind.timeout ≤ ahead.timeout := by
  intro h secs
  have hreached : Reached p h := ⟨stored, course, rfl⟩
  have hsecs : h.deadlineSecs = secs := by rw [deadlineSecs, hreached.policy_eq]
  refine ⟨h.span_lt_timeout, fun hword => ?_, fun hword => ?_, ?_⟩
  · rw [← hsecs] at hword ⊢
    rw [timeout_eq_ofSecs hword]
    exact ⟨UInt64.toNat_ofNat_of_lt' hword, rfl⟩
  · rw [← hsecs] at hword
    exact timeout_eq_longest hword
  · intro behind ahead hbehind hahead hle
    exact timeout_le_timeout (hbehind.trans hahead.symm) hle

/-- Without slack, a heartbeat that has grown to the largest word has the longest deadline, which is
later by less than a second; a step down, the deadline is later by a whole one. With the largest
slack a heartbeat of one second has the longest deadline already. -/
theorem deadline_of_course_saturated :
    let largest : UInt64 := 18446744073709551615
    let top := (restore wide (some largest)).after [.keep, .adjust .increase]
    let lower := (restore wide (some largest)).after [.adjust .backOff]
    let slack : Policy := { wide with requestSlackSecs := largest }
    let first := (restore slack (some 1)).after [.keep]
    (top.secs = largest ∧ top.span < top.timeout ∧ top.timeout = .longest) ∧
      (lower.timeout.secs.toNat = lower.secs.toNat + 1 ∧ lower.timeout.nanos = 0) ∧
      lower.timeout ≤ top.timeout ∧
      first.secs = 1 ∧ first.timeout = .longest := by
  intro largest top lower slack first
  obtain ⟨hlater, -, hlongest, hmono⟩ :=
    deadline_of_course wide (some largest) [.keep, .adjust .increase]
  obtain ⟨-, hwhole, -⟩ := deadline_of_course wide (some largest) [.adjust .backOff]
  obtain ⟨-, -, hfirst, -⟩ := deadline_of_course slack (some 1) [.keep]
  refine ⟨⟨by decide, hlater, hlongest (by decide)⟩, hwhole (by decide), ?_, by decide, ?_⟩
  · exact hmono lower top (by decide) (by decide) (by decide)
  · exact hfirst (by decide)

end Heartbeat

end MailPush
