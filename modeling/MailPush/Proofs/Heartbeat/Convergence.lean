import MailPush.Proofs.Heartbeat.Recurrence

set_option autoImplicit false

/-! # Heartbeats that take the same course

An account that restarts from an older number than its last one has two heartbeats: the one that it
would have kept, and the one with which it restarts. Under the same course the second stays behind
the first, and the distance between them does not grow (`Trails.after`), since neither a saturated
step nor the clamp takes two numbers apart or past each other. They meet as soon as a server names a
heartbeat, or after enough steps in one direction (`stale_restart`). A number that was not stored
costs no more than that.
-/

namespace MailPush.Heartbeat

variable {p : Policy} {h behind ahead : Heartbeat} {gap : Nat}

theorem eq_of_secs_eq (hpolicy : ahead.policy = behind.policy) (hsecs : ahead.secs = behind.secs) :
    ahead = behind := by
  cases ahead
  cases behind
  cases hpolicy
  cases hsecs
  rfl

/-! ## Trailing -/

/-- Of two heartbeats under one policy, the second is ahead of the first, by no more than `gap`. -/
structure Trails (gap : Nat) (behind ahead : Heartbeat) : Prop where
  policy_eq : ahead.policy = behind.policy
  le : behind.secs.toNat ≤ ahead.secs.toNat
  le_gap : ahead.secs.toNat ≤ behind.secs.toNat + gap

/-- Two numbers are clamped in their order, and not apart from each other. -/
theorem clamp_close {m n : UInt64} (hle : m.toNat ≤ n.toNat) (hgap : n.toNat ≤ m.toNat + gap) :
    (p.clamp m).toNat ≤ (p.clamp n).toNat ∧ (p.clamp n).toNat ≤ (p.clamp m).toNat + gap := by
  rw [Policy.toNat_clamp, Policy.toNat_clamp]
  omega

theorem Trails.target (ht : Trails gap behind ahead) (a : Adjustment) :
    (behind.target a).toNat ≤ (ahead.target a).toNat ∧
      (ahead.target a).toNat ≤ (behind.target a).toNat + gap := by
  obtain ⟨hpolicy, hle, hgap⟩ := ht
  cases a with
  | increase =>
      rw [Heartbeat.target, Heartbeat.target, hpolicy, toNat_saturatingAdd, toNat_saturatingAdd]
      omega
  | backOff =>
      rw [Heartbeat.target, Heartbeat.target, hpolicy, toNat_saturatingSub, toNat_saturatingSub]
      omega
  | adopt secs => exact ⟨Nat.le_refl _, Nat.le_add_right _ _⟩

/-- **A step takes two heartbeats neither past each other nor apart.** -/
theorem Trails.step (ht : Trails gap behind ahead) (s : Step) :
    Trails gap (behind.step s) (ahead.step s) := by
  cases s with
  | adjust a =>
      obtain ⟨hle, hgap⟩ := ht.target a
      have hclose := clamp_close (p := behind.policy) hle hgap
      refine ⟨ht.policy_eq, ?_, ?_⟩
      · show (behind.policy.clamp _).toNat ≤ (ahead.policy.clamp _).toNat
        rw [ht.policy_eq]
        exact hclose.1
      · show (ahead.policy.clamp _).toNat ≤ (behind.policy.clamp _).toNat + gap
        rw [ht.policy_eq]
        exact hclose.2
  | keep => exact ht

theorem Trails.after (ht : Trails gap behind ahead) (course : List Step) :
    Trails gap (behind.after course) (ahead.after course) := by
  induction course generalizing behind ahead with
  | nil => exact ht
  | cons s course ih => exact ih (ht.step s)

/-- How far one heartbeat is ahead of another. -/
def distance (behind ahead : Heartbeat) : Nat := ahead.secs.toNat - behind.secs.toNat

theorem Trails.distance_le (ht : Trails gap behind ahead) : distance behind ahead ≤ gap := by
  have := ht.le_gap
  rw [distance]
  omega

theorem trails_distance (hpolicy : ahead.policy = behind.policy) (hle : behind.secs ≤ ahead.secs) :
    Trails (distance behind ahead) behind ahead := by
  rw [UInt64.le_iff_toNat_le] at hle
  refine ⟨hpolicy, hle, ?_⟩
  rw [distance]
  omega

/-! ## Meeting -/

/-- A server that names a heartbeat brings two together. -/
theorem step_adopt_eq (hpolicy : ahead.policy = behind.policy) (secs : UInt64) :
    ahead.step (.adjust (.adopt secs)) = behind.step (.adjust (.adopt secs)) := by
  refine eq_of_secs_eq hpolicy ?_
  show ahead.policy.clamp secs = behind.policy.clamp secs
  rw [hpolicy]

/-- Steps in one direction lead every heartbeat in range to the bound, if together they are as long
as the range. -/
theorem InRange.secs_repeated (hr : h.InRange) {n : Nat}
    (hn : h.policy.maxSecs.toNat - h.policy.minSecs.toNat ≤ n * h.policy.maxStepSecs.toNat) :
    (h.after (repeated n .increase)).secs = h.policy.maxSecs ∧
      (h.after (repeated n .backOff)).secs = h.policy.minSecs := by
  rw [increases_eq_max_iff hr, backOffs_eq_min_iff hr, Nat.mul_comm]
  rw [inRange_iff] at hr
  omega

theorem Reached.after (hh : Reached p h) (course : List Step) : Reached p (h.after course) := by
  obtain ⟨stored, before, rfl⟩ := hh
  exact ⟨stored, before ++ course, (after_append ..).symm⟩

/-- Steps in one direction bring two heartbeats of one policy together, if they are as long as its
range. -/
theorem after_repeated_eq (hbehind : Reached p behind) (hahead : Reached p ahead) {n : Nat}
    (hn : p.maxSecs.toNat - p.minSecs.toNat ≤ n * p.maxStepSecs.toNat) {a : Adjustment}
    (ha : a = .increase ∨ a = .backOff) :
    ahead.after (repeated n a) = behind.after (repeated n a) := by
  have hpolicy : (ahead.after (repeated n a)).policy = (behind.after (repeated n a)).policy := by
    rw [(hahead.after _).policy_eq, (hbehind.after _).policy_eq]
  refine eq_of_secs_eq hpolicy ?_
  by_cases hp : p.minSecs ≤ p.maxSecs
  · have hends : ∀ h : Heartbeat, Reached p h →
        (h.after (repeated n .increase)).secs = p.maxSecs ∧
          (h.after (repeated n .backOff)).secs = p.minSecs := by
      rintro h hh
      obtain rfl := hh.policy_eq
      exact (hh.inRange hp).secs_repeated hn
    rcases ha with rfl | rfl
    · rw [(hends ahead hahead).1, (hends behind hbehind).1]
    · rw [(hends ahead hahead).2, (hends behind hbehind).2]
  · -- with inverted bounds the two have met before
    have hinverted : p.maxSecs < p.minSecs := UInt64.not_le.1 hp
    rw [(hahead.after _).secs_of_inverted hinverted, (hbehind.after _).secs_of_inverted hinverted]

/-! ## The law -/

/-- **A stale restart catches up.** Of two heartbeats of one policy, whatever it is, let the first
be no higher than the second, and let both take the same course. Then the first is never the higher
one, and the distance never grows. They are the same from the moment a server names a heartbeat, and
from the moment at which as many steps in one direction have been taken as are as long as the
range. -/
theorem stale_restart (hbehind : Reached p behind) (hahead : Reached p ahead)
    (hle : behind.secs ≤ ahead.secs) (course : List Step) :
    (behind.after course).secs ≤ (ahead.after course).secs ∧
    (∀ more, distance (behind.after (course ++ more)) (ahead.after (course ++ more))
      ≤ distance (behind.after course) (ahead.after course)) ∧
    (∀ secs more, ahead.after (course ++ .adjust (.adopt secs) :: more)
      = behind.after (course ++ .adjust (.adopt secs) :: more)) ∧
    ∀ n a, p.maxSecs.toNat - p.minSecs.toNat ≤ n * p.maxStepSecs.toNat →
      a = .increase ∨ a = .backOff →
      ∀ more, ahead.after (course ++ repeated n a ++ more)
        = behind.after (course ++ repeated n a ++ more) := by
  have hpolicy : ahead.policy = behind.policy := hahead.policy_eq.trans hbehind.policy_eq.symm
  have hpolicy' : (ahead.after course).policy = (behind.after course).policy := by
    rw [after_policy, after_policy, hpolicy]
  have hafter : (behind.after course).secs ≤ (ahead.after course).secs :=
    UInt64.le_iff_toNat_le.2 ((trails_distance hpolicy hle).after course).le
  refine ⟨hafter, fun more => ?_, fun secs more => ?_, fun n a hn ha more => ?_⟩
  · rw [after_append, after_append]
    exact ((trails_distance hpolicy' hafter).after more).distance_le
  · rw [after_append, after_append, after_cons, after_cons, step_adopt_eq hpolicy']
  · rw [after_append, after_append, after_append, after_append,
      after_repeated_eq (hbehind.after course) (hahead.after course) hn ha]

/-- An operation stands at 1500 seconds, and its account restarts from 600. A growth is cut off by
the bound for the first alone; a heartbeat that the server names, and four growths, bring the two
together. -/
theorem stale_restart_catches_up :
    let live := restore .standard (some 1500)
    let stale := restore .standard (some 600)
    distance stale live = 900 ∧
      (stale.after [.adjust .backOff]).secs ≤ (live.after [.adjust .backOff]).secs ∧
      distance (stale.after [.adjust .increase]) (live.after [.adjust .increase])
        ≤ distance stale live ∧
      live.after [.adjust (.adopt 30), .keep] = stale.after [.adjust (.adopt 30), .keep] ∧
      live.after (repeated 4 .increase ++ [.adjust .backOff])
        = stale.after (repeated 4 .increase ++ [.adjust .backOff]) := by
  intro live stale
  have hlive : Reached .standard live := ⟨some 1500, [], rfl⟩
  have hstale : Reached .standard stale := ⟨some 600, [], rfl⟩
  have hle : stale.secs ≤ live.secs := by decide
  obtain ⟨-, hgap, hadopt, hmeet⟩ := stale_restart hstale hlive hle []
  obtain ⟨hbelow, -⟩ := stale_restart hstale hlive hle [.adjust .backOff]
  refine ⟨by decide, hbelow, hgap [.adjust .increase], hadopt 30 [.keep], ?_⟩
  exact hmeet 4 .increase (by decide) (.inl rfl) [.adjust .backOff]

end MailPush.Heartbeat
