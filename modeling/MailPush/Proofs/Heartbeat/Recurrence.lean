import MailPush.Proofs.Heartbeat.Range
import Mathlib.Algebra.Order.Floor.Div

set_option autoImplicit false

/-! # The recurrence of a heartbeat

The seconds of a heartbeat are a word, and the steps up and down saturate at the ends of its range.
Reckoned in integers, which have no ends, a heartbeat follows a recurrence (`Heartbeat.recurrence`).
The two agree over every course of adjustments (`recurrence_of_course`): a heartbeat in range stays
in range, and there a saturated step is cut off by the clamp. From the recurrence follows how far
several steps in one direction lead, and when they reach the bound.

With inverted bounds no heartbeat is in range, and all of them are at the upper bound.
-/

namespace MailPush.Heartbeat

/-! ## Courses -/

/-- What the end of a ping does to a heartbeat. -/
inductive Step where
  | adjust (adjustment : Adjustment)
  /-- The ping has ended in a way that says nothing of the heartbeat. -/
  | keep
deriving DecidableEq

/-- The heartbeat after a step. -/
def step (h : Heartbeat) : Step → Heartbeat
  | .adjust a => h.adjust a
  | .keep => h

/-- The heartbeat after a course of steps. -/
def after (h : Heartbeat) (course : List Step) : Heartbeat := course.foldl step h

/-- The course of `n` steps of one kind. -/
def repeated (n : Nat) (a : Adjustment) : List Step := List.replicate n (.adjust a)

/-- A heartbeat of an account: it has been restored with a policy, and has taken a course since. -/
def Reached (p : Policy) (h : Heartbeat) : Prop :=
  ∃ stored course, h = (restore p stored).after course

section Course

variable (h : Heartbeat) (s : Step) (course more : List Step)

@[simp] theorem after_cons : h.after (s :: course) = (h.step s).after course := rfl

theorem after_append : h.after (course ++ more) = (h.after course).after more :=
  List.foldl_append

@[simp] theorem step_policy : (h.step s).policy = h.policy := by
  cases s <;> rfl

@[simp] theorem after_policy : (h.after course).policy = h.policy := by
  induction course generalizing h with
  | nil => rfl
  | cons s course ih => rw [after_cons, ih, step_policy]

end Course

theorem repeated_succ (n : Nat) (a : Adjustment) :
    repeated (n + 1) a = repeated n a ++ [.adjust a] := List.replicate_succ'

/-! ## Bounds in order -/

variable {p : Policy} {h : Heartbeat}

theorem InRange.step (hr : h.InRange) (s : Step) : (h.step s).InRange := by
  cases s with
  | adjust a => exact inRange_adjust (UInt64.le_trans hr.1 hr.2) a
  | keep => exact hr

theorem InRange.after (hr : h.InRange) (course : List Step) : (h.after course).InRange := by
  induction course generalizing h with
  | nil => exact hr
  | cons s course ih => exact ih (hr.step s)

theorem Reached.policy_eq (hh : Reached p h) : h.policy = p := by
  obtain ⟨stored, course, rfl⟩ := hh
  rw [after_policy, restore_policy]

theorem Reached.inRange (hp : p.minSecs ≤ p.maxSecs) (hh : Reached p h) : h.InRange := by
  obtain ⟨stored, course, rfl⟩ := hh
  exact (inRange_restore hp stored).after course

/-! ## Bounds inverted -/

theorem clamp_of_inverted (hp : p.maxSecs < p.minSecs) (n : UInt64) : p.clamp n = p.maxSecs := by
  rw [UInt64.lt_iff_toNat_lt] at hp
  rw [← UInt64.toNat_inj, Policy.toNat_clamp]
  omega

theorem restore_of_inverted (hp : p.maxSecs < p.minSecs) (stored : Option UInt64) :
    (restore p stored).secs = p.maxSecs := by
  cases stored with
  | none => exact clamp_of_inverted hp _
  | some n => exact clamp_of_inverted hp _

theorem secs_step_of_inverted (hp : h.policy.maxSecs < h.policy.minSecs)
    (hs : h.secs = h.policy.maxSecs) (s : Step) : (h.step s).secs = h.policy.maxSecs := by
  cases s with
  | adjust a => exact clamp_of_inverted hp _
  | keep => exact hs

theorem secs_after_of_inverted (hp : h.policy.maxSecs < h.policy.minSecs)
    (hs : h.secs = h.policy.maxSecs) (course : List Step) :
    (h.after course).secs = h.policy.maxSecs := by
  induction course generalizing h with
  | nil => exact hs
  | cons s course ih =>
      have hpolicy : (h.step s).policy = h.policy := step_policy h s
      have hsecs : (h.step s).secs = (h.step s).policy.maxSecs := by
        rw [hpolicy, secs_step_of_inverted hp hs]
      rw [after_cons, ih (hpolicy ▸ hp) hsecs, hpolicy]

/-- With inverted bounds a heartbeat is at the upper one, and stays there. -/
theorem Reached.secs_of_inverted (hp : p.maxSecs < p.minSecs) (hh : Reached p h) :
    h.secs = p.maxSecs := by
  obtain ⟨stored, course, rfl⟩ := hh
  have hpolicy : (restore p stored).policy = p := restore_policy p stored
  rw [secs_after_of_inverted (hpolicy.symm ▸ hp) (by rw [hpolicy, restore_of_inverted hp]), hpolicy]

/-! ## The recurrence -/

/-- The nearest integer within the bounds of a policy. -/
def within (p : Policy) (c : Int) : Int := min p.maxSecs.toNat (max p.minSecs.toNat c)

/-- The seconds of a heartbeat after a step, reckoned in integers. -/
def recurrence (p : Policy) (c : Int) : Step → Int
  | .adjust .increase => min p.maxSecs.toNat (c + p.maxStepSecs.toNat)
  | .adjust .backOff => max p.minSecs.toNat (c - p.maxStepSecs.toNat)
  | .adjust (.adopt secs) => within p secs.toNat
  | .keep => c

/-- The seconds with which a heartbeat is restored, reckoned in integers. -/
def initially (p : Policy) : Option UInt64 → Int
  | none => within p p.defaultSecs.toNat
  | some secs => within p (if secs = 0 then p.defaultSecs else secs).toNat

theorem toNat_clamp_eq_within (p : Policy) (n : UInt64) :
    ((p.clamp n).toNat : Int) = within p n.toNat := by
  rw [Policy.toNat_clamp, within]
  omega

theorem toNat_restore (p : Policy) (stored : Option UInt64) :
    ((restore p stored).secs.toNat : Int) = initially p stored := by
  cases stored with
  | none => exact toNat_clamp_eq_within p _
  | some n => exact toNat_clamp_eq_within p _

/-- A step of a heartbeat in range is a step of the recurrence. -/
theorem toNat_step (hr : h.InRange) (s : Step) :
    ((h.step s).secs.toNat : Int) = recurrence h.policy h.secs.toNat s := by
  rcases s with (_ | _ | secs) | _
  · show ((h.adjust .increase).secs.toNat : Int) = _
    rw [toNat_increase hr, recurrence]
    omega
  · show ((h.adjust .backOff).secs.toNat : Int) = _
    rw [toNat_backOff hr, recurrence]
    omega
  · exact toNat_clamp_eq_within h.policy secs
  · rfl

/-- **A course of a heartbeat in range is a course of the recurrence.** -/
theorem toNat_after (hr : h.InRange) (course : List Step) :
    ((h.after course).secs.toNat : Int) = course.foldl (recurrence h.policy) h.secs.toNat := by
  induction course generalizing h with
  | nil => rfl
  | cons s course ih =>
      rw [after_cons, ih (hr.step s), step_policy, toNat_step hr, List.foldl_cons]

/-! ## Steps in one direction -/

theorem foldl_increase {c : Int} (hc : c ≤ p.maxSecs.toNat) (n : Nat) :
    (repeated n .increase).foldl (recurrence p) c
      = min (p.maxSecs.toNat : Int) (c + n * p.maxStepSecs.toNat) := by
  induction n with
  | zero =>
      show c = _
      rw [Nat.cast_zero, Int.zero_mul]
      omega
  | succ n ih =>
      rw [repeated_succ, List.foldl_append, ih]
      show min (p.maxSecs.toNat : Int) _ = _
      rw [Nat.cast_succ, Int.add_mul, Int.one_mul]
      omega

theorem foldl_backOff {c : Int} (hc : p.minSecs.toNat ≤ c) (n : Nat) :
    (repeated n .backOff).foldl (recurrence p) c
      = max (p.minSecs.toNat : Int) (c - n * p.maxStepSecs.toNat) := by
  induction n with
  | zero =>
      show c = _
      rw [Nat.cast_zero, Int.zero_mul]
      omega
  | succ n ih =>
      rw [repeated_succ, List.foldl_append, ih]
      show max (p.minSecs.toNat : Int) _ = _
      rw [Nat.cast_succ, Int.add_mul, Int.one_mul]
      omega

theorem toNat_increases (hr : h.InRange) (n : Nat) :
    ((h.after (repeated n .increase)).secs.toNat : Int)
      = min (h.policy.maxSecs.toNat : Int) (h.secs.toNat + n * h.policy.maxStepSecs.toNat) := by
  have hle := (inRange_iff.1 hr).2
  rw [toNat_after hr, foldl_increase (Int.ofNat_le.2 hle)]

theorem toNat_backOffs (hr : h.InRange) (n : Nat) :
    ((h.after (repeated n .backOff)).secs.toNat : Int)
      = max (h.policy.minSecs.toNat : Int) (h.secs.toNat - n * h.policy.maxStepSecs.toNat) := by
  have hle := (inRange_iff.1 hr).1
  rw [toNat_after hr, foldl_backOff (Int.ofNat_le.2 hle)]

/-- Steps up lead to the upper bound when together they cover the distance to it. -/
theorem increases_eq_max_iff (hr : h.InRange) (n : Nat) :
    (h.after (repeated n .increase)).secs = h.policy.maxSecs ↔
      h.policy.maxSecs.toNat - h.secs.toNat ≤ h.policy.maxStepSecs.toNat * n := by
  have hsecs := toNat_increases hr n
  rw [inRange_iff] at hr
  rw [← UInt64.toNat_inj, Nat.mul_comm]
  rw [← Nat.cast_mul] at hsecs
  omega

/-- Steps down lead to the lower bound when together they cover the distance to it. -/
theorem backOffs_eq_min_iff (hr : h.InRange) (n : Nat) :
    (h.after (repeated n .backOff)).secs = h.policy.minSecs ↔
      h.secs.toNat - h.policy.minSecs.toNat ≤ h.policy.maxStepSecs.toNat * n := by
  have hsecs := toNat_backOffs hr n
  rw [inRange_iff] at hr
  rw [← UInt64.toNat_inj, Nat.mul_comm]
  rw [← Nat.cast_mul] at hsecs
  omega

/-! ## The law -/

/-- **A heartbeat follows the recurrence.** Let a heartbeat have been restored with any policy, from
any stored number, and have taken any course. If the bounds of the policy are in order:

* it is where the recurrence over the integers is, and so is the report of every adjustment, before
  and after;
* `n` steps up lead `n` steps up, or to the upper bound; `n` steps down lead `n` steps down, or to
  the lower bound;
* a bound is reached after as many steps as cover the distance, rounded up, and is not left by more.

If the bounds are inverted, it is at the upper one. -/
theorem recurrence_of_course (p : Policy) (stored : Option UInt64) (course : List Step) :
    let h := (restore p stored).after course
    let c := course.foldl (recurrence p) (initially p stored)
    let step := p.maxStepSecs.toNat
    (p.minSecs ≤ p.maxSecs →
      h.secs.toNat = c ∧
      (∀ a, (h.change a).previous.toNat = c ∧
        (h.change a).current.toNat = recurrence p c (.adjust a)) ∧
      (∀ n : Nat,
        (h.after (repeated n .increase)).secs.toNat = min (p.maxSecs.toNat : Int) (c + n * step) ∧
        (h.after (repeated n .backOff)).secs.toNat = max (p.minSecs.toNat : Int) (c - n * step)) ∧
      (0 < p.maxStepSecs → ∀ n : Nat,
        ((h.after (repeated n .increase)).secs = p.maxSecs ↔
          (p.maxSecs.toNat - h.secs.toNat) ⌈/⌉ step ≤ n) ∧
        ((h.after (repeated n .backOff)).secs = p.minSecs ↔
          (h.secs.toNat - p.minSecs.toNat) ⌈/⌉ step ≤ n))) ∧
    (p.maxSecs < p.minSecs → h.secs = p.maxSecs) := by
  intro h c step
  have hreached : Reached p h := ⟨stored, course, rfl⟩
  have hpolicy : h.policy = p := hreached.policy_eq
  refine ⟨fun hp => ?_, fun hp => hreached.secs_of_inverted hp⟩
  have hr : h.InRange := hreached.inRange hp
  have hsecs : (h.secs.toNat : Int) = c := by
    have hcourse := toNat_after (inRange_restore hp stored) course
    rwa [restore_policy, toNat_restore] at hcourse
  refine ⟨hsecs, fun a => ⟨hsecs, ?_⟩, fun n => ⟨?_, ?_⟩, fun hstep n => ?_⟩
  · rw [← hsecs, ← hpolicy]
    exact toNat_step hr (.adjust a)
  · rw [← hsecs, toNat_increases hr, hpolicy]
  · rw [← hsecs, toNat_backOffs hr, hpolicy]
  · have hpos : 0 < step := UInt64.lt_iff_toNat_lt.1 hstep
    have hup := increases_eq_max_iff hr n
    have hdown := backOffs_eq_min_iff hr n
    rw [hpolicy] at hup hdown
    exact ⟨hup.trans (ceilDiv_le_iff_le_mul hpos).symm,
      hdown.trans (ceilDiv_le_iff_le_mul hpos).symm⟩

/-- A policy whose steps leave the range of words, and whose default is out of bounds. -/
def wide : Policy := ⟨0, 1, 18446744073709551615, 9223372036854775808, 0⟩

/-- A heartbeat that starts at the lower bound of this policy. The second step up, and a step down
after a server has named zero, would lead out of the range of words. With the bounds exchanged there
is nothing but the upper one. -/
theorem recurrence_of_course_wide :
    let h := (restore wide none).after [.keep, .adjust (.adopt 0)]
    let inverted : Policy := { wide with minSecs := wide.maxSecs, maxSecs := wide.minSecs }
    ((h.after (repeated 2 .increase)).secs.toNat
        = min (18446744073709551615 : Int) (1 + 2 * 9223372036854775808) ∧
      (h.after (repeated 1 .backOff)).secs.toNat = max (1 : Int) (1 - 1 * 9223372036854775808) ∧
      (h.after (repeated 1 .increase)).secs ≠ wide.maxSecs ∧
      (h.after (repeated 2 .increase)).secs = wide.maxSecs) ∧
    ((restore inverted (some 7)).after [.adjust .increase]).secs = 1 := by
  intro h inverted
  obtain ⟨hordered, -⟩ := recurrence_of_course wide none [.keep, .adjust (.adopt 0)]
  obtain ⟨-, -, hsteps, hreach⟩ := hordered (by decide)
  obtain ⟨-, hinverted⟩ := recurrence_of_course inverted (some 7) [.adjust .increase]
  refine ⟨⟨(hsteps 2).1, (hsteps 1).2, ?_, ?_⟩, hinverted (by decide)⟩
  · exact mt (hreach (by decide) 1).1.1 (by decide)
  · exact (hreach (by decide) 2).1.2 (by decide)

end MailPush.Heartbeat
