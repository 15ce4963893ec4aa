import MailPush.Heartbeat

set_option autoImplicit false

/-! # The range of a heartbeat

A heartbeat is in range when it lies within the bounds of its policy (`Heartbeat.InRange`).
Restoring and adjusting a heartbeat put it in range as soon as the bounds are in order. On a
heartbeat in range, the two steps are the steps of the natural numbers, cut off at the bounds
(`toNat_increase`, `toNat_backOff`): neither the largest word nor zero shows in them, because
no bound lies beyond these.
-/

namespace MailPush

/-! ## Clamping -/

namespace Policy

theorem toNat_max (a b : UInt64) : (max a b).toNat = max a.toNat b.toNat := by
  show (if a ≤ b then b else a).toNat = _
  by_cases h : a ≤ b
  · rw [if_pos h]
    rw [UInt64.le_iff_toNat_le] at h
    omega
  · rw [if_neg h]
    rw [UInt64.le_iff_toNat_le] at h
    omega

theorem toNat_min (a b : UInt64) : (min a b).toNat = min a.toNat b.toNat := by
  show (if a ≤ b then a else b).toNat = _
  by_cases h : a ≤ b
  · rw [if_pos h]
    rw [UInt64.le_iff_toNat_le] at h
    omega
  · rw [if_neg h]
    rw [UInt64.le_iff_toNat_le] at h
    omega

theorem toNat_clamp (p : Policy) (n : UInt64) :
    (p.clamp n).toNat = min (max n.toNat p.minSecs.toNat) p.maxSecs.toNat := by
  rw [clamp, toNat_min, toNat_max]

/-- Bounds are in order in a consistent policy. -/
theorem Valid.min_le_max {p : Policy} (hp : p.Valid) : p.minSecs ≤ p.maxSecs :=
  UInt64.le_trans hp.min_le_default hp.default_le_max

theorem clamp_default {p : Policy} (hp : p.Valid) : p.clamp p.defaultSecs = p.defaultSecs := by
  have hlo := UInt64.le_iff_toNat_le.1 hp.min_le_default
  have hhi := UInt64.le_iff_toNat_le.1 hp.default_le_max
  rw [← UInt64.toNat_inj, toNat_clamp]
  omega

end Policy

namespace Heartbeat

/-! ## Range -/

/-- A heartbeat is in range when it lies within the bounds of its policy. -/
def InRange (h : Heartbeat) : Prop := h.policy.minSecs ≤ h.secs ∧ h.secs ≤ h.policy.maxSecs

theorem inRange_iff {h : Heartbeat} :
    h.InRange ↔ h.policy.minSecs.toNat ≤ h.secs.toNat ∧ h.secs.toNat ≤ h.policy.maxSecs.toNat := by
  simp only [InRange, UInt64.le_iff_toNat_le]

theorem inRange_clamp {p : Policy} (hp : p.minSecs ≤ p.maxSecs) (n : UInt64) :
    (Heartbeat.mk p (p.clamp n)).InRange := by
  rw [UInt64.le_iff_toNat_le] at hp
  rw [inRange_iff]
  show p.minSecs.toNat ≤ (p.clamp n).toNat ∧ (p.clamp n).toNat ≤ p.maxSecs.toNat
  rw [Policy.toNat_clamp]
  omega

/-- Clamping leaves a heartbeat in range as it is. -/
theorem InRange.clamp_secs {h : Heartbeat} (hr : h.InRange) : h.policy.clamp h.secs = h.secs := by
  rw [inRange_iff] at hr
  rw [← UInt64.toNat_inj, Policy.toNat_clamp]
  omega

theorem InRange.secs_ne_zero {h : Heartbeat} (hr : h.InRange) (hp : h.policy.Valid) :
    h.secs ≠ 0 := by
  -- the lower bound of a consistent policy is positive
  have hpos := UInt64.lt_iff_toNat_lt.1 hp.min_pos
  rw [inRange_iff] at hr
  intro hz
  rw [hz] at hr
  simp only [UInt64.toNat_zero] at hr hpos
  omega

/-! ## Restoring -/

@[simp] theorem restore_policy (p : Policy) (stored : Option UInt64) :
    (restore p stored).policy = p := by
  cases stored <;> rfl

theorem inRange_restore {p : Policy} (hp : p.minSecs ≤ p.maxSecs) (stored : Option UInt64) :
    (restore p stored).InRange := by
  cases stored with
  | none => exact inRange_clamp hp _
  | some n => exact inRange_clamp hp _

/-- A stored number other than zero is restored as it is, but for the clamp. -/
theorem restore_some {p : Policy} {n : UInt64} (hn : n ≠ 0) :
    (restore p (some n)).secs = p.clamp n := by
  simp only [restore, if_neg hn]

/-- Without a stored number, or with zero, a heartbeat starts at the default. -/
theorem restore_unset {p : Policy} (hp : p.Valid) {stored : Option UInt64}
    (h : stored = none ∨ stored = some 0) : (restore p stored).secs = p.defaultSecs := by
  rcases h with rfl | rfl
  · exact Policy.clamp_default hp
  · exact Policy.clamp_default hp

/-- A heartbeat in range is restored from its own number. -/
theorem InRange.restore_secs {h : Heartbeat} (hr : h.InRange) (hne : h.secs ≠ 0) :
    restore h.policy (some h.secs) = h := by
  calc restore h.policy (some h.secs)
      = ⟨h.policy, (restore h.policy (some h.secs)).secs⟩ := rfl
    _ = ⟨h.policy, h.secs⟩ := by rw [restore_some hne, hr.clamp_secs]

/-! ## Adjusting -/

@[simp] theorem adopt_secs (h : Heartbeat) (n : UInt64) :
    (h.adjust (.adopt n)).secs = h.policy.clamp n := rfl

theorem inRange_adjust {h : Heartbeat} (hp : h.policy.minSecs ≤ h.policy.maxSecs)
    (a : Adjustment) : (h.adjust a).InRange :=
  inRange_clamp hp _

theorem toNat_increase {h : Heartbeat} (hr : h.InRange) :
    (h.adjust .increase).secs.toNat
      = min (h.secs.toNat + h.policy.maxStepSecs.toNat) h.policy.maxSecs.toNat := by
  have hmax := h.policy.maxSecs.toNat_lt
  rw [inRange_iff] at hr
  show (h.policy.clamp (saturatingAdd h.secs h.policy.maxStepSecs)).toNat = _
  -- a sum that saturates lies above the upper bound, where the clamp cuts it off anyway
  rw [Policy.toNat_clamp, toNat_saturatingAdd]
  omega

theorem toNat_backOff {h : Heartbeat} (hr : h.InRange) :
    (h.adjust .backOff).secs.toNat
      = max (h.secs.toNat - h.policy.maxStepSecs.toNat) h.policy.minSecs.toNat := by
  rw [inRange_iff] at hr
  show (h.policy.clamp (saturatingSub h.secs h.policy.maxStepSecs)).toNat = _
  -- a difference that stops at zero lies below the lower bound
  rw [Policy.toNat_clamp, toNat_saturatingSub]
  omega

/-- Growing takes a heartbeat up, by at most one step. -/
theorem increase_bounds {h : Heartbeat} (hr : h.InRange) :
    h.secs.toNat ≤ (h.adjust .increase).secs.toNat ∧
      (h.adjust .increase).secs.toNat ≤ h.secs.toNat + h.policy.maxStepSecs.toNat := by
  rw [toNat_increase hr]
  rw [inRange_iff] at hr
  omega

/-- Backing off takes a heartbeat down, by at most one step. -/
theorem backOff_bounds {h : Heartbeat} (hr : h.InRange) :
    (h.adjust .backOff).secs.toNat ≤ h.secs.toNat ∧
      h.secs.toNat ≤ (h.adjust .backOff).secs.toNat + h.policy.maxStepSecs.toNat := by
  rw [toNat_backOff hr]
  rw [inRange_iff] at hr
  omega

end Heartbeat

end MailPush
