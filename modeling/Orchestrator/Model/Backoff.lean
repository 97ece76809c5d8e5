import Orchestrator.Model.Policy

/-!
# The backoff of a retry policy

The delay after an attempt is a power of the multiplier, with an exponent of at most
twenty, times the first delay, capped by the larger of the two limits. Each operation
saturates, so that the delay is that of unbounded arithmetic under the caps. A multiplier
of zero has one power that is not zero, the first.
-/

namespace Orchestrator.RetryDelay

variable (delay : RetryDelay)

/-- The delay in unbounded arithmetic, after `n` earlier attempts. -/
def capped (n : Nat) : Nat :=
  min (min (delay.initialMs.toNat * min (delay.multiplier.toNat ^ min n 20) UInt32.maxNat)
    UInt64.maxNat) (max delay.maxMs.toNat delay.initialMs.toNat)

/-- The delays do not decrease, each is at least the first and at most the larger limit,
and no operation overflows. -/
structure BacksOff : Prop where
  monotone : ∀ a b : UInt32, 1 ≤ a → a ≤ b → delay.forAttempt a ≤ delay.forAttempt b
  least : ∀ a : UInt32, 1 ≤ a → delay.initialMs ≤ delay.forAttempt a
  most : ∀ a : UInt32, 1 ≤ a → delay.forAttempt a ≤ max delay.initialMs delay.maxMs
  exact : ∀ a : UInt32, 1 ≤ a → (delay.forAttempt a).toNat = delay.capped (a.toNat - 1)

variable {delay} {a b : UInt32}

/-- No operation of the delay overflows. -/
theorem toNat_forAttempt (positive : 1 ≤ a) :
    (delay.forAttempt a).toNat = delay.capped (a.toNat - 1) := by
  have nonzero : a ≠ 0 := by
    rintro rfl
    exact absurd positive (by decide)
  rw [forAttempt, capped]
  by_cases zero : delay.initialMs = 0
  · rw [if_pos (.inr zero), zero]
    simp
  · have exponent : (min (a - 1) 20).toNat = min (a.toNat - 1) 20 := by
      rw [UInt32.toNat_min, UInt32.toNat_sub_of_le a 1 positive]
      rfl
    rw [if_neg (by simp [nonzero, zero])]
    simp only [UInt64.toNat_min, UInt64.toNat_max, UInt64.toNat_saturatingMul,
      UInt32.toNat_toUInt64, UInt32.toNat_saturatingPow, exponent]

/-- A positive multiplier never shortens the delay. -/
theorem capped_mono (positive : delay.multiplier ≠ 0) {m n : Nat} (le : m ≤ n) :
    delay.capped m ≤ delay.capped n := by
  have base : 0 < delay.multiplier.toNat :=
    Nat.pos_of_ne_zero fun zero => positive (UInt32.toNat_inj.mp zero)
  have power : delay.multiplier.toNat ^ min m 20 ≤ delay.multiplier.toNat ^ min n 20 :=
    Nat.pow_le_pow_right base (by omega)
  have factor := min_le_min_right UInt32.maxNat power
  have product := Nat.mul_le_mul_left delay.initialMs.toNat factor
  exact min_le_min_right _ (min_le_min_right _ product)

theorem capped_zero : delay.capped 0 = delay.initialMs.toNat := by
  have word := delay.initialMs.toNat_le_maxNat
  have one : min 1 UInt32.maxNat = 1 := rfl
  simp only [capped, Nat.zero_min, Nat.pow_zero, one, Nat.mul_one]
  omega

theorem capped_of_initial_zero (zero : delay.initialMs = 0) (n : Nat) : delay.capped n = 0 := by
  simp [capped, zero]

/-- With the multiplier zero all delays but the first are zero. -/
theorem capped_of_multiplier_zero (zero : delay.multiplier = 0) (n : Nat) :
    delay.capped (n + 1) = 0 := by
  have power : (0 : Nat) ^ min (n + 1) 20 = 0 := Nat.zero_pow (by omega)
  simp [capped, zero, power]

theorem capped_le (n : Nat) : delay.capped n ≤ max delay.initialMs.toNat delay.maxMs.toNat := by
  rw [capped, Nat.max_comm]
  exact Nat.min_le_right _ _

/-- The delays back off exactly where the multiplier is not zero or all delays are. -/
theorem backsOff_iff (delay : RetryDelay) :
    delay.BacksOff ↔ delay.multiplier ≠ 0 ∨ delay.initialMs = 0 := by
  constructor
  · intro backsOff
    by_contra degenerate
    obtain ⟨zero, positive⟩ : delay.multiplier = 0 ∧ delay.initialMs ≠ 0 := by
      simpa only [not_or, not_not] using degenerate
    have least := UInt64.le_iff_toNat_le.mp (backsOff.least 2 (by decide))
    rw [backsOff.exact 2 (by decide)] at least
    have second : delay.capped ((2 : UInt32).toNat - 1) = 0 := capped_of_multiplier_zero zero 0
    rw [second] at least
    exact positive (UInt64.toNat_inj.mp (Nat.le_zero.mp least))
  · intro regular
    have mono : ∀ {m n : Nat}, m ≤ n → delay.capped m ≤ delay.capped n := by
      intro m n le
      obtain positive | zero := regular
      · exact capped_mono positive le
      · rw [capped_of_initial_zero zero, capped_of_initial_zero zero]
    refine ⟨fun a b positive le => ?_, fun a positive => ?_, fun a positive => ?_,
      fun a positive => toNat_forAttempt positive⟩
    · have later : 1 ≤ b := UInt32.le_trans positive le
      rw [UInt64.le_iff_toNat_le, toNat_forAttempt positive, toNat_forAttempt later]
      exact mono (Nat.sub_le_sub_right (UInt32.le_iff_toNat_le.mp le) 1)
    · rw [UInt64.le_iff_toNat_le, toNat_forAttempt positive, ← capped_zero]
      exact mono (Nat.zero_le _)
    · rw [UInt64.le_iff_toNat_le, toNat_forAttempt positive, UInt64.toNat_max]
      exact capped_le _

/-- With the multiplier zero the second delay is shorter than the first. -/
theorem zero_multiplier_drops :
    (RetryDelay.mk 25 0 1000).forAttempt 2 < (RetryDelay.mk 25 0 1000).forAttempt 1 ∧
      ¬ (RetryDelay.mk 25 0 1000).BacksOff := by
  have drops : (RetryDelay.mk 25 0 1000).forAttempt 2 < (RetryDelay.mk 25 0 1000).forAttempt 1 := by
    decide
  exact ⟨drops, fun backsOff =>
    absurd (backsOff.monotone 1 2 (by decide) (by decide)) (UInt64.not_le.mpr drops)⟩

end Orchestrator.RetryDelay
