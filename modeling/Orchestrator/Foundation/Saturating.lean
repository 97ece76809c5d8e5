import Mathlib.Algebra.Order.Ring.Nat
import Mathlib.Tactic.Common

/-!
# Saturating arithmetic on machine words

Counters of fixed width that stop at their largest value instead of wrapping.
Every operation is specified by its value as a natural number, so that later
arithmetic is ordinary `omega` reasoning about `toNat`.
-/

namespace UInt64

/-- The largest value of the type. -/
def maxNat : Nat := 2 ^ 64 - 1

/-- Addition that stops at the largest value. -/
def saturatingAdd (a b : UInt64) : UInt64 :=
  UInt64.ofNat (min (a.toNat + b.toNat) maxNat)

theorem toNat_le_maxNat (a : UInt64) : a.toNat ≤ maxNat := by
  have h := a.toNat_lt
  simp only [maxNat]
  omega

@[simp] theorem toNat_saturatingAdd (a b : UInt64) :
    (a.saturatingAdd b).toNat = min (a.toNat + b.toNat) maxNat := by
  have h : min (a.toNat + b.toNat) maxNat < 2 ^ 64 := by
    simp only [maxNat]
    omega
  rw [saturatingAdd, UInt64.toNat_ofNat', Nat.mod_eq_of_lt h]

theorem le_saturatingAdd (a b : UInt64) : a.toNat ≤ (a.saturatingAdd b).toNat := by
  rw [toNat_saturatingAdd]
  exact Nat.le_min.mpr ⟨Nat.le_add_right _ _, a.toNat_le_maxNat⟩

/-- A counter below its largest value is strictly increased by one. -/
theorem toNat_saturatingAdd_one {a : UInt64} (h : a.toNat < maxNat) :
    (a.saturatingAdd 1).toNat = a.toNat + 1 := by
  rw [toNat_saturatingAdd, UInt64.toNat_one]
  exact Nat.min_eq_left h

/-- A sum with a positive second term is positive. -/
theorem saturatingAdd_pos (a : UInt64) {b : UInt64} (h : 0 < b.toNat) :
    0 < (a.saturatingAdd b).toNat := by
  rw [toNat_saturatingAdd]
  exact Nat.lt_min.mpr ⟨Nat.add_pos_right _ h, by decide⟩

/-- A number below the largest value stays below the successors of larger counters. -/
theorem lt_saturatingAdd_one {n : Nat} {a : UInt64} (le : n ≤ a.toNat) (below : n < maxNat) :
    n < (a.saturatingAdd 1).toNat := by
  rw [toNat_saturatingAdd, UInt64.toNat_one]
  exact Nat.lt_min.mpr ⟨Nat.lt_succ_of_le le, below⟩

instance instLawfulOrderMax : Std.LawfulOrderMax UInt64 where
  max_eq_or a b := by
    show (if a ≤ b then b else a) = a ∨ (if a ≤ b then b else a) = b
    split
    · exact .inr rfl
    · exact .inl rfl
  max_le_iff a b c := by
    simp only [UInt64.le_iff_toNat_le, UInt64.toNat_max]
    exact Nat.max_le

/-- A member of a list is at most the largest one. -/
theorem le_max?_getD {l : List UInt64} {a : UInt64} (member : a ∈ l) (b : UInt64) :
    a.toNat ≤ (l.max?.getD b).toNat := by
  cases found : l.max? with
  | none =>
      rw [List.max?_eq_none_iff] at found
      rw [found] at member
      cases member
  | some largest =>
      exact UInt64.le_iff_toNat_le.mp ((List.max?_eq_some_iff.mp found).2 a member)

/-- A product that stops at the largest value. -/
def saturatingMul (a b : UInt64) : UInt64 :=
  UInt64.ofNat (min (a.toNat * b.toNat) maxNat)

@[simp] theorem toNat_saturatingMul (a b : UInt64) :
    (a.saturatingMul b).toNat = min (a.toNat * b.toNat) maxNat := by
  have h : min (a.toNat * b.toNat) maxNat < 2 ^ 64 := by
    simp only [maxNat]
    omega
  rw [saturatingMul, UInt64.toNat_ofNat', Nat.mod_eq_of_lt h]

end UInt64

namespace UInt32

/-- The largest value of the type. -/
def maxNat : Nat := 2 ^ 32 - 1

/-- Addition that stops at the largest value. -/
def saturatingAdd (a b : UInt32) : UInt32 :=
  UInt32.ofNat (min (a.toNat + b.toNat) maxNat)

theorem toNat_le_maxNat (a : UInt32) : a.toNat ≤ maxNat := by
  have h := a.toNat_lt
  simp only [maxNat]
  omega

@[simp] theorem toNat_saturatingAdd (a b : UInt32) :
    (a.saturatingAdd b).toNat = min (a.toNat + b.toNat) maxNat := by
  have h : min (a.toNat + b.toNat) maxNat < 2 ^ 32 := by
    simp only [maxNat]
    omega
  rw [saturatingAdd, UInt32.toNat_ofNat', Nat.mod_eq_of_lt h]

/-- A counter below its largest value does not wrap. -/
theorem toNat_add_one {a : UInt32} (h : a.toNat < maxNat) : (a + 1).toNat = a.toNat + 1 := by
  rw [UInt32.toNat_add, UInt32.toNat_one]
  exact Nat.mod_eq_of_lt (by simp only [maxNat] at h; omega)

/-- Nor does it stop. -/
theorem saturatingAdd_one {a : UInt32} (h : a.toNat < maxNat) : a.saturatingAdd 1 = a + 1 := by
  apply UInt32.toNat_inj.mp
  rw [toNat_saturatingAdd, toNat_add_one h, UInt32.toNat_one]
  exact Nat.min_eq_left h

/-- A power that stops at the largest value. -/
def saturatingPow (a b : UInt32) : UInt32 :=
  UInt32.ofNat (min (a.toNat ^ b.toNat) maxNat)

@[simp] theorem toNat_saturatingPow (a b : UInt32) :
    (a.saturatingPow b).toNat = min (a.toNat ^ b.toNat) maxNat := by
  have h : min (a.toNat ^ b.toNat) maxNat < 2 ^ 32 := by
    simp only [maxNat]
    omega
  rw [saturatingPow, UInt32.toNat_ofNat', Nat.mod_eq_of_lt h]

end UInt32
