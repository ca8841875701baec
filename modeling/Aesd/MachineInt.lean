import Mathlib.Tactic

/-! Conversions to the fixed-width integers of an LP64 machine, as C performs
them: every conversion keeps the low bits, and signed values are two's complement. -/

namespace MachineInt

def toInt (value : Int) : Int := value.bmod (2 ^ 32)

def toLong (value : Int) : Int := value.bmod (2 ^ 64)

def toUnsigned (bits : Nat) (value : Int) : Nat := (value % 2 ^ bits).toNat

theorem toInt_of_bounds {value : Int} (lower : -2 ^ 31 ≤ value) (upper : value < 2 ^ 31) :
    toInt value = value := by
  unfold toInt
  rw [Int.bmod_def]
  split <;> omega

theorem toInt_natCast {value : Nat} (bound : value < 2 ^ 31) : toInt value = value :=
  toInt_of_bounds (by omega) (by omega)

theorem toInt_natCast_sub {value taken : Nat} (bound : value < 2 ^ 31) (small : taken < 2 ^ 31) :
    toInt ((value : Int) - taken) = (value : Int) - taken :=
  toInt_of_bounds (by omega) (by omega)

theorem toInt_natCast_le (value : Nat) : toInt value ≤ value := by
  unfold toInt
  rw [Int.bmod_def]
  split <;> omega

theorem lt_of_toInt_nonneg {value : Nat} (bound : value < 2 ^ 32) (nonneg : 0 ≤ toInt value) :
    value < 2 ^ 31 := by
  unfold toInt at nonneg
  rw [Int.bmod_def] at nonneg
  split at nonneg <;> omega

theorem toInt_bounds (value : Int) : -2 ^ 31 ≤ toInt value ∧ toInt value < 2 ^ 31 := by
  unfold toInt
  rw [Int.bmod_def]
  split <;> omega

theorem toLong_of_bounds {value : Int} (lower : -2 ^ 63 ≤ value) (upper : value < 2 ^ 63) :
    toLong value = value := by
  unfold toLong
  rw [Int.bmod_def]
  split <;> omega

theorem toLong_natCast {value : Nat} (bound : value < 2 ^ 63) : toLong value = value :=
  toLong_of_bounds (by omega) (by omega)

theorem toUnsigned_natCast {bits value : Nat} (bound : value < 2 ^ bits) :
    toUnsigned bits value = value := by
  have positive : (0 : Int) ≤ value := by omega
  have small : (value : Int) < 2 ^ bits := by exact_mod_cast bound
  rw [toUnsigned, Int.emod_eq_of_lt positive small, Int.toNat_natCast]

theorem toUnsigned_of_nonneg {value : Int} (lower : 0 ≤ value) (upper : value < 2 ^ 31) :
    toUnsigned 64 value = value.toNat := by
  unfold toUnsigned
  omega

theorem toUnsigned_of_neg {value : Int} (lower : -2 ^ 31 ≤ value) (upper : value < 0) :
    2 ^ 63 ≤ toUnsigned 64 value := by
  unfold toUnsigned
  omega

theorem toUnsigned_lt (bits : Nat) (value : Int) : toUnsigned bits value < 2 ^ bits := by
  have positive : (0 : Int) < 2 ^ bits := Int.pow_pos (by decide)
  have lower := Int.emod_nonneg value (ne_of_gt positive)
  have upper := Int.emod_lt_of_pos value positive
  have cast : ((2 ^ bits : Nat) : Int) = 2 ^ bits := by push_cast; rfl
  unfold toUnsigned
  omega

theorem toUnsigned_toInt (value : Int) : toUnsigned 32 (toInt value) = toUnsigned 32 value := by
  unfold toUnsigned toInt
  rw [Int.bmod_def]
  split <;> omega

theorem toUnsigned_add_one (value : Int) :
    toUnsigned 32 (value + 1) = (toUnsigned 32 value + 1) % 2 ^ 32 := by
  unfold toUnsigned
  omega

theorem toUnsigned_toUnsigned_add (bits : Nat) (value added : Int) :
    toUnsigned bits (toUnsigned bits value + added) = toUnsigned bits (value + added) := by
  have positive : (0 : Int) < 2 ^ bits := Int.pow_pos (by decide)
  have natural : ((value % 2 ^ bits).toNat : Int) = value % 2 ^ bits :=
    Int.toNat_of_nonneg (Int.emod_nonneg value (ne_of_gt positive))
  simp only [toUnsigned, natural, Int.emod_add_emod]

theorem toUnsigned_sub_toUnsigned (bits : Nat) (value taken : Int) :
    toUnsigned bits (value - toUnsigned bits taken) = toUnsigned bits (value - taken) := by
  have positive : (0 : Int) < 2 ^ bits := Int.pow_pos (by decide)
  have natural : ((taken % 2 ^ bits).toNat : Int) = taken % 2 ^ bits :=
    Int.toNat_of_nonneg (Int.emod_nonneg taken (ne_of_gt positive))
  simp only [toUnsigned, natural, Int.sub_emod_emod]

theorem toInt_toInt_add (value added : Int) : toInt (toInt value + added) = toInt (value + added) :=
  Int.bmod_add_bmod

end MachineInt
