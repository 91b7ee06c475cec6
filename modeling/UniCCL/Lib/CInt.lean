import Mathlib.Tactic.TypeStar

/-! # Conversions between C integer types

`int` is `Int32`, `unsigned int` is `UInt32` and `size_t` is `UInt64`. An unsigned
value converted to `int` lies in a range that starts at zero exactly when it did
before the conversion, and a nonnegative `int` keeps its value as a `size_t`.
-/

namespace CInt

theorem toInt_toInt32 (v : UInt32) :
    v.toInt32.toInt =
      if 2 * v.toNat < UInt32.size then (v.toNat : Int) else v.toNat - UInt32.size :=
  BitVec.toInt_eq_toNat_cond v.toBitVec

/-- A range check after the conversion to `int` is the check of the unsigned value. -/
theorem toInt32_range_iff {v bound : UInt32} {n : Int32} (hn : n.toInt = bound.toNat) :
    (v.toInt32 ≥ 0 ∧ v.toInt32 < n) ↔ v < bound := by
  have hv := toInt_toInt32 v
  have hlt := n.toInt_lt
  have hvlt := v.toNat_lt
  have hsize : UInt32.size = 4294967296 := rfl
  have h0 : (0 : Int32).toInt = 0 := rfl
  show ((0 : Int32) ≤ v.toInt32 ∧ v.toInt32 < n) ↔ v < bound
  rw [Int32.le_iff_toInt_le, Int32.lt_iff_toInt_lt, UInt32.lt_iff_toNat_lt]
  constructor
  · rintro ⟨hpos, hbound⟩
    split at hv <;> omega
  · intro h
    rw [if_pos (by omega)] at hv
    omega

theorem pos_of_ne_of_not_neg {v : Int32} (h0 : v ≠ 0) (hneg : ¬ v < 0) : 0 < v := by
  have hle : (0 : Int32) ≤ v := Int32.not_lt.mp hneg
  have hne : v.toInt ≠ (0 : Int32).toInt := fun h => h0 (Int32.toInt_inj.mp h)
  rw [Int32.le_iff_toInt_le] at hle
  rw [Int32.lt_iff_toInt_lt]
  omega

theorem not_pos_of_neg {v : Int32} (h : v < 0) : ¬ 0 < v := by
  rw [Int32.lt_iff_toInt_lt] at h ⊢
  omega

/-- `(size_t)v` of a nonnegative `int` has the value of `v`. -/
theorem toUInt64_of_nonneg {v : Int32} (h : 0 ≤ v) :
    v.toInt64.toUInt64 = UInt64.ofNat v.toNatClampNeg := by
  have hv : (0 : Int32).toInt ≤ v.toInt := Int32.le_iff_toInt_le.mp h
  have h0 : (0 : Int32).toInt = 0 := rfl
  have hlt := v.toInt_lt
  have h64 : v.toInt64.toBitVec.toInt = v.toInt := Int32.toInt_toInt64 v
  rw [BitVec.toInt_eq_toNat_cond] at h64
  have hl : v.toInt64.toUInt64.toNat = v.toInt64.toBitVec.toNat := rfl
  have hc : v.toNatClampNeg = v.toInt.toNat := rfl
  apply UInt64.toNat_inj.mp
  rw [hl, UInt64.toNat_ofNat', hc]
  split at h64 <;> omega

theorem toNat_size_of_nonneg {v : Int32} (h : 0 ≤ v) :
    ((UInt64.ofNat v.toNatClampNeg).toNat : Int) = v.toInt := by
  have hv : (0 : Int32).toInt ≤ v.toInt := Int32.le_iff_toInt_le.mp h
  have h0 : (0 : Int32).toInt = 0 := rfl
  have hlt := v.toInt_lt
  have hc : v.toNatClampNeg = v.toInt.toNat := rfl
  rw [UInt64.toNat_ofNat', hc]
  omega

end CInt
