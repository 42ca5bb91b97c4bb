import Mathlib.Data.UInt
import Mathlib.Tactic.Linarith

/-! # Arithmetic of 64-bit words that fits

An operation of machine words is the operation of numbers as long as its result is a word.
-/

namespace DuckAcl.Words

/-! ## Unsigned words -/

theorem toNat_add_of_lt {a b : UInt64} (fits : a.toNat + b.toNat < 2 ^ 64) : (a + b).toNat = a.toNat + b.toNat := by
  rw [UInt64.toNat_add, Nat.mod_eq_of_lt fits]

theorem toNat_mul_of_lt {a b : UInt64} (fits : a.toNat * b.toNat < 2 ^ 64) : (a * b).toNat = a.toNat * b.toNat := by
  rw [UInt64.toNat_mul, Nat.mod_eq_of_lt fits]

theorem pos_iff {a : UInt64} : 0 < a ↔ 0 < a.toNat := UInt64.lt_iff_toNat_lt

/-! ## Signed words -/

/-- Two's complement leaves a number that is a signed word as it is. -/
private theorem bmod_of_fits {n : ℤ} (low : -2 ^ 63 ≤ n) (high : n < 2 ^ 63) : n.bmod (2 ^ 64) = n :=
  Int.bmod_eq_of_le (by omega) (by omega)

theorem toInt_add_of_fits {a b : Int64} (low : -2 ^ 63 ≤ a.toInt + b.toInt) (high : a.toInt + b.toInt < 2 ^ 63) :
    (a + b).toInt = a.toInt + b.toInt := by
  rw [Int64.toInt_add]
  exact bmod_of_fits low high

theorem toInt_sub_of_fits {a b : Int64} (low : -2 ^ 63 ≤ a.toInt - b.toInt) (high : a.toInt - b.toInt < 2 ^ 63) :
    (a - b).toInt = a.toInt - b.toInt := by
  rw [Int64.toInt_sub]
  exact bmod_of_fits low high

theorem toInt_mul_of_fits {a b : Int64} (low : -2 ^ 63 ≤ a.toInt * b.toInt) (high : a.toInt * b.toInt < 2 ^ 63) :
    (a * b).toInt = a.toInt * b.toInt := by
  rw [Int64.toInt_mul]
  exact bmod_of_fits low high

theorem toInt_div_of_nonneg {a b : Int64} (nonneg : 0 ≤ a.toInt) (positive : 0 < b.toInt) :
    (a / b).toInt = a.toInt / b.toInt := by
  have low := Int.ediv_nonneg nonneg positive.le
  have high := Int.ediv_le_self b.toInt nonneg
  have word := Int64.toInt_lt a
  rw [Int64.toInt_div, Int.tdiv_eq_ediv_of_nonneg nonneg]
  exact bmod_of_fits (by omega) (by omega)

theorem toInt_toInt64_of_lt {a : UInt64} (fits : a.toNat < 2 ^ 63) : a.toInt64.toInt = a.toNat := by
  change a.toBitVec.toInt = _
  rw [BitVec.toInt_eq_toNat_of_lt]
  · rfl
  · exact show 2 * a.toNat < 2 ^ 64 by omega

end DuckAcl.Words
