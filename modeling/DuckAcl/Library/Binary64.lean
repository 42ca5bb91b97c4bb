import Mathlib.Data.Rat.Floor
import Mathlib.Algebra.Order.Ring.Abs
import Mathlib.Tactic.Linarith
import Mathlib.Tactic.NormNum

/-! # Double-precision numbers

A finite double is a rational number. An integer is rounded to the nearest one, to the even one of two as
near; a double is converted to an integer by cutting its fraction off.
-/

namespace DuckAcl.Binary64

/-- The values of finite doubles: a significand of 53 bits, scaled. -/
def IsFinite (value : ℚ) : Prop :=
  ∃ significand exponent : ℤ, significand.natAbs < 9007199254740992 ∧ -1074 ≤ exponent ∧ exponent ≤ 971 ∧
    value = significand * (2 : ℚ) ^ exponent

/-- A natural number rounded to 53 significant bits. -/
def roundNat (n : ℕ) : ℕ :=
  let unit := 2 ^ (n.log2 + 1 - 53)
  let part := n % unit
  if unit < 2 * part ∨ (unit = 2 * part ∧ n / unit % 2 = 1) then (n / unit + 1) * unit else n / unit * unit

/-- An integer converted to a double. -/
def ofInt (n : ℤ) : ℤ := if 0 ≤ n then roundNat n.natAbs else -roundNat n.natAbs

/-- A number without its fraction. -/
def truncate (value : ℚ) : ℤ := if 0 ≤ value then ⌊value⌋ else ⌈value⌉

theorem roundNat_of_lt {n : ℕ} (small : n < 9007199254740992) : roundNat n = n := by
  have bits : n.log2 + 1 - 53 = 0 := by
    by_cases zero : n = 0
    · subst zero
      rfl
    · have := (Nat.log2_lt zero).mpr (show n < 2 ^ 53 by simpa using small)
      omega
  simp [roundNat, bits, Nat.mod_one]

/-- An integer below 53 bits is converted exactly. -/
theorem ofInt_of_lt {n : ℤ} (small : n.natAbs < 9007199254740992) : ofInt n = n := by
  unfold ofInt
  rw [roundNat_of_lt small]
  split_ifs <;> omega

theorem truncate_intCast (n : ℤ) : truncate n = n := by
  unfold truncate
  split_ifs
  · exact Int.floor_intCast n
  · exact Int.ceil_intCast n

/-- Cutting the fraction off carries a number over an integer bound only at that integer: from above, where
the number is positive. -/
theorem truncate_le_iff (value : ℚ) (bound : ℤ) :
    (truncate value ≤ bound ↔ value ≤ bound) ↔ ¬ (0 < value ∧ ⌊value⌋ = bound ∧ value ≠ bound) := by
  unfold truncate
  split_ifs with sign
  · rw [← Int.lt_add_one_iff, Int.floor_lt]
    push_cast
    constructor
    · rintro same ⟨_, rfl, apart⟩
      exact apart (le_antisymm (same.mp (Int.lt_floor_add_one value)) (Int.floor_le value))
    · intro never
      refine ⟨fun below => ?_, fun within => within.trans_lt (lt_add_one _)⟩
      by_contra above
      rw [not_le] at above
      have floor : ⌊value⌋ = bound := Int.floor_eq_iff.mpr ⟨above.le, below⟩
      rcases sign.lt_or_eq with positive | zero
      · exact never ⟨positive, floor, above.ne'⟩
      · rw [← zero] at floor above
        rw [Int.floor_zero] at floor
        rw [← floor, Int.cast_zero] at above
        exact lt_irrefl (0 : ℚ) above
  · rw [Int.ceil_le]
    exact iff_of_true Iff.rfl fun all => sign all.1.le

end DuckAcl.Binary64
