import Mathlib.Algebra.Group.Int.Defs
import Mathlib.Algebra.Group.Nat.Defs
/-! Signed counters that wrap at their largest value. -/

set_option autoImplicit false

namespace Counters

open Int32

variable {count : Int32}

theorem toInt_succ (room : count ≠ maxValue) : (count + 1).toInt = count.toInt + 1 := by
  have below : count.toInt ≠ 2 ^ 31 - 1 := by
    rw [← toInt_maxValue, Ne, toInt_inj]
    exact room
  have upper := count.toInt_lt
  have lower := count.le_toInt
  rw [toInt_add, toInt_one]
  exact Int.bmod_eq_of_le (by omega) (by omega)

theorem toInt_succ_of_lt (room : count.toInt < 2 ^ 31 - 1) : (count + 1).toInt = count.toInt + 1 := by
  refine toInt_succ fun full => ?_
  rw [full] at room
  exact absurd room (by decide)

theorem toInt_pred_of_pos (positive : 0 < count.toInt) : (count - 1).toInt = count.toInt - 1 := by
  have upper := count.toInt_lt
  rw [toInt_sub, toInt_one]
  exact Int.bmod_eq_of_le (by omega) (by omega)

theorem toInt_le_succ (room : count ≠ maxValue) : count.toInt ≤ (count + 1).toInt := by
  rw [toInt_succ room]
  omega

theorem toInt_succ_maxValue_lt : (maxValue + 1).toInt < maxValue.toInt := by decide

theorem succ_ne (count : Int32) : count + 1 ≠ count := by
  intro same
  have one : (1 : Int32) = 0 := by
    rw [← Int32.add_right_inj count, same, Int32.add_zero]
  exact absurd one (by decide)

theorem toInt_add_emod (count : Int32) {more : Nat} (small : more < 2 ^ 31) :
    (count + ofNat more).toInt % 2 ^ 32 = (count.toInt + more) % 2 ^ 32 := by
  rw [toInt_add, toInt_ofNat_of_lt small]
  exact Int.bmod_emod

theorem toInt_sub_emod (count : Int32) {less : Nat} (small : less < 2 ^ 31) :
    (count - ofNat less).toInt % 2 ^ 32 = (count.toInt - less) % 2 ^ 32 := by
  rw [toInt_sub, toInt_ofNat_of_lt small]
  exact Int.bmod_emod

theorem toInt_succ_long {count : Int64} (room : count ≠ Int64.maxValue) : (count + 1).toInt = count.toInt + 1 := by
  have below : count.toInt ≠ 2 ^ 63 - 1 := by
    rw [← Int64.toInt_maxValue, Ne, Int64.toInt_inj]
    exact room
  have upper := count.toInt_lt
  have lower := count.le_toInt
  rw [Int64.toInt_add, Int64.toInt_one]
  exact Int.bmod_eq_of_le (by omega) (by omega)

theorem toInt_lt_succ_long {count : Int64} (room : count ≠ Int64.maxValue) : count.toInt < (count + 1).toInt := by
  rw [toInt_succ_long room]
  exact Int.lt_succ _

end Counters
