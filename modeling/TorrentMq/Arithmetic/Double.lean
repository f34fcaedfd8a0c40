import Mathlib.Data.Nat.Log
import Mathlib.Tactic.Ring

/-!
# Double precision

Nonnegative floating-point numbers that stay in the normal range: a numerator
over a power of two, rounded to 53 significant bits.
-/

set_option autoImplicit false

namespace Arithmetic

def significandBits : Nat := 53

def roundToNearest (value : Nat) : Nat :=
  let unit := 2 ^ (value.log2 + 1 - significandBits)
  let below := value / unit
  let rest := value % unit
  if 2 * rest < unit ∨ 2 * rest = unit ∧ below % 2 = 0 then below * unit else (below + 1) * unit

theorem roundToNearest_le (value : Nat) :
    roundToNearest value * 2 ^ significandBits ≤ value * (2 ^ significandBits + 1) := by
  unfold roundToNearest
  dsimp only
  generalize unitEq : 2 ^ (value.log2 + 1 - significandBits) = unit
  have positive : 0 < unit := unitEq ▸ Nat.two_pow_pos _
  have whole : unit * (value / unit) + value % unit = value := Nat.div_add_mod value unit
  split
  next =>
    have down : value / unit * unit ≤ value := Nat.div_mul_le_self value unit
    calc value / unit * unit * 2 ^ significandBits
        ≤ value * 2 ^ significandBits := Nat.mul_le_mul_right _ down
      _ ≤ value * (2 ^ significandBits + 1) := Nat.mul_le_mul_left _ (Nat.le_succ _)
  next up =>
    have half : unit ≤ 2 * (value % unit) := by omega
    have rounded : 2 * ((value / unit + 1) * unit) ≤ 2 * value + unit := by
      have expand : (value / unit + 1) * unit = unit * (value / unit) + unit := by ring
      omega
    have large : unit * 2 ^ 52 ≤ value := by
      by_cases small : value.log2 + 1 ≤ significandBits
      · rw [Nat.sub_eq_zero_of_le small, pow_zero] at unitEq
        subst unitEq
        rw [Nat.mod_one] at half
        exact absurd half (by decide)
      · rw [← unitEq, ← pow_add]
        have exponent : value.log2 + 1 - significandBits + 52 = value.log2 := by
          rw [significandBits] at small ⊢
          omega
        rw [exponent]
        refine Nat.log2_self_le fun zero => ?_
        rw [zero, Nat.log2_zero] at small
        exact small (by decide)
    calc (value / unit + 1) * unit * 2 ^ significandBits
        = 2 * ((value / unit + 1) * unit) * 2 ^ 52 := by rw [significandBits]; ring
      _ ≤ (2 * value + unit) * 2 ^ 52 := Nat.mul_le_mul_right _ rounded
      _ = value * 2 ^ significandBits + unit * 2 ^ 52 := by rw [significandBits]; ring
      _ ≤ value * 2 ^ significandBits + value := Nat.add_le_add_left large _
      _ = value * (2 ^ significandBits + 1) := by ring

structure Double where
  numerator : Nat
  scale : Nat
deriving DecidableEq

namespace Double

def ofNat (value : Nat) : Double := ⟨roundToNearest value, 0⟩

def mul (left right : Double) : Double :=
  ⟨roundToNearest (left.numerator * right.numerator), left.scale + right.scale⟩

def truncate (number : Double) : Nat := number.numerator / 2 ^ number.scale

def ceil (number : Double) : Nat := (number.numerator + (2 ^ number.scale - 1)) / 2 ^ number.scale

def Shrinks (factor : Double) : Prop :=
  factor.numerator * (2 ^ significandBits + 1) ^ 2 ≤ 2 ^ factor.scale * (2 ^ significandBits) ^ 2

instance (factor : Double) : Decidable factor.Shrinks := inferInstanceAs (Decidable (_ ≤ _))

theorem Shrinks.truncate_mul_le {factor : Double} (shrinks : factor.Shrinks) (value : Nat) :
    ((ofNat value).mul factor).truncate ≤ value := by
  have first := roundToNearest_le value
  have second := roundToNearest_le (roundToNearest value * factor.numerator)
  have bound : roundToNearest (roundToNearest value * factor.numerator) * (2 ^ significandBits) ^ 2 ≤
      value * 2 ^ factor.scale * (2 ^ significandBits) ^ 2 := by
    calc roundToNearest (roundToNearest value * factor.numerator) * (2 ^ significandBits) ^ 2
        = roundToNearest (roundToNearest value * factor.numerator) * 2 ^ significandBits * 2 ^ significandBits := by
          ring
      _ ≤ roundToNearest value * factor.numerator * (2 ^ significandBits + 1) * 2 ^ significandBits :=
          Nat.mul_le_mul_right _ second
      _ = roundToNearest value * 2 ^ significandBits * (factor.numerator * (2 ^ significandBits + 1)) := by ring
      _ ≤ value * (2 ^ significandBits + 1) * (factor.numerator * (2 ^ significandBits + 1)) :=
          Nat.mul_le_mul_right _ first
      _ = value * (factor.numerator * (2 ^ significandBits + 1) ^ 2) := by ring
      _ ≤ value * (2 ^ factor.scale * (2 ^ significandBits) ^ 2) := Nat.mul_le_mul_left _ shrinks
      _ = value * 2 ^ factor.scale * (2 ^ significandBits) ^ 2 := by ring
  have scaled : roundToNearest (roundToNearest value * factor.numerator) ≤ value * 2 ^ factor.scale :=
    Nat.le_of_mul_le_mul_right bound (Nat.pow_pos (Nat.two_pow_pos _))
  unfold truncate mul ofNat
  dsimp only
  rw [Nat.zero_add]
  apply Nat.div_le_of_le_mul
  rw [Nat.mul_comm (2 ^ factor.scale)]
  exact scaled

end Double

end Arithmetic
