import Mathlib.Data.List.Nodup
import TorrentMq.Bytes.Basic

/-!
# Checksums of different bytes

The register of the checksum tells apart two inputs that differ in one byte.
-/

set_option autoImplicit false

namespace Bytes

def crc32cStep (register : UInt32) (byte : UInt8) : UInt32 :=
  crc32cTable ((register ^^^ byte.toUInt32) &&& 0xFF) ^^^ (register >>> 8)

theorem crc32cRegister_cons (register : UInt32) (byte : UInt8) (bytes : Bytes) :
    crc32cRegister register (byte :: bytes) = crc32cRegister (crc32cStep register byte) bytes := rfl

theorem crc32cTable_high_nodup :
    ((List.range 256).map fun index => (crc32cTable (UInt32.ofNat index) >>> 24).toNat).Nodup := by
  decide +kernel

theorem and_low_lt (word : UInt32) : (word &&& 0xFF).toNat < 256 := by
  rw [UInt32.toNat_and]
  exact Nat.lt_succ_of_le Nat.and_le_right

variable {left right : UInt32}

theorem crc32cTable_high_injective (leftLow : left.toNat < 256) (rightLow : right.toNat < 256)
    (same : crc32cTable left >>> 24 = crc32cTable right >>> 24) : left = right := by
  have injective := List.inj_on_of_nodup_map crc32cTable_high_nodup (List.mem_range.mpr leftLow)
    (List.mem_range.mpr rightLow)
  rw [UInt32.ofNat_toNat, UInt32.ofNat_toNat] at injective
  exact UInt32.toNat_inj.mp (injective (congrArg UInt32.toNat same))

theorem crc32cStep_high (register : UInt32) (byte : UInt8) :
    crc32cStep register byte >>> 24 = crc32cTable ((register ^^^ byte.toUInt32) &&& 0xFF) >>> 24 := by
  have shifted : register >>> 8 >>> 24 = 0 := by
    refine UInt32.toNat_inj.mp ?_
    rw [UInt32.toNat_shiftRight, UInt32.toNat_shiftRight]
    change register.toNat >>> 8 >>> 24 = 0
    rw [← Nat.shiftRight_add, Nat.shiftRight_eq_div_pow]
    exact Nat.div_eq_of_lt register.toNat_lt
  unfold crc32cStep
  rw [UInt32.shiftRight_xor, shifted, UInt32.xor_zero]

theorem crc32cStep_low {leftByte rightByte : UInt8}
    (same : crc32cStep left leftByte = crc32cStep right rightByte) :
    (left ^^^ leftByte.toUInt32) &&& 0xFF = (right ^^^ rightByte.toUInt32) &&& 0xFF ∧ left >>> 8 = right >>> 8 := by
  have index : (left ^^^ leftByte.toUInt32) &&& 0xFF = (right ^^^ rightByte.toUInt32) &&& 0xFF := by
    refine crc32cTable_high_injective (and_low_lt _) (and_low_lt _) ?_
    rw [← crc32cStep_high, ← crc32cStep_high, same]
  unfold crc32cStep at same
  rw [index] at same
  exact ⟨index, (UInt32.xor_right_inj _).mp same⟩

theorem low_shift_injective (low : left &&& 0xFF = right &&& 0xFF)
    (high : left >>> 8 = right >>> 8) : left = right := by
  have lowNat := congrArg UInt32.toNat low
  have highNat := congrArg UInt32.toNat high
  rw [UInt32.toNat_and, UInt32.toNat_and] at lowNat
  rw [UInt32.toNat_shiftRight, UInt32.toNat_shiftRight] at highNat
  change left.toNat &&& (2 ^ 8 - 1) = right.toNat &&& (2 ^ 8 - 1) at lowNat
  change left.toNat >>> 8 = right.toNat >>> 8 at highNat
  rw [Nat.and_two_pow_sub_one_eq_mod, Nat.and_two_pow_sub_one_eq_mod] at lowNat
  rw [Nat.shiftRight_eq_div_pow, Nat.shiftRight_eq_div_pow] at highNat
  refine UInt32.toNat_inj.mp ?_
  omega

theorem and_xor_low (left right : UInt32) : (left ^^^ right) &&& 0xFF = (left &&& 0xFF) ^^^ (right &&& 0xFF) := by
  refine UInt32.toNat_inj.mp ?_
  rw [UInt32.toNat_and, UInt32.toNat_xor, UInt32.toNat_xor, UInt32.toNat_and, UInt32.toNat_and]
  exact Nat.and_xor_distrib_right

theorem crc32cStep_register_injective {byte : UInt8}
    (same : crc32cStep left byte = crc32cStep right byte) : left = right := by
  obtain ⟨low, high⟩ := crc32cStep_low same
  rw [and_xor_low, and_xor_low] at low
  exact low_shift_injective ((UInt32.xor_left_inj _).mp low) high

theorem crc32cStep_byte_injective {register : UInt32} {left right : UInt8}
    (same : crc32cStep register left = crc32cStep register right) : left = right := by
  obtain ⟨low, _⟩ := crc32cStep_low same
  rw [and_xor_low, and_xor_low] at low
  have bytes := congrArg UInt32.toNat ((UInt32.xor_right_inj _).mp low)
  rw [UInt32.toNat_and, UInt32.toNat_and, UInt8.toNat_toUInt32, UInt8.toNat_toUInt32] at bytes
  change left.toNat &&& (2 ^ 8 - 1) = right.toNat &&& (2 ^ 8 - 1) at bytes
  rw [Nat.and_two_pow_sub_one_eq_mod, Nat.and_two_pow_sub_one_eq_mod, Nat.mod_eq_of_lt left.toNat_lt,
    Nat.mod_eq_of_lt right.toNat_lt] at bytes
  exact UInt8.toNat_inj.mp bytes

theorem crc32cRegister_injective {bytes : Bytes}
    (same : crc32cRegister left bytes = crc32cRegister right bytes) : left = right := by
  induction bytes generalizing left right with
  | nil => exact same
  | cons byte bytes ih => exact crc32cStep_register_injective (ih same)

theorem crc32c_ne_of_byte_ne (front rest : Bytes) {left right : UInt8} (different : left ≠ right) :
    crc32c (front ++ left :: rest) ≠ crc32c (front ++ right :: rest) := by
  intro same
  rw [crc32c_eq_register, crc32c_eq_register, crc32cRegister_append, crc32cRegister_append, crc32cRegister_cons,
    crc32cRegister_cons] at same
  exact different (crc32cStep_byte_injective (crc32cRegister_injective ((UInt32.xor_left_inj _).mp same)))

end Bytes
