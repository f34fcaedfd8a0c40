import Mathlib.Data.Nat.Bits
import TorrentMq.Bytes.Basic

/-!
# Variable-length integers

Seven bits to a byte, lowest first, with the high bit on every byte but the
last; signed numbers are folded onto the unsigned ones by zigzag.
-/

set_option autoImplicit false

namespace Bytes

def writeUvarint : Nat → UInt64 → Bytes
  | 0, _ => []
  | width + 1, value =>
    if 0x80 ≤ value then (value ||| 0x80).toUInt8 :: writeUvarint width (value >>> 7)
    else [value.toUInt8]

def writeUvarint64 (value : UInt64) : Bytes := writeUvarint 10 value

def readUvarint : Nat → UInt64 → Nat → Bytes → Option (UInt64 × Bytes)
  | 0, _, _, _ => none
  | _ + 1, _, _, [] => none
  | width + 1, value, shift, byte :: bytes =>
    let value := value ||| ((byte &&& 0x7F).toUInt64 <<< UInt64.ofNat shift)
    if byte &&& 0x80 = 0 then some (value, bytes)
    else if 64 ≤ shift + 7 then none
    else readUvarint width value (shift + 7) bytes

def readUvarint64 (bytes : Bytes) : Option (UInt64 × Bytes) := readUvarint 10 0 0 bytes

section

variable (value : UInt64)

theorem low_bits : (value.toUInt8 &&& 0x7F).toNat = value.toNat % 128 := by
  rw [UInt8.toNat_and, UInt64.toNat_toUInt8, show (0x7F : UInt8).toNat = 2 ^ 7 - 1 by rfl,
    Nat.and_two_pow_sub_one_eq_mod]
  omega

theorem high_bit : value.toUInt8 &&& 0x80 = 0 ↔ value.toNat % 256 < 128 := by
  have bits : ∀ bits : BitVec 8, bits &&& 0x80#8 = 0#8 ↔ bits.toNat < 128 := by decide
  rw [← UInt8.toBitVec_inj, ← UInt64.toNat_toUInt8]
  exact bits value.toUInt8.toBitVec

theorem continued_low_bits : ((value ||| 0x80).toUInt8 &&& 0x7F).toNat = value.toNat % 128 := by
  have bits : ∀ bits : BitVec 8, (bits ||| 0x80#8) &&& 0x7F#8 = bits &&& 0x7F#8 := by decide
  rw [← low_bits, UInt64.toUInt8_or]
  exact congrArg BitVec.toNat (bits value.toUInt8.toBitVec)

theorem continued_high_bit : (value ||| 0x80).toUInt8 &&& 0x80 ≠ 0 := by
  have bits : ∀ bits : BitVec 8, (bits ||| 0x80#8) &&& 0x80#8 ≠ 0#8 := by decide
  rw [UInt64.toUInt8_or]
  intro cleared
  exact bits value.toUInt8.toBitVec (congrArg UInt8.toBitVec cleared)

end

theorem toNat_or_shifted {low : UInt64} {high : UInt8} {shift : Nat} (below : low.toNat < 2 ^ shift)
    (short : high.toNat * 2 ^ shift < 2 ^ 64) (inside : shift < 64) :
    (low ||| (high.toUInt64 <<< UInt64.ofNat shift)).toNat = low.toNat + high.toNat * 2 ^ shift := by
  have shifted : (high.toUInt64 <<< UInt64.ofNat shift).toNat = 2 ^ shift * high.toNat := by
    rw [UInt64.toNat_shiftLeft, UInt64.toNat_ofNat_of_lt' (Nat.lt_trans inside (by decide)), UInt8.toNat_toUInt64,
      Nat.mod_eq_of_lt inside, Nat.shiftLeft_eq, Nat.mod_eq_of_lt short, Nat.mul_comm]
  rw [UInt64.toNat_or, shifted, Nat.or_comm, ← Nat.two_pow_add_eq_or_of_lt below, Nat.mul_comm, Nat.add_comm]

theorem toNat_shifted_out (value : UInt64) : (value >>> 7).toNat = value.toNat / 128 := by
  rw [UInt64.toNat_shiftRight]
  exact Nat.shiftRight_eq_div_pow _ 7

private theorem readUvarint_last {value low : UInt64} {shift : Nat} (width : Nat) (rest : Bytes)
    (ends : ¬0x80 ≤ value) (below : low.toNat < 2 ^ shift) (inside : shift < 64)
    (short : low.toNat + value.toNat * 2 ^ shift < 2 ^ 64) :
    readUvarint (width + 1) low shift (writeUvarint (width + 1) value ++ rest) =
      some (UInt64.ofNat (low.toNat + value.toNat * 2 ^ shift), rest) := by
  have small : value.toNat < 128 := Nat.lt_of_not_le ends
  have bits : (value.toUInt8 &&& 0x7F).toNat = value.toNat := by rw [low_bits, Nat.mod_eq_of_lt small]
  have read := toNat_or_shifted below (by rw [bits]; omega) inside
  rw [bits] at read
  rw [writeUvarint, if_neg ends, List.singleton_append, readUvarint, if_pos ((high_bit value).mpr (by omega)),
    ← read, UInt64.ofNat_toNat]

theorem readUvarint_writeUvarint (width : Nat) (value low : UInt64) (shift : Nat) (rest : Bytes)
    (wide : value.toNat < 128 ^ (width + 1)) (below : low.toNat < 2 ^ shift) (inside : shift < 64)
    (short : low.toNat + value.toNat * 2 ^ shift < 2 ^ 64) :
    readUvarint (width + 1) low shift (writeUvarint (width + 1) value ++ rest) =
      some (UInt64.ofNat (low.toNat + value.toNat * 2 ^ shift), rest) := by
  induction width generalizing value low shift with
  | zero => exact readUvarint_last 0 rest (Nat.not_le_of_lt wide) below inside short
  | succ width ih =>
    by_cases continued : 0x80 ≤ value
    · have large : 128 ≤ value.toNat := continued
      have powers : 2 ^ (shift + 7) = 128 * 2 ^ shift := by rw [Nat.pow_add, Nat.mul_comm]
      have parts : value.toNat * 2 ^ shift = value.toNat % 128 * 2 ^ shift + value.toNat / 128 * 2 ^ (shift + 7) := by
        rw [powers, ← Nat.mul_assoc, ← Nat.add_mul, Nat.mul_comm _ 128, Nat.mod_add_div]
      have small : value.toNat % 128 * 2 ^ shift ≤ 127 * 2 ^ shift :=
        Nat.mul_le_mul_right _ (by omega)
      have high : 1 * 2 ^ (shift + 7) ≤ value.toNat / 128 * 2 ^ (shift + 7) :=
        Nat.mul_le_mul_right _ (by omega)
      have further : shift + 7 < 64 := (Nat.pow_lt_pow_iff_right (by decide : 1 < 2)).mp (by omega)
      have bits := continued_low_bits value
      have read := toNat_or_shifted below (show ((value ||| 0x80).toUInt8 &&& 0x7F).toNat * 2 ^ shift < 2 ^ 64
        by rw [bits]; omega) inside
      rw [bits] at read
      rw [writeUvarint, if_pos continued, List.cons_append, readUvarint, if_neg (continued_high_bit value),
        if_neg (by omega), ih _ _ _ (by rw [toNat_shifted_out, Nat.div_lt_iff_lt_mul (by decide)]; exact wide)
          (by rw [read]; omega) further (by rw [read, toNat_shifted_out]; omega),
        read, toNat_shifted_out, parts, Nat.add_assoc]
    · exact readUvarint_last (width + 1) rest continued below inside short

theorem readUvarint64_writeUvarint64 (value : UInt64) (rest : Bytes) :
    readUvarint64 (writeUvarint64 value ++ rest) = some (value, rest) := by
  have bound := value.toNat_lt
  have read := readUvarint_writeUvarint 9 value 0 0 rest (by omega) (by decide) (by decide) (by simpa using bound)
  have whole : UInt64.ofNat ((0 : UInt64).toNat + value.toNat * 2 ^ 0) = value := by simp
  rwa [whole] at read

def zigzag (value : Int64) : UInt64 := ((value <<< 1) ^^^ (value >>> 63)).toUInt64

def unzigzag (code : UInt64) : Int64 :=
  let value := (code >>> 1).toInt64
  if code &&& 1 = 0 then value else ~~~value

def writeSvarint64 (value : Int64) : Bytes := writeUvarint64 (zigzag value)

def readSvarint64 (bytes : Bytes) : Option (Int64 × Bytes) :=
  (readUvarint64 bytes).map fun read => (unzigzag read.1, read.2)

private theorem zigzag_bits (value : BitVec 64) :
    ((value <<< 1) ^^^ value.sshiftRight 63) >>> 1 = if value.msb then ~~~value else value := by
  apply BitVec.eq_of_getLsbD_eq
  intro bit inside
  rcases Nat.lt_or_ge bit 63 with below | last
  · have further : ¬63 + (1 + bit) < 64 := by omega
    have position : 1 + bit < 64 := by omega
    cases sign : value.msb <;>
      simp [BitVec.getElem_sshiftRight, further, position, sign, inside]
  · obtain rfl : bit = 63 := by omega
    have top : value[63] = value.msb := by simp [BitVec.msb_eq_getLsbD_last]
    cases sign : value.msb <;>
      simp [top, sign]

private theorem zigzag_sign (value : BitVec 64) :
    ((value <<< 1) ^^^ value.sshiftRight 63) &&& 1#64 = 0#64 ↔ value.msb = false := by
  have low : ((value <<< 1) ^^^ value.sshiftRight 63).getLsbD 0 = value.msb := by
    simp [BitVec.getElem_sshiftRight, BitVec.msb_eq_getLsbD_last]
  rw [BitVec.and_one_eq_setWidth_ofBool_getLsbD, low]
  cases value.msb <;> decide

theorem unzigzag_zigzag (value : Int64) : unzigzag (zigzag value) = value := by
  have code : (zigzag value).toBitVec = (value.toBitVec <<< 1) ^^^ value.toBitVec.sshiftRight 63 := by
    simp [zigzag]
  have parity : zigzag value &&& 1 = 0 ↔ value.toBitVec.msb = false := by
    rw [← UInt64.toBitVec_inj, ← zigzag_sign, ← code]
    rfl
  have half : ((zigzag value) >>> 1).toInt64.toBitVec =
      if value.toBitVec.msb then ~~~value.toBitVec else value.toBitVec := by
    rw [← zigzag_bits, ← code]
    simp
  apply Int64.toBitVec_inj.mp
  rw [unzigzag]
  cases sign : value.toBitVec.msb with
  | false =>
    rw [if_pos (parity.mpr sign), half, sign]
    rfl
  | true =>
    rw [if_neg (by rw [parity, sign]; decide), Int64.toBitVec_not, half, sign]
    exact BitVec.not_not

theorem readSvarint64_writeSvarint64 (value : Int64) (rest : Bytes) :
    readSvarint64 (writeSvarint64 value ++ rest) = some (value, rest) := by
  rw [readSvarint64, writeSvarint64, readUvarint64_writeUvarint64, Option.map_some, unzigzag_zigzag]

end Bytes
