import Mathlib.Algebra.GroupWithZero.Nat
import Mathlib.Algebra.Ring.Int.Defs
import Mathlib.Data.Int.Order.Basic
import Mathlib.Data.List.Basic

/-!
# Bytes

Fixed-width little-endian numbers, the byte contents of a file, and CRC-32C.
-/

set_option autoImplicit false

/-- A byte string. -/
abbrev Bytes := List UInt8

namespace Bytes

open List

def encode : Nat → Nat → Bytes
  | 0, _ => []
  | width + 1, value => UInt8.ofNat value :: encode width (value / 256)

def decode : Bytes → Nat
  | [] => 0
  | byte :: bytes => byte.toNat + 256 * decode bytes

def encodeInt (width : Nat) (value : Int) : Bytes :=
  encode width (value % (256 ^ width : Nat)).toNat

def decodeInt (width : Nat) (bytes : Bytes) : Int :=
  Int.bmod (decode bytes) (256 ^ width)

/-- The number fits into a two's complement of so many bytes. -/
def FitsInt (width : Nat) (value : Int) : Prop :=
  -(256 ^ width : Nat) ≤ 2 * value ∧ 2 * value < (256 ^ width : Nat)

instance (width : Nat) (value : Int) : Decidable (FitsInt width value) :=
  inferInstanceAs (Decidable (_ ∧ _))

@[simp] theorem length_encode (width value : Nat) : (encode width value).length = width := by
  induction width generalizing value with
  | zero => rfl
  | succ width ih => rw [encode, length_cons, ih]

@[simp] theorem length_encodeInt (width : Nat) (value : Int) : (encodeInt width value).length = width :=
  length_encode width _

theorem length_flatMap_encodeInt (width : Nat) (values : List Int) :
    (values.flatMap (encodeInt width)).length = width * values.length := by
  induction values with
  | nil => rfl
  | cons value values ih =>
    rw [flatMap_cons, length_append, ih, length_encodeInt, length_cons, Nat.mul_succ]
    omega

theorem decode_encode (width value : Nat) : decode (encode width value) = value % 256 ^ width := by
  induction width generalizing value with
  | zero => rw [encode, decode, Nat.pow_zero, Nat.mod_one]
  | succ width ih =>
    have byte : (UInt8.ofNat value).toNat = value % 256 := UInt8.toNat_ofNat'
    rw [encode, decode, ih, byte, Nat.pow_succ', Nat.mod_mul]

variable {width : Nat}

theorem decode_encode_of_lt {value : Nat} (short : value < 256 ^ width) :
    decode (encode width value) = value := by
  rw [decode_encode, Nat.mod_eq_of_lt short]

theorem decode_lt (bytes : Bytes) : decode bytes < 256 ^ bytes.length := by
  induction bytes with
  | nil => exact Nat.one_pos
  | cons byte bytes ih =>
    have := byte.toNat_lt
    rw [decode, length_cons, Nat.pow_succ]
    omega

theorem decode_append (front rest : Bytes) :
    decode (front ++ rest) = decode front + 256 ^ front.length * decode rest := by
  induction front with
  | nil => simp [decode]
  | cons byte front ih =>
    rw [cons_append, decode, ih, decode, length_cons, Nat.pow_succ', Nat.mul_assoc, Nat.mul_add,
      Nat.add_assoc]

theorem encode_add (low high value : Nat) :
    encode (low + high) value = encode low value ++ encode high (value / 256 ^ low) := by
  induction low generalizing value with
  | zero => simp [encode]
  | succ low ih =>
    rw [Nat.succ_add, encode, ih, encode, cons_append, Nat.div_div_eq_div_mul, Nat.pow_succ']

theorem decodeInt_encodeInt {value : Int} (fits : FitsInt width value) :
    decodeInt width (encodeInt width value) = value := by
  have positive : (0 : Int) < (256 ^ width : Nat) := Int.natCast_pos.mpr (Nat.pow_pos (by omega))
  have nonneg := Int.emod_nonneg value (by omega : ((256 ^ width : Nat) : Int) ≠ 0)
  have below := Int.emod_lt_of_pos value positive
  have stored : (decode (encodeInt width value) : Int) = value % (256 ^ width : Nat) := by
    rw [encodeInt, decode_encode_of_lt (by omega), Int.toNat_of_nonneg nonneg]
  rw [decodeInt, stored, Int.emod_bmod]
  obtain ⟨lower, upper⟩ := fits
  exact Int.bmod_eq_of_le (by omega) (by omega)

theorem encode_decode (bytes : Bytes) : encode bytes.length (decode bytes) = bytes := by
  induction bytes with
  | nil => rfl
  | cons byte bytes ih =>
    have low := byte.toNat_lt
    have first : UInt8.ofNat (byte.toNat + 256 * decode bytes) = byte := by
      refine UInt8.toNat_inj.mp ?_
      rw [UInt8.toNat_ofNat', Nat.add_mul_mod_self_left, Nat.mod_eq_of_lt low]
    have rest : (byte.toNat + 256 * decode bytes) / 256 = decode bytes := by omega
    rw [length_cons, decode, encode, first, rest, ih]

theorem fitsInt_decodeInt (width : Nat) (bytes : Bytes) : FitsInt width (decodeInt width bytes) := by
  have positive : 0 < 256 ^ width := Nat.pow_pos (by omega)
  have lower := @Int.le_bmod (decode bytes) _ positive
  have upper := @Int.bmod_lt (decode bytes) _ positive
  unfold FitsInt decodeInt
  omega

theorem encodeInt_decodeInt {bytes : Bytes} (length : bytes.length = width) :
    encodeInt width (decodeInt width bytes) = bytes := by
  have short := decode_lt bytes
  rw [length] at short
  have stored : ((decode bytes : Int) % (256 ^ width : Nat)).toNat = decode bytes := by
    rw [Int.emod_eq_of_lt (by omega) (by omega), Int.toNat_natCast]
  unfold encodeInt decodeInt
  rw [Int.bmod_emod, stored, ← length, encode_decode]

def readNat (width : Nat) (bytes : Bytes) : Nat × Bytes :=
  (decode (bytes.take width), bytes.drop width)

def readInt (width : Nat) (bytes : Bytes) : Int × Bytes :=
  (decodeInt width (bytes.take width), bytes.drop width)

theorem readNat_append {field : Bytes} (length : field.length = width) (rest : Bytes) :
    readNat width (field ++ rest) = (decode field, rest) := by
  rw [readNat, take_left' length, drop_left' length]

theorem readNat_encode_append {value : Nat} (short : value < 256 ^ width) (rest : Bytes) :
    readNat width (encode width value ++ rest) = (value, rest) := by
  rw [readNat_append (length_encode width value), decode_encode_of_lt short]

theorem readInt_append {field : Bytes} (length : field.length = width) (rest : Bytes) :
    readInt width (field ++ rest) = (decodeInt width field, rest) := by
  rw [readInt, take_left' length, drop_left' length]

theorem readInt_encodeInt_append {value : Int} (fits : FitsInt width value)
    (rest : Bytes) : readInt width (encodeInt width value ++ rest) = (value, rest) := by
  rw [readInt_append (length_encodeInt width value), decodeInt_encodeInt fits]

def pread (file : Bytes) (offset count : Nat) : Bytes := (file.drop offset).take count

theorem pread_append_right (front rest : Bytes) (offset count : Nat) :
    pread (front ++ rest) (front.length + offset) count = pread rest offset count := by
  rw [pread, drop_append, drop_eq_nil_of_le (Nat.le_add_right _ _), nil_append,
    Nat.add_sub_cancel_left, pread]

theorem pread_left (field rest : Bytes) : pread (field ++ rest) 0 field.length = field := by
  rw [pread, drop_zero, take_left' rfl]

def ftruncate (file : Bytes) (size : Nat) : Bytes :=
  file.take size ++ List.replicate (size - file.length) 0

variable {file : Bytes}

theorem ftruncate_of_le {size : Nat} (longer : file.length ≤ size) :
    ftruncate file size = file ++ List.replicate (size - file.length) 0 := by
  rw [ftruncate, take_of_length_le longer]

def pwrite (file : Bytes) (offset : Nat) (block : Bytes) : Bytes :=
  file.take offset ++ (List.replicate (offset - file.length) 0 ++ (block ++ file.drop (offset + block.length)))

variable {block : Bytes}

theorem pwrite_append (front old rest : Bytes) (same : old.length = block.length) :
    pwrite (front ++ (old ++ rest)) front.length block = front ++ (block ++ rest) := by
  have gap : front.length - (front ++ (old ++ rest)).length = 0 := by
    rw [length_append]
    omega
  have behind : (front ++ (old ++ rest)).drop (front.length + block.length) = rest := by
    rw [← same, ← append_assoc, drop_left' length_append]
  rw [pwrite, take_left' rfl, gap, replicate_zero, nil_append, behind]

variable {offset : Nat}

section

variable (stored : block <+: file.drop offset)

include stored

theorem pread_of_stored
    {front : Bytes} (starts : front <+: block) : pread file offset front.length = front := by
  obtain ⟨rest, split⟩ := starts.trans stored
  rw [pread, ← split, take_left' rfl]

theorem stored_append
    (more : Bytes) : block <+: (file ++ more).drop offset := by
  rw [drop_append]
  exact stored.trans (prefix_append _ _)

theorem stored_ftruncate {size : Nat} (inside : offset + block.length ≤ size) :
    block <+: (ftruncate file size).drop offset := by
  have front : block <+: (file.take size).drop offset := by
    rw [drop_take, prefix_take_iff]
    exact ⟨stored, by omega⟩
  exact stored_append front _

end

def crc32cTable (index : UInt32) : UInt32 :=
  (List.range 8).foldl
    (fun crc _ => if crc &&& 1 = 1 then (crc >>> 1) ^^^ 0x82F63B78 else crc >>> 1) index

def crc32c (bytes : Bytes) : UInt32 :=
  bytes.foldl (fun crc byte => crc32cTable ((crc ^^^ byte.toUInt32) &&& 0xFF) ^^^ (crc >>> 8))
    0xFFFFFFFF ^^^ 0xFFFFFFFF

def crc32cRegister (register : UInt32) (bytes : Bytes) : UInt32 :=
  bytes.foldl (fun crc byte => crc32cTable ((crc ^^^ byte.toUInt32) &&& 0xFF) ^^^ (crc >>> 8)) register

theorem crc32c_eq_register (bytes : Bytes) :
    crc32c bytes = crc32cRegister 0xFFFFFFFF bytes ^^^ 0xFFFFFFFF := rfl

theorem crc32cRegister_append (register : UInt32) (front rest : Bytes) :
    crc32cRegister register (front ++ rest) = crc32cRegister (crc32cRegister register front) rest :=
  foldl_append

end Bytes
