import TorrentMq.Network.ProtocolSerializer

/-!
# Wire types

Readers of the big-endian numbers and the varints of the protocol, and what
they make of a value that has been written.
-/

set_option autoImplicit false

namespace TorrentMq.Network

open Bytes Reader List

@[simp] theorem length_writeInt8 (value : Int8) : (writeInt8 value).length = 1 := length_encodeBig 1 _

@[simp] theorem length_writeInt16Be (value : Int16) : (writeInt16Be value).length = 2 := length_encodeBig 2 _

@[simp] theorem length_writeInt32Be (value : Int32) : (writeInt32Be value).length = 4 := length_encodeBig 4 _

@[simp] theorem length_writeInt64Be (value : Int64) : (writeInt64Be value).length = 8 := length_encodeBig 8 _

@[simp] theorem length_writeUint32Be (value : UInt32) : (writeUint32Be value).length = 4 := length_encodeBig 4 _

section

variable {length : Nat} (short : length < 2 ^ 31)
include short

theorem toInt_length : (Int64.ofNat length).toInt = length :=
  Int64.toInt_ofNat_of_lt (by omega)

theorem not_length_neg : 0 ≤ Int64.ofNat length := by
  rw [Int64.le_iff_toInt_le, toInt_length short]
  exact Int.natCast_nonneg length

theorem toInt_int32_length : (Int32.ofNat length).toInt = length :=
  Int32.toInt_ofNat_of_lt short

theorem not_int32_length_neg : ¬Int32.ofNat length < 0 := by
  rw [Int32.lt_iff_toInt_lt, toInt_int32_length short, Int32.toInt_zero]
  omega

end

theorem not_int16_length_neg {length : Nat} (short : length < 32768) : ¬Int16.ofNat length < 0 := by
  rw [Int16.lt_iff_toInt_lt, Int16.toInt_ofNat_of_lt short, Int16.toInt_zero]
  omega

theorem writeString_eq {str : Bytes} (short : str.length < 32768) :
    writeString str = writeInt16Be (Int16.ofNat str.length) ++ str := by
  have length : (Int16.ofNat str.length).toInt = str.length := Int16.toInt_ofNat_of_lt short
  unfold writeString
  dsimp only
  congr 1
  split
  next => rw [length, Int.toNat_natCast, take_length]
  next empty =>
    rw [Int16.lt_iff_toInt_lt, length, Int16.toInt_zero] at empty
    exact (List.eq_nil_of_length_eq_zero (by omega)).symm

section Readers

variable {Error : Type} (otherwise : Bytes → Error)

def readBig (width : Nat) : StateT Bytes (Except Error) Nat := fun bytes =>
  if bytes.length < width then .error (otherwise bytes)
  else .ok (decodeBig (bytes.take width), bytes.drop width)

def readInt8 : StateT Bytes (Except Error) Int8 := do
  let raw ← readBig otherwise 1
  return (UInt8.ofNat raw).toInt8

def readInt16Be : StateT Bytes (Except Error) Int16 := do
  let raw ← readBig otherwise 2
  return (UInt16.ofNat raw).toInt16

def readInt32Be : StateT Bytes (Except Error) Int32 := do
  let raw ← readBig otherwise 4
  return (UInt32.ofNat raw).toInt32

def readInt64Be : StateT Bytes (Except Error) Int64 := do
  let raw ← readBig otherwise 8
  return (UInt64.ofNat raw).toInt64

def readSignedVarint (otherwise : Nat → Error) : StateT Bytes (Except Error) Int64 := fun bytes =>
  match readSvarint64 bytes with
  | none => .error (otherwise (bytes.length - 10))
  | some read => .ok read

theorem reads_readBig {width value : Nat} (short : value < 256 ^ width) :
    Reads (readBig otherwise width) (encodeBig width value) value := by
  intro rest
  have length := length_encodeBig width value
  have enough : ¬(encodeBig width value ++ rest).length < width := by
    rw [length_append, length]
    omega
  change (if (encodeBig width value ++ rest).length < width then _ else _) = _
  rw [if_neg enough, take_left' length, drop_left' length, decodeBig_encodeBig short]
  rfl

theorem reads_int8 (value : Int8) : Reads (readInt8 otherwise) (writeInt8 value) value := by
  have short : value.toUInt8.toNat < 256 ^ 1 := value.toUInt8.toNat_lt
  have read := @Reads.map _ _ _ _ _ _ (fun raw => (UInt8.ofNat raw).toInt8) _ _ (reads_readBig otherwise short)
  rwa [UInt8.ofNat_toNat, Int8.toInt8_toUInt8] at read

theorem reads_int16 (value : Int16) : Reads (readInt16Be otherwise) (writeInt16Be value) value := by
  have short : value.toUInt16.toNat < 256 ^ 2 := value.toUInt16.toNat_lt
  have read := @Reads.map _ _ _ _ _ _ (fun raw => (UInt16.ofNat raw).toInt16) _ _ (reads_readBig otherwise short)
  rwa [UInt16.ofNat_toNat, Int16.toInt16_toUInt16] at read

theorem reads_uint32 (value : UInt32) : Reads (readInt32Be otherwise) (writeUint32Be value) value.toInt32 := by
  have short : value.toNat < 256 ^ 4 := value.toNat_lt
  have read := @Reads.map _ _ _ _ _ _ (fun raw => (UInt32.ofNat raw).toInt32) _ _ (reads_readBig otherwise short)
  rwa [UInt32.ofNat_toNat] at read

theorem reads_int32 (value : Int32) : Reads (readInt32Be otherwise) (writeInt32Be value) value :=
  reads_uint32 otherwise value.toUInt32

theorem reads_int64 (value : Int64) : Reads (readInt64Be otherwise) (writeInt64Be value) value := by
  have short : value.toUInt64.toNat < 256 ^ 8 := value.toUInt64.toNat_lt
  have read := @Reads.map _ _ _ _ _ _ (fun raw => (UInt64.ofNat raw).toInt64) _ _ (reads_readBig otherwise short)
  rwa [UInt64.ofNat_toNat, Int64.toInt64_toUInt64] at read

theorem reads_signedVarint (otherwise : Nat → Error) (value : Int64) :
    Reads (readSignedVarint otherwise) (writeSignedVarint value) value := by
  intro rest
  change (match readSvarint64 (writeSvarint64 value ++ rest) with
    | none => _
    | some read => _) = _
  rw [readSvarint64_writeSvarint64]
  rfl

end Readers

end TorrentMq.Network
