import TorrentMq.Storage.RecordBatch

/-! What is read back of a serialized batch once its offset has been patched in. -/

set_option autoImplicit false

namespace TorrentMq.Storage

open Bytes Reader List Int32

theorem fitsInt_of_length {length : Nat} (short : length < 2 ^ 31) : FitsInt 4 (length : Int) := by
  unfold FitsInt
  omega

theorem fitsInt_int16 (value : Int16) : FitsInt 2 value.toInt := by
  have lower := Int16.le_toInt value
  have upper := Int16.toInt_lt value
  unfold FitsInt
  omega

theorem fitsInt_int32 (value : Int32) : FitsInt 4 value.toInt := by
  have lower := le_toInt value
  have upper := toInt_lt value
  unfold FitsInt
  omega

theorem fitsInt_int64 (value : Int64) : FitsInt 8 value.toInt := by
  have lower := Int64.le_toInt value
  have upper := Int64.toInt_lt value
  unfold FitsInt
  omega

theorem reads_readSvarint (error : BatchError) (value : Int64) :
    Reads (readSvarint error) (writeSvarint64 value) value := by
  intro rest
  unfold readSvarint
  rw [StateT.run, readSvarint64_writeSvarint64]
  rfl

@[simp] theorem length_writeBlock (block : Bytes) : (writeBlock block).length = 4 + block.length := by
  rw [writeBlock, length_append, length_encodeInt]

theorem reads_readBlock {minimum : Int} (allowed : minimum ≤ 0) (error : Int → BatchError)
    {block : Bytes} (short : block.length < 2 ^ 31) :
    Reads (readBlock minimum error) (writeBlock block) block := by
  refine (reads_int (fitsInt_of_length short)).bind ?_
  rw [if_neg (by omega), Int.toNat_natCast]
  exact (reads_block block).needing _ le_rfl

theorem reads_readHeaders (i : Nat) {headers : List RecordHeader} (h : Nat)
    (short : (headers.flatMap serializeHeader).length < 2 ^ 31) :
    Reads (readHeaders i headers.length h) (headers.flatMap serializeHeader) headers := by
  induction headers generalizing h with
  | nil => exact Reads.pure []
  | cons header headers ih =>
    rw [flatMap_cons, length_append] at short
    have header_length : (serializeHeader header).length = 4 + header.key.length + (4 + header.value.length) := by
      rw [serializeHeader, length_append, length_writeBlock, length_writeBlock]
    rw [flatMap_cons, serializeHeader, append_assoc]
    refine Reads.needing _ ?_ (by rw [length_append, length_writeBlock]; omega)
    refine (reads_readBlock le_rfl _ (by omega)).bind ?_
    refine Reads.needing _ ?_ (by rw [length_append, length_writeBlock]; omega)
    refine (reads_readBlock le_rfl _ (by omega)).bind ?_
    exact (ih (h + 1) (by omega)).map

def RecordBatch.readBack (batch front : RecordBatch) : Nat → List Record → List Record
  | _, [] => []
  | i, record :: records =>
    front.recordAt i record.key record.value record.headers (record.timestamp - batch.baseTimestamp)
      (batch.offDelta i) :: batch.readBack front (i + 1) records

theorem reads_readRecords (batch front : RecordBatch) {records : List Record} (i : Nat)
    (headers : ∀ record ∈ records, record.headers.length ≤ 1000)
    (short : (batch.serializeRecords i records).length < 2 ^ 31) :
    Reads (readRecords front records.length i) (batch.serializeRecords i records)
      (batch.readBack front i records) := by
  induction records generalizing i with
  | nil => exact Reads.pure []
  | cons record records ih =>
    have few := headers record mem_cons_self
    rw [RecordBatch.serializeRecords, length_append, RecordBatch.serializeRecord] at short
    simp only [length_append, length_cons, length_encodeInt, length_writeBlock] at short
    rw [RecordBatch.serializeRecords, RecordBatch.serializeRecord, append_assoc]
    refine Reads.needing _ ?_ (by rw [length_append, length_encodeInt]; omega)
    refine (reads_int (fitsInt_of_length ?_)).bind ?_
    · simp only [length_append, length_cons, length_encodeInt, length_writeBlock]
      omega
    rw [if_neg (by omega), Int.toNat_natCast]
    refine Reads.needing _ (Reads.needing _ ?_ (by simp)) (by simp)
    simp only [append_assoc, cons_append]
    refine (reads_block [0]).bind ((reads_readSvarint _ _).bind ((reads_readSvarint _ _).bind ?_))
    refine Reads.needing _ ?_ (by rw [length_append, length_writeBlock]; omega)
    refine (reads_readBlock (by omega) _ (by omega)).bind ?_
    refine Reads.needing _ ?_ (by rw [length_append, length_writeBlock]; omega)
    refine (reads_readBlock (by omega) _ (by omega)).bind ?_
    refine Reads.needing _ ?_ (by rw [length_append, length_encodeInt]; omega)
    refine (reads_int (fitsInt_of_length (by omega))).bind ?_
    rw [if_neg (by omega), Int.toNat_natCast]
    refine (reads_readHeaders i 0 (by omega)).bind ?_
    have rest := ih (i + 1) (fun other member => headers other (mem_cons_of_mem record member)) (by omega)
    have narrow : (batch.offDelta i).toInt64.toInt32 = batch.offDelta i := toInt32_toInt64 _
    rw [RecordBatch.readBack, narrow]
    exact rest.map

namespace RecordBatch

def storedCrc (batch : RecordBatch) : UInt32 :=
  crc32c (encode 4 (crc32c batch.serializeBody).toNat ++ batch.serializeBody)

def front (batch : RecordBatch) (offset : Int) : Bytes :=
  encodeInt 8 offset ++ (encodeInt 4 (4 + 1 + 4 + batch.serializeBody.length : Nat) ++
  (encodeInt 4 batch.partitionLeaderEpoch.toInt ++ encodeInt 1 kRecordBatchMagic))

section

variable (batch : RecordBatch)

include batch

variable (offset : Int)

@[simp] theorem length_front : (batch.front offset).length = 17 := by
  simp [front]

theorem serializeBatch_eq : batch.serializeBatch =
    batch.front batch.baseOffset ++ (encode 4 (crc32c batch.serializeBody).toNat ++ batch.serializeBody) := by
  simp only [serializeBatch, front, append_assoc]

theorem pwrite_front (old offset : Int) (rest : Bytes) :
    pwrite (batch.front old ++ rest) 0 (encodeInt 8 offset) = batch.front offset ++ rest := by
  have written := fun rest => pwrite_append [] (encodeInt 8 old) rest
    (show (encodeInt 8 old).length = (encodeInt 8 offset).length by simp)
  simp only [nil_append, length_nil] at written
  simp only [front, append_assoc, written]

theorem assignOffset_serializeBatch :
    assignOffset offset batch.serializeBatch =
      batch.front offset ++ (encode 4 batch.storedCrc.toNat ++ batch.serializeBody) := by
  have covered : (batch.front offset ++ (encode 4 (crc32c batch.serializeBody).toNat ++ batch.serializeBody)).drop 17 =
      encode 4 (crc32c batch.serializeBody).toNat ++ batch.serializeBody :=
    drop_left' (length_front batch offset)
  have patched := pwrite_append (batch.front offset) (encode 4 (crc32c batch.serializeBody).toNat)
    batch.serializeBody (show _ = (encode 4 batch.storedCrc.toNat).length by simp)
  rw [length_front] at patched
  have longer : 17 < (batch.front offset ++
      (encode 4 (crc32c batch.serializeBody).toNat ++ batch.serializeBody)).length := by
    rw [length_append, length_front, length_append, length_encode]
    omega
  rw [storedCrc] at patched ⊢
  simp only [assignOffset, serializeBatch_eq, pwrite_front, longer, if_pos, covered]
  exact patched

@[simp] theorem length_serializeBatch :
    batch.serializeBatch.length = 21 + batch.serializeBody.length := by
  rw [serializeBatch_eq]
  simp
  omega

@[simp] theorem length_assignOffset :
    (assignOffset offset batch.serializeBatch).length = 21 + batch.serializeBody.length := by
  rw [assignOffset_serializeBatch]
  simp
  omega

end

def restoredFront (batch : RecordBatch) (offset : Int) : RecordBatch where
  baseOffset := offset
  baseTimestamp := batch.baseTimestamp
  maxTimestamp := batch.maxTimestamp
  lastOffsetDelta := batch.lastOffsetDelta
  attributes := batch.attributes
  crc := batch.storedCrc
  producerId := batch.producerId
  producerEpoch := batch.producerEpoch
  baseSequence := batch.baseSequence
  recordCount := batch.rcount
  partitionLeaderEpoch := Int64.ofInt (decodeInt 4 (encodeInt 4 batch.partitionLeaderEpoch.toInt))

def restored (batch : RecordBatch) (offset : Int) : RecordBatch :=
  let records := batch.readBack (batch.restoredFront offset) 0 batch.records
  { batch.restoredFront offset with recordCount := ofNat records.length, records }

/-- What reading a stored batch back demands of it: the limits of the reader, and that the checksum
over the first checksum happens to be one that the reader accepts. -/
@[mk_iff]
structure Restorable (batch : RecordBatch) : Prop where
  size : 4 + 1 + 4 + batch.serializeBody.length ≤ kMaxBatchBytes
  count : batch.records.length ≤ 100000
  headers : ∀ record ∈ batch.records, record.headers.length ≤ 1000
  checksum : batch.storedCrc = 0 ∨ batch.storedCrc = crc32c batch.serializeBody

instance (batch : RecordBatch) : Decidable batch.Restorable :=
  decidable_of_iff _ batch.restorable_iff.symm

theorem le_length_serializeBody (batch : RecordBatch) : 40 ≤ batch.serializeBody.length := by
  simp only [serializeBody, length_append, length_encodeInt]
  omega

variable {batch : RecordBatch}

theorem toInt_rcount (count : batch.records.length ≤ 100000) :
    batch.rcount.toInt = batch.records.length :=
  toInt_ofNat_of_lt (by omega)

theorem serializeBody_eq (count : batch.records.length ≤ 100000) :
    batch.serializeBody = encodeInt 2 batch.attributes.toInt ++ (encodeInt 4 batch.lastOffsetDelta.toInt ++
      (encodeInt 8 batch.baseTimestamp.toInt ++ (encodeInt 8 batch.maxTimestamp.toInt ++
      (encodeInt 8 batch.producerId.toInt ++ (encodeInt 2 batch.producerEpoch.toInt ++
      (encodeInt 4 batch.baseSequence.toInt ++ (encodeInt 4 batch.rcount.toInt ++
      batch.serializeRecords 0 batch.records))))))) := by
  rw [serializeBody, toInt_rcount count, Int.toNat_natCast, take_length]

def readFront (batch : RecordBatch) (offset epoch : Int) (crc : UInt32) : RecordBatch :=
  { batch.restoredFront offset with crc, partitionLeaderEpoch := Int64.ofInt epoch }

def readAs (batch : RecordBatch) (offset epoch : Int) (crc : UInt32) : RecordBatch :=
  let records := batch.readBack (batch.readFront offset epoch crc) 0 batch.records
  { batch.readFront offset epoch crc with recordCount := ofNat records.length, records }

section

variable {batch : RecordBatch} (some : batch.records.length ≤ 100000)
  (headers : ∀ record ∈ batch.records, record.headers.length ≤ 1000)
include some headers

theorem reads_readBodyAs (short : batch.serializeBody.length < 2 ^ 31) (offset epoch : Int) (crc : UInt32) :
    Reads (readBody offset epoch crc) batch.serializeBody (batch.readAs offset epoch crc) := by
  have body := serializeBody_eq some
  have count := toInt_rcount some
  rw [body] at short
  simp only [length_append, length_encodeInt] at short
  rw [body]
  refine (reads_int (fitsInt_int16 _)).bind ((reads_int (fitsInt_int32 _)).bind
    ((reads_int (fitsInt_int64 _)).bind ((reads_int (fitsInt_int64 _)).bind
    ((reads_int (fitsInt_int64 _)).bind ((reads_int (fitsInt_int16 _)).bind
    ((reads_int (fitsInt_int32 _)).bind ((reads_int (fitsInt_int32 _)).bind ?_)))))))
  rw [if_neg (by omega)]
  dsimp only
  simp only [Int16.ofInt_toInt, ofInt_toInt, Int64.ofInt_toInt]
  have records := reads_readRecords batch (batch.readFront offset epoch crc) 0 headers (by omega)
  rw [show batch.rcount.toInt.toNat = batch.records.length by omega]
  exact records.map

theorem deserializeBatch_front (short : 4 + 1 + 4 + batch.serializeBody.length < 2 ^ 31) {offset : Int}
    (fits : FitsInt 8 offset) {crc : UInt32} (checksum : crc = 0 ∨ crc = crc32c batch.serializeBody) :
    deserializeBatch (batch.front offset ++ (encode 4 crc.toNat ++ batch.serializeBody)) =
      .ok (batch.readAs offset (decodeInt 4 (encodeInt 4 batch.partitionLeaderEpoch.toInt)) crc) := by
  have whole := batch.le_length_serializeBody
  have length : (batch.front offset ++ (encode 4 crc.toNat ++ batch.serializeBody)).length =
      21 + batch.serializeBody.length := by
    rw [length_append, length_front, length_append, length_encode]
    omega
  have body := reads_readBodyAs some headers (by omega) offset
    (decodeInt 4 (encodeInt 4 batch.partitionLeaderEpoch.toInt)) crc []
  have stored : UInt32.ofNat crc.toNat = crc := UInt32.ofNat_toNat
  have accepted : ¬(crc ≠ 0 ∧ crc32c batch.serializeBody ≠ crc) := by
    rintro ⟨nonzero, differs⟩
    cases checksum with
    | inl zero => exact nonzero zero
    | inr same => exact differs same.symm
  rw [append_nil] at body
  rw [deserializeBatch, if_neg (by rw [length, kMinBatchHeaderSize]; omega), length]
  simp only [front, append_assoc]
  rw [readInt_encodeInt_append fits]
  dsimp only
  rw [readInt_encodeInt_append (fitsInt_of_length short)]
  dsimp only
  rw [if_neg (by omega), readInt_append (length_encodeInt 4 _)]
  dsimp only
  rw [readInt_encodeInt_append (by decide)]
  dsimp only
  rw [if_neg (not_not.mpr rfl), readNat_encode_append (UInt32.toNat_lt _)]
  dsimp only
  rw [stored, if_neg accepted]
  exact congrArg (fun read => Prod.fst <$> read) body

end

theorem deserializeBatch_assignOffset (restorable : batch.Restorable) {offset : Int}
    (fits : FitsInt 8 offset) :
    deserializeBatch (assignOffset offset batch.serializeBatch) = .ok (batch.restored offset) := by
  have small := restorable.size
  rw [kMaxBatchBytes] at small
  rw [assignOffset_serializeBatch]
  exact deserializeBatch_front restorable.count restorable.headers (by omega) fits restorable.checksum

end RecordBatch

def Record.content (record : Record) : Bytes × Bytes × List RecordHeader × Int64 :=
  (record.key, record.value, record.headers, record.timestamp)

namespace RecordBatch

variable {batch : RecordBatch}

theorem content_readBack {front : RecordBatch} (same : front.baseTimestamp = batch.baseTimestamp)
    (i : Nat) (records : List Record) :
    (batch.readBack front i records).map Record.content = records.map Record.content := by
  induction records generalizing i with
  | nil => rfl
  | cons record records ih =>
    have timestamp : front.baseTimestamp + (record.timestamp - batch.baseTimestamp) = record.timestamp := by
      rw [same, Int64.add_comm, Int64.sub_add_cancel]
    rw [readBack, map_cons, map_cons, ih, Record.content, recordAt, timestamp, Record.content]

/-- The last offset delta is left at zero, or it is that of the last record. -/
def DeltaAgrees (batch : RecordBatch) : Prop :=
  batch.lastOffsetDelta.toInt ≤ 0 ∨ batch.lastOffsetDelta.toInt + 1 = batch.records.length

instance (batch : RecordBatch) : Decidable batch.DeltaAgrees := inferInstanceAs (Decidable (_ ∨ _))

theorem toInt_offDelta (agrees : batch.DeltaAgrees)
    (count : batch.records.length ≤ 100000) {i : Nat} (inside : i < batch.records.length) :
    (batch.offDelta i).toInt = i := by
  have index : (ofNat i).toInt = i := toInt_ofNat_of_lt (by omega)
  have total := toInt_rcount count
  have last : (batch.rcount - 1).toInt = batch.records.length - 1 := by
    rw [toInt_sub, total]
    exact Int.bmod_eq_of_le (by simp; omega) (by simp; omega)
  unfold offDelta
  split
  next positive =>
    have above : 0 < batch.lastOffsetDelta.toInt := lt_iff_toInt_lt.mp positive
    split
    next final =>
      have same := congrArg toInt final
      rcases agrees with none | delta <;> omega
    next => exact index
  next => exact index

theorem offsets_readBack {front : RecordBatch} {records : List Record} {i : Nat}
    (deltas : ∀ j, i ≤ j → j < i + records.length → (batch.offDelta j).toInt = j) :
    (batch.readBack front i records).map (·.offset) =
      (List.range' i records.length).map fun j : Nat => front.baseOffset + j := by
  induction records generalizing i with
  | nil => rfl
  | cons record records ih =>
    have rest := @ih (i + 1) (fun j above below => deltas j (by omega) (by rw [length_cons]; omega))
    have first := deltas i le_rfl (by rw [length_cons]; omega)
    rw [readBack, map_cons, rest, length_cons, range'_succ, map_cons, recordAt, first]

def RestoredFrom (restored batch : RecordBatch) (offset : Int) : Prop :=
  restored.records.map Record.content = batch.records.map Record.content ∧
    restored.records.map (·.offset) = (List.range batch.records.length).map fun i : Nat => offset + i

theorem restoredFrom_restored (restorable : batch.Restorable)
    (agrees : batch.DeltaAgrees) (offset : Int) : (batch.restored offset).RestoredFrom batch offset := by
  constructor
  · exact @content_readBack batch (batch.restoredFront offset) rfl 0 batch.records
  · have deltas := @offsets_readBack batch (batch.restoredFront offset) batch.records 0
      fun j _ below => toInt_offDelta agrees restorable.count (by omega)
    rwa [← range_eq_range'] at deltas

end RecordBatch

end TorrentMq.Storage
