import TorrentMq.Storage.RecordBatchProperties

/-!
# The record batch codec

Which batches are read back from their own wire form: those whose length fits
into the field that it is written to.
-/

set_option autoImplicit false

namespace TorrentMq.Storage

open Bytes Reader List

theorem fitsInt_readInt (width : Nat) (bytes : Bytes) : FitsInt width (readInt width bytes).1 := by
  rw [readInt]
  exact fitsInt_decodeInt width (bytes.take width)

namespace RecordBatch

/-- The limits of the reader, and of the types of the wire form. -/
structure Encodable (batch : RecordBatch) : Prop where
  count : batch.records.length ≤ 100000
  headers : ∀ record ∈ batch.records, record.headers.length ≤ 1000
  offset : FitsInt 8 batch.baseOffset
  epoch : FitsInt 4 batch.partitionLeaderEpoch.toInt
  compression : batch.compression = .none
  delta : batch.lastOffsetDelta = 0 ∨ batch.lastOffsetDelta.toInt + 1 = batch.records.length

/-- Two batches agree in the fields of a batch, and in what their records hold. -/
structure Agrees (restored batch : RecordBatch) : Prop where
  baseOffset : restored.baseOffset = batch.baseOffset
  partitionLeaderEpoch : restored.partitionLeaderEpoch = batch.partitionLeaderEpoch
  compression : restored.compression = batch.compression
  attributes : restored.attributes = batch.attributes
  producerId : restored.producerId = batch.producerId
  producerEpoch : restored.producerEpoch = batch.producerEpoch
  baseSequence : restored.baseSequence = batch.baseSequence
  baseTimestamp : restored.baseTimestamp = batch.baseTimestamp
  maxTimestamp : restored.maxTimestamp = batch.maxTimestamp
  lastOffsetDelta : restored.lastOffsetDelta = batch.lastOffsetDelta
  recordCount : restored.recordCount.toInt = batch.records.length
  records : restored.RestoredFrom batch batch.baseOffset

def RoundTrips (batch : RecordBatch) : Prop :=
  ∃ restored, deserializeBatch batch.serializeBatch = .ok restored ∧ restored.Agrees batch

theorem length_readBack (batch front : RecordBatch) (i : Nat) (records : List Record) :
    (batch.readBack front i records).length = records.length := by
  induction records generalizing i with
  | nil => rfl
  | cons record records ih => rw [readBack, length_cons, length_cons, ih]

theorem agrees_readAs {batch : RecordBatch} (encodable : batch.Encodable) (crc : UInt32) :
    (batch.readAs batch.baseOffset (decodeInt 4 (encodeInt 4 batch.partitionLeaderEpoch.toInt)) crc).Agrees batch where
  baseOffset := rfl
  partitionLeaderEpoch := by
    rw [decodeInt_encodeInt encodable.epoch]
    exact Int64.ofInt_toInt _
  compression := encodable.compression.symm
  attributes := rfl
  producerId := rfl
  producerEpoch := rfl
  baseSequence := rfl
  baseTimestamp := rfl
  maxTimestamp := rfl
  lastOffsetDelta := rfl
  recordCount := by
    have length := encodable.count
    rw [readAs]
    dsimp only
    rw [length_readBack]
    exact Int32.toInt_ofNat_of_lt (by omega)
  records := by
    have agrees : batch.DeltaAgrees := by
      cases encodable.delta with
      | inl zero =>
        refine .inl ?_
        rw [zero]
        decide
      | inr last => exact .inr last
    unfold readAs
    generalize decodeInt 4 (encodeInt 4 batch.partitionLeaderEpoch.toInt) = epoch
    constructor
    · exact @content_readBack batch (batch.readFront batch.baseOffset epoch crc) rfl 0 batch.records
    · have deltas := @offsets_readBack batch (batch.readFront batch.baseOffset epoch crc) batch.records 0
        fun j _ below => toInt_offDelta agrees encodable.count (by omega)
      rwa [← range_eq_range'] at deltas

theorem length_of_deserializeBatch {bytes : Bytes} {batch : RecordBatch}
    (accepted : deserializeBatch bytes = .ok batch) : bytes.length < 2 ^ 31 + 12 := by
  unfold deserializeBatch at accepted
  split at accepted
  · cases accepted
  dsimp only at accepted
  split at accepted
  · cases accepted
  next same =>
    have fits := fitsInt_readInt 4 (readInt 8 bytes).2
    unfold FitsInt at fits
    omega

/-- A batch is read back from its own wire form just where that is short enough. -/
theorem roundTrips_iff {batch : RecordBatch} (encodable : batch.Encodable) :
    batch.RoundTrips ↔ batch.serializeBatch.length < 2 ^ 31 + 12 := by
  constructor
  · rintro ⟨restored, accepted, -⟩
    exact length_of_deserializeBatch accepted
  · intro short
    rw [length_serializeBatch] at short
    have read := deserializeBatch_front encodable.count encodable.headers (by omega) encodable.offset
      (.inr (@rfl _ (crc32c batch.serializeBody)))
    rw [← serializeBatch_eq] at read
    exact ⟨_, read, agrees_readAs encodable _⟩

def smallBatch : RecordBatch :=
  { baseOffset := 7
    baseTimestamp := 1000
    maxTimestamp := 1005
    lastOffsetDelta := 1
    partitionLeaderEpoch := 3
    records :=
      [{ value := [98, 99], timestamp := 1000, headers := [⟨[104], [105]⟩] }, { key := [97], timestamp := 1005 }] }

theorem roundTrips_smallBatch : smallBatch.RoundTrips := by
  refine (roundTrips_iff ⟨?_, ?_, ?_, ?_, rfl, ?_⟩).mpr ?_ <;> decide +kernel

def longBatch (length : Nat) : RecordBatch := { records := [{ value := List.replicate length 0 }] }

theorem encodable_longBatch (length : Nat) : (longBatch length).Encodable where
  count := by
    rw [longBatch, length_singleton]
    decide
  headers := by
    intro record member
    rw [mem_singleton.mp member]
    exact Nat.zero_le _
  offset := by
    change FitsInt 8 kInvalidOffset
    decide
  epoch := by
    change FitsInt 4 (0 : Int64).toInt
    decide
  compression := rfl
  delta := .inl rfl

theorem length_longBatch (length : Nat) : length ≤ (longBatch length).serializeBatch.length := by
  rw [length_serializeBatch, serializeBody_eq (encodable_longBatch length).count]
  simp only [longBatch, serializeRecords, serializeRecord, length_append, length_cons, length_writeBlock,
    length_replicate]
  omega

/-- The length field of a batch with a value of so many bytes does not hold its length. -/
theorem not_roundTrips_longBatch : ¬∀ batch : RecordBatch, batch.Encodable → batch.RoundTrips := by
  intro claim
  obtain ⟨restored, accepted, -⟩ := claim (longBatch (2 ^ 31 + 12)) (encodable_longBatch _)
  have short := length_of_deserializeBatch accepted
  have long := length_longBatch (2 ^ 31 + 12)
  omega

end RecordBatch

end TorrentMq.Storage
