import TorrentMq.Bytes.Reader
import TorrentMq.Bytes.Varint

/-!
# Record batches

The wire form in which a segment stores its batches: how one is serialized,
how its base offset is patched in, and how it is read back.
-/

set_option autoImplicit false

namespace TorrentMq.Storage

open Bytes Reader

def kInvalidOffset : Int := -1

def kRecordBatchMagic : Int := 2

def kMinBatchHeaderSize : Nat := 61

def kMaxBatchBytes : Nat := 134217728

inductive CompressionType where
  | none
  | gzip
  | snappy
  | lz4
  | zstd
deriving DecidableEq

structure RecordHeader where
  key : Bytes
  value : Bytes
deriving DecidableEq

structure Record where
  key : Bytes := []
  value : Bytes := []
  headers : List RecordHeader := []
  timestamp : Int64 := 0
  offset : Int := kInvalidOffset
  partitionId : Int32 := 0
  sequence : Int32 := 0
  producerId : Int64 := -1
deriving DecidableEq

structure RecordBatch where
  baseOffset : Int := kInvalidOffset
  baseTimestamp : Int64 := 0
  maxTimestamp : Int64 := 0
  lastOffsetDelta : Int32 := 0
  compression : CompressionType := .none
  attributes : Int16 := 0
  crc : UInt32 := 0
  producerId : Int64 := -1
  producerEpoch : Int16 := -1
  baseSequence : Int32 := -1
  recordCount : Int32 := 0
  partitionLeaderEpoch : Int64 := 0
  records : List Record := []
deriving DecidableEq

def writeBlock (block : Bytes) : Bytes := encodeInt 4 block.length ++ block

def serializeHeader (header : RecordHeader) : Bytes :=
  writeBlock header.key ++ writeBlock header.value

namespace RecordBatch

def rcount (batch : RecordBatch) : Int32 := Int32.ofNat batch.records.length

def offDelta (batch : RecordBatch) (i : Nat) : Int32 :=
  if 0 < batch.lastOffsetDelta then
    if Int32.ofNat i = batch.rcount - 1 then batch.lastOffsetDelta else Int32.ofNat i
  else Int32.ofNat i

def serializeRecord (batch : RecordBatch) (i : Nat) (record : Record) : Bytes :=
  let body := 0 :: (writeSvarint64 (record.timestamp - batch.baseTimestamp) ++
    (writeSvarint64 (batch.offDelta i).toInt64 ++ (writeBlock record.key ++ (writeBlock record.value ++
    (encodeInt 4 record.headers.length ++ record.headers.flatMap serializeHeader)))))
  encodeInt 4 body.length ++ body

def serializeRecords (batch : RecordBatch) : Nat → List Record → Bytes
  | _, [] => []
  | i, record :: records => batch.serializeRecord i record ++ batch.serializeRecords (i + 1) records

def serializeBody (batch : RecordBatch) : Bytes :=
  encodeInt 2 batch.attributes.toInt ++ (encodeInt 4 batch.lastOffsetDelta.toInt ++
  (encodeInt 8 batch.baseTimestamp.toInt ++ (encodeInt 8 batch.maxTimestamp.toInt ++
  (encodeInt 8 batch.producerId.toInt ++ (encodeInt 2 batch.producerEpoch.toInt ++
  (encodeInt 4 batch.baseSequence.toInt ++ (encodeInt 4 batch.rcount.toInt ++
  batch.serializeRecords 0 (batch.records.take batch.rcount.toInt.toNat))))))))

def serializeBatch (batch : RecordBatch) : Bytes :=
  let body := batch.serializeBody
  encodeInt 8 batch.baseOffset ++ (encodeInt 4 (4 + 1 + 4 + body.length : Nat) ++
  (encodeInt 4 batch.partitionLeaderEpoch.toInt ++ (encodeInt 1 kRecordBatchMagic ++
  (encode 4 (crc32c body).toNat ++ body))))

end RecordBatch

/-- Patches the assigned offset into a serialized batch, and the checksum over all bytes from
its own field on. -/
def assignOffset (offset : Int) (serialized : Bytes) : Bytes :=
  let header := pwrite serialized 0 (encodeInt 8 offset)
  let crcStart := 8 + 4 + 4 + 1
  if crcStart < header.length then
    pwrite header crcStart (encode 4 (crc32c (header.drop crcStart)).toNat)
  else header

inductive BatchError where
  | tooSmall (length : Nat)
  | lengthMismatch (batchLength : Int) (length : Nat)
  | badMagic (magic : Int)
  | crcMismatch (offset : Int) (stored computed : UInt32)
  | insaneRecordCount (count : Int)
  | truncatedRecord (i : Nat) (count offset : Int)
  | invalidRecordLength (length : Int) (i : Nat) (count offset : Int)
  | timestampDelta (i : Nat)
  | offsetDelta (i : Nat)
  | invalidKeyLength (length : Int) (i : Nat)
  | invalidValueLength (length : Int) (i : Nat)
  | invalidHeaderCount (count : Int) (i : Nat)
  | invalidHeaderKeyLength (i h : Nat)
  | invalidHeaderValueLength (i h : Nat)
deriving DecidableEq

abbrev BatchReader (Value : Type) := StateT Bytes (Except BatchError) Value

def readSvarint (error : BatchError) : BatchReader Int64 := fun bytes =>
  match readSvarint64 bytes with
  | none => .error error
  | some read => .ok read

def readBlock (minimum : Int) (error : Int → BatchError) : BatchReader Bytes := do
  let length ← int 4
  if length < minimum then throw (error length)
  else needing length.toNat (throw (error length)) (block length.toNat)

def RecordBatch.recordAt (batch : RecordBatch) (i : Nat) (key value : Bytes)
    (headers : List RecordHeader) (tsDelta : Int64) (offDelta : Int32) : Record where
  key
  value
  headers
  timestamp := batch.baseTimestamp + tsDelta
  offset := batch.baseOffset + offDelta.toInt
  partitionId := 0
  sequence := if 0 ≤ batch.baseSequence then batch.baseSequence + Int32.ofNat i else -1
  producerId := batch.producerId

def readHeaders (i : Nat) : Nat → Nat → BatchReader (List RecordHeader)
  | 0, _ => pure []
  | count + 1, h =>
    needing 4 (pure []) do
      let hkey ← readBlock 0 fun _ => .invalidHeaderKeyLength i h
      needing 4 (pure []) do
        let hvalue ← readBlock 0 fun _ => .invalidHeaderValueLength i h
        let headers ← readHeaders i count (h + 1)
        return ⟨hkey, hvalue⟩ :: headers

/-- Reads so many records behind the fields of their batch. The loop ends early where the bytes
run out inside a record. -/
def readRecords (batch : RecordBatch) : Nat → Nat → BatchReader (List Record)
  | 0, _ => pure []
  | count + 1, i =>
    needing 4 (throw (.truncatedRecord i batch.recordCount.toInt batch.baseOffset)) do
      let recLen ← int 4
      let invalid : BatchReader (List Record) :=
        throw (.invalidRecordLength recLen i batch.recordCount.toInt batch.baseOffset)
      if recLen < 0 then invalid
      else
        needing recLen.toNat invalid <| needing 1 (pure []) do
          let _ ← block 1
          let tsDelta ← readSvarint (.timestampDelta i)
          let offDelta ← readSvarint (.offsetDelta i)
          needing 4 (pure []) do
            let key ← readBlock (-1) fun length => .invalidKeyLength length i
            needing 4 (pure []) do
              let value ← readBlock (-1) fun length => .invalidValueLength length i
              needing 4 (pure []) do
                let headerCount ← int 4
                if headerCount < 0 ∨ 1000 < headerCount then throw (.invalidHeaderCount headerCount i)
                else
                  let headers ← readHeaders i headerCount.toNat 0
                  let records ← readRecords batch count (i + 1)
                  return batch.recordAt i key value headers tsDelta offDelta.toInt32 :: records

def readBody (baseOffset partitionLeaderEpoch : Int) (storedCrc : UInt32) : BatchReader RecordBatch := do
  let attributes ← int 2
  let lastOffsetDelta ← int 4
  let baseTimestamp ← int 8
  let maxTimestamp ← int 8
  let producerId ← int 8
  let producerEpoch ← int 2
  let baseSequence ← int 4
  let recordCount ← int 4
  if recordCount < 0 ∨ 100000 < recordCount then throw (.insaneRecordCount recordCount)
  else
    let batch : RecordBatch :=
      { baseOffset
        baseTimestamp := Int64.ofInt baseTimestamp
        maxTimestamp := Int64.ofInt maxTimestamp
        lastOffsetDelta := Int32.ofInt lastOffsetDelta
        compression := .none
        attributes := Int16.ofInt attributes
        crc := storedCrc
        producerId := Int64.ofInt producerId
        producerEpoch := Int16.ofInt producerEpoch
        baseSequence := Int32.ofInt baseSequence
        recordCount := Int32.ofInt recordCount
        partitionLeaderEpoch := Int64.ofInt partitionLeaderEpoch }
    let records ← readRecords batch recordCount.toNat 0
    return { batch with recordCount := Int32.ofNat records.length, records }

def deserializeBatch (bytes : Bytes) : Except BatchError RecordBatch :=
  if bytes.length < kMinBatchHeaderSize then .error (.tooSmall bytes.length)
  else
    let (baseOffset, rest) := readInt 8 bytes
    let (batchLength, rest) := readInt 4 rest
    if batchLength + 12 ≠ bytes.length then .error (.lengthMismatch batchLength bytes.length)
    else
      let (partitionLeaderEpoch, rest) := readInt 4 rest
      let (magic, rest) := readInt 1 rest
      if magic ≠ kRecordBatchMagic then .error (.badMagic magic)
      else
        let (storedCrc, rest) := readNat 4 rest
        let storedCrc := UInt32.ofNat storedCrc
        let computedCrc := crc32c rest
        if storedCrc ≠ 0 ∧ computedCrc ≠ storedCrc then
          .error (.crcMismatch baseOffset storedCrc computedCrc)
        else (readBody baseOffset partitionLeaderEpoch storedCrc).run' rest

end TorrentMq.Storage
