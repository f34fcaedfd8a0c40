import TorrentMq.Collections.Grouping
import TorrentMq.Storage.RecordBatch

/-!
# Protocol serializer

The big-endian wire form of a produce request: its batches grouped by topic,
every batch with its length and its checksum.
-/

set_option autoImplicit false

namespace TorrentMq.Network

open Bytes Collections

def writeInt8 (value : Int8) : Bytes := encodeBig 1 value.toUInt8.toNat

def writeInt16Be (value : Int16) : Bytes := encodeBig 2 value.toUInt16.toNat

def writeInt32Be (value : Int32) : Bytes := encodeBig 4 value.toUInt32.toNat

def writeInt64Be (value : Int64) : Bytes := encodeBig 8 value.toUInt64.toNat

def writeUint32Be (value : UInt32) : Bytes := encodeBig 4 value.toNat

def writeString (str : Bytes) : Bytes :=
  let len := Int16.ofNat str.length
  writeInt16Be len ++ if 0 < len then str.take len.toInt.toNat else []

def writeNullableString (str : Bytes) : Bytes :=
  if str.isEmpty then writeInt16Be (-1) else writeString str

def writeSignedVarint (value : Int64) : Bytes := writeSvarint64 value

def writeNullableBytes (bytes : Bytes) : Bytes :=
  if bytes.isEmpty then writeSignedVarint (-1) else writeSignedVarint (Int64.ofNat bytes.length) ++ bytes

structure Record where
  key : Bytes := []
  value : Bytes := []
  headers : List Storage.RecordHeader := []
  timestamp : Int64 := 0
deriving DecidableEq

structure RecordBatch where
  topic : Bytes
  partition : Int32 := 0
  records : List Record := []
  compression : Int8 := 0
  isTransactional : Bool := false
deriving DecidableEq

def serializeHeader (header : Storage.RecordHeader) : Bytes :=
  writeSignedVarint (Int64.ofNat header.key.length) ++ (header.key ++ writeNullableBytes header.value)

def serializeRecord (record : Record) (timestampDelta : Int64) (offsetDelta : Int32) : Bytes :=
  let body := writeInt8 0 ++ (writeSignedVarint timestampDelta ++ (writeSignedVarint offsetDelta.toInt64 ++
    (writeNullableBytes record.key ++ (writeNullableBytes record.value ++
    (writeSignedVarint (Int64.ofNat record.headers.length) ++ record.headers.flatMap serializeHeader)))))
  writeSignedVarint (Int64.ofNat body.length) ++ body

def serializeRecordBatchHeader (baseOffset : Int64) (partitionLeaderEpoch : Int32) (magic : Int8) (attributes : Int16)
    (lastOffsetDelta : Int32) (baseTimestamp maxTimestamp producerId : Int64) (producerEpoch : Int16)
    (baseSequence recordCount : Int32) (crc : UInt32) : Bytes :=
  writeInt64Be baseOffset ++ (writeInt32Be 0 ++ (writeInt32Be partitionLeaderEpoch ++ (writeInt8 magic ++
  (writeUint32Be crc ++ (writeInt16Be attributes ++ (writeInt32Be lastOffsetDelta ++ (writeInt64Be baseTimestamp ++
  (writeInt64Be maxTimestamp ++ (writeInt64Be producerId ++ (writeInt16Be producerEpoch ++
  (writeInt32Be baseSequence ++ writeInt32Be recordCount)))))))))))

namespace RecordBatch

def baseTimestamp (batch : RecordBatch) : Int64 :=
  batch.records.foldl (fun base record => if record.timestamp < base then record.timestamp else base)
    ((batch.records.head?.map Record.timestamp).getD 0)

def maxTimestamp (batch : RecordBatch) : Int64 :=
  batch.records.foldl (fun highest record => if highest < record.timestamp then record.timestamp else highest)
    ((batch.records.head?.map Record.timestamp).getD 0)

def kAttrTransactionalBit : Int16 := 0x0010

def attributes (batch : RecordBatch) : Int16 :=
  let codec := batch.compression.toInt16 &&& 0x0007
  if batch.isTransactional then codec ||| kAttrTransactionalBit else codec

end RecordBatch

def serializeRecords (baseTimestamp : Int64) : Nat → List Record → Bytes
  | _, [] => []
  | i, record :: records =>
    serializeRecord record (record.timestamp - baseTimestamp) (Int32.ofNat i) ++
      serializeRecords baseTimestamp (i + 1) records

def serializeRecordBatch (batch : RecordBatch) (baseOffset : Int64) (partitionLeaderEpoch : Int32)
    (producerId : Int64) (producerEpoch : Int16) (baseSequence : Int32) : Bytes :=
  if batch.records.isEmpty then
    serializeRecordBatchHeader baseOffset partitionLeaderEpoch 2 batch.compression.toInt16 0 0 0 producerId
      producerEpoch baseSequence 0 0
  else
    let written :=
      serializeRecordBatchHeader baseOffset partitionLeaderEpoch 2 batch.attributes
        (Int32.ofNat (batch.records.length - 1)) batch.baseTimestamp batch.maxTimestamp producerId producerEpoch
        baseSequence (Int32.ofNat batch.records.length) 0 ++
      serializeRecords batch.baseTimestamp 0 batch.records
    let measured := pwrite written 8 (writeInt32Be (Int32.ofNat (written.length - 12)))
    pwrite measured 17 (writeUint32Be (crc32c (measured.drop 21)))

structure ProduceRequest where
  transactionId : Bytes := []
  acks : Int16
  timeoutMs : Int32
  batches : List RecordBatch
deriving DecidableEq

def serializePartition (batch : RecordBatch) : Bytes :=
  let batchData := serializeRecordBatch batch 0 (-1) (-1) 0 0
  writeInt32Be batch.partition ++ (writeInt32Be (Int32.ofNat batchData.length) ++ batchData)

def serializeTopic (group : Bytes × List RecordBatch) : Bytes :=
  writeString group.1 ++ (writeInt32Be (Int32.ofNat group.2.length) ++ group.2.flatMap serializePartition)

def serializeProduceRequest (req : ProduceRequest) : Bytes :=
  writeNullableString req.transactionId ++ (writeInt16Be req.acks ++ (writeInt32Be req.timeoutMs ++
  if req.batches.isEmpty then writeInt32Be 0
  else
    let topics := grouped RecordBatch.topic req.batches
    writeInt32Be (Int32.ofNat topics.length) ++ topics.flatMap serializeTopic))

end TorrentMq.Network
