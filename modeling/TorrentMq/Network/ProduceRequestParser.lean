import TorrentMq.Network.WireTypes

/-!
# Produce request parser

How the broker takes a produce request apart. A batch that does not parse is
kept with its error and what had been read of it, and the parser goes on where
it stopped.
-/

set_option autoImplicit false

namespace TorrentMq.Network

open Bytes Reader

def kDefaultMaxMessageBytes : Int := 1048588

def kRecordBatchMagicV2 : Int8 := 2

def kAttrCompressionMask : Int16 := 0x0007

def kMaxRecordsPerBatch : Int32 := 50000

def kMaxHeadersPerRecord : Int32 := 512

def kMaxHeaderSize : Int := 4096

inductive ParseError where
  | transactionalId
  | acks
  | invalidAcks (acks : Int16)
  | timeoutMs
  | topicCount
  | negativeTopicCount (count : Int32)
  | topicName (index : Nat)
  | emptyTopicName (index : Nat)
  | partitionCount (topic : Bytes)
  | negativePartitionCount (topic : Bytes) (count : Int32)
  | partitionIndex (topic : Bytes) (index : Nat)
  | negativePartitionIndex (index : Int32) (topic : Bytes)
  | batchSetLength (topic : Bytes) (index : Int32)
  | negativeBatchSetLength (topic : Bytes) (index : Int32)
  | batchSetExceedsBuffer (topic : Bytes) (index : Int32)
  | baseOffset
  | batchLength
  | batchLengthTooSmall (length : Int32)
  | batchLengthExceedsMaximum (length : Int32)
  | partitionLeaderEpoch
  | magic
  | unsupportedMagic (magic : Int8)
  | crc
  | attributes
  | invalidCompressionCodec (codec : Int16)
  | lastOffsetDelta
  | negativeLastOffsetDelta
  | baseTimestamp
  | maxTimestamp
  | producerId
  | producerEpoch
  | baseSequence
  | recordCount
  | negativeRecordCount (count : Int32)
  | recordCountExceedsLimit (count : Int32)
  | crcRangeExceedsBuffer
  | recordLength (offset : Nat)
  | negativeRecordLength (length : Int64)
  | recordAttributes
  | timestampDelta
  | offsetDelta
  | keyLength
  | keyBeyondRecord
  | valueLength
  | valueBeyondRecord
  | headerCount
  | negativeHeaderCount (count : Int32)
  | headerCountExceedsLimit (count : Int32)
  | headerKeyLength (h : Nat)
  | invalidHeaderKeyLength (length : Int64)
  | headerKeyBeyondRecord
  | headerValueLength (h : Nat)
  | invalidHeaderValueLength (length : Int64)
  | headerValueBeyondRecord

structure ParsedPartitionData where
  topicName : Bytes
  partitionIndex : Int32 := 0
  batch : Storage.RecordBatch := {}
  wireCrc : UInt32 := 0
  wireBatchSize : Int := 0
  isTransactional : Bool := false
  parseError : Option ParseError := none

abbrev Parser := StateT Bytes (Except ParseError)

def readString (otherwise : ParseError) : Parser Bytes := do
  let len ← readInt16Be fun _ => otherwise
  if len < 0 then throw otherwise
  else needing len.toInt.toNat (throw otherwise) (block len.toInt.toNat)

def readNullableString (otherwise : ParseError) : Parser Bytes := do
  let len ← readInt16Be fun _ => otherwise
  if len = -1 then return []
  else if len < 0 then throw otherwise
  else needing len.toInt.toNat (throw otherwise) (block len.toInt.toNat)

/-!
## Records
-/

def parseNullableBytes (length beyond : ParseError) : Parser Bytes := do
  let len ← readSignedVarint fun _ => length
  if 0 ≤ len then needing len.toInt.toNat (throw beyond) (block len.toInt.toNat) else return []

def parseHeaderKey (h : Nat) : Parser Bytes := do
  let len ← readSignedVarint fun _ => .headerKeyLength h
  if len < 0 ∨ kMaxHeaderSize < len.toInt then throw (.invalidHeaderKeyLength len)
  else needing len.toInt.toNat (throw .headerKeyBeyondRecord) (block len.toInt.toNat)

def parseHeaderValue (h : Nat) : Parser Bytes := do
  let len ← readSignedVarint fun _ => .headerValueLength h
  if 0 ≤ len then
    if kMaxHeaderSize < len.toInt then throw (.invalidHeaderValueLength len)
    else needing len.toInt.toNat (throw .headerValueBeyondRecord) (block len.toInt.toNat)
  else return []

def parseHeaders : Nat → Nat → Parser (List Storage.RecordHeader)
  | 0, _ => pure []
  | count + 1, h => do
    let key ← parseHeaderKey h
    let value ← parseHeaderValue h
    let headers ← parseHeaders count (h + 1)
    return ⟨key, value⟩ :: headers

def parseRecord (len : Nat) (baseTimestamp : Int64) (sequenceBase : Int32) (pd : ParsedPartitionData) :
    Parser Storage.Record := do
  let recordLen ← readSignedVarint fun left => .recordLength (len - left)
  if recordLen < 0 then throw (.negativeRecordLength recordLen)
  else
    let _ ← readInt8 fun _ => .recordAttributes
    let timestampDelta ← readSignedVarint fun _ => .timestampDelta
    let offsetDelta ← readSignedVarint fun _ => .offsetDelta
    let key ← parseNullableBytes .keyLength .keyBeyondRecord
    let value ← parseNullableBytes .valueLength .valueBeyondRecord
    let headerCountRaw ← readSignedVarint fun _ => .headerCount
    let headerCount := headerCountRaw.toInt32
    if headerCount < 0 then throw (.negativeHeaderCount headerCount)
    else if kMaxHeadersPerRecord < headerCount then throw (.headerCountExceedsLimit headerCount)
    else
      let headers ← parseHeaders headerCount.toInt.toNat 0
      return {
        key
        value
        headers
        timestamp := baseTimestamp + timestampDelta
        partitionId := pd.partitionIndex
        sequence := (sequenceBase.toInt64 + offsetDelta).toInt32
        producerId := pd.batch.producerId }

def ParsedPartitionData.push (pd : ParsedPartitionData) (record : Storage.Record) : ParsedPartitionData :=
  { pd with batch.records := pd.batch.records ++ [record] }

def parseRecords (len : Nat) (baseTimestamp : Int64) :
    Nat → ParsedPartitionData → Bytes → ParsedPartitionData × Option ParseError
  | 0, pd, _ => (pd, none)
  | count + 1, pd, bytes =>
    match (parseRecord len baseTimestamp pd.batch.baseSequence pd).run bytes with
    | .error error => (pd, some error)
    | .ok (record, rest) => parseRecords len baseTimestamp count (pd.push record) rest

/-!
## Record batches
-/

structure BatchFailure where
  error : ParseError
  rest : Bytes
  pd : ParsedPartitionData

abbrev BatchParser := StateT Bytes (Except BatchFailure)

def failing (error : ParseError) (pd : ParsedPartitionData) (rest : Bytes) : BatchFailure := ⟨error, rest, pd⟩

def rejecting {Value : Type} (error : ParseError) (pd : ParsedPartitionData) : BatchParser Value := fun rest =>
  .error (failing error pd rest)

def compressionOf (codec : Int16) : Option Storage.CompressionType :=
  if codec = 0 then some .none
  else if codec = 1 then some .gzip
  else if codec = 2 then some .snappy
  else if codec = 3 then some .lz4
  else if codec = 4 then some .zstd
  else none

def parseBatchFields (pd : ParsedPartitionData) : BatchParser ParsedPartitionData := do
  let rawAttrs ← readInt16Be (failing .attributes pd)
  let pd := { pd with
    batch.attributes := rawAttrs
    isTransactional := rawAttrs &&& RecordBatch.kAttrTransactionalBit != 0 }
  match compressionOf (rawAttrs &&& kAttrCompressionMask) with
  | none => rejecting (.invalidCompressionCodec (rawAttrs &&& kAttrCompressionMask)) pd
  | some compression =>
    let pd := { pd with batch.compression := compression }
    let lastOffsetDelta ← readInt32Be (failing .lastOffsetDelta pd)
    let pd := { pd with batch.lastOffsetDelta := lastOffsetDelta }
    if lastOffsetDelta < 0 then rejecting .negativeLastOffsetDelta pd
    else
      let baseTimestamp ← readInt64Be (failing .baseTimestamp pd)
      let pd := { pd with batch.baseTimestamp := baseTimestamp }
      let maxTimestamp ← readInt64Be (failing .maxTimestamp pd)
      let pd := { pd with batch.maxTimestamp := maxTimestamp }
      let producerId ← readInt64Be (failing .producerId pd)
      let pd := { pd with batch.producerId := producerId }
      let producerEpoch ← readInt16Be (failing .producerEpoch pd)
      let pd := { pd with batch.producerEpoch := producerEpoch }
      let baseSequence ← readInt32Be (failing .baseSequence pd)
      let pd := { pd with batch.baseSequence := baseSequence }
      let recordCount ← readInt32Be (failing .recordCount pd)
      let pd := { pd with batch.recordCount := recordCount }
      if recordCount < 0 then rejecting (.negativeRecordCount recordCount) pd
      else if kMaxRecordsPerBatch < recordCount then rejecting (.recordCountExceedsLimit recordCount) pd
      else return pd

def parseBatchFront (pd : ParsedPartitionData) : BatchParser (Int32 × ParsedPartitionData) := do
  let baseOffset ← readInt64Be (failing .baseOffset pd)
  let pd := { pd with batch.baseOffset := baseOffset.toInt }
  let batchLength ← readInt32Be (failing .batchLength pd)
  if batchLength < 12 then rejecting (.batchLengthTooSmall batchLength) pd
  else if kDefaultMaxMessageBytes < batchLength.toInt then rejecting (.batchLengthExceedsMaximum batchLength) pd
  else
    let leaderEpoch ← readInt32Be (failing .partitionLeaderEpoch pd)
    let pd := { pd with batch.partitionLeaderEpoch := leaderEpoch.toInt64 }
    let magic ← readInt8 (failing .magic pd)
    if magic ≠ kRecordBatchMagicV2 then rejecting (.unsupportedMagic magic) pd
    else
      let crcVal ← readInt32Be (failing .crc pd)
      return (batchLength, { pd with batch.crc := crcVal.toUInt32, wireCrc := crcVal.toUInt32 })

def parseRecordBatch (pd : ParsedPartitionData) : BatchParser ParsedPartitionData := do
  let start ← get
  let (batchLength, pd) ← parseBatchFront pd
  let pd ← parseBatchFields pd
  let bytes ← get
  let records_end := 12 + batchLength.toInt.toNat
  if start.length < records_end then rejecting .crcRangeExceedsBuffer pd
  else if 0 < pd.batch.recordCount then
    -- A length that ends among the fields makes the source read out of bounds; here no bytes are left.
    let len := records_end - (start.length - bytes.length)
    match parseRecords len pd.batch.baseTimestamp pd.batch.recordCount.toInt.toNat pd (bytes.take len) with
    | (pd, some error) => rejecting error pd
    | (pd, none) =>
      set (start.drop records_end)
      return pd
  else
    set (start.drop records_end)
    return pd

def parseBatchSet (behind : Nat) : Nat → ParsedPartitionData → Bytes → ParsedPartitionData × Bytes
  | 0, pd, bytes => (pd, bytes)
  | fuel + 1, pd, bytes =>
    if bytes.length ≤ behind then (pd, bytes)
    else
      match (parseRecordBatch pd).run bytes with
      | .error failure => ({ failure.pd with parseError := some failure.error }, failure.rest)
      | .ok (pd, rest) => parseBatchSet behind fuel pd rest

/-!
## Requests
-/

def parsePartition (topicName : Bytes) (p : Nat) : Parser ParsedPartitionData := do
  let partitionIndex ← readInt32Be fun _ => .partitionIndex topicName p
  if partitionIndex < 0 then throw (.negativePartitionIndex partitionIndex topicName)
  else
    let batchSetLength ← readInt32Be fun _ => .batchSetLength topicName partitionIndex
    if batchSetLength < 0 then throw (.negativeBatchSetLength topicName partitionIndex)
    else
      needing batchSetLength.toInt.toNat (throw (.batchSetExceedsBuffer topicName partitionIndex)) fun bytes =>
        let length := batchSetLength.toInt.toNat
        -- Every batch that parses takes bytes, so there are no more of them than bytes.
        .ok (parseBatchSet (bytes.length - length) length
          { topicName, partitionIndex, wireBatchSize := batchSetLength.toInt } bytes)

def parsePartitions (topicName : Bytes) : Nat → Nat → Parser (List ParsedPartitionData)
  | 0, _ => pure []
  | count + 1, p => do
    let pd ← parsePartition topicName p
    let partitions ← parsePartitions topicName count (p + 1)
    return pd :: partitions

def parseTopic (t : Nat) : Parser (List ParsedPartitionData) := do
  let topicName ← readString (.topicName t)
  if topicName.isEmpty then throw (.emptyTopicName t)
  else
    let partitionCount ← readInt32Be fun _ => .partitionCount topicName
    if partitionCount < 0 then throw (.negativePartitionCount topicName partitionCount)
    else parsePartitions topicName partitionCount.toInt.toNat 0

def parseTopics : Nat → Nat → Parser (List ParsedPartitionData)
  | 0, _ => pure []
  | count + 1, t => do
    let partitions ← parseTopic t
    let others ← parseTopics count (t + 1)
    return partitions ++ others

structure ParsedRequest where
  transactionId : Bytes
  acks : Int16
  timeoutMs : Int32
  partitions : List ParsedPartitionData

def parseRequest : Parser ParsedRequest := do
  let transactionId ← readNullableString .transactionalId
  let acks ← readInt16Be fun _ => .acks
  if acks < -1 ∨ 1 < acks then throw (.invalidAcks acks)
  else
    let timeoutMs ← readInt32Be fun _ => .timeoutMs
    let topicCount ← readInt32Be fun _ => .topicCount
    if topicCount < 0 then throw (.negativeTopicCount topicCount)
    else
      let partitions ← parseTopics topicCount.toInt.toNat 0
      return { transactionId, acks, timeoutMs := if timeoutMs < 0 then 0 else timeoutMs, partitions }

def parse (body : Bytes) : Except ParseError ParsedRequest := parseRequest.run' body

end TorrentMq.Network
