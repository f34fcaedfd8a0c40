import TorrentMq.Network.ProduceRequestParser

/-! What the parser makes of a produce request that the serializer has written. -/

set_option autoImplicit false

namespace TorrentMq.Network

open Bytes Collections Reader List RecordBatch Int32

theorem reads_blockOf (otherwise : Parser Bytes) (bytes : Bytes) {count : Nat} (length : count = bytes.length) :
    Reads (needing count otherwise (block count)) bytes bytes := by
  rw [length]
  exact (reads_block bytes).needing otherwise le_rfl

theorem reads_nullableBytes (length beyond : ParseError) {bytes : Bytes} (short : bytes.length < 2 ^ 31) :
    Reads (parseNullableBytes length beyond) (writeNullableBytes bytes) bytes := by
  unfold writeNullableBytes
  split
  next empty =>
    rw [← append_nil (writeSignedVarint (-1)), isEmpty_iff.mp empty]
    refine (reads_signedVarint _ (-1)).bind ?_
    rw [if_neg (by decide)]
    exact Reads.pure []
  next =>
    refine (reads_signedVarint _ _).bind ?_
    rw [if_pos (not_length_neg short)]
    exact reads_blockOf _ bytes (by rw [toInt_length short, Int.toNat_natCast])

theorem reads_headerKey (h : Nat) {key : Bytes} (short : (key.length : Int) ≤ kMaxHeaderSize) :
    Reads (parseHeaderKey h) (writeSignedVarint (Int64.ofNat key.length) ++ key) key := by
  unfold kMaxHeaderSize at short
  have small : key.length < 2 ^ 31 := by omega
  refine (reads_signedVarint _ _).bind ?_
  rw [if_neg, toInt_length small, Int.toNat_natCast]
  · exact reads_blockOf _ key rfl
  · rw [toInt_length small]
    unfold kMaxHeaderSize
    rintro (negative | long)
    · exact Int64.not_lt.mpr (not_length_neg small) negative
    · omega

theorem reads_headerValue (h : Nat) {value : Bytes} (short : (value.length : Int) ≤ kMaxHeaderSize) :
    Reads (parseHeaderValue h) (writeNullableBytes value) value := by
  unfold kMaxHeaderSize at short
  have small : value.length < 2 ^ 31 := by omega
  unfold writeNullableBytes
  split
  next empty =>
    rw [← append_nil (writeSignedVarint (-1)), isEmpty_iff.mp empty]
    refine (reads_signedVarint _ (-1)).bind ?_
    rw [if_neg (by decide)]
    exact Reads.pure []
  next =>
    have allowed : ¬kMaxHeaderSize < (value.length : Int) := by
      unfold kMaxHeaderSize
      omega
    refine (reads_signedVarint _ _).bind ?_
    rw [if_pos (not_length_neg small), toInt_length small, if_neg allowed, Int.toNat_natCast]
    exact reads_blockOf _ value rfl

def FitsHeader (header : Storage.RecordHeader) : Prop :=
  (header.key.length : Int) ≤ kMaxHeaderSize ∧ (header.value.length : Int) ≤ kMaxHeaderSize

theorem reads_headers {headers : List Storage.RecordHeader} (fit : ∀ header ∈ headers, FitsHeader header) (h : Nat) :
    Reads (parseHeaders headers.length h) (headers.flatMap serializeHeader) headers := by
  induction headers generalizing h with
  | nil => exact Reads.pure []
  | cons header headers ih =>
    obtain ⟨key, value⟩ := fit header mem_cons_self
    have rest := ih (fun other member => fit other (mem_cons_of_mem header member)) (h + 1)
    rw [flatMap_cons, serializeHeader, ← append_assoc, append_assoc]
    exact (reads_headerKey h key).bind ((reads_headerValue h value).bind rest.map)

def parsedRecord (pd : ParsedPartitionData) (record : Record) (i : Nat) : Storage.Record where
  key := record.key
  value := record.value
  headers := record.headers
  timestamp := record.timestamp
  partitionId := pd.partitionIndex
  sequence := (pd.batch.baseSequence.toInt64 + (ofNat i).toInt64).toInt32
  producerId := pd.batch.producerId

/-- The headers of a record are within the limits of the parser. -/
structure FitsHeaders (record : Record) : Prop where
  count : record.headers.length ≤ 512
  each : ∀ header ∈ record.headers, FitsHeader header

theorem length_le_writeNullableBytes (bytes : Bytes) : bytes.length ≤ (writeNullableBytes bytes).length := by
  unfold writeNullableBytes
  split
  next empty =>
    rw [isEmpty_iff.mp empty]
    exact Nat.zero_le _
  next =>
    rw [length_append]
    exact Nat.le_add_left _ _

theorem toInt_headerCount {count : Nat} (few : count ≤ 512) : (Int64.ofNat count).toInt32.toInt = count := by
  have wide : (Int64.ofNat count).toInt = count := toInt_length (by omega)
  rw [Int64.toInt_toInt32, wide]
  exact Int.bmod_eq_of_le (by omega) (by omega)

theorem reads_record {record : Record} (fits : FitsHeaders record) (pd : ParsedPartitionData) (len : Nat)
    (base : Int64) (i : Nat)
    (short : (serializeRecord record (record.timestamp - base) (ofNat i)).length < 2 ^ 31) :
    Reads (parseRecord len base pd.batch.baseSequence pd)
      (serializeRecord record (record.timestamp - base) (ofNat i)) (parsedRecord pd record i) := by
  obtain ⟨few, each⟩ := fits
  have key := length_le_writeNullableBytes record.key
  have value := length_le_writeNullableBytes record.value
  have count := toInt_headerCount few
  have allowed : ¬(Int64.ofNat record.headers.length).toInt32 < 0 := by
    rw [lt_iff_toInt_lt, count, toInt_zero]
    omega
  have within : ¬kMaxHeadersPerRecord < (Int64.ofNat record.headers.length).toInt32 := by
    have limit : kMaxHeadersPerRecord.toInt = 512 := rfl
    rw [lt_iff_toInt_lt, count, limit]
    omega
  have stamp : base + (record.timestamp - base) = record.timestamp := by
    rw [Int64.add_comm, Int64.sub_add_cancel]
  unfold serializeRecord at short ⊢
  dsimp only at short ⊢
  rw [length_append] at short
  refine (reads_signedVarint _ _).bind ?_
  rw [if_neg (Int64.not_lt.mpr (not_length_neg (by omega)))]
  simp only [length_append] at short
  refine (reads_int8 _ 0).bind ((reads_signedVarint _ _).bind ((reads_signedVarint _ _).bind ?_))
  refine (reads_nullableBytes _ _ (by omega)).bind ((reads_nullableBytes _ _ (by omega)).bind ?_)
  refine (reads_signedVarint _ _).bind ?_
  rw [if_neg allowed, if_neg within, count, Int.toNat_natCast, stamp]
  exact (reads_headers each 0).map

theorem parseRecords_serialized {records : List Record} (fit : ∀ record ∈ records, FitsHeaders record) (len : Nat)
    (base : Int64) (i : Nat) (pd : ParsedPartitionData) (short : (serializeRecords base i records).length < 2 ^ 31) :
    parseRecords len base records.length pd (serializeRecords base i records) =
      ({ pd with batch.records := pd.batch.records ++ (records.zipIdx i).map fun entry =>
          parsedRecord pd entry.1 entry.2 }, none) := by
  induction records generalizing i pd with
  | nil =>
    rw [zipIdx_nil, map_nil, append_nil]
    rfl
  | cons record records ih =>
    rw [serializeRecords, length_append] at short
    have read := reads_record (fit record mem_cons_self) pd len base i (by omega)
      (serializeRecords base (i + 1) records)
    rw [length_cons, serializeRecords, parseRecords, read]
    have rest := ih (fun other member => fit other (mem_cons_of_mem record member)) (i + 1)
      (pd.push (parsedRecord pd record i)) (by omega)
    refine Eq.trans rest ?_
    unfold ParsedPartitionData.push parsedRecord
    dsimp only
    rw [zipIdx_cons, map_cons, append_assoc, singleton_append]

/-!
## Batches
-/

namespace RecordBatch

def data (batch : RecordBatch) : Bytes := serializeRecordBatch batch 0 (-1) (-1) 0 0

def fields (batch : RecordBatch) : Bytes :=
  writeInt16Be batch.attributes ++ (writeInt32Be (ofNat (batch.records.length - 1)) ++
  (writeInt64Be batch.baseTimestamp ++ (writeInt64Be batch.maxTimestamp ++ (writeInt64Be (-1) ++
  (writeInt16Be 0 ++ (writeInt32Be 0 ++ writeInt32Be (ofNat batch.records.length)))))))

def body (batch : RecordBatch) : Bytes := batch.fields ++ serializeRecords batch.baseTimestamp 0 batch.records

def front (length : Int32) (crc : UInt32) : Bytes :=
  writeInt64Be 0 ++ (writeInt32Be length ++ (writeInt32Be (-1) ++ (writeInt8 2 ++ writeUint32Be crc)))

@[simp] theorem length_fields (batch : RecordBatch) : batch.fields.length = 40 := by
  simp only [fields, length_append, length_writeInt16Be, length_writeInt32Be, length_writeInt64Be]

@[simp] theorem length_front (length : Int32) (crc : UInt32) : (front length crc).length = 21 := by
  simp only [front, length_append, length_writeInt8, length_writeInt32Be, length_writeInt64Be,
    length_writeUint32Be]

theorem pwrite_front_length (old length : Int32) (crc : UInt32) (rest : Bytes) :
    pwrite (front old crc ++ rest) 8 (writeInt32Be length) = front length crc ++ rest := by
  have patched := pwrite_append (writeInt64Be 0) (writeInt32Be old)
    (writeInt32Be (-1) ++ (writeInt8 2 ++ (writeUint32Be crc ++ rest)))
    (show (writeInt32Be old).length = (writeInt32Be length).length by simp)
  rw [length_writeInt64Be] at patched
  simp only [front, append_assoc]
  exact patched

theorem pwrite_front_crc (length : Int32) (old crc : UInt32) (rest : Bytes) :
    pwrite (front length old ++ rest) 17 (writeUint32Be crc) = front length crc ++ rest := by
  have patched := pwrite_append (writeInt64Be 0 ++ (writeInt32Be length ++ (writeInt32Be (-1) ++ writeInt8 2)))
    (writeUint32Be old) rest (show (writeUint32Be old).length = (writeUint32Be crc).length by simp)
  simp only [length_append, length_writeInt64Be, length_writeInt32Be, length_writeInt8] at patched
  simp only [front, append_assoc] at patched ⊢
  exact patched

theorem data_eq {batch : RecordBatch} (nonempty : batch.records ≠ []) :
    batch.data = front (ofNat (9 + batch.body.length)) (crc32c batch.body) ++ batch.body := by
  have full : ¬batch.records.isEmpty = true := fun empty => nonempty (isEmpty_iff.mp empty)
  have written : serializeRecordBatchHeader 0 (-1) 2 batch.attributes (ofNat (batch.records.length - 1))
      batch.baseTimestamp batch.maxTimestamp (-1) 0 0 (ofNat batch.records.length) 0 ++
        serializeRecords batch.baseTimestamp 0 batch.records = front 0 0 ++ batch.body := by
    simp only [serializeRecordBatchHeader, front, body, fields, append_assoc]
  have size : (front 0 0 ++ batch.body).length - 12 = 9 + batch.body.length := by
    rw [length_append, length_front]
    omega
  unfold data serializeRecordBatch
  dsimp only
  rw [if_neg full, written, size, pwrite_front_length, drop_left' (length_front _ _), pwrite_front_crc]

structure WithinLimits (batch : RecordBatch) : Prop where
  nonempty : batch.records ≠ []
  size : (batch.data.length : Int) ≤ 12 + kDefaultMaxMessageBytes
  count : batch.records.length ≤ 50000
  headers : ∀ record ∈ batch.records, FitsHeaders record
  topicNonempty : batch.topic ≠ []
  topicLength : batch.topic.length < 32768
  partition : 0 ≤ batch.partition
  uncompressed : batch.compression = 0

section

variable {batch : RecordBatch} (uncompressed : batch.compression = 0)
include uncompressed

theorem attributes_eq : batch.attributes = if batch.isTransactional then kAttrTransactionalBit else 0 := by
  unfold attributes
  rw [uncompressed]
  cases batch.isTransactional with
  | true => rfl
  | false => rfl

theorem attributes_transactional : (batch.attributes &&& kAttrTransactionalBit != 0) = batch.isTransactional := by
  rw [attributes_eq uncompressed]
  cases batch.isTransactional with
  | true => rfl
  | false => rfl

theorem attributes_compression : compressionOf (batch.attributes &&& kAttrCompressionMask) = some .none := by
  rw [attributes_eq uncompressed]
  cases batch.isTransactional with
  | true => rfl
  | false => rfl

end

end RecordBatch

namespace ParsedPartitionData

def behindFront (pd : ParsedPartitionData) (crc : UInt32) : ParsedPartitionData :=
  { pd with
    batch.baseOffset := (0 : Int64).toInt
    batch.partitionLeaderEpoch := (-1 : Int32).toInt64
    batch.crc := crc
    wireCrc := crc }

def behindFields (pd : ParsedPartitionData) (batch : RecordBatch) : ParsedPartitionData :=
  { pd with
    batch.attributes := batch.attributes
    isTransactional := batch.isTransactional
    batch.compression := .none
    batch.lastOffsetDelta := ofNat (batch.records.length - 1)
    batch.baseTimestamp := batch.baseTimestamp
    batch.maxTimestamp := batch.maxTimestamp
    batch.producerId := -1
    batch.producerEpoch := 0
    batch.baseSequence := 0
    batch.recordCount := ofNat batch.records.length }

end ParsedPartitionData

theorem reads_batchFront (pd : ParsedPartitionData) {length : Nat} (long : 12 ≤ length)
    (short : (length : Int) ≤ kDefaultMaxMessageBytes) (crc : UInt32) :
    Reads (parseBatchFront pd) (front (ofNat length) crc)
      (ofNat length, pd.behindFront crc) := by
  have size : (ofNat length).toInt = length := by
    unfold kDefaultMaxMessageBytes at short
    exact toInt_int32_length (by omega)
  have large : ¬ofNat length < 12 := by
    rw [lt_iff_toInt_lt, size]
    change ¬(length : Int) < 12
    omega
  have magic : ¬(2 : Int8) ≠ kRecordBatchMagicV2 := by decide
  unfold front
  refine (reads_int64 _ 0).bind ((reads_int32 _ _).bind ?_)
  rw [if_neg large, size, if_neg (not_lt.mpr short)]
  refine (reads_int32 _ (-1)).bind ((reads_int8 _ 2).bind ?_)
  rw [if_neg magic]
  exact (reads_uint32 _ crc).map

variable {batch : RecordBatch}

theorem reads_batchFields (pd : ParsedPartitionData) (few : batch.records.length ≤ 50000)
    (uncompressed : batch.compression = 0) : Reads (parseBatchFields pd) batch.fields (pd.behindFields batch) := by
  have allowed : ¬kMaxRecordsPerBatch < ofNat batch.records.length := by
    have limit : kMaxRecordsPerBatch.toInt = 50000 := rfl
    rw [lt_iff_toInt_lt, toInt_int32_length (by omega), limit]
    omega
  unfold fields
  refine (reads_int16 _ _).bind ?_
  rw [attributes_compression uncompressed, attributes_transactional uncompressed]
  refine (reads_int32 _ _).bind ?_
  rw [if_neg (not_int32_length_neg (by omega))]
  refine (reads_int64 _ _).bind ((reads_int64 _ _).bind ((reads_int64 _ (-1)).bind ?_))
  refine (reads_int16 _ 0).bind ((reads_int32 _ 0).bind ?_)
  rw [← append_nil (writeInt32Be _)]
  refine (reads_int32 _ _).bind ?_
  rw [if_neg (not_int32_length_neg (by omega)), if_neg allowed]
  exact Reads.pure _

namespace ParsedPartitionData

def behindBatch (pd : ParsedPartitionData) (batch : RecordBatch) : ParsedPartitionData :=
  let behind := (pd.behindFront (crc32c batch.body)).behindFields batch
  { behind with
    batch.records := behind.batch.records ++ (batch.records.zipIdx 0).map fun entry =>
      parsedRecord behind entry.1 entry.2 }

variable (pd : ParsedPartitionData) (batch : RecordBatch)

theorem recordCount_behindFields : (pd.behindFields batch).batch.recordCount = ofNat batch.records.length := rfl

theorem baseTimestamp_behindFields : (pd.behindFields batch).batch.baseTimestamp = batch.baseTimestamp := rfl

end ParsedPartitionData

theorem reads_recordBatch (within : batch.WithinLimits) (pd : ParsedPartitionData) :
    Reads (parseRecordBatch pd) batch.data (pd.behindBatch batch) := by
  intro rest
  have few := within.count
  have size := within.size
  have whole := RecordBatch.data_eq within.nonempty
  have length : batch.data.length = 21 + batch.body.length := by
    rw [whole, length_append, RecordBatch.length_front]
  have body : batch.body.length = 40 + (serializeRecords batch.baseTimestamp 0 batch.records).length := by
    rw [RecordBatch.body, length_append, RecordBatch.length_fields]
  have limit : (9 + batch.body.length : Nat) ≤ kDefaultMaxMessageBytes := by omega
  have small : 9 + batch.body.length < 2 ^ 31 := by
    unfold kDefaultMaxMessageBytes at limit
    omega
  have batchLength : (ofNat (9 + batch.body.length)).toInt.toNat = 9 + batch.body.length := by
    rw [toInt_int32_length small, Int.toNat_natCast]
  have count : (ofNat batch.records.length).toInt.toNat = batch.records.length := by
    rw [toInt_int32_length (by omega), Int.toNat_natCast]
  have some_records : 0 < ofNat batch.records.length := by
    have positive := length_pos_of_ne_nil within.nonempty
    rw [lt_iff_toInt_lt, toInt_int32_length (by omega), toInt_zero]
    omega
  have front := reads_batchFront pd (show 12 ≤ 9 + batch.body.length by omega) limit (crc32c batch.body)
    (batch.body ++ rest)
  have fields := reads_batchFields (pd.behindFront (crc32c batch.body)) few within.uncompressed
    (serializeRecords batch.baseTimestamp 0 batch.records ++ rest)
  have records := parseRecords_serialized within.headers
    (serializeRecords batch.baseTimestamp 0 batch.records).length batch.baseTimestamp 0
    ((pd.behindFront (crc32c batch.body)).behindFields batch) (by omega)
  have split : batch.data ++ rest =
      RecordBatch.front (ofNat (9 + batch.body.length)) (crc32c batch.body) ++ (batch.body ++ rest) := by
    rw [whole, append_assoc]
  have covered : batch.body ++ rest =
      batch.fields ++ (serializeRecords batch.baseTimestamp 0 batch.records ++ rest) := by
    rw [RecordBatch.body, append_assoc]
  have start : (batch.data ++ rest).length = 21 + batch.body.length + rest.length := by
    rw [length_append, length]
  have left : 12 + (9 + batch.body.length) - (21 + batch.body.length + rest.length -
      (serializeRecords batch.baseTimestamp 0 batch.records ++ rest).length) =
        (serializeRecords batch.baseTimestamp 0 batch.records).length := by
    rw [length_append]
    omega
  have ending : (batch.data ++ rest).drop (12 + (9 + batch.body.length)) = rest := drop_left' (by omega)
  unfold parseRecordBatch
  rw [StateT.run_bind, StateT.run_get, pure_bind]
  dsimp only
  rw [StateT.run_bind]
  nth_rewrite 1 [split]
  rw [front, pure_bind]
  dsimp only
  rw [StateT.run_bind, covered, fields, pure_bind]
  dsimp only
  rw [StateT.run_bind, StateT.run_get, pure_bind]
  dsimp only
  rw [batchLength, start, if_neg (by omega), ParsedPartitionData.recordCount_behindFields, if_pos some_records, left,
    take_left' rfl, ParsedPartitionData.baseTimestamp_behindFields, count, records]
  dsimp only
  rw [ending]
  rfl

/-!
## Partitions
-/

def parsedPartition (topicName : Bytes) (batch : RecordBatch) : ParsedPartitionData :=
  ParsedPartitionData.behindBatch
    { topicName, partitionIndex := batch.partition, wireBatchSize := (ofNat batch.data.length).toInt } batch

theorem parseBatchSet_data (within : batch.WithinLimits) (pd : ParsedPartitionData)
    {fuel : Nat} (enough : 0 < fuel) (rest : Bytes) :
    parseBatchSet rest.length fuel pd (batch.data ++ rest) = (pd.behindBatch batch, rest) := by
  have read := reads_recordBatch within pd rest
  have more : ¬(batch.data ++ rest).length ≤ rest.length := by
    rw [data_eq within.nonempty, length_append, length_append, length_front]
    omega
  obtain ⟨fuel, rfl⟩ := Nat.exists_eq_succ_of_ne_zero enough.ne'
  rw [parseBatchSet, if_neg more, read]
  dsimp only [pure, Except.pure]
  cases fuel with
  | zero => rfl
  | succ fuel => rw [parseBatchSet, if_pos le_rfl]

theorem serializePartition_eq (batch : RecordBatch) : serializePartition batch =
    writeInt32Be batch.partition ++ (writeInt32Be (ofNat batch.data.length) ++ batch.data) := rfl

theorem reads_partition (within : batch.WithinLimits) (topicName : Bytes) (p : Nat) :
    Reads (parsePartition topicName p) (serializePartition batch) (parsedPartition topicName batch) := by
  have size := within.size
  unfold kDefaultMaxMessageBytes at size
  have positive : 0 < batch.data.length := by
    rw [data_eq within.nonempty, length_append, length_front]
    omega
  have length : (ofNat batch.data.length).toInt.toNat = batch.data.length := by
    rw [toInt_int32_length (by omega), Int.toNat_natCast]
  rw [serializePartition_eq]
  refine (reads_int32 _ _).bind ?_
  rw [if_neg (not_lt.mpr within.partition)]
  refine (reads_int32 _ _).bind ?_
  rw [if_neg (not_int32_length_neg (by omega)), length]
  refine Reads.needing _ ?_ le_rfl
  intro rest
  have behind : (batch.data ++ rest).length - batch.data.length = rest.length := by
    rw [length_append]
    omega
  change Except.ok _ = _
  rw [behind, parseBatchSet_data within _ positive rest]
  rfl

theorem reads_partitions {batches : List RecordBatch} (within : ∀ batch ∈ batches, batch.WithinLimits)
    (topicName : Bytes) (p : Nat) :
    Reads (parsePartitions topicName batches.length p) (batches.flatMap serializePartition)
      (batches.map (parsedPartition topicName)) := by
  induction batches generalizing p with
  | nil => exact Reads.pure []
  | cons batch batches ih =>
    have rest := ih (fun other member => within other (mem_cons_of_mem batch member)) (p + 1)
    rw [flatMap_cons]
    exact (reads_partition (within batch mem_cons_self) topicName p).bind rest.map

section

variable {str : Bytes} (otherwise : ParseError) (short : str.length < 32768)

include short

theorem reads_string :
    Reads (readString otherwise) (writeString str) str := by
  rw [writeString_eq short]
  refine (reads_int16 _ _).bind ?_
  rw [if_neg (not_int16_length_neg short), Int16.toInt_ofNat_of_lt short, Int.toNat_natCast]
  exact reads_blockOf _ str rfl

theorem reads_nullableString :
    Reads (readNullableString otherwise) (writeNullableString str) str := by
  unfold writeNullableString
  split
  next empty =>
    rw [← append_nil (writeInt16Be (-1)), isEmpty_iff.mp empty]
    refine (reads_int16 _ (-1)).bind ?_
    rw [if_pos rfl]
    exact Reads.pure []
  next =>
    have present : Int16.ofNat str.length ≠ -1 := by
      intro null
      have negative : Int16.ofNat str.length < 0 := by
        rw [null]
        decide
      exact not_int16_length_neg short negative
    rw [writeString_eq short]
    refine (reads_int16 _ _).bind ?_
    rw [if_neg present, if_neg (not_int16_length_neg short), Int16.toInt_ofNat_of_lt short, Int.toNat_natCast]
    exact reads_blockOf _ str rfl

end

/-!
## Requests
-/

structure FitsGroup (group : Bytes × List RecordBatch) : Prop where
  topicNonempty : group.1 ≠ []
  topicLength : group.1.length < 32768
  count : group.2.length < 2 ^ 31
  each : ∀ batch ∈ group.2, batch.WithinLimits

theorem reads_topic {group : Bytes × List RecordBatch} (fits : FitsGroup group) (t : Nat) :
    Reads (parseTopic t) (serializeTopic group) (group.2.map (parsedPartition group.1)) := by
  have named : ¬group.1.isEmpty = true := fun empty => fits.topicNonempty (isEmpty_iff.mp empty)
  unfold serializeTopic
  refine (reads_string _ fits.topicLength).bind ?_
  rw [if_neg named]
  refine (reads_int32 _ _).bind ?_
  rw [if_neg (not_int32_length_neg fits.count), toInt_int32_length fits.count, Int.toNat_natCast]
  exact reads_partitions fits.each group.1 0

theorem reads_topics {groups : List (Bytes × List RecordBatch)} (fit : ∀ group ∈ groups, FitsGroup group)
    (t : Nat) : Reads (parseTopics groups.length t) (groups.flatMap serializeTopic)
      (groups.flatMap fun group => group.2.map (parsedPartition group.1)) := by
  induction groups generalizing t with
  | nil => exact Reads.pure []
  | cons group groups ih =>
    have rest := ih (fun other member => fit other (mem_cons_of_mem group member)) (t + 1)
    rw [flatMap_cons, flatMap_cons]
    exact (reads_topic (fit group mem_cons_self) t).bind rest.map

def RecordBatch.delivery (batch : RecordBatch) : Bytes × Int32 × Bool × List Record :=
  (batch.topic, batch.partition, batch.isTransactional, batch.records)

def ParsedPartitionData.delivery (pd : ParsedPartitionData) : Bytes × Int32 × Bool × List Record :=
  (pd.topicName, pd.partitionIndex, pd.isTransactional, pd.batch.records.map fun record =>
    { key := record.key, value := record.value, headers := record.headers, timestamp := record.timestamp })

theorem delivery_parsedPartition (batch : RecordBatch) : (parsedPartition batch.topic batch).delivery = batch.delivery := by
  unfold ParsedPartitionData.delivery parsedPartition ParsedPartitionData.behindBatch delivery
  dsimp only [ParsedPartitionData.behindFields, ParsedPartitionData.behindFront]
  rw [nil_append, map_map]
  congr 3
  exact zipIdx_map_fst 0 batch.records

theorem parseError_parsedPartition (topicName : Bytes) (batch : RecordBatch) :
    (parsedPartition topicName batch).parseError = none := rfl

def byTopic (batches : List RecordBatch) : List RecordBatch :=
  (keysOf topic batches).flatMap (valuesOf topic batches)

namespace ProduceRequest

structure WithinLimits (req : ProduceRequest) : Prop where
  transactionId : req.transactionId.length < 32768
  acks : -1 ≤ req.acks ∧ req.acks ≤ 1
  timeoutMs : 0 ≤ req.timeoutMs
  batches : ∀ batch ∈ req.batches, batch.WithinLimits

structure Counted (req : ProduceRequest) : Prop where
  topics : (keysOf RecordBatch.topic req.batches).length < 2 ^ 31
  partitions : ∀ topic, (valuesOf RecordBatch.topic req.batches topic).length < 2 ^ 31

def RoundTrips (req : ProduceRequest) : Prop :=
  ∃ parsed, parse (serializeProduceRequest req) = .ok parsed ∧
    (∀ pd ∈ parsed.partitions, pd.parseError = none) ∧ parsed.transactionId = req.transactionId ∧
    parsed.acks = req.acks ∧ parsed.timeoutMs = req.timeoutMs ∧
    parsed.partitions.map ParsedPartitionData.delivery = (byTopic req.batches).map delivery

variable {req : ProduceRequest}

theorem fitsGroup (within : req.WithinLimits) (counted : req.Counted) :
    ∀ group ∈ grouped RecordBatch.topic req.batches, FitsGroup group := by
  intro group member
  rw [grouped_eq] at member
  obtain ⟨topic, appears, rfl⟩ := mem_map.mp member
  obtain ⟨batch, inside, rfl⟩ := mem_map.mp (mem_keysOf.mp appears)
  have limits := within.batches batch inside
  refine ⟨limits.topicNonempty, limits.topicLength, counted.partitions batch.topic, ?_⟩
  intro other listed
  exact within.batches other (mem_filter.mp listed).1

def parsed (req : ProduceRequest) : ParsedRequest where
  transactionId := req.transactionId
  acks := req.acks
  timeoutMs := req.timeoutMs
  partitions := (grouped topic req.batches).flatMap fun group => group.2.map (parsedPartition group.1)

theorem serialize_eq (req : ProduceRequest) : serializeProduceRequest req =
    writeNullableString req.transactionId ++ (writeInt16Be req.acks ++ (writeInt32Be req.timeoutMs ++
      (writeInt32Be (ofNat (grouped topic req.batches).length) ++
        (grouped topic req.batches).flatMap serializeTopic))) := by
  unfold serializeProduceRequest
  split
  next empty =>
    rw [isEmpty_iff.mp empty]
    rfl
  next => rfl

theorem reads_request (within : req.WithinLimits) (counted : req.Counted) :
    Reads parseRequest (serializeProduceRequest req) req.parsed := by
  have few : (grouped RecordBatch.topic req.batches).length < 2 ^ 31 := by
    rw [grouped_eq, length_map]
    exact counted.topics
  have known : ¬(req.acks < -1 ∨ 1 < req.acks) := by
    rintro (low | high)
    · exact Int16.not_lt.mpr within.acks.1 low
    · exact Int16.not_lt.mpr within.acks.2 high
  have patient : ¬req.timeoutMs < 0 := not_lt.mpr within.timeoutMs
  rw [serialize_eq]
  refine (reads_nullableString _ within.transactionId).bind ((reads_int16 _ _).bind ?_)
  rw [if_neg known]
  refine (reads_int32 _ _).bind ((reads_int32 _ _).bind ?_)
  rw [if_neg (not_int32_length_neg few), if_neg patient, toInt_int32_length few, Int.toNat_natCast]
  exact (reads_topics (fitsGroup within counted) 0).map

/-- A request within the limits of the parser comes back from its wire form. -/
theorem produce_request_round_trip {req : ProduceRequest} (within : req.WithinLimits) (counted : req.Counted) :
    req.RoundTrips := by
  have read := reads_request within counted []
  rw [append_nil] at read
  refine ⟨req.parsed, ?_, ?_, rfl, rfl, rfl, ?_⟩
  · exact congrArg (Except.map Prod.fst) read
  · intro pd member
    obtain ⟨group, -, inside⟩ := mem_flatMap.mp member
    obtain ⟨batch, -, rfl⟩ := mem_map.mp inside
    exact parseError_parsedPartition group.1 batch
  · unfold parsed byTopic
    dsimp only
    rw [grouped_eq, flatMap_map, map_flatMap, map_flatMap]
    refine flatMap_congr ?_
    intro topic _
    rw [map_map]
    refine map_congr_left ?_
    intro batch member
    have same : batch.topic = topic := of_decide_eq_true (mem_filter.mp member).2
    rw [← same]
    exact delivery_parsedPartition batch

def smallBatch : RecordBatch := { topic := [97], records := [{ value := [118] }] }

theorem within_smallBatch : smallBatch.WithinLimits where
  nonempty := cons_ne_nil _ _
  size := by decide +kernel
  count := by decide
  headers := by
    intro record member
    cases mem_singleton.mp member
    exact ⟨Nat.zero_le _, fun header inside => (not_mem_nil inside).elim⟩
  topicNonempty := cons_ne_nil _ _
  topicLength := by decide
  partition := by decide
  uncompressed := rfl

def copies (count : Nat) : ProduceRequest := { acks := 1, timeoutMs := 0, batches := replicate count smallBatch }

variable (count : Nat)

theorem within_copies : (copies count).WithinLimits where
  transactionId := show ([] : Bytes).length < 32768 by decide
  acks := show -1 ≤ (1 : Int16) ∧ (1 : Int16) ≤ 1 by decide
  timeoutMs := show 0 ≤ (0 : Int32) by decide
  batches := by
    intro batch member
    rw [(mem_replicate.mp member).2]
    exact within_smallBatch

theorem valuesOf_copies (topic : Bytes) :
    valuesOf RecordBatch.topic (replicate count smallBatch) topic =
      if smallBatch.topic = topic then replicate count smallBatch else [] := by
  unfold valuesOf
  by_cases same : smallBatch.topic = topic
  · rw [if_pos same]
    refine filter_eq_self.mpr ?_
    intro batch member
    rw [(mem_replicate.mp member).2]
    exact decide_eq_true same
  · rw [if_neg same]
    refine filter_eq_nil_iff.mpr ?_
    intro batch member equal
    rw [(mem_replicate.mp member).2] at equal
    exact same (of_decide_eq_true equal)

theorem keysOf_copies :
    keysOf topic (replicate (count + 1) smallBatch) = [smallBatch.topic] := by
  induction count with
  | zero => rfl
  | succ count ih =>
    have present : smallBatch.topic ∈ (replicate (count + 1) smallBatch).map topic :=
      mem_map.mpr ⟨smallBatch, mem_replicate.mpr ⟨Nat.succ_ne_zero count, rfl⟩, rfl⟩
    rw [replicate_succ', keysOf_concat, if_pos present, ih]

theorem grouped_copies : grouped topic (copies (count + 1)).batches =
    [(smallBatch.topic, replicate (count + 1) smallBatch)] := by
  unfold copies
  dsimp only
  rw [grouped_eq, keysOf_copies, map_singleton, valuesOf_copies, if_pos rfl]

theorem produce_request_round_trip_copies : ((copies 3).WithinLimits ∧ (copies 3).Counted) ∧ (copies 3).RoundTrips := by
  have counted : (copies 3).Counted := by
    constructor
    · unfold copies
      dsimp only
      rw [keysOf_copies]
      decide
    · intro topic
      unfold copies
      dsimp only
      rw [valuesOf_copies]
      split
      next => decide
      next => decide
  exact ⟨⟨within_copies 3, counted⟩, produce_request_round_trip (within_copies 3) counted⟩

theorem parseTopic_of_negative {topic : Bytes} (nonempty : topic ≠ []) (short : topic.length < 32768)
    {count : Int32} (negative : count < 0) (t : Nat) (rest : Bytes) :
    (parseTopic t).run (writeString topic ++ (writeInt32Be count ++ rest)) =
      .error (.negativePartitionCount topic count) := by
  have named : ¬topic.isEmpty = true := fun empty => nonempty (isEmpty_iff.mp empty)
  unfold parseTopic
  rw [(reads_string _ short).run_bind, if_neg named, (reads_int32 _ count).run_bind, if_pos negative]
  rfl

theorem parse_copies {count : Nat} (wraps : ofNat (count + 1) < 0) :
    parse (serializeProduceRequest (copies (count + 1))) =
      .error (.negativePartitionCount smallBatch.topic (ofNat (count + 1))) := by
  have within := within_copies (count + 1)
  have known : ¬((copies (count + 1)).acks < -1 ∨ 1 < (copies (count + 1)).acks) :=
    show ¬((1 : Int16) < -1 ∨ 1 < (1 : Int16)) by decide
  have topics : (ofNat [(smallBatch.topic, replicate (count + 1) smallBatch)].length).toInt.toNat = 0 + 1 := rfl
  have topicsFit : ¬ofNat [(smallBatch.topic, replicate (count + 1) smallBatch)].length < 0 := by
    rw [length_singleton]
    decide
  have topic : ∀ rest, (parseTopic 0).run
      (serializeTopic (smallBatch.topic, replicate (count + 1) smallBatch) ++ rest) =
        .error (.negativePartitionCount smallBatch.topic (ofNat (count + 1))) := by
    intro rest
    unfold serializeTopic
    rw [append_assoc, append_assoc, length_replicate]
    exact parseTopic_of_negative within_smallBatch.topicNonempty within_smallBatch.topicLength wraps 0 _
  have failure : parseRequest.run (serializeProduceRequest (copies (count + 1))) =
      .error (.negativePartitionCount smallBatch.topic (ofNat (count + 1))) := by
    rw [serialize_eq, grouped_copies]
    unfold parseRequest
    rw [(reads_nullableString _ within.transactionId).run_bind, (reads_int16 _ _).run_bind,
      if_neg known, (reads_int32 _ _).run_bind, (reads_int32 _ _).run_bind, if_neg topicsFit, topics, parseTopics,
      StateT.run_bind, StateT.run_bind, flatMap_cons, topic]
    rfl
  unfold parse
  exact congrArg (Except.map Prod.fst) failure

theorem not_roundTrips_copies : ¬∀ req : ProduceRequest, req.WithinLimits → req.RoundTrips := by
  intro claim
  obtain ⟨parsed, success, -⟩ := claim (copies (2147483647 + 1)) (within_copies _)
  have wraps : ofNat (2147483647 + 1) < 0 := by decide
  rw [parse_copies wraps] at success
  cases success

end ProduceRequest

end TorrentMq.Network
