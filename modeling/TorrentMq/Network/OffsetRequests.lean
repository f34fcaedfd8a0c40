import TorrentMq.Network.ProtocolSerializer

/-! The requests for records and for offsets, and their wire form. -/

set_option autoImplicit false

namespace TorrentMq.Network

open Bytes

structure TopicPartition where
  topic : Bytes
  partition : Int32
deriving DecidableEq

structure FetchRequest where
  maxWaitMs : Int32
  minBytes : Int32
  maxBytes : Int32
  isolationLevel : Int8
  sessionId : Int32
  sessionEpoch : Int32
  partitions : List TopicPartition
  fetchOffsets : List Int64
deriving DecidableEq

structure ListOffsetsRequest where
  replicaId : Int32
  isolationLevel : Int8
  partitions : List TopicPartition
  timestamps : List Int64
deriving DecidableEq

structure OffsetCommitRequest where
  groupId : Bytes
  generationId : Int32
  memberId : Bytes
  groupInstanceId : Bytes
  retentionMs : Int64
  partitions : List TopicPartition
  offsets : List Int64
  metadata : List Bytes
deriving DecidableEq

structure OffsetFetchRequest where
  groupId : Bytes
  partitions : List TopicPartition
deriving DecidableEq

def besides {Item Value : Type} (fallback : Value) : List Item → List Value → List (Item × Value)
  | [], _ => []
  | item :: items, [] => (item, fallback) :: besides fallback items []
  | item :: items, value :: values => (item, value) :: besides fallback items values

def serializeFetchPartition (maxBytes : Int32) (entry : TopicPartition × Int64) : Bytes :=
  writeString entry.1.topic ++ (writeInt32Be 1 ++ (writeInt32Be entry.1.partition ++ (writeInt64Be entry.2 ++
  (writeInt64Be 0 ++ writeInt32Be maxBytes))))

def serializeFetchRequest (req : FetchRequest) : Bytes :=
  writeInt32Be req.maxWaitMs ++ (writeInt32Be req.minBytes ++ (writeInt32Be req.maxBytes ++
  (writeInt8 req.isolationLevel ++ (writeInt32Be req.sessionId ++ (writeInt32Be req.sessionEpoch ++
  (writeInt32Be (Int32.ofNat req.partitions.length) ++
    (besides 0 req.partitions req.fetchOffsets).flatMap (serializeFetchPartition req.maxBytes)))))))

def serializeListOffsetsPartition (entry : TopicPartition × Int64) : Bytes :=
  writeString entry.1.topic ++ (writeInt32Be 1 ++ (writeInt32Be entry.1.partition ++ writeInt64Be entry.2))

def serializeListOffsetsRequest (req : ListOffsetsRequest) : Bytes :=
  writeInt32Be req.replicaId ++ (writeInt8 req.isolationLevel ++
  (writeInt32Be (Int32.ofNat req.partitions.length) ++
    (besides (-1) req.partitions req.timestamps).flatMap serializeListOffsetsPartition))

def serializeOffsetCommitPartition (entry : (TopicPartition × Int64) × Bytes) : Bytes :=
  writeString entry.1.1.topic ++ (writeInt32Be entry.1.1.partition ++ (writeInt64Be entry.1.2 ++
  writeString entry.2))

def serializeOffsetCommitRequest (req : OffsetCommitRequest) : Bytes :=
  writeString req.groupId ++ (writeInt32Be req.generationId ++ (writeString req.memberId ++
  (writeNullableString req.groupInstanceId ++ (writeInt64Be req.retentionMs ++
  (writeInt32Be (Int32.ofNat req.partitions.length) ++
    (besides [] (besides (-1) req.partitions req.offsets) req.metadata).flatMap serializeOffsetCommitPartition)))))

def serializeOffsetFetchPartition (entry : TopicPartition) : Bytes :=
  writeString entry.topic ++ writeInt32Be entry.partition

def serializeOffsetFetchRequest (req : OffsetFetchRequest) : Bytes :=
  writeString req.groupId ++ (writeInt32Be (Int32.ofNat req.partitions.length) ++
    req.partitions.flatMap serializeOffsetFetchPartition)

end TorrentMq.Network
