import TorrentMq.Bytes.Decimal
import TorrentMq.Bytes.Text
import TorrentMq.Network.GroupRequestParser
import TorrentMq.Network.OffsetRequests

/-!
# Offset request parser

How the offset handler takes its requests apart. Fields that the newer versions
have added may be missing; a request that does not parse ends with a message.
-/

set_option autoImplicit false

namespace TorrentMq.Network.Offset

open Bytes Reader TorrentMq.Network.Group

def kMaxTopicsPerRequest : Int32 := 1000

def kMaxPartitionsPerTopic : Int32 := 10000

def kMaxCommitMetadataBytes : Nat := 4096

def kMaxGroupIdLength : Nat := 256

abbrev OffsetParser := StateT Bytes (Except Bytes)

section

variable {Value : Type}

def taking (reader : Cursor Value) : OffsetParser Value := fun bytes => .ok (reader.run bytes)

def refuse (message : Bytes) : OffsetParser Value := fun _ => .error message

def checked (width : Nat) (message : Bytes) (reader : Cursor Value) : OffsetParser Value :=
  needing width (refuse message) (taking reader)

def ifLeft (width : Nat) (fallback : Value) (reader : Cursor Value) : OffsetParser Value := fun bytes =>
  if bytes.length < width then .ok (fallback, bytes) else .ok (reader.run bytes)

def concatenated (parser : Nat → OffsetParser (List Value)) : Nat → Nat → OffsetParser (List Value)
  | _, 0 => pure []
  | index, count + 1 => do
    let values ← parser index
    let others ← concatenated parser (index + 1) count
    return values ++ others

def times (parser : OffsetParser Value) : Nat → OffsetParser (List Value)
  | 0 => pure []
  | count + 1 => do
    let value ← parser
    let values ← times parser count
    return value :: values

end

def readInt8Or : Cursor Int8 := do
  let raw ← readBigOr 1
  return (UInt8.ofNat raw).toInt8

def readInt64 : Cursor Int64 := do
  let raw ← readBigOr 8
  return (UInt64.ofNat raw).toInt64

def parseTopicName (api : Bytes) (t : Nat) : OffsetParser Bytes := do
  let topicName ← taking Group.readString
  if topicName.isEmpty then refuse (api ++ (text ": empty topic name at index " ++ decimal t)) else return topicName

def parseCount (lowest highest : Int32) (message : Int32 → Bytes) : OffsetParser Int32 := do
  let count ← taking readInt32
  if count < lowest ∨ highest < count then refuse (message count) else return count

def parseGroupId (api : Bytes) : OffsetParser Bytes := do
  let groupId ← taking Group.readString
  if groupId.isEmpty ∨ kMaxGroupIdLength < groupId.length then refuse (api ++ text ": invalid group_id")
  else return groupId

structure ParsedListOffsetsPartition where
  topicName : Bytes
  partitionIndex : Int32
  currentLeaderEpoch : Int32
  timestamp : Int64
  maxNumOffsets : Int32
deriving DecidableEq

structure ParsedListOffsetsRequest where
  replicaId : Int32
  isolationLevel : Int8
  partitions : List ParsedListOffsetsPartition
deriving DecidableEq

def parseListOffsetsPartition (topicName : Bytes) : OffsetParser ParsedListOffsetsPartition := do
  let partitionIndex ← checked 4 (text "ListOffsets: buffer underrun at partition_index") readInt32
  let currentLeaderEpoch ← checked 4 (text "ListOffsets: buffer underrun at current_leader_epoch") readInt32
  let timestamp ← checked 8 (text "ListOffsets: buffer underrun at timestamp") readInt64
  let read ← ifLeft 4 1 readInt32
  let maxNumOffsets := if read < 0 then 1 else if 100 < read then 100 else read
  return { topicName, partitionIndex, currentLeaderEpoch, timestamp, maxNumOffsets }

def parseListOffsetsTopic (t : Nat) : OffsetParser (List ParsedListOffsetsPartition) := do
  let topicName ← parseTopicName (text "ListOffsets") t
  let partitionCount ← parseCount 0 kMaxPartitionsPerTopic fun count =>
    text "ListOffsets: invalid partition_count for topic '" ++ (topicName ++ (text "': " ++ decimalInt count.toInt))
  times (parseListOffsetsPartition topicName) partitionCount.toInt.toNat

def listOffsetsRequest : OffsetParser ParsedListOffsetsRequest := do
  let replicaId ← checked 4 (text "ListOffsets: buffer too short for replica_id") readInt32
  let isolation ← checked 1 (text "ListOffsets: buffer too short for isolation_level") readInt8Or
  let isolationLevel := if isolation < 0 ∨ 1 < isolation then 0 else isolation
  let topicCount ← parseCount 0 kMaxTopicsPerRequest fun count =>
    text "ListOffsets: invalid topic_count " ++ decimalInt count.toInt
  let partitions ← concatenated parseListOffsetsTopic 0 topicCount.toInt.toNat
  return { replicaId, isolationLevel, partitions }

structure ParsedOffsetCommitPartition where
  topicName : Bytes
  partitionIndex : Int32
  committedOffset : Int64
  committedLeaderEpoch : Int32
  committedMetadata : Bytes
  parseError : Option Bytes
deriving DecidableEq

structure ParsedOffsetCommitRequest where
  groupId : Bytes
  generationId : Int32
  memberId : Bytes
  groupInstanceId : Bytes
  retentionTimeMs : Int64
  partitions : List ParsedOffsetCommitPartition
deriving DecidableEq

def parseOffsetCommitPartition (topicName : Bytes) : OffsetParser ParsedOffsetCommitPartition := do
  let partitionIndex ← checked 4 (text "OffsetCommit: buffer underrun at partition_index") readInt32
  let committedOffset ← checked 8 (text "OffsetCommit: buffer underrun at committed_offset") readInt64
  let committedLeaderEpoch ← ifLeft 4 (-1) readInt32
  let committedMetadata ← ifLeft 2 [] Group.readNullableString
  let parseError :=
    if kMaxCommitMetadataBytes < committedMetadata.length then
      some (text "OffsetCommit: metadata too large (" ++ (decimal committedMetadata.length ++
        (text " bytes, max " ++ (decimal kMaxCommitMetadataBytes ++ text ")"))))
    else none
  return { topicName, partitionIndex, committedOffset, committedLeaderEpoch, committedMetadata, parseError }

def parseOffsetCommitTopic (t : Nat) : OffsetParser (List ParsedOffsetCommitPartition) := do
  let topicName ← parseTopicName (text "OffsetCommit") t
  let partitionCount ← parseCount 0 kMaxPartitionsPerTopic fun _ =>
    text "OffsetCommit: invalid partition_count for topic '" ++ (topicName ++ text "'")
  times (parseOffsetCommitPartition topicName) partitionCount.toInt.toNat

def offsetCommitRequest : OffsetParser ParsedOffsetCommitRequest := do
  let groupId ← parseGroupId (text "OffsetCommit")
  let generationId ← checked 4 (text "OffsetCommit: buffer underrun at generation_id") readInt32
  let memberId ← taking Group.readString
  if memberId.isEmpty then refuse (text "OffsetCommit: missing member_id")
  else
    let groupInstanceId ← ifLeft 2 [] Group.readNullableString
    let retentionTimeMs ← checked 8 (text "OffsetCommit: buffer underrun at retention_time_ms") readInt64
    let topicCount ← parseCount 0 kMaxTopicsPerRequest fun _ => text "OffsetCommit: invalid topic_count"
    let partitions ← concatenated parseOffsetCommitTopic 0 topicCount.toInt.toNat
    return { groupId, generationId, memberId, groupInstanceId, retentionTimeMs, partitions }

structure ParsedOffsetFetchPartition where
  topicName : Bytes
  partitionIndex : Int32
deriving DecidableEq

structure ParsedOffsetFetchRequest where
  groupId : Bytes
  partitions : List ParsedOffsetFetchPartition
  fetchAll : Bool
deriving DecidableEq

def parseOffsetFetchPartition (topicName : Bytes) : OffsetParser ParsedOffsetFetchPartition := do
  let partitionIndex ← checked 4 (text "OffsetFetch: buffer underrun at partition_index") readInt32
  return { topicName, partitionIndex }

def parseOffsetFetchTopic (t : Nat) : OffsetParser (List ParsedOffsetFetchPartition) := do
  let topicName ← parseTopicName (text "OffsetFetch") t
  let partitionCount ← parseCount (-1) kMaxPartitionsPerTopic fun _ =>
    text "OffsetFetch: invalid partition_count for topic '" ++ (topicName ++ text "'")
  if partitionCount = -1 then return [{ topicName, partitionIndex := -1 }]
  else times (parseOffsetFetchPartition topicName) partitionCount.toInt.toNat

def offsetFetchRequest : OffsetParser ParsedOffsetFetchRequest := do
  let groupId ← parseGroupId (text "OffsetFetch")
  -- The oldest version has no topics and asks for all of them.
  let topicCount ← ifLeft 4 (-1) readInt32
  if topicCount = -1 then return { groupId, partitions := [], fetchAll := true }
  else if topicCount < 0 ∨ kMaxTopicsPerRequest < topicCount then refuse (text "OffsetFetch: invalid topic_count")
  else
    let partitions ← concatenated parseOffsetFetchTopic 0 topicCount.toInt.toNat
    return { groupId, partitions, fetchAll := false }

def parseListOffsetsRequest (body : Bytes) : Except Bytes ParsedListOffsetsRequest :=
  listOffsetsRequest.run' body

def parseOffsetCommitRequest (body : Bytes) : Except Bytes ParsedOffsetCommitRequest :=
  offsetCommitRequest.run' body

def parseOffsetFetchRequest (body : Bytes) : Except Bytes ParsedOffsetFetchRequest :=
  offsetFetchRequest.run' body

end TorrentMq.Network.Offset
