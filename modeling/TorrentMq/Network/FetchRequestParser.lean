import TorrentMq.Network.ProduceRequestParser

/-!
# Fetch request parser

How the broker takes a fetch request apart. Some fields may be missing and have
defaults; a partition that does not parse is kept with its error.
-/

set_option autoImplicit false

namespace TorrentMq.Network.Fetch

open Bytes Reader

def kDefaultFetchMaxBytes : Int32 := 50 * 1024 * 1024

def kIsolationReadUncommitted : Int8 := 0

def kIsolationReadCommitted : Int8 := 1

inductive FetchParseError where
  | replicaId
  | maxWaitMs
  | minBytes
  | topicCount
  | negativeTopicCount (count : Int32)
  | topicName
  | emptyTopicName
  | partitionCount (topic : Bytes)
  | negativePartitionCount (topic : Bytes) (count : Int32)
  | partitionIndex (topic : Bytes)
  | negativePartitionIndex (index : Int32) (topic : Bytes)
  | fetchOffset (topic : Bytes) (index : Int32)
  | partitionMaxBytes (topic : Bytes) (index : Int32)
deriving DecidableEq

structure PerPartitionFetch where
  topicName : Bytes
  partitionIndex : Int32 := 0
  fetchOffset : Int64 := 0
  logStartOffset : Int64 := 0
  partitionMaxBytes : Int32 := 1048576
  currentLeaderEpoch : Int32 := -1
  parseError : Option FetchParseError := none
deriving DecidableEq

structure ParsedFetch where
  replicaId : Int32
  maxWaitMs : Int32
  minBytes : Int32
  maxBytes : Int32
  isolationLevel : Int8
  sessionId : Int32
  sessionEpoch : Int32
  partitions : List PerPartitionFetch
deriving DecidableEq

abbrev FetchParser := StateT Bytes (Except FetchParseError)

section

variable {Error Value : Type}

def optionally (width : Nat) (fallback : Value) (reader : StateT Bytes (Except Error) Value) :
    StateT Bytes (Except Error) Value := fun bytes =>
  if bytes.length < width then .ok (fallback, bytes) else reader.run bytes

end

def readTopicName : FetchParser Bytes := do
  let len ← readInt16Be fun _ => .topicName
  if len < 0 then throw .topicName
  else needing len.toInt.toNat (throw .topicName) (block len.toInt.toNat)

structure PartitionFailure where
  error : FetchParseError
  rest : Bytes
  pf : PerPartitionFetch

abbrev PartitionParser := StateT Bytes (Except PartitionFailure)

def failing (error : FetchParseError) (pf : PerPartitionFetch) (rest : Bytes) : PartitionFailure :=
  ⟨error, rest, pf⟩

def parsePartition (pf : PerPartitionFetch) : PartitionParser PerPartitionFetch := do
  let partitionIndex ← readInt32Be (failing (.partitionIndex pf.topicName) pf)
  let pf := { pf with partitionIndex }
  if partitionIndex < 0 then
    fun rest => .error (failing (.negativePartitionIndex partitionIndex pf.topicName) pf rest)
  else
    let epoch ← optionally 4 (-1) (readInt32Be (failing (.partitionIndex pf.topicName) pf))
    let pf := { pf with currentLeaderEpoch := if epoch < -1 then -1 else epoch }
    let fetchOffset ← readInt64Be (failing (.fetchOffset pf.topicName partitionIndex) pf)
    let pf := { pf with fetchOffset }
    let logStartOffset ← optionally 8 0 (readInt64Be (failing (.fetchOffset pf.topicName partitionIndex) pf))
    let pf := { pf with logStartOffset }
    let maxBytes ← readInt32Be (failing (.partitionMaxBytes pf.topicName partitionIndex) pf)
    let maxBytes := if maxBytes ≤ 0 then 1048576 else maxBytes
    return { pf with partitionMaxBytes := if 100 * 1024 * 1024 < maxBytes then 100 * 1024 * 1024 else maxBytes }

def parsePartitions (topicName : Bytes) : Nat → Bytes → List PerPartitionFetch × Bytes
  | 0, bytes => ([], bytes)
  | count + 1, bytes =>
    match (parsePartition { topicName }).run bytes with
    | .error failure =>
      let (partitions, rest) := parsePartitions topicName count failure.rest
      ({ failure.pf with parseError := some failure.error } :: partitions, rest)
    | .ok (pf, rest) =>
      let (partitions, rest) := parsePartitions topicName count rest
      (pf :: partitions, rest)

def parseTopic : FetchParser (List PerPartitionFetch) := do
  let topicName ← readTopicName
  if topicName.isEmpty then throw .emptyTopicName
  else
    let partitionCount ← readInt32Be fun _ => .partitionCount topicName
    if partitionCount < 0 then throw (.negativePartitionCount topicName partitionCount)
    else fun bytes => .ok (parsePartitions topicName partitionCount.toInt.toNat bytes)

def parseTopics : Nat → FetchParser (List PerPartitionFetch)
  | 0 => pure []
  | count + 1 => do
    let partitions ← parseTopic
    let others ← parseTopics count
    return partitions ++ others

def parseSession : FetchParser (Int8 × Int32 × Int32) := do
  -- Where there is no isolation level, the source steps a byte back, and the topics are missing as well.
  let isolation ← readInt8 fun _ => .topicCount
  let isolation := if isolation ≠ kIsolationReadUncommitted ∧ isolation ≠ kIsolationReadCommitted then
    kIsolationReadUncommitted else isolation
  let sessionId ← optionally 4 0 (readInt32Be fun _ => .topicCount)
  let sessionEpoch ← optionally 4 0 (readInt32Be fun _ => .topicCount)
  return (isolation, sessionId, sessionEpoch)

def parseRequest : FetchParser ParsedFetch := do
  let replicaId ← readInt32Be fun _ => .replicaId
  let maxWaitMs ← readInt32Be fun _ => .maxWaitMs
  let maxWaitMs := if maxWaitMs < 0 then 0 else if 60000 < maxWaitMs then 60000 else maxWaitMs
  let minBytes ← readInt32Be fun _ => .minBytes
  let minBytes := if minBytes < 0 then 0 else minBytes
  let maxBytes ← optionally 4 kDefaultFetchMaxBytes (readInt32Be fun _ => .topicCount)
  let maxBytes := if maxBytes ≤ 0 then kDefaultFetchMaxBytes else maxBytes
  let (isolationLevel, sessionId, sessionEpoch) ← parseSession
  let topicCount ← readInt32Be fun _ => .topicCount
  if topicCount < 0 then throw (.negativeTopicCount topicCount)
  else
    let partitions ← parseTopics topicCount.toInt.toNat
    return { replicaId, maxWaitMs, minBytes, maxBytes, isolationLevel, sessionId, sessionEpoch, partitions }

def parse (body : Bytes) : Except FetchParseError ParsedFetch := parseRequest.run' body

end TorrentMq.Network.Fetch
