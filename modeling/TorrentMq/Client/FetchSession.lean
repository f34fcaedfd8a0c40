import TorrentMq.Bytes.Decimal
import TorrentMq.Collections.OrderedMap
import TorrentMq.Network.FetchRequestParser
import TorrentMq.Runs.Basic

/-!
# Fetch session

The partitions that a client has fetched in a session, and how the handler goes
through the partitions of a request: where the session says that there is nothing
new, nothing is read.
-/

set_option autoImplicit false

namespace TorrentMq.Client.FetchHandler

open Bytes Collections Network Network.Fetch

structure PartitionState where
  lastFetchedOffset : Int64 := -1
  logStartOffset : Int64 := -1
  lastFetchTime : Int := 0
  lastLeaderEpoch : Int32 := -1
deriving DecidableEq

structure FetchSession where
  sessionId : Int32 := 0
  epoch : Int32 := 0
  partitions : OrderedMap Bytes PartitionState := .empty

def makeKey (topic : Bytes) (partition : Int32) : Bytes := topic ++ 58 :: decimalInt partition.toInt

def FetchSession.updatePartition (session : FetchSession) (topic : Bytes) (partition : Int32)
    (newOffset lso : Int64) (leaderEpoch : Int32) (now : Int) : FetchSession :=
  { session with
    partitions := session.partitions.insert (makeKey topic partition)
      { lastFetchedOffset := newOffset
        logStartOffset := lso
        lastFetchTime := now
        lastLeaderEpoch := leaderEpoch } }

inductive FetchError where
  | invalidRequest
  | unknownTopicOrPartition
  | topicAuthorizationFailed
  | throttlingQuotaExceeded
  | leaderNotAvailable
  | notLeaderForPartition
  | offsetOutOfRange
deriving DecidableEq

structure LogRecord where
  offset : Int64
  record : Storage.Record

structure FetchPartitionResult where
  topicName : Bytes
  partitionIndex : Int32 := 0
  error : Option FetchError := none
  logStartOffset : Int64 := -1
  records : List LogRecord := []

abbrev Log := Bytes → Int32 → List LogRecord

structure PartitionTurn where
  log : Log
  pf : PerPartitionFetch
  validated : FetchPartitionResult
  /-- How many records a read returns, if there are as many. -/
  count : Nat
  readError : Option FetchError := none
  logStartOffset : Int64 := 0
  now : Int := 0

namespace PartitionTurn

variable (turn : PartitionTurn)

def available : List LogRecord :=
  (turn.log turn.pf.topicName turn.pf.partitionIndex).filter fun record =>
    turn.pf.fetchOffset ≤ record.offset

def fetchPartition : FetchPartitionResult :=
  { turn.validated with
    error := turn.readError
    logStartOffset := turn.logStartOffset
    records := turn.available.take turn.count }

def newOffset : Int64 := turn.pf.fetchOffset + Int64.ofNat turn.fetchPartition.records.length

end PartitionTurn

def applySession (session : FetchSession) (pf : PerPartitionFetch) : Bool :=
  match session.partitions.find? (makeKey pf.topicName pf.partitionIndex) with
  | none => true
  | some ps =>
    if 0 ≤ pf.currentLeaderEpoch ∧ 0 ≤ ps.lastLeaderEpoch ∧ pf.currentLeaderEpoch ≠ ps.lastLeaderEpoch then
      true
    else ps.lastFetchedOffset < pf.fetchOffset

inductive Answer where
  | invalid (result : FetchPartitionResult)
  | noNewData (result : FetchPartitionResult)
  | fetched (result : FetchPartitionResult)

def answer (session : FetchSession) (turn : PartitionTurn) : Answer × FetchSession :=
  let hasNewData := applySession session turn.pf
  if turn.validated.error.isSome then (.invalid turn.validated, session)
  else if hasNewData then
    let result := turn.fetchPartition
    (.fetched result,
      if result.error.isNone then
        session.updatePartition turn.pf.topicName turn.pf.partitionIndex turn.newOffset result.logStartOffset
          turn.pf.currentLeaderEpoch turn.now
      else session)
  else (.noNewData { turn.validated with records := [] }, session)

def step (session : FetchSession) (turn : PartitionTurn) : FetchSession := (answer session turn).2

def handlePartitions (session : FetchSession) : List PartitionTurn → List Answer × FetchSession
  | [] => ([], session)
  | turn :: turns =>
    let (first, session) := answer session turn
    let (others, session) := handlePartitions session turns
    (first :: others, session)

def handleRequests (session : FetchSession) : List (List PartitionTurn) → List (List Answer) × FetchSession
  | [] => ([], session)
  | turns :: requests =>
    let (answers, session) := handlePartitions session turns
    let (others, session) := handleRequests session requests
    (answers :: others, session)

end TorrentMq.Client.FetchHandler
