import TorrentMq.Storage.IdealSegment

/-!
# The log manager

The segments of one partition replica: appends that roll, truncation,
compaction, retention, archiving, and reads across segments.
-/

set_option autoImplicit false

namespace TorrentMq.Storage

inductive CleanupPolicy where
  | deleteOnly
  | compactOnly
  | compactAndDelete
deriving DecidableEq

structure TopicConfig where
  retentionMs : Int := 604800000
  retentionBytes : Int := -1
  segmentBytes : Int := 1073741824
  segmentMs : Int := 604800000
  policy : CleanupPolicy := .deleteOnly
  compression : CompressionType := .none
  minCompactionLagMs : Int := 0
deriving DecidableEq

structure LogManagerConfig where
  topicConfig : TopicConfig := {}
  maxHotSegments : Int := 0
  minHotSegments : Int := 2
  tieredStorageEndpoint : String := ""
deriving DecidableEq

/-- The log of a partition: its segments in order, and which of them is active. -/
structure LogManager where
  config : LogManagerConfig
  segments : List IdealSegment := []
  activeIndex : Nat := 0
  highWatermark : Int := kInvalidOffset
  lastStableOffset : Int := kInvalidOffset
  logStartOffset : Int := kInvalidOffset
  isOpen : Bool := false
  nextSegmentId : Nat := 0
deriving DecidableEq

namespace LogManager

def new (config : LogManagerConfig) : LogManager :=
  let minHotSegments := if config.minHotSegments < 0 then 0 else config.minHotSegments
  let maxHotSegments :=
    if 0 < config.maxHotSegments ∧ config.maxHotSegments < minHotSegments then minHotSegments
    else config.maxHotSegments
  { config := { config with minHotSegments, maxHotSegments } }

def createSegment (baseOffset : Int) (segmentId : Nat) (now : Int64) : IdealSegment :=
  { segmentId, baseOffset, createdAt := now }

def «open» (manager : LogManager) (discovered : List IdealSegment) (now : Int64) : LogManager :=
  if manager.isOpen then manager
  else
    let nextSegmentId := discovered.foldl
      (fun next segment => if next ≤ segment.segmentId then segment.segmentId + 1 else next) manager.nextSegmentId
    let sorted := (manager.segments ++ discovered).insertionSort fun left right => left.baseOffset ≤ right.baseOffset
    let (segments, nextSegmentId) :=
      match sorted.getLast? with
      | none => ([createSegment 0 nextSegmentId now], nextSegmentId + 1)
      | some last =>
        if last.isSealed then (sorted ++ [createSegment last.nextOffset nextSegmentId now], nextSegmentId + 1)
        else (sorted, nextSegmentId)
    let minBase := (segments.head?.map (·.baseOffset)).getD 0
    { manager with
      segments
      activeIndex := segments.length - 1
      highWatermark := if manager.highWatermark = kInvalidOffset then minBase else manager.highWatermark
      lastStableOffset := if manager.lastStableOffset = kInvalidOffset then minBase else manager.lastStableOffset
      logStartOffset := minBase
      isOpen := true
      nextSegmentId }

def logEndOffset (manager : LogManager) : Int :=
  match manager.segments.getLast? with
  | none => manager.logStartOffset
  | some last => last.nextOffset

def activeSegment (manager : LogManager) : Option IdealSegment := manager.segments[manager.activeIndex]?

def records (manager : LogManager) : List Record := manager.segments.flatMap IdealSegment.records

def updateLastStableOffset (manager : LogManager) (newLso : Int) : LogManager :=
  if manager.lastStableOffset < newLso then { manager with lastStableOffset := newLso } else manager

/-!
## Appending
-/

def setActive (manager : LogManager) (segment : IdealSegment) : LogManager :=
  { manager with segments := manager.segments.set manager.activeIndex segment }

def rollActiveSegment (manager : LogManager) (now : Int64) : Except LogError LogManager :=
  match manager.activeSegment with
  | none => .error .noActiveSegment
  | some oldActive =>
    let segments := (manager.setActive oldActive.seal).segments ++
      [createSegment oldActive.nextOffset manager.nextSegmentId now]
    .ok
      { manager with
        segments
        activeIndex := segments.length - 1
        nextSegmentId := manager.nextSegmentId + 1 }

def shouldRoll (manager : LogManager) (segment : IdealSegment) (now : Int64) : Bool :=
  let topic := manager.config.topicConfig
  segment.shouldRoll (if topic.segmentBytes ≤ 0 then 1073741824 else topic.segmentBytes)
    (if 0 < topic.segmentMs then topic.segmentMs else 604800000) now

def rollIfDue (manager : LogManager) (now : Int64) : Except LogError LogManager :=
  match manager.activeSegment with
  | none => .error .noActiveSegment
  | some active => if manager.shouldRoll active now then manager.rollActiveSegment now else .ok manager

def append (manager : LogManager) (batch : RecordBatch) (expectedBaseOffset : Int) (now : Int64) :
    LogManager × Except LogError Int :=
  if !manager.isOpen then (manager, .error .notOpen)
  else
    match manager.rollIfDue now with
    | .error error => (manager, .error error)
    | .ok rolled =>
      match rolled.activeSegment with
      | none => (rolled, .error .noActiveSegment)
      | some active =>
        match active.append batch with
        | .error error => (rolled, .error (.segment error))
        | .ok (segment, result) =>
          (rolled.setActive segment,
            if expectedBaseOffset ≠ kInvalidOffset ∧ result.baseOffset ≠ expectedBaseOffset then
              .error (.unexpectedOffset expectedBaseOffset result.baseOffset)
            else .ok result.baseOffset)

def rollBack (manager : LogManager) (active : IdealSegment) (preAppendOffset : Int) : LogManager :=
  match active.truncateTo preAppendOffset with
  | .error _ => manager
  | .ok truncated => manager.setActive truncated

def appendEach (clock : Nat → Int64) (preAppendOffset : Int) :
    Nat → List RecordBatch → LogManager → Int → LogManager × Except LogError Int
  | _, [], manager, firstBaseOffset => (manager, .ok firstBaseOffset)
  | i, batch :: batches, manager, firstBaseOffset =>
    match manager.rollIfDue (clock i) with
    | .error error => (manager, .error error)
    | .ok rolled =>
      match rolled.activeSegment with
      | none => (rolled, .error .noActiveSegment)
      | some active =>
        match active.append batch with
        | .error error => (rolled.rollBack active preAppendOffset, .error (.segment error))
        | .ok (segment, result) =>
          appendEach clock preAppendOffset (i + 1) batches (rolled.setActive segment)
            (if firstBaseOffset = kInvalidOffset then result.baseOffset else firstBaseOffset)

def appendBatch (manager : LogManager) (batches : List RecordBatch) (clock : Nat → Int64) :
    LogManager × Except LogError Int :=
  if !manager.isOpen then (manager, .error .notOpen)
  else if batches.isEmpty then (manager, .error .emptyBatchList)
  else
    match manager.rollIfDue (clock 0) with
    | .error error => (manager, .error error)
    | .ok rolled =>
      match rolled.activeSegment with
      | none => (rolled, .error .noActiveSegment)
      | some active => appendEach clock active.nextOffset 1 batches rolled kInvalidOffset

/-!
## Finding and deleting segments
-/

def lowerBound (segments : List IdealSegment) (offset : Int) : Nat :=
  (segments.takeWhile fun segment => decide (segment.nextOffset ≤ offset)).length

def holds (segment : IdealSegment) (offset : Int) : Bool :=
  decide (segment.baseOffset ≤ offset) && decide (offset < segment.nextOffset)

def findSegmentIndex (manager : LogManager) (offset : Int) : Option Nat :=
  let index := lowerBound manager.segments offset
  if manager.segments[index]?.any (holds · offset) then some index
  else manager.segments.findIdx? (holds · offset)

def deleteSegment (manager : LogManager) (index : Nat) : Except LogError LogManager :=
  if manager.segments.length ≤ index then .error (.indexOutOfRange index manager.segments.length)
  else if index = manager.activeIndex then .error .deletesActive
  else
    let segments := manager.segments.eraseIdx index
    .ok
      { manager with
        segments
        activeIndex := if index < manager.activeIndex then manager.activeIndex - 1 else manager.activeIndex
        logStartOffset := (segments.head?.map (·.baseOffset)).getD manager.logStartOffset }

def tryDelete (manager : LogManager) (index : Nat) : LogManager :=
  match manager.deleteSegment index with
  | .error _ => manager
  | .ok deleted => deleted

/-!
## Truncation
-/

def endAt (manager : LogManager) (target : Nat) (truncatedSeg : IdealSegment) : LogManager :=
  let truncated := { manager with segments := manager.segments.set target truncatedSeg }
  let later := (List.range' (target + 1) (manager.segments.length - 1 - target)).reverse
  let deleted := later.foldl tryDelete truncated
  if truncatedSeg.isSealed then
    let segments := deleted.segments.eraseIdx target
    { deleted with segments, activeIndex := segments.length - 1 }
  else { deleted with activeIndex := target }

def lowerWatermarks (manager : LogManager) (newEndOffset : Int) : LogManager :=
  { manager with
    highWatermark := if newEndOffset < manager.highWatermark then newEndOffset else manager.highWatermark
    lastStableOffset :=
      if newEndOffset < manager.lastStableOffset then newEndOffset else manager.lastStableOffset }

/-- The log end for a thread that may hold the list of segments for itself. The shared lock is refused to
the holder by an exception, which `noexcept` turns into the end of the process (`none`). -/
def getLogEndOffset (manager : LogManager) (listHeld : Bool) : Option Int :=
  if listHeld then none else some manager.logEndOffset

/-- `none` is the end of the process, at the message that reports a truncation. -/
def truncateTo (manager : LogManager) (newEndOffset : Int) : Option (Except LogError LogManager) :=
  if !manager.isOpen then some (.error .notOpen)
  else do
    let logEnd ← manager.getLogEndOffset false
    if newEndOffset < manager.logStartOffset then
      return .error (.beforeLogStart newEndOffset manager.logStartOffset)
    else if logEnd < newEndOffset then return .error (.beyondLogEnd newEndOffset logEnd)
    else
      let targetIdx := (manager.findSegmentIndex newEndOffset).or
        (manager.segments.findIdx? fun segment => decide (segment.nextOffset = newEndOffset))
      match targetIdx.bind fun target => manager.segments[target]?.map (target, ·) with
      | none => return .error (.noSegment newEndOffset)
      | some (target, targetSeg) =>
        match targetSeg.truncateTo newEndOffset with
        | .error error => return .error error
        | .ok truncatedSeg =>
          let truncated := (manager.endAt target truncatedSeg).lowerWatermarks newEndOffset
          let _ ← truncated.getLogEndOffset true
          return .ok truncated

/-!
## Compaction
-/

structure CompactionResult where
  segmentsCompacted : Nat := 0
  segmentsMerged : Nat := 0
  recordsDeleted : Int := 0
  bytesReclaimed : Nat := 0
  aborted : Bool := false
deriving DecidableEq

def compactionEligible (manager : LogManager) (now : Int64) (segment : IdealSegment) : Bool :=
  let minLagMs := manager.config.topicConfig.minCompactionLagMs
  segment.isSealed &&
    !(decide (0 < minLagMs) && decide (now.toInt - segment.maxTimestamp.toInt < minLagMs)) &&
    !decide (segment.nextOffset ≤ segment.baseOffset)

def eligibleIndices (manager : LogManager) (now : Int64) : List Nat :=
  (List.range manager.segments.length).filter fun i =>
    i != manager.activeIndex && manager.segments[i]?.any (manager.compactionEligible now)

def compactedBatch (compression : CompressionType) (segBase : Int) (records : List Record) : RecordBatch where
  baseOffset := segBase
  records := records.mapIdx fun i record => { record with offset := segBase + i }
  recordCount := Int32.ofNat records.length
  compression
  baseTimestamp := (records.head?.map (·.timestamp)).getD 0
  maxTimestamp := (records.getLast?.map (·.timestamp)).getD 0
  lastOffsetDelta := Int32.ofNat records.length - 1

def compactSegment (keepExisting : Record → Record → Bool) (now : Int64) (manager : LogManager)
    (result : CompactionResult) (segment : IdealSegment) : LogManager × CompactionResult :=
  let records := segment.compactRecords keepExisting
  let result :=
    { result with
      recordsDeleted := result.recordsDeleted + (segment.nextOffset - segment.baseOffset - records.length) }
  let position := manager.segments.findIdx? fun other => decide (other.segmentId = segment.segmentId)
  let counted :=
    { result with
      segmentsCompacted := result.segmentsCompacted + 1
      bytesReclaimed := result.bytesReclaimed + segment.fileSize }
  if records.isEmpty then
    match position with
    | none => (manager, result)
    | some position => (manager.tryDelete position, counted)
  else
    let created := createSegment segment.baseOffset manager.nextSegmentId now
    let manager := { manager with nextSegmentId := manager.nextSegmentId + 1 }
    match created.append (compactedBatch manager.config.topicConfig.compression segment.baseOffset records) with
    | .error _ => (manager, { result with aborted := true })
    | .ok (compacted, _) =>
      match position with
      | none =>
        ({ manager with segments := manager.segments ++ [compacted.seal] },
          { result with segmentsCompacted := result.segmentsCompacted + 1 })
      | some oldPos =>
        -- The old segment is one further on, but the index of the active segment is not moved.
        let inserted := { manager with segments := manager.segments.insertIdx oldPos compacted.seal }
        (inserted.tryDelete (oldPos + 1), { counted with segmentsMerged := counted.segmentsMerged + 1 })

def compactRound (keepExisting : Record → Record → Bool) (now : Int64) (state : LogManager × CompactionResult)
    (idx : Nat) : LogManager × CompactionResult :=
  if state.2.aborted then state
  else
    match state.1.segments[idx]? with
    | none => state
    | some segment => compactSegment keepExisting now state.1 state.2 segment

def compact (manager : LogManager) (keepExisting : Option (Record → Record → Bool)) (now : Int64) :
    Except LogError (LogManager × CompactionResult) :=
  if !manager.isOpen then .error .notOpen
  else if manager.config.topicConfig.policy = .deleteOnly then .ok (manager, { aborted := true })
  else
    .ok ((manager.eligibleIndices now).foldl (compactRound (keepExisting.getD fun _ _ => false) now) (manager, {}))

/-!
## Retention
-/

structure RetentionResult where
  segmentsDeletedByTime : Nat := 0
  segmentsDeletedBySize : Nat := 0
  bytesDeleted : Nat := 0
  newLogStartOffset : Int := kInvalidOffset
deriving DecidableEq

def isExpiredByTime (segment : IdealSegment) (now : Int64) (retentionMs : Int) : Bool :=
  decide (0 < retentionMs) && decide (retentionMs ≤ now.toInt - segment.maxTimestamp.toInt)

/-- A segment that is due, by its place in the list when it was looked at. -/
structure DeletionCandidate where
  index : Nat
  fileSize : Nat
deriving DecidableEq

def expiredCandidates (manager : LogManager) (now : Int64) : List DeletionCandidate :=
  (List.range manager.segments.length).filterMap fun i =>
    if i = manager.activeIndex then none
    else
      match manager.segments[i]? with
      | none => none
      | some segment =>
        if isExpiredByTime segment now manager.config.topicConfig.retentionMs then some ⟨i, segment.fileSize⟩
        else none

def deleteExpired (state : LogManager × RetentionResult) (candidate : DeletionCandidate) :
    LogManager × RetentionResult :=
  match state.1.deleteSegment candidate.index with
  | .error _ => state
  | .ok deleted =>
    (deleted,
      { state.2 with
        segmentsDeletedByTime := state.2.segmentsDeletedByTime + 1
        bytesDeleted := state.2.bytesDeleted + candidate.fileSize })

def oldest (segments : List IdealSegment) (activeIndex : Nat) : Option Nat :=
  (segments.zipIdx.foldl
    (fun (found : Option Nat × Int) (indexed : IdealSegment × Nat) =>
      if indexed.2 = activeIndex then found
      else if indexed.1.baseOffset < found.2 ∨ found.2 = kInvalidOffset then (some indexed.2, indexed.1.baseOffset)
      else found)
    (none, kInvalidOffset)).1

def deleteBySize (retentionBytes : Int) :
    Nat → Int → LogManager × RetentionResult → LogManager × RetentionResult
  | 0, _, state => state
  | fuel + 1, currentTotal, state =>
    if currentTotal ≤ retentionBytes then state
    else
      match (oldest state.1.segments state.1.activeIndex).bind fun i => state.1.segments[i]?.map (i, ·) with
      | none => state
      | some (oldestIdx, segment) =>
        match state.1.deleteSegment oldestIdx with
        | .error _ => state
        | .ok deleted =>
          deleteBySize retentionBytes fuel (currentTotal - segment.fileSize)
            (deleted,
              { state.2 with
                segmentsDeletedBySize := state.2.segmentsDeletedBySize + 1
                bytesDeleted := state.2.bytesDeleted + segment.fileSize })

def totalBytes (manager : LogManager) : Nat := (manager.segments.map IdealSegment.fileSize).sum

def retentionCheck (manager : LogManager) (now : Int64) : Except LogError (LogManager × RetentionResult) :=
  let topic := manager.config.topicConfig
  if !manager.isOpen then .error .notOpen
  else if topic.retentionMs ≤ 0 ∧ topic.retentionBytes ≤ 0 then
    .ok (manager, { newLogStartOffset := manager.logStartOffset })
  else
    let byTime := (manager.expiredCandidates now).foldl deleteExpired (manager, {})
    let bySize :=
      if 0 < topic.retentionBytes then
        deleteBySize topic.retentionBytes byTime.1.segments.length byTime.1.totalBytes byTime
      else byTime
    match bySize.1.segments with
    | [] => .ok bySize
    | first :: _ =>
      .ok
        ({ bySize.1 with logStartOffset := first.baseOffset },
          { bySize.2 with newLogStartOffset := first.baseOffset })

/-!
## Archiving
-/

structure TieredArchiveResult where
  segmentsArchived : Nat := 0
  bytesFreed : Nat := 0
deriving DecidableEq

def offloadCount (manager : LogManager) : Int :=
  let hotCount : Int := manager.segments.length
  if manager.config.maxHotSegments ≤ 0 ∨ hotCount ≤ manager.config.maxHotSegments then 0
  else
    let toOffload := hotCount - manager.config.maxHotSegments
    let minLocal := max manager.config.minHotSegments 1
    if hotCount - toOffload < minLocal then hotCount - minLocal else toOffload

def offload (activeIndex : Nat) : Nat → Int → List IdealSegment → List IdealSegment × List IdealSegment
  | _, _, [] => ([], [])
  | i, toOffload, segment :: segments =>
    if 0 < toOffload ∧ i ≠ activeIndex ∧ segment.isSealed then
      let (kept, archived) := offload activeIndex (i + 1) (toOffload - 1) segments
      (kept, segment :: archived)
    else
      let (kept, archived) := offload activeIndex (i + 1) toOffload segments
      (segment :: kept, archived)

def archiveToTieredStorage (manager : LogManager) (now : Int64) :
    Except LogError (LogManager × TieredArchiveResult) :=
  if manager.config.tieredStorageEndpoint = "" then .ok (manager, {})
  else if !manager.isOpen then .error .notOpen
  else if manager.offloadCount ≤ 0 then .ok (manager, {})
  else
    let (kept, archived) := offload manager.activeIndex 0 manager.offloadCount manager.segments
    let result : TieredArchiveResult := ⟨archived.length, (archived.map IdealSegment.fileSize).sum⟩
    match kept with
    | [] =>
      .ok
        ({ manager with
            segments := [createSegment 0 manager.nextSegmentId now]
            activeIndex := 0
            logStartOffset := 0
            nextSegmentId := manager.nextSegmentId + 1 },
          result)
    | first :: rest =>
      .ok
        ({ manager with
            segments := first :: rest
            activeIndex := rest.length
            logStartOffset := first.baseOffset },
          result)

/-!
## Reading
-/

inductive IsolationLevel where
  | readUncommitted
  | readCommitted
deriving DecidableEq

/-- What a fetch returns, along with the offsets that bound it. -/
structure FetchResult where
  batch : Option RecordBatch := none
  highWatermark : Int
  logStartOffset : Int
  lastStableOffset : Int
  isTruncated : Bool := false
deriving DecidableEq

def readSegments (effectiveEnd : Int) :
    List IdealSegment → Option Int → Int → List RecordBatch × Bool
  | [], _, _ => ([], false)
  | segment :: segments, startOffset, remaining =>
    if remaining ≤ 0 then ([], false)
    else
      let segStart := startOffset.getD segment.baseOffset
      let segStop := min (if segments.isEmpty then effectiveEnd else segment.nextOffset) effectiveEnd
      if segStop ≤ segStart then ([], false)
      else
        let read := segment.readRange segStart segStop remaining
        let remaining := remaining - read.bytesRead
        if read.isTruncated ∨ remaining ≤ 0 then (read.batches, true)
        else
          let (batches, truncated) := readSegments effectiveEnd segments none remaining
          (read.batches ++ batches, truncated)

def mergeBatches : List RecordBatch → Option RecordBatch
  | [] => none
  | [batch] => some batch
  | first :: second :: batches =>
    let records := (first :: second :: batches).flatMap (·.records)
    let recordCount := ((first :: second :: batches).map (·.recordCount)).sum
    some
      { baseOffset := first.baseOffset
        baseTimestamp := first.baseTimestamp
        maxTimestamp := ((second :: batches).getLast?.map (·.maxTimestamp)).getD 0
        lastOffsetDelta := recordCount - 1
        recordCount
        records }

def read (manager : LogManager) (startOffset maxBytes : Int) (endOffset : Option Int)
    (isolation : IsolationLevel) : Except LogError FetchResult :=
  let logEnd := manager.logEndOffset
  let empty : FetchResult :=
    { highWatermark := manager.highWatermark
      logStartOffset := manager.logStartOffset
      lastStableOffset := manager.lastStableOffset }
  if !manager.isOpen then .error .notOpen
  else if startOffset < manager.logStartOffset then .error (.beforeLogStart startOffset manager.logStartOffset)
  else if logEnd ≤ startOffset then .ok empty
  else
    let stable := manager.lastStableOffset
    let capped :=
      if isolation = .readCommitted ∧ 0 < stable ∧ stable < logEnd then stable else logEnd
    let effectiveEnd := if endOffset.any (fun limit => decide (limit < capped)) then endOffset.getD capped else capped
    match manager.findSegmentIndex startOffset with
    | none => .error (.noSegment startOffset)
    | some segIdx =>
      let (batches, isTruncated) :=
        readSegments effectiveEnd (manager.segments.drop segIdx) (some startOffset) maxBytes
      .ok { empty with batch := mergeBatches batches, isTruncated }

end LogManager

/-!
## Calls
-/

inductive LogCall where
  | append (batch : RecordBatch) (expectedBaseOffset : Int) (now : Int64)
  | appendBatch (batches : List RecordBatch) (clock : Nat → Int64)
  | roll (now : Int64)
  | retentionCheck (now : Int64)
  | compact (keepExisting : Option (Record → Record → Bool)) (now : Int64)
  | archive (now : Int64)

def LogManager.step (manager : LogManager) : LogCall → LogManager
  | .append batch expectedBaseOffset now => (manager.append batch expectedBaseOffset now).1
  | .appendBatch batches clock => (manager.appendBatch batches clock).1
  | .roll now => (manager.rollActiveSegment now).toOption.getD manager
  | .retentionCheck now => ((manager.retentionCheck now).toOption.map Prod.fst).getD manager
  | .compact keepExisting now => ((manager.compact keepExisting now).toOption.map Prod.fst).getD manager
  | .archive now => ((manager.archiveToTieredStorage now).toOption.map Prod.fst).getD manager

/-- All calls, truncation, which may end the process, included. -/
inductive LogRequest where
  | call (call : LogCall)
  | truncateTo (newEndOffset : Int)

/-- `none` is a process that has ended. -/
def LogManager.serve (state : Option LogManager) (request : LogRequest) : Option LogManager :=
  state.bind fun manager =>
    match request with
    | .call call => some (manager.step call)
    | .truncateTo newEndOffset => (manager.truncateTo newEndOffset).map fun outcome => outcome.toOption.getD manager

end TorrentMq.Storage
