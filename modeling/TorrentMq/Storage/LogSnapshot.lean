import TorrentMq.Bytes.Decimal
import TorrentMq.Storage.LogManager

/-!
# Snapshots of a log

The metadata that a snapshot records of the segments, and its installation
over the files that are on disk.
-/

set_option autoImplicit false

namespace TorrentMq.Storage

open Bytes

structure SegmentInfo where
  segmentId : Nat
  baseOffset : Int
  nextOffset : Int
  filePath : Bytes
  fileSize : Nat
  indexSize : Nat
  timeIndexSize : Nat
  maxTimestamp : Int64
  createdAt : Int64
  lastModified : Int64
  isActive : Bool
  isSealed : Bool
deriving DecidableEq

structure SnapshotMetadata where
  partitionId : Int32
  snapshotIndex : Int
  term : Int
  segments : List SegmentInfo
  highWatermark : Int
  logStartOffset : Int
  lastStableOffset : Int
  createdAt : Int64
  crc : UInt32
deriving DecidableEq

inductive SnapshotError where
  | notOpen
  | crcMismatch (expected computed : UInt32)
  | openFailed (filePath : Bytes) (error : SegmentError)
deriving DecidableEq

structure LogPartition where
  partitionId : Int32 := 0
  dataDirectory : Bytes := []
  indexEntries : IdealSegment → Nat := fun _ => 0

abbrev SegmentFiles := List (Bytes × IdealSegment)

def segmentFilePath (dataDir : Bytes) (segmentId : Nat) (baseOffset : Int) : Bytes :=
  joinPath dataDir (decimal segmentId ++ 95 :: (decimalInt baseOffset ++ [46, 108, 111, 103]))

def computeCrc32c (initial : UInt32) (bytes : Bytes) : UInt32 :=
  crc32cRegister (initial ^^^ 0xFFFFFFFF) bytes ^^^ 0xFFFFFFFF

def SegmentInfo.crcFields (info : SegmentInfo) : List Bytes :=
  [ encode 8 info.segmentId
  , encodeInt 8 info.baseOffset
  , encodeInt 8 info.nextOffset
  , encode 8 info.fileSize
  , encode 8 info.indexSize
  , encode 8 info.timeIndexSize
  , encodeInt 8 info.maxTimestamp.toInt
  , encodeInt 8 info.createdAt.toInt
  , encodeInt 8 info.lastModified.toInt
  , [if info.isActive then 1 else 0]
  , [if info.isSealed then 1 else 0]
  , info.filePath ]

def SnapshotMetadata.crcFields (snapshot : SnapshotMetadata) : List Bytes :=
  [ encodeInt 4 snapshot.partitionId.toInt
  , encodeInt 8 snapshot.snapshotIndex
  , encodeInt 8 snapshot.term
  , encodeInt 8 snapshot.highWatermark
  , encodeInt 8 snapshot.logStartOffset
  , encodeInt 8 snapshot.lastStableOffset
  , encodeInt 8 snapshot.createdAt.toInt ] ++ snapshot.segments.flatMap SegmentInfo.crcFields

def SnapshotMetadata.computedCrc (snapshot : SnapshotMetadata) : UInt32 :=
  snapshot.crcFields.foldl computeCrc32c 0

def LogPartition.segmentPath (partition : LogPartition) (segment : IdealSegment) : Bytes :=
  segmentFilePath partition.dataDirectory segment.segmentId segment.baseOffset

def LogPartition.info (partition : LogPartition) (now : Int64) (segment : IdealSegment) : SegmentInfo where
  segmentId := segment.segmentId
  baseOffset := segment.baseOffset
  nextOffset := segment.nextOffset
  filePath := partition.segmentPath segment
  fileSize := segment.fileSize
  indexSize := partition.indexEntries segment * 24 + 16
  timeIndexSize := 0
  maxTimestamp := segment.maxTimestamp
  createdAt := segment.createdAt
  lastModified := now
  isActive := !segment.isSealed
  isSealed := segment.isSealed

namespace LogManager

def snapshotFields (manager : LogManager) (partition : LogPartition) (snapshotIndex term : Int)
    (clock : Nat → Int64) : SnapshotMetadata where
  partitionId := partition.partitionId
  snapshotIndex
  term
  segments := manager.segments.mapIdx fun i segment => partition.info (clock (i + 1)) segment
  highWatermark := manager.highWatermark
  logStartOffset := manager.logStartOffset
  lastStableOffset := manager.lastStableOffset
  createdAt := clock 0
  crc := 0

def createSnapshot (manager : LogManager) (partition : LogPartition) (snapshotIndex term : Int)
    (clock : Nat → Int64) : Except SnapshotError SnapshotMetadata :=
  if !manager.isOpen then .error .notOpen
  else
    let fields := manager.snapshotFields partition snapshotIndex term clock
    .ok { fields with crc := fields.computedCrc }

def files (manager : LogManager) (partition : LogPartition) : SegmentFiles :=
  manager.segments.map fun segment => (partition.segmentPath segment, segment)

def resetState (manager : LogManager) (partition : LogPartition) (files : SegmentFiles) : SegmentFiles :=
  files.filter fun file => manager.segments.all fun segment => decide (partition.segmentPath segment ≠ file.1)

def openAt (files : SegmentFiles) (filePath : Bytes) (segmentId : Nat) (baseOffset : Int) (readOnly : Bool)
    (now : Int64) : Except SegmentError (IdealSegment × SegmentFiles) :=
  match files.lookup filePath with
  | some stored =>
    if segmentId ≠ 0 ∧ stored.segmentId ≠ segmentId then
      .error (.segmentIdMismatch (UInt64.ofNat segmentId) (UInt64.ofNat stored.segmentId))
    else if baseOffset ≠ kInvalidOffset ∧ baseOffset ≠ 0 ∧ stored.baseOffset ≠ baseOffset then
      .error (.baseOffsetMismatch baseOffset stored.baseOffset)
    else .ok ({ stored with isSealed := stored.isSealed || readOnly }, files)
  | none =>
    let created := createSegment baseOffset segmentId now
    .ok ({ created with isSealed := readOnly }, (filePath, created) :: files)

def recreateSegments (now : Int64) :
    List SegmentInfo → SegmentFiles → Except SnapshotError (List IdealSegment × SegmentFiles)
  | [], files => .ok ([], files)
  | info :: infos, files =>
    match openAt files info.filePath info.segmentId info.baseOffset info.isSealed now with
    | .error error => .error (.openFailed info.filePath error)
    | .ok (segment, files) =>
      match recreateSegments now infos files with
      | .error error => .error error
      | .ok (segments, files) => .ok (segment :: segments, files)

def continueBehind (partition : LogPartition) (segments : List IdealSegment) (files : SegmentFiles)
    (nextSegmentId : Nat) (now : Int64) : List IdealSegment × Nat × SegmentFiles :=
  match segments.getLast? with
  | none => (segments, nextSegmentId, files)
  | some last =>
    if last.isSealed then
      let filePath := segmentFilePath partition.dataDirectory nextSegmentId last.nextOffset
      match openAt files filePath nextSegmentId last.nextOffset false now with
      | .error _ => (segments, nextSegmentId, files)
      | .ok (created, files) => (segments ++ [created], nextSegmentId + 1, files)
    else (segments, nextSegmentId, files)

def installSnapshot (manager : LogManager) (partition : LogPartition) (files : SegmentFiles)
    (snapshot : SnapshotMetadata) (now : Int64) : Except SnapshotError (LogManager × SegmentFiles) :=
  if snapshot.computedCrc ≠ snapshot.crc then .error (.crcMismatch snapshot.crc snapshot.computedCrc)
  else
    match recreateSegments now snapshot.segments (manager.resetState partition files) with
    | .error error => .error error
    | .ok (segments, files) =>
      let maxSegId := snapshot.segments.foldl (fun found info => max found info.segmentId) 0
      let (segments, nextSegmentId, files) := continueBehind partition segments files (maxSegId + 1) now
      .ok
        ({ manager with
            segments
            activeIndex := if segments.isEmpty then 2 ^ 64 - 1 else segments.length - 1
            highWatermark := snapshot.highWatermark
            lastStableOffset := snapshot.lastStableOffset
            logStartOffset := snapshot.logStartOffset
            isOpen := true
            nextSegmentId },
          files)

end LogManager

end TorrentMq.Storage
