import Mathlib.Data.List.Chain
import Mathlib.Data.List.Sort
import TorrentMq.Storage.SegmentReadProperties

/-!
# Ideal segments

Segments as the log manager takes them: they keep batches in the order of
their offsets and give back what was appended. The offset of a record is its
place, so that none is lost between two batches.
-/

set_option autoImplicit false

namespace TorrentMq.Storage

inductive LogError where
  | notOpen
  | noActiveSegment
  | segment (error : SegmentError)
  | unexpectedOffset (expected assigned : Int)
  | emptyBatchList
  | beforeLogStart (offset logStart : Int)
  | beyondLogEnd (offset logEnd : Int)
  | noSegment (offset : Int)
  | indexOutOfRange (index size : Nat)
  | deletesActive
deriving DecidableEq

structure IdealSegment where
  segmentId : Nat
  baseOffset : Int
  createdAt : Int64
  maxTimestamp : Int64 := 0
  isSealed : Bool := false
  batches : List RecordBatch := []
deriving DecidableEq

def Placed.delivered (placed : Placed) : RecordBatch :=
  { placed.2 with
    baseOffset := placed.1
    recordCount := Int32.ofNat placed.2.records.length
    records := placed.2.records.mapIdx fun i record => { record with offset := placed.1 + i } }

def Placed.endOffset (placed : Placed) : Int := placed.1 + placed.2.records.length

def Placed.size (placed : Placed) : Nat := placed.2.serializeBatch.length

namespace IdealSegment

def nextOffset (segment : IdealSegment) : Int := segment.baseOffset + Segment.recordTotal segment.batches

def placed (segment : IdealSegment) : List Placed := Segment.assignOffsets segment.baseOffset segment.batches

def records (segment : IdealSegment) : List Record := segment.placed.flatMap fun placed => placed.delivered.records

def fileSize (segment : IdealSegment) : Nat := kSegmentHeaderSize + (segment.placed.map Placed.size).sum

def append (segment : IdealSegment) (batch : RecordBatch) :
    Except SegmentError (IdealSegment × Segment.SegmentAppendResult) :=
  if segment.isSealed then .error .notActive
  else if batch.records.isEmpty then .ok (segment, ⟨segment.nextOffset, segment.fileSize, 0, 0⟩)
  else
    let timestamp := Segment.batchMaxTs batch
    .ok
      ({ segment with
          batches := segment.batches ++ [batch]
          maxTimestamp :=
            if 0 < timestamp ∧ segment.maxTimestamp < timestamp then timestamp else segment.maxTimestamp },
        ⟨segment.nextOffset, segment.fileSize, 1, batch.records.length⟩)

def «seal» (segment : IdealSegment) : IdealSegment := { segment with isSealed := true }

def takeRecords : Nat → List RecordBatch → List RecordBatch
  | _, [] => []
  | count, batch :: batches =>
    if count = 0 then []
    else if batch.records.length ≤ count then batch :: takeRecords (count - batch.records.length) batches
    else [{ batch with records := batch.records.take count }]

def truncateTo (segment : IdealSegment) (newEndOffset : Int) : Except LogError IdealSegment :=
  if newEndOffset < segment.baseOffset then .error (.beforeLogStart newEndOffset segment.baseOffset)
  else if segment.nextOffset < newEndOffset then .error (.beyondLogEnd newEndOffset segment.nextOffset)
  else if newEndOffset = segment.nextOffset then .ok segment
  else
    .ok { segment with batches := takeRecords (newEndOffset - segment.baseOffset).toNat segment.batches }

def shouldRoll (segment : IdealSegment) (maxSegmentBytes maxSegmentAgeMs : Int) (now : Int64) : Bool :=
  !segment.isSealed &&
    ((decide (maxSegmentBytes ≤ segment.fileSize) && decide (0 < maxSegmentBytes)) ||
      (decide (0 < maxSegmentAgeMs) && decide (maxSegmentAgeMs ≤ now.toInt - segment.createdAt.toInt)))

def takeBytes (maxBytes : Int) : Nat → List Placed → List Placed × Nat
  | bytesRead, [] => ([], bytesRead)
  | bytesRead, placed :: rest =>
    if maxBytes ≤ bytesRead then ([], bytesRead)
    else
      let (taken, total) := takeBytes maxBytes (bytesRead + placed.size) rest
      (placed :: taken, total)

structure RangeResult where
  batches : List RecordBatch := []
  bytesRead : Nat := 0
  isTruncated : Bool := false
deriving DecidableEq

def readRange (segment : IdealSegment) (startOffset endOffset maxBytes : Int) : RangeResult :=
  if endOffset ≤ startOffset then {}
  else
    let (taken, bytesRead) := takeBytes maxBytes 0 (segment.placed.filter fun placed =>
      decide (startOffset < placed.endOffset) && decide (placed.1 < endOffset))
    { batches := taken.map Placed.delivered, bytesRead, isTruncated := decide (maxBytes ≤ bytesRead) }

def combine (keepExisting : Record → Record → Bool) : List Record → Record → List Record
  | [], record => [record]
  | existing :: compacted, record =>
    if existing.key = record.key then
      (if keepExisting existing record then existing else record) :: compacted
    else existing :: combine keepExisting compacted record

def compactRecords (segment : IdealSegment) (keepExisting : Record → Record → Bool) : List Record :=
  (segment.records.foldl (combine keepExisting) []).insertionSort fun left right => left.offset ≤ right.offset

end IdealSegment

end TorrentMq.Storage
