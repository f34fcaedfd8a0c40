import TorrentMq.Collections.SortedVector
import TorrentMq.Concurrency.Locking
import TorrentMq.Storage.IdealSegment

/-!
# Segment objects

Lookups, truncation and the close of a segment with the two mutexes that they
acquire: one for its state and its file, one for its sparse index. What the
operating system answers during a call is an argument of the call.
-/

set_option autoImplicit false

namespace TorrentMq.Storage

open Locking Locked

inductive SegmentMutex where
  | mutex
  | indexMutex
deriving DecidableEq

structure SegmentAnswers where
  fileTruncated : Bool := true
  flushed : Bool := true
  synced : Bool := true
  closed : Bool := true

namespace Segment

def isOpen (segment : Segment) : Bool := segment.state == .active || segment.state == .sealed

def isSealed (segment : Segment) : Bool := segment.state == .sealed || segment.header.isSealed

def pruneSparseIndex (segment : Segment) (fromOffset : Int) : Segment :=
  if segment.sparseIndex.isEmpty then segment
  else
    let kept := segment.sparseIndex.takeWhile fun entry => decide (entry.offset < fromOffset)
    { segment with
      sparseIndex := kept
      indexDirty := true
      maxTimestamp := (kept.getLast?.map (·.timestamp)).getD 0 }

theorem state_pruneSparseIndex (segment : Segment) (fromOffset : Int) :
    (segment.pruneSparseIndex fromOffset).state = segment.state := by
  unfold pruneSparseIndex
  split <;> rfl

theorem state_flushIndex (segment : Segment) : segment.flushIndex.state = segment.state := by
  unfold flushIndex
  split <;> rfl

/-- Where the file is cut for a new end. A lookup above the base offset fails only where the file
holds no batch. -/
def truncatedSize (segment : Segment) (newEndOffset : Int) : Nat :=
  if segment.header.baseOffset < newEndOffset then (segment.findPosition newEndOffset).getD kSegmentHeaderSize
  else kSegmentHeaderSize

def cutFile (segment : Segment) (newFileSize : Nat) : Segment :=
  { segment with file := some (Bytes.ftruncate segment.data newFileSize), fileSize := newFileSize }

def truncatedTo (segment : Segment) (newEndOffset : Int) : Segment :=
  { (segment.cutFile (segment.truncatedSize newEndOffset)).pruneSparseIndex newEndOffset with nextOffset := newEndOffset }

def findOffsetByTimestamp (segment : Segment) (timestamp : Int64) : Option Int :=
  let found := SortedVector.partitionPoint (fun entry : SparseIndexEntry => decide (entry.timestamp < timestamp))
    segment.sparseIndex
  match segment.sparseIndex[found]? with
  | some entry => some entry.offset
  | none => segment.sparseIndex.getLast?.map (·.offset)

end Segment

/-- A segment whose file is held open all the while that it is active or sealed. The stream and the
mapping that it reads through are there only along with the descriptor. -/
structure SegmentObject where
  segment : Segment
  descriptor : Bool := false
  descriptor_of_isOpen : segment.isOpen = true → descriptor = true

abbrev SegmentOp (α : Type) : Type := Locked SegmentMutex SegmentObject α

namespace SegmentObject

def withData (object : SegmentObject) (change : Segment → Segment)
    (kept : ∀ segment, (change segment).state = segment.state) : SegmentObject :=
  { object with
    segment := change object.segment
    descriptor_of_isOpen := fun isOpen =>
      object.descriptor_of_isOpen (by simpa only [Segment.isOpen, kept] using isOpen) }

def findPosition (targetOffset : Int) : SegmentOp (Option Nat) :=
  lock .indexMutex do
    let object ← get
    return object.segment.findPosition targetOffset

def pruneSparseIndex (fromOffset : Int) : SegmentOp Unit :=
  lock .indexMutex do
    let object ← get
    set (object.withData (·.pruneSparseIndex fromOffset) fun segment => segment.state_pruneSparseIndex fromOffset)

def truncateTo (answers : SegmentAnswers) (newEndOffset : Int) : SegmentOp Bool :=
  lock .mutex do
    let object ← get
    if !object.descriptor then return false
    else if newEndOffset < object.segment.header.baseOffset then return false
    else if object.segment.nextOffset < newEndOffset then return false
    else if newEndOffset = object.segment.nextOffset then return true
    else
      let _ ← (if object.segment.header.baseOffset < newEndOffset then findPosition newEndOffset else pure none)
      if !answers.fileTruncated then return false
      else
        set (object.withData (fun segment => segment.cutFile (segment.truncatedSize newEndOffset)) fun _ => rfl)
        pruneSparseIndex newEndOffset
        modify (·.withData (fun segment => { segment with nextOffset := newEndOffset }) fun _ => rfl)
        return true

def flush (answers : SegmentAnswers) : SegmentOp Bool :=
  lock .mutex do
    let object ← get
    return object.descriptor && answers.flushed

def flushIndex : SegmentOp Unit :=
  lock .indexMutex do
    modify (·.withData (·.flushIndex) fun segment => segment.state_flushIndex)

def fsync (answers : SegmentAnswers) : SegmentOp Bool :=
  lock .mutex do
    let object ← get
    if !object.descriptor || !answers.synced then return false
    else
      flushIndex
      return true

def closed (object : SegmentObject) : SegmentObject where
  segment := { object.segment with state := .closed, fileSize := 0, nextOffset := kInvalidOffset }
  descriptor := false
  descriptor_of_isOpen := fun isOpen => by cases isOpen

/-- A segment that was opened is flushed and synced by calls that lock its state themselves. -/
def close (answers : SegmentAnswers) : SegmentOp Bool :=
  lock .mutex do
    let object ← get
    match object.segment.state with
    | .closed => return true
    | .uninitialized =>
      set ({ object with
        segment := { object.segment with state := .closed }
        descriptor_of_isOpen := fun isOpen => by cases isOpen } : SegmentObject)
      return true
    | _ =>
      let flushed ← if object.descriptor then flush answers else pure true
      let synced ← if object.descriptor then fsync answers else pure true
      modify closed
      return flushed && synced && (!object.descriptor || answers.closed)

end SegmentObject

end TorrentMq.Storage
