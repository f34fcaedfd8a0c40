import TorrentMq.Storage.SegmentObject

/-!
# Range reads

The read path of a segment over the codec of its batches, and the ranges of
which it gives back just the batches that overlap them.
-/

set_option autoImplicit false

namespace TorrentMq.Storage

open Bytes

structure BatchCodec where
  recordCount : Bytes → Int
  decode : Bytes → Except BatchError RecordBatch

def segmentCodec : BatchCodec where
  recordCount readBuf := decodeInt 4 (pread readBuf (12 + 57) 4)
  decode := deserializeBatch

namespace BatchCodec

variable (codec : BatchCodec) (segment : Segment)

def readStep (startOffset : Int) (scanPos : Nat) : Segment.ReadStep :=
  if segment.fileSize < scanPos + 12 then .stop
  else
    let bo := decodeInt 8 (pread segment.data scanPos 8)
    let blen := decodeInt 4 (pread segment.data (scanPos + 8) 4)
    if blen ≤ 0 ∨ (kMaxBatchBytes : Int) < blen then .stop
    else
      let batchTotal := 12 + blen.toNat
      if segment.fileSize < scanPos + batchTotal then .stop
      else
        let readBuf := pread segment.data scanPos batchTotal
        if blen < 61 then .stop
        else
          let recordCount := codec.recordCount readBuf
          if recordCount < 0 ∨ 1000000 < recordCount then .stop
          else if bo + recordCount ≤ startOffset then .skip batchTotal
          else
            match codec.decode readBuf with
            | .error error => .fail error
            | .ok batch => .take batch batchTotal (bo + recordCount)

def readLoop (startOffset maxBytes : Int) :
    Nat → Nat → Segment.SegmentReadResult → Except SegmentError Segment.SegmentReadResult
  | 0, _, result => .ok result
  | fuel + 1, scanPos, result =>
    match codec.readStep segment startOffset scanPos with
    | .stop => .ok result
    | .skip batchTotal => readLoop startOffset maxBytes fuel (scanPos + batchTotal) result
    | .fail error => .error (.corruptBatch error)
    | .take batch batchTotal batchEndOffset =>
      let bytesRead := result.bytesRead + batchTotal
      let batches := result.batches ++ [batch]
      if maxBytes ≤ bytesRead then .ok ⟨batches, bytesRead, batchEndOffset, true⟩
      else
        readLoop startOffset maxBytes fuel (scanPos + batchTotal) ⟨batches, bytesRead, batchEndOffset, false⟩

def read (startOffset maxBytes : Int) : Except SegmentError Segment.SegmentReadResult :=
  if segment.state = .uninitialized ∨ segment.state = .closed then .error .notOpen
  else if segment.state = .corrupted then .error .corrupted
  else if startOffset < segment.header.baseOffset then
    .error (.offsetBelowBase startOffset segment.header.baseOffset)
  else if segment.nextOffset ≤ startOffset then .ok { nextOffset := segment.nextOffset }
  else
    match segment.findPosition startOffset with
    | none => .error (.noPosition startOffset)
    | some scanPos => do
      let result ←
        codec.readLoop segment startOffset maxBytes segment.fileSize scanPos { nextOffset := startOffset }
      return if result.batches.isEmpty then { result with nextOffset := segment.nextOffset } else result

def readChunks (endOffset maxBytes : Int) :
    Nat → Int → Segment.SegmentReadResult → Except SegmentError Segment.SegmentReadResult
  | 0, _, accumulated => .ok accumulated
  | fuel + 1, cursor, accumulated =>
    if cursor < endOffset ∧ accumulated.bytesRead < maxBytes then
      match codec.read segment cursor (min (maxBytes - accumulated.bytesRead) 1048576) with
      | .error error => .error error
      | .ok chunk =>
        if chunk.batches.isEmpty then .ok accumulated
        else
          let accumulated : Segment.SegmentReadResult :=
            { batches := accumulated.batches ++ chunk.batches
              bytesRead := accumulated.bytesRead + chunk.bytesRead
              nextOffset := chunk.nextOffset
              isTruncated := chunk.isTruncated }
          if chunk.isTruncated then .ok accumulated
          else readChunks endOffset maxBytes fuel chunk.nextOffset accumulated
    else .ok accumulated

def readRange (startOffset endOffset maxBytes : Int) : Except SegmentError Segment.SegmentReadResult :=
  if endOffset ≤ startOffset then .ok { nextOffset := startOffset }
  else
    (codec.readChunks segment endOffset maxBytes maxBytes.toNat startOffset { nextOffset := startOffset }).map
      fun accumulated =>
        if accumulated.batches.isEmpty then { accumulated with nextOffset := endOffset } else accumulated

end BatchCodec

namespace Segment

theorem recordCount_segmentCodec (readBuf : Bytes) :
    segmentCodec.recordCount readBuf = decodeInt 4 (pread readBuf (12 + 57) 4) := by
  unfold segmentCodec
  dsimp only

theorem decode_segmentCodec (readBuf : Bytes) : segmentCodec.decode readBuf = deserializeBatch readBuf := by
  rw [segmentCodec]

end Segment

end TorrentMq.Storage
