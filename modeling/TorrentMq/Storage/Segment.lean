import TorrentMq.Storage.RecordBatch

/-!
# Segments

An append-only file of record batches behind a header of 64 bytes, with a
sparse index from offsets to file positions. The file and the index file that
outlive a segment object are kept in it.
-/

set_option autoImplicit false

namespace TorrentMq.Storage

open Bytes

def kSegmentMagic : UInt32 := 0x47535154

def kSegmentFormatVersion : UInt16 := 1

def kSegmentHeaderSize : Nat := 64

def kDefaultIndexInterval : Int := 4096

def kMaxInMemoryIndexEntries : Nat := 100000

def kFileExtendStep : Nat := 65536

/-!
## Headers
-/

def CompressionType.code : CompressionType → UInt8
  | .none => 0
  | .gzip => 1
  | .snappy => 2
  | .lz4 => 3
  | .zstd => 4

structure SegmentHeader where
  magic : UInt32 := kSegmentMagic
  formatVersion : UInt16 := kSegmentFormatVersion
  headerSize : UInt16 := UInt16.ofNat kSegmentHeaderSize
  headerCrc : UInt32 := 0
  baseOffset : Int := kInvalidOffset
  segmentId : UInt64 := 0
  createdAt : Int64 := 0
  compression : UInt8 := CompressionType.none.code
  flags : UInt8 := 0
deriving DecidableEq

namespace SegmentHeader

def isSealed (header : SegmentHeader) : Bool := header.flags &&& 0x01 != 0

def isValid (header : SegmentHeader) : Bool :=
  header.magic == kSegmentMagic && header.formatVersion == kSegmentFormatVersion &&
    header.headerSize == UInt16.ofNat kSegmentHeaderSize && decide (0 ≤ header.baseOffset)

def covered (header : SegmentHeader) : Bytes :=
  encodeInt 8 header.baseOffset ++ (encode 8 header.segmentId.toNat ++
  (encodeInt 8 header.createdAt.toInt ++ ([header.compression] ++ ([header.flags] ++ List.replicate 22 0))))

def computeHeaderCrc (header : SegmentHeader) : UInt32 := crc32c header.covered

def writeHeader (header : SegmentHeader) : Bytes :=
  encode 4 header.magic.toNat ++ (encode 2 header.formatVersion.toNat ++
  (encode 2 header.headerSize.toNat ++ (encode 4 header.headerCrc.toNat ++
  (List.replicate 4 0 ++ header.covered))))

end SegmentHeader

inductive SegmentError where
  | headerTooShort (length : Nat)
  | invalidHeader
  | headerCrcMismatch (stored computed : UInt32)
  | segmentIdMismatch (expected found : UInt64)
  | baseOffsetMismatch (expected found : Int)
  | corrupted
  | notActive
  | notOpen
  | offsetBelowBase (start base : Int)
  | noPosition (offset : Int)
  | corruptBatch (error : BatchError)
deriving DecidableEq

def readHeader (file : Bytes) : Except SegmentError SegmentHeader :=
  let raw := pread file 0 kSegmentHeaderSize
  if raw.length < kSegmentHeaderSize then .error (.headerTooShort raw.length)
  else
    let (magic, rest) := readNat 4 raw
    let (formatVersion, rest) := readNat 2 rest
    let (headerSize, rest) := readNat 2 rest
    let (headerCrc, rest) := readNat 4 rest
    let (_, rest) := readNat 4 rest
    let (baseOffset, rest) := readInt 8 rest
    let (segmentId, rest) := readNat 8 rest
    let (createdAt, rest) := readInt 8 rest
    let (compression, rest) := readNat 1 rest
    let (flags, _) := readNat 1 rest
    let header : SegmentHeader :=
      { magic := UInt32.ofNat magic
        formatVersion := UInt16.ofNat formatVersion
        headerSize := UInt16.ofNat headerSize
        headerCrc := UInt32.ofNat headerCrc
        baseOffset
        segmentId := UInt64.ofNat segmentId
        createdAt := Int64.ofInt createdAt
        compression := UInt8.ofNat compression
        flags := UInt8.ofNat flags }
    if !header.isValid then .error .invalidHeader
    else if header.computeHeaderCrc ≠ header.headerCrc then
      .error (.headerCrcMismatch header.headerCrc header.computeHeaderCrc)
    else .ok header

/-!
## State
-/

structure SegmentConfig where
  baseOffset : Int := 0
  segmentId : UInt64 := 0
  compression : CompressionType := .none
  maxSegmentBytes : Int := 1073741824
  indexIntervalBytes : Int := kDefaultIndexInterval
  preallocate : Bool := false
  readOnly : Bool := false
deriving DecidableEq

structure SparseIndexEntry where
  offset : Int
  filePosition : Nat
  timestamp : Int64
deriving DecidableEq

inductive SegmentState where
  | uninitialized
  | active
  | «sealed»
  | closed
  | corrupted
deriving DecidableEq

/-- A segment: its file with the index beside it, and what is kept of them in memory. -/
structure Segment where
  config : SegmentConfig
  header : SegmentHeader
  state : SegmentState
  nextOffset : Int
  fileSize : Nat
  maxTimestamp : Int64
  sparseIndex : List SparseIndexEntry
  indexDirty : Bool
  file : Option Bytes
  indexFile : Option (List SparseIndexEntry)
deriving DecidableEq

namespace Segment

def new (config : SegmentConfig) (now : Int64) (file : Option Bytes)
    (indexFile : Option (List SparseIndexEntry)) : Segment where
  config :=
    { config with
      maxSegmentBytes := if config.maxSegmentBytes ≤ 0 then 1073741824 else config.maxSegmentBytes
      indexIntervalBytes :=
        if config.indexIntervalBytes ≤ 0 then kDefaultIndexInterval else config.indexIntervalBytes }
  header :=
    { baseOffset := config.baseOffset
      segmentId := config.segmentId
      createdAt := now
      compression := config.compression.code }
  state := .uninitialized
  nextOffset := config.baseOffset
  fileSize := 0
  maxTimestamp := 0
  sparseIndex := []
  indexDirty := false
  file
  indexFile

def isActive (segment : Segment) : Bool :=
  segment.state == .active && !segment.header.isSealed && !segment.config.readOnly

def data (segment : Segment) : Bytes := segment.file.getD []

/-!
## The sparse index
-/

def downsample : List SparseIndexEntry → List SparseIndexEntry
  | [] => []
  | [entry] => [entry]
  | entry :: _ :: entries => entry :: downsample entries

def insertEntry (entry : SparseIndexEntry) (index : List SparseIndexEntry) : List SparseIndexEntry :=
  index.takeWhile (fun other => decide (other.offset < entry.offset)) ++
    entry :: index.dropWhile (fun other => decide (other.offset < entry.offset))

def shouldAdd (interval : Int) (index : List SparseIndexEntry) (baseOffset : Int) (filePosition : Nat) : Bool :=
  match index.getLast? with
  | none => true
  | some last =>
    decide (interval ≤ (filePosition : Int) - last.filePosition) || decide (100 ≤ baseOffset - last.offset)

def raiseTimestamp (timestamp : Int64) : List SparseIndexEntry → List SparseIndexEntry
  | [] => []
  | [last] => [if last.timestamp < timestamp then { last with timestamp } else last]
  | entry :: next :: entries => entry :: raiseTimestamp timestamp (next :: entries)

def updateSparseIndex (segment : Segment) (baseOffset : Int) (filePosition : Nat) (timestamp : Int64) : Segment :=
  if shouldAdd segment.config.indexIntervalBytes segment.sparseIndex baseOffset filePosition then
    let index := insertEntry ⟨baseOffset, filePosition, timestamp⟩ segment.sparseIndex
    { segment with
      sparseIndex := if kMaxInMemoryIndexEntries < index.length then downsample index else index
      indexDirty := true }
  else
    { segment with
      sparseIndex := raiseTimestamp timestamp segment.sparseIndex
      indexDirty := segment.indexDirty ||
        segment.sparseIndex.getLast?.any fun last => decide (last.timestamp < timestamp) }

def findPosition (segment : Segment) (targetOffset : Int) : Option Nat :=
  if segment.sparseIndex.isEmpty then
    if kSegmentHeaderSize < segment.fileSize then some kSegmentHeaderSize else none
  else
    match (segment.sparseIndex.takeWhile fun entry => decide (entry.offset ≤ targetOffset)).getLast? with
    | none => if segment.header.baseOffset ≤ targetOffset then some kSegmentHeaderSize else none
    | some entry => some entry.filePosition

def flushIndex (segment : Segment) : Segment :=
  if segment.sparseIndex.isEmpty && !segment.indexDirty then segment
  else { segment with indexFile := some segment.sparseIndex, indexDirty := false }

/-!
## Scanning
-/

/-- The batches from a position on, up to the first one whose length is out of range or that the
file cuts off. -/
def scanBatches (file : Bytes) (fileSize : Nat) : Nat → Nat → List (Nat × Bytes)
  | 0, _ => []
  | fuel + 1, scanPos =>
    if fileSize < scanPos + 12 then []
    else
      let blen := decodeInt 4 (pread file (scanPos + 8) 4)
      if blen ≤ 0 ∨ (kMaxBatchBytes : Int) < blen then []
      else
        let batchTotal := 12 + blen.toNat
        if fileSize < scanPos + batchTotal then []
        else (scanPos, pread file scanPos batchTotal) :: scanBatches file fileSize fuel (scanPos + batchTotal)

def forwardScan (segment : Segment) : List (Nat × Bytes) :=
  scanBatches segment.data segment.fileSize segment.fileSize kSegmentHeaderSize

/-- How far a rebuild of the index has got. -/
structure Rebuild where
  index : List SparseIndexEntry := []
  lastIndexPos : Nat := 0
  maxTimestamp : Int64 := 0

def indexBatch (interval : Int) (rebuild : Rebuild) (scanned : Nat × Bytes) : Rebuild :=
  let bo := decodeInt 8 (pread scanned.2 0 8)
  let baseTs := Int64.ofInt (decodeInt 8 (pread scanned.2 27 8))
  let batchMaxTs := Int64.ofInt (decodeInt 8 (pread scanned.2 35 8))
  let effectiveTs := if 0 < batchMaxTs then batchMaxTs else baseTs
  let maxTimestamp := if rebuild.maxTimestamp < effectiveTs then effectiveTs else rebuild.maxTimestamp
  if interval ≤ (scanned.1 : Int) - rebuild.lastIndexPos ∨ rebuild.index = [] then
    { index := rebuild.index ++ [⟨bo, scanned.1, effectiveTs⟩], lastIndexPos := scanned.1, maxTimestamp }
  else { rebuild with maxTimestamp }

def downsampleAll : Nat → List SparseIndexEntry → List SparseIndexEntry
  | 0, index => index
  | fuel + 1, index =>
    if kMaxInMemoryIndexEntries < index.length then downsampleAll fuel (downsample index) else index

def rebuildIndex (segment : Segment) : Segment :=
  if segment.fileSize ≤ kSegmentHeaderSize then { segment with sparseIndex := [], indexDirty := false }
  else
    let rebuild := segment.forwardScan.foldl (indexBatch segment.config.indexIntervalBytes) {}
    flushIndex
      { segment with
        sparseIndex := downsampleAll rebuild.index.length rebuild.index
        indexDirty := true
        maxTimestamp := if 0 < rebuild.maxTimestamp then rebuild.maxTimestamp else segment.maxTimestamp }

/-!
## Opening and closing
-/

def prepareFile (segment : Segment) (now : Int64) : Except SegmentError Segment :=
  match segment.file with
  | some file => do
    let header ← readHeader file
    if segment.config.segmentId ≠ 0 ∧ header.segmentId ≠ segment.config.segmentId then
      throw (.segmentIdMismatch segment.config.segmentId header.segmentId)
    else if segment.config.baseOffset ≠ kInvalidOffset ∧ segment.config.baseOffset ≠ 0 ∧
        header.baseOffset ≠ segment.config.baseOffset then
      throw (.baseOffsetMismatch segment.config.baseOffset header.baseOffset)
    else
      let baseOffset :=
        if segment.config.baseOffset = 0 ∧ 0 < header.baseOffset then header.baseOffset
        else segment.config.baseOffset
      return { segment with header, config := { segment.config with baseOffset } }
  | none =>
    let fields : SegmentHeader :=
      { baseOffset := segment.config.baseOffset
        segmentId := segment.config.segmentId
        createdAt := now
        compression := segment.config.compression.code }
    let header := { fields with headerCrc := fields.computeHeaderCrc }
    let file := header.writeHeader
    .ok
      { segment with
        header
        file := some
          (if segment.config.preallocate then ftruncate file segment.config.maxSegmentBytes.toNat else file) }

def loadIndex (segment : Segment) : Segment :=
  match segment.indexFile with
  | none => segment.rebuildIndex
  | some entries => { segment with sparseIndex := entries, indexDirty := false }

def scanNextOffset (file : Bytes) (size : Nat) : Nat → Nat → Int → Int
  | 0, _, curOffset => curOffset
  | fuel + 1, pos, curOffset =>
    if size < pos + 12 then curOffset
    else
      let bo := decodeInt 8 (pread file pos 8)
      let blen := decodeInt 4 (pread file (pos + 8) 4)
      if blen ≤ 0 ∨ (kMaxBatchBytes : Int) < blen then curOffset
      else scanNextOffset file size fuel (pos + (8 + 4 + blen.toNat)) (bo + 1)

def restoreNextOffset (segment : Segment) : Segment :=
  if segment.fileSize ≤ kSegmentHeaderSize then { segment with nextOffset := segment.header.baseOffset }
  else
    match segment.sparseIndex.getLast? with
    | none => segment
    | some last =>
      { segment with
        nextOffset :=
          scanNextOffset segment.data segment.fileSize segment.fileSize last.filePosition last.offset }

def prepareIndex (segment : Segment) : Segment :=
  let loaded := segment.loadIndex
  if loaded.sparseIndex.isEmpty && decide (kSegmentHeaderSize < loaded.fileSize) then loaded.rebuildIndex
  else loaded

def openPrepared (prepared : Segment) : Segment :=
  let restored := (prepareIndex { prepared with fileSize := prepared.data.length }).restoreNextOffset
  { restored with
    state := if restored.header.isSealed || restored.config.readOnly then .sealed else .active
    maxTimestamp := (restored.sparseIndex.getLast?.map (·.timestamp)).getD restored.maxTimestamp }

def «open» (segment : Segment) (now : Int64) : Except SegmentError Segment :=
  match segment.state with
  | .active | .sealed => .ok segment
  | .corrupted => .error .corrupted
  | .uninitialized | .closed => do
    let prepared ← segment.prepareFile now
    if !prepared.header.isValid then throw .invalidHeader else return prepared.openPrepared

def close (segment : Segment) : Segment :=
  match segment.state with
  | .closed => segment
  | .uninitialized => { segment with state := .closed }
  | _ => { segment.flushIndex with state := .closed, fileSize := 0, nextOffset := kInvalidOffset }

/-!
## Appending
-/

structure SegmentAppendResult where
  baseOffset : Int
  filePosition : Nat
  batchesWritten : Nat
  recordsWritten : Nat
deriving DecidableEq

def roundUp (size : Nat) : Nat := (size + kFileExtendStep - 1) / kFileExtendStep * kFileExtendStep

def extendFile (segment : Segment) (additionalBytes : Nat) : Segment :=
  let newSize := roundUp (segment.fileSize + additionalBytes)
  { segment with file := some (ftruncate segment.data newSize), fileSize := newSize }

def batchMaxTs (batch : RecordBatch) : Int64 :=
  if 0 < batch.maxTimestamp then batch.maxTimestamp else batch.baseTimestamp

def raiseMaxTimestamp (segment : Segment) (timestamp : Int64) : Segment :=
  if 0 < timestamp ∧ segment.maxTimestamp < timestamp then { segment with maxTimestamp := timestamp }
  else segment

def writeAt (segment : Segment) (position : Nat) (bytes : Bytes) : Segment :=
  { segment with file := some (pwrite segment.data position bytes) }

def advance (segment : Segment) (fileSize : Nat) (nextOffset : Int) : Segment :=
  { segment with fileSize, nextOffset }

def append (segment : Segment) (batch : RecordBatch) : Except SegmentError (Segment × SegmentAppendResult) :=
  if !segment.isActive then .error .notActive
  else if batch.records.isEmpty then .ok (segment, ⟨segment.nextOffset, segment.fileSize, 0, 0⟩)
  else
    let serialized := batch.serializeBatch
    let assignedOffset := segment.nextOffset
    let writePos := segment.fileSize
    let extended := segment.extendFile serialized.length
    let written := extended.writeAt writePos (assignOffset assignedOffset serialized)
    let moved := written.advance (writePos + serialized.length) (assignedOffset + batch.records.length)
    let stamped := moved.raiseMaxTimestamp (batchMaxTs batch)
    .ok (stamped.updateSparseIndex assignedOffset writePos (batchMaxTs batch),
      ⟨assignedOffset, writePos, 1, batch.records.length⟩)

/-- Batches that an append has serialized and will write at once. -/
structure PendingWrite where
  data : Bytes
  baseOffset : Int

def assignOffsets : Int → List RecordBatch → List (Int × RecordBatch)
  | _, [] => []
  | currentOffset, batch :: batches =>
    (currentOffset, batch) :: assignOffsets (currentOffset + batch.records.length) batches

def pendingWrite (placed : Int × RecordBatch) : PendingWrite :=
  ⟨assignOffset placed.1 placed.2.serializeBatch, placed.1⟩

def writePending (timestamp : Int64) (state : Segment × Nat) (pending : PendingWrite) : Segment × Nat :=
  ((state.1.writeAt state.2 pending.data).updateSparseIndex pending.baseOffset state.2 timestamp,
    state.2 + pending.data.length)

def appendBatch (segment : Segment) (batches : List RecordBatch) :
    Except SegmentError (Segment × SegmentAppendResult) :=
  if batches.isEmpty then .ok (segment, ⟨segment.nextOffset, 0, 0, 0⟩)
  else if !segment.isActive then .error .notActive
  else
    let firstOffset := segment.nextOffset
    let firstPosition := segment.fileSize
    let pending := (assignOffsets firstOffset batches).map pendingWrite
    let totalRecords := (batches.map (·.records.length)).sum
    let totalBytes := (pending.map (·.data.length)).sum
    let finalSize := firstPosition + totalBytes
    let timestamp := batches.foldl (fun highest batch =>
      if highest < batchMaxTs batch then batchMaxTs batch else highest) 0
    let extended := segment.extendFile totalBytes
    let written := (pending.foldl (writePending timestamp) (extended, firstPosition)).1
    let moved := written.advance finalSize (firstOffset + totalRecords)
    .ok (moved.raiseMaxTimestamp timestamp, ⟨firstOffset, firstPosition, batches.length, totalRecords⟩)

/-!
## Reading
-/

structure SegmentReadResult where
  batches : List RecordBatch := []
  bytesRead : Nat := 0
  nextOffset : Int
  isTruncated : Bool := false
deriving DecidableEq

/-- What a read does with the next bytes: it stops, passes over them, fails or takes a batch. -/
inductive ReadStep where
  | stop
  | skip (batchTotal : Nat)
  | fail (error : BatchError)
  | take (batch : RecordBatch) (batchTotal : Nat) (batchEndOffset : Int)
deriving DecidableEq

def readStep (segment : Segment) (startOffset : Int) (scanPos : Nat) : ReadStep :=
  if segment.fileSize < scanPos + 12 then .stop
  else
    let bo := decodeInt 8 (pread segment.data scanPos 8)
    let blen := decodeInt 4 (pread segment.data (scanPos + 8) 4)
    if blen ≤ 0 ∨ (kMaxBatchBytes : Int) < blen then .stop
    else
      let batchTotal := 12 + blen.toNat
      if segment.fileSize < scanPos + batchTotal then .stop
      else
        let readBuf := pread segment.data scanPos batchTotal
        if blen < 61 then .stop
        else
          -- The record count is looked for 57 bytes behind the length field.
          let recordCount := decodeInt 4 (pread readBuf (12 + 57) 4)
          if recordCount < 0 ∨ 1000000 < recordCount then .stop
          else if bo + recordCount ≤ startOffset then .skip batchTotal
          else
            match deserializeBatch readBuf with
            | .error error => .fail error
            | .ok batch => .take batch batchTotal (bo + recordCount)

def readLoop (segment : Segment) (startOffset maxBytes : Int) :
    Nat → Nat → SegmentReadResult → Except SegmentError SegmentReadResult
  | 0, _, result => .ok result
  | fuel + 1, scanPos, result =>
    match segment.readStep startOffset scanPos with
    | .stop => .ok result
    | .skip batchTotal => segment.readLoop startOffset maxBytes fuel (scanPos + batchTotal) result
    | .fail error => .error (.corruptBatch error)
    | .take batch batchTotal batchEndOffset =>
      let bytesRead := result.bytesRead + batchTotal
      let batches := result.batches ++ [batch]
      if maxBytes ≤ bytesRead then .ok ⟨batches, bytesRead, batchEndOffset, true⟩
      else
        segment.readLoop startOffset maxBytes fuel (scanPos + batchTotal)
          ⟨batches, bytesRead, batchEndOffset, false⟩

def read (segment : Segment) (startOffset maxBytes : Int) : Except SegmentError SegmentReadResult :=
  if segment.state = .uninitialized ∨ segment.state = .closed then .error .notOpen
  else if segment.state = .corrupted then .error .corrupted
  else if startOffset < segment.header.baseOffset then
    .error (.offsetBelowBase startOffset segment.header.baseOffset)
  else if segment.nextOffset ≤ startOffset then .ok { nextOffset := segment.nextOffset }
  else
    match segment.findPosition startOffset with
    | none => .error (.noPosition startOffset)
    | some scanPos => do
      let result ← segment.readLoop startOffset maxBytes segment.fileSize scanPos { nextOffset := startOffset }
      return if result.batches.isEmpty then { result with nextOffset := segment.nextOffset } else result

end Segment

end TorrentMq.Storage
