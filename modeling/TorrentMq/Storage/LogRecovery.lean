import Mathlib.Logic.Relation
import TorrentMq.Bytes.Cursor
import TorrentMq.Storage.Segment

/-!
# Recovery of segment files

The scan that validates a segment file after a crash, as it indexes the bytes
behind the header, and the repair of the last file. The scan takes the bytes to
be as many as the whole file has.
-/

set_option autoImplicit false

namespace TorrentMq.Storage.LogRecovery

open Bytes Relation List Cursor

inductive SizeError where
  | underflow
deriving DecidableEq

structure BatchBoundary where
  baseOffset : Int
  batchLength : Nat
  recordCount : Int
  maxTimestamp : Int
  crcValid : Bool
deriving DecidableEq

def batchLength (p : Bytes) : Int := (readInt 4 (p.drop 8)).1

def totalBatchSize (p : Bytes) : Option Nat :=
  if (readInt 1 (p.drop 16)).1 ≠ kRecordBatchMagic ∨ batchLength p < 0 ∨ (readInt 4 (p.drop 57)).1 < 0 ∨
    kMaxBatchBytes < 8 + 4 + (batchLength p).toNat then none
  else some (8 + 4 + (batchLength p).toNat)

def boundary (p covered : Bytes) : BatchBoundary where
  baseOffset := (readInt 8 p).1
  batchLength := (batchLength p).toNat
  recordCount := (readInt 4 (p.drop 57)).1
  maxTimestamp := (readInt 8 (p.drop 35)).1
  crcValid := crc32c covered == UInt32.ofNat (readNat 4 (p.drop 17)).1

def sizeDiff (left right : Nat) : Cursor SizeError Nat :=
  if left < right then fail .underflow else pure (left - right)

def parseBatchAt (filePos fileSize : Nat) : Cursor SizeError (Option BatchBoundary) :=
  if fileSize < filePos + kMinBatchHeaderSize then pure none
  else do
    let p ← slice filePos kMinBatchHeaderSize
    match totalBatchSize p with
    | none => pure none
    | some total =>
      if fileSize < filePos + total then pure none
      else do
        let crcPayloadSize ← sizeDiff total 21
        let covered ← slice (filePos + 21) crcPayloadSize
        return some (boundary p covered)

inductive RecoveryState where
  | valid
  | headerCorrupt
  | batchCorrupt
deriving DecidableEq

structure SegmentRecoveryInfo where
  state : RecoveryState := .valid
  baseOffset : Int := kInvalidOffset
  nextOffset : Int := kInvalidOffset
  maxTimestamp : Int := 0
  headerValid : Bool := false
  indexValid : Bool := true
  hasTornWrite : Bool := false
  repairAttempted : Bool := false
  repairSuccess : Bool := false
  batchesFound : Nat := 0
  totalBatchBytes : Nat := 0
  lastValidOffset : Int := kInvalidOffset
  batchOffsets : List Int := []
deriving DecidableEq

namespace SegmentRecoveryInfo

def record (info : SegmentRecoveryInfo) (batch : BatchBoundary) (runningOffset : Int) : SegmentRecoveryInfo :=
  { info with
    batchOffsets := info.batchOffsets ++ [batch.baseOffset]
    batchesFound := info.batchesFound + 1
    totalBatchBytes := info.totalBatchBytes + (8 + 4 + batch.batchLength)
    maxTimestamp := if info.maxTimestamp < batch.maxTimestamp then batch.maxTimestamp else info.maxTimestamp
    nextOffset := runningOffset }

def corrupted (info : SegmentRecoveryInfo) : SegmentRecoveryInfo :=
  { info with state := .batchCorrupt, lastValidOffset := info.nextOffset }

end SegmentRecoveryInfo

def scanBatches (data : Bytes) (bufOffset : Nat) (runningOffset : Int) (info : SegmentRecoveryInfo) :
    Except (Fault SizeError) SegmentRecoveryInfo :=
  if bufOffset < data.length then
    match parseBatchAt bufOffset (data.length + kSegmentHeaderSize) data 0 with
    | .error fault => .error fault
    | .ok (none, _) =>
      if data.length < bufOffset + kMinBatchHeaderSize then .ok { info with hasTornWrite := true }
      else .ok info.corrupted
    | .ok (some batch, _) =>
      if batch.crcValid then
        let runningOffset := runningOffset + batch.recordCount
        scanBatches data (bufOffset + (8 + 4 + batch.batchLength)) runningOffset (info.record batch runningOffset)
      else .ok info.corrupted
  else .ok info
termination_by data.length - bufOffset

def headerAccepted (file : Bytes) : Bool :=
  let h := pread file 0 kSegmentHeaderSize
  decide (kSegmentHeaderSize ≤ h.length) && UInt32.ofNat (readNat 4 h).1 == kSegmentMagic &&
    UInt16.ofNat (readNat 2 (h.drop 4)).1 == kSegmentFormatVersion && (readNat 2 (h.drop 6)).1 == kSegmentHeaderSize &&
    decide (0 ≤ (readInt 8 (h.drop 16)).1) && crc32c (h.drop 16) == UInt32.ofNat (readNat 4 (h.drop 8)).1

def populate (file : Bytes) : SegmentRecoveryInfo where
  baseOffset := (readInt 8 ((pread file 0 kSegmentHeaderSize).drop 16)).1
  headerValid := true

abbrev batchData (file : Bytes) : Bytes := file.drop kSegmentHeaderSize

def validateSegment (named : Int) (file : Bytes) : Except (Fault SizeError) SegmentRecoveryInfo :=
  let info : SegmentRecoveryInfo := { baseOffset := named }
  if file.length = 0 then .ok { info with nextOffset := named }
  else if headerAccepted file then
    scanBatches (batchData file) 0 (populate file).baseOffset (populate file)
  else .ok { info with state := .headerCorrupt }

def batchAt (data : Bytes) (pos total : Nat) : BatchBoundary :=
  boundary (pread data pos kMinBatchHeaderSize) (pread data (pos + 21) (total - 21))

structure Takes (data : Bytes) (pos total : Nat) : Prop where
  header : pos + kMinBatchHeaderSize ≤ data.length
  size : totalBatchSize (pread data pos kMinBatchHeaderSize) = some total
  covers : 21 ≤ total
  inside : pos + total ≤ data.length
  crc : (batchAt data pos total).crcValid = true

/-- A batch of at least so many bytes ends at the next position. -/
def Next (minimum : Nat) (data : Bytes) (pos next : Nat) : Prop :=
  ∃ total, minimum ≤ total ∧ Takes data pos total ∧ next = pos + total

/-- The header is there, and a batch that it announces is too, unless even the size of the file is too small for it. -/
def SafeAt (data : Bytes) (pos : Nat) : Prop :=
  pos < data.length → pos + kMinBatchHeaderSize ≤ data.length ∧
    ∀ total, totalBatchSize (pread data pos kMinBatchHeaderSize) = some total →
      pos + total ≤ data.length + kSegmentHeaderSize → 21 ≤ total ∧ pos + total ≤ data.length

/-- That holds wherever batches lead whose checksums are right. -/
def InBounds (file : Bytes) : Prop :=
  headerAccepted file = true →
    ∀ pos, ReflTransGen (Next 0 (batchData file)) 0 pos → SafeAt (batchData file) pos

theorem slice_of_gt {bytes : Bytes} {index count : Nat} (start : index ≤ bytes.length)
    (beyond : bytes.length < index + count) (pos : Nat) :
    (slice index count : Cursor SizeError Bytes) bytes pos = .error (.outOfBounds bytes.length) := by
  induction count generalizing index with
  | zero => omega
  | succ count ih =>
    by_cases last : index < bytes.length
    · have rest := @ih (index + 1) last (by omega)
      rw [slice, run_bind_ok (byteAt_of_lt last pos), run_bind, rest]
      rfl
    · have here : index = bytes.length := by omega
      rw [slice, run_bind, byteAt, here, getElem?_eq_none (Nat.le_refl _)]
      rfl

variable {data : Bytes} {pos total : Nat}

theorem parseBatchAt_eq (header : pos + kMinBatchHeaderSize ≤ data.length) :
    parseBatchAt pos (data.length + kSegmentHeaderSize) data 0 =
      match totalBatchSize (pread data pos kMinBatchHeaderSize) with
      | none => .ok (none, 0)
      | some total =>
        if data.length + kSegmentHeaderSize < pos + total then .ok (none, 0)
        else if total < 21 then .error (.failed .underflow)
        else if data.length < pos + total then .error (.outOfBounds data.length)
        else .ok (some (batchAt data pos total), 0) := by
  have read := @slice_of_le SizeError data pos kMinBatchHeaderSize header 0
  unfold pread
  rw [parseBatchAt, if_neg (by omega), run_bind_ok read]
  cases announced : totalBatchSize ((data.drop pos).take kMinBatchHeaderSize) with
  | none => rfl
  | some total =>
    dsimp only
    split
    next => rfl
    next =>
      split
      next small =>
        rw [run_bind, sizeDiff, if_pos small]
        rfl
      next covers =>
        have diff : sizeDiff total 21 data 0 = .ok (total - 21, 0) := by
          rw [sizeDiff, if_neg covers]
          rfl
        unfold kMinBatchHeaderSize at header
        rw [run_bind_ok diff]
        split
        next beyond =>
          rw [run_bind, slice_of_gt (by omega) (by omega)]
          rfl
        next =>
          rw [run_bind_ok (slice_of_le (by omega) 0)]
          rfl

theorem Takes.total_eq (takes : Takes data pos total) : total = 8 + 4 + (batchAt data pos total).batchLength := by
  have size := takes.size
  unfold totalBatchSize at size
  simp only [batchAt, boundary]
  split at size
  next => cases size
  next => exact (Option.some.inj size).symm

section Scan

variable (running : Int) (info : SegmentRecoveryInfo)

theorem scanBatches_of_takes (takes : Takes data pos total) :
    scanBatches data pos running info = scanBatches data (pos + total) (running + (batchAt data pos total).recordCount)
      (info.record (batchAt data pos total) (running + (batchAt data pos total).recordCount)) := by
  have next := takes.total_eq
  obtain ⟨header, size, covers, inside, crc⟩ := takes
  have starts : pos < data.length := by omega
  rw [scanBatches, if_pos starts, parseBatchAt_eq header, size]
  dsimp only
  rw [if_neg (by omega), if_neg (by omega), if_neg (by omega)]
  dsimp only
  rw [if_pos crc, ← next]

theorem scanBatches_of_stop (safe : SafeAt data pos) (stop : ∀ total, ¬Takes data pos total) :
    scanBatches data pos running info = .ok (if pos < data.length then info.corrupted else info) := by
  rw [scanBatches]
  split
  next starts =>
    obtain ⟨header, sizes⟩ := safe starts
    rw [parseBatchAt_eq header]
    cases size : totalBatchSize (pread data pos kMinBatchHeaderSize) with
    | none =>
      dsimp only
      rw [if_neg (by omega)]
    | some total =>
      dsimp only
      by_cases far : data.length + kSegmentHeaderSize < pos + total
      · rw [if_pos far]
        dsimp only
        rw [if_neg (by omega)]
      · obtain ⟨covers, inside⟩ := sizes total size (by omega)
        rw [if_neg far, if_neg (by omega), if_neg (by omega)]
        dsimp only
        rw [if_neg fun crc => stop total ⟨header, size, covers, inside, crc⟩]
  next => rfl

theorem safeAt_of_ok (ok : ∃ out, scanBatches data pos running info = .ok out) : SafeAt data pos := by
  obtain ⟨out, ok⟩ := ok
  intro starts
  rw [scanBatches, if_pos starts] at ok
  by_cases header : pos + kMinBatchHeaderSize ≤ data.length
  · refine ⟨header, fun total size near => ?_⟩
    rw [parseBatchAt_eq header, size] at ok
    dsimp only at ok
    rw [if_neg (by omega)] at ok
    by_cases covers : total < 21
    · rw [if_pos covers] at ok
      cases ok
    · rw [if_neg covers] at ok
      by_cases beyond : data.length < pos + total
      · rw [if_pos beyond] at ok
        cases ok
      · exact ⟨by omega, by omega⟩
  · have short : parseBatchAt pos (data.length + kSegmentHeaderSize) data 0 = .error (.outOfBounds data.length) := by
      rw [parseBatchAt, if_neg (by unfold kMinBatchHeaderSize kSegmentHeaderSize; omega), run_bind,
        slice_of_gt (by omega) (by omega)]
      rfl
    rw [short] at ok
    cases ok

end Scan

/-- What the scan finds on its way from a position to a stop, over batches of at least so many bytes. -/
structure Run (minimum : Nat) (data : Bytes) (pos : Nat) (running : Int) (info : SegmentRecoveryInfo) (stop : Nat)
    (out : SegmentRecoveryInfo) : Prop where
  after : pos ≤ stop
  inside : pos < stop → stop ≤ data.length
  scans : scanBatches data pos running info = .ok (if stop < data.length then out.corrupted else out)
  state : out.state = info.state
  base : out.baseOffset = info.baseOffset
  repair : out.repairSuccess = info.repairSuccess
  bytes : pos + out.totalBatchBytes = stop + info.totalBatchBytes
  none : stop = pos → out = info
  found : pos < stop → info.batchesFound < out.batchesFound
  again : kMinBatchHeaderSize ≤ minimum → scanBatches (data.take stop) pos running info = .ok out

theorem pread_take {count : Nat} (data : Bytes) {size : Nat} (inside : pos + count ≤ size) :
    pread (data.take size) pos count = pread data pos count := by
  rw [pread, drop_take, take_take, min_eq_left (by omega), pread]

theorem Takes.take (takes : Takes data pos total) (whole : kMinBatchHeaderSize ≤ total) {size : Nat}
    (inside : pos + total ≤ size) :
    Takes (data.take size) pos total ∧ batchAt (data.take size) pos total = batchAt data pos total := by
  obtain ⟨header, announced, covers, fits, crc⟩ := takes
  have front := @pread_take pos kMinBatchHeaderSize data size (by omega)
  have same : batchAt (data.take size) pos total = batchAt data pos total := by
    rw [batchAt, front, pread_take data (by omega), batchAt]
  have length : (data.take size).length = min size data.length := length_take
  refine ⟨⟨by omega, ?_, covers, by omega, ?_⟩, same⟩
  · rw [front]
    exact announced
  · rw [same]
    exact crc

theorem exists_run {minimum stop : Nat} (chain : ReflTransGen (Next minimum data) pos stop)
    (stops : ∀ total, ¬Takes data stop total) (safe : SafeAt data stop) (running : Int) (info : SegmentRecoveryInfo) :
    ∃ out, Run minimum data pos running info stop out := by
  induction chain using ReflTransGen.head_induction_on generalizing running info with
  | refl =>
    refine ⟨info, le_rfl, by omega, scanBatches_of_stop running info safe stops, rfl, rfl, rfl, rfl, fun _ => rfl,
      by omega, fun _ => ?_⟩
    rw [scanBatches, if_neg (by rw [length_take]; omega)]
  | @head pos _ step rest ih =>
    obtain ⟨total, long, takes, rfl⟩ := step
    have covers := takes.covers
    have fits := takes.inside
    obtain ⟨out, run⟩ := ih (running + (batchAt data pos total).recordCount)
      (info.record (batchAt data pos total) (running + (batchAt data pos total).recordCount))
    have size := takes.total_eq
    have after := run.after
    have inside := run.inside
    have bytes := run.bytes
    dsimp only [SegmentRecoveryInfo.record] at bytes
    have found : info.batchesFound < out.batchesFound := by
      rcases Nat.eq_or_lt_of_le after with same | further
      · rw [run.none same.symm]
        exact Nat.lt_succ_self _
      · exact (Nat.lt_succ_self _).trans (run.found further)
    refine ⟨out, by omega, by omega, ?_, run.state, run.base, run.repair, by omega, by omega, fun _ => found,
      fun whole => ?_⟩
    · rw [scanBatches_of_takes running info takes]
      exact run.scans
    · obtain ⟨kept, same⟩ := takes.take (whole.trans long) after
      rw [scanBatches_of_takes running info kept, same]
      exact run.again whole

theorem exists_stop (data : Bytes) (pos : Nat) :
    ∃ stop, ReflTransGen (Next 0 data) pos stop ∧ ∀ total, ¬Takes data stop total := by
  induction left : data.length - pos using Nat.strong_induction_on generalizing pos with
  | _ left ih =>
    by_cases taken : ∃ total, Takes data pos total
    · obtain ⟨total, takes⟩ := taken
      obtain ⟨stop, chain, stops⟩ :=
        ih (data.length - (pos + total)) (by have := takes.covers; have := takes.inside; omega) _ rfl
      exact ⟨stop, .head ⟨total, Nat.zero_le _, takes, rfl⟩ chain, stops⟩
    · exact ⟨pos, .refl, fun total takes => taken ⟨total, takes⟩⟩

theorem safeAt_of_reach {reached : Nat} (reach : ReflTransGen (Next 0 data) pos reached) (running : Int)
    (info : SegmentRecoveryInfo) (ok : ∃ out, scanBatches data pos running info = .ok out) : SafeAt data reached := by
  induction reach using ReflTransGen.head_induction_on generalizing running info with
  | refl => exact safeAt_of_ok running info ok
  | head step rest ih =>
    obtain ⟨total, -, takes, rfl⟩ := step
    rw [scanBatches_of_takes running info takes] at ok
    exact ih _ _ ok

theorem validateSegment_ok_iff (named : Int) (file : Bytes) :
    (∃ info, validateSegment named file = .ok info) ↔ InBounds file := by
  unfold validateSegment InBounds
  dsimp only
  split
  next empty =>
    refine iff_of_true ⟨_, rfl⟩ fun accepted => ?_
    rw [length_eq_zero_iff.mp empty] at accepted
    cases accepted
  next =>
    split
    next accepted =>
      refine ⟨fun ok _ reached reach => safeAt_of_reach reach _ _ ok, fun safe => ?_⟩
      obtain ⟨stop, chain, stops⟩ := exists_stop (batchData file) 0
      obtain ⟨out, run⟩ := exists_run chain stops (safe accepted stop chain) (populate file).baseOffset (populate file)
      exact ⟨_, run.scans⟩
    next refused => exact iff_of_true ⟨_, rfl⟩ fun accepted => absurd accepted refused

/-- No index is outside of the file and no size goes below zero, just where every header that is reached is there with
the batch that it announces. -/
theorem validates_iff (named : Int) (file : Bytes) :
    (∀ fault, validateSegment named file ≠ .error fault) ↔ InBounds file := by
  rw [← validateSegment_ok_iff named file]
  cases validateSegment named file with
  | error fault =>
    refine iff_of_false (fun none => none fault rfl) ?_
    rintro ⟨info, ⟨⟩⟩
  | ok info => exact iff_of_true (fun _ => by rintro ⟨⟩) ⟨info, rfl⟩

def emptySegment : Bytes :=
  let header : SegmentHeader := { baseOffset := 5 }
  SegmentHeader.writeHeader { header with headerCrc := header.computeHeaderCrc }

/-- A torn header is read beyond the end, and the size of a batch without contents goes below zero. -/
theorem not_validates_torn :
    validateSegment 5 (emptySegment ++ [0]) = .error (.outOfBounds 1) ∧
      validateSegment 5 (emptySegment ++ List.replicate 16 0 ++ [2] ++ List.replicate 44 0) =
        .error (.failed .underflow) :=
  ⟨by decide +kernel, by decide +kernel⟩

def truncate (file : Bytes) (info : SegmentRecoveryInfo) : Bytes × SegmentRecoveryInfo :=
  let repaired := { info with state := .valid, repairAttempted := true, repairSuccess := true, indexValid := false }
  if info.batchesFound = 0 then
    (file.take kSegmentHeaderSize, { repaired with nextOffset := info.baseOffset, batchOffsets := [] })
  else (file.take (kSegmentHeaderSize + info.totalBatchBytes), { repaired with hasTornWrite := false })

def repairSegment (named : Int) (file : Bytes) :
    Except (Fault SizeError) (Bytes × SegmentRecoveryInfo) := do
  let info ← validateSegment named file
  match info.state with
  | .valid => return (file, info)
  | .headerCorrupt => return (file, { info with repairAttempted := true })
  | .batchCorrupt => return truncate file info

def recover (validated : List SegmentRecoveryInfo) (named : Int) (last : Bytes) :
    Except (Fault SizeError) (Bytes × List SegmentRecoveryInfo) := do
  let info ← validateSegment named last
  if info.state = .batchCorrupt then
    let (file, repaired) ← repairSegment named last
    return (file, validated ++ [if repaired.state = .valid then repaired else info])
  else return (last, validated ++ [info])

/-- How many bytes the longest prefix of valid batches takes. -/
def LongestPrefix (data : Bytes) (size : Nat) : Prop :=
  ReflTransGen (Next kMinBatchHeaderSize data) 0 size ∧ ∀ next, ¬Next kMinBatchHeaderSize data size next

/-- A file that is cut is left with its valid batches, validates to the offset that was reported, and is not cut
again. -/
def Recovers (validated : List SegmentRecoveryInfo) (named : Int) (last : Bytes) : Prop :=
  ∃ file info, recover validated named last = .ok (file, validated ++ [info]) ∧
    (info.repairSuccess = true → ∃ size again, LongestPrefix (batchData last) size ∧
      file = last.take (kSegmentHeaderSize + size) ∧ validateSegment named file = .ok again ∧ again.state = .valid ∧
      again.nextOffset = info.nextOffset) ∧
    ∃ later, recover validated named file = .ok (file, later)

def Corrupt (data : Bytes) : Prop := ¬ReflTransGen (Next 0 data) 0 data.length

/-- The valid batches of a corrupt file, at least one, lead to a place where the scan takes no shorter one either. -/
structure Repairable (last : Bytes) : Prop where
  inBounds : InBounds last
  whole : headerAccepted last = true → Corrupt (batchData last) → ∃ size > 0,
    ReflTransGen (Next kMinBatchHeaderSize (batchData last)) 0 size ∧
      ∀ total, ¬Takes (batchData last) size total

variable {named : Int} {last : Bytes} {info out : SegmentRecoveryInfo}

theorem recover_of_valid (validates : validateSegment named last = .ok info) (sound : info.state ≠ .batchCorrupt)
    (validated : List SegmentRecoveryInfo) : recover validated named last = .ok (last, validated ++ [info]) := by
  unfold recover
  rw [validates]
  exact if_neg sound

theorem validateSegment_of_accepted (accepted : headerAccepted last = true) (named : Int) :
    0 ≤ (populate last).baseOffset ∧
      validateSegment named last = scanBatches (batchData last) 0 (populate last).baseOffset (populate last) := by
  have checks := accepted
  unfold headerAccepted at checks
  simp only [Bool.and_eq_true, decide_eq_true_eq] at checks
  have long := checks.1.1.1.1.1
  rw [pread, length_take, drop_zero, kSegmentHeaderSize] at long
  refine ⟨by simp only [populate]; exact checks.1.2, ?_⟩
  unfold validateSegment
  rw [if_neg (by omega)]
  exact if_pos accepted

theorem recover_of_corrupt (validates : validateSegment named last = .ok info) (corrupt : info.state = .batchCorrupt)
    (validated : List SegmentRecoveryInfo) :
    recover validated named last = .ok ((truncate last info).1, validated ++ [(truncate last info).2]) := by
  have repaired : repairSegment named last = .ok (truncate last info) := by
    unfold repairSegment
    rw [validates]
    dsimp only [bind, Except.bind]
    rw [corrupt]
    rfl
  have state : (truncate last info).2.state = .valid := by
    unfold truncate
    split <;> rfl
  unfold recover
  rw [validates]
  dsimp only [bind, Except.bind]
  rw [if_pos corrupt, repaired]
  dsimp only
  rw [if_pos state]
  rfl

theorem truncate_of_run {minimum stop : Nat}
    (run : Run minimum (batchData last) 0 (populate last).baseOffset (populate last) stop out) :
    (truncate last out.corrupted).1 = last.take (kSegmentHeaderSize + stop) ∧
      (truncate last out.corrupted).2.repairSuccess = true ∧
      (truncate last out.corrupted).2.nextOffset = if stop = 0 then (populate last).baseOffset else out.nextOffset := by
  unfold truncate SegmentRecoveryInfo.corrupted
  dsimp only
  rcases Nat.eq_zero_or_pos stop with rfl | further
  · have nothing : out.batchesFound = 0 := by rw [run.none rfl, populate]
    rw [if_pos nothing, if_pos rfl]
    exact ⟨rfl, rfl, run.base⟩
  · have bytes := run.bytes
    rw [Nat.zero_add, populate, Nat.add_zero] at bytes
    rw [if_neg (Nat.ne_of_gt (Nat.zero_lt_of_lt (run.found further))), if_neg (Nat.ne_of_gt further), bytes]
    exact ⟨rfl, rfl, rfl⟩

theorem validateSegment_take (accepted : headerAccepted last = true) (named : Int) (size : Nat) :
    validateSegment named (last.take (kSegmentHeaderSize + size)) =
      scanBatches ((batchData last).take size) 0 (populate last).baseOffset (populate last) := by
  have same := @pread_take 0 kSegmentHeaderSize last (kSegmentHeaderSize + size) (by omega)
  have begun : populate (last.take (kSegmentHeaderSize + size)) = populate last := by rw [populate, same, populate]
  have again : headerAccepted (last.take (kSegmentHeaderSize + size)) = true := by
    unfold headerAccepted
    rw [same]
    exact accepted
  rw [(validateSegment_of_accepted again named).2, begun, batchData, drop_take, Nat.add_sub_cancel_left]

/-- Recovery keeps its promise just where the scan stays inside of the file, and the valid batches of a corrupt file, at
least one, lead to where it stops. -/
theorem recovers_iff (validated : List SegmentRecoveryInfo) (named : Int) (last : Bytes) :
    Recovers validated named last ↔ Repairable last := by
  by_cases accepted : headerAccepted last = true
  · obtain ⟨base, validates⟩ := validateSegment_of_accepted accepted named
    constructor
    · rintro ⟨file, info, recovered, cut, -⟩
      have bounds : InBounds last := by
        rw [← validateSegment_ok_iff named last]
        cases read : validateSegment named last with
        | error fault =>
          unfold recover at recovered
          rw [read] at recovered
          cases recovered
        | ok info => exact ⟨info, rfl⟩
      refine ⟨bounds, fun _ corrupt => ?_⟩
      obtain ⟨stop, chain, stops⟩ := exists_stop (batchData last) 0
      obtain ⟨out, run⟩ := exists_run chain stops (bounds accepted stop chain) (populate last).baseOffset
        (populate last)
      have inside := run.inside
      have short : stop < (batchData last).length := lt_of_le_of_ne (by omega) fun same => corrupt (same ▸ chain)
      rw [run.scans, if_pos short] at validates
      obtain ⟨left, success, next⟩ := truncate_of_run run
      rw [recover_of_corrupt validates rfl, left] at recovered
      obtain ⟨rfl, same⟩ := Prod.mk.inj (Except.ok.inj recovered)
      cases (append_cancel_left same)
      obtain ⟨size, again, ⟨valid, -⟩, same, rescan, -, offset⟩ := cut success
      have ends : size = stop := by
        have lengths := congrArg List.length same
        rw [length_take, length_take] at lengths
        rw [length_drop] at short
        omega
      subst ends
      refine ⟨size, Nat.pos_of_ne_zero ?_, valid, stops⟩
      rintro rfl
      rw [validateSegment_take accepted, take_zero, scanBatches,
        if_neg (show ¬0 < ([] : Bytes).length from Nat.lt_irrefl 0)] at rescan
      cases rescan
      rw [next, if_pos rfl] at offset
      rw [← offset, show (populate last).nextOffset = -1 from rfl] at base
      exact absurd base (by decide)
    · rintro ⟨bounds, whole⟩
      by_cases corrupt : Corrupt (batchData last)
      · obtain ⟨stop, further, valid, stops⟩ := whole accepted corrupt
        have chain : ReflTransGen (Next 0 (batchData last)) 0 stop := by
          refine valid.lift id fun pos next step => ?_
          obtain ⟨total, -, takes, same⟩ := step
          exact ⟨total, Nat.zero_le _, takes, same⟩
        obtain ⟨out, run⟩ := exists_run valid stops (bounds accepted stop chain) (populate last).baseOffset
          (populate last)
        have sound : out.state = .valid := run.state
        have short : stop < (batchData last).length :=
          lt_of_le_of_ne (run.inside further) fun same => corrupt (same ▸ chain)
        rw [run.scans, if_pos short] at validates
        obtain ⟨left, -, next⟩ := truncate_of_run run
        rw [if_neg (Nat.ne_of_gt further)] at next
        have rescan := (validateSegment_take accepted named stop).trans (run.again le_rfl)
        rw [← left] at rescan
        refine ⟨_, _, recover_of_corrupt validates rfl validated,
          fun _ => ⟨stop, out, ⟨valid, ?_⟩, left, rescan, sound, next.symm⟩, _,
          recover_of_valid rescan (by rw [sound]; decide) validated⟩
        rintro _ ⟨total, -, takes, -⟩
        exact stops total takes
      · have reach := not_not.mp corrupt
        obtain ⟨out, run⟩ := exists_run reach (fun total takes => by have := takes.covers; have := takes.inside; omega)
          (bounds accepted _ reach) (populate last).baseOffset (populate last)
        have sound : out.state = .valid := run.state
        have uncut : out.state ≠ .batchCorrupt := by
          rw [sound]
          decide
        rw [run.scans, if_neg (Nat.lt_irrefl _)] at validates
        refine ⟨last, out, recover_of_valid validates uncut validated, fun success => ?_, _,
          recover_of_valid validates uncut validated⟩
        rw [run.repair] at success
        cases success
  · obtain ⟨info, validates, uncut, unrepaired⟩ : ∃ info, validateSegment named last = .ok info ∧
        info.state ≠ .batchCorrupt ∧ info.repairSuccess = false := by
      unfold validateSegment
      dsimp only
      rw [if_neg accepted]
      split <;> exact ⟨_, rfl, RecoveryState.noConfusion, rfl⟩
    refine iff_of_true ⟨last, info, recover_of_valid validates uncut validated, fun success => ?_, _,
      recover_of_valid validates uncut validated⟩ ⟨(absurd · accepted), (absurd · accepted)⟩
    rw [unrepaired] at success
    cases success

/-- A file without valid batches is reported to end at its base offset, and then validates to none. -/
theorem not_recovers_lostBatch : ¬Recovers [] 5 (emptySegment ++ List.replicate 61 0) := by
  rintro ⟨file, info, recovered, cut, -⟩
  have computed : (recover [] 5 (emptySegment ++ List.replicate 61 0)).map
      (fun result => (result.1, result.2.map fun info => (info.repairSuccess, info.nextOffset))) =
        .ok (emptySegment, [(true, 5)]) := by decide +kernel
  have rescanned : (validateSegment 5 emptySegment).map SegmentRecoveryInfo.nextOffset = .ok (-1) := by decide +kernel
  rw [recovered] at computed
  obtain ⟨rfl, reported⟩ := Prod.mk.inj (Except.ok.inj computed)
  obtain ⟨success, offset⟩ := Prod.mk.inj (List.cons.inj reported).1
  obtain ⟨size, again, -, -, rescan, -, same⟩ := cut success
  rw [rescan] at rescanned
  have none : again.nextOffset = -1 := Except.ok.inj rescanned
  rw [none, offset] at same
  cases same

end TorrentMq.Storage.LogRecovery
