import TorrentMq.Bytes.Checksum
import TorrentMq.Storage.CompactionExecutor
import TorrentMq.Storage.SegmentReopenProperties

/-!
# Compacted files as segments

The file that a swap leaves under the name of the segment, and that a segment
does not open it.
-/

set_option autoImplicit false

namespace TorrentMq.Storage

open Bytes List

namespace Directory

variable (directory : Directory)

@[simp] theorem set_self (name : Bytes) (file : Option StoredFile) :
    directory.set name file name = file := if_pos rfl

theorem set_of_ne {name other : Bytes} (different : other ≠ name)
    (file : Option StoredFile) : directory.set name file other = directory other := if_neg different

@[simp] theorem set_set (name : Bytes) (first second : Option StoredFile) :
    (directory.set name first).set name second = directory.set name second := by
  funext other
  unfold set
  split
  · rfl
  · rfl

end Directory

namespace CompactionExecutor

section Calls

variable {target temp : Bytes} {clock : Nat → Int}

def performed (target temp : Bytes) (clock : Nat → Int) (i : Nat) (calls : List SystemCall)
    (directory : Directory) : Directory :=
  (performAll target temp clock (fun _ => false) i calls directory).2

variable (i : Nat)

theorem performed_cons (call : SystemCall) (calls : List SystemCall) (directory : Directory) :
    performed target temp clock i (call :: calls) directory =
      performed target temp clock (i + 1) calls (perform target temp (clock i) directory call) := by
  unfold performed
  rw [performAll, if_neg fun failed => Bool.false_ne_true failed.1]

theorem performed_append (front back : List SystemCall) (directory : Directory) :
    performed target temp clock i (front ++ back) directory =
      performed target temp clock (i + front.length) back (performed target temp clock i front directory) := by
  induction front generalizing i directory with
  | nil => rfl
  | cons call front ih =>
    rw [cons_append, performed_cons, performed_cons, ih, length_cons]
    congr 1
    omega

theorem performAll_eq_true {fails : Nat → Bool} {i : Nat} {calls : List SystemCall} {directory after : Directory}
    (succeeds : performAll target temp clock fails i calls directory = (true, after)) :
    after = performed target temp clock i calls directory := by
  induction calls generalizing i directory with
  | nil => exact (congrArg Prod.snd succeeds).symm
  | cons call calls ih =>
    rw [performAll] at succeeds
    split at succeeds
    next => exact absurd (congrArg Prod.fst succeeds) Bool.false_ne_true
    next =>
      rw [performed_cons]
      exact ih succeeds

theorem performAll_of_no_failure (calls : List SystemCall) (directory : Directory) :
    (performAll target temp clock (fun _ => false) i calls directory).1 = true := by
  induction calls generalizing i directory with
  | nil => rfl
  | cons call calls ih =>
    rw [performAll, if_neg fun failed => Bool.false_ne_true failed.1]
    exact ih (i + 1) _

theorem performed_writes (blocks : List Bytes) {directory : Directory} {file : StoredFile}
    (there : directory temp = some file) :
    ∃ time, performed target temp clock i (blocks.map .write) directory =
      directory.set temp (some { file with content := file.content ++ blocks.flatten, mtime := time }) := by
  induction blocks generalizing i directory file with
  | nil =>
    refine ⟨file.mtime, ?_⟩
    funext name
    unfold Directory.set
    split
    next same =>
      rw [same, flatten_nil, append_nil]
      exact there
    next => rfl
  | cons block blocks ih =>
    rw [map_cons, performed_cons]
    unfold perform
    dsimp only
    rw [there]
    obtain ⟨time, written⟩ := ih (i + 1) (Directory.set_self directory temp _)
    refine ⟨time, ?_⟩
    rw [Option.map_some, written, Directory.set_set, flatten_cons, append_assoc]

theorem performed_created (blocks : List Bytes) (directory : Directory) :
    ∃ time, performed target temp clock 0 (.create :: blocks.map .write) directory =
      directory.set temp (some ⟨blocks.flatten, time, true⟩) := by
  obtain ⟨time, written⟩ := @performed_writes target _ clock (0 + 1) blocks _ _
    (Directory.set_self directory temp (some ⟨[], clock 0, true⟩))
  refine ⟨time, ?_⟩
  rw [performed_cons]
  unfold perform
  rw [written, Directory.set_set]
  rfl

end Calls

def compactedFile (batches : List RecordBatch) (nowMs : Int64) : Bytes := (writeBlocks batches nowMs).flatten

theorem tempFileName_ne (target suffix : Bytes) : target ≠ tempFileName target suffix := by
  intro same
  have length := congrArg List.length same
  unfold tempFileName at length
  rw [length_cons, length_append] at length
  omega

variable {batches : List RecordBatch}

theorem writeAndSwap_target (nonempty : batches ≠ []) {target suffix : Bytes}
    {nowMs : Int64} {clock : Nat → Int} {fails : Nat → Bool} {directory after : Directory}
    (succeeds : writeAndSwap batches target suffix nowMs clock fails directory = (true, after)) :
    ∃ time, after target = some { content := compactedFile batches nowMs, mtime := time, byCompaction := true } := by
  unfold writeAndSwap systemCalls at succeeds
  rw [if_neg nonempty] at succeeds
  have reached := performAll_eq_true succeeds
  obtain ⟨time, created⟩ := @performed_created target (tempFileName target suffix) clock
    (writeBlocks batches nowMs) directory
  rw [← cons_append, performed_append, created, performed_cons, performed_cons, performed_cons] at reached
  refine ⟨time, ?_⟩
  rw [reached]
  unfold performed performAll perform
  dsimp only
  rw [Directory.set_of_ne _ (tempFileName_ne target suffix), Directory.set_self, Directory.set_self]
  rfl

theorem writeAndSwap_succeeds (batches : List RecordBatch) (target suffix : Bytes) (nowMs : Int64)
    (clock : Nat → Int) (directory : Directory) :
    ∃ after, writeAndSwap batches target suffix nowMs clock (fun _ => false) directory = (true, after) :=
  ⟨_, Prod.ext (performAll_of_no_failure 0 (systemCalls batches nowMs) directory) rfl⟩

def compactedFields (baseOffset : Int) (nowMs : Int64) : SegmentHeader :=
  { baseOffset := decodeInt 8 (encodeInt 8 baseOffset), createdAt := nowMs, flags := 1 }

variable (baseOffset : Int)

variable (nowMs : Int64)

theorem compactedHeader_eq :
    compactedHeader baseOffset nowMs = (compactedFields baseOffset nowMs).writeHeader := by
  unfold SegmentHeader.writeHeader SegmentHeader.covered compactedFields
  dsimp only
  rw [encodeInt_decodeInt (length_encodeInt 8 baseOffset)]
  rfl

theorem compactedFile_eq (batches : List RecordBatch) (nowMs : Int64) :
    ∃ rest, compactedFile batches nowMs =
      (compactedFields ((batches.head?.map RecordBatch.baseOffset).getD kInvalidOffset) nowMs).writeHeader ++ rest := by
  unfold compactedFile writeBlocks
  rw [flatten_cons, compactedHeader_eq]
  exact ⟨_, rfl⟩

theorem fitsInt_compactedFields :
    FitsInt 8 (compactedFields baseOffset nowMs).baseOffset := by
  unfold compactedFields
  dsimp only
  exact fitsInt_decodeInt 8 _

theorem headerCrc_compactedFields :
    (compactedFields baseOffset nowMs).headerCrc = 0 := rfl

theorem computeHeaderCrc_compactedFields_ne :
    (compactedFields baseOffset 0).computeHeaderCrc ≠ (compactedFields baseOffset 1).computeHeaderCrc := by
  have zero : encodeInt 8 (0 : Int64).toInt = 0 :: List.replicate 7 0 := by decide
  have one : encodeInt 8 (1 : Int64).toInt = 1 :: List.replicate 7 0 := by decide
  have different := @crc32c_ne_of_byte_ne
    (encodeInt 8 (decodeInt 8 (encodeInt 8 baseOffset)) ++ encode 8 (0 : UInt64).toNat)
    (List.replicate 7 0 ++ ([0] ++ ([1] ++ List.replicate 22 0))) 0 1 (by decide)
  unfold SegmentHeader.computeHeaderCrc SegmentHeader.covered compactedFields
  dsimp only
  rw [zero, one]
  rwa [append_assoc, append_assoc] at different

def payload (rec : Record) : Bytes × Bytes × List RecordHeader × Int64 × Int :=
  (rec.key, rec.value, rec.headers, rec.timestamp, rec.offset)

/-- A segment over the file can be opened, and a read from its base yields these records. -/
def ReadsBack (file : Bytes) (records : List Record) : Prop :=
  ∃ (config : SegmentConfig) (indexFile : Option (List SparseIndexEntry)) (created now : Int64)
    (segment : Segment) (maxBytes : Int) (result : Segment.SegmentReadResult),
    (Segment.new config created (some file) indexFile).open now = .ok segment ∧
      segment.read segment.header.baseOffset maxBytes = .ok result ∧
      (result.batches.flatMap RecordBatch.records).map payload = records.map payload

/-- Every swap of the batches that succeeds leaves a segment with their records. -/
def WritesSegment (batches : List RecordBatch) : Prop :=
  ∀ (target suffix : Bytes) (nowMs : Int64) (clock : Nat → Int) (fails : Nat → Bool)
    (directory after : Directory), writeAndSwap batches target suffix nowMs clock fails directory = (true, after) →
    ∃ file, after target = some file ∧ ReadsBack file.content (batches.flatMap RecordBatch.records)

theorem computeHeaderCrc_of_readsBack {header : SegmentHeader} {rest : Bytes} {records : List Record}
    (fits : FitsInt 8 header.baseOffset) (reads : ReadsBack (header.writeHeader ++ rest) records) :
    header.computeHeaderCrc = header.headerCrc := by
  obtain ⟨config, indexFile, created, now, segment, maxBytes, result, success, -, -⟩ := reads
  by_contra different
  have failure : ∃ error, readHeader (header.writeHeader ++ rest) = .error error := by
    rw [readHeader_written fits rest]
    split
    next => exact ⟨_, rfl⟩
    next => exact ⟨_, rfl⟩
  obtain ⟨error, failure⟩ := failure
  unfold Segment.open Segment.prepareFile Segment.new at success
  dsimp only at success
  rw [failure] at success
  cases success

theorem crc_of_readsBack {nowMs : Int64} {records : List Record}
    (reads : ReadsBack (compactedFile batches nowMs) records) :
    (compactedFields ((batches.head?.map RecordBatch.baseOffset).getD kInvalidOffset) nowMs).computeHeaderCrc = 0 := by
  obtain ⟨rest, content⟩ := compactedFile_eq batches nowMs
  rw [content] at reads
  exact (computeHeaderCrc_of_readsBack (fitsInt_compactedFields _ nowMs) reads).trans
    (headerCrc_compactedFields _ nowMs)

theorem exists_unreadable (batches : List RecordBatch) :
    ∃ nowMs : Int64, ∀ records, ¬ReadsBack (compactedFile batches nowMs) records := by
  by_contra readable
  push Not at readable
  obtain ⟨_, first⟩ := readable 0
  obtain ⟨_, second⟩ := readable 1
  exact computeHeaderCrc_compactedFields_ne _ ((crc_of_readsBack first).trans (crc_of_readsBack second).symm)

theorem not_writesSegment (nonempty : batches ≠ []) : ¬WritesSegment batches := by
  intro writes
  obtain ⟨nowMs, unreadable⟩ := exists_unreadable batches
  obtain ⟨after, succeeds⟩ := writeAndSwap_succeeds batches [] [] nowMs (fun _ => 0) (fun _ => none)
  obtain ⟨file, there, reads⟩ := writes [] [] nowMs _ _ _ after succeeds
  obtain ⟨time, swapped⟩ := writeAndSwap_target nonempty succeeds
  rw [swapped] at there
  cases there
  exact unreadable _ reads

/-- No batches are written as a segment: what a swap of them leaves can be opened at most in the
milliseconds in which the checksum of the header is the zero that is written for it. -/
theorem compacted_file_not_segment {batches : List RecordBatch} (nonempty : batches ≠ []) :
    ¬WritesSegment batches ∧
      ∀ (target suffix : Bytes) (nowMs : Int64) (clock : Nat → Int) (fails : Nat → Bool)
        (directory after : Directory), writeAndSwap batches target suffix nowMs clock fails directory = (true, after) →
        ∃ file, after target = some file ∧
          (ReadsBack file.content (batches.flatMap RecordBatch.records) →
            (compactedFields ((batches.head?.map RecordBatch.baseOffset).getD kInvalidOffset) nowMs).computeHeaderCrc = 0) := by
  refine ⟨not_writesSegment nonempty, ?_⟩
  intro target suffix nowMs clock fails directory after succeeds
  obtain ⟨time, swapped⟩ := writeAndSwap_target nonempty succeeds
  exact ⟨_, swapped, crc_of_readsBack⟩

def keyBatch : RecordBatch := { baseOffset := 0, records := [{ key := [97], offset := 0 }] }

theorem compacted_file_not_segment_keyBatch : [keyBatch] ≠ [] ∧ ¬WritesSegment [keyBatch] := by
  have nonempty : [keyBatch] ≠ [] := cons_ne_nil _ _
  exact ⟨nonempty, (compacted_file_not_segment nonempty).1⟩

theorem computeHeaderCrc_keyBatch_ne : (compactedFields 0 1700000000000).computeHeaderCrc ≠ 0 := by
  have covered : (compactedFields 0 1700000000000).covered =
      (List.replicate 16 0 ++ encodeInt 8 1700000000000) ++ ([0, 1] ++ List.replicate 22 0) := by decide +kernel
  unfold SegmentHeader.computeHeaderCrc
  rw [covered, crc32c_eq_register, crc32cRegister_append]
  decide +kernel

theorem not_writesSegment_keyBatch : ¬∀ batches : List RecordBatch, batches ≠ [] → WritesSegment batches := by
  intro claim
  have nonempty : [keyBatch] ≠ [] := cons_ne_nil _ _
  obtain ⟨after, succeeds⟩ :=
    writeAndSwap_succeeds [keyBatch] [108, 111, 103] [49] 1700000000000 (fun _ => 0) (fun _ => none)
  obtain ⟨file, there, reads⟩ := claim [keyBatch] nonempty _ _ _ _ _ _ after succeeds
  obtain ⟨time, swapped⟩ := writeAndSwap_target nonempty succeeds
  rw [swapped] at there
  cases there
  have base : ([keyBatch].head?.map RecordBatch.baseOffset).getD kInvalidOffset = 0 := rfl
  have crc := crc_of_readsBack reads
  rw [base] at crc
  exact computeHeaderCrc_keyBatch_ne crc

end CompactionExecutor

end TorrentMq.Storage
