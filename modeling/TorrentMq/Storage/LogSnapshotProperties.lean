import TorrentMq.Storage.LogManagerRead
import TorrentMq.Storage.LogSnapshot

/-! What is left of a log after it installs its own snapshot. -/

set_option autoImplicit false

namespace TorrentMq.Storage

open Bytes List

theorem segmentFilePath_inj {dataDir : Bytes} {leftId rightId : Nat} {leftBase rightBase : Int}
    (same : segmentFilePath dataDir leftId leftBase = segmentFilePath dataDir rightId rightBase) :
    leftId = rightId ∧ leftBase = rightBase := by
  have names := joinPath_right_injective dataDir same
  have noSeparator : ∀ value : Nat, (95 : UInt8) ∉ decimal value := by
    intro value member
    exact absurd (mem_decimal member).2 (by decide)
  have noSeparatorBehind : ∀ value : Int, (95 : UInt8) ∉ decimalInt value ++ [46, 108, 111, 103] := by
    intro value member
    cases mem_append.mp member with
    | inl digits =>
      cases mem_decimalInt digits with
      | inl minus => exact absurd minus (by decide)
      | inr digit => exact absurd digit.2 (by decide)
    | inr suffix => exact absurd suffix (by decide)
  obtain ⟨ids, -, bases⟩ := (append_cons_inj_of_notMem (noSeparator _) (noSeparatorBehind _)).mp names
  exact ⟨decimal_injective ids, decimalInt_injective (append_cancel_right bases)⟩

namespace LogManager

/-- The files that an installation may meet hold no records. -/
def Emptied (partition : LogPartition) (files : SegmentFiles) : Prop :=
  ∀ file ∈ files, file.2.batches = [] ∧ file.1 = partition.segmentPath file.2

variable {partition : LogPartition} {files : SegmentFiles}

theorem openAt_of_emptied (emptied : Emptied partition files)
    (segmentId : Nat) (baseOffset : Int) (readOnly : Bool) (now : Int64) :
    ∃ segment rest, openAt files (segmentFilePath partition.dataDirectory segmentId baseOffset) segmentId baseOffset
        readOnly now = .ok (segment, rest) ∧ Emptied partition rest ∧ segment.batches = [] ∧
      segment.baseOffset = baseOffset := by
  unfold openAt
  cases found : files.lookup (segmentFilePath partition.dataDirectory segmentId baseOffset) with
  | none =>
    refine ⟨_, _, rfl, ?_, rfl, rfl⟩
    intro file member
    cases member with
    | head => exact ⟨rfl, rfl⟩
    | tail _ member => exact emptied file member
  | some stored =>
    obtain ⟨before, after, split, -⟩ := lookup_eq_some_iff.mp found
    obtain ⟨empty, named⟩ := emptied (_, stored) (by
      rw [split]
      exact mem_append_right _ mem_cons_self)
    obtain ⟨sameId, sameBase⟩ := segmentFilePath_inj named
    dsimp only
    rw [if_neg fun other => other.2 sameId.symm, if_neg fun other => other.2.2 sameBase.symm]
    exact ⟨_, _, rfl, emptied, empty, sameBase.symm⟩

theorem recreateSegments_of_emptied {infos : List SegmentInfo} (emptied : Emptied partition files) (now : Int64)
    (named : ∀ info ∈ infos, info.filePath = segmentFilePath partition.dataDirectory info.segmentId info.baseOffset) :
    ∃ segments rest, recreateSegments now infos files = .ok (segments, rest) ∧ Emptied partition rest ∧
      (∀ segment ∈ segments, segment.batches = []) ∧
      segments.map (·.baseOffset) = infos.map (·.baseOffset) := by
  induction infos generalizing files with
  | nil => exact ⟨[], files, rfl, emptied, fun _ member => (not_mem_nil member).elim, rfl⟩
  | cons info infos ih =>
    obtain ⟨segment, opened, succeeds, stillEmptied, empty, base⟩ :=
      openAt_of_emptied emptied info.segmentId info.baseOffset info.isSealed now
    obtain ⟨segments, rest, others, restEmptied, allEmpty, bases⟩ :=
      ih stillEmptied fun other member => named other (mem_cons_of_mem _ member)
    refine ⟨segment :: segments, rest, ?_, restEmptied, ?_, ?_⟩
    · rw [recreateSegments, named info mem_cons_self, succeeds]
      dsimp only
      rw [others]
    · intro other member
      cases member with
      | head => exact empty
      | tail _ member => exact allEmpty other member
    · rw [map_cons, map_cons, base, bases]

theorem nextOffset_of_empty {segment : IdealSegment} (empty : segment.batches = []) :
    segment.nextOffset = segment.baseOffset := by
  rw [IdealSegment.nextOffset, empty]
  exact Int.add_zero _

theorem continueBehind_of_emptied {segments : List IdealSegment} (emptied : Emptied partition files)
    (empty : ∀ segment ∈ segments, segment.batches = []) (nextSegmentId : Nat) (now : Int64) :
    ∃ continued next rest, continueBehind partition segments files nextSegmentId now = (continued, next, rest) ∧
      (∀ segment ∈ continued, segment.batches = []) ∧
      continued.getLast?.map (·.baseOffset) = segments.getLast?.map (·.baseOffset) := by
  unfold continueBehind
  cases final : segments.getLast? with
  | none => exact ⟨segments, _, _, rfl, empty, by rw [final]⟩
  | some last =>
    have lastEmpty := empty last (mem_of_getLast? final)
    dsimp only
    split
    · obtain ⟨created, opened, succeeds, -, createdEmpty, base⟩ :=
        openAt_of_emptied emptied nextSegmentId last.nextOffset false now
      rw [succeeds]
      refine ⟨_, _, _, rfl, ?_, ?_⟩
      · intro segment member
        cases mem_append.mp member with
        | inl early => exact empty segment early
        | inr late =>
          rw [mem_singleton.mp late]
          exact createdEmpty
      · rw [getLast?_concat, Option.map_some, Option.map_some, base, nextOffset_of_empty lastEmpty]
    · exact ⟨segments, _, _, rfl, empty, by rw [final]⟩

theorem resetState_files (manager : LogManager) (partition : LogPartition) :
    manager.resetState partition (manager.files partition) = [] := by
  rw [resetState, filter_eq_nil_iff]
  intro file member kept
  obtain ⟨segment, inside, rfl⟩ := mem_map.mp member
  exact of_decide_eq_true (all_eq_true.mp kept segment inside) rfl

theorem computedCrc_crc (snapshot : SnapshotMetadata) (crc : UInt32) :
    ({ snapshot with crc } : SnapshotMetadata).computedCrc = snapshot.computedCrc := by
  unfold SnapshotMetadata.computedCrc SnapshotMetadata.crcFields
  rfl

structure Recorded (manager : LogManager) (partition : LogPartition) (clock : Nat → Int64)
    (snapshot : SnapshotMetadata) : Prop where
  opened : manager.isOpen = true
  intact : snapshot.computedCrc = snapshot.crc
  segments : snapshot.segments = manager.segments.mapIdx fun i segment => partition.info (clock (i + 1)) segment
  highWatermark : snapshot.highWatermark = manager.highWatermark
  logStartOffset : snapshot.logStartOffset = manager.logStartOffset
  lastStableOffset : snapshot.lastStableOffset = manager.lastStableOffset

theorem createSnapshot_recorded {manager : LogManager} {partition : LogPartition} {snapshotIndex term : Int}
    {clock : Nat → Int64} {snapshot : SnapshotMetadata}
    (created : manager.createSnapshot partition snapshotIndex term clock = .ok snapshot) :
    Recorded manager partition clock snapshot := by
  unfold createSnapshot at created
  split at created
  · cases created
  next isOpen =>
    cases created
    refine ⟨by simpa using isOpen, ?_, rfl, rfl, rfl, rfl⟩
    dsimp only
    exact computedCrc_crc (manager.snapshotFields partition snapshotIndex term clock) _

/-- The fields that a snapshot restores, over segments without records. -/
structure Hollowed (manager installed : LogManager) : Prop where
  opened : installed.isOpen = true
  logStartOffset : installed.logStartOffset = manager.logStartOffset
  highWatermark : installed.highWatermark = manager.highWatermark
  lastStableOffset : installed.lastStableOffset = manager.lastStableOffset
  empty : ∀ segment ∈ installed.segments, segment.batches = []
  last : installed.segments.getLast?.map (·.baseOffset) = manager.segments.getLast?.map (·.baseOffset)

variable {manager : LogManager}

theorem Recorded.installSnapshot {clock : Nat → Int64}
    {snapshot : SnapshotMetadata} (recorded : Recorded manager partition clock snapshot) (now : Int64) :
    ∃ installed rest, manager.installSnapshot partition (manager.files partition) snapshot now =
        .ok (installed, rest) ∧ Hollowed manager installed := by
  have bases : snapshot.segments.map (·.baseOffset) = manager.segments.map (·.baseOffset) := by
    rw [recorded.segments, mapIdx_eq_zipIdx_map, map_map]
    conv_rhs => rw [← zipIdx_map_fst 0 manager.segments, map_map]
    rfl
  have named : ∀ info ∈ snapshot.segments,
      info.filePath = segmentFilePath partition.dataDirectory info.segmentId info.baseOffset := by
    intro info member
    rw [recorded.segments] at member
    obtain ⟨i, inside, rfl⟩ := mem_mapIdx.mp member
    rfl
  obtain ⟨segments, files, recreated, emptied, empty, kept⟩ :=
    recreateSegments_of_emptied (fun _ member => (not_mem_nil member).elim : Emptied partition []) now named
  obtain ⟨continued, next, rest, behind, stillEmpty, last⟩ := continueBehind_of_emptied emptied empty
    (snapshot.segments.foldl (fun found info => max found info.segmentId) 0 + 1) now
  unfold LogManager.installSnapshot
  rw [recorded.intact, if_neg (fun differs => differs rfl), resetState_files, recreated]
  dsimp only
  rw [behind]
  refine ⟨_, _, rfl, rfl, recorded.logStartOffset, recorded.highWatermark, recorded.lastStableOffset, stillEmpty, ?_⟩
  dsimp only
  rw [last, ← getLast?_map, kept, bases, getLast?_map]

def Readable (manager : LogManager) (record : Record) : Prop :=
  ∃ startOffset maxBytes endOffset isolation result,
    manager.read startOffset maxBytes endOffset isolation = .ok result ∧ record ∈ result.records

theorem findSegmentIndex_eq_some {offset : Int} {i : Nat} (found : manager.findSegmentIndex offset = some i) :
    ∃ segment, manager.segments[i]? = some segment ∧ holds segment offset = true := by
  unfold findSegmentIndex at found
  dsimp only at found
  split at found
  next hit =>
    cases found
    cases position : manager.segments[lowerBound manager.segments offset]? with
    | none =>
      rw [position] at hit
      cases hit
    | some segment =>
      rw [position] at hit
      exact ⟨segment, rfl, hit⟩
  next =>
    obtain ⟨inside, held, -⟩ := findIdx?_eq_some_iff_getElem.mp found
    exact ⟨_, getElem?_eq_getElem inside, held⟩

theorem exists_findSegmentIndex {segment : IdealSegment} {offset : Int}
    (member : segment ∈ manager.segments) (held : holds segment offset = true) :
    ∃ i, manager.findSegmentIndex offset = some i := by
  unfold findSegmentIndex
  dsimp only
  split
  · exact ⟨_, rfl⟩
  · exact Option.isSome_iff_exists.mp (by
      rw [findIdx?_isSome]
      exact any_eq_true.mpr ⟨segment, member, held⟩)

def Held (manager : LogManager) : Prop :=
  ∃ segment ∈ manager.segments, ∃ offset, manager.logStartOffset ≤ offset ∧ offset < manager.logEndOffset ∧
    holds segment offset = true

theorem Readable.held {record : Record} (readable : manager.Readable record) : manager.Held := by
  obtain ⟨startOffset, maxBytes, endOffset, isolation, result, succeeds, member⟩ := readable
  unfold LogManager.read at succeeds
  dsimp only at succeeds
  split at succeeds
  · cases succeeds
  split at succeeds
  · cases succeeds
  next inRange =>
    split at succeeds
    · cases succeeds
      cases member
    next inside =>
      split at succeeds
      · cases succeeds
      next i found =>
        obtain ⟨segment, position, held⟩ := findSegmentIndex_eq_some found
        exact ⟨segment, mem_of_getElem? position, startOffset, by omega, by omega, held⟩

theorem Held.exists_readable (held : manager.Held) (opened : manager.isOpen = true) :
    ∃ record, manager.Readable record := by
  obtain ⟨holder, member, offset, lower, upper, holding⟩ := held
  obtain ⟨i, found⟩ := exists_findSegmentIndex member holding
  obtain ⟨segment, position, inside⟩ := findSegmentIndex_eq_some found
  obtain ⟨low, high⟩ := holds_iff.mp inside
  obtain ⟨index, same⟩ := List.getElem?_eq_some_iff.mp position
  have rest : manager.segments.drop i = segment :: manager.segments.drop (i + 1) := by
    rw [← same, ← drop_eq_getElem_cons index]
  have start : ∃ placed ∈ gather manager.logEndOffset (segment :: manager.segments.drop (i + 1)) (some offset),
      placed.1 ≤ offset ∧ offset < placed.endOffset := gather_start low high upper
  obtain ⟨placed, met, first, last⟩ := start
  obtain ⟨record, inBatch, -⟩ := exists_placed_record first last
  refine ⟨record, offset, (((gather manager.logEndOffset (segment :: manager.segments.drop (i + 1))
    (some offset)).map Placed.size).sum : Int) + 1, none, .readUncommitted, ?_⟩
  unfold LogManager.read
  dsimp only
  rw [opened, if_neg (by decide), if_neg (by omega), if_neg (by omega), found]
  dsimp only
  refine ⟨_, rfl, ?_⟩
  rw [FetchResult.records, mergeBatches_records, rest]
  simp only [reduceCtorEq, false_and, Option.any_none, Bool.false_eq_true, if_false]
  rw [readSegments_of_sum (by omega)]
  exact mem_flatMap.mpr ⟨placed.delivered, mem_map_of_mem met, inBatch⟩

/-- Installing the snapshot leaves the ends of the log, its watermarks and its readable records as
they are. -/
def RoundTrips (manager : LogManager) (partition : LogPartition) (snapshot : SnapshotMetadata) (now : Int64) : Prop :=
  ∃ installed files,
    manager.installSnapshot partition (manager.files partition) snapshot now = .ok (installed, files) ∧
    installed.logStartOffset = manager.logStartOffset ∧ installed.logEndOffset = manager.logEndOffset ∧
    installed.highWatermark = manager.highWatermark ∧ installed.lastStableOffset = manager.lastStableOffset ∧
    ∀ record, installed.Readable record ↔ manager.Readable record

/-- The last segment has no records, and none is between the ends of the log. -/
def Vacant (manager : LogManager) : Prop :=
  (∀ last ∈ manager.segments.getLast?, last.nextOffset = last.baseOffset) ∧
    ∀ segment ∈ manager.segments, ∀ offset, manager.logStartOffset ≤ offset → offset < manager.logEndOffset →
      ¬(segment.baseOffset ≤ offset ∧ offset < segment.nextOffset)

theorem not_held_iff : ¬manager.Held ↔ ∀ segment ∈ manager.segments, ∀ offset, manager.logStartOffset ≤ offset →
      offset < manager.logEndOffset → ¬(segment.baseOffset ≤ offset ∧ offset < segment.nextOffset) := by
  constructor
  · intro none segment member offset lower upper inside
    exact none ⟨segment, member, offset, lower, upper, holds_iff.mpr inside⟩
  · rintro none ⟨segment, member, offset, lower, upper, held⟩
    exact none segment member offset lower upper (holds_iff.mp held)

theorem Hollowed.not_held {manager installed : LogManager} (hollowed : Hollowed manager installed) :
    ¬installed.Held := by
  rintro ⟨segment, member, offset, -, -, held⟩
  have bounds := holds_iff.mp held
  rw [nextOffset_of_empty (hollowed.empty segment member)] at bounds
  omega

theorem Hollowed.logEndOffset_eq_iff {manager installed : LogManager} (hollowed : Hollowed manager installed) :
    installed.logEndOffset = manager.logEndOffset ↔
      ∀ last ∈ manager.segments.getLast?, last.nextOffset = last.baseOffset := by
  have same := hollowed.last
  unfold logEndOffset
  cases final : manager.segments.getLast? with
  | none =>
    rw [final, Option.map_none, Option.map_eq_none_iff] at same
    rw [same]
    exact ⟨fun _ _ none => (by cases none), fun _ => hollowed.logStartOffset⟩
  | some last =>
    rw [final, Option.map_some, Option.map_eq_some_iff] at same
    obtain ⟨installedLast, installedFinal, base⟩ := same
    have empty := nextOffset_of_empty (hollowed.empty installedLast (mem_of_getLast? installedFinal))
    rw [installedFinal]
    dsimp only
    rw [empty, base]
    constructor
    · intro ends other same
      cases same
      exact ends.symm
    · intro ends
      exact (ends last rfl).symm

section Recorded

variable {manager : LogManager} {partition : LogPartition} {clock : Nat → Int64} {snapshot : SnapshotMetadata}
  {now : Int64}

theorem RoundTrips.vacant (trips : manager.RoundTrips partition snapshot now)
    (recorded : Recorded manager partition clock snapshot) : manager.Vacant := by
  obtain ⟨installed, files, succeeds, hollowed⟩ := recorded.installSnapshot now
  obtain ⟨other, otherFiles, installs, -, ends, -, -, readable⟩ := trips
  cases succeeds.symm.trans installs
  refine ⟨hollowed.logEndOffset_eq_iff.mp ends, not_held_iff.mp fun held => ?_⟩
  obtain ⟨record, readableBefore⟩ := held.exists_readable recorded.opened
  exact hollowed.not_held ((readable record).mpr readableBefore).held

theorem Vacant.roundTrips (vacant : manager.Vacant) (recorded : Recorded manager partition clock snapshot) :
    manager.RoundTrips partition snapshot now := by
  obtain ⟨installed, files, succeeds, hollowed⟩ := recorded.installSnapshot now
  refine ⟨installed, files, succeeds, hollowed.logStartOffset, hollowed.logEndOffset_eq_iff.mpr vacant.1,
    hollowed.highWatermark, hollowed.lastStableOffset, fun record => ⟨?_, ?_⟩⟩
  · exact fun readable => (hollowed.not_held readable.held).elim
  · exact fun readable => (not_held_iff.mpr vacant.2 readable.held).elim

end Recorded

/-- A log survives its own snapshot exactly when there is nothing in it. -/
theorem roundTrips_iff_vacant {manager : LogManager} {partition : LogPartition} {snapshotIndex term : Int}
    {clock : Nat → Int64} {snapshot : SnapshotMetadata}
    (created : manager.createSnapshot partition snapshotIndex term clock = .ok snapshot) (now : Int64) :
    manager.RoundTrips partition snapshot now ↔ manager.Vacant :=
  ⟨fun trips => trips.vacant (createSnapshot_recorded created),
    fun vacant => vacant.roundTrips (createSnapshot_recorded created)⟩

theorem roundTrips_opened :
    let manager := (LogManager.new {}).open [] 0
    ∃ snapshot, manager.createSnapshot {} 0 0 (fun _ => 0) = .ok snapshot ∧ manager.RoundTrips {} snapshot 0 := by
  refine ⟨_, rfl, (roundTrips_iff_vacant rfl 0).mpr ⟨?_, ?_⟩⟩
  · intro last final
    cases final
    rfl
  · intro segment member offset lower upper inside
    cases mem_singleton.mp member
    exact absurd upper (not_lt.mpr lower)

/-- The files of the segments are deleted before they would be opened again. -/
theorem not_roundTrips_keyedBatch : ¬∀ (manager : LogManager) (partition : LogPartition) (snapshotIndex term : Int)
    (clock : Nat → Int64) (snapshot : SnapshotMetadata) (now : Int64),
    manager.createSnapshot partition snapshotIndex term clock = .ok snapshot →
      manager.RoundTrips partition snapshot now := by
  intro claim
  have trips := claim (((LogManager.new {}).open [] 0).append keyedBatch kInvalidOffset 0).1 {} 0 0 (fun _ => 0) _ 0
    rfl
  have vacant := trips.vacant (@createSnapshot_recorded _ _ 0 0 (fun _ => 0) _ rfl)
  exact absurd (vacant.1 _ rfl) (by decide +kernel)

end LogManager

end TorrentMq.Storage
