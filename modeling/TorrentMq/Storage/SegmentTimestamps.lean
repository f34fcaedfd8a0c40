import TorrentMq.Storage.SegmentIndexProperties
import TorrentMq.Storage.SegmentObject

/-!
# Lookups by timestamp

What the offset that is found for a timestamp says of the records below it,
where the index is searched as if it were sorted by time.
-/

set_option autoImplicit false

namespace TorrentMq.Storage

open List Segment

namespace Segment

def ThinsEvenly : List SparseIndexEntry → Prop
  | [] => True
  | [_] => True
  | entry :: skipped :: entries => skipped.timestamp ≤ entry.timestamp ∧ ThinsEvenly entries

instance EachUpdate.decide (met : Segment → Int → Nat → Prop)
    [∀ segment baseOffset position, Decidable (met segment baseOffset position)] (timestamp : Int64) :
    (segment : Segment) → (position : Nat) → (placed : List Placed) →
      Decidable (EachUpdate met timestamp segment position placed)
  | _, _, [] => .isTrue trivial
  | segment, position, next :: rest =>
    have := EachUpdate.decide met timestamp (segment.updateSparseIndex next.1 position timestamp)
      (position + next.block.length) rest
    inferInstanceAs (Decidable (_ ∧ _))

instance ThinsEvenly.decide : (index : List SparseIndexEntry) → Decidable (ThinsEvenly index)
  | [] | [_] => .isTrue trivial
  | entry :: skipped :: entries =>
    have := ThinsEvenly.decide entries
    inferInstanceAs (Decidable (skipped.timestamp ≤ entry.timestamp ∧ ThinsEvenly entries))

/-- An update keeps the index sorted by time: an entry that is added is not earlier than the last one,
and thinning loses no timestamp. -/
structure InTime (timestamp : Int64) (segment : Segment) (baseOffset : Int) (filePosition : Nat) : Prop where
  once : segment.IndexesOnce baseOffset filePosition
  later : shouldAdd segment.config.indexIntervalBytes segment.sparseIndex baseOffset filePosition = true →
    ∀ last ∈ segment.sparseIndex.getLast?, last.timestamp ≤ timestamp
  even : shouldAdd segment.config.indexIntervalBytes segment.sparseIndex baseOffset filePosition = true →
    kMaxInMemoryIndexEntries < segment.sparseIndex.length + 1 →
      ThinsEvenly (segment.sparseIndex ++ [⟨baseOffset, filePosition, timestamp⟩])

instance (timestamp : Int64) (segment : Segment) (baseOffset : Int) (filePosition : Nat) :
    Decidable (InTime timestamp segment baseOffset filePosition) :=
  decidable_of_iff (segment.IndexesOnce baseOffset filePosition ∧
      (shouldAdd segment.config.indexIntervalBytes segment.sparseIndex baseOffset filePosition = true →
        ∀ last ∈ segment.sparseIndex.getLast?, last.timestamp ≤ timestamp) ∧
      (shouldAdd segment.config.indexIntervalBytes segment.sparseIndex baseOffset filePosition = true →
        kMaxInMemoryIndexEntries < segment.sparseIndex.length + 1 →
          ThinsEvenly (segment.sparseIndex ++ [⟨baseOffset, filePosition, timestamp⟩])))
    ⟨fun met => ⟨met.1, met.2.1, met.2.2⟩, fun met => ⟨met.once, met.later, met.even⟩⟩

variable {timestamp : Int64}

variable {segment : Segment} {position : Nat}

theorem InTime.congr {other : Segment} {baseOffset : Int}
    (config : other.config = segment.config) (index : other.sparseIndex = segment.sparseIndex)
    (inTime : InTime timestamp segment baseOffset position) : InTime timestamp other baseOffset position := by
  refine ⟨inTime.once.congr config index, ?_, ?_⟩
  · rw [config, index]
    exact inTime.later
  · rw [config, index]
    exact inTime.even

/-- An entry stands for a record: it is not behind its batch, and not earlier than it. -/
def Covers (index : List SparseIndexEntry) (baseOffset : Int) (timestamp : Int64) : Prop :=
  ∃ entry ∈ index, entry.offset ≤ baseOffset ∧ timestamp ≤ entry.timestamp

variable {index : List SparseIndexEntry}

theorem covers_downsample (sorted : Sorted index) (even : ThinsEvenly index)
    {baseOffset : Int} (covers : Covers index baseOffset timestamp) :
    Covers (downsample index) baseOffset timestamp := by
  induction index using downsample.induct with
  | case1 => exact covers
  | case2 entry => exact covers
  | case3 entry skipped entries ih =>
    obtain ⟨notLater, rest⟩ := even
    obtain ⟨found, member, below, reaches⟩ := covers
    rw [downsample]
    obtain ⟨first, later⟩ := pairwise_cons.mp sorted
    cases member with
    | head => exact ⟨entry, mem_cons_self, below, reaches⟩
    | tail _ member =>
      cases member with
      | head =>
        have less := first skipped mem_cons_self
        exact ⟨entry, mem_cons_self, by omega, Int64.le_trans reaches notLater⟩
      | tail _ member =>
        obtain ⟨kept, inside, still⟩ := ih (pairwise_cons.mp later).2 rest ⟨found, member, below, reaches⟩
        exact ⟨kept, mem_cons_of_mem _ inside, still⟩

theorem raiseTimestamp_concat (timestamp : Int64) (front : List SparseIndexEntry) (last : SparseIndexEntry) :
    raiseTimestamp timestamp (front ++ [last]) =
      front ++ [if last.timestamp < timestamp then { last with timestamp } else last] := by
  induction front with
  | nil => rfl
  | cons entry front ih =>
    cases front with
    | nil => rfl
    | cons next front => rw [cons_append, cons_append, raiseTimestamp, ← cons_append, ih]; rfl

/-- An index is sorted by time, and stands for every record of the batches that it is over. -/
structure Timed (placed : List Placed) (index : List SparseIndexEntry) : Prop where
  sorted : Sorted index
  within : ∀ entry ∈ index, ∃ stored ∈ placed, stored.1 = entry.offset
  ordered : index.Pairwise fun earlier later => earlier.timestamp ≤ later.timestamp
  covered : ∀ stored ∈ placed, ∀ record ∈ stored.2.records, Covers index stored.1 record.timestamp

theorem timed_nil : Timed [] [] :=
  ⟨List.Pairwise.nil, fun _ member => (not_mem_nil member).elim, List.Pairwise.nil,
    fun _ member => (not_mem_nil member).elim⟩

variable {placed : List Placed}

variable {next : Placed}

theorem Timed.added (timed : Timed placed index) {entry : SparseIndexEntry}
    (offset : entry.offset = next.1) (above : ∀ other ∈ index, other.offset < next.1)
    (later : ∀ last ∈ index.getLast?, last.timestamp ≤ entry.timestamp)
    (records : ∀ record ∈ next.2.records, record.timestamp ≤ entry.timestamp) :
    Timed (placed ++ [next]) (index ++ [entry]) where
  sorted := by
    refine pairwise_append.mpr ⟨timed.sorted, pairwise_singleton _ _, ?_⟩
    intro other member added new
    rw [mem_singleton.mp new, offset]
    exact above other member
  within := by
    intro other member
    cases mem_append.mp member with
    | inl old =>
      obtain ⟨stored, inside, same⟩ := timed.within other old
      exact ⟨stored, mem_append_left _ inside, same⟩
    | inr new =>
      rw [mem_singleton.mp new]
      exact ⟨next, mem_append_right _ mem_cons_self, offset.symm⟩
  ordered := by
    refine pairwise_append.mpr ⟨timed.ordered, pairwise_singleton _ _, ?_⟩
    intro other member added new
    rw [mem_singleton.mp new]
    rcases eq_nil_or_concat index with none | ⟨front, last, concat⟩
    · rw [none] at member
      cases member
    · have ordered := timed.ordered
      rw [concat_eq_append] at concat
      rw [concat] at member ordered later
      have upper := later last (by rw [getLast?_concat]; rfl)
      cases mem_append.mp member with
      | inl early =>
        exact Int64.le_trans ((pairwise_append.mp ordered).2.2 other early last mem_cons_self) upper
      | inr final =>
        rw [mem_singleton.mp final]
        exact upper
  covered := by
    intro stored member record inside
    cases mem_append.mp member with
    | inl old =>
      obtain ⟨found, among, below, reaches⟩ := timed.covered stored old record inside
      exact ⟨found, mem_append_left _ among, below, reaches⟩
    | inr new =>
      rw [mem_singleton.mp new] at inside ⊢
      exact ⟨entry, mem_append_right _ mem_cons_self, offset.le, records record inside⟩

theorem Timed.downsample (timed : Timed placed index)
    (even : ThinsEvenly index) : Timed placed (downsample index) where
  sorted := timed.sorted.sublist (downsample_sublist index)
  within := fun entry member => timed.within entry ((downsample_sublist index).subset member)
  ordered := timed.ordered.sublist (downsample_sublist index)
  covered := fun stored member record inside =>
    covers_downsample timed.sorted even (timed.covered stored member record inside)

theorem Timed.raised {front : List SparseIndexEntry} {last : SparseIndexEntry}
    (timed : Timed placed (front ++ [last]))
    (reached : last.offset ≤ next.1) (records : ∀ record ∈ next.2.records, record.timestamp ≤ timestamp) :
    Timed (placed ++ [next]) (raiseTimestamp timestamp (front ++ [last])) := by
  obtain ⟨raised, same, notLess, above⟩ : ∃ raised : SparseIndexEntry,
      raised = (if last.timestamp < timestamp then { last with timestamp } else last) ∧
      last.timestamp ≤ raised.timestamp ∧ raised.offset = last.offset ∧ timestamp ≤ raised.timestamp := by
    refine ⟨_, rfl, ?_⟩
    split
    next less => exact ⟨Int64.le_of_lt less, rfl, Int64.le_refl _⟩
    next notLess => exact ⟨Int64.le_refl _, rfl, Int64.not_lt.mp notLess⟩
  rw [raiseTimestamp_concat, ← same]
  obtain ⟨sortedFront, -, below⟩ := pairwise_append.mp timed.sorted
  obtain ⟨orderedFront, -, before⟩ := pairwise_append.mp timed.ordered
  obtain ⟨offset, reaches⟩ := above
  constructor
  · refine pairwise_append.mpr ⟨sortedFront, pairwise_singleton _ _, ?_⟩
    intro other member entry final
    rw [mem_singleton.mp final, offset]
    exact below other member last mem_cons_self
  · intro entry member
    have old : ∃ other ∈ front ++ [last], other.offset = entry.offset := by
      cases mem_append.mp member with
      | inl early => exact ⟨entry, mem_append_left _ early, rfl⟩
      | inr final =>
        refine ⟨last, mem_append_right _ mem_cons_self, ?_⟩
        rw [mem_singleton.mp final, offset]
    obtain ⟨other, inside, sameOffset⟩ := old
    obtain ⟨stored, placedIn, base⟩ := timed.within other inside
    exact ⟨stored, mem_append_left _ placedIn, base.trans sameOffset⟩
  · refine pairwise_append.mpr ⟨orderedFront, pairwise_singleton _ _, ?_⟩
    intro other member entry final
    rw [mem_singleton.mp final]
    exact Int64.le_trans (before other member last mem_cons_self) notLess
  · intro stored member record inside
    cases mem_append.mp member with
    | inl old =>
      obtain ⟨found, among, upper, covers⟩ := timed.covered stored old record inside
      cases mem_append.mp among with
      | inl early => exact ⟨found, mem_append_left _ early, upper, covers⟩
      | inr final =>
        rw [mem_singleton.mp final] at upper covers
        exact ⟨raised, mem_append_right _ mem_cons_self, offset.le.trans upper,
          Int64.le_trans covers notLess⟩
    | inr new =>
      rw [mem_singleton.mp new] at inside ⊢
      exact ⟨raised, mem_append_right _ mem_cons_self, offset.le.trans reached,
        Int64.le_trans (records record inside) reaches⟩

theorem Timed.update {placed : List Placed} {timestamp : Int64}
    (timed : Timed placed segment.sparseIndex) (reached : ∀ stored ∈ placed, stored.1 ≤ next.1)
    (inTime : InTime timestamp segment next.1 position)
    (records : ∀ record ∈ next.2.records, record.timestamp ≤ timestamp) :
    Timed (placed ++ [next]) (segment.updateSparseIndex next.1 position timestamp).sparseIndex := by
  have upper : ∀ entry ∈ segment.sparseIndex, entry.offset ≤ next.1 := by
    intro entry member
    obtain ⟨stored, inside, same⟩ := timed.within entry member
    rw [← same]
    exact reached stored inside
  unfold updateSparseIndex
  by_cases add : shouldAdd segment.config.indexIntervalBytes segment.sparseIndex next.1 position = true
  · rw [if_pos add]
    have above := inTime.once.above timed.sorted upper add
    have extended : Timed (placed ++ [next]) (segment.sparseIndex ++ [⟨next.1, position, timestamp⟩]) :=
      timed.added rfl above (inTime.later add) records
    dsimp only
    rw [insertEntry_of_above above]
    split
    next full =>
      rw [length_append, length_singleton] at full
      exact extended.downsample (inTime.even add full)
    · exact extended
  · rw [if_neg add]
    dsimp only
    rcases eq_nil_or_concat segment.sparseIndex with none | ⟨front, last, concat⟩
    · rw [none] at add
      exact absurd rfl add
    · rw [concat_eq_append] at concat
      rw [concat] at timed upper ⊢
      exact timed.raised (upper last (mem_append_right _ mem_cons_self)) records

theorem Timed.writePending {old new : List Placed}
    (timed : Timed old segment.sparseIndex) (reached : (old ++ new).Pairwise fun earlier later => earlier.1 ≤ later.1)
    (each : EachUpdate (InTime timestamp) timestamp segment position new)
    (records : ∀ placed ∈ new, ∀ record ∈ placed.2.records, record.timestamp ≤ timestamp) :
    Timed (old ++ new)
      ((new.map pendingWrite).foldl (writePending timestamp) (segment, position)).1.sparseIndex := by
  induction new generalizing old segment position with
  | nil =>
    rw [append_nil]
    exact timed
  | cons next new ih =>
    rw [append_cons] at reached
    obtain ⟨inTime, rest⟩ := each
    have earlier : ∀ stored ∈ old, stored.1 ≤ next.1 := by
      intro stored member
      exact (pairwise_append.mp (pairwise_append.mp reached).1).2.2 stored member next mem_cons_self
    have one := timed.update earlier inTime (records next mem_cons_self)
    obtain ⟨sameConfig, sameIndex⟩ := @updateSparseIndex_congr segment (segment.writeAt position next.block) rfl rfl
      next.1 position timestamp
    rw [map_cons, foldl_cons, writePending_pendingWrite, append_cons]
    refine ih ?_ reached (rest.congr InTime.congr sameConfig sameIndex)
      fun placed member => records placed (mem_cons_of_mem _ member)
    rw [sameIndex]
    exact one

variable {result : SegmentAppendResult}

theorem sparseIndex_append {next : Segment} {batch : RecordBatch}
    (some : batch.records ≠ []) (appended : segment.append batch = .ok (next, result)) :
    result = ⟨segment.nextOffset, segment.fileSize, 1, batch.records.length⟩ ∧
      next.sparseIndex =
        (segment.updateSparseIndex segment.nextOffset segment.fileSize (batchMaxTs batch)).sparseIndex := by
  unfold append at appended
  split at appended
  · cases appended
  · rw [if_neg (by rw [List.isEmpty_iff]; exact some)] at appended
    injection appended with pair
    injection pair with same outcome
    refine ⟨outcome.symm, ?_⟩
    rw [← same]
    generalize moved : ((segment.extendFile batch.serializeBatch.length).writeAt segment.fileSize
      (assignOffset segment.nextOffset batch.serializeBatch)).advance
        (segment.fileSize + batch.serializeBatch.length) (segment.nextOffset + batch.records.length) = current
    have config : current.config = segment.config := by
      rw [← moved, advance, writeAt, extendFile]
    have index : current.sparseIndex = segment.sparseIndex := by
      rw [← moved, advance_sparseIndex, writeAt_sparseIndex, extendFile_sparseIndex]
    exact (updateSparseIndex_congr ((sameStore_raiseMaxTimestamp current _).config.trans config)
      ((sparseIndex_raiseMaxTimestamp current _).trans index) _ _ _).2

theorem sparseIndex_appendBatch {next : Segment} {batches : List RecordBatch}
    (some : batches ≠ []) (appended : segment.appendBatch batches = .ok (next, result)) :
    result.baseOffset = segment.nextOffset ∧ ∃ extended : Segment, extended.config = segment.config ∧
      extended.sparseIndex = segment.sparseIndex ∧
      next.sparseIndex = (((assignOffsets segment.nextOffset batches).map pendingWrite).foldl
        (writePending (pendingMaxTs batches)) (extended, segment.fileSize)).1.sparseIndex := by
  unfold appendBatch at appended
  rw [if_neg (by rw [List.isEmpty_iff]; exact some)] at appended
  split at appended
  · cases appended
  · injection appended with pair
    injection pair with same outcome
    refine ⟨by rw [← outcome], segment.extendFile
      (((assignOffsets segment.nextOffset batches).map pendingWrite).map (·.data.length)).sum, extendFile_config _ _,
      extendFile_sparseIndex _ _, ?_⟩
    rw [← same, sparseIndex_raiseMaxTimestamp, advance_sparseIndex]
    rfl

theorem Timed.find (timed : Timed placed segment.sparseIndex)
    {found : Int} (lookup : segment.findOffsetByTimestamp timestamp = some found)
    {stored : Placed} (member : stored ∈ placed) (below : stored.1 < found) {record : Record}
    (inside : record ∈ stored.2.records) : record.timestamp < timestamp := by
  have partitioned : SortedVector.Partitioned
      (fun entry : SparseIndexEntry => decide (entry.timestamp < timestamp)) segment.sparseIndex := by
    refine timed.ordered.imp ?_
    intro earlier later upper less
    exact decide_eq_true (Int64.lt_of_le_of_lt upper (of_decide_eq_true less))
  obtain ⟨before, after, split, point, early, late⟩ := partitioned.split
  obtain ⟨entry, among, upper, reaches⟩ := timed.covered stored member record inside
  -- An entry that stands for a record below the found offset lies in the part that is too early.
  have earlier : entry ∈ before := by
    have sorted := timed.sorted
    unfold Sorted at sorted
    rw [split] at among sorted
    unfold findOffsetByTimestamp at lookup
    dsimp only at lookup
    rw [point, split, getElem?_append_right le_rfl, Nat.sub_self] at lookup
    cases after with
    | nil => rwa [append_nil] at among
    | cons first after =>
      rw [getElem?_cons_zero] at lookup
      have offset : first.offset = found := Option.some.inj lookup
      cases mem_append.mp among with
      | inl early => exact early
      | inr late =>
        have fromFirst : first.offset ≤ entry.offset := by
          cases late with
          | head => exact le_rfl
          | tail _ later =>
            exact ((pairwise_cons.mp (pairwise_append.mp sorted).2.1).1 entry later).le
        omega
  exact Int64.lt_of_le_of_lt reaches (of_decide_eq_true (early entry earlier))

end Segment

namespace WrittenSegment

/-- Once a segment has taken a batch, a lookup of a timestamp gives an offset, and no record below it is as
late as the timestamp. -/
def TimestampSound (state : WrittenSegment) : Prop :=
  ∀ timestamp, (state.placed ≠ [] → (state.segment.findOffsetByTimestamp timestamp).isSome = true) ∧
    ∀ offset, state.segment.findOffsetByTimestamp timestamp = some offset →
      ∀ placed ∈ state.placed, ∀ record ∈ placed.delivered.records, record.offset < offset →
        record.timestamp < timestamp

/-- Batches are indexed in the order of their timestamps, each under one that is not earlier than its
records. -/
def InTime (state : WrittenSegment) : SegmentWrite → Prop
  | .append batch =>
    batch.records ≠ [] →
      Segment.InTime (batchMaxTs batch) state.segment state.segment.nextOffset state.segment.fileSize ∧
        ∀ record ∈ batch.records, record.timestamp ≤ batchMaxTs batch
  | .appendBatch batches =>
    Segment.EachUpdate (Segment.InTime (pendingMaxTs batches)) (pendingMaxTs batches) state.segment
        state.segment.fileSize (assignOffsets state.segment.nextOffset batches) ∧
      ∀ batch ∈ batches, ∀ record ∈ batch.records, record.timestamp ≤ pendingMaxTs batches

instance (state : WrittenSegment) (write : SegmentWrite) : Decidable (state.InTime write) :=
  match write with
  | .append _ => inferInstanceAs (Decidable (_ → _ ∧ _))
  | .appendBatch _ => inferInstanceAs (Decidable (_ ∧ _))

theorem InTime.indexesOnce {state : WrittenSegment} {write : SegmentWrite} (inTime : state.InTime write) :
    state.IndexesOnce write := by
  cases write with
  | append batch => exact fun some => (inTime some).1.once
  | appendBatch batches => exact Segment.EachUpdate.imp inTime.1 fun _ _ _ met => met.once

section Keeps

variable {front : Bytes} {header : SegmentHeader} {batches : List RecordBatch} {state : WrittenSegment}

section

variable (keeps : Keeps front header batches state) (timed : Segment.Timed state.placed state.segment.sparseIndex)

include keeps timed

theorem Keeps.timed_step {write : SegmentWrite}
    (inTime : state.InTime write) : Segment.Timed (state.step write).placed (state.step write).segment.sparseIndex := by
  have reached : ∀ stored ∈ state.placed, stored.1 ≤ state.segment.nextOffset := by
    rw [keeps.placed]
    exact fun stored member => keeps.stored.reached member
  cases write with
  | append batch =>
    unfold WrittenSegment.step
    dsimp only
    cases appended : state.segment.append batch with
    | error error => exact timed
    | ok written =>
      obtain ⟨segment, result⟩ := written
      dsimp only
      by_cases none : batch.records = []
      · unfold append at appended
        split at appended
        · cases appended
        · rw [if_pos (by rw [none]; rfl)] at appended
          injection appended with pair
          injection pair with same outcome
          rw [← same, ← outcome, if_pos rfl, append_nil]
          exact timed
      · obtain ⟨ordered, records⟩ := inTime none
        obtain ⟨outcome, index⟩ := sparseIndex_append none appended
        rw [outcome, index, if_neg Nat.one_ne_zero]
        exact @Segment.Timed.update _ _ (state.segment.nextOffset, batch) _ _ timed reached ordered records
  | appendBatch more =>
    unfold WrittenSegment.step
    dsimp only
    cases appended : state.segment.appendBatch more with
    | error error => exact timed
    | ok written =>
      obtain ⟨segment, result⟩ := written
      dsimp only
      by_cases none : more = []
      · rw [none] at appended ⊢
        injection appended with pair
        injection pair with same outcome
        rw [← same, assignOffsets, append_nil]
        exact timed
      · obtain ⟨each, records⟩ := inTime
        obtain ⟨offset, extended, config, old, index⟩ := sparseIndex_appendBatch none appended
        rw [offset, index]
        refine Segment.Timed.writePending (by rw [old]; exact timed) ?_
          (each.congr Segment.InTime.congr config old) ?_
        · refine pairwise_append.mpr ⟨?_, ?_, ?_⟩
          · rw [keeps.placed]
            exact (pairwise_assignOffsets _ _).imp fun follows => by omega
          · exact (pairwise_assignOffsets _ _).imp fun follows => by omega
          · intro earlier member later new
            exact (reached earlier member).trans (assignOffsets_bounds new).1
        · intro placed member record inside
          exact records placed.2 (assignOffsets_bounds member).2.2 record inside

theorem Keeps.timestampSound : state.TimestampSound := by
  intro timestamp
  constructor
  · intro some
    obtain ⟨first, rest, split⟩ := exists_cons_of_ne_nil some
    obtain ⟨zeros, written⟩ := keeps.stored.written
    rw [← keeps.placed] at written
    obtain ⟨entry, member, -⟩ := written.first_entry split
    obtain ⟨last, final⟩ := getLast?_isSome.mpr (ne_nil_of_mem member) |> Option.isSome_iff_exists.mp
    unfold findOffsetByTimestamp
    dsimp only
    split
    · rfl
    · rw [final]
      rfl
  · intro offset found placed member record inside below
    have same : ∃ original ∈ placed.2.records, original.timestamp = record.timestamp ∧ placed.1 ≤ record.offset := by
      unfold Placed.delivered at inside
      obtain ⟨i, bound, rfl⟩ := mem_mapIdx.mp inside
      exact ⟨_, getElem_mem bound, rfl, Int.le_add_of_nonneg_right (Int.natCast_nonneg i)⟩
    obtain ⟨original, stored, timestampEq, lower⟩ := same
    rw [← timestampEq]
    exact timed.find found member (by omega) stored

end

end Keeps

/-- However batches are appended, as long as they are indexed in the order of their timestamps, a lookup
skips no record that is late enough. -/
theorem timestampSound_of_inTime {config : SegmentConfig} {created opened : Int64} {segment : Segment}
    (fresh : (new config created none none).open opened = .ok segment) {writes : List SegmentWrite}
    (inTime : Runs.Meets step InTime ⟨segment, []⟩ writes) :
    (Runs.run step ⟨segment, []⟩ writes).TimestampSound := by
  obtain ⟨-, -, front, laid⟩ := laid_fresh fresh
  have empty : segment.sparseIndex = [] := by
    obtain ⟨zeros, written⟩ := laid.written
    exact map_eq_nil_iff.mp (sublist_nil.mp written.index)
  have initial : ∃ batches, Keeps front segment.header batches ⟨segment, []⟩ ∧
      Segment.Timed [] segment.sparseIndex := by
    refine ⟨[], ⟨laid.stored, rfl⟩, ?_⟩
    rw [empty]
    exact timed_nil
  obtain ⟨batches, keeps, timed⟩ := inTime.preserves
    (fun state => ∃ batches, Keeps front segment.header batches state ∧
      Segment.Timed state.placed state.segment.sparseIndex)
    (by
      rintro state write met ⟨batches, keeps, timed⟩
      obtain ⟨more, after⟩ := keeps.step met.indexesOnce
      exact ⟨batches ++ more, after, keeps.timed_step timed met⟩)
    initial
  exact keeps.timestampSound timed

def batchAt (timestamp : Int64) : RecordBatch :=
  { baseTimestamp := timestamp, maxTimestamp := timestamp, records := [{ key := [97], timestamp }] }

def denseConfig : SegmentConfig := { indexIntervalBytes := 1 }

theorem timestampSound_ascending : ∃ segment, (new denseConfig 0 none none).open 0 = .ok segment ∧
    (Runs.run step ⟨segment, []⟩ [.append (batchAt 5), .appendBatch [batchAt 10, batchAt 8]]).TimestampSound := by
  obtain ⟨segment, fresh⟩ := open_fresh (show 0 ≤ denseConfig.baseOffset from le_rfl) 0 0
  refine ⟨segment, fresh, timestampSound_of_inTime fresh ?_⟩
  have decided : ((new denseConfig 0 none none).open 0).toOption.map (fun segment =>
      decide (Runs.Meets step InTime ⟨segment, []⟩ [.append (batchAt 5), .appendBatch [batchAt 10, batchAt 8]])) =
        some true := by
    decide +kernel
  rw [fresh] at decided
  exact of_decide_eq_true (Option.some.inj decided)

/-- The entries are 10 and 5, and the lookup of 8 ends behind both. -/
theorem not_timestampSound_descending : ¬∀ (config : SegmentConfig) (created opened : Int64) (segment : Segment),
    (new config created none none).open opened = .ok segment → ∀ writes : List SegmentWrite,
    (Runs.run step ⟨segment, []⟩ writes).TimestampSound := by
  intro claim
  obtain ⟨segment, fresh⟩ := open_fresh (show 0 ≤ denseConfig.baseOffset from le_rfl) 0 0
  have sound := claim denseConfig 0 0 segment fresh [.append (batchAt 10), .append (batchAt 5)]
  generalize written : Runs.run step ⟨segment, []⟩ [.append (batchAt 10), .append (batchAt 5)] = state at sound
  have evaluated : ((new denseConfig 0 none none).open 0).toOption.map (fun segment =>
      let state := Runs.run step ⟨segment, []⟩ [.append (batchAt 10), .append (batchAt 5)]
      (state.segment.findOffsetByTimestamp 8, state.placed)) = some (some 1, [(0, batchAt 10), (1, batchAt 5)]) := by
    decide +kernel
  rw [fresh] at evaluated
  have found := Option.some.inj evaluated
  dsimp only at found
  rw [written] at found
  obtain ⟨lookup, placed⟩ := Prod.mk.inj found
  have late := (sound 8).2 1 lookup (0, batchAt 10) (by rw [placed]; exact mem_cons_self)
  revert late
  decide

end WrittenSegment

end TorrentMq.Storage
