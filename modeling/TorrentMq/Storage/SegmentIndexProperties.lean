import TorrentMq.Collections.SortedVector
import TorrentMq.Storage.IdealSegment

/-!
# The sparse index of a segment

What the index knows of the batches in the file, through any run of appends
and however often it was thinned out.
-/

set_option autoImplicit false

namespace TorrentMq.Storage

open List Segment

namespace Segment

section

variable {index : List SparseIndexEntry} (sorted : Sorted index) (bound : Int)

include sorted

theorem Sorted.below :
    SortedVector.Partitioned (fun entry : SparseIndexEntry => decide (entry.offset < bound)) index := by
  refine sorted.imp ?_
  intro earlier later less below
  exact decide_eq_true (less.trans (of_decide_eq_true below))

theorem Sorted.upTo :
    SortedVector.Partitioned (fun entry : SparseIndexEntry => decide (entry.offset ≤ bound)) index := by
  refine sorted.imp ?_
  intro earlier later less below
  exact decide_eq_true (less.le.trans (of_decide_eq_true below))

end

theorem Sorted.findPosition {segment : Segment} (sorted : Sorted segment.sparseIndex) {offset : Int}
    {reached : SparseIndexEntry} (member : reached ∈ segment.sparseIndex) (below : reached.offset ≤ offset) :
    ∃ entry ∈ segment.sparseIndex, segment.findPosition offset = some entry.filePosition ∧ entry.offset ≤ offset ∧
      ∀ other ∈ segment.sparseIndex, other.offset ≤ offset → other.offset ≤ entry.offset := by
  have kept := (sorted.upTo offset).takeWhile_eq_filter
  have some : segment.sparseIndex.isEmpty = false := by
    rw [isEmpty_eq_false_iff]
    exact ne_nil_of_mem member
  have inside : reached ∈ segment.sparseIndex.filter fun entry => decide (entry.offset ≤ offset) :=
    List.mem_filter.mpr ⟨member, decide_eq_true below⟩
  have ordered : Sorted (segment.sparseIndex.filter fun entry => decide (entry.offset ≤ offset)) :=
    sorted.sublist filter_sublist
  unfold Segment.findPosition
  rw [some, if_neg Bool.false_ne_true, kept]
  rcases eq_nil_or_concat (segment.sparseIndex.filter fun entry => decide (entry.offset ≤ offset)) with
    none | ⟨front, entry, concat⟩
  · rw [none] at inside
    cases inside
  · rw [concat_eq_append] at concat
    have last : entry ∈ segment.sparseIndex.filter fun entry => decide (entry.offset ≤ offset) := by
      rw [concat]
      exact mem_append_right _ mem_cons_self
    obtain ⟨stored, upper⟩ := List.mem_filter.mp last
    refine ⟨entry, stored, ?_, of_decide_eq_true upper, ?_⟩
    · rw [concat, getLast?_concat]
    · intro other found upTo
      have among : other ∈ front ++ [entry] := by
        rw [← concat]
        exact List.mem_filter.mpr ⟨found, decide_eq_true upTo⟩
      unfold Sorted at ordered
      rw [concat] at ordered
      cases mem_append.mp among with
      | inl early => exact ((pairwise_append.mp ordered).2.2 other early entry mem_cons_self).le
      | inr final => rw [mem_singleton.mp final]

theorem Written.first_entry {front : Bytes} {zeros : Nat} {placed : List Placed} {segment : Segment}
    (written : Written front zeros placed segment) {first : Placed} {rest : List Placed}
    (split : placed = first :: rest) : ∃ entry ∈ segment.sparseIndex, entry.offset = first.1 := by
  have head := written.first
  rw [split] at head
  cases index : segment.sparseIndex with
  | nil =>
    rw [index] at head
    cases head
  | cons entry entries =>
    rw [index] at head
    exact ⟨entry, mem_cons_self, congrArg Prod.fst (Option.some.inj head)⟩

end Segment

namespace WrittenSegment

/-- The index is in order, its entries are the base offsets and positions of batches in the file, and a
lookup of an offset that is stored leads to a batch that begins at or below it. -/
structure IndexSound (state : WrittenSegment) : Prop where
  sorted : Segment.Sorted state.segment.sparseIndex
  stored : ∃ front zeros, state.segment.data = front ++ (blocks state.placed ++ List.replicate zeros 0) ∧
    (∀ entry ∈ state.segment.sparseIndex, (entry.offset, entry.filePosition) ∈ positions front.length state.placed) ∧
    ∀ placed ∈ state.placed, ∀ offset, placed.1 ≤ offset → offset < placed.endOffset →
      ∃ baseOffset position, (baseOffset, position) ∈ positions front.length state.placed ∧ baseOffset ≤ offset ∧
        state.segment.findPosition offset = some position

def IndexesOnce (state : WrittenSegment) : SegmentWrite → Prop
  | .append batch =>
    batch.records ≠ [] → state.segment.IndexesOnce state.segment.nextOffset state.segment.fileSize
  | .appendBatch batches =>
    Segment.IndexesEach (pendingMaxTs batches) state.segment state.segment.fileSize
      (assignOffsets state.segment.nextOffset batches)

structure Keeps (front : Bytes) (header : SegmentHeader) (batches : List RecordBatch)
    (state : WrittenSegment) : Prop where
  stored : Segment.Stored front header batches state.segment
  placed : state.placed = assignOffsets header.baseOffset batches

section Keeps

variable {front : Bytes} {header : SegmentHeader} {batches : List RecordBatch} {state : WrittenSegment}

theorem Keeps.indexSound (keeps : Keeps front header batches state) : state.IndexSound where
  sorted := keeps.stored.sorted
  stored := by
    obtain ⟨zeros, written⟩ := keeps.stored.written
    rw [keeps.placed]
    have keyed : ∀ entry ∈ state.segment.sparseIndex, (entry.offset, entry.filePosition) ∈
        positions front.length (assignOffsets header.baseOffset batches) :=
      fun entry member => written.index.subset (mem_map_of_mem member)
    refine ⟨front, zeros, written.data, keyed, ?_⟩
    intro placed member offset lower _
    obtain ⟨first, rest, split⟩ := exists_cons_of_ne_nil (ne_nil_of_mem member)
    obtain ⟨entry, indexed, base⟩ := written.first_entry split
    have ordered := pairwise_assignOffsets header.baseOffset batches
    rw [split] at member ordered
    have reached : entry.offset ≤ offset := by
      rw [base]
      cases member with
      | head => exact lower
      | tail _ later =>
        have := (pairwise_cons.mp ordered).1 placed later
        omega
    obtain ⟨found, inside, lookup, upper, -⟩ := keeps.stored.sorted.findPosition indexed reached
    exact ⟨found.offset, found.filePosition, keyed found inside, upper, lookup⟩

theorem Keeps.step (keeps : Keeps front header batches state) {write : SegmentWrite}
    (once : state.IndexesOnce write) : ∃ more, Keeps front header (batches ++ more) (state.step write) := by
  have unchanged : Keeps front header (batches ++ []) state := by rwa [append_nil]
  cases write with
  | append batch =>
    unfold WrittenSegment.step
    dsimp only
    split
    · exact ⟨[], unchanged⟩
    next segment result appended =>
      by_cases none : batch.records = []
      · refine ⟨[], ?_⟩
        unfold append at appended
        split at appended
        · cases appended
        · rw [if_pos (by rw [none]; rfl)] at appended
          injection appended with pair
          injection pair with same result
          rw [← same, ← result, if_pos rfl]
          exact ⟨unchanged.stored, by rw [append_nil]; exact unchanged.placed⟩
      · obtain ⟨after, rfl⟩ := keeps.stored.append none (once none) appended
        refine ⟨[batch], after, ?_⟩
        rw [assignOffsets_append, keeps.placed, ← keeps.stored.nextOffset]
        rfl
  | appendBatch more =>
    unfold WrittenSegment.step
    dsimp only
    split
    · exact ⟨[], unchanged⟩
    next segment result appended =>
      obtain ⟨after, offset⟩ := keeps.stored.appendBatch once appended
      refine ⟨more, after, ?_⟩
      rw [assignOffsets_append, keeps.placed, offset, keeps.stored.nextOffset]

end Keeps

/-- However many batches a segment takes, and of whatever sizes, its index is sound as long as no offset
is indexed twice. -/
theorem indexSound_of_once {config : SegmentConfig} {created opened : Int64} {segment : Segment}
    (fresh : (new config created none none).open opened = .ok segment) {writes : List SegmentWrite}
    (once : Runs.Meets step IndexesOnce ⟨segment, []⟩ writes) :
    (Runs.run step ⟨segment, []⟩ writes).IndexSound := by
  obtain ⟨-, -, front, laid⟩ := laid_fresh fresh
  have initial : ∃ batches, Keeps front segment.header batches ⟨segment, []⟩ := ⟨[], laid.stored, rfl⟩
  obtain ⟨batches, keeps⟩ := once.preserves (fun state => ∃ batches, Keeps front segment.header batches state)
    (by
      rintro state write met ⟨batches, keeps⟩
      obtain ⟨more, after⟩ := keeps.step met
      exact ⟨batches ++ more, after⟩)
    initial
  exact keeps.indexSound

variable {front : Bytes} {header : SegmentHeader} {batches : List RecordBatch} {state : WrittenSegment}

section

variable (laid : Segment.Laid front header batches state.segment) {write : SegmentWrite}
  (records : ∀ batch ∈ write.batches, batch.records ≠ [])
include laid records

theorem laid_step : ∃ more, Segment.Laid front header (batches ++ more) (state.step write).segment := by
  have unchanged : Segment.Laid front header (batches ++ []) state.segment := by rwa [append_nil]
  cases write with
  | append batch =>
    unfold WrittenSegment.step
    dsimp only
    split
    · exact ⟨[], unchanged⟩
    next segment result appended => exact ⟨[batch], (laid.append (records batch mem_cons_self) appended).1⟩
  | appendBatch more =>
    unfold WrittenSegment.step
    dsimp only
    split
    · exact ⟨[], unchanged⟩
    next segment result appended => exact ⟨more, (laid.appendBatch records appended).1⟩

theorem indexesOnce_of_records : state.IndexesOnce write := by
  cases write with
  | append batch => exact fun _ => indexesOnce_of_above laid.index_below _
  | appendBatch more =>
    apply indexesEach_of_ascending
    · intro entry member later inside
      exact (laid.index_below entry member).trans_le (assignOffsets_bounds inside).1
    · exact pairwise_lt_assignOffsets records

end

theorem meets_of_records (laid : Segment.Laid front header batches state.segment) {writes : List SegmentWrite}
    (records : ∀ write ∈ writes, ∀ batch ∈ write.batches, batch.records ≠ []) :
    Runs.Meets step IndexesOnce state writes := by
  induction writes generalizing batches state with
  | nil => trivial
  | cons write writes ih =>
    have first := records write mem_cons_self
    obtain ⟨more, after⟩ := laid_step laid first
    exact ⟨indexesOnce_of_records laid first,
      ih after fun other member => records other (mem_cons_of_mem _ member)⟩

theorem indexSound_ordinaryBatch : ∃ segment, (new {} 0 none none).open 0 = .ok segment ∧
    (Runs.run step ⟨segment, []⟩ [.append ordinaryBatch, .appendBatch [ordinaryBatch, ordinaryBatch]]).IndexSound := by
  obtain ⟨segment, fresh⟩ := open_fresh (show 0 ≤ ({} : SegmentConfig).baseOffset from le_rfl) 0 0
  obtain ⟨-, -, front, laid⟩ := laid_fresh fresh
  exact ⟨segment, fresh, indexSound_of_once fresh (meets_of_records laid (by decide))⟩

def emptyBatches : List RecordBatch := List.replicate 69 {}

/-- The first batch of a segment is indexed, and another one at the same offset. -/
theorem not_indexSound_emptyBatches : ¬∀ (config : SegmentConfig) (created opened : Int64) (segment : Segment),
    (new config created none none).open opened = .ok segment → ∀ writes : List SegmentWrite,
    (Runs.run step ⟨segment, []⟩ writes).IndexSound := by
  intro claim
  obtain ⟨segment, fresh⟩ := open_fresh (show 0 ≤ ({} : SegmentConfig).baseOffset from le_rfl) 0 0
  have sorted := (claim {} 0 0 segment fresh [.appendBatch emptyBatches]).sorted
  have offsets : ((new {} 0 none none).open 0).toOption.map (fun segment =>
      (Runs.run step ⟨segment, []⟩ [.appendBatch emptyBatches]).segment.sparseIndex.map SparseIndexEntry.offset) =
        some [0, 0] := by
    decide +kernel
  rw [fresh] at offsets
  have listed : (Runs.run step ⟨segment, []⟩ [.appendBatch emptyBatches]).segment.sparseIndex.map
      SparseIndexEntry.offset = [0, 0] := Option.some.inj offsets
  have ordered : ((Runs.run step ⟨segment, []⟩ [.appendBatch emptyBatches]).segment.sparseIndex.map
      SparseIndexEntry.offset).Pairwise (· < ·) := pairwise_map.mpr sorted
  rw [listed] at ordered
  revert ordered
  decide

end WrittenSegment

end TorrentMq.Storage
