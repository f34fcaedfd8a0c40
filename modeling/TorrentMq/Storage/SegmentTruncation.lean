import TorrentMq.Storage.SegmentIndexProperties
import TorrentMq.Storage.SegmentObjectProperties

/-!
# Truncation of a segment

Which batches are left in the file when a segment is cut at an offset that is
looked up in the sparse index.
-/

set_option autoImplicit false

namespace TorrentMq.Storage

open Bytes Locking Locked List SegmentObject

namespace Segment

def endingBy (newEndOffset : Int) (placed : List Placed) : List Placed :=
  placed.filter fun batch => decide (batch.endOffset ≤ newEndOffset)

/-- A segment is cut at an offset: of the batches behind the header, those that end by it are left and
nothing else, and every entry of the index is the base offset and the position of one of them. -/
structure TruncatedAt (front : Bytes) (placed : List Placed) (newEndOffset : Int) (segment : Segment) : Prop where
  file : ∃ head zeros, head <+: front ∧ kSegmentHeaderSize ≤ head.length ∧
    segment.data = head ++ (blocks (endingBy newEndOffset placed) ++ List.replicate zeros 0) ∧
    segment.fileSize = head.length + (blocks (endingBy newEndOffset placed)).length ∧
    ∀ entry ∈ segment.sparseIndex,
      (entry.offset, entry.filePosition) ∈ positions head.length (endingBy newEndOffset placed)
  nextOffset : segment.nextOffset = newEndOffset

theorem endingBy_of_split {base : Int} {batches : List RecordBatch} {before after : List Placed} {target : Placed}
    (split : assignOffsets base batches = before ++ target :: after)
    (all : ∀ batch ∈ batches, batch.records ≠ []) : endingBy target.1 (assignOffsets base batches) = before := by
  have ordered := pairwise_assignOffsets base batches
  have nonempty : ∀ placed ∈ assignOffsets base batches, 0 < placed.2.records.length :=
    fun placed member => length_pos_iff.mpr (all _ (assignOffsets_bounds member).2.2)
  rw [split] at ordered nonempty
  obtain ⟨-, fromHere, across⟩ := pairwise_append.mp ordered
  rw [endingBy, split, filter_append, filter_eq_self.mpr, filter_eq_nil_iff.mpr, append_nil]
  · intro placed member
    have positive := nonempty placed (mem_append_right _ member)
    have later : target.1 ≤ placed.1 := by
      cases member with
      | head => exact le_rfl
      | tail _ member =>
        have := (pairwise_cons.mp fromHere).1 placed member
        omega
    unfold Placed.endOffset
    simp only [decide_eq_true_eq]
    omega
  · intro placed member
    exact decide_eq_true (across placed member target mem_cons_self)

section Laid

variable {front : Bytes} {batches : List RecordBatch} {segment : Segment} {newEndOffset : Int}

theorem sparseIndex_truncatedTo (sorted : Sorted segment.sparseIndex) :
    (segment.truncatedTo newEndOffset).sparseIndex =
      segment.sparseIndex.filter fun entry => decide (entry.offset < newEndOffset) := by
  rw [← (sorted.below newEndOffset).takeWhile_eq_filter]
  unfold truncatedTo pruneSparseIndex cutFile
  dsimp only
  cases index : segment.sparseIndex with
  | nil => rfl
  | cons entry entries => rfl

theorem data_truncatedTo :
    (segment.truncatedTo newEndOffset).data = ftruncate segment.data (segment.truncatedSize newEndOffset) ∧
      (segment.truncatedTo newEndOffset).fileSize = segment.truncatedSize newEndOffset ∧
      (segment.truncatedTo newEndOffset).nextOffset = newEndOffset := by
  unfold truncatedTo pruneSparseIndex
  split <;> exact ⟨rfl, rfl, rfl⟩

theorem ftruncate_append (left right : Bytes) : ftruncate (left ++ right) left.length = left := by
  rw [ftruncate, take_left, Nat.sub_eq_zero_of_le (by rw [length_append]; omega), replicate_zero,
    append_nil]

section

variable (laid : Laid front segment.header batches segment)

include laid

theorem Laid.truncatedAt_base
    (header : kSegmentHeaderSize ≤ front.length) :
    TruncatedAt front (assignOffsets segment.header.baseOffset batches) segment.header.baseOffset
      (segment.truncatedTo segment.header.baseOffset) := by
  obtain ⟨zeros, written⟩ := laid.written
  have none : endingBy segment.header.baseOffset (assignOffsets segment.header.baseOffset batches) = [] := by
    rw [endingBy, filter_eq_nil_iff]
    intro placed member
    obtain ⟨lower, -, inside⟩ := assignOffsets_bounds member
    have positive := length_pos_iff.mpr (laid.nonempty _ inside)
    unfold Placed.endOffset
    simp only [decide_eq_true_eq]
    omega
  have size : segment.truncatedSize segment.header.baseOffset = kSegmentHeaderSize := by
    rw [truncatedSize, if_neg (lt_irrefl _)]
  obtain ⟨data, fileSize, next⟩ := @data_truncatedTo segment segment.header.baseOffset
  rw [size] at data fileSize
  refine ⟨⟨front.take kSegmentHeaderSize, 0, take_prefix _ _, ?_, ?_, ?_, ?_⟩, next⟩
  · rw [length_take, min_eq_left header]
  · rw [data, none, written.data, ftruncate, take_append_of_le_length header, length_append,
      Nat.sub_eq_zero_of_le (header.trans (Nat.le_add_right _ _))]
    rfl
  · rw [fileSize, none, length_take, min_eq_left header]
    rfl
  · intro entry member
    rw [sparseIndex_truncatedTo laid.stored.sorted] at member
    obtain ⟨stored, below⟩ := List.mem_filter.mp member
    obtain ⟨before, batch, after, split, -⟩ := written.mem stored
    have lower :=
      (@assignOffsets_bounds segment.header.baseOffset batches (entry.offset, batch) (by rw [split]; simp)).1
    have above := of_decide_eq_true below
    dsimp only at lower
    omega

theorem Laid.truncatedAt_entry
    (header : kSegmentHeaderSize ≤ front.length) {entry : SparseIndexEntry} (indexed : entry ∈ segment.sparseIndex)
    (above : segment.header.baseOffset < entry.offset) :
    TruncatedAt front (assignOffsets segment.header.baseOffset batches) entry.offset
      (segment.truncatedTo entry.offset) := by
  obtain ⟨zeros, written⟩ := laid.written
  have sorted := laid.stored.sorted
  obtain ⟨before, batch, after, split, position⟩ := written.mem indexed
  have kept : endingBy entry.offset (assignOffsets segment.header.baseOffset batches) = before :=
    endingBy_of_split split laid.nonempty
  have size : segment.truncatedSize entry.offset = (front ++ blocks before).length := by
    obtain ⟨found, inside, lookup, upper, last⟩ := sorted.findPosition indexed le_rfl
    have lower := last entry indexed le_rfl
    -- Offsets are indexed once, so that the entry that is found is the one at the offset.
    have same : found = entry := by
      by_contra different
      have apart : segment.sparseIndex.Pairwise fun left right => left.offset ≠ right.offset :=
        sorted.imp fun less => less.ne
      have symmetric : Std.Symm fun left right : SparseIndexEntry => left.offset ≠ right.offset :=
        ⟨fun _ _ => Ne.symm⟩
      exact apart.forall inside indexed different (le_antisymm upper lower)
    rw [truncatedSize, if_pos above, lookup, same, Option.getD_some, position, length_append]
  obtain ⟨data, fileSize, next⟩ := @data_truncatedTo segment entry.offset
  rw [size] at data fileSize
  refine ⟨⟨front, 0, prefix_refl _, header, ?_, ?_, ?_⟩, next⟩
  · rw [data, written.data, kept, split, blocks_append, append_assoc, ← append_assoc, ftruncate_append]
    simp
  · rw [fileSize, kept, length_append]
  · intro other member
    rw [sparseIndex_truncatedTo sorted] at member
    obtain ⟨stored, below⟩ := List.mem_filter.mp member
    have key := written.index.subset (mem_map_of_mem stored)
    rw [split, positions_append] at key
    rw [kept]
    cases mem_append.mp key with
    | inl early => exact early
    | inr late =>
      obtain ⟨skipped, copy, rest, inside, -⟩ := mem_positions late
      have ordered := pairwise_assignOffsets segment.header.baseOffset batches
      rw [split] at ordered
      have follows := (pairwise_cons.mp (pairwise_append.mp ordered).2.1).1
      have among : (other.offset, copy) ∈ (entry.offset, batch) :: after := by
        rw [inside]
        exact mem_append_right _ mem_cons_self
      have less := of_decide_eq_true below
      cases mem_cons.mp among with
      | inl same =>
        have offset : other.offset = entry.offset := congrArg Prod.fst same
        omega
      | inr later =>
        have := follows _ later
        dsimp only at this
        omega

theorem Laid.indexed_of_truncatedAt
    (lower : segment.header.baseOffset < newEndOffset) (upper : newEndOffset < segment.nextOffset)
    (truncated : TruncatedAt front (assignOffsets segment.header.baseOffset batches) newEndOffset
      (segment.truncatedTo newEndOffset)) : ∃ entry ∈ segment.sparseIndex, entry.offset = newEndOffset := by
  obtain ⟨zeros, written⟩ := laid.written
  have sorted := laid.stored.sorted
  obtain ⟨first, rest, split⟩ : ∃ first rest, assignOffsets segment.header.baseOffset batches = first :: rest := by
    cases batches with
    | nil =>
      have next := laid.nextOffset
      rw [show recordTotal [] = 0 from rfl] at next
      omega
    | cons batch batches => exact ⟨_, _, rfl⟩
  have base : first.1 = segment.header.baseOffset := by
    cases batches with
    | nil => cases split
    | cons batch batches =>
      rw [assignOffsets] at split
      rw [← (List.cons.inj split).1]
  obtain ⟨start, indexed, offset⟩ := written.first_entry split
  obtain ⟨found, inside, lookup, reached, -⟩ :=
    sorted.findPosition indexed (show start.offset ≤ newEndOffset by rw [offset, base]; exact lower.le)
  refine ⟨found, inside, ?_⟩
  by_contra other
  have below : found.offset < newEndOffset := lt_of_le_of_ne reached other
  obtain ⟨data, fileSize, -⟩ := @data_truncatedTo segment newEndOffset
  rw [truncatedSize, if_pos lower, lookup, Option.getD_some] at fileSize
  obtain ⟨head, padding, -, -, -, size, index⟩ := truncated.file
  have stale := index found (by
    rw [sparseIndex_truncatedTo sorted]
    exact List.mem_filter.mpr ⟨inside, decide_eq_true below⟩)
  obtain ⟨before, batch, after, kept, position⟩ := mem_positions stale
  have some := Placed.length_block (found.offset, batch)
  rw [kept, blocks_append, blocks_cons, length_append, length_append] at size
  omega

end

/-- A truncation that succeeds is exact at the base offset, at the end and at the offsets that are
indexed, and nowhere else. -/
theorem truncateTo_exact_iff {object after : SegmentObject} {answers : SegmentAnswers}
    (laid : Laid front object.segment.header batches object.segment) (header : kSegmentHeaderSize ≤ front.length)
    (truncated : (truncateTo answers newEndOffset).run free object = .returned true after) :
    TruncatedAt front (assignOffsets object.segment.header.baseOffset batches) newEndOffset after.segment ↔
      newEndOffset = object.segment.header.baseOffset ∨ newEndOffset = object.segment.nextOffset ∨
        ∃ entry ∈ object.segment.sparseIndex, entry.offset = newEndOffset := by
  obtain ⟨result, final, run, success, effect⟩ := run_truncateTo object answers newEndOffset
  rw [truncated] at run
  cases run
  obtain ⟨-, lower, upper, -⟩ := success.mp rfl
  rw [effect rfl]
  by_cases same : newEndOffset = object.segment.nextOffset
  · rw [if_pos same]
    refine iff_of_true ?_ (.inr (.inl same))
    obtain ⟨zeros, written⟩ := laid.written
    have all : endingBy newEndOffset (assignOffsets object.segment.header.baseOffset batches) =
        assignOffsets object.segment.header.baseOffset batches := by
      rw [endingBy, filter_eq_self]
      intro placed member
      have bounds := assignOffsets_bounds member
      have next := laid.nextOffset
      unfold Placed.endOffset
      exact decide_eq_true (by omega)
    refine ⟨⟨front, zeros, prefix_refl _, header, ?_, ?_, ?_⟩, same.symm⟩
    · rw [all]
      exact written.data
    · rw [all]
      exact laid.fileSize
    · rw [all]
      exact fun entry member => written.index.subset (mem_map_of_mem member)
  · rw [if_neg same]
    have inside : newEndOffset < object.segment.nextOffset := lt_of_le_of_ne upper same
    constructor
    · intro cut
      rcases lt_or_eq_of_le lower with above | base
      · exact .inr (.inr (laid.indexed_of_truncatedAt above inside cut))
      · exact .inl base.symm
    · intro condition
      rcases lt_or_eq_of_le lower with above | base
      · obtain ⟨entry, indexed, offset⟩ := (condition.resolve_left above.ne').resolve_left same
        rw [← offset] at above ⊢
        exact laid.truncatedAt_entry header indexed above
      · rw [← base]
        exact laid.truncatedAt_base header

end Laid

def threeBatches : List RecordBatch :=
  [WrittenSegment.ordinaryBatch, WrittenSegment.ordinaryBatch, WrittenSegment.ordinaryBatch]

def threeBatchesFacts (config : SegmentConfig) : Option (Bool × Nat × Option (List Int × Bool)) :=
  ((Segment.new config 0 none none).open 0).toOption.map fun fresh =>
    (fresh.isActive, fresh.fileSize, (fresh.appendBatch threeBatches).toOption.map fun filled =>
      (filled.1.sparseIndex.map SparseIndexEntry.offset, filled.1.isSealed))

theorem exists_threeBatches {config : SegmentConfig} {entries : List Int} (valid : 0 ≤ config.baseOffset)
    (facts : threeBatchesFacts config = some (true, kSegmentHeaderSize, some (entries, false))) :
    ∃ segment front, Laid front segment.header threeBatches segment ∧ front.length = kSegmentHeaderSize ∧
      segment.header.baseOffset = config.baseOffset ∧ segment.sparseIndex.map SparseIndexEntry.offset = entries ∧
      segment.isSealed = false := by
  obtain ⟨fresh, opened⟩ := Segment.open_fresh valid 0 0
  obtain ⟨-, base, front, laid⟩ := Segment.laid_fresh opened
  rw [threeBatchesFacts, opened] at facts
  obtain ⟨active, rest⟩ := Prod.mk.inj (Option.some.inj facts)
  obtain ⟨size, index⟩ := Prod.mk.inj rest
  cases appended : fresh.appendBatch threeBatches with
  | error error =>
    rw [appended] at index
    cases index
  | ok written =>
    obtain ⟨segment, result⟩ := written
    rw [appended] at index
    obtain ⟨offsets, unsealed⟩ := Prod.mk.inj (Option.some.inj index)
    obtain ⟨after, -⟩ := laid.appendBatch (by decide) appended
    have header := after.sameHeader
    refine ⟨segment, front, ?_, laid.fileSize.symm.trans size, ?_, offsets, unsealed⟩
    · rw [header]
      exact after
    · rw [header, base]

def holder (segment : Segment) : SegmentObject where
  segment
  descriptor := true
  descriptor_of_isOpen := fun _ => rfl

theorem exists_truncation {segment : Segment} {newEndOffset : Int} (lower : segment.header.baseOffset ≤ newEndOffset)
    (upper : newEndOffset < segment.nextOffset) :
    ∃ after, (truncateTo {} newEndOffset).run free (holder segment) = .returned true after ∧
      after.segment = segment.truncatedTo newEndOffset := by
  obtain ⟨result, after, run, success, effect⟩ := run_truncateTo (holder segment) {} newEndOffset
  have done : result = true := success.mpr ⟨rfl, lower, upper.le, .inr rfl⟩
  subst done
  exact ⟨after, run, (effect rfl).trans (if_neg upper.ne)⟩

/-- With an entry for every batch, a truncation to a batch in the middle is exact. -/
theorem truncatedAt_dense : ∃ (object after : SegmentObject) (front : Bytes), object.segment.isSealed = false ∧
    (truncateTo {} 2).run free object = .returned true after ∧
    TruncatedAt front (assignOffsets 0 threeBatches) 2 after.segment := by
  obtain ⟨segment, front, laid, size, base, offsets, unsealed⟩ :=
    @exists_threeBatches { indexIntervalBytes := 1 } [0, 1, 2] le_rfl (by decide +kernel)
  have upper : (2 : Int) < segment.nextOffset := by
    rw [laid.nextOffset, base]
    decide
  obtain ⟨after, run, -⟩ := exists_truncation (show segment.header.baseOffset ≤ 2 by rw [base]; decide) upper
  have indexed : ∃ entry ∈ segment.sparseIndex, entry.offset = 2 := by
    apply mem_map.mp
    rw [offsets]
    decide
  refine ⟨holder segment, after, front, unsealed, run, ?_⟩
  have cut := (truncateTo_exact_iff (show Laid front (holder segment).segment.header _ (holder segment).segment from laid)
    size.ge run).mpr (.inr (.inr indexed))
  rwa [show (holder segment).segment.header.baseOffset = 0 from base] at cut

/-- With the first batch indexed only, a truncation to a batch in the middle takes all of them away. -/
theorem not_truncatedAt_sparse : ¬∀ (front : Bytes) (batches : List RecordBatch) (object after : SegmentObject)
    (answers : SegmentAnswers) (newEndOffset : Int), Laid front object.segment.header batches object.segment →
    kSegmentHeaderSize ≤ front.length → object.segment.isSealed = false →
    (truncateTo answers newEndOffset).run free object = .returned true after →
    TruncatedAt front (assignOffsets object.segment.header.baseOffset batches) newEndOffset after.segment := by
  intro claim
  obtain ⟨segment, front, laid, size, base, offsets, unsealed⟩ := @exists_threeBatches {} [0] le_rfl (by decide +kernel)
  have upper : (2 : Int) < segment.nextOffset := by
    rw [laid.nextOffset, base]
    decide
  have lower : segment.header.baseOffset < 2 := by
    rw [base]
    decide
  obtain ⟨after, run, same⟩ := exists_truncation lower.le upper
  have cut := claim front _ (holder segment) after {} 2 laid size.ge unsealed run
  rw [same] at cut
  obtain ⟨entry, member, offset⟩ := laid.indexed_of_truncatedAt lower upper cut
  have listed : entry.offset ∈ segment.sparseIndex.map SparseIndexEntry.offset := mem_map_of_mem member
  rw [offsets, offset] at listed
  revert listed
  decide

end Segment

end TorrentMq.Storage
