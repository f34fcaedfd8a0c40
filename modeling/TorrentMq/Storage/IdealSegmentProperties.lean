import TorrentMq.Storage.IdealSegment

/-!
# Properties of ideal segments

What the operations of an ideal segment do to its offsets.
-/

set_option autoImplicit false

namespace TorrentMq.Storage

open List WrittenSegment Segment

namespace IdealSegment

theorem baseOffset_le_nextOffset (segment : IdealSegment) : segment.baseOffset ≤ segment.nextOffset := by
  unfold nextOffset
  omega

theorem offsets_delivered (placed : Placed) :
    placed.delivered.records.map Record.offset =
      (List.range placed.2.records.length).map fun i : Nat => placed.1 + (i : Int) := by
  rw [Placed.delivered, mapIdx_eq_zipIdx_map, map_map, range_eq_range',
    ← zipIdx_map_snd 0 placed.2.records, map_map]
  rfl

theorem offsets_assigned (base : Int) (batches : List RecordBatch) :
    ((assignOffsets base batches).flatMap fun placed : Placed => placed.delivered.records).map Record.offset =
      (List.range (recordTotal batches)).map fun i : Nat => base + (i : Int) := by
  induction batches generalizing base with
  | nil => rfl
  | cons batch batches ih =>
    have total := recordTotal_cons batch batches
    rw [assignOffsets, flatMap_cons, map_append, offsets_delivered, ih, total, range_add,
      map_append, map_map]
    congr 1
    apply map_congr_left
    intro i _
    rw [Function.comp_apply]
    omega

theorem offsets_records (segment : IdealSegment) :
    segment.records.map Record.offset =
      (List.range (recordTotal segment.batches)).map fun i : Nat => segment.baseOffset + (i : Int) :=
  offsets_assigned segment.baseOffset segment.batches

variable {segment : IdealSegment}

theorem exists_record {offset : Int} (lower : segment.baseOffset ≤ offset)
    (upper : offset < segment.nextOffset) : ∃ record ∈ segment.records, record.offset = offset := by
  unfold nextOffset at upper
  have member : offset ∈ segment.records.map Record.offset := by
    rw [offsets_records, mem_map]
    exact ⟨(offset - segment.baseOffset).toNat, mem_range.mpr (by omega), by omega⟩
  exact mem_map.mp member

structure SameIdentity (segment written : IdealSegment) : Prop where
  segmentId : written.segmentId = segment.segmentId
  baseOffset : written.baseOffset = segment.baseOffset
  isSealed : written.isSealed = segment.isSealed

theorem append_of_unsealed (unsealed : segment.isSealed = false) (batch : RecordBatch) :
    ∃ next result, segment.append batch = .ok (next, result) ∧ SameIdentity segment next ∧
      result.baseOffset = segment.nextOffset := by
  unfold append
  rw [unsealed, if_neg (by decide)]
  split
  · exact ⟨_, _, rfl, ⟨rfl, rfl, rfl⟩, rfl⟩
  · exact ⟨_, _, rfl, ⟨rfl, rfl, unsealed.symm⟩, rfl⟩

theorem recordTotal_takeRecords (count : Nat) (batches : List RecordBatch) :
    recordTotal (takeRecords count batches) = min count (recordTotal batches) := by
  induction batches generalizing count with
  | nil => exact (Nat.min_zero count).symm
  | cons batch batches ih =>
    have total := recordTotal_cons batch batches
    rw [takeRecords]
    split
    next none => rw [none, Nat.zero_min]; rfl
    next =>
      split
      next whole =>
        have rest := ih (count - batch.records.length)
        rw [recordTotal] at rest ⊢
        rw [map_cons, sum_cons, rest, total]
        omega
      next =>
        rw [recordTotal, map_singleton, sum_singleton, length_take, total]
        omega

theorem truncateTo_of_inside {newEndOffset : Int}
    (lower : segment.baseOffset ≤ newEndOffset) (upper : newEndOffset ≤ segment.nextOffset) :
    ∃ truncated, segment.truncateTo newEndOffset = .ok truncated ∧ SameIdentity segment truncated ∧
      truncated.nextOffset = newEndOffset := by
  unfold truncateTo
  rw [if_neg (by omega), if_neg (by omega)]
  split
  next unchanged => exact ⟨_, rfl, ⟨rfl, rfl, rfl⟩, unchanged.symm⟩
  next =>
    refine ⟨_, rfl, ⟨rfl, rfl, rfl⟩, ?_⟩
    unfold nextOffset at upper ⊢
    dsimp only
    rw [recordTotal_takeRecords]
    omega

end IdealSegment

end TorrentMq.Storage
