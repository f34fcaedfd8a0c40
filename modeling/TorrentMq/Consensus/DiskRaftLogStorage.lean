import TorrentMq.Consensus.DiskRaftLogProperties

/-! Within a session every indexed entry lies in a frame that is stored in
full, and frames lie in the order of the entries. -/

set_option autoImplicit false

namespace TorrentMq.Consensus

open Bytes OrderedMap

/-- A call as its callers make it: a batch is numbered behind a previous entry
and its numbers are in range. -/
def DiskLogCall.WellFormed : DiskLogCall → Prop
  | .append previous _ entries =>
    0 ≤ previous ∧ Numbered previous entries ∧ ∀ entry ∈ entries, entry.InRange
  | _ => True

instance : (call : DiskLogCall) → Decidable call.WellFormed
  | .append _ _ _ => inferInstanceAs (Decidable (_ ∧ _ ∧ _))
  | .truncateSuffix _ | .truncatePrefix _ | .applySnapshot _ => .isTrue trivial

namespace DiskRaftLog

/-- The batch of an indexed entry, stored in full at its offset. -/
structure FrameAt (data : Bytes) (indexed : Int × IndexEntry) (batch : List LogEntry) : Prop where
  writable : Writable batch
  numbered : ∃ previous, Numbered previous batch
  member : ∃ entry ∈ batch, entry.index = indexed.1
  stored : frame batch <+: data.drop indexed.2.offset
  length : indexed.2.batchLength = (frame batch).length

variable {data : Bytes} {indexed : Int × IndexEntry} {batch : List LogEntry}

section

variable (found : FrameAt data indexed batch)
include found

theorem FrameAt.end_le : indexed.2.offset + indexed.2.batchLength ≤ data.length := by
  have inside := found.stored.length_le
  rw [← found.length, List.length_drop] at inside
  have positive : 0 < indexed.2.batchLength := by
    rw [found.length, length_frame]
    omega
  omega

theorem FrameAt.append (more : Bytes) : FrameAt (data ++ more) indexed batch :=
  { found with stored := stored_append found.stored more }

theorem FrameAt.ftruncate {size : Nat} (inside : indexed.2.offset + indexed.2.batchLength ≤ size) :
    FrameAt (Bytes.ftruncate data size) indexed batch :=
  { found with stored := stored_ftruncate found.stored (by rw [← found.length]; exact inside) }

theorem FrameAt.readBatch :
    Consensus.readBatch data indexed.2.offset = if batch.length ≤ kMaxBatchEntries then batch else [] :=
  readBatch_of_stored found.writable found.stored

end

/-- An index whose entries all lie in stored frames, in their order. -/
structure Backed (index : OrderedMap Int IndexEntry) (data : Bytes) : Prop where
  frames : ∀ indexed ∈ index.entries, ∃ batch, FrameAt data indexed batch
  ordered : index.entries.Pairwise fun left right =>
    left.2.offset + left.2.batchLength ≤ right.2.offset + right.2.batchLength

theorem Backed.empty (data : Bytes) : Backed .empty data where
  frames := nofun
  ordered := .nil

theorem Backed.filter {index : OrderedMap Int IndexEntry} {data : Bytes} (backed : Backed index data)
    (keep : Int → Bool) : Backed (index.filter keep) data where
  frames indexed member := backed.frames indexed (mem_filter.mp member).1
  ordered := backed.ordered.filter _

def frontier (index : OrderedMap Int IndexEntry) : Nat :=
  (index.last?.map fun last => last.2.offset + last.2.batchLength).getD 0

variable {index : OrderedMap Int IndexEntry}

theorem Backed.end_le_frontier (backed : Backed index data) (member : indexed ∈ index.entries) :
    indexed.2.offset + indexed.2.batchLength ≤ frontier index := by
  cases last : index.last? with
  | none =>
    rw [OrderedMap.last?, List.getLast?_eq_none_iff] at last
    rw [last] at member
    cases member
  | some final =>
    obtain ⟨front, split⟩ := List.getLast?_eq_some_iff.mp last
    simp only [frontier, last, Option.map_some, Option.getD_some]
    have ordered := backed.ordered
    rw [split] at member ordered
    rcases List.mem_append.mp member with earlier | same
    · exact (List.pairwise_append.mp ordered).2.2 indexed earlier final (by simp)
    · rw [List.mem_singleton.mp same]

theorem Backed.ftruncate (backed : Backed index data) : Backed index (Bytes.ftruncate data (frontier index)) where
  frames indexed member := by
    obtain ⟨batch, found⟩ := backed.frames indexed member
    exact ⟨batch, found.ftruncate (backed.end_le_frontier member)⟩
  ordered := backed.ordered

variable {previous : Int} {entries : List LogEntry}

theorem indexBatch_entries {offset length : Nat} (numbered : Numbered previous entries)
    (below : ∀ key ∈ index.keys, key ≤ previous) :
    (indexBatch index offset length entries).entries = index.entries ++ entries.map fun entry =>
      (entry.index, { index := entry.index, offset := offset, term := entry.term, batchLength := length }) := by
  induction entries generalizing index previous with
  | nil => simp [indexBatch]
  | cons entry entries ih =>
    obtain ⟨head, tail⟩ := Numbered.cons_iff.mp numbered
    have above : ∀ stored ∈ index.entries, stored.1 < entry.index := by
      intro stored member
      have := below stored.1 (mem_keys.mpr ⟨stored.2, member⟩)
      omega
    have inserted : ∀ key ∈ (index.insert entry.index ⟨entry.index, offset, entry.term, length⟩).keys,
        key ≤ previous + 1 := by
      intro key member
      rcases mem_keys_insert.mp member with rfl | old
      · omega
      · have := below key old
        omega
    change (indexBatch (index.insert entry.index _) offset length entries).entries = _
    rw [ih tail inserted, insert_of_above above, List.map_cons, List.append_assoc]
    rfl

theorem Backed.indexBatch (backed : Backed index data) (writable : Writable entries)
    (numbered : Numbered previous entries) (below : ∀ key ∈ index.keys, key ≤ previous) :
    Backed (indexBatch index data.length (frame entries).length entries) (data ++ frame entries) where
  frames := by
    intro indexed member
    rw [indexBatch_entries numbered below] at member
    rcases List.mem_append.mp member with old | new
    · obtain ⟨batch, found⟩ := backed.frames indexed old
      exact ⟨batch, found.append (frame entries)⟩
    · obtain ⟨entry, inside, rfl⟩ := List.mem_map.mp new
      exact ⟨entries, writable, ⟨previous, numbered⟩, ⟨entry, inside, rfl⟩, by simp, rfl⟩
  ordered := by
    rw [indexBatch_entries numbered below, List.pairwise_append]
    refine ⟨backed.ordered, ?_, ?_⟩
    · rw [List.pairwise_map]
      exact List.pairwise_of_forall fun _ _ => Nat.le_refl _
    · intro old member new inside
      obtain ⟨entry, -, rfl⟩ := List.mem_map.mp inside
      obtain ⟨batch, found⟩ := backed.frames old member
      exact found.end_le.trans (Nat.le_add_right _ _)

structure Sound (log : DiskRaftLog) : Prop where
  size : log.dataFileSize = log.files.data.length
  bounded : ∀ key ∈ log.index.keys, 0 < key ∧ key ≤ log.lastIndex
  backed : Backed log.index log.files.data

@[simp] theorem length_ftruncate (data : Bytes) (size : Nat) : (Bytes.ftruncate data size).length = size := by
  simp only [Bytes.ftruncate, List.length_append, List.length_take, List.length_replicate]
  omega

variable {log : DiskRaftLog}

section

variable (sound : log.Sound)
include sound

theorem Sound.truncateSuffixLocked (fromIndex : Int) : (log.truncateSuffixLocked fromIndex).Sound ∧
      ∀ key ∈ (log.truncateSuffixLocked fromIndex).index.keys, key < fromIndex := by
  unfold DiskRaftLog.truncateSuffixLocked
  split
  · exact ⟨⟨rfl, fun _ member => absurd member mem_keys_empty, .empty _⟩,
      fun _ member => absurd member mem_keys_empty⟩
  · have kept : ∀ key ∈ (log.index.filter fun key => decide (key < fromIndex)).keys, 0 < key ∧ key < fromIndex := by
      intro key member
      obtain ⟨old, below⟩ := mem_keys_filter.mp member
      exact ⟨(sound.bounded key old).1, of_decide_eq_true below⟩
    refine ⟨⟨(length_ftruncate _ _).symm, ?_, ?_⟩, ?_⟩
    · intro key member
      have := kept key member
      dsimp only [writeMeta]
      omega
    · exact (sound.backed.filter fun key => decide (key < fromIndex)).ftruncate
    · exact fun key member => (kept key member).2

theorem Sound.cutBehind (previous : Int) :
    (log.cutBehind previous).Sound ∧ ∀ key ∈ (log.cutBehind previous).index.keys, key ≤ previous := by
  unfold DiskRaftLog.cutBehind
  split
  · obtain ⟨kept, below⟩ := sound.truncateSuffixLocked (previous + 1)
    exact ⟨kept, fun key member => Int.lt_add_one_iff.mp (below key member)⟩
  · refine ⟨sound, fun key member => ?_⟩
    have := (sound.bounded key member).2
    omega

theorem Sound.writeBatch {first : LogEntry}
    {rest : List LogEntry} (nonneg : 0 ≤ previous) (writable : Writable (first :: rest))
    (numbered : Numbered previous (first :: rest)) (below : ∀ key ∈ log.index.keys, key ≤ previous) :
    (log.writeBatch first rest).Sound where
  size := by
    simp only [DiskRaftLog.writeBatch, List.length_append, sound.size]
  bounded := by
    intro key member
    have last := numbered.index_getLast (List.cons_ne_nil first rest)
    dsimp only [DiskRaftLog.writeBatch] at member ⊢
    rw [last]
    rcases (mem_keys_indexBatch_of_numbered numbered).mp member with old | new
    · have := sound.bounded key old
      have := below key old
      omega
    · omega
  backed := by
    dsimp only [DiskRaftLog.writeBatch]
    rw [sound.size]
    exact sound.backed.indexBatch writable numbered below

theorem Sound.append {previous previousTerm : Int}
    (wellFormed : (DiskLogCall.append previous previousTerm entries).WellFormed) :
    (log.append none previous previousTerm entries).1.Sound := by
  obtain ⟨nonneg, numbered, inRange⟩ := wellFormed
  obtain ⟨cut, below⟩ := sound.cutBehind previous
  rcases append_cases log previous previousTerm entries with same | ⟨first, rest, rfl, -, only | ⟨fits, written⟩⟩
  · rwa [same]
  · rwa [only]
  · rw [written]
    exact cut.writeBatch nonneg ⟨inRange, fits⟩ numbered below

theorem Sound.truncatePrefix (firstIndex : Int) : (log.truncatePrefix firstIndex).Sound := by
  unfold DiskRaftLog.truncatePrefix
  split
  · exact sound
  · refine ⟨sound.size, ?_, sound.backed.filter fun key => decide (firstIndex ≤ key)⟩
    intro key member
    have := sound.bounded key (mem_keys_filter.mp member).1
    dsimp only [writeMeta]
    split <;> omega

theorem Sound.applySnapshot (snapshot : RaftSnapshot) : (log.applySnapshot snapshot).Sound := by
  unfold DiskRaftLog.applySnapshot
  split
  · exact sound
  · dsimp only
    split
    next empty =>
      have none := isEmpty_entries_iff.mp empty
      refine ⟨rfl, fun key member => absurd member (none key), ?_, ?_⟩
      · intro indexed member
        exact absurd (mem_keys.mpr ⟨indexed.2, member⟩) (none indexed.1)
      · exact (sound.backed.filter _).ordered
    next some =>
      refine ⟨sound.size, ?_, sound.backed.filter fun key => decide (snapshot.lastIncludedIndex < key)⟩
      intro key member
      have := sound.bounded key (mem_keys_filter.mp member).1
      dsimp only [writeMeta]
      exact this

theorem Sound.step {call : DiskLogCall} (wellFormed : call.WellFormed) : (log.step call).Sound := by
  cases call with
  | append => exact sound.append wellFormed
  | truncateSuffix fromIndex => exact (sound.truncateSuffixLocked fromIndex).1
  | truncatePrefix firstIndex => exact sound.truncatePrefix firstIndex
  | applySnapshot snapshot => exact sound.applySnapshot snapshot

end

theorem fresh_sound : fresh.Sound where
  size := rfl
  bounded := fun _ member => absurd member mem_keys_empty
  backed := .empty _

theorem run_sound {calls : List DiskLogCall} (wellFormed : ∀ call ∈ calls, call.WellFormed) :
    (fresh.run calls).Sound :=
  (Runs.meets_of_forall wellFormed fresh).preserves Sound (fun _ _ condition sound => sound.step condition)
    fresh_sound

end DiskRaftLog

end TorrentMq.Consensus
