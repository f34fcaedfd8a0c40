import TorrentMq.Runs.Basic
import TorrentMq.Storage.SegmentLayout

/-! What reading a segment gives back of the batches that were appended to it. -/

set_option autoImplicit false

namespace TorrentMq.Storage

open Bytes List Segment

namespace Placed

def blen (placed : Placed) : Nat := 4 + 1 + 4 + placed.2.serializeBody.length

theorem length_block (placed : Placed) : placed.block.length = 12 + placed.blen := by
  rw [block, RecordBatch.length_assignOffset, blen]
  omega

theorem block_eq (placed : Placed) : ∃ rest, placed.block =
    encodeInt 8 placed.1 ++ (encodeInt 4 (placed.blen : Int) ++ rest) := by
  rw [block, RecordBatch.assignOffset_serializeBatch, RecordBatch.front, append_assoc, append_assoc]
  exact ⟨_, rfl⟩

variable (placed : Placed) (before after : Bytes)

theorem pread_offset : pread (before ++ (placed.block ++ after)) before.length 8 = encodeInt 8 placed.1 := by
  obtain ⟨rest, split⟩ := placed.block_eq
  have field := pread_append_right before (placed.block ++ after) 0 8
  have front := pread_left (encodeInt 8 placed.1) (encodeInt 4 (placed.blen : Int) ++ rest ++ after)
  rw [length_encodeInt] at front
  rw [Nat.add_zero] at field
  rw [field, split, append_assoc, front]

theorem pread_blen :
    pread (before ++ (placed.block ++ after)) (before.length + 8) 4 = encodeInt 4 (placed.blen : Int) := by
  obtain ⟨rest, split⟩ := placed.block_eq
  have field := pread_append_right (encodeInt 8 placed.1) (encodeInt 4 (placed.blen : Int) ++ (rest ++ after)) 0 4
  have front := pread_left (encodeInt 4 (placed.blen : Int)) (rest ++ after)
  rw [length_encodeInt] at field front
  rw [pread_append_right, split, append_assoc, append_assoc]
  exact field.trans front

theorem pread_block : pread (before ++ (placed.block ++ after)) before.length (12 + placed.blen) = placed.block := by
  have whole := pread_append_right before (placed.block ++ after) 0 (12 + placed.blen)
  rw [Nat.add_zero] at whole
  rw [whole, ← length_block, pread_left]

end Placed

namespace RecordBatch

def misreadCount (batch : RecordBatch) : Int := decodeInt 4 (pread batch.serializeBody (12 + 57 - 21) 4)

@[mk_iff]
structure Survives (batch : RecordBatch) : Prop where
  restorable : batch.Restorable
  delta : batch.DeltaAgrees
  counted : 1 ≤ batch.misreadCount
  skipped : batch.misreadCount ≤ batch.records.length

instance (batch : RecordBatch) : Decidable batch.Survives := decidable_of_iff _ batch.survives_iff.symm

theorem pread_count (batch : RecordBatch) (offset : Int) :
    decodeInt 4 (pread (assignOffset offset batch.serializeBatch) (12 + 57) 4) = batch.misreadCount := by
  have front : (batch.front offset ++ encode 4 batch.storedCrc.toNat).length = 21 := by simp
  have field := pread_append_right (batch.front offset ++ encode 4 batch.storedCrc.toNat) batch.serializeBody
    (12 + 57 - 21) 4
  rw [front] at field
  rw [assignOffset_serializeBatch, ← append_assoc, misreadCount, ← field]

theorem le_length_serializeRecords (batch : RecordBatch) {records : List Record} (some : records ≠ []) (i : Nat) :
    17 ≤ (batch.serializeRecords i records).length := by
  cases records with
  | nil => exact absurd rfl some
  | cons record records =>
    rw [serializeRecords, serializeRecord]
    simp only [length_append, length_cons, length_encodeInt, length_writeBlock]
    omega

variable {batch : RecordBatch}

theorem Survives.nonempty (survives : batch.Survives) : batch.records ≠ [] := by
  intro none
  have counted := survives.counted
  have skipped := survives.skipped
  rw [none, length_nil] at skipped
  omega

theorem Survives.le_length_serializeBody (survives : batch.Survives) : 57 ≤ batch.serializeBody.length := by
  have records := batch.le_length_serializeRecords survives.nonempty 0
  rw [serializeBody_eq survives.restorable.count]
  simp only [length_append, length_encodeInt]
  omega

theorem Survives.sane (survives : batch.Survives) : ¬(batch.misreadCount < 0 ∨ 1000000 < batch.misreadCount) := by
  have count := survives.restorable.count
  have counted := survives.counted
  have skipped := survives.skipped
  omega

end RecordBatch

namespace Segment

theorem Placed.decode_blen {placed : Placed} (small : 4 + 1 + 4 + placed.2.serializeBody.length ≤ kMaxBatchBytes) :
    decodeInt 4 (encodeInt 4 (placed.blen : Int)) = placed.blen := by
  have blen : placed.blen = 4 + 1 + 4 + placed.2.serializeBody.length := rfl
  rw [kMaxBatchBytes] at small
  exact decodeInt_encodeInt (fitsInt_of_length (by omega))

/-!
## Reads
-/

variable {segment : Segment}

variable {before : Bytes}

section

variable {after : Bytes} {placed : Placed} (data : segment.data = before ++ (placed.block ++ after))

include data

theorem readStep_block
    (inside : before.length + placed.block.length ≤ segment.fileSize) (survives : placed.2.Survives)
    (fits : FitsInt 8 placed.1) (startOffset : Int) :
    segment.readStep startOffset before.length =
      if placed.1 + placed.2.misreadCount ≤ startOffset then .skip placed.block.length
      else .take (placed.2.restored placed.1) placed.block.length (placed.1 + placed.2.misreadCount) := by
  have long := survives.le_length_serializeBody
  have small := survives.restorable.size
  have length := placed.length_block
  have blen : placed.blen = 4 + 1 + 4 + placed.2.serializeBody.length := rfl
  have decoded := Placed.decode_blen small
  have offset : decodeInt 8 (encodeInt 8 placed.1) = placed.1 := decodeInt_encodeInt fits
  have misread : decodeInt 4 (pread placed.block (12 + 57) 4) = placed.2.misreadCount :=
    placed.2.pread_count placed.1
  have restored : deserializeBatch placed.block = .ok (placed.2.restored placed.1) :=
    RecordBatch.deserializeBatch_assignOffset survives.restorable fits
  unfold readStep
  rw [if_neg (by omega), data, Placed.pread_offset, Placed.pread_blen, offset, decoded]
  dsimp only
  rw [Int.toNat_natCast, if_neg (by omega), if_neg (by omega), if_neg (by omega),
    Placed.pread_block, misread, if_neg survives.sane, restored, length]

theorem readStep_insane
    (small : 4 + 1 + 4 + placed.2.serializeBody.length ≤ kMaxBatchBytes)
    (insane : placed.2.misreadCount < 0 ∨ 1000000 < placed.2.misreadCount) (startOffset : Int) :
    segment.readStep startOffset before.length = .stop := by
  have decoded := Placed.decode_blen small
  have misread : decodeInt 4 (pread placed.block (12 + 57) 4) = placed.2.misreadCount :=
    placed.2.pread_count placed.1
  unfold readStep
  rw [data, Placed.pread_blen, decoded]
  dsimp only
  rw [Int.toNat_natCast, Placed.pread_block, misread, if_pos insane, ite_self, ite_self, ite_self, ite_self]

end

variable {scanPos : Nat}

theorem readStep_end (last : segment.fileSize ≤ scanPos) (startOffset : Int) :
    segment.readStep startOffset scanPos = .stop := by
  rw [readStep, if_pos (by omega)]

variable {placed : List Placed}

theorem readLoop_rest {zeros : Bytes}
    (data : segment.data = before ++ (blocks placed ++ zeros))
    (size : segment.fileSize = before.length + (blocks placed).length)
    (survive : ∀ one ∈ placed, one.2.Survives ∧ FitsInt 8 one.1) (startOffset maxBytes : Int) (fuel : Nat)
    {result : SegmentReadResult} {first : RecordBatch} (head : result.batches.head? = some first) :
    ∃ final, segment.readLoop startOffset maxBytes fuel before.length result = .ok final ∧
      final.batches.head? = some first := by
  induction placed generalizing before fuel result with
  | nil =>
    cases fuel with
    | zero => exact ⟨result, rfl, head⟩
    | succ fuel =>
      rw [blocks_nil, length_nil] at size
      rw [readLoop, readStep_end (by omega)]
      exact ⟨result, rfl, head⟩
  | cons one placed ih =>
    cases fuel with
    | zero => exact ⟨result, rfl, head⟩
    | succ fuel =>
      rw [blocks_cons, append_assoc] at data
      rw [blocks_cons, length_append] at size
      obtain ⟨survives, fits⟩ := survive one mem_cons_self
      have rest := fun {result : SegmentReadResult} (head : result.batches.head? = some first) =>
        @ih (before ++ one.block) (by rw [data, append_assoc]) (by rw [size, length_append, Nat.add_assoc])
          (fun other member => survive other (mem_cons_of_mem one member)) fuel result head
      rw [length_append] at rest
      rw [readLoop, readStep_block data (by omega) survives fits]
      by_cases skip : one.1 + one.2.misreadCount ≤ startOffset
      · rw [if_pos skip]
        exact rest head
      · rw [if_neg skip]
        have kept : (result.batches ++ [one.2.restored one.1]).head? = some first := by
          rw [head?_append, head]
          rfl
        dsimp only
        split
        · exact ⟨_, rfl, kept⟩
        · exact rest kept

variable {target : Placed}

theorem readLoop_seek {zeros : Bytes}
    (data : segment.data = before ++ (blocks placed ++ zeros))
    (size : segment.fileSize = before.length + (blocks placed).length)
    (survive : ∀ one ∈ placed, one.2.Survives ∧ FitsInt 8 one.1)
    (follow : placed.Pairwise fun earlier later => earlier.1 + (earlier.2.records.length : Int) ≤ later.1)
    (member : target ∈ placed) (maxBytes : Int) {fuel : Nat} (enough : placed.length ≤ fuel)
    {result : SegmentReadResult} (none : result.batches = []) :
    ∃ final, segment.readLoop target.1 maxBytes fuel before.length result = .ok final ∧
      final.batches.head? = some (target.2.restored target.1) := by
  induction placed generalizing before fuel result with
  | nil => cases member
  | cons one placed ih =>
    obtain ⟨fuel, rfl⟩ : ∃ rounds, fuel = rounds + 1 := ⟨fuel - 1, by rw [length_cons] at enough; omega⟩
    rw [blocks_cons, append_assoc] at data
    rw [blocks_cons, length_append] at size
    have later : ∀ other ∈ placed, other.2.Survives ∧ FitsInt 8 other.1 :=
      fun other member => survive other (mem_cons_of_mem one member)
    have data' : segment.data = (before ++ one.block) ++ (blocks placed ++ zeros) := by
      rw [data, append_assoc]
    have size' : segment.fileSize = (before ++ one.block).length + (blocks placed).length := by
      rw [size, length_append, Nat.add_assoc]
    obtain ⟨survives, fits⟩ := survive one mem_cons_self
    rw [readLoop, readStep_block data (by omega) survives fits]
    cases member with
    | head =>
      have counted := survives.counted
      rw [if_neg (by omega), none]
      dsimp only
      split
      · exact ⟨_, rfl, rfl⟩
      · rw [← length_append]
        exact readLoop_rest data' size' later _ _ _ rfl
    | tail _ member =>
      have skipped := survives.skipped
      have behind := (pairwise_cons.mp follow).1 target member
      rw [if_pos (by omega)]
      dsimp only
      rw [← length_append]
      exact ih data' size' later (pairwise_cons.mp follow).2 member
        (by rw [length_cons] at enough; omega) none

variable {front : Bytes}

section

variable {zeros : Nat} (written : Written front zeros placed segment)

include written

theorem Written.findPosition_last {startOffset : Int}
    (reached : ∃ first ∈ placed.head?, first.1 ≤ startOffset) :
    ∃ before batch after last, placed = before ++ (last.offset, batch) :: after ∧
      (segment.sparseIndex.takeWhile fun entry => decide (entry.offset ≤ startOffset)).getLast? = some last ∧
      segment.findPosition startOffset = some (front.length + (blocks before).length) := by
  obtain ⟨entry, entries, index, small⟩ : ∃ entry entries, segment.sparseIndex = entry :: entries ∧
      entry.offset ≤ startOffset := by
    obtain ⟨first, head, small⟩ := reached
    have indexed := written.first
    cases placed with
    | nil => cases head
    | cons one placed =>
      cases head
      cases index : segment.sparseIndex with
      | nil =>
        rw [index] at indexed
        cases indexed
      | cons entry entries =>
        rw [index] at indexed
        have same : entry.offset = first.1 := congrArg Prod.fst (Option.some.inj indexed)
        exact ⟨entry, entries, rfl, by omega⟩
  obtain ⟨last, found⟩ : ∃ last, (segment.sparseIndex.takeWhile fun entry =>
      decide (entry.offset ≤ startOffset)).getLast? = some last := by
    rw [index, takeWhile_cons, decide_eq_true small, if_pos rfl]
    exact ⟨_, getLast?_eq_some_getLast (cons_ne_nil _ _)⟩
  obtain ⟨before, batch, after, split, position⟩ :=
    written.mem ((takeWhile_sublist _).subset (mem_of_getLast? found))
  refine ⟨before, batch, after, last, split, found, ?_⟩
  have some : segment.sparseIndex.isEmpty = false := by rw [index]; rfl
  rw [findPosition, some, if_neg (by decide), found]
  exact congrArg Option.some position

theorem Written.findPosition
    (ascending : placed.Pairwise fun earlier later => earlier.1 < later.1) (member : target ∈ placed) :
    ∃ before after, placed = before ++ after ∧ target ∈ after ∧
      segment.findPosition target.1 = some (front.length + (blocks before).length) := by
  have reached : ∃ first ∈ placed.head?, first.1 ≤ target.1 := by
    cases placed with
    | nil => cases member
    | cons one placed =>
      refine ⟨one, rfl, ?_⟩
      cases member with
      | head => exact Int.le_refl _
      | tail _ member => exact ((pairwise_cons.mp ascending).1 target member).le
  obtain ⟨before, batch, after, last, split, found, position⟩ := written.findPosition_last reached
  have holds := mem_takeWhile_imp (mem_of_getLast? found)
  have below : last.offset ≤ target.1 := of_decide_eq_true holds
  refine ⟨before, (last.offset, batch) :: after, split, ?_, position⟩
  rw [split] at member ascending
  cases mem_append.mp member with
  | inl early =>
    have above := (pairwise_append.mp ascending).2.2 target early _ mem_cons_self
    exact absurd below (by omega)
  | inr late => exact late

end

theorem length_le_blocks (placed : List Placed) : placed.length ≤ (blocks placed).length := by
  induction placed with
  | nil => exact le_rfl
  | cons one placed ih =>
    have length := one.length_block
    rw [length_cons, blocks_cons, length_append]
    omega

variable {header : SegmentHeader}

variable {batches : List RecordBatch}

theorem Laid.open_state (laid : Laid front header batches segment) :
    ¬(segment.state = .uninitialized ∨ segment.state = .closed) ∧ segment.state ≠ .corrupted := by
  cases laid.state with
  | inl active =>
    rw [active]
    decide
  | inr only =>
    rw [only]
    decide

theorem read_of_position {startOffset maxBytes : Int}
    (opened : ¬(segment.state = .uninitialized ∨ segment.state = .closed) ∧ segment.state ≠ .corrupted)
    (above : segment.header.baseOffset ≤ startOffset) (below : startOffset < segment.nextOffset)
    (position : segment.findPosition startOffset = some scanPos) :
    segment.read startOffset maxBytes = (do
      let result ← segment.readLoop startOffset maxBytes segment.fileSize scanPos { nextOffset := startOffset }
      return if result.batches.isEmpty then { result with nextOffset := segment.nextOffset } else result) := by
  rw [read, if_neg opened.1, if_neg opened.2, if_neg (by omega), if_neg (by omega), position]

theorem Laid.read (laid : Laid front header batches segment)
    (survive : ∀ batch ∈ batches, batch.Survives) (lower : 0 ≤ header.baseOffset) (upper : segment.nextOffset < 2 ^ 63)
    (member : target ∈ assignOffsets header.baseOffset batches) (maxBytes : Int) :
    ∃ result first, segment.read target.1 maxBytes = .ok result ∧ result.batches.head? = some first ∧
      first.RestoredFrom target.2 target.1 := by
  obtain ⟨zeros, written⟩ := laid.written
  obtain ⟨before, after, split, inside, position⟩ :=
    written.findPosition (pairwise_lt_assignOffsets laid.nonempty) member
  have all : ∀ one ∈ after, one.2.Survives ∧ FitsInt 8 one.1 := by
    intro one late
    have among : one ∈ assignOffsets header.baseOffset batches := by rw [split]; exact mem_append_right before late
    obtain ⟨above, -, batch⟩ := assignOffsets_bounds among
    have below := laid.below_nextOffset among
    refine ⟨survive one.2 batch, ?_⟩
    unfold FitsInt
    omega
  have data : segment.data = (front ++ blocks before) ++ (blocks after ++ List.replicate zeros 0) := by
    rw [written.data, split, blocks_append, append_assoc, append_assoc]
  have size : segment.fileSize = (front ++ blocks before).length + (blocks after).length := by
    rw [laid.fileSize, split, blocks_append, length_append, length_append, Nat.add_assoc]
  have follow := pairwise_assignOffsets header.baseOffset batches
  rw [split] at follow
  have rounds := length_le_blocks after
  obtain ⟨final, loop, head⟩ := readLoop_seek data size all (pairwise_append.mp follow).2.1 inside maxBytes
    (show after.length ≤ segment.fileSize by omega)
    (show (SegmentReadResult.mk [] 0 target.1 false).batches = [] from rfl)
  obtain ⟨above, -, batch⟩ := assignOffsets_bounds member
  have below := laid.below_nextOffset member
  have survives := survive target.2 batch
  refine ⟨final, _, ?_, head, RecordBatch.restoredFrom_restored survives.restorable survives.delta target.1⟩
  have some : final.batches.isEmpty = false := by
    cases batches : final.batches with
    | nil =>
      rw [batches] at head
      cases head
    | cons first rest => rfl
  rw [← length_append] at position
  rw [read_of_position laid.open_state (laid.sameHeader ▸ above) below position, loop]
  change Except.ok (if final.batches.isEmpty then _ else final) = _
  rw [some]
  rfl

theorem Laid.read_insane {batch : RecordBatch}
    (laid : Laid front header [batch] segment) (small : 4 + 1 + 4 + batch.serializeBody.length ≤ kMaxBatchBytes)
    (insane : batch.misreadCount < 0 ∨ 1000000 < batch.misreadCount) (maxBytes : Int) :
    ∃ result, segment.read header.baseOffset maxBytes = .ok result ∧ result.batches = [] := by
  obtain ⟨zeros, written⟩ := laid.written
  have member : (header.baseOffset, batch) ∈ assignOffsets header.baseOffset [batch] := mem_cons_self
  obtain ⟨before, after, split, inside, position⟩ :=
    written.findPosition (pairwise_lt_assignOffsets laid.nonempty) member
  have early : before = [] := by
    cases before with
    | nil => rfl
    | cons one before =>
      rw [cons_append] at split
      injection split with _ rest
      rw [(append_eq_nil_iff.mp rest.symm).2] at inside
      cases inside
  rw [early, blocks_nil, length_nil, Nat.add_zero] at position
  have data : segment.data = front ++ (Placed.block (header.baseOffset, batch) ++ List.replicate zeros 0) := by
    rw [written.data, assignOffsets, assignOffsets, blocks_cons, blocks_nil, append_nil]
  have stop := readStep_insane data small insane header.baseOffset
  have below := laid.below_nextOffset member
  rw [read_of_position laid.open_state (congrArg SegmentHeader.baseOffset laid.sameHeader).le below position]
  cases segment.fileSize with
  | zero => exact ⟨_, rfl, rfl⟩
  | succ fuel =>
    rw [readLoop, stop]
    exact ⟨_, rfl, rfl⟩

/-!
## Fresh segments
-/

theorem decode_zeros (count : Nat) : decode (List.replicate count 0) = 0 := by
  induction count with
  | zero => rfl
  | succ count ih =>
    rw [replicate_succ, decode, ih]
    rfl

theorem decodeInt_zeros (width count : Nat) : decodeInt width (List.replicate count 0) = 0 := by
  rw [decodeInt, decode_zeros]
  exact Int.zero_bmod

theorem pread_zeros (count offset length : Nat) :
    ∃ rest, pread (List.replicate count 0) offset length = List.replicate rest 0 := by
  rw [pread, drop_replicate, take_replicate]
  exact ⟨_, rfl⟩

theorem scanBatches_zeros (before : Bytes) (zeros fileSize fuel : Nat) :
    scanBatches (before ++ List.replicate zeros 0) fileSize fuel before.length = [] := by
  cases fuel with
  | zero => rfl
  | succ fuel =>
    obtain ⟨rest, field⟩ := pread_zeros zeros 8 4
    rw [scanBatches, pread_append_right, field, decodeInt_zeros]
    split
    · rfl
    · exact if_pos (.inl le_rfl)

theorem length_covered (header : SegmentHeader) : header.covered.length = 48 := by
  simp [SegmentHeader.covered]

theorem length_writeHeader (header : SegmentHeader) : header.writeHeader.length = 64 := by
  simp [SegmentHeader.writeHeader, length_covered]

theorem sameStore_flushIndex (segment : Segment) : SameStore segment segment.flushIndex := by
  unfold flushIndex
  split <;> exact ⟨rfl, rfl, rfl, rfl, rfl, rfl⟩

theorem sparseIndex_flushIndex (segment : Segment) : segment.flushIndex.sparseIndex = segment.sparseIndex := by
  unfold flushIndex
  split <;> rfl

theorem rebuildIndex_of_empty (none : segment.forwardScan = []) :
    SameStore segment segment.rebuildIndex ∧ segment.rebuildIndex.sparseIndex = [] := by
  unfold rebuildIndex
  split
  · exact ⟨⟨rfl, rfl, rfl, rfl, rfl, rfl⟩, rfl⟩
  · rw [none]
    have flushed := sameStore_flushIndex
      { segment with
        sparseIndex := []
        indexDirty := true
        maxTimestamp := if (0 : Int64) < 0 then 0 else segment.maxTimestamp }
    exact ⟨⟨flushed.config, flushed.header, flushed.state, flushed.fileSize, flushed.nextOffset, flushed.file⟩,
      sparseIndex_flushIndex _⟩

theorem SameStore.forwardScan {segment updated : Segment} (same : SameStore segment updated) :
    updated.forwardScan = segment.forwardScan := by
  rw [Segment.forwardScan, same.data, same.fileSize, Segment.forwardScan]

theorem SameStore.trans {segment updated further : Segment} (first : SameStore segment updated)
    (second : SameStore updated further) : SameStore segment further where
  config := second.config.trans first.config
  header := second.header.trans first.header
  state := second.state.trans first.state
  fileSize := second.fileSize.trans first.fileSize
  nextOffset := second.nextOffset.trans first.nextOffset
  file := second.file.trans first.file

theorem restoreNextOffset_of_empty (empty : segment.sparseIndex = [])
    (offset : segment.nextOffset = segment.header.baseOffset) : SameStore segment segment.restoreNextOffset ∧
      segment.restoreNextOffset.sparseIndex = [] := by
  unfold restoreNextOffset
  split
  · exact ⟨⟨rfl, rfl, rfl, rfl, offset.symm, rfl⟩, empty⟩
  · rw [empty]
    exact ⟨⟨rfl, rfl, rfl, rfl, rfl, rfl⟩, empty⟩

theorem prepareIndex_of_empty {sized : Segment} (none : sized.forwardScan = []) (index : sized.indexFile = Option.none) :
    SameStore sized sized.prepareIndex ∧ sized.prepareIndex.sparseIndex = [] := by
  have loaded : sized.loadIndex = sized.rebuildIndex := by rw [loadIndex, index]
  obtain ⟨first, empty⟩ := rebuildIndex_of_empty none
  obtain ⟨second, still⟩ := rebuildIndex_of_empty (first.forwardScan.trans none)
  rw [prepareIndex, loaded]
  split
  · exact ⟨first.trans second, still⟩
  · exact ⟨first, empty⟩

theorem state_openPrepared (prepared : Segment) :
    prepared.openPrepared.state = .active ∨ prepared.openPrepared.state = .sealed := by
  have choice : ∀ only : Bool, (if only then SegmentState.sealed else .active) = .active ∨
      (if only then SegmentState.sealed else .active) = .sealed := by decide
  exact choice _

theorem laid_openPrepared {prepared : Segment}
    (none : forwardScan { prepared with fileSize := prepared.data.length } = [])
    (index : prepared.indexFile = Option.none) (offset : prepared.nextOffset = prepared.header.baseOffset) :
    Laid prepared.data prepared.header [] prepared.openPrepared := by
  obtain ⟨loaded, empty⟩ := prepareIndex_of_empty none index
  obtain ⟨restored, still⟩ := restoreNextOffset_of_empty empty
    (by rw [loaded.nextOffset, loaded.header]; exact offset)
  have same := loaded.trans restored
  have data : prepared.openPrepared.data = prepared.data := same.data
  constructor
  · exact ⟨0, data.trans (append_nil _).symm, by rw [openPrepared, still]; exact List.Sublist.slnil,
      by rw [openPrepared, still]; rfl⟩
  · exact same.header
  · exact state_openPrepared prepared
  · exact same.fileSize
  · exact (same.nextOffset.trans offset).trans (Int.add_zero _).symm
  · left
    rw [data]
    exact same.fileSize.symm
  · intro batch member
    cases member

theorem scanBatches_short {file : Bytes} {fileSize : Nat} (short : fileSize < scanPos + 12)
    (fuel : Nat) : scanBatches file fileSize fuel scanPos = [] := by
  cases fuel with
  | zero => rfl
  | succ fuel => rw [scanBatches, if_pos short]

theorem scanBatches_header (header : SegmentHeader) (preallocate : Bool) (size fuel : Nat) :
    let file := if preallocate then ftruncate header.writeHeader size else header.writeHeader
    scanBatches file file.length fuel kSegmentHeaderSize = [] := by
  have header_length := length_writeHeader header
  cases preallocate with
  | false => exact scanBatches_short (by rw [if_neg (by decide), header_length, kSegmentHeaderSize]; omega) fuel
  | true =>
    dsimp only
    rw [if_pos rfl]
    rcases Nat.lt_or_ge size header.writeHeader.length with small | large
    · have cut : (ftruncate header.writeHeader size).length ≤ 64 := by
        rw [ftruncate, length_append, length_take, length_replicate]
        omega
      exact scanBatches_short (by rw [kSegmentHeaderSize]; omega) fuel
    · have zeros := scanBatches_zeros header.writeHeader (size - header.writeHeader.length)
        (ftruncate header.writeHeader size).length fuel
      rw [← ftruncate_of_le large, header_length] at zeros
      exact zeros

variable {config : SegmentConfig}

theorem open_fresh (valid : 0 ≤ config.baseOffset) (created opened : Int64) :
    ∃ segment, (new config created none none).open opened = .ok segment := by
  obtain ⟨prepared, prepare, sound⟩ : ∃ prepared,
      (new config created none none).prepareFile opened = .ok prepared ∧
      prepared.header.isValid = decide (0 ≤ config.baseOffset) := ⟨_, rfl, rfl⟩
  refine ⟨prepared.openPrepared, ?_⟩
  change (do
      let prepared ← (new config created none none).prepareFile opened
      if !prepared.header.isValid then throw SegmentError.invalidHeader
      else return prepared.openPrepared) = _
  rw [prepare]
  change (if (!prepared.header.isValid) = true then _ else _) = _
  rw [sound, decide_eq_true valid, if_neg (by decide)]
  rfl

theorem append_of_active (active : segment.isActive = true) (batch : RecordBatch) :
    ∃ next result, segment.append batch = .ok (next, result) := by
  unfold append
  rw [active, if_neg (by decide)]
  split
  · exact ⟨_, _, rfl⟩
  · exact ⟨_, _, rfl⟩

theorem openPrepared_of_fresh {created opened : Int64} {prepared : Segment}
    (prepare : (new config created none none).prepareFile opened = .ok prepared)
    (fresh : (new config created none none).open opened = .ok segment) :
    prepared.header.isValid = true ∧ prepared.openPrepared = segment := by
  have step : (do
      let prepared ← (new config created none none).prepareFile opened
      if !prepared.header.isValid then throw SegmentError.invalidHeader
      else return prepared.openPrepared) = .ok segment := fresh
  rw [prepare] at step
  change (if (!prepared.header.isValid) = true then _ else _) = _ at step
  split at step
  · cases step
  next valid => exact ⟨by simpa using valid, Except.ok.inj step⟩

theorem laid_fresh {created opened : Int64}
    (fresh : (new config created none none).open opened = .ok segment) :
    0 ≤ config.baseOffset ∧ segment.header.baseOffset = config.baseOffset ∧
      ∃ front, Laid front segment.header [] segment := by
  obtain ⟨prepared, prepare, base, offset, index, scan⟩ : ∃ prepared,
      (new config created none none).prepareFile opened = .ok prepared ∧
      prepared.header.baseOffset = config.baseOffset ∧ prepared.nextOffset = config.baseOffset ∧
      prepared.indexFile = none ∧
      forwardScan { prepared with fileSize := prepared.data.length } = [] :=
    ⟨_, rfl, rfl, rfl, rfl, scanBatches_header _ _ _ _⟩
  have laid := laid_openPrepared scan index (offset.trans base.symm)
  obtain ⟨valid, same⟩ := openPrepared_of_fresh prepare fresh
  rw [same] at laid
  have kept := laid.sameHeader
  rw [← kept] at laid
  refine ⟨?_, by rw [kept, base], _, laid⟩
  simp [SegmentHeader.isValid, base] at valid
  omega

end Segment

/-!
## Sessions
-/

inductive SegmentWrite where
  | append (batch : RecordBatch)
  | appendBatch (batches : List RecordBatch)
deriving DecidableEq

def SegmentWrite.batches : SegmentWrite → List RecordBatch
  | .append batch => [batch]
  | .appendBatch batches => batches

structure WrittenSegment where
  segment : Segment
  placed : List Placed

namespace WrittenSegment

def step (state : WrittenSegment) : SegmentWrite → WrittenSegment
  | .append batch =>
    match state.segment.append batch with
    | .error _ => state
    | .ok (segment, result) =>
      ⟨segment, state.placed ++ if result.batchesWritten = 0 then [] else [(result.baseOffset, batch)]⟩
  | .appendBatch batches =>
    match state.segment.appendBatch batches with
    | .error _ => state
    | .ok (segment, result) => ⟨segment, state.placed ++ assignOffsets result.baseOffset batches⟩

/-- Every batch is read back from its base offset, with its records at the offsets from there on. -/
def ReadsBack (state : WrittenSegment) : Prop :=
  ∀ placed ∈ state.placed, ∀ maxBytes, ∃ result first,
    state.segment.read placed.1 maxBytes = .ok result ∧ result.batches.head? = some first ∧
      first.RestoredFrom placed.2 placed.1

/-- The batches of a call survive being stored, and their offsets fit into 64 bits. -/
def Survives (state : WrittenSegment) (write : SegmentWrite) : Prop :=
  (∀ batch ∈ write.batches, batch.Survives) ∧
    state.segment.nextOffset + recordTotal write.batches < 2 ^ 63

instance (state : WrittenSegment) (write : SegmentWrite) : Decidable (state.Survives write) :=
  inferInstanceAs (Decidable (_ ∧ _))

/-- The segment holds the batches that it has taken, all of them of one kind, behind `front`. -/
structure Holds (kind : RecordBatch → Prop) (front : Bytes) (header : SegmentHeader)
    (batches : List RecordBatch) (state : WrittenSegment) : Prop where
  laid : Segment.Laid front header batches state.segment
  placed : state.placed = assignOffsets header.baseOffset batches
  all : ∀ batch ∈ batches, kind batch
  bound : batches = [] ∨ state.segment.nextOffset < 2 ^ 63

variable {front : Bytes} {header : SegmentHeader} {state : WrittenSegment}

variable {batches : List RecordBatch}

section

variable {kind : RecordBatch → Prop} (holds : Holds kind front header batches state)

include holds

theorem Holds.extend {more : List RecordBatch} {segment : Segment} (new : ∀ batch ∈ more, kind batch)
    (after : Segment.Laid front header (batches ++ more) segment)
    (bound : state.segment.nextOffset + recordTotal more < 2 ^ 63) :
    Holds kind front header (batches ++ more)
      ⟨segment, state.placed ++ assignOffsets state.segment.nextOffset more⟩ where
  laid := after
  placed := by rw [assignOffsets_append, holds.placed, holds.laid.nextOffset]
  all := by
    intro batch member
    cases mem_append.mp member with
    | inl early => exact holds.all batch early
    | inr late => exact new batch late
  bound := by
    right
    have moved := after.nextOffset
    rw [recordTotal_append] at moved
    have reached := holds.laid.nextOffset
    dsimp only
    omega

theorem Holds.step {write : SegmentWrite} (new : ∀ batch ∈ write.batches, batch.records ≠ [] ∧ kind batch)
    (bound : state.segment.nextOffset + recordTotal write.batches < 2 ^ 63) :
    ∃ more, Holds kind front header (batches ++ more) (state.step write) ∧ (more = [] → state.step write = state) := by
  have unchanged : Holds kind front header (batches ++ []) state := by rwa [append_nil]
  cases write with
  | append batch =>
    obtain ⟨nonempty, -⟩ := new batch mem_cons_self
    unfold WrittenSegment.step
    dsimp only
    split
    · exact ⟨[], unchanged, fun _ => rfl⟩
    next segment result appended =>
      obtain ⟨after, rfl⟩ := holds.laid.append nonempty appended
      refine ⟨[batch], holds.extend (fun other member => (new other member).2) after bound, ?_⟩
      intro none
      cases none
  | appendBatch more =>
    unfold WrittenSegment.step
    dsimp only
    split
    · exact ⟨[], unchanged, fun _ => rfl⟩
    next segment result appended =>
      obtain ⟨after, offset⟩ := holds.laid.appendBatch (fun batch member => (new batch member).1) appended
      rw [offset]
      refine ⟨more, holds.extend (fun other member => (new other member).2) after bound, ?_⟩
      rintro rfl
      injection appended with pair
      injection pair with same
      rw [← same]
      exact congrArg (WrittenSegment.mk state.segment) (append_nil _)

end

theorem Holds.readsBack (holds : Holds RecordBatch.Survives front header batches state)
    (lower : 0 ≤ header.baseOffset) : state.ReadsBack := by
  intro target member maxBytes
  rw [holds.placed] at member
  cases holds.bound with
  | inl none =>
    rw [none] at member
    cases member
  | inr upper => exact holds.laid.read holds.all lower upper member maxBytes

/-- In every run of appends whose batches survive being stored, every batch taken so far is read
back. -/
theorem readsBack_of_survives {config : SegmentConfig} {created opened : Int64} {segment : Segment}
    (fresh : (new config created none none).open opened = .ok segment) {writes : List SegmentWrite}
    (survive : Runs.Meets step Survives ⟨segment, []⟩ writes) :
    (Runs.run step ⟨segment, []⟩ writes).ReadsBack := by
  obtain ⟨lower, base, front, laid⟩ := laid_fresh fresh
  have initial : Holds RecordBatch.Survives front segment.header [] ⟨segment, []⟩ :=
    ⟨laid, rfl, fun _ member => (not_mem_nil member).elim, .inl rfl⟩
  have final := survive.preserves
    (fun state => ∃ batches, Holds RecordBatch.Survives front segment.header batches state)
    (by
      rintro state write ⟨new, bound⟩ ⟨batches, holds⟩
      obtain ⟨more, after, -⟩ := holds.step (fun batch member => ⟨(new batch member).nonempty, new batch member⟩) bound
      exact ⟨_, after⟩)
    ⟨[], initial⟩
  obtain ⟨batches, holds⟩ := final
  exact holds.readsBack (by rw [base]; exact lower)

/-- One record whose value was chosen so that the checksum over the first checksum is the first
checksum again, and whose key length stands where the record count is looked for. -/
def luckyBatch : RecordBatch := { records := [{ key := [97], value := [174, 182, 44, 9], timestamp := 100 }] }

theorem crc32c_luckyBatch : crc32c luckyBatch.serializeBody = 2615188395 := by
  have half : crc32cRegister 0xFFFFFFFF (luckyBatch.serializeBody.take 33) = 3939836137 := by decide +kernel
  have rest : crc32cRegister 3939836137 (luckyBatch.serializeBody.drop 33) = 1679778900 := by decide +kernel
  have whole := crc32cRegister_append 0xFFFFFFFF (luckyBatch.serializeBody.take 33) (luckyBatch.serializeBody.drop 33)
  rw [take_append_drop, half, rest] at whole
  rw [crc32c_eq_register, whole]
  decide

theorem luckyBatch_survives : luckyBatch.Survives where
  restorable :=
    { size := by decide +kernel
      count := by decide
      headers := by decide
      checksum := by
        right
        have reset : crc32cRegister 0xFFFFFFFF (encode 4 (2615188395 : UInt32).toNat) = 0xFFFFFFFF := by
          decide +kernel
        rw [RecordBatch.storedCrc, crc32c_luckyBatch, crc32c_eq_register, crc32cRegister_append, reset,
          ← crc32c_eq_register, crc32c_luckyBatch] }
  delta := by decide
  counted := by decide +kernel
  skipped := by decide +kernel

theorem readsBack_luckyBatch : ∃ segment, (new {} 0 none none).open 0 = .ok segment ∧
    (Runs.run step ⟨segment, []⟩ [.appendBatch [luckyBatch, luckyBatch]]).ReadsBack := by
  obtain ⟨segment, fresh⟩ := open_fresh (show 0 ≤ ({} : SegmentConfig).baseOffset from le_rfl) 0 0
  obtain ⟨-, base, front, laid⟩ := laid_fresh fresh
  refine ⟨segment, fresh, readsBack_of_survives fresh ⟨⟨?_, ?_⟩, trivial⟩⟩
  · intro batch member
    have same : batch = luckyBatch := by simpa [SegmentWrite.batches] using member
    rw [same]
    exact luckyBatch_survives
  · rw [laid.nextOffset, base]
    decide

theorem run_append_fresh {segment : Segment} (fresh : (new {} 0 none none).open 0 = .ok segment)
    {batch : RecordBatch} (nonempty : batch.records ≠ []) :
    ∃ next, segment.append batch = .ok (next, ⟨segment.nextOffset, segment.fileSize, 1, batch.records.length⟩) ∧
      Runs.run step ⟨segment, []⟩ [.append batch] = ⟨next, [(segment.nextOffset, batch)]⟩ := by
  obtain ⟨-, -, front, laid⟩ := laid_fresh fresh
  have active : ((new {} 0 none none).open 0).toOption.map isActive = some true := by
    decide +kernel
  rw [fresh] at active
  obtain ⟨next, result, appended⟩ := append_of_active (Option.some.inj active) batch
  obtain ⟨-, rfl⟩ := laid.append nonempty appended
  refine ⟨next, appended, ?_⟩
  rw [Runs.run_cons, Runs.run_nil, step]
  dsimp only
  rw [appended]
  rfl

def ordinaryBatch : RecordBatch := { records := [{ key := [97], value := [98] }] }

theorem not_readsBack_ordinaryBatch : ¬∀ (config : SegmentConfig) (created opened : Int64) (segment : Segment),
    (new config created none none).open opened = .ok segment → ∀ writes : List SegmentWrite,
    (∀ write ∈ writes, ∀ batch ∈ write.batches, batch.records ≠ []) →
    (Runs.run step ⟨segment, []⟩ writes).ReadsBack := by
  intro claim
  obtain ⟨segment, fresh⟩ := open_fresh (show 0 ≤ ({} : SegmentConfig).baseOffset from le_rfl) 0 0
  have back := claim {} 0 0 segment fresh [.append ordinaryBatch] (by decide)
  obtain ⟨-, -, front, laid⟩ := laid_fresh fresh
  obtain ⟨next, appended, placed⟩ := run_append_fresh fresh (show ordinaryBatch.records ≠ [] by decide)
  obtain ⟨after, -⟩ := laid.append (by decide) appended
  obtain ⟨read, success, none⟩ := after.read_insane (by decide +kernel) (by decide +kernel) 0
  rw [placed] at back
  obtain ⟨other, first, again, head, -⟩ := back _ mem_cons_self 0
  dsimp only at again
  rw [laid.nextOffset, show segment.header.baseOffset + (recordTotal [] : Int) =
    segment.header.baseOffset from Int.add_zero _, success] at again
  injection again with same
  rw [← same, none] at head
  cases head

end WrittenSegment

end TorrentMq.Storage
