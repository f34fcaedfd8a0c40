import Mathlib.Data.List.TakeWhile
import TorrentMq.Storage.RecordBatchProperties
import TorrentMq.Storage.Segment

/-!
# The layout of a segment

Batches one behind the other in the file, zeros behind them, and an index
that knows the positions of some of them.
-/

set_option autoImplicit false

namespace TorrentMq.Storage

open Bytes List SparseIndexEntry

abbrev Placed := Int × RecordBatch

def Placed.block (placed : Placed) : Bytes := assignOffset placed.1 placed.2.serializeBatch

def blocks (placed : List Placed) : Bytes := placed.flatMap Placed.block

def positions (start : Nat) : List Placed → List (Int × Nat)
  | [] => []
  | first :: placed => (first.1, start) :: positions (start + first.block.length) placed

def SparseIndexEntry.key (entry : SparseIndexEntry) : Int × Nat := (entry.offset, entry.filePosition)

@[simp] theorem blocks_nil : blocks [] = [] := rfl

@[simp] theorem blocks_cons (first : Placed) (placed : List Placed) :
    blocks (first :: placed) = first.block ++ blocks placed := flatMap_cons

theorem blocks_append (left right : List Placed) : blocks (left ++ right) = blocks left ++ blocks right :=
  flatMap_append

theorem positions_append (start : Nat) (left right : List Placed) :
    positions start (left ++ right) = positions start left ++ positions (start + (blocks left).length) right := by
  induction left generalizing start with
  | nil => rfl
  | cons first left ih =>
    rw [cons_append, positions, ih, positions, cons_append, blocks_cons, length_append, Nat.add_assoc]

theorem mem_positions {start : Nat} {placed : List Placed} {offset : Int} {position : Nat}
    (member : (offset, position) ∈ positions start placed) :
    ∃ before batch after, placed = before ++ (offset, batch) :: after ∧
      position = start + (blocks before).length := by
  induction placed generalizing start with
  | nil => cases member
  | cons first placed ih =>
    cases member with
    | head => exact ⟨[], first.2, placed, rfl, rfl⟩
    | tail _ member =>
      obtain ⟨before, batch, after, split, place⟩ := ih member
      refine ⟨first :: before, batch, after, by rw [split]; rfl, ?_⟩
      rw [place, blocks_cons, length_append, Nat.add_assoc]

namespace Segment

variable (index : List SparseIndexEntry)

theorem downsample_sublist : (downsample index).Sublist index := by
  induction index using downsample.induct with
  | case1 => exact List.Sublist.slnil
  | case2 entry => exact List.Sublist.refl _
  | case3 entry skipped entries ih => exact (ih.cons skipped).cons_cons entry

theorem head?_downsample : (downsample index).head? = index.head? := by
  cases index using downsample.induct <;> rfl

variable (timestamp : Int64)

theorem keys_raiseTimestamp (index : List SparseIndexEntry) :
    (raiseTimestamp timestamp index).map key = index.map key := by
  induction index using raiseTimestamp.induct with
  | case1 => rfl
  | case2 last =>
    rw [raiseTimestamp]
    split <;> rfl
  | case3 entry next entries ih =>
    rw [raiseTimestamp, map_cons, ih]
    rfl

theorem insertEntry_of_above {entry : SparseIndexEntry} {index : List SparseIndexEntry}
    (above : ∀ other ∈ index, other.offset < entry.offset) : insertEntry entry index = index ++ [entry] := by
  have all : ∀ other ∈ index, decide (other.offset < entry.offset) = true := by
    intro other member
    exact decide_eq_true (above other member)
  rw [insertEntry, takeWhile_eq_self_iff.mpr all, dropWhile_eq_nil_iff.mpr all]

variable {baseOffset : Int} {filePosition : Nat}

theorem keys_updateSparseIndex (segment : Segment) (timestamp : Int64)
    (above : shouldAdd segment.config.indexIntervalBytes segment.sparseIndex baseOffset filePosition = true →
      ∀ other ∈ segment.sparseIndex, other.offset < baseOffset) :
    let before := segment.sparseIndex.map key
    let after := (segment.updateSparseIndex baseOffset filePosition timestamp).sparseIndex.map key
    after.Sublist (before ++ [(baseOffset, filePosition)]) ∧
      after.head? = (before ++ [(baseOffset, filePosition)]).head? := by
  unfold updateSparseIndex
  split
  next add =>
    have inserted : insertEntry ⟨baseOffset, filePosition, timestamp⟩ segment.sparseIndex = _ :=
      insertEntry_of_above (above add)
    have keys : (segment.sparseIndex ++ [(⟨baseOffset, filePosition, timestamp⟩ : SparseIndexEntry)]).map
        key =
        segment.sparseIndex.map key ++ [(baseOffset, filePosition)] := by
      rw [map_append]
      rfl
    dsimp only
    rw [inserted, ← keys]
    split
    · exact ⟨(downsample_sublist _).map _, by rw [head?_map, head?_downsample, head?_map]⟩
    · exact ⟨List.Sublist.refl _, rfl⟩
  next kept =>
    dsimp only
    rw [keys_raiseTimestamp]
    refine ⟨sublist_append_left _ _, ?_⟩
    cases entries : segment.sparseIndex with
    | nil =>
      rw [entries] at kept
      exact absurd rfl kept
    | cons entry entries => rfl

/-!
## The sparse index
-/

def Sorted (index : List SparseIndexEntry) : Prop :=
  index.Pairwise fun earlier later => earlier.offset < later.offset

theorem sorted_iff_keys {index : List SparseIndexEntry} :
    Sorted index ↔ (index.map key).Pairwise fun earlier later => earlier.1 < later.1 := by
  rw [pairwise_map]
  rfl

variable {segment : Segment}

theorem sorted_updateSparseIndex (sorted : Sorted segment.sparseIndex)
    (above : shouldAdd segment.config.indexIntervalBytes segment.sparseIndex baseOffset filePosition = true →
      ∀ other ∈ segment.sparseIndex, other.offset < baseOffset) :
    Sorted (segment.updateSparseIndex baseOffset filePosition timestamp).sparseIndex := by
  unfold updateSparseIndex
  split
  next add =>
    have extended : Sorted (insertEntry ⟨baseOffset, filePosition, timestamp⟩ segment.sparseIndex) := by
      rw [insertEntry_of_above (above add)]
      refine pairwise_append.mpr ⟨sorted, pairwise_singleton _ _, ?_⟩
      intro other member entry last
      rw [mem_singleton.mp last]
      exact above add other member
    dsimp only
    split
    · exact extended.sublist (downsample_sublist _)
    · exact extended
  next =>
    rw [sorted_iff_keys] at sorted ⊢
    dsimp only
    rw [keys_raiseTimestamp]
    exact sorted

/-- A batch that goes at the offset of the last entry is near it, so that the offset is not indexed
again. -/
def IndexesOnce (segment : Segment) (baseOffset : Int) (filePosition : Nat) : Prop :=
  ∀ last ∈ segment.sparseIndex.getLast?, last.offset = baseOffset →
    (filePosition : Int) - last.filePosition < segment.config.indexIntervalBytes

instance (segment : Segment) (baseOffset : Int) (filePosition : Nat) :
    Decidable (segment.IndexesOnce baseOffset filePosition) := by
  unfold IndexesOnce
  infer_instance

theorem IndexesOnce.above (once : segment.IndexesOnce baseOffset filePosition) (sorted : Sorted segment.sparseIndex)
    (reached : ∀ entry ∈ segment.sparseIndex, entry.offset ≤ baseOffset)
    (add : shouldAdd segment.config.indexIntervalBytes segment.sparseIndex baseOffset filePosition = true) :
    ∀ other ∈ segment.sparseIndex, other.offset < baseOffset := by
  unfold shouldAdd at add
  unfold IndexesOnce at once
  rcases eq_nil_or_concat segment.sparseIndex with none | ⟨front, last, concat⟩
  · rw [none]
    exact fun _ member => (not_mem_nil member).elim
  · rw [concat_eq_append] at concat
    unfold Sorted at sorted
    rw [concat] at sorted reached add once ⊢
    rw [getLast?_concat] at add once
    have upper := reached last (mem_append_right _ mem_cons_self)
    simp only [Bool.or_eq_true, decide_eq_true_eq] at add
    have below : last.offset < baseOffset := by
      rcases lt_or_eq_of_le upper with less | same
      · exact less
      · have near := once last rfl same
        omega
    intro other member
    cases mem_append.mp member with
    | inl early =>
      have := (pairwise_append.mp sorted).2.2 other early last mem_cons_self
      omega
    | inr late => rwa [mem_singleton.mp late]

theorem indexesOnce_of_above (above : ∀ entry ∈ segment.sparseIndex, entry.offset < baseOffset) (filePosition : Nat) :
    segment.IndexesOnce baseOffset filePosition := by
  intro last final same
  have below := above last (mem_of_getLast? final)
  omega

/-- Batches that are written from a position on, each of which meets a condition on the segment before it
is indexed. -/
def EachUpdate (met : Segment → Int → Nat → Prop) (timestamp : Int64) : Segment → Nat → List Placed → Prop
  | _, _, [] => True
  | segment, position, next :: rest =>
    met segment next.1 position ∧
      EachUpdate met timestamp (segment.updateSparseIndex next.1 position timestamp) (position + next.block.length)
        rest

variable {position : Nat} {placed : List Placed}

theorem EachUpdate.imp {met weaker : Segment → Int → Nat → Prop} {timestamp : Int64}
    (each : EachUpdate met timestamp segment position placed)
    (weaken : ∀ segment baseOffset position, met segment baseOffset position → weaker segment baseOffset position) :
    EachUpdate weaker timestamp segment position placed := by
  induction placed generalizing segment position with
  | nil => trivial
  | cons next rest ih => exact ⟨weaken _ _ _ each.1, ih each.2⟩

/-- Batches that are written from a position on, each with an offset that is indexed once. -/
def IndexesEach (timestamp : Int64) (segment : Segment) (position : Nat) (placed : List Placed) : Prop :=
  EachUpdate IndexesOnce timestamp segment position placed

theorem indexesEach_of_ascending (position : Nat)
    (above : ∀ entry ∈ segment.sparseIndex, ∀ next ∈ placed, entry.offset < next.1)
    (ascending : placed.Pairwise fun earlier later => earlier.1 < later.1) :
    IndexesEach timestamp segment position placed := by
  induction placed generalizing segment position with
  | nil => trivial
  | cons next rest ih =>
    have first : ∀ entry ∈ segment.sparseIndex, entry.offset < next.1 :=
      fun entry member => above entry member next mem_cons_self
    obtain ⟨before, later⟩ := pairwise_cons.mp ascending
    refine ⟨indexesOnce_of_above first position, ih _ ?_ later⟩
    intro entry member other inside
    have key := (keys_updateSparseIndex segment timestamp fun _ => first).1.subset (mem_map_of_mem member)
    cases mem_append.mp key with
    | inl old =>
      obtain ⟨source, stored, same⟩ := mem_map.mp old
      have offset : source.offset = entry.offset := congrArg Prod.fst same
      rw [← offset]
      exact above source stored other (mem_cons_of_mem _ inside)
    | inr new =>
      have offset : entry.offset = next.1 := congrArg Prod.fst (mem_singleton.mp new)
      rw [offset]
      exact before other inside

theorem updateSparseIndex_congr {segment other : Segment} (config : other.config = segment.config)
    (index : other.sparseIndex = segment.sparseIndex) (baseOffset : Int) (filePosition : Nat) (timestamp : Int64) :
    let updated := other.updateSparseIndex baseOffset filePosition timestamp
    let expected := segment.updateSparseIndex baseOffset filePosition timestamp
    updated.config = expected.config ∧ updated.sparseIndex = expected.sparseIndex := by
  unfold updateSparseIndex
  rw [config, index]
  split <;> exact ⟨rfl, rfl⟩

theorem EachUpdate.congr {met : Segment → Int → Nat → Prop} {timestamp : Int64} {segment other : Segment}
    (each : EachUpdate met timestamp segment position placed)
    (depends : ∀ {segment other : Segment} {baseOffset : Int} {position : Nat}, other.config = segment.config →
      other.sparseIndex = segment.sparseIndex → met segment baseOffset position → met other baseOffset position)
    (config : other.config = segment.config) (index : other.sparseIndex = segment.sparseIndex) :
    EachUpdate met timestamp other position placed := by
  induction placed generalizing segment other position with
  | nil => trivial
  | cons next rest ih =>
    obtain ⟨sameConfig, sameIndex⟩ := updateSparseIndex_congr config index next.1 position timestamp
    exact ⟨depends config index each.1, ih each.2 sameConfig sameIndex⟩

theorem IndexesOnce.congr {segment other : Segment}
    (config : other.config = segment.config) (index : other.sparseIndex = segment.sparseIndex)
    (once : segment.IndexesOnce baseOffset position) : other.IndexesOnce baseOffset position := by
  unfold IndexesOnce at once ⊢
  rwa [config, index]

section

variable (segment : Segment) (additionalBytes : Nat)

@[simp] theorem extendFile_data :
    (segment.extendFile additionalBytes).data =
      ftruncate segment.data (roundUp (segment.fileSize + additionalBytes)) := by
  rw [extendFile, data, Option.getD_some]

@[simp] theorem extendFile_header :
    (segment.extendFile additionalBytes).header = segment.header := by
  rw [extendFile]

@[simp] theorem extendFile_state :
    (segment.extendFile additionalBytes).state = segment.state := by
  rw [extendFile]

@[simp] theorem extendFile_config :
    (segment.extendFile additionalBytes).config = segment.config := by
  rw [extendFile]

@[simp] theorem extendFile_sparseIndex :
    (segment.extendFile additionalBytes).sparseIndex = segment.sparseIndex := by
  rw [extendFile]

end

section

variable (segment : Segment) (position : Nat) (bytes : Bytes)

@[simp] theorem writeAt_data :
    (segment.writeAt position bytes).data = pwrite segment.data position bytes := by
  rw [writeAt, data, Option.getD_some]

@[simp] theorem writeAt_header :
    (segment.writeAt position bytes).header = segment.header := rfl

@[simp] theorem writeAt_state :
    (segment.writeAt position bytes).state = segment.state := rfl

@[simp] theorem writeAt_config :
    (segment.writeAt position bytes).config = segment.config := rfl

@[simp] theorem writeAt_sparseIndex :
    (segment.writeAt position bytes).sparseIndex = segment.sparseIndex := rfl

end

section

variable (segment : Segment) (fileSize : Nat) (nextOffset : Int)

@[simp] theorem advance_data :
    (segment.advance fileSize nextOffset).data = segment.data := rfl

@[simp] theorem advance_header :
    (segment.advance fileSize nextOffset).header = segment.header := rfl

@[simp] theorem advance_state :
    (segment.advance fileSize nextOffset).state = segment.state := rfl

@[simp] theorem advance_config :
    (segment.advance fileSize nextOffset).config = segment.config := rfl

@[simp] theorem advance_sparseIndex :
    (segment.advance fileSize nextOffset).sparseIndex = segment.sparseIndex := rfl

@[simp] theorem advance_fileSize :
    (segment.advance fileSize nextOffset).fileSize = fileSize := rfl

@[simp] theorem advance_nextOffset :
    (segment.advance fileSize nextOffset).nextOffset = nextOffset := rfl

end

/-- What an update of the index or of the highest timestamp leaves alone. -/
structure SameStore (segment updated : Segment) : Prop where
  config : updated.config = segment.config
  header : updated.header = segment.header
  state : updated.state = segment.state
  fileSize : updated.fileSize = segment.fileSize
  nextOffset : updated.nextOffset = segment.nextOffset
  file : updated.file = segment.file

theorem SameStore.data {segment updated : Segment} (same : SameStore segment updated) :
    updated.data = segment.data := congrArg (fun file => file.getD []) same.file

theorem sameStore_updateSparseIndex (segment : Segment) (baseOffset : Int) (filePosition : Nat)
    (timestamp : Int64) : SameStore segment (segment.updateSparseIndex baseOffset filePosition timestamp) := by
  unfold updateSparseIndex
  split <;> exact ⟨rfl, rfl, rfl, rfl, rfl, rfl⟩

theorem sameStore_raiseMaxTimestamp (segment : Segment) (timestamp : Int64) :
    SameStore segment (segment.raiseMaxTimestamp timestamp) := by
  unfold raiseMaxTimestamp
  split <;> exact ⟨rfl, rfl, rfl, rfl, rfl, rfl⟩

theorem sparseIndex_raiseMaxTimestamp (segment : Segment) (timestamp : Int64) :
    (segment.raiseMaxTimestamp timestamp).sparseIndex = segment.sparseIndex := by
  unfold raiseMaxTimestamp
  split <;> rfl

/-!
## Written segments
-/

/-- The file holds these batches behind `front` and then so many zeros, and the index knows the
first of them and some others. -/
structure Written (front : Bytes) (zeros : Nat) (placed : List Placed) (segment : Segment) : Prop where
  data : segment.data = front ++ (blocks placed ++ List.replicate zeros 0)
  index : (segment.sparseIndex.map key).Sublist (positions front.length placed)
  first : (segment.sparseIndex.map key).head? = (positions front.length placed).head?

variable {front : Bytes} {zeros : Nat}

theorem Written.mem (written : Written front zeros placed segment) {entry : SparseIndexEntry}
    (member : entry ∈ segment.sparseIndex) :
    ∃ before batch after, placed = before ++ (entry.offset, batch) :: after ∧
      entry.filePosition = front.length + (blocks before).length :=
  mem_positions (written.index.subset (mem_map_of_mem member))

theorem Written.congr {segment other : Segment}
    (written : Written front zeros placed segment) (data : other.data = segment.data)
    (index : other.sparseIndex = segment.sparseIndex) : Written front zeros placed other where
  data := data.trans written.data
  index := index ▸ written.index
  first := index ▸ written.first

theorem Written.write {segment stamped : Segment}
    {next : Placed} (written : Written front (next.block.length + zeros) placed segment)
    (sorted : Sorted segment.sparseIndex) (reached : ∀ earlier ∈ placed, earlier.1 ≤ next.1)
    (once : stamped.IndexesOnce next.1 (front.length + (blocks placed).length))
    (data : stamped.data = pwrite segment.data (front.length + (blocks placed).length) next.block)
    (index : stamped.sparseIndex = segment.sparseIndex) (timestamp : Int64) :
    let indexed := stamped.updateSparseIndex next.1 (front.length + (blocks placed).length) timestamp
    Written front zeros (placed ++ [next]) indexed ∧ Sorted indexed.sparseIndex := by
  have upper : ∀ entry ∈ stamped.sparseIndex, entry.offset ≤ next.1 := by
    intro entry member
    rw [index] at member
    obtain ⟨before, batch, after, split, -⟩ := written.mem member
    exact reached (entry.offset, batch) (by rw [split]; simp)
  rw [← index] at sorted
  have below := once.above sorted upper
  have update := keys_updateSparseIndex stamped timestamp below
  have places : positions front.length (placed ++ [next]) =
      positions front.length placed ++ [(next.1, front.length + (blocks placed).length)] :=
    positions_append _ _ _
  rw [index] at update
  refine ⟨⟨?_, ?_, ?_⟩, sorted_updateSparseIndex timestamp sorted below⟩
  · have room : segment.data = (front ++ blocks placed) ++
        (List.replicate next.block.length 0 ++ List.replicate zeros 0) := by
      rw [written.data, replicate_append_replicate, append_assoc]
    have patched := pwrite_append (front ++ blocks placed) (List.replicate next.block.length 0)
      (List.replicate zeros 0) (show _ = next.block.length by rw [length_replicate])
    rw [(sameStore_updateSparseIndex _ _ _ _).data, data, room, ← length_append, patched, blocks_append,
      blocks_cons, blocks_nil, append_nil]
    simp only [append_assoc]
  · rw [places]
    exact update.1.trans (written.index.append_right _)
  · rw [places, update.2, head?_append, head?_append, written.first]

theorem writePending_pendingWrite (segment : Segment) (position : Nat) (next : Placed) :
    Segment.writePending timestamp (segment, position) (pendingWrite next) =
      ((segment.writeAt position next.block).updateSparseIndex next.1 position timestamp,
        position + next.block.length) := by
  simp only [Segment.writePending, pendingWrite, Placed.block]

theorem Written.writePending {old new : List Placed}
    (written : Written front ((blocks new).length + zeros) old segment) (sorted : Sorted segment.sparseIndex)
    (reached : (old ++ new).Pairwise fun earlier later => earlier.1 ≤ later.1) (timestamp : Int64)
    (each : IndexesEach timestamp segment (front.length + (blocks old).length) new) :
    let state := (new.map pendingWrite).foldl (Segment.writePending timestamp)
      (segment, front.length + (blocks old).length)
    Written front zeros (old ++ new) state.1 ∧ Sorted state.1.sparseIndex ∧
      SameStore { segment with file := state.1.file } state.1 := by
  induction new generalizing old segment with
  | nil =>
    rw [blocks_nil, length_nil, Nat.zero_add] at written
    rw [append_nil]
    exact ⟨written, sorted, ⟨rfl, rfl, rfl, rfl, rfl, rfl⟩⟩
  | cons next new ih =>
    obtain ⟨once, rest⟩ := each
    rw [blocks_cons, length_append, Nat.add_assoc] at written
    rw [append_cons] at reached
    have earlier : ∀ earlier ∈ old, earlier.1 ≤ next.1 := by
      intro earlier member
      exact (pairwise_append.mp (pairwise_append.mp reached).1).2.2 earlier member next mem_cons_self
    have stamped : (segment.writeAt (front.length + (blocks old).length) next.block).IndexesOnce next.1
        (front.length + (blocks old).length) := once
    obtain ⟨one, ordered⟩ := written.write sorted earlier stamped (writeAt_data segment _ next.block) rfl timestamp
    have position : front.length + (blocks (old ++ [next])).length =
        front.length + (blocks old).length + next.block.length := by
      rw [blocks_append, length_append, blocks_cons, blocks_nil, append_nil, Nat.add_assoc]
    have update := sameStore_updateSparseIndex
      (segment.writeAt (front.length + (blocks old).length) next.block) next.1
      (front.length + (blocks old).length) timestamp
    obtain ⟨sameConfig, sameIndex⟩ := @updateSparseIndex_congr segment
      (segment.writeAt (front.length + (blocks old).length) next.block) rfl rfl next.1
      (front.length + (blocks old).length) timestamp
    have later : IndexesEach _ _ _ new := rest.congr IndexesOnce.congr sameConfig sameIndex
    rw [← position] at later
    have further := ih one ordered reached later
    rw [position, ← append_cons] at further
    rw [map_cons, foldl_cons, writePending_pendingWrite]
    obtain ⟨whole, finish, same⟩ := further
    refine ⟨whole, finish, ?_⟩
    exact ⟨same.config.trans update.config, same.header.trans update.header, same.state.trans update.state,
      same.fileSize.trans update.fileSize, same.nextOffset.trans update.nextOffset, rfl⟩

def recordTotal (batches : List RecordBatch) : Nat := (batches.map (·.records.length)).sum

theorem recordTotal_cons (batch : RecordBatch) (batches : List RecordBatch) :
    recordTotal (batch :: batches) = batch.records.length + recordTotal batches := by
  rw [recordTotal, map_cons, sum_cons, recordTotal]

theorem recordTotal_append (left right : List RecordBatch) :
    recordTotal (left ++ right) = recordTotal left + recordTotal right := by
  rw [recordTotal, map_append, sum_append, recordTotal, recordTotal]

theorem assignOffsets_append (base : Int) (left right : List RecordBatch) :
    assignOffsets base (left ++ right) = assignOffsets base left ++ assignOffsets (base + recordTotal left) right := by
  induction left generalizing base with
  | nil => simp [assignOffsets, recordTotal]
  | cons batch left ih =>
    have total : base + batch.records.length + recordTotal left = base + recordTotal (batch :: left) := by
      rw [recordTotal_cons]
      omega
    rw [cons_append, assignOffsets, ih, assignOffsets, cons_append, total]

theorem assignOffsets_bounds {base : Int} {batches : List RecordBatch} {placed : Placed}
    (member : placed ∈ assignOffsets base batches) :
    base ≤ placed.1 ∧ placed.1 + placed.2.records.length ≤ base + recordTotal batches ∧ placed.2 ∈ batches := by
  induction batches generalizing base with
  | nil => cases member
  | cons batch batches ih =>
    have total := recordTotal_cons batch batches
    cases member with
    | head => exact ⟨le_rfl, by dsimp only; omega, mem_cons_self⟩
    | tail _ member =>
      obtain ⟨lower, upper, inside⟩ := ih member
      exact ⟨by omega, by omega, mem_cons_of_mem _ inside⟩

theorem pairwise_assignOffsets (base : Int) (batches : List RecordBatch) :
    (assignOffsets base batches).Pairwise fun (earlier later : Placed) =>
      earlier.1 + (earlier.2.records.length : Int) ≤ later.1 := by
  induction batches generalizing base with
  | nil => exact List.Pairwise.nil
  | cons batch batches ih =>
    refine List.Pairwise.cons ?_ (ih _)
    intro later member
    exact (assignOffsets_bounds member).1

theorem le_roundUp (size : Nat) : size ≤ roundUp size := by
  unfold roundUp kFileExtendStep
  omega

theorem roundUp_mono {small large : Nat} (le : small ≤ large) : roundUp small ≤ roundUp large := by
  unfold roundUp kFileExtendStep
  omega

/-!
## Stored batches
-/

/-- The segment holds these batches from the base offset of its header on and nothing else, and its
index is in order. -/
structure Stored (front : Bytes) (header : SegmentHeader) (batches : List RecordBatch)
    (segment : Segment) : Prop where
  written : ∃ zeros, Written front zeros (assignOffsets header.baseOffset batches) segment
  sameHeader : segment.header = header
  state : segment.state = .active ∨ segment.state = .sealed
  fileSize : segment.fileSize = front.length + (blocks (assignOffsets header.baseOffset batches)).length
  nextOffset : segment.nextOffset = header.baseOffset + recordTotal batches
  padding : segment.data.length = segment.fileSize ∨ segment.data.length = roundUp segment.fileSize
  sorted : Sorted segment.sparseIndex

/-- The segment holds these batches from the base offset of its header on and nothing else, and it is open for more. -/
structure Laid (front : Bytes) (header : SegmentHeader) (batches : List RecordBatch)
    (segment : Segment) : Prop where
  written : ∃ zeros, Written front zeros (assignOffsets header.baseOffset batches) segment
  sameHeader : segment.header = header
  state : segment.state = .active ∨ segment.state = .sealed
  fileSize : segment.fileSize = front.length + (blocks (assignOffsets header.baseOffset batches)).length
  nextOffset : segment.nextOffset = header.baseOffset + recordTotal batches
  padding : segment.data.length = segment.fileSize ∨ segment.data.length = roundUp segment.fileSize
  nonempty : ∀ batch ∈ batches, batch.records ≠ []

theorem pairwise_lt_assignOffsets {base : Int} {batches : List RecordBatch}
    (nonempty : ∀ batch ∈ batches, batch.records ≠ []) :
    (assignOffsets base batches).Pairwise fun earlier later => earlier.1 < later.1 := by
  refine (pairwise_assignOffsets base batches).imp_of_mem ?_
  intro earlier later member _ follows
  have some := length_pos_iff.mpr (nonempty _ (assignOffsets_bounds member).2.2)
  omega

theorem fst_positions (start : Nat) (placed : List Placed) :
    (positions start placed).map Prod.fst = placed.map Prod.fst := by
  induction placed generalizing start with
  | nil => rfl
  | cons first placed ih => rw [positions, map_cons, map_cons, ih]

section Stored

variable {front : Bytes} {header : SegmentHeader} {batches more : List RecordBatch} {segment next : Segment}

theorem Stored.laid (stored : Stored front header batches segment)
    (nonempty : ∀ batch ∈ batches, batch.records ≠ []) : Laid front header batches segment :=
  ⟨stored.written, stored.sameHeader, stored.state, stored.fileSize, stored.nextOffset, stored.padding, nonempty⟩

theorem Laid.stored (laid : Laid front header batches segment) : Stored front header batches segment := by
  refine ⟨laid.written, laid.sameHeader, laid.state, laid.fileSize, laid.nextOffset, laid.padding, ?_⟩
  obtain ⟨zeros, written⟩ := laid.written
  have ascending : (assignOffsets header.baseOffset batches).Pairwise _ := pairwise_lt_assignOffsets laid.nonempty
  have offsets : ((positions front.length (assignOffsets header.baseOffset batches)).map Prod.fst).Pairwise
      (· < ·) := by
    rw [fst_positions]
    exact pairwise_map.mpr ascending
  rw [sorted_iff_keys]
  exact (pairwise_map.mp offsets).sublist written.index

section

variable (stored : Stored front header batches segment)

include stored

theorem Stored.extend (additionalBytes : Nat) :
    ∃ zeros, Written front (additionalBytes + zeros) (assignOffsets header.baseOffset batches)
        (segment.extendFile additionalBytes) ∧
      front.length + (blocks (assignOffsets header.baseOffset batches)).length + (additionalBytes + zeros) =
        roundUp (segment.fileSize + additionalBytes) := by
  obtain ⟨zeros, written⟩ := stored.written
  have size := stored.fileSize
  have length : segment.data.length = segment.fileSize + zeros := by
    rw [written.data, length_append, length_append, length_replicate, size, Nat.add_assoc]
  have room := le_roundUp (segment.fileSize + additionalBytes)
  have fits : segment.data.length ≤ roundUp (segment.fileSize + additionalBytes) := by
    cases stored.padding with
    | inl exact => omega
    | inr padded =>
      rw [padded]
      exact roundUp_mono (Nat.le_add_right _ _)
  have extended := extendFile_data segment additionalBytes
  generalize roundUp (segment.fileSize + additionalBytes) = newSize at room fits extended ⊢
  have count : zeros + (newSize - segment.data.length) =
      additionalBytes + (newSize - segment.fileSize - additionalBytes) := by omega
  refine ⟨newSize - segment.fileSize - additionalBytes, ⟨?_, ?_, ?_⟩, by omega⟩
  · rw [extended, ftruncate_of_le fits]
    nth_rewrite 1 [written.data]
    rw [append_assoc, append_assoc, replicate_append_replicate, count]
  · rw [extendFile_sparseIndex]
    exact written.index
  · rw [extendFile_sparseIndex]
    exact written.first

theorem Stored.after_write {zeros : Nat}
    (written : Written front zeros (assignOffsets header.baseOffset (batches ++ more)) next)
    (sorted : Sorted next.sparseIndex) (same : next.header = segment.header) (state : next.state = segment.state)
    (size : next.fileSize = front.length + (blocks (assignOffsets header.baseOffset (batches ++ more))).length)
    (total : next.nextOffset = segment.nextOffset + recordTotal more)
    (padded : next.fileSize + zeros = roundUp next.fileSize) : Stored front header (batches ++ more) next where
  written := ⟨zeros, written⟩
  sameHeader := same.trans stored.sameHeader
  state := state ▸ stored.state
  fileSize := size
  nextOffset := by
    rw [total, stored.nextOffset, recordTotal_append]
    omega
  padding := by
    have length : next.data.length = next.fileSize + zeros := by
      rw [written.data, size, length_append, length_append, length_replicate, Nat.add_assoc]
    exact .inr (length.trans padded)
  sorted := sorted

theorem Stored.reached {earlier : Placed}
    (member : earlier ∈ assignOffsets header.baseOffset batches) : earlier.1 ≤ segment.nextOffset := by
  obtain ⟨-, upper, -⟩ := assignOffsets_bounds member
  rw [stored.nextOffset]
  omega

end

theorem Laid.below_nextOffset (laid : Laid front header batches segment) {earlier : Placed}
    (member : earlier ∈ assignOffsets header.baseOffset batches) : earlier.1 < segment.nextOffset := by
  obtain ⟨-, upper, inside⟩ := assignOffsets_bounds member
  have some := length_pos_iff.mpr (laid.nonempty _ inside)
  rw [laid.nextOffset]
  omega

theorem Laid.index_below (laid : Laid front header batches segment) :
    ∀ entry ∈ segment.sparseIndex, entry.offset < segment.nextOffset := by
  intro entry member
  obtain ⟨zeros, written⟩ := laid.written
  obtain ⟨before, batch, after, split, -⟩ := written.mem member
  exact laid.below_nextOffset (show (entry.offset, batch) ∈ _ by rw [split]; simp)

variable {batch : RecordBatch}

theorem Stored.place {extended moved : Segment} {zeros : Nat}
    (stored : Stored front header batches segment) (once : segment.IndexesOnce segment.nextOffset segment.fileSize)
    (written : Written front ((Placed.block (segment.nextOffset, batch)).length + zeros)
      (assignOffsets header.baseOffset batches) extended)
    (padded : segment.fileSize + ((Placed.block (segment.nextOffset, batch)).length + zeros) = roundUp moved.fileSize)
    (data : moved.data = pwrite extended.data segment.fileSize (Placed.block (segment.nextOffset, batch)))
    (old : extended.sparseIndex = segment.sparseIndex) (index : moved.sparseIndex = extended.sparseIndex)
    (config : moved.config = segment.config) (same : moved.header = segment.header)
    (state : moved.state = segment.state)
    (size : moved.fileSize = segment.fileSize + (Placed.block (segment.nextOffset, batch)).length)
    (total : moved.nextOffset = segment.nextOffset + batch.records.length) (timestamp : Int64) :
    Stored front header (batches ++ [batch])
      ((moved.raiseMaxTimestamp timestamp).updateSparseIndex segment.nextOffset segment.fileSize timestamp) := by
  have placed : assignOffsets header.baseOffset (batches ++ [batch]) =
      assignOffsets header.baseOffset batches ++ [(segment.nextOffset, batch)] := by
    rw [assignOffsets_append, stored.nextOffset]
    rfl
  have raised := sameStore_raiseMaxTimestamp moved timestamp
  have raisedIndex := (sparseIndex_raiseMaxTimestamp moved timestamp).trans index
  have updated := sameStore_updateSparseIndex (moved.raiseMaxTimestamp timestamp) segment.nextOffset
    segment.fileSize timestamp
  have stamped : (moved.raiseMaxTimestamp timestamp).IndexesOnce segment.nextOffset
      (front.length + (blocks (assignOffsets header.baseOffset batches)).length) := by
    unfold IndexesOnce
    rw [raisedIndex, old, raised.config, config, ← stored.fileSize]
    exact once
  obtain ⟨write, sorted⟩ := written.write (old ▸ stored.sorted) (fun earlier member => stored.reached member) stamped
    (raised.data.trans (stored.fileSize ▸ data)) raisedIndex timestamp
  rw [← stored.fileSize] at write sorted
  rw [← placed] at write
  refine stored.after_write write sorted (updated.header.trans (raised.header.trans same))
    (updated.state.trans (raised.state.trans state)) ?_ ?_ ?_
  · rw [updated.fileSize, raised.fileSize, size, placed, stored.fileSize, blocks_append, blocks_cons, blocks_nil,
      append_nil, length_append, Nat.add_assoc]
  · rw [updated.nextOffset, raised.nextOffset, total]
    simp [recordTotal]
  · rw [updated.fileSize, raised.fileSize, ← padded, size, Nat.add_assoc]

variable {result : SegmentAppendResult}

theorem Stored.append (stored : Stored front header batches segment) (nonempty : batch.records ≠ [])
    (once : segment.IndexesOnce segment.nextOffset segment.fileSize)
    (appended : segment.append batch = .ok (next, result)) :
    Stored front header (batches ++ [batch]) next ∧
      result = ⟨segment.nextOffset, segment.fileSize, 1, batch.records.length⟩ := by
  obtain ⟨zeros, written, padded⟩ := stored.extend batch.serializeBatch.length
  have length : batch.serializeBatch.length = (Placed.block (segment.nextOffset, batch)).length := by
    rw [Placed.block, RecordBatch.length_assignOffset, RecordBatch.length_serializeBatch]
  unfold Segment.append at appended
  split at appended
  · cases appended
  · rw [if_neg (by rw [List.isEmpty_iff]; exact nonempty)] at appended
    injection appended with pair
    injection pair with segmentEq resultEq
    subst segmentEq
    refine ⟨?_, resultEq.symm⟩
    rw [length] at written
    rw [← stored.fileSize, length] at padded
    have block : assignOffset segment.nextOffset batch.serializeBatch =
        Placed.block (segment.nextOffset, batch) := rfl
    rw [block, length]
    apply stored.place once written
    · rw [advance_fileSize, padded]
    · rw [advance_data, writeAt_data]
    · rw [extendFile_sparseIndex]
    · rw [advance_sparseIndex, writeAt_sparseIndex]
    · rw [advance_config, writeAt_config, extendFile_config]
    · rw [advance_header, writeAt_header, extendFile_header]
    · rw [advance_state, writeAt_state, extendFile_state]
    · rw [advance_fileSize]
    · rw [advance_nextOffset]

theorem Laid.append (laid : Laid front header batches segment) (nonempty : batch.records ≠ [])
    (appended : segment.append batch = .ok (next, result)) :
    Laid front header (batches ++ [batch]) next ∧
      result = ⟨segment.nextOffset, segment.fileSize, 1, batch.records.length⟩ := by
  obtain ⟨stored, same⟩ := laid.stored.append nonempty (indexesOnce_of_above laid.index_below _) appended
  refine ⟨stored.laid fun other member => ?_, same⟩
  cases mem_append.mp member with
  | inl old => exact laid.nonempty other old
  | inr new =>
    rw [mem_singleton.mp new]
    exact nonempty

theorem Stored.after_pending {written : Segment} {zeros bytes : Nat} (stored : Stored front header batches segment)
    (whole : Written front zeros (assignOffsets header.baseOffset (batches ++ more)) written)
    (sorted : Sorted written.sparseIndex)
    (same : written.header = segment.header) (state : written.state = segment.state)
    (size : front.length + (blocks (assignOffsets header.baseOffset (batches ++ more))).length = segment.fileSize + bytes)
    (padded : segment.fileSize + (bytes + zeros) = roundUp (segment.fileSize + bytes)) (timestamp : Int64) :
    Stored front header (batches ++ more)
      ((written.advance (segment.fileSize + bytes) (segment.nextOffset + recordTotal more)).raiseMaxTimestamp
        timestamp) := by
  have raised := sameStore_raiseMaxTimestamp
    (written.advance (segment.fileSize + bytes) (segment.nextOffset + recordTotal more)) timestamp
  have index := sparseIndex_raiseMaxTimestamp
    (written.advance (segment.fileSize + bytes) (segment.nextOffset + recordTotal more)) timestamp
  rw [advance_sparseIndex] at index
  have data := raised.data
  rw [advance_data] at data
  refine stored.after_write (whole.congr data index) (index ▸ sorted) ?_ ?_ ?_ ?_ ?_
  · rw [raised.header, advance_header, same]
  · rw [raised.state, advance_state, state]
  · rw [raised.fileSize, advance_fileSize, size]
  · rw [raised.nextOffset, advance_nextOffset]
  · rw [raised.fileSize, advance_fileSize, ← padded, Nat.add_assoc]

theorem length_pending (placed : List Placed) :
    ((placed.map pendingWrite).map (·.data.length)).sum = (blocks placed).length := by
  have each : (fun pending : PendingWrite => pending.data.length) ∘ pendingWrite =
      fun placed : Placed => placed.block.length := by
    funext placed
    simp only [Function.comp_apply, pendingWrite, Placed.block]
  rw [blocks, length_flatMap, map_map, each]

def pendingMaxTs (batches : List RecordBatch) : Int64 :=
  batches.foldl (fun highest batch => if highest < batchMaxTs batch then batchMaxTs batch else highest) 0

theorem Stored.appendBatch (stored : Stored front header batches segment)
    (each : IndexesEach (pendingMaxTs more) segment segment.fileSize (assignOffsets segment.nextOffset more))
    (appended : segment.appendBatch more = .ok (next, result)) :
    Stored front header (batches ++ more) next ∧ result.baseOffset = segment.nextOffset := by
  have placed : assignOffsets header.baseOffset (batches ++ more) =
      assignOffsets header.baseOffset batches ++ assignOffsets segment.nextOffset more := by
    rw [assignOffsets_append, stored.nextOffset]
  have reached : (assignOffsets header.baseOffset (batches ++ more)).Pairwise fun earlier later : Placed =>
      earlier.1 ≤ later.1 := by
    refine (pairwise_assignOffsets header.baseOffset (batches ++ more)).imp ?_
    intro earlier later follows
    omega
  obtain ⟨zeros, written, padded⟩ := stored.extend (blocks (assignOffsets segment.nextOffset more)).length
  unfold Segment.appendBatch at appended
  split at appended
  next none =>
    rw [List.isEmpty_iff] at none
    injection appended with pair
    injection pair with segmentEq resultEq
    rw [← segmentEq, ← resultEq, none, append_nil]
    exact ⟨stored, rfl⟩
  next =>
    split at appended
    · cases appended
    · injection appended with pair
      injection pair with segmentEq resultEq
      rw [← resultEq]
      refine ⟨?_, rfl⟩
      rw [length_pending] at segmentEq
      rw [placed] at reached
      have extended : IndexesEach (pendingMaxTs more)
          (segment.extendFile (blocks (assignOffsets segment.nextOffset more)).length)
          (front.length + (blocks (assignOffsets header.baseOffset batches)).length)
          (assignOffsets segment.nextOffset more) := by
        rw [← stored.fileSize]
        exact EachUpdate.congr each IndexesOnce.congr (extendFile_config segment _) (extendFile_sparseIndex segment _)
      obtain ⟨whole, sorted, same⟩ := written.writePending
        (by rw [extendFile_sparseIndex]; exact stored.sorted) reached (pendingMaxTs more) extended
      rw [← stored.fileSize] at whole sorted same padded
      rw [← placed] at whole
      rw [← segmentEq]
      have header := same.header
      have state := same.state
      rw [extendFile_header] at header
      rw [extendFile_state] at state
      refine stored.after_pending whole sorted header state ?_ padded _
      rw [placed, blocks_append, length_append, stored.fileSize, Nat.add_assoc]

theorem Laid.appendBatch (laid : Laid front header batches segment)
    (nonempty : ∀ batch ∈ more, batch.records ≠ []) (appended : segment.appendBatch more = .ok (next, result)) :
    Laid front header (batches ++ more) next ∧ result.baseOffset = segment.nextOffset := by
  have each : IndexesEach (pendingMaxTs more) segment segment.fileSize (assignOffsets segment.nextOffset more) := by
    apply indexesEach_of_ascending
    · intro entry member later inside
      exact (laid.index_below entry member).trans_le (assignOffsets_bounds inside).1
    · exact pairwise_lt_assignOffsets nonempty
  obtain ⟨stored, same⟩ := laid.stored.appendBatch each appended
  refine ⟨stored.laid fun batch member => ?_, same⟩
  cases mem_append.mp member with
  | inl old => exact laid.nonempty batch old
  | inr new => exact nonempty batch new

end Stored

end Segment

end TorrentMq.Storage
