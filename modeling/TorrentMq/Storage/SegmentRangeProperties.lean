import TorrentMq.Storage.SegmentRange

/-! Which batches a range read of a segment gives back, over a codec that reads back what is stored. -/

set_option autoImplicit false

namespace TorrentMq.Storage

open Bytes Locking Locked List WrittenSegment Placed

namespace Placed

/-- A batch passes the checks that the read loop makes of its length and of its record count. -/
def Readable (placed : Placed) : Prop :=
  61 ≤ placed.blen ∧ placed.blen ≤ kMaxBatchBytes ∧ placed.2.records.length ≤ 1000000

instance decidableReadable (placed : Placed) : Decidable placed.Readable := inferInstanceAs (Decidable (_ ∧ _))

/-- A batch is the one that was stored, at the offsets that it was given. -/
def RestoredTo (placed : Placed) (batch : RecordBatch) : Prop := batch.RestoredFrom placed.2 placed.1

end Placed

structure BatchCodec.Ideal (codec : BatchCodec) (placed : Placed) : Prop where
  framed : FitsInt 4 (placed.blen : Int)
  counted : codec.recordCount placed.block = placed.2.records.length
  decoded : ∃ batch, codec.decode placed.block = .ok batch ∧ placed.RestoredTo batch

def taken (startOffset maxBytes : Int) : Nat → List Placed → List Placed × Bool
  | _, [] => ([], false)
  | bytesRead, placed :: rest =>
    if placed.Readable then
      if placed.endOffset ≤ startOffset then taken startOffset maxBytes bytesRead rest
      else if maxBytes ≤ (bytesRead + placed.block.length : Nat) then ([placed], true)
      else
        let (more, truncated) := taken startOffset maxBytes (bytesRead + placed.block.length) rest
        (placed :: more, truncated)
    else ([], false)

namespace BatchCodec

variable {codec : BatchCodec} {segment : Segment}

theorem readStep_block {before after : Bytes} {placed : Placed}
    (data : segment.data = before ++ (placed.block ++ after))
    (inside : before.length + placed.block.length ≤ segment.fileSize) (ideal : codec.Ideal placed)
    (fits : FitsInt 8 placed.1) (startOffset : Int) :
    ∃ batch, placed.RestoredTo batch ∧ codec.readStep segment startOffset before.length =
      if placed.Readable then
        if placed.endOffset ≤ startOffset then .skip placed.block.length
        else .take batch placed.block.length placed.endOffset
      else .stop := by
  obtain ⟨batch, decoded, restored⟩ := ideal.decoded
  refine ⟨batch, restored, ?_⟩
  have length := placed.length_block
  have blen : decodeInt 4 (encodeInt 4 (placed.blen : Int)) = placed.blen := decodeInt_encodeInt ideal.framed
  have offset : decodeInt 8 (encodeInt 8 placed.1) = placed.1 := decodeInt_encodeInt fits
  unfold readStep
  rw [if_neg (by omega), data, pread_offset, pread_blen, offset, blen]
  dsimp only
  rw [Int.toNat_natCast, pread_block, ideal.counted, decoded, length]
  by_cases readable : placed.Readable
  · obtain ⟨long, short, few⟩ := readable
    rw [if_neg (by omega), if_neg (by omega), if_neg (by omega), if_neg (by omega),
      if_pos (show placed.Readable from ⟨long, short, few⟩)]
    rfl
  · rw [if_neg readable]
    unfold Placed.Readable at readable
    split
    · rfl
    split
    · rfl
    split
    · rfl
    rw [if_pos (by omega)]

structure Adds (result : Segment.SegmentReadResult) (taken : List Placed × Bool)
    (final : Segment.SegmentReadResult) : Prop where
  batches : ∃ got, final.batches = result.batches ++ got ∧ List.Forall₂ Placed.RestoredTo taken.1 got
  nextOffset : final.nextOffset = (taken.1.getLast?.map endOffset).getD result.nextOffset
  isTruncated : final.isTruncated = taken.2

theorem adds_nothing {result : Segment.SegmentReadResult} (fresh : result.isTruncated = false) :
    Adds result ([], false) result :=
  ⟨⟨[], (append_nil _).symm, List.Forall₂.nil⟩, rfl, fresh⟩

theorem readLoop_taken {before : Bytes} {placed : List Placed} {zeros : Bytes}
    (data : segment.data = before ++ (blocks placed ++ zeros))
    (size : segment.fileSize = before.length + (blocks placed).length)
    (ideal : ∀ one ∈ placed, codec.Ideal one ∧ FitsInt 8 one.1) (startOffset maxBytes : Int) {fuel : Nat}
    (enough : placed.length ≤ fuel) {result : Segment.SegmentReadResult} (fresh : result.isTruncated = false) :
    ∃ final, codec.readLoop segment startOffset maxBytes fuel before.length result = .ok final ∧
      Adds result (taken startOffset maxBytes result.bytesRead placed) final := by
  induction placed generalizing before fuel result with
  | nil =>
    rw [taken]
    cases fuel with
    | zero => exact ⟨result, rfl, adds_nothing fresh⟩
    | succ fuel =>
      rw [blocks_nil, length_nil] at size
      rw [readLoop, readStep, if_pos (by omega)]
      exact ⟨result, rfl, adds_nothing fresh⟩
  | cons one placed ih =>
    obtain ⟨fuel, rfl⟩ : ∃ rounds, fuel = rounds + 1 := ⟨fuel - 1, by rw [length_cons] at enough; omega⟩
    rw [length_cons] at enough
    rw [blocks_cons, append_assoc] at data
    rw [blocks_cons, length_append] at size
    obtain ⟨codes, fits⟩ := ideal one mem_cons_self
    have rest := fun {result : Segment.SegmentReadResult} (fresh : result.isTruncated = false) =>
      @ih (before ++ one.block) (by rw [data, append_assoc]) (by rw [size, length_append, Nat.add_assoc])
        (fun other member => ideal other (mem_cons_of_mem one member)) fuel (by omega) result fresh
    rw [length_append] at rest
    obtain ⟨batch, restored, step⟩ := readStep_block data (by omega) codes fits startOffset
    rw [readLoop, step, taken]
    by_cases readable : one.Readable
    · rw [if_pos readable, if_pos readable]
      by_cases skip : one.endOffset ≤ startOffset
      · rw [if_pos skip, if_pos skip]
        exact rest fresh
      · rw [if_neg skip, if_neg skip]
        dsimp only
        by_cases full : maxBytes ≤ (result.bytesRead + one.block.length : Nat)
        · rw [if_pos full, if_pos full]
          exact ⟨_, rfl, ⟨[batch], rfl, .cons restored .nil⟩, rfl, rfl⟩
        · rw [if_neg full, if_neg full]
          obtain ⟨final, loop, ⟨got, batches, all⟩, nextOffset, isTruncated⟩ :=
            @rest ⟨result.batches ++ [batch], result.bytesRead + one.block.length, one.endOffset, false⟩ rfl
          refine ⟨final, loop, ⟨batch :: got, ?_, .cons restored all⟩, ?_, isTruncated⟩
          · rw [batches, append_assoc, singleton_append]
          · rw [nextOffset, getLast?_cons]
            cases (taken startOffset maxBytes (result.bytesRead + one.block.length) placed).1.getLast? with
            | none => rfl
            | some last => rfl
    · rw [if_neg readable, if_neg readable]
      exact ⟨result, rfl, adds_nothing fresh⟩

end BatchCodec

/-!
## What a range takes
-/

section Taken

variable {startOffset maxBytes : Int}

variable {skipped : List Placed}

section

variable (ending : ∀ one ∈ skipped, one.endOffset ≤ startOffset)

include ending

theorem taken_skipped (bytesRead : Nat)
    (rest : List Placed) :
    taken startOffset maxBytes bytesRead (skipped ++ rest) =
      if ∀ one ∈ skipped, one.Readable then taken startOffset maxBytes bytesRead rest else ([], false) := by
  induction skipped with
  | nil => rw [if_pos (fun one member => (not_mem_nil member).elim), nil_append]
  | cons one skipped ih =>
    rw [cons_append, taken, if_pos (ending one mem_cons_self),
      ih fun other member => ending other (mem_cons_of_mem one member)]
    by_cases readable : one.Readable
    · rw [if_pos readable]
      exact if_congr (by simp [readable]) rfl rfl
    · rw [if_neg readable, if_neg fun all => readable (all one mem_cons_self)]

theorem taken_stuck {stuck : Placed}
    (unreadable : ¬stuck.Readable) (bytesRead : Nat) (rest : List Placed) :
    (taken startOffset maxBytes bytesRead (skipped ++ stuck :: rest)).1 = [] := by
  rw [taken_skipped ending, taken, if_neg unreadable, ite_self]

end

variable {tail : List Placed}

section

variable (behind : ∀ one ∈ tail, startOffset < one.endOffset)

include behind

theorem taken_eq_nil_iff (bytesRead : Nat) :
    (taken startOffset maxBytes bytesRead tail).1 = [] ↔ ∀ next ∈ tail.head?, ¬next.Readable := by
  cases tail with
  | nil => simp [taken]
  | cons next tail =>
    have above := behind next mem_cons_self
    rw [taken, if_neg (not_le.mpr above)]
    by_cases readable : next.Readable
    · rw [if_pos readable]
      split <;> simp [readable]
    · simp [readable]

theorem taken_initial (bytesRead : Nat) :
    (taken startOffset maxBytes bytesRead tail).1 <+: tail := by
  induction tail generalizing bytesRead with
  | nil => exact prefix_rfl
  | cons next tail ih =>
    have above := behind next mem_cons_self
    rw [taken, if_neg (not_le.mpr above)]
    split
    · split
      · exact prefix_append [next] tail
      · exact cons_prefix_cons.mpr ⟨rfl, ih (fun one member => behind one (mem_cons_of_mem next member)) _⟩
    · exact nil_prefix

theorem taken_stops {bytesRead : Nat}
    (whole : (taken startOffset maxBytes bytesRead tail).2 = false) :
    ∃ left, tail = (taken startOffset maxBytes bytesRead tail).1 ++ left ∧ ∀ next ∈ left.head?, ¬next.Readable := by
  induction tail generalizing bytesRead with
  | nil =>
    refine ⟨[], rfl, ?_⟩
    intro next none
    cases none
  | cons next tail ih =>
    have above := behind next mem_cons_self
    rw [taken, if_neg (not_le.mpr above)] at whole ⊢
    by_cases readable : next.Readable
    · rw [if_pos readable] at whole ⊢
      by_cases full : maxBytes ≤ (bytesRead + next.block.length : Nat)
      · rw [if_pos full] at whole
        cases whole
      · rw [if_neg full] at whole ⊢
        obtain ⟨left, split, stops⟩ := ih (fun one member => behind one (mem_cons_of_mem next member)) whole
        exact ⟨left, congrArg (List.cons next) split, stops⟩
    · rw [if_neg readable]
      refine ⟨next :: tail, rfl, ?_⟩
      rintro _ ⟨⟩
      exact readable

end

theorem taken_eq_iff {first : List Placed} {rest : List Placed} (some : first ≠ [])
    (behind : ∀ one ∈ first ++ rest, startOffset < one.endOffset) {bytesRead : Nat} (room : bytesRead < maxBytes) :
    (taken startOffset maxBytes bytesRead (first ++ rest)).1 = first ↔
      (∀ one ∈ first, one.Readable) ∧ bytesRead + ((blocks first.dropLast).length : Int) < maxBytes ∧
        (maxBytes ≤ bytesRead + ((blocks first).length : Int) ∨ ∀ next ∈ rest.head?, ¬next.Readable) := by
  induction first generalizing bytesRead with
  | nil => exact absurd rfl some
  | cons one first ih =>
    have above := behind one mem_cons_self
    have later : ∀ other ∈ first ++ rest, startOffset < other.endOffset :=
      fun other member => behind other (mem_cons_of_mem one member)
    rw [cons_append, taken, if_neg (not_le.mpr above), forall_mem_cons]
    by_cases readable : one.Readable
    · rw [if_pos readable]
      cases first with
      | nil =>
        have nothing := @taken_eq_nil_iff startOffset maxBytes rest later (bytesRead + one.block.length)
        rw [nil_append] at *
        by_cases full : maxBytes ≤ (bytesRead + one.block.length : Nat)
        · rw [if_pos full]
          push_cast at full
          simp [readable, room, full]
        · rw [if_neg full]
          push_cast at full
          simp [readable, room, full, nothing]
      | cons two first =>
        rw [dropLast_cons_of_ne_nil (cons_ne_nil two first), blocks_cons, blocks_cons, length_append,
          length_append]
        by_cases full : maxBytes ≤ (bytesRead + one.block.length : Nat)
        · rw [if_pos full]
          push_cast at full ⊢
          refine iff_of_false (by simp) ?_
          rintro ⟨-, less, -⟩
          omega
        · rw [if_neg full]
          have inner := @ih (cons_ne_nil two first) later (bytesRead + one.block.length) (not_le.mp full)
          push_cast at inner ⊢
          simp only [List.cons.injEq, true_and, readable, inner, ← add_assoc]
    · rw [if_neg readable]
      exact iff_of_false (cons_ne_nil one first).symm fun all => readable all.1.1

section

variable (ending : ∀ one ∈ skipped, one.endOffset ≤ startOffset)

include ending

theorem taken_skipped_eq_iff {first rest : List Placed}
    (some : first ≠ []) (behind : ∀ one ∈ first ++ rest, startOffset < one.endOffset) (room : 0 < maxBytes) :
    (taken startOffset maxBytes 0 (skipped ++ (first ++ rest))).1 = first ↔
      ((∀ one ∈ skipped, one.Readable) ∧ ∀ one ∈ first, one.Readable) ∧
        ((blocks first.dropLast).length : Int) < maxBytes ∧
        (maxBytes ≤ ((blocks first).length : Int) ∨ ∀ next ∈ rest.head?, ¬next.Readable) := by
  rw [taken_skipped ending]
  by_cases readable : ∀ one ∈ skipped, one.Readable
  · have fresh := @taken_eq_iff startOffset maxBytes first rest some behind 0 room
    rw [Nat.cast_zero, Int.zero_add, Int.zero_add] at fresh
    rw [if_pos readable, fresh, and_iff_right readable]
  · rw [if_neg readable]
    exact iff_of_false some.symm fun all => readable all.1.1

theorem taken_eq_of_length {first rest : List Placed}
    (behind : ∀ one ∈ first ++ rest, startOffset < one.endOffset) {bytesRead : Nat}
    (length : (taken startOffset maxBytes bytesRead (skipped ++ (first ++ rest))).1.length = first.length) :
    (taken startOffset maxBytes bytesRead (skipped ++ (first ++ rest))).1 = first := by
  rw [taken_skipped ending] at length ⊢
  split at length
  next readable =>
    rw [if_pos readable]
    have front := @taken_initial startOffset maxBytes _ behind bytesRead
    exact (prefix_of_prefix_length_le front (prefix_append first rest) length.le).eq_of_length length
  next unreadable =>
    rw [if_neg unreadable]
    exact (eq_nil_of_length_eq_zero length.symm).symm

end

end Taken

/-!
## Segments that are read
-/

namespace Segment

/-- A batch is not in front of the position at which a read begins. -/
def Scanned (segment : Segment) (startOffset : Int) (placed : Placed) : Prop :=
  ∀ entry ∈ segment.sparseIndex, entry.offset ≤ startOffset → entry.offset ≤ placed.1

theorem Sorted.partitioned {index : List SparseIndexEntry} (sorted : Sorted index) (offset : Int) :
    SortedVector.Partitioned (fun entry : SparseIndexEntry => decide (entry.offset ≤ offset)) index := by
  refine sorted.imp ?_
  intro earlier later less reached
  rw [decide_eq_true_eq] at reached ⊢
  omega

theorem Written.findPosition_of_le {front : Bytes} {zeros : Nat} {placed : List Placed} {segment : Segment}
    (written : Written front zeros placed segment) (sorted : Sorted segment.sparseIndex) {startOffset : Int}
    (reached : ∃ first ∈ placed.head?, first.1 ≤ startOffset) :
    ∃ before one after, placed = before ++ one :: after ∧
      segment.findPosition startOffset = some (front.length + (blocks before).length) ∧ one.1 ≤ startOffset ∧
      (∃ entry ∈ segment.sparseIndex, entry.offset = one.1) ∧ segment.Scanned startOffset one := by
  obtain ⟨before, batch, after, last, split, found, position⟩ := written.findPosition_last reached
  have passed := (sorted.partitioned startOffset).takeWhile_eq_filter
  have member := mem_of_getLast? found
  obtain ⟨inside, below⟩ : last ∈ segment.sparseIndex ∧ last.offset ≤ startOffset := by
    rw [passed, List.mem_filter, decide_eq_true_eq] at member
    exact member
  refine ⟨before, (last.offset, batch), after, split, position, below, ⟨last, inside, rfl⟩, ?_⟩
  intro other among small
  have earlier : other ∈ segment.sparseIndex.takeWhile fun entry => decide (entry.offset ≤ startOffset) := by
    rw [passed, List.mem_filter, decide_eq_true_eq]
    exact ⟨among, small⟩
  obtain ⟨init, final⟩ := getLast?_eq_some_iff.mp found
  have ordered := sorted.sublist (takeWhile_sublist fun entry => decide (entry.offset ≤ startOffset))
  rw [final] at earlier ordered
  cases mem_append.mp earlier with
  | inl early => exact ((pairwise_append.mp ordered).2.2 other early last mem_cons_self).le
  | inr same =>
    rw [mem_singleton.mp same]

theorem head?_assignOffsets (base : Int) (batches : List RecordBatch) :
    (assignOffsets base batches).head? = batches.head?.map fun batch => (base, batch) := by
  cases batches <;> rfl

variable {batches : List RecordBatch}

theorem follow_assignOffsets {base : Int} {left right : List Placed} {last : Placed}
    (split : assignOffsets base batches = left ++ last :: right) :
    (∀ next ∈ right.head?, next.1 = endOffset last) ∧
      (right = [] → endOffset last = base + recordTotal batches) := by
  induction batches generalizing base left with
  | nil => simp [assignOffsets] at split
  | cons batch batches ih =>
    have total := recordTotal_cons batch batches
    rw [assignOffsets] at split
    cases left with
    | nil =>
      injection split with first rest
      rw [← first, ← rest, head?_assignOffsets]
      constructor
      · intro next head
        cases batches with
        | nil => cases head
        | cons other batches =>
          cases head
          rfl
      · intro none
        cases batches with
        | nil => simp [endOffset, recordTotal]
        | cons other batches => cases none
    | cons one left =>
      injection split with _ rest
      obtain ⟨next, ends⟩ := ih rest
      refine ⟨next, fun none => ?_⟩
      rw [ends none, total]
      push_cast
      omega

theorem exists_covering {base offset : Int} (above : base ≤ offset)
    (below : offset < base + recordTotal batches) :
    ∃ one ∈ assignOffsets base batches, one.1 ≤ offset ∧ offset < endOffset one := by
  induction batches generalizing base with
  | nil =>
    simp only [recordTotal, map_nil, sum_nil] at below
    omega
  | cons batch batches ih =>
    have total := recordTotal_cons batch batches
    by_cases inside : offset < base + batch.records.length
    · exact ⟨(base, batch), mem_cons_self, above, inside⟩
    · obtain ⟨one, member, covers⟩ := @ih (base + batch.records.length) (by omega) (by omega)
      exact ⟨one, mem_cons_of_mem _ member, covers⟩

section Laid

variable {codec : BatchCodec} {front : Bytes} {header : SegmentHeader} {batches : List RecordBatch}
  {segment : Segment} {startOffset : Int}

section

variable (laid : Laid front header batches segment)
include laid

theorem Laid.filled {one : Placed}
    (member : one ∈ assignOffsets header.baseOffset batches) : one.1 < one.endOffset := by
  have some := length_pos_iff.mpr (laid.nonempty _ (assignOffsets_bounds member).2.2)
  unfold endOffset
  omega

section

variable (ideal : ∀ one ∈ assignOffsets header.baseOffset batches, codec.Ideal one) (lower : 0 ≤ header.baseOffset)
  (upper : segment.nextOffset < 2 ^ 63)
include ideal lower upper

theorem Laid.read_taken (above : header.baseOffset ≤ startOffset)
    (below : startOffset < segment.nextOffset) (maxBytes : Int) :
    ∃ (before after : List Placed) (result : SegmentReadResult),
      assignOffsets header.baseOffset batches = before ++ after ∧ (∀ one ∈ before, one.endOffset ≤ startOffset) ∧
      (∀ one ∈ assignOffsets header.baseOffset batches, segment.Scanned startOffset one ↔ one ∈ after) ∧
      codec.read segment startOffset maxBytes = .ok result ∧
      List.Forall₂ Placed.RestoredTo (taken startOffset maxBytes 0 after).1 result.batches ∧
      result.isTruncated = (taken startOffset maxBytes 0 after).2 ∧
      ∀ last ∈ (taken startOffset maxBytes 0 after).1.getLast?, result.nextOffset = last.endOffset := by
  obtain ⟨zeros, written⟩ := laid.written
  have next := laid.nextOffset
  have reached : ∃ first ∈ (assignOffsets header.baseOffset batches).head?, first.1 ≤ startOffset := by
    cases batches with
    | nil =>
      simp only [recordTotal, map_nil, sum_nil] at next
      omega
    | cons batch batches => exact ⟨_, rfl, above⟩
  obtain ⟨before, one, after, split, position, small, ⟨entry, indexed, found⟩, scanned⟩ :=
    written.findPosition_of_le laid.stored.sorted reached
  have follow := pairwise_assignOffsets header.baseOffset batches
  rw [split] at follow
  obtain ⟨-, fromHere, across⟩ := pairwise_append.mp follow
  have passed : ∀ other ∈ before, other.endOffset ≤ one.1 :=
    fun other member => across other member one mem_cons_self
  have all : ∀ other ∈ one :: after, codec.Ideal other ∧ FitsInt 8 other.1 := by
    intro other late
    have among : other ∈ assignOffsets header.baseOffset batches := by
      rw [split]
      exact mem_append_right before late
    obtain ⟨inside, -, -⟩ := assignOffsets_bounds among
    have ends := laid.below_nextOffset among
    refine ⟨ideal other among, ?_⟩
    unfold FitsInt
    omega
  have data : segment.data = (front ++ blocks before) ++ (blocks (one :: after) ++ List.replicate zeros 0) := by
    rw [written.data, split, blocks_append, append_assoc, append_assoc]
  have size : segment.fileSize = (front ++ blocks before).length + (blocks (one :: after)).length := by
    rw [laid.fileSize, split, blocks_append, length_append, length_append, Nat.add_assoc]
  have rounds := length_le_blocks (one :: after)
  obtain ⟨final, loop, ⟨got, batches, restored⟩, nextOffset, isTruncated⟩ :=
    BatchCodec.readLoop_taken data size all startOffset maxBytes
      (show (one :: after).length ≤ segment.fileSize by omega)
      (show (SegmentReadResult.mk [] 0 startOffset false).isTruncated = false from rfl)
  rw [nil_append] at batches
  rw [length_append] at loop
  refine ⟨before, one :: after,
    if final.batches.isEmpty then { final with nextOffset := segment.nextOffset } else final, split,
    fun other member => (passed other member).trans small, ?_, ?_, ?_, ?_, ?_⟩
  · intro other member
    rw [split] at member
    constructor
    · intro scan
      cases mem_append.mp member with
      | inl early =>
        have filled := laid.filled (show other ∈ assignOffsets header.baseOffset _ by
          rw [split]; exact mem_append_left _ early)
        have ends := passed other early
        have begins := scan entry indexed (by omega)
        omega
      | inr late => exact late
    · intro late scanAt inside low
      have least := scanned scanAt inside low
      cases late with
      | head => exact least
      | tail _ late =>
        have later := (pairwise_cons.mp fromHere).1 other late
        omega
  · rw [BatchCodec.read, if_neg laid.open_state.1, if_neg laid.open_state.2,
      if_neg (by rw [laid.sameHeader]; omega), if_neg (by omega), position]
    dsimp only
    rw [loop]
    rfl
  · split
    · exact batches ▸ restored
    · exact batches ▸ restored
  · split
    · exact isTruncated
    · exact isTruncated
  · intro last member
    have some : final.batches.isEmpty = false := by
      rw [batches]
      cases got with
      | nil =>
        rw [List.forall₂_nil_right_iff.mp restored] at member
        cases member
      | cons first got => rfl
    rw [some, if_neg (by decide), nextOffset, Option.mem_def.mp member]
    rfl

theorem Laid.readChunks_done {cursor endOffset : Int} (above : header.baseOffset ≤ cursor)
    (within : endOffset ≤ segment.nextOffset)
    (stuck : endOffset ≤ cursor ∨
      ∃ one ∈ assignOffsets header.baseOffset batches, one.1 = cursor ∧ ¬Placed.Readable one)
    (maxBytes : Int) (fuel : Nat) (accumulated : SegmentReadResult) :
    codec.readChunks segment endOffset maxBytes fuel cursor accumulated = .ok accumulated := by
  cases fuel with
  | zero => rfl
  | succ fuel =>
    rw [BatchCodec.readChunks]
    by_cases more : cursor < endOffset ∧ (accumulated.bytesRead : Int) < maxBytes
    · rw [if_pos more]
      rcases stuck with done | ⟨one, member, begins, unreadable⟩
      · omega
      obtain ⟨before, after, result, split, passed, scanned, read, restored, -⟩ :=
        laid.read_taken ideal lower upper above (by omega) (min (maxBytes - accumulated.bytesRead) 1048576)
      obtain ⟨skipped, rest, ahead⟩ : ∃ skipped rest, after = skipped ++ one :: rest := by
        rw [split] at member
        cases mem_append.mp member with
        | inl early =>
          have filled := laid.filled (show one ∈ assignOffsets header.baseOffset batches by
            rw [split]; exact mem_append_left _ early)
          have ends := passed one early
          omega
        | inr late => exact append_of_mem late
      have ending : ∀ other ∈ skipped, Placed.endOffset other ≤ cursor := by
        have follow := pairwise_assignOffsets header.baseOffset batches
        rw [split, ahead] at follow
        intro other early
        exact begins ▸
          (pairwise_append.mp (pairwise_append.mp follow).2.1).2.2 other early one mem_cons_self
      rw [ahead, taken_stuck ending unreadable] at restored
      rw [read]
      dsimp only
      rw [List.forall₂_nil_left_iff.mp restored]
      rfl
    · rw [if_neg more]

end

theorem Laid.stops {before skipped tail : List Placed}
    (split : assignOffsets header.baseOffset batches = before ++ (skipped ++ tail))
    (skips : ∀ one ∈ skipped, one.endOffset ≤ startOffset) (behind : ∀ one ∈ tail, startOffset < one.endOffset)
    {maxBytes : Int} {bytesRead : Nat} (whole : (taken startOffset maxBytes bytesRead (skipped ++ tail)).2 = false)
    {last : Placed} (final : last ∈ (taken startOffset maxBytes bytesRead (skipped ++ tail)).1.getLast?) :
    startOffset < last.endOffset ∧ (last.endOffset = segment.nextOffset ∨
      ∃ one ∈ assignOffsets header.baseOffset batches, one.1 = last.endOffset ∧ ¬Placed.Readable one) := by
  rw [taken_skipped skips] at whole final
  by_cases readable : ∀ one ∈ skipped, one.Readable
  · rw [if_pos readable] at whole final
    obtain ⟨left, rest, stops⟩ := taken_stops behind whole
    obtain ⟨init, front⟩ := getLast?_eq_some_iff.mp final
    rw [front, append_assoc, singleton_append] at rest
    refine ⟨behind last (by rw [rest]; exact mem_append_right _ mem_cons_self), ?_⟩
    have here : assignOffsets header.baseOffset batches = (before ++ (skipped ++ init)) ++ last :: left := by
      rw [split, rest, append_assoc, append_assoc]
    obtain ⟨next, ends⟩ := follow_assignOffsets here
    cases left with
    | nil => exact .inl ((ends rfl).trans laid.nextOffset.symm)
    | cons one left =>
      refine .inr ⟨one, ?_, next one rfl, stops one rfl⟩
      rw [here]
      exact mem_append_right _ (mem_cons_of_mem _ mem_cons_self)
  · rw [if_neg readable] at final
    cases final

end

end Laid

end Segment

/-!
## Parts of a range
-/

def overlapping (startOffset endOffset : Int) (placed : List Placed) : List Placed :=
  placed.filter fun one => decide (startOffset < one.endOffset) && decide (one.1 < endOffset)

def following (endOffset : Int) (placed : List Placed) : List Placed :=
  placed.filter fun one => decide (endOffset ≤ one.1)

theorem exists_parts {placed : List Placed} (follow : placed.Pairwise fun earlier later => earlier.endOffset ≤ later.1)
    (filled : ∀ one ∈ placed, one.1 < one.endOffset) (startOffset endOffset : Int) :
    ∃ skipped inside behind, placed = skipped ++ (inside ++ behind) ∧ (∀ one ∈ skipped, one.endOffset ≤ startOffset) ∧
      (∀ one ∈ inside, startOffset < one.endOffset ∧ one.1 < endOffset) ∧ ∀ one ∈ behind, endOffset ≤ one.1 := by
  have parted : ∀ below : Placed → Int, (∀ one ∈ placed, one.1 ≤ below one ∧ below one ≤ one.endOffset) →
      ∀ limit : Int, SortedVector.Partitioned (fun one : Placed => decide (below one ≤ limit)) placed := by
    intro below between limit
    refine follow.imp_of_mem ?_
    intro earlier later first second ends reached
    have := between earlier first
    have := between later second
    rw [decide_eq_true_eq] at reached ⊢
    omega
  obtain ⟨skipped, rest, split, -, front, back⟩ :=
    (parted Placed.endOffset (fun one member => ⟨(filled one member).le, le_rfl⟩) startOffset).split
  rw [split] at parted filled
  obtain ⟨inside, behind, again, -, before, after⟩ :=
    SortedVector.Partitioned.split (List.Pairwise.sublist (sublist_append_right skipped rest)
      (parted Prod.fst (fun one member => ⟨le_rfl, (filled one member).le⟩) (endOffset - 1)))
  refine ⟨skipped, inside, behind, by rw [split, again], ?_, ?_, ?_⟩
  · intro one member
    exact of_decide_eq_true (front one member)
  · intro one member
    have late := of_decide_eq_false (back one (by rw [again]; exact mem_append_left _ member))
    have early := of_decide_eq_true (before one member)
    constructor <;> omega
  · intro one member
    have late := of_decide_eq_false (after one member)
    omega

/-- The batches of a segment as a range read meets them: some are in front of the position at which it begins, some in
front of the range. -/
structure RangeParts (segment : Segment) (placed : List Placed) (startOffset endOffset : Int)
    (before skipped inside behind : List Placed) : Prop where
  split : placed = before ++ (skipped ++ (inside ++ behind))
  passed : ∀ one ∈ before ++ skipped, one.endOffset ≤ startOffset
  overlaps : ∀ one ∈ inside, one.1 < endOffset
  follows : ∀ one ∈ behind, endOffset ≤ one.1
  above : ∀ one ∈ inside ++ behind, startOffset < one.endOffset
  filled : ∀ one ∈ placed, one.1 < one.endOffset
  scanned : ∀ one ∈ placed, segment.Scanned startOffset one ↔ one ∈ skipped ++ (inside ++ behind)

namespace RangeParts

variable {segment : Segment} {placed before skipped inside behind : List Placed} {startOffset endOffset : Int}

section

variable (parts : RangeParts segment placed startOffset endOffset before skipped inside behind)
include parts

theorem skips : ∀ one ∈ skipped, one.endOffset ≤ startOffset :=
  fun one member => parts.passed one (mem_append_right _ member)

theorem early (range : startOffset < endOffset) : ∀ one ∈ (before ++ skipped) ++ inside, one.1 < endOffset := by
  intro one member
  cases mem_append.mp member with
  | inl front =>
    have ends := parts.passed one front
    have begins := parts.filled one (by
      rw [parts.split, ← append_assoc]
      exact mem_append_left _ front)
    omega
  | inr overlap => exact parts.overlaps one overlap

theorem overlapping_eq : overlapping startOffset endOffset placed = inside := by
  rw [overlapping, parts.split, ← append_assoc, filter_append (before ++ skipped), filter_append inside,
    filter_eq_nil_iff.mpr, filter_eq_self.mpr, filter_eq_nil_iff.mpr, nil_append, append_nil]
  · intro one member
    have begins := parts.follows one member
    simp only [Bool.and_eq_true, decide_eq_true_eq]
    omega
  · intro one member
    have begins := parts.overlaps one member
    have ends := parts.above one (mem_append_left _ member)
    simp only [Bool.and_eq_true, decide_eq_true_eq]
    exact ⟨ends, begins⟩
  · intro one member
    have ends := parts.passed one member
    simp only [Bool.and_eq_true, decide_eq_true_eq]
    omega

theorem following_eq (range : startOffset < endOffset) : following endOffset placed = behind := by
  rw [following, parts.split, ← append_assoc, ← append_assoc, filter_append, filter_eq_nil_iff.mpr,
    filter_eq_self.mpr, nil_append]
  · exact fun one member => decide_eq_true (parts.follows one member)
  · intro one member
    have begins := parts.early range one member
    simp only [decide_eq_true_eq]
    omega

theorem readable_iff (range : startOffset < endOffset) :
    (∀ one ∈ placed, segment.Scanned startOffset one → one.1 < endOffset → one.Readable) ↔
      (∀ one ∈ skipped, one.Readable) ∧ ∀ one ∈ inside, one.Readable := by
  have early := parts.early range
  constructor
  · intro readable
    have among : ∀ one ∈ skipped ++ inside, one.Readable := by
      intro one member
      have late : one ∈ skipped ++ (inside ++ behind) := by
        rw [← append_assoc]
        exact mem_append_left _ member
      have inPlaced : one ∈ placed := by
        rw [parts.split]
        exact mem_append_right _ late
      refine readable one inPlaced ((parts.scanned one inPlaced).mpr late) (early one ?_)
      rw [append_assoc]
      exact mem_append_right _ member
    exact forall_mem_append.mp among
  · rintro ⟨front, overlap⟩ one member scan begins
    cases mem_append.mp ((parts.scanned one member).mp scan) with
    | inl skip => exact front one skip
    | inr rest =>
      cases mem_append.mp rest with
      | inl inner => exact overlap one inner
      | inr late =>
        have := parts.follows one late
        omega

end

end RangeParts

namespace Segment

variable {codec : BatchCodec} {front : Bytes} {header : SegmentHeader} {batches : List RecordBatch}
  {segment : Segment} {startOffset endOffset maxBytes : Int}

theorem Laid.readRange_taken (laid : Laid front header batches segment)
    (ideal : ∀ one ∈ assignOffsets header.baseOffset batches, codec.Ideal one) (lower : 0 ≤ header.baseOffset)
    (upper : segment.nextOffset < 2 ^ 63) (above : header.baseOffset ≤ startOffset) (range : startOffset < endOffset)
    (within : endOffset ≤ segment.nextOffset) (positive : 0 < maxBytes) :
    ∃ (before skipped inside behind : List Placed) (result : SegmentReadResult),
      RangeParts segment (assignOffsets header.baseOffset batches) startOffset endOffset before skipped inside behind ∧
      codec.readRange segment startOffset endOffset maxBytes = .ok result ∧
      List.Forall₂ Placed.RestoredTo
        (taken startOffset (min maxBytes 1048576) 0 (skipped ++ (inside ++ behind))).1 result.batches := by
  obtain ⟨before, after, chunk, split, passed, scanned, read, restored, cut, next⟩ :=
    laid.read_taken ideal lower upper above (by omega) (min maxBytes 1048576)
  have follow : (before ++ after).Pairwise fun earlier later => earlier.endOffset ≤ later.1 := by
    rw [← split]
    exact pairwise_assignOffsets header.baseOffset batches
  have filled : ∀ one ∈ after, one.1 < one.endOffset := by
    intro one member
    exact laid.filled (by rw [split]; exact mem_append_right _ member)
  obtain ⟨skipped, inside, behind, apart, skips, overlaps, follows⟩ :=
    exists_parts (pairwise_append.mp follow).2.1 filled startOffset endOffset
  rw [apart] at split scanned restored cut next filled
  have parts : RangeParts segment (assignOffsets header.baseOffset batches) startOffset endOffset
      before skipped inside behind := by
    refine ⟨split, forall_mem_append.mpr ⟨passed, skips⟩, fun one member => (overlaps one member).2, follows,
      forall_mem_append.mpr ⟨fun one member => (overlaps one member).1, ?_⟩, fun one member => laid.filled member,
      scanned⟩
    intro one member
    have begins := follows one member
    have ends := filled one (mem_append_right _ (mem_append_right _ member))
    omega
  obtain ⟨fuel, rounds⟩ : ∃ fuel, maxBytes.toNat = fuel + 1 := ⟨maxBytes.toNat - 1, by omega⟩
  obtain ⟨accumulated, same, chunks⟩ : ∃ accumulated,
      codec.readChunks segment endOffset maxBytes maxBytes.toNat startOffset { nextOffset := startOffset } =
        .ok accumulated ∧ accumulated.batches = chunk.batches := by
    rw [rounds, BatchCodec.readChunks, if_pos ⟨range, positive⟩]
    dsimp only
    rw [Nat.cast_zero, Int.sub_zero, read]
    dsimp only
    by_cases none : chunk.batches.isEmpty
    · rw [if_pos none]
      exact ⟨_, rfl, (List.isEmpty_iff.mp none).symm⟩
    rw [if_neg none]
    cases truncated : chunk.isTruncated with
    | true =>
      rw [if_pos rfl]
      exact ⟨_, rfl, nil_append _⟩
    | false =>
      rw [if_neg (by decide)]
      obtain ⟨last, final⟩ : ∃ last, last ∈
          (taken startOffset (min maxBytes 1048576) 0 (skipped ++ (inside ++ behind))).1.getLast? := by
        refine Option.ne_none_iff_exists'.mp fun empty => none ?_
        rw [getLast?_eq_none_iff.mp empty] at restored
        exact List.isEmpty_iff.mpr (List.forall₂_nil_left_iff.mp restored)
      obtain ⟨reached, stuck⟩ := laid.stops split skips parts.above (cut.symm.trans truncated) final
      rw [next last final]
      refine ⟨_, laid.readChunks_done ideal lower upper (by omega) within ?_ _ _ _, nil_append _⟩
      exact stuck.imp_left fun done => within.trans done.ge
  refine ⟨before, skipped, inside, behind,
    if accumulated.batches.isEmpty then { accumulated with nextOffset := endOffset } else accumulated, parts, ?_, ?_⟩
  · rw [BatchCodec.readRange, if_neg (not_le.mpr range), same]
    rfl
  · rw [← chunks] at restored
    cases accumulated.batches.isEmpty with
    | true | false => exact restored

end Segment

/-- A range read gives back the batches that overlap the range, in their order and no others. -/
def ReadsRange (codec : BatchCodec) (segment : Segment) (placed : List Placed) (startOffset endOffset maxBytes : Int) :
    Prop :=
  ∃ result, codec.readRange segment startOffset endOffset maxBytes = .ok result ∧
    List.Forall₂ Placed.RestoredTo (overlapping startOffset endOffset placed) result.batches

/-- The read loop gets to the last batch of a range within one chunk, and it ends there: at the limit of the chunk, or
because the next batch is missing or cannot be read. -/
structure EndsWithRange (segment : Segment) (placed : List Placed) (startOffset endOffset maxBytes : Int) : Prop where
  readable : ∀ one ∈ placed, segment.Scanned startOffset one → one.1 < endOffset → one.Readable
  within : (blocks (overlapping startOffset endOffset placed).dropLast).length < 1048576
  ends : min maxBytes 1048576 ≤ ((blocks (overlapping startOffset endOffset placed)).length : Int) ∨
    ∀ next ∈ (following endOffset placed).head?, ¬next.Readable

theorem length_blocks_dropLast {placed : List Placed} (some : placed ≠ []) :
    (blocks placed.dropLast).length < (blocks placed).length := by
  have split := congrArg (fun list => (blocks list).length) (dropLast_append_getLast some)
  have length := (placed.getLast some).length_block
  rw [blocks_append, blocks_cons, blocks_nil, append_nil, length_append] at split
  omega

namespace Segment

variable {codec : BatchCodec} {front : Bytes} {header : SegmentHeader} {batches : List RecordBatch}
  {segment : Segment} {startOffset endOffset maxBytes : Int}

theorem readsRange_iff_taken {placed before skipped inside behind : List Placed} {result : SegmentReadResult}
    (parts : RangeParts segment placed startOffset endOffset before skipped inside behind)
    (read : codec.readRange segment startOffset endOffset maxBytes = .ok result) {limit : Int}
    (restored : List.Forall₂ Placed.RestoredTo (taken startOffset limit 0 (skipped ++ (inside ++ behind))).1
      result.batches) :
    ReadsRange codec segment placed startOffset endOffset maxBytes ↔
      (taken startOffset limit 0 (skipped ++ (inside ++ behind))).1 = inside := by
  rw [ReadsRange, parts.overlapping_eq, read]
  constructor
  · rintro ⟨_, ⟨⟩, holding⟩
    exact taken_eq_of_length parts.skips parts.above (restored.length_eq.trans holding.length_eq.symm)
  · intro same
    exact ⟨result, rfl, same ▸ restored⟩

theorem overlapping_ne_nil {base : Int} {batches : List RecordBatch} (above : base ≤ startOffset)
    (below : startOffset < base + recordTotal batches) (range : startOffset < endOffset) :
    overlapping startOffset endOffset (assignOffsets base batches) ≠ [] := by
  obtain ⟨covering, member, begins, ends⟩ := exists_covering above below
  refine ne_nil_of_mem (List.mem_filter.mpr ⟨member, ?_⟩)
  simp only [Bool.and_eq_true, decide_eq_true_eq]
  omega

/-- A range read gives back just the batches that overlap its range where the read loop ends with them. -/
theorem readsRange_iff (laid : Laid front header batches segment)
    (ideal : ∀ one ∈ assignOffsets header.baseOffset batches, codec.Ideal one) (lower : 0 ≤ header.baseOffset)
    (upper : segment.nextOffset < 2 ^ 63) (above : header.baseOffset ≤ startOffset) (range : startOffset < endOffset)
    (within : endOffset ≤ segment.nextOffset)
    (fits : ((blocks (overlapping startOffset endOffset (assignOffsets header.baseOffset batches))).length : Int) ≤
      maxBytes) :
    ReadsRange codec segment (assignOffsets header.baseOffset batches) startOffset endOffset maxBytes ↔
      EndsWithRange segment (assignOffsets header.baseOffset batches) startOffset endOffset maxBytes := by
  have next := laid.nextOffset
  have some := @overlapping_ne_nil startOffset endOffset _ batches above (by omega) range
  have shorter := length_blocks_dropLast some
  obtain ⟨before, skipped, inside, behind, result, parts, read, restored⟩ :=
    laid.readRange_taken ideal lower upper above range within (show 0 < maxBytes by omega)
  rw [parts.overlapping_eq] at some shorter fits
  rw [readsRange_iff_taken parts read restored, taken_skipped_eq_iff parts.skips some parts.above (by omega),
    ← parts.readable_iff range]
  constructor
  · rintro ⟨readable, room, ends⟩
    refine ⟨readable, ?_, ?_⟩
    · rw [parts.overlapping_eq]
      omega
    · rwa [parts.overlapping_eq, parts.following_eq range]
  · rintro ⟨readable, room, ends⟩
    rw [parts.overlapping_eq] at room
    rw [parts.overlapping_eq, parts.following_eq range] at ends
    exact ⟨readable, by omega, ends⟩

theorem ideal_segmentCodec {placed : Placed} (survives : placed.2.Survives)
    (counted : placed.2.misreadCount = placed.2.records.length) (fits : FitsInt 8 placed.1) :
    segmentCodec.Ideal placed where
  framed := by
    have small := survives.restorable.size
    rw [kMaxBatchBytes] at small
    exact fitsInt_of_length (by rw [blen]; omega)
  counted := by
    rw [recordCount_segmentCodec, block, RecordBatch.pread_count, counted]
  decoded := by
    refine ⟨placed.2.restored placed.1, ?_,
      RecordBatch.restoredFrom_restored survives.restorable survives.delta placed.1⟩
    rw [decode_segmentCodec]
    exact RecordBatch.deserializeBatch_assignOffset survives.restorable fits

def twoBatches : List RecordBatch := [luckyBatch, luckyBatch]

theorem exists_twoBatches : ∃ segment front header, Laid front header twoBatches segment ∧
    header.baseOffset = 0 ∧ segment.nextOffset = 2 := by
  obtain ⟨fresh, opened⟩ := Segment.open_fresh (show 0 ≤ ({} : SegmentConfig).baseOffset from le_rfl) 0 0
  obtain ⟨-, base, front, laid⟩ := Segment.laid_fresh opened
  have active : ((Segment.new {} 0 none none).open 0).toOption.map Segment.isActive = some true := by
    decide +kernel
  rw [opened] at active
  obtain ⟨next, result, appended⟩ : ∃ next result, fresh.appendBatch twoBatches = .ok (next, result) := by
    rw [appendBatch, if_neg (by decide), Option.some.inj active, if_neg (by decide)]
    exact ⟨_, _, rfl⟩
  obtain ⟨after, -⟩ := laid.appendBatch (by decide) appended
  refine ⟨next, front, _, after, base, ?_⟩
  rw [after.nextOffset, base]
  rfl

theorem ideal_twoBatches : ∀ one ∈ assignOffsets 0 twoBatches, segmentCodec.Ideal one := by
  intro one member
  obtain ⟨lower, upper, inside⟩ := assignOffsets_bounds member
  have same : one.2 = luckyBatch := by simpa [twoBatches] using inside
  have total : recordTotal twoBatches = 2 := rfl
  refine ideal_segmentCodec (same ▸ luckyBatch_survives) ?_ ?_
  · rw [same]
    decide +kernel
  · unfold FitsInt
    omega

theorem length_luckyBatch (offset : Int) : (block (offset, luckyBatch)).length = 86 := by
  have body : luckyBatch.serializeBody.length = 65 := by decide +kernel
  rw [length_block, blen, body]

theorem readable_luckyBatch (offset : Int) : Placed.Readable (offset, luckyBatch) := by
  have length := length_luckyBatch offset
  rw [length_block] at length
  refine ⟨by omega, by rw [kMaxBatchBytes]; omega, ?_⟩
  change luckyBatch.records.length ≤ 1000000
  decide

theorem readsRange_twoBatches : ∃ segment front header, Laid front header twoBatches segment ∧
    ReadsRange segmentCodec segment (assignOffsets header.baseOffset twoBatches) 0 2 1000 := by
  obtain ⟨segment, front, header, laid, base, next⟩ := exists_twoBatches
  have placed : assignOffsets header.baseOffset twoBatches =
      [(0, luckyBatch), (1, luckyBatch)] := by
    rw [base]
    rfl
  have overlap : overlapping 0 2 (assignOffsets header.baseOffset twoBatches) =
      [(0, luckyBatch), (1, luckyBatch)] := by
    rw [placed]
    rfl
  refine ⟨segment, front, header, laid, (readsRange_iff laid (base ▸ ideal_twoBatches) base.ge (by rw [next]; decide)
    base.le (by decide) next.ge ?_).mpr ⟨?_, ?_, .inr ?_⟩⟩
  · rw [overlap, blocks_cons, blocks_cons, blocks_nil, length_append, length_append, length_luckyBatch,
      length_luckyBatch]
    decide
  · intro one member _ _
    rw [placed] at member
    have same : one.2 = luckyBatch := by
      rcases mem_pair.mp member with rfl | rfl <;> rfl
    have readable := readable_luckyBatch one.1
    rwa [← same] at readable
  · rw [overlap, dropLast_cons_of_ne_nil (cons_ne_nil _ _), dropLast_singleton, blocks_cons, blocks_nil,
      append_nil, length_luckyBatch]
    decide
  · rw [placed]
    rintro one ⟨⟩

/-- Both of two batches are read for a range that holds the first one only. -/
theorem not_readsRange_twoBatches : ¬∀ (codec : BatchCodec) (front : Bytes) (header : SegmentHeader)
    (batches : List RecordBatch) (segment : Segment) (startOffset endOffset maxBytes : Int),
    Laid front header batches segment → (∀ one ∈ assignOffsets header.baseOffset batches, codec.Ideal one) →
    0 ≤ header.baseOffset → segment.nextOffset < 2 ^ 63 → header.baseOffset ≤ startOffset → startOffset < endOffset →
    endOffset ≤ segment.nextOffset →
    ((blocks (overlapping startOffset endOffset (assignOffsets header.baseOffset batches))).length : Int) ≤ maxBytes →
    ReadsRange codec segment (assignOffsets header.baseOffset batches) startOffset endOffset maxBytes := by
  intro claim
  obtain ⟨segment, front, header, laid, base, next⟩ := exists_twoBatches
  have ideal : ∀ one ∈ assignOffsets header.baseOffset twoBatches, segmentCodec.Ideal one := base ▸ ideal_twoBatches
  have upper : segment.nextOffset < 2 ^ 63 := by rw [next]; decide
  have overlap : overlapping 0 1 (assignOffsets header.baseOffset twoBatches) = [(0, luckyBatch)] := by
    rw [base]
    rfl
  have behindFirst : following 1 (assignOffsets header.baseOffset twoBatches) = [(1, luckyBatch)] := by
    rw [base]
    rfl
  have size : (blocks [((0 : Int), luckyBatch)]).length = 86 := by
    rw [blocks_cons, blocks_nil, append_nil, length_luckyBatch]
  have reads := claim segmentCodec front header twoBatches segment 0 1 1000 laid ideal base.ge upper base.le (by decide)
    (by rw [next]; decide) (by rw [overlap, size]; decide)
  obtain ⟨before, skipped, inside, behind, result, parts, read, restored⟩ :=
    laid.readRange_taken ideal base.ge upper base.le (by decide : (0 : Int) < 1) (by rw [next]; decide)
      (by decide : (0 : Int) < 1000)
  have first := parts.overlapping_eq.symm.trans overlap
  have second := (parts.following_eq (by decide)).symm.trans behindFirst
  have same := (readsRange_iff_taken parts read restored).mp reads
  rw [taken_skipped_eq_iff parts.skips (by rw [first]; exact cons_ne_nil _ _) parts.above (by decide), first,
    second, size] at same
  obtain ⟨-, -, full | stuck⟩ := same
  · omega
  · exact stuck _ rfl (readable_luckyBatch 1)

end Segment

end TorrentMq.Storage
