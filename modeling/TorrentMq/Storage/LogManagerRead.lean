import Mathlib.Algebra.Order.BigOperators.Group.List
import Mathlib.Algebra.Order.Group.Nat
import TorrentMq.Storage.LogManagerChain

/-! Which records a read with read-committed isolation gives back. -/

set_option autoImplicit false

namespace TorrentMq.Storage

open List Placed LogManager

def Placed.records (placed : Placed) : List Record := placed.delivered.records

namespace IdealSegment

theorem mem_records {segment : IdealSegment} {record : Record} :
    record ∈ segment.records ↔ ∃ placed ∈ segment.placed, record ∈ placed.records := mem_flatMap

theorem takeBytes_subset (maxBytes : Int) (bytesRead : Nat) (batches : List Placed) :
    ∀ placed ∈ (takeBytes maxBytes bytesRead batches).1, placed ∈ batches := by
  induction batches generalizing bytesRead with
  | nil => exact fun _ member => member
  | cons first batches ih =>
    intro placed member
    rw [takeBytes] at member
    split at member
    · cases member
    · cases member with
      | head => exact mem_cons_self
      | tail _ member => exact mem_cons_of_mem _ (ih _ placed member)

theorem takeBytes_of_sum {maxBytes : Int} {bytesRead : Nat} {batches : List Placed}
    (below : ((bytesRead + (batches.map size).sum : Nat) : Int) < maxBytes) :
    takeBytes maxBytes bytesRead batches = (batches, bytesRead + (batches.map size).sum) := by
  induction batches generalizing bytesRead with
  | nil => rfl
  | cons first batches ih =>
    rw [map_cons, sum_cons, ← Nat.add_assoc] at below ⊢
    rw [takeBytes, if_neg (by omega), ih below]

end IdealSegment

namespace LogManager

open IdealSegment

def placed (manager : LogManager) : List Placed := manager.segments.flatMap IdealSegment.placed

def within (startOffset endOffset : Int) (placed : Placed) : Bool :=
  decide (startOffset < placed.endOffset) && decide (placed.1 < endOffset)

variable {placed : Placed}

theorem within_iff {startOffset endOffset : Int} :
    within startOffset endOffset placed = true ↔ startOffset < placed.endOffset ∧ placed.1 < endOffset := by
  rw [within, Bool.and_eq_true, decide_eq_true_iff, decide_eq_true_iff]

def gather (effectiveEnd : Int) : List IdealSegment → Option Int → List Placed
  | [], _ => []
  | segment :: segments, startOffset =>
    let segStart := startOffset.getD segment.baseOffset
    let segStop := min (if segments.isEmpty then effectiveEnd else segment.nextOffset) effectiveEnd
    if segStop ≤ segStart then []
    else segment.placed.filter (within segStart segStop) ++ gather effectiveEnd segments none

theorem readRange_of_lt {segment : IdealSegment} {startOffset endOffset : Int} (below : startOffset < endOffset)
    (maxBytes : Int) :
    segment.readRange startOffset endOffset maxBytes =
      { batches := (takeBytes maxBytes 0 (segment.placed.filter (within startOffset endOffset))).1.map delivered
        bytesRead := (takeBytes maxBytes 0 (segment.placed.filter (within startOffset endOffset))).2
        isTruncated := decide (maxBytes ≤
          ((takeBytes maxBytes 0 (segment.placed.filter (within startOffset endOffset))).2 : Int)) } := by
  rw [readRange, if_neg (by omega)]
  rfl

theorem readSegments_subset (effectiveEnd : Int) (segments : List IdealSegment) (startOffset : Option Int)
    (remaining : Int) :
    ∀ batch ∈ (readSegments effectiveEnd segments startOffset remaining).1,
      ∃ placed ∈ gather effectiveEnd segments startOffset, batch = placed.delivered := by
  induction segments generalizing startOffset remaining with
  | nil => exact fun _ member => (not_mem_nil member).elim
  | cons segment segments ih =>
    intro batch member
    rw [readSegments] at member
    rw [gather]
    dsimp only at member ⊢
    generalize min (if segments.isEmpty = true then effectiveEnd else segment.nextOffset) effectiveEnd = segStop
      at member ⊢
    split at member
    · cases member
    split at member
    · cases member
    next below =>
      rw [readRange_of_lt (not_le.mp below)] at member
      rw [if_neg below]
      have first : ∀ batch ∈ (takeBytes remaining 0 (segment.placed.filter
            (within (startOffset.getD segment.baseOffset) segStop))).1.map delivered,
          ∃ placed ∈ segment.placed.filter (within (startOffset.getD segment.baseOffset) segStop) ++
            gather effectiveEnd segments none, batch = placed.delivered := by
        intro batch taken
        obtain ⟨placed, inside, rfl⟩ := mem_map.mp taken
        exact ⟨placed, mem_append_left _ (takeBytes_subset _ _ _ placed inside), rfl⟩
      split at member
      · exact first batch member
      · cases mem_append.mp member with
        | inl early => exact first batch early
        | inr late =>
          obtain ⟨placed, inside, same⟩ := ih none _ batch late
          exact ⟨placed, mem_append_right _ inside, same⟩

variable {segments : List IdealSegment}

variable {startOffset : Option Int}

theorem readSegments_of_sum {effectiveEnd : Int}
    {remaining : Int} (below : (((gather effectiveEnd segments startOffset).map size).sum : Int) < remaining) :
    (readSegments effectiveEnd segments startOffset remaining).1 =
      (gather effectiveEnd segments startOffset).map delivered := by
  induction segments generalizing startOffset remaining with
  | nil => rfl
  | cons segment segments ih =>
    rw [gather] at below ⊢
    rw [readSegments]
    dsimp only at below ⊢
    generalize min (if segments.isEmpty = true then effectiveEnd else segment.nextOffset) effectiveEnd = segStop
      at below ⊢
    rw [if_neg (by omega)]
    split at below
    next closed =>
      rw [if_pos closed, if_pos closed]
      rfl
    next inside =>
      rw [map_append, sum_append] at below
      rw [if_neg inside, if_neg inside, readRange_of_lt (not_le.mp inside), takeBytes_of_sum (by omega)]
      dsimp only
      rw [Nat.zero_add, if_neg (by simp only [decide_eq_true_eq]; omega)]
      dsimp only
      rw [ih (by omega), map_append]

theorem mergeBatches_records (batches : List RecordBatch) :
    ((mergeBatches batches).map (·.records)).getD [] = batches.flatMap (·.records) := by
  cases batches with
  | nil => rfl
  | cons first batches =>
    cases batches with
    | nil => exact (append_nil _).symm
    | cons second batches => rfl

theorem placed_bounds {segment : IdealSegment} (member : placed ∈ segment.placed) :
    segment.baseOffset ≤ placed.1 ∧ placed.1 ≤ placed.endOffset ∧ placed.endOffset ≤ segment.nextOffset := by
  obtain ⟨lower, upper, -⟩ := Segment.assignOffsets_bounds member
  unfold endOffset IdealSegment.nextOffset
  omega

theorem pairwise_placed (chain : segments.IsChain Follows) :
    (segments.flatMap IdealSegment.placed).Pairwise fun earlier later => earlier.endOffset ≤ later.1 := by
  rw [pairwise_flatMap]
  constructor
  · intro segment _
    exact Segment.pairwise_assignOffsets segment.baseOffset segment.batches
  · refine (pairwise_next_of_isChain chain).imp ?_
    intro earlier later follows before beforeMember after afterMember
    have first := placed_bounds beforeMember
    have second := placed_bounds afterMember
    omega

theorem placed_unique (chain : segments.IsChain Follows) {left right : Placed}
    (leftMember : left ∈ segments.flatMap IdealSegment.placed)
    (rightMember : right ∈ segments.flatMap IdealSegment.placed) {offset : Int}
    (inLeft : left.1 ≤ offset ∧ offset < left.endOffset) (inRight : right.1 ≤ offset ∧ offset < right.endOffset) :
    left = right := by
  have apart : (segments.flatMap IdealSegment.placed).Pairwise fun earlier later =>
      earlier.endOffset ≤ later.1 ∨ later.endOffset ≤ earlier.1 := (pairwise_placed chain).imp .inl
  by_contra different
  have : Std.Symm fun earlier later : Placed =>
      earlier.endOffset ≤ later.1 ∨ later.endOffset ≤ earlier.1 := ⟨fun _ _ => Or.symm⟩
  rcases apart.forall leftMember rightMember different with before | after <;> omega

theorem gather_sublist {effectiveEnd start : Int}
    (first : ∀ segment ∈ segments.head?, start ≤ startOffset.getD segment.baseOffset)
    (rest : ∀ segment ∈ segments.tail, start ≤ segment.baseOffset) :
    (gather effectiveEnd segments startOffset).Sublist
      ((segments.flatMap IdealSegment.placed).filter (within start effectiveEnd)) := by
  induction segments generalizing startOffset with
  | nil => exact List.Sublist.slnil
  | cons segment segments ih =>
    have above := first segment rfl
    rw [gather, flatMap_cons, filter_append]
    have stop : min (if segments.isEmpty = true then effectiveEnd else segment.nextOffset) effectiveEnd ≤
        effectiveEnd := min_le_right _ _
    generalize min (if segments.isEmpty = true then effectiveEnd else segment.nextOffset) effectiveEnd = segStop
      at stop ⊢
    split
    · exact nil_sublist _
    · refine List.Sublist.append ?_ (ih ?_ ?_)
      · apply monotone_filter_right
        intro placed inside
        obtain ⟨lower, upper⟩ := within_iff.mp inside
        exact within_iff.mpr ⟨by omega, by omega⟩
      · intro next member
        exact rest next (mem_of_mem_head? member)
      · intro next member
        exact rest next (mem_of_mem_tail member)

theorem gather_complete {effectiveEnd : Int}
    (chain : segments.IsChain Follows)
    (blocked : ∀ segment ∈ segments.head?,
      min (if segments.tail.isEmpty then effectiveEnd else segment.nextOffset) effectiveEnd ≤
        startOffset.getD segment.baseOffset → effectiveEnd ≤ segment.baseOffset)
    (filled : ∀ segment ∈ segments.tail, segment.nextOffset = segment.baseOffset → effectiveEnd ≤ segment.baseOffset)
    (member : placed ∈ segments.flatMap IdealSegment.placed) (some : placed.1 < placed.endOffset)
    (late : ∀ start ∈ startOffset, start < placed.endOffset) (below : placed.1 < effectiveEnd) :
    placed ∈ gather effectiveEnd segments startOffset := by
  induction segments generalizing startOffset with
  | nil => cases member
  | cons segment segments ih =>
    have sorted := (pairwise_cons.mp (sorted_of_isChain chain)).1
    have reached : segment.baseOffset ≤ placed.1 := by
      rw [flatMap_cons] at member
      cases mem_append.mp member with
      | inl early => exact (placed_bounds early).1
      | inr late =>
        obtain ⟨later, inside, stored⟩ := mem_flatMap.mp late
        exact (sorted later inside).trans (placed_bounds stored).1
    have free := mt (blocked segment rfl) (by omega)
    rw [tail_cons] at free
    rw [gather, if_neg free]
    rw [flatMap_cons] at member
    cases mem_append.mp member with
    | inl early =>
      have bounds := placed_bounds early
      refine mem_append_left _ (List.mem_filter.mpr ⟨early, within_iff.mpr ⟨?_, ?_⟩⟩)
      · cases startOffset with
        | none =>
          rw [Option.getD_none]
          omega
        | some start => exact late start rfl
      · split <;> omega
    | inr later =>
      refine mem_append_right _ (ih chain.tail ?_ ?_ later (fun _ none => by cases none))
      · intro next head
        have empty := filled next (mem_of_mem_head? head)
        have grows := next.baseOffset_le_nextOffset
        rw [Option.getD_none]
        split
        · omega
        · intro stopped
          by_cases same : next.nextOffset = next.baseOffset
          · exact empty same
          · omega
      · intro next inside
        exact filled next (mem_of_mem_tail inside)

theorem gather_before_empty {effectiveEnd : Int} {empty : IdealSegment}
    (chain : segments.IsChain Follows) (upper : ∀ last ∈ segments.getLast?, effectiveEnd ≤ last.nextOffset)
    (member : empty ∈ segments) (none : empty.nextOffset = empty.baseOffset)
    (inside : empty.baseOffset < effectiveEnd)
    (met : placed ∈ gather effectiveEnd segments Option.none) : placed.endOffset ≤ empty.baseOffset := by
  induction segments with
  | nil => cases member
  | cons segment segments ih =>
    rw [gather] at met
    cases member with
    | head =>
      have stopped : min (if segments.isEmpty = true then effectiveEnd else empty.nextOffset) effectiveEnd ≤
          Option.none.getD empty.baseOffset := by
        cases segments with
        | nil =>
          have := upper empty rfl
          omega
        | cons second segments =>
          rw [isEmpty_cons, if_neg (by decide), Option.getD_none]
          omega
      rw [if_pos stopped] at met
      cases met
    | tail _ member =>
      have follows := (pairwise_cons.mp (pairwise_next_of_isChain chain)).1 empty member
      generalize min (if segments.isEmpty = true then effectiveEnd else segment.nextOffset) effectiveEnd =
        segStop at met
      split at met
      · cases met
      · cases mem_append.mp met with
        | inl early =>
          have := placed_bounds (mem_of_mem_filter early)
          omega
        | inr late =>
          refine ih chain.tail ?_ member late
          cases segments with
          | nil => cases member
          | cons second segments => exact fun last final => upper last (by rwa [getLast?_cons_cons])

def FetchResult.records (result : FetchResult) : List Record := (result.batch.map (·.records)).getD []

def committedEnd (manager : LogManager) : Int := min manager.logEndOffset manager.lastStableOffset

/-- A fetch gives back no record from the last stable offset on, and all those below it from its
start on, unless they reach the limit. -/
def Isolated (manager : LogManager) (startOffset maxBytes : Int) : Prop :=
  ∃ result, manager.read startOffset maxBytes none .readCommitted = .ok result ∧
    (∀ record ∈ result.records, record.offset < manager.lastStableOffset) ∧
    ((((manager.placed.filter (within startOffset manager.committedEnd)).map size).sum : Int) < maxBytes →
      ∀ record ∈ manager.records, startOffset ≤ record.offset → record.offset < manager.committedEnd →
        record ∈ result.records)

/-- The last stable offset is set and no batch lies across it, and no empty segment lies between the
start of a fetch and the end of the committed part. -/
def Committable (manager : LogManager) (startOffset : Int) : Prop :=
  manager.logEndOffset ≤ startOffset ∨
    (0 < manager.lastStableOffset ∧
      (manager.lastStableOffset ≤ startOffset ∨
        (∀ placed ∈ manager.placed,
          ¬(placed.1 < manager.lastStableOffset ∧ manager.lastStableOffset < placed.endOffset)) ∧
        ∀ segment ∈ manager.segments, segment.nextOffset = segment.baseOffset →
          segment.baseOffset ≤ startOffset ∨ manager.committedEnd ≤ segment.baseOffset))

def effectiveEnd (manager : LogManager) : Int :=
  if 0 < manager.lastStableOffset ∧ manager.lastStableOffset < manager.logEndOffset then manager.lastStableOffset
  else manager.logEndOffset

theorem effectiveEnd_of_pos {manager : LogManager} (positive : 0 < manager.lastStableOffset) :
    manager.effectiveEnd = manager.committedEnd := by
  unfold effectiveEnd committedEnd
  split <;> omega

theorem mem_manager_records {manager : LogManager} {record : Record} :
    record ∈ manager.records ↔ ∃ placed ∈ manager.placed, record ∈ placed.records := by
  unfold records placed
  simp only [mem_flatMap, IdealSegment.mem_records]
  constructor
  · rintro ⟨segment, inside, placed, stored, member⟩
    exact ⟨placed, ⟨segment, inside, stored⟩, member⟩
  · rintro ⟨placed, ⟨segment, inside, stored⟩, member⟩
    exact ⟨segment, inside, placed, stored, member⟩

theorem mem_placed_records {record : Record} (member : record ∈ placed.records) :
    placed.1 ≤ record.offset ∧ record.offset < placed.endOffset := by
  have offset := @mem_map_of_mem _ _ _ _ Record.offset member
  rw [Placed.records, IdealSegment.offsets_delivered, mem_map] at offset
  obtain ⟨i, inside, same⟩ := offset
  have below := mem_range.mp inside
  unfold Placed.endOffset
  omega

theorem exists_placed_record {offset : Int} (lower : placed.1 ≤ offset)
    (upper : offset < placed.endOffset) : ∃ record ∈ placed.records, record.offset = offset := by
  unfold Placed.endOffset at upper
  have member : offset ∈ placed.records.map Record.offset := by
    rw [Placed.records, IdealSegment.offsets_delivered, mem_map]
    exact ⟨(offset - placed.1).toNat, mem_range.mpr (by omega), by omega⟩
  exact mem_map.mp member

section Linked

variable {«sealed» : List IdealSegment} {active : IdealSegment} {manager : LogManager} {startOffset : Int}

theorem Linked.chain (linked : Linked «sealed» active manager) : manager.segments.IsChain Follows := by
  rw [linked.segments]
  exact linked.follows

theorem read_beyond (opened : manager.isOpen = true) (inRange : manager.logStartOffset ≤ startOffset)
    (beyond : manager.logEndOffset ≤ startOffset) (maxBytes : Int) :
    ∃ result, manager.read startOffset maxBytes none .readCommitted = .ok result ∧ result.records = [] := by
  unfold read
  dsimp only
  rw [opened, if_neg (by decide), if_neg (by omega), if_pos beyond]
  exact ⟨_, rfl, rfl⟩

theorem Linked.holder (linked : Linked «sealed» active manager) (inRange : manager.logStartOffset ≤ startOffset)
    (inside : startOffset < manager.logEndOffset) :
    ∃ before segment after, manager.segments = before ++ segment :: after ∧ segment.baseOffset ≤ startOffset ∧
      startOffset < segment.nextOffset ∧ manager.findSegmentIndex startOffset = some before.length := by
  obtain ⟨segment, position, held⟩ := linked.find inRange (linked.logEndOffset ▸ inside)
  have found := findSegmentIndex_of_lowerBound position held
  obtain ⟨low, high⟩ := holds_iff.mp held
  obtain ⟨index, same⟩ := List.getElem?_eq_some_iff.mp position
  refine ⟨manager.segments.take (lowerBound manager.segments startOffset), segment,
    manager.segments.drop (lowerBound manager.segments startOffset + 1), ?_, low, high, ?_⟩
  · rw [← same, ← drop_eq_getElem_cons index, take_append_drop]
  · rw [length_take_of_le index.le]
    exact found

theorem Linked.read (linked : Linked «sealed» active manager) (opened : manager.isOpen = true)
    (inRange : manager.logStartOffset ≤ startOffset) (inside : startOffset < manager.logEndOffset) :
    ∃ before segment after, manager.segments = before ++ segment :: after ∧ segment.baseOffset ≤ startOffset ∧
      startOffset < segment.nextOffset ∧ ∀ maxBytes, ∃ result,
        manager.read startOffset maxBytes none .readCommitted = .ok result ∧
        result.records =
          (readSegments manager.effectiveEnd (segment :: after) (some startOffset) maxBytes).1.flatMap (·.records) := by
  obtain ⟨before, segment, after, segments, low, high, found⟩ := linked.holder inRange inside
  refine ⟨before, segment, after, segments, low, high, ?_⟩
  intro maxBytes
  unfold LogManager.read
  dsimp only
  rw [opened, if_neg (by decide), if_neg (by omega), if_neg (by omega), found]
  dsimp only
  rw [segments, drop_left]
  refine ⟨_, rfl, ?_⟩
  rw [FetchResult.records, mergeBatches_records, effectiveEnd]
  simp only [true_and, Option.any_none, Bool.false_eq_true, if_false]

theorem gather_start {effectiveEnd : Int} {segment : IdealSegment} {segments : List IdealSegment}
    (low : segment.baseOffset ≤ startOffset) (high : startOffset < segment.nextOffset)
    (inside : startOffset < effectiveEnd) :
    ∃ placed ∈ gather effectiveEnd (segment :: segments) (some startOffset),
      placed.1 ≤ startOffset ∧ startOffset < placed.endOffset := by
  obtain ⟨record, member, offset⟩ := IdealSegment.exists_record low high
  obtain ⟨placed, stored, inBatch⟩ := IdealSegment.mem_records.mp member
  have bounds := mem_placed_records inBatch
  rw [offset] at bounds
  have stop : startOffset < min (if segments.isEmpty = true then effectiveEnd else segment.nextOffset) effectiveEnd := by
    split <;> omega
  refine ⟨placed, ?_, bounds⟩
  rw [gather, Option.getD_some, if_neg (not_le.mpr stop)]
  exact mem_append_left _ (List.mem_filter.mpr ⟨stored, within_iff.mpr ⟨bounds.2, by omega⟩⟩)

theorem readSegments_records {effectiveEnd remaining : Int} {segments : List IdealSegment}
    (below : (((gather effectiveEnd segments (some startOffset)).map size).sum : Int) < remaining)
    {record : Record} :
    record ∈ (readSegments effectiveEnd segments (some startOffset) remaining).1.flatMap (·.records) ↔
      ∃ placed ∈ gather effectiveEnd segments (some startOffset), record ∈ placed.records := by
  rw [readSegments_of_sum below, flatMap_map, mem_flatMap]
  rfl

section

variable (linked : Linked «sealed» active manager)
include linked

theorem gather_subset {before after : List IdealSegment}
    {segment : IdealSegment} (segments : manager.segments = before ++ segment :: after)
    (high : startOffset < segment.nextOffset) (effectiveEnd : Int) :
    (gather effectiveEnd (segment :: after) (some startOffset)).Sublist
      (manager.placed.filter (within startOffset effectiveEnd)) := by
  have chain := linked.chain
  rw [segments] at chain
  have later := (pairwise_cons.mp (pairwise_next_of_isChain chain.right_of_append)).1
  have part : (gather effectiveEnd (segment :: after) (some startOffset)).Sublist
      (((segment :: after).flatMap IdealSegment.placed).filter (within startOffset effectiveEnd)) := by
    apply gather_sublist
    · rintro _ ⟨⟩
      exact le_rfl
    · intro next member
      have := later next member
      omega
  rw [placed, segments, flatMap_append, filter_append]
  exact part.trans (sublist_append_right _ _)

theorem Linked.not_across (opened : manager.isOpen = true)
    (inRange : manager.logStartOffset ≤ startOffset) (inside : startOffset < manager.logEndOffset)
    (below : startOffset < manager.lastStableOffset) (isolated : ∀ maxBytes, manager.Isolated startOffset maxBytes)
    {across : Placed} (member : across ∈ manager.placed) :
    ¬(across.1 < manager.lastStableOffset ∧ manager.lastStableOffset < across.endOffset) := by
  rintro ⟨starts, ends⟩
  obtain ⟨segment, stored, placedIn⟩ := mem_flatMap.mp member
  have bounds := placed_bounds placedIn
  have upper : segment.nextOffset ≤ manager.logEndOffset := by
    rw [linked.logEndOffset]
    rw [linked.segments] at stored
    cases mem_append.mp stored with
    | inl early => exact (linked.next_le early).trans active.baseOffset_le_nextOffset
    | inr late => rw [mem_singleton.mp late]
  obtain ⟨record, inBatch, offset⟩ := exists_placed_record (le_max_right startOffset across.1)
    (by omega : max startOffset across.1 < across.endOffset)
  obtain ⟨last, inBatchToo, lastOffset⟩ := exists_placed_record starts.le ends
  obtain ⟨result, success, safe, complete⟩ := isolated
    (((manager.placed.filter (within startOffset manager.committedEnd)).map size).sum + 1)
  have returned := complete (by omega) record (mem_manager_records.mpr ⟨across, member, inBatch⟩) (by omega)
    (by unfold committedEnd; omega)
  obtain ⟨before, first, after, segments, low, high, reads⟩ := linked.read opened inRange inside
  obtain ⟨other, again, records⟩ := reads
    (((manager.placed.filter (within startOffset manager.committedEnd)).map size).sum + 1)
  rw [success] at again
  cases again
  rw [records] at returned safe
  obtain ⟨batch, batchMember, inside⟩ := mem_flatMap.mp returned
  obtain ⟨met, gathered, rfl⟩ := readSegments_subset _ _ _ _ batch batchMember
  have metMember := mem_of_mem_filter ((gather_subset linked segments high _).subset gathered)
  have same := placed_unique linked.chain metMember member
    (offset ▸ mem_placed_records inside) (offset ▸ mem_placed_records inBatch)
  rw [same] at batchMember
  have leaked := safe last (mem_flatMap.mpr ⟨_, batchMember, inBatchToo⟩)
  omega

theorem Linked.effectiveEnd_le : manager.effectiveEnd ≤ active.nextOffset := by
  rw [← linked.logEndOffset]
  unfold effectiveEnd
  split <;> omega

theorem Linked.not_blocked (opened : manager.isOpen = true)
    (inRange : manager.logStartOffset ≤ startOffset) (inside : startOffset < manager.logEndOffset)
    (positive : 0 < manager.lastStableOffset) (isolated : ∀ maxBytes, manager.Isolated startOffset maxBytes)
    {empty : IdealSegment} (member : empty ∈ manager.segments) (none : empty.nextOffset = empty.baseOffset) :
    empty.baseOffset ≤ startOffset ∨ manager.committedEnd ≤ empty.baseOffset := by
  by_contra! between
  obtain ⟨behind, below⟩ := between
  have endsBelow : manager.committedEnd ≤ manager.logEndOffset := min_le_left _ _
  obtain ⟨holder, position, held⟩ := linked.find (inRange.trans behind.le)
    (linked.logEndOffset ▸ below.trans_le endsBelow)
  obtain ⟨low, high⟩ := holds_iff.mp held
  obtain ⟨record, stored, offset⟩ := IdealSegment.exists_record low high
  obtain ⟨result, success, -, complete⟩ := isolated
    (((manager.placed.filter (within startOffset manager.committedEnd)).map size).sum + 1)
  have returned := complete (by omega) record
    (mem_flatMap.mpr ⟨holder, mem_of_getElem? position, stored⟩) (by omega) (by omega)
  obtain ⟨before, first, after, segments, firstLow, firstHigh, reads⟩ := linked.read opened inRange inside
  obtain ⟨other, again, records⟩ := reads
    (((manager.placed.filter (within startOffset manager.committedEnd)).map size).sum + 1)
  rw [success] at again
  cases again
  rw [records] at returned
  obtain ⟨batch, batchMember, inBatch⟩ := mem_flatMap.mp returned
  obtain ⟨met, gathered, rfl⟩ := readSegments_subset _ _ _ _ batch batchMember
  have bounds := mem_placed_records inBatch
  have chain := linked.chain
  rw [segments] at chain member
  have later := chain.right_of_append
  have order := (pairwise_cons.mp (pairwise_next_of_isChain later)).1
  have emptyLater : empty ∈ after := by
    cases mem_append.mp member with
    | inl early =>
      have follows := (pairwise_append.mp (pairwise_next_of_isChain chain)).2.2 empty early first
        mem_cons_self
      omega
    | inr late =>
      cases late with
      | head => omega
      | tail _ late => exact late
  have final : ∀ last ∈ after.getLast?, manager.effectiveEnd ≤ last.nextOffset := by
    intro last ends
    have same : manager.segments.getLast? = some last := by
      rw [segments, getLast?_append_of_ne_nil _ (cons_ne_nil _ _)]
      cases after with
      | nil => cases emptyLater
      | cons second rest => rwa [getLast?_cons_cons]
    rw [linked.segments, getLast?_concat] at same
    cases same
    exact linked.effectiveEnd_le
  rw [effectiveEnd_of_pos positive] at gathered final
  have early := order empty emptyLater
  rw [gather] at gathered
  generalize min (if after.isEmpty = true then manager.committedEnd else first.nextOffset) manager.committedEnd =
    segStop at gathered
  split at gathered
  · cases gathered
  · cases mem_append.mp gathered with
    | inl inFirst =>
      have := placed_bounds (mem_of_mem_filter inFirst)
      omega
    | inr inRest =>
      have := gather_before_empty later.tail final emptyLater none below inRest
      omega

end

theorem isolated_beyond (opened : manager.isOpen = true) (inRange : manager.logStartOffset ≤ startOffset)
    (beyond : manager.logEndOffset ≤ startOffset) (maxBytes : Int) : manager.Isolated startOffset maxBytes := by
  have capped : manager.committedEnd ≤ manager.logEndOffset := min_le_left _ _
  obtain ⟨result, success, records⟩ := read_beyond opened inRange beyond maxBytes
  refine ⟨result, success, ?_, ?_⟩
  · rw [records]
    exact fun _ member => (not_mem_nil member).elim
  · intro _ record _ low high
    omega

theorem Linked.isolated (linked : Linked «sealed» active manager) (opened : manager.isOpen = true)
    (inRange : manager.logStartOffset ≤ startOffset) (committable : manager.Committable startOffset) (maxBytes : Int) :
    manager.Isolated startOffset maxBytes := by
  rcases committable with beyond | ⟨positive, rest⟩
  · exact isolated_beyond opened inRange beyond maxBytes
  rcases Int.lt_or_le startOffset manager.logEndOffset with inside | beyond
  swap
  · exact isolated_beyond opened inRange beyond maxBytes
  have stable : manager.committedEnd ≤ manager.lastStableOffset := min_le_right _ _
  obtain ⟨before, first, after, segments, low, high, reads⟩ := linked.read opened inRange inside
  obtain ⟨result, success, records⟩ := reads maxBytes
  rw [effectiveEnd_of_pos positive] at records
  have subset := gather_subset linked segments high manager.committedEnd
  refine ⟨result, success, ?_, ?_⟩
  · intro record member
    rw [records] at member
    obtain ⟨batch, batchMember, inBatch⟩ := mem_flatMap.mp member
    obtain ⟨met, gathered, rfl⟩ := readSegments_subset _ _ _ _ batch batchMember
    have bounds := mem_placed_records inBatch
    obtain ⟨stored, range⟩ := List.mem_filter.mp (subset.subset gathered)
    obtain ⟨-, below⟩ := within_iff.mp range
    rcases rest with above | ⟨apart, -⟩
    · rw [gather, Option.getD_some, if_pos ((min_le_right _ _).trans (stable.trans above))] at gathered
      cases gathered
    · have := apart met stored
      omega
  · intro fits record member late early
    obtain ⟨met, stored, inBatch⟩ := mem_manager_records.mp member
    have bounds := mem_placed_records inBatch
    obtain ⟨-, filled⟩ := rest.resolve_left (by omega)
    have chain := linked.chain
    rw [segments] at chain
    have order := pairwise_next_of_isChain chain
    have behind := (pairwise_cons.mp (pairwise_append.mp order).2.1).1
    have small := (subset.map size).sum_le_sum fun _ _ => Nat.zero_le _
    rw [records, readSegments_records (by omega)]
    refine ⟨met, ?_, inBatch⟩
    apply gather_complete chain.right_of_append
    · rintro _ ⟨⟩ stopped
      rw [Option.getD_some, tail_cons] at stopped
      split at stopped <;> omega
    · intro segment inAfter none
      have after_start := behind segment inAfter
      have := filled segment (by rw [segments]; exact mem_append_right _ (mem_cons_of_mem _ inAfter)) none
      omega
    · rw [placed, segments, flatMap_append] at stored
      cases mem_append.mp stored with
      | inl earlier =>
        obtain ⟨segment, inBefore, inSegment⟩ := mem_flatMap.mp earlier
        have follows := (pairwise_append.mp order).2.2 segment inBefore first mem_cons_self
        have := placed_bounds inSegment
        omega
      | inr later => exact later
    · omega
    · rintro _ ⟨⟩
      omega
    · omega

/-- Exactly then do all fetches from an offset keep to the committed part of the log. -/
theorem isolated_iff_committable (linked : Linked «sealed» active manager) (opened : manager.isOpen = true)
    (inRange : manager.logStartOffset ≤ startOffset) :
    (∀ maxBytes, manager.Isolated startOffset maxBytes) ↔ manager.Committable startOffset := by
  refine ⟨?_, linked.isolated opened inRange⟩
  intro isolated
  rcases Int.lt_or_le startOffset manager.logEndOffset with inside | beyond
  swap
  · exact .inl beyond
  have positive : 0 < manager.lastStableOffset := by
    by_contra unset
    have whole : manager.effectiveEnd = manager.logEndOffset := if_neg fun both => unset both.1
    obtain ⟨before, first, after, segments, low, high, reads⟩ := linked.read opened inRange inside
    rw [whole] at reads
    obtain ⟨met, gathered, lower, upper⟩ := @gather_start startOffset _ first after low high inside
    obtain ⟨record, inBatch, offset⟩ := exists_placed_record lower upper
    obtain ⟨result, success, safe, -⟩ := isolated
      (((gather manager.logEndOffset (first :: after) (some startOffset)).map size).sum + 1)
    obtain ⟨other, again, records⟩ := reads
      (((gather manager.logEndOffset (first :: after) (some startOffset)).map size).sum + 1)
    rw [success] at again
    cases again
    have leaked := safe record (by
      rw [records, readSegments_records (by omega)]
      exact ⟨met, gathered, inBatch⟩)
    have valid := linked.nonnegative first (by rw [← linked.segments, segments]; simp)
    omega
  rcases Int.lt_or_le startOffset manager.lastStableOffset with below | above
  · exact .inr ⟨positive, .inr ⟨fun across member => linked.not_across opened inRange inside below isolated member,
      fun empty member none => linked.not_blocked opened inRange inside positive isolated member none⟩⟩
  · exact .inr ⟨positive, .inl above⟩

theorem Linked.updateLastStableOffset (linked : Linked «sealed» active manager) (newLso : Int) :
    Linked «sealed» active (manager.updateLastStableOffset newLso) := by
  unfold LogManager.updateLastStableOffset
  split
  · exact ⟨linked.segments, linked.activeIndex, linked.follows, linked.allSealed, linked.unsealed, linked.start,
      linked.nonnegative, linked.distinct, linked.known⟩
  · exact linked

end Linked

def stableLog : LogManager :=
  (Runs.run step ((new {}).open [] 0)
    [.append keyedBatch kInvalidOffset 0, .append keyedBatch kInvalidOffset 0]).updateLastStableOffset 1

theorem isolated_stableLog : stableLog.logEndOffset = 2 ∧ stableLog.lastStableOffset = 1 ∧
    ∀ maxBytes, stableLog.Isolated 0 maxBytes := by
  obtain ⟨closed, active, fresh⟩ := recovered_nil.linked {} 0
  obtain ⟨closed, active, first⟩ := fresh.append keyedBatch kInvalidOffset 0
  obtain ⟨closed, active, second⟩ := first.append keyedBatch kInvalidOffset 0
  have linked : Linked closed active stableLog := second.updateLastStableOffset 1
  refine ⟨by decide +kernel, by decide +kernel, ?_⟩
  refine (isolated_iff_committable linked (by decide +kernel) (by decide +kernel)).mpr ?_
  unfold Committable
  decide +kernel

/-- As long as the last stable offset is zero, everything is given back. -/
theorem not_isolated_zero : ¬∀ (calls : List LogCall) (startOffset maxBytes : Int),
    let manager := Runs.run step ((new {}).open [] 0) calls
    manager.logStartOffset ≤ startOffset → manager.Isolated startOffset maxBytes := by
  intro claim
  obtain ⟨result, success, safe, -⟩ := claim [.append keyedBatch kInvalidOffset 0] 0 1 (by decide +kernel)
  have leaked : (((Runs.run step ((new {}).open [] 0) [.append keyedBatch kInvalidOffset 0]).read 0 1 none
      .readCommitted).toOption.map FetchResult.records) = some [{ key := [97], offset := 0 }] := by
    decide +kernel
  rw [success] at leaked
  have records : result.records = [{ key := [97], offset := 0 }] := Option.some.inj leaked
  have below := safe _ (by rw [records]; exact mem_cons_self)
  revert below
  decide +kernel

end LogManager

end TorrentMq.Storage
