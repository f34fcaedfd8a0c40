import TorrentMq.Storage.LogManagerRead

/-!
# What a fetch leaves out

A fetch gives back a part of the log without gaps, and says so where it stops
before the end of the log, unless an empty segment is in its way.
-/

set_option autoImplicit false

namespace TorrentMq.Storage

open List

namespace IdealSegment

theorem takeBytes_initial (maxBytes : Int) (bytesRead : Nat) (batches : List Placed) :
    (takeBytes maxBytes bytesRead batches).1 <+: batches := by
  induction batches generalizing bytesRead with
  | nil => exact prefix_rfl
  | cons first batches ih =>
    rw [takeBytes]
    split
    · exact nil_prefix
    · exact (prefix_cons_inj first).mpr (ih _)

theorem takeBytes_of_reached {maxBytes : Int} {bytesRead : Nat} {batches : List Placed}
    (reached : maxBytes ≤ ((bytesRead + (batches.map Placed.size).sum : Nat) : Int)) (more : List Placed) :
    maxBytes ≤ ((takeBytes maxBytes bytesRead batches).2 : Int) ∧
      takeBytes maxBytes bytesRead (batches ++ more) = takeBytes maxBytes bytesRead batches := by
  induction batches generalizing bytesRead with
  | nil =>
    rw [map_nil, sum_nil, Nat.add_zero] at reached
    rw [nil_append]
    refine ⟨reached, ?_⟩
    cases more with
    | nil => rfl
    | cons next more => rw [takeBytes, takeBytes, if_pos reached]
  | cons first batches ih =>
    rw [map_cons, sum_cons, ← Nat.add_assoc] at reached
    obtain ⟨total, same⟩ := ih reached
    rw [cons_append, takeBytes, takeBytes]
    split
    next full => exact ⟨full, rfl⟩
    · rw [same]
      exact ⟨total, rfl⟩

theorem takeBytes_append_of_sum {maxBytes : Int} {bytesRead : Nat} {batches : List Placed}
    (below : ((bytesRead + (batches.map Placed.size).sum : Nat) : Int) < maxBytes) (more : List Placed) :
    (takeBytes maxBytes bytesRead (batches ++ more)).1 =
      batches ++ (takeBytes maxBytes (bytesRead + (batches.map Placed.size).sum) more).1 := by
  induction batches generalizing bytesRead with
  | nil => rfl
  | cons first batches ih =>
    rw [map_cons, sum_cons, ← Nat.add_assoc] at below ⊢
    have rest := ih below
    rw [cons_append, takeBytes, if_neg (by omega), cons_append, ← rest]

theorem takeBytes_shift (maxBytes : Int) (bytesRead already : Nat) (batches : List Placed) :
    (takeBytes (maxBytes - already) bytesRead batches).1 = (takeBytes maxBytes (bytesRead + already) batches).1 := by
  induction batches generalizing bytesRead with
  | nil => rfl
  | cons first batches ih =>
    rw [takeBytes, takeBytes]
    by_cases full : maxBytes ≤ ((bytesRead + already : Nat) : Int)
    · rw [if_pos full, if_pos (by omega)]
    · rw [if_neg full, if_neg (by omega)]
      dsimp only
      rw [ih, Nat.add_right_comm]

end IdealSegment

namespace LogManager

open IdealSegment

variable {segments : List IdealSegment}

theorem readSegments_eq {effectiveEnd : Int} {startOffset : Option Int} {remaining : Int} (positive : 0 < remaining) :
    readSegments effectiveEnd segments startOffset remaining =
      ((takeBytes remaining 0 (gather effectiveEnd segments startOffset)).1.map Placed.delivered,
        decide (remaining ≤ (((gather effectiveEnd segments startOffset).map Placed.size).sum : Int))) := by
  induction segments generalizing startOffset remaining with
  | nil =>
    rw [readSegments, gather, decide_eq_false (by simp; omega)]
    rfl
  | cons segment segments ih =>
    rw [readSegments, gather]
    dsimp only
    generalize min (if segments.isEmpty = true then effectiveEnd else segment.nextOffset) effectiveEnd = segStop
    rw [if_neg (by omega)]
    by_cases stopped : segStop ≤ startOffset.getD segment.baseOffset
    · rw [if_pos stopped, if_pos stopped, decide_eq_false (by simp; omega)]
      rfl
    · rw [if_neg stopped, if_neg stopped, readRange_of_lt (not_le.mp stopped)]
      generalize segment.placed.filter (within (startOffset.getD segment.baseOffset) segStop) = here
      have later := @ih none
      generalize gather effectiveEnd segments none = rest at later ⊢
      dsimp only
      rw [map_append, sum_append]
      by_cases reached : remaining ≤ ((here.map Placed.size).sum : Int)
      · obtain ⟨total, same⟩ := takeBytes_of_reached (by rwa [Nat.zero_add] : remaining ≤
          ((0 + (here.map Placed.size).sum : Nat) : Int)) rest
        rw [if_pos (.inl (decide_eq_true total)), same, decide_eq_true (by omega)]
      · have below : ((0 + (here.map Placed.size).sum : Nat) : Int) < remaining := by omega
        rw [takeBytes_append_of_sum below, takeBytes_of_sum below]
        dsimp only
        rw [Nat.zero_add, if_neg (by simp only [decide_eq_true_eq]; omega), later (by omega)]
        dsimp only
        rw [takeBytes_shift, Nat.zero_add, map_append]
        congr 1
        exact decide_eq_decide.mpr (by omega)

def overlapping (startOffset : Int) (segment : IdealSegment) : List Placed :=
  segment.placed.filter (within (max startOffset segment.baseOffset) segment.nextOffset)

def filled (startOffset : Int) (segment : IdealSegment) : Bool :=
  decide (max startOffset segment.baseOffset < segment.nextOffset)

theorem gather_eq {effectiveEnd start : Int} {startOffset : Option Int}
    (upper : ∀ segment ∈ segments, segment.nextOffset ≤ effectiveEnd)
    (final : ∀ last ∈ segments.getLast?, last.nextOffset = effectiveEnd)
    (first : ∀ segment ∈ segments.head?, startOffset.getD segment.baseOffset = max start segment.baseOffset)
    (rest : ∀ segment ∈ segments.tail, start ≤ segment.baseOffset) :
    gather effectiveEnd segments startOffset = (segments.takeWhile (filled start)).flatMap (overlapping start) := by
  induction segments generalizing startOffset with
  | nil => rfl
  | cons segment segments ih =>
    have stop : min (if segments.isEmpty = true then effectiveEnd else segment.nextOffset) effectiveEnd =
        segment.nextOffset := by
      cases segments with
      | nil =>
        have last := final segment rfl
        rw [isEmpty_nil, if_pos rfl]
        omega
      | cons second segments =>
        have below := upper segment mem_cons_self
        rw [isEmpty_cons, if_neg (by decide)]
        omega
    rw [gather, stop, first segment rfl]
    by_cases some : max start segment.baseOffset < segment.nextOffset
    · have taken : filled start segment = true := decide_eq_true some
      rw [if_neg (not_le.mpr some), takeWhile_cons_of_pos taken, flatMap_cons]
      congr 1
      apply ih
      · exact fun other member => upper other (mem_cons_of_mem _ member)
      · intro last ends
        refine final last ?_
        cases segments with
        | nil => cases ends
        | cons second segments => rwa [getLast?_cons_cons]
      · intro other head
        have behind := rest other (mem_of_mem_head? head)
        rw [Option.getD_none]
        omega
      · exact fun other member => rest other (mem_of_mem_tail member)
    · have passed : ¬filled start segment = true := by rwa [filled, decide_eq_true_iff]
      rw [if_pos (not_lt.mp some), takeWhile_cons_of_neg passed, flatMap_nil]

theorem flatMap_filter {Item Part : Type} {items : List Item} {keep : Item → Bool} {parts : Item → List Part}
    (empty : ∀ item ∈ items, ¬keep item = true → parts item = []) :
    (items.filter keep).flatMap parts = items.flatMap parts := by
  induction items with
  | nil => rfl
  | cons item items ih =>
    have rest := ih fun other member => empty other (mem_cons_of_mem _ member)
    by_cases kept : keep item = true
    · rw [filter_cons_of_pos kept, flatMap_cons, flatMap_cons, rest]
    · rw [filter_cons_of_neg kept, flatMap_cons, empty item mem_cons_self kept, rest, nil_append]

theorem records_split {low start high : Int} {batches : List Placed}
    (ordered : batches.Pairwise fun earlier later => earlier.endOffset ≤ later.1)
    (bounds : ∀ placed ∈ batches, low ≤ placed.1 ∧ placed.1 ≤ placed.endOffset ∧ placed.endOffset ≤ high) :
    ∃ earlier, batches.flatMap Placed.records =
        earlier ++ (batches.filter (within (max start low) high)).flatMap Placed.records ∧
      ∀ record ∈ earlier, record.offset < start := by
  induction batches with
  | nil => exact ⟨[], rfl, forall_mem_nil _⟩
  | cons first batches ih =>
    obtain ⟨behind, later⟩ := pairwise_cons.mp ordered
    by_cases past : first.endOffset ≤ start
    · obtain ⟨earlier, split, below⟩ := ih later fun other member => bounds other (mem_cons_of_mem _ member)
      have outside : ¬within (max start low) high first = true := by
        rw [within_iff]
        omega
      refine ⟨first.records ++ earlier, ?_, ?_⟩
      · rw [flatMap_cons, filter_cons_of_neg outside, split, append_assoc]
      · intro record member
        cases mem_append.mp member with
        | inl inFirst =>
          have inside := mem_placed_records inFirst
          omega
        | inr rest => exact below record rest
    · refine ⟨[], ?_, forall_mem_nil _⟩
      rw [nil_append, flatMap_filter]
      intro placed member outside
      have inside := bounds placed member
      have beyond : start < placed.endOffset := by
        cases member with
        | head => omega
        | tail _ member =>
          have := behind placed member
          omega
      rw [within_iff] at outside
      refine eq_nil_iff_forall_not_mem.mpr ?_
      intro record stored
      have := mem_placed_records stored
      omega

theorem records_overlapping (startOffset : Int) (segment : IdealSegment) :
    ∃ earlier, segment.records = earlier ++ (overlapping startOffset segment).flatMap Placed.records ∧
      ∀ record ∈ earlier, record.offset < startOffset :=
  records_split (Segment.pairwise_assignOffsets segment.baseOffset segment.batches) fun _ member => placed_bounds member

variable {segment : IdealSegment}

theorem mem_segment_records {record : Record} (member : record ∈ segment.records) :
    segment.baseOffset ≤ record.offset ∧ record.offset < segment.nextOffset := by
  obtain ⟨placed, stored, inside⟩ := IdealSegment.mem_records.mp member
  have bounds := placed_bounds stored
  have within := mem_placed_records inside
  omega

variable {startOffset : Int}

theorem records_overlapping_later (later : startOffset ≤ segment.baseOffset) :
    (overlapping startOffset segment).flatMap Placed.records = segment.records := by
  obtain ⟨earlier, split, below⟩ := records_overlapping startOffset segment
  have none : earlier = [] := by
    refine eq_nil_iff_forall_not_mem.mpr ?_
    intro record member
    have inside := mem_segment_records (by rw [split]; exact mem_append_left _ member)
    have := below record member
    omega
  rw [split, none, nil_append]

theorem placed_overlapping {placed : Placed} (member : placed ∈ overlapping startOffset segment) :
    placed ∈ segment.placed ∧ max startOffset segment.baseOffset < placed.endOffset ∧
      placed.endOffset ≤ segment.nextOffset := by
  obtain ⟨stored, range⟩ := List.mem_filter.mp member
  exact ⟨stored, (within_iff.mp range).1, (placed_bounds stored).2.2⟩

theorem overlapping_of_before (before : segment.nextOffset ≤ startOffset) : overlapping startOffset segment = [] := by
  refine eq_nil_iff_forall_not_mem.mpr ?_
  intro placed member
  have bounds := placed_overlapping member
  omega

theorem offsets_chain (chain : segments.IsChain Follows) {base : Int}
    (start : ∀ first ∈ segments.head?, first.baseOffset = base) :
    ∃ count, (segments.flatMap IdealSegment.records).map Record.offset =
      (List.range count).map fun i : Nat => base + (i : Int) := by
  induction segments generalizing base with
  | nil => exact ⟨0, rfl⟩
  | cons first segments ih =>
    have next : ∀ second ∈ segments.head?, second.baseOffset = first.nextOffset := by
      intro second head
      cases segments with
      | nil => cases head
      | cons other segments =>
        cases head
        exact (isChain_cons_cons.mp chain).1.symm
    obtain ⟨count, rest⟩ := ih chain.tail next
    refine ⟨Segment.recordTotal first.batches + count, ?_⟩
    rw [flatMap_cons, map_append, rest, IdealSegment.offsets_records, range_add, map_append,
      start first rfl, map_map]
    congr 1
    refine map_congr_left ?_
    intro i _
    rw [Function.comp_apply, IdealSegment.nextOffset, start first rfl]
    omega

theorem offsets_middle {earlier middle later : List Record} {base : Int} {count : Nat}
    (offsets : (earlier ++ middle ++ later).map Record.offset = (List.range count).map fun i : Nat => base + (i : Int)) :
    middle.map Record.offset = (List.range middle.length).map fun i : Nat => base + earlier.length + (i : Int) := by
  refine ext_getElem (by simp) ?_
  intro i inside _
  rw [length_map] at inside
  have found : ((earlier ++ middle ++ later).map Record.offset)[earlier.length + i]? = some middle[i].offset := by
    rw [getElem?_map, append_assoc, getElem?_append_right (Nat.le_add_right _ _),
      Nat.add_sub_cancel_left, getElem?_append_left inside, getElem?_eq_getElem inside, Option.map_some]
  rw [offsets, getElem?_map, Option.map_eq_some_iff] at found
  obtain ⟨position, at_range, same⟩ := found
  obtain ⟨below, equal⟩ := List.getElem?_eq_some_iff.mp at_range
  rw [getElem_range] at equal
  rw [getElem_map, getElem_map, getElem_range, ← same]
  omega

/-- A fetch gives back stored records from an offset on, one after the other, and says so where it stops
before the end of the log. It may begin with earlier records of the batch that holds the offset, as
batches are given back as a whole. -/
def ReadsOn (manager : LogManager) (startOffset maxBytes : Int) : Prop :=
  ∃ result earlier later, manager.read startOffset maxBytes none .readUncommitted = .ok result ∧
    manager.records = earlier ++ result.records ++ later ∧
    (∀ record ∈ earlier, record.offset < startOffset) ∧
    (∀ record ∈ result.records, record.offset < startOffset →
      ∃ placed ∈ manager.placed, record ∈ placed.records ∧ startOffset < placed.endOffset) ∧
    (∃ first : Int, result.records.map Record.offset =
      (List.range result.records.length).map fun i : Nat => first + (i : Int)) ∧
    (later ≠ [] → result.isTruncated = true)

/-- The limit is positive, and reached in front of every empty segment that lies between an offset and
the end of the log. -/
def Unbroken (manager : LogManager) (startOffset maxBytes : Int) : Prop :=
  0 < maxBytes ∧ ∀ empty ∈ manager.segments, empty.nextOffset = empty.baseOffset →
    startOffset < empty.baseOffset → empty.baseOffset < manager.logEndOffset →
      maxBytes ≤ ((((manager.segments.flatMap (overlapping startOffset)).filter fun placed =>
        decide (placed.endOffset ≤ empty.baseOffset)).map Placed.size).sum : Int)

structure Cut (startOffset logEnd : Int) (first : IdealSegment) (after run rest : List IdealSegment) : Prop where
  split : first :: after = run ++ rest
  leads : ∃ more, run = first :: more
  full : ∀ segment ∈ run, max startOffset segment.baseOffset < segment.nextOffset
  stops : ∀ segment ∈ rest.head?, segment.nextOffset = segment.baseOffset
  later : ∀ segment ∈ after, startOffset < segment.baseOffset
  apart : ∀ earlier ∈ run, ∀ next ∈ rest, earlier.nextOffset ≤ next.baseOffset
  sorted : rest.Pairwise fun earlier later => earlier.baseOffset ≤ later.baseOffset
  upper : ∀ segment ∈ first :: after, segment.nextOffset ≤ logEnd

section Linked

variable {«sealed» : List IdealSegment} {active : IdealSegment} {manager : LogManager} {startOffset : Int}

section

variable (linked : Linked «sealed» active manager)
include linked

theorem Linked.next_le_logEndOffset {segment : IdealSegment}
    (member : segment ∈ manager.segments) : segment.nextOffset ≤ manager.logEndOffset := by
  rw [linked.logEndOffset]
  rw [linked.segments] at member
  cases mem_append.mp member with
  | inl early => exact (linked.next_le early).trans active.baseOffset_le_nextOffset
  | inr late => rw [mem_singleton.mp late]

theorem Linked.cut {before after : List IdealSegment} {first : IdealSegment}
    (segments : manager.segments = before ++ first :: after) (low : first.baseOffset ≤ startOffset)
    (high : startOffset < first.nextOffset) :
    Cut startOffset manager.logEndOffset first after ((first :: after).takeWhile (filled startOffset))
      ((first :: after).dropWhile (filled startOffset)) := by
  have chain := linked.chain
  rw [segments] at chain
  have order := pairwise_next_of_isChain chain.right_of_append
  have sorted := sorted_of_isChain chain.right_of_append
  have later : ∀ segment ∈ after, startOffset < segment.baseOffset := by
    intro segment member
    have := (pairwise_cons.mp order).1 segment member
    omega
  have holds : filled startOffset first = true := by
    rw [filled, decide_eq_true_iff]
    omega
  rw [← @takeWhile_append_dropWhile _ (filled startOffset) (first :: after)] at order sorted
  refine ⟨takeWhile_append_dropWhile.symm, ?_, ?_, ?_, later, ?_, ?_, ?_⟩
  · rw [takeWhile_cons_of_pos holds]
    exact ⟨_, rfl⟩
  · intro segment member
    have holds : filled startOffset segment = true := mem_takeWhile_imp member
    exact of_decide_eq_true holds
  · intro segment head
    have empty : ¬filled startOffset segment = true := by
      have fails := head?_dropWhile_not (filled startOffset) (first :: after)
      rw [head] at fails
      exact Bool.eq_false_iff.mp fails
    have member := (dropWhile_suffix (filled startOffset)).subset (mem_of_mem_head? head)
    rw [filled, decide_eq_true_iff] at empty
    have grows := segment.baseOffset_le_nextOffset
    cases member with
    | head => omega
    | tail _ member =>
      have := later segment member
      omega
  · exact (pairwise_append.mp order).2.2
  · exact (pairwise_append.mp sorted).2.1
  · intro segment member
    exact linked.next_le_logEndOffset (by rw [segments]; exact mem_append_right _ member)

theorem Linked.readAll (opened : manager.isOpen = true)
    (inRange : manager.logStartOffset ≤ startOffset) (inside : startOffset < manager.logEndOffset) :
    ∃ before first after run rest, manager.segments = before ++ first :: after ∧ first.baseOffset ≤ startOffset ∧
      startOffset < first.nextOffset ∧ Cut startOffset manager.logEndOffset first after run rest ∧
      ∀ maxBytes, ∃ result, manager.read startOffset maxBytes none .readUncommitted = .ok result ∧
        result.records = (takeBytes maxBytes 0 (run.flatMap (overlapping startOffset))).1.flatMap Placed.records ∧
        result.isTruncated = (decide (0 < maxBytes) &&
          decide (maxBytes ≤ (((run.flatMap (overlapping startOffset)).map Placed.size).sum : Int))) := by
  obtain ⟨before, first, after, segments, low, high, found⟩ := linked.holder inRange inside
  have cut := linked.cut segments low high
  refine ⟨before, first, after, _, _, segments, low, high, cut, ?_⟩
  have gathered : gather manager.logEndOffset (first :: after) (some startOffset) =
      ((first :: after).takeWhile (filled startOffset)).flatMap (overlapping startOffset) := by
    refine gather_eq cut.upper ?_ ?_ ?_
    · intro last ends
      have same : manager.segments.getLast? = some last := by
        rw [segments, getLast?_append_of_ne_nil _ (cons_ne_nil _ _), ends]
      rw [LogManager.logEndOffset, same]
    · intro segment head
      cases head
      rw [Option.getD_some]
      omega
    · exact fun segment member => (cut.later segment member).le
  intro maxBytes
  unfold LogManager.read
  dsimp only
  rw [opened, if_neg (by decide), if_neg (by omega), if_neg (by omega), found]
  dsimp only
  rw [segments, drop_left]
  refine ⟨_, rfl, ?_⟩
  have reads : readSegments manager.logEndOffset (first :: after) (some startOffset) maxBytes =
      ((takeBytes maxBytes 0 (((first :: after).takeWhile (filled startOffset)).flatMap
          (overlapping startOffset))).1.map Placed.delivered, decide (0 < maxBytes) && decide (maxBytes ≤
        (((((first :: after).takeWhile (filled startOffset)).flatMap (overlapping startOffset)).map
          Placed.size).sum : Int))) := by
    by_cases positive : 0 < maxBytes
    · rw [readSegments_eq positive, gathered, decide_eq_true positive, Bool.true_and]
    · rw [readSegments, if_pos (Int.not_lt.mp positive), decide_eq_false positive, Bool.false_and]
      cases ((first :: after).takeWhile (filled startOffset)).flatMap (overlapping startOffset) with
      | nil => rfl
      | cons placed batches =>
        rw [takeBytes, if_pos (by omega)]
        rfl
  rw [FetchResult.records, mergeBatches_records]
  simp only [reduceCtorEq, false_and, Option.any_none, Bool.false_eq_true, if_false]
  rw [reads]
  exact ⟨flatMap_map _ _ _, rfl⟩

theorem Linked.parts {before after run rest : List IdealSegment}
    {first : IdealSegment} (segments : manager.segments = before ++ first :: after)
    (low : first.baseOffset ≤ startOffset) (cut : Cut startOffset manager.logEndOffset first after run rest) :
    manager.segments.flatMap (overlapping startOffset) =
        run.flatMap (overlapping startOffset) ++ rest.flatMap (overlapping startOffset) ∧
      ∃ skipped, manager.records =
          skipped ++ (run.flatMap (overlapping startOffset)).flatMap Placed.records ++
            rest.flatMap IdealSegment.records ∧
        ∀ record ∈ skipped, record.offset < startOffset := by
  have chain := linked.chain
  rw [segments] at chain
  have follows : ∀ segment ∈ before, segment.nextOffset ≤ startOffset := by
    intro segment member
    have := (pairwise_append.mp (pairwise_next_of_isChain chain)).2.2 segment member first mem_cons_self
    omega
  constructor
  · have none : before.flatMap (overlapping startOffset) = [] :=
      flatMap_eq_nil_iff.mpr fun segment member => overlapping_of_before (follows segment member)
    rw [segments, flatMap_append, none, cut.split, flatMap_append, nil_append]
  · obtain ⟨more, leads⟩ := cut.leads
    obtain ⟨earlier, inFirst, below⟩ := records_overlapping startOffset first
    have behind : ∀ segment ∈ more, startOffset ≤ segment.baseOffset := by
      intro segment member
      have split := cut.split
      rw [leads, cons_append] at split
      obtain ⟨-, same⟩ := List.cons.inj split
      exact (cut.later segment (by rw [same]; exact mem_append_left _ member)).le
    have same : (more.flatMap (overlapping startOffset)).flatMap Placed.records = more.flatMap IdealSegment.records := by
      rw [flatMap_assoc]
      exact flatMap_congr fun segment member => records_overlapping_later (behind segment member)
    refine ⟨before.flatMap IdealSegment.records ++ earlier, ?_, ?_⟩
    · rw [LogManager.records, segments, flatMap_append, cut.split, leads, flatMap_append, flatMap_cons,
        flatMap_cons, flatMap_append, same, inFirst]
      simp only [append_assoc]
    · intro record member
      cases mem_append.mp member with
      | inl old =>
        obtain ⟨segment, inside, stored⟩ := mem_flatMap.mp old
        have := mem_segment_records stored
        have := follows segment inside
        omega
      | inr inHolder => exact below record inHolder

section

variable (opened : manager.isOpen = true) (inRange : manager.logStartOffset ≤ startOffset)
  (inside : startOffset < manager.logEndOffset)
include opened inRange inside

theorem Linked.readsOn {maxBytes : Int}
    (unbroken : manager.Unbroken startOffset maxBytes) : manager.ReadsOn startOffset maxBytes := by
  obtain ⟨positive, reached⟩ := unbroken
  obtain ⟨before, first, after, run, rest, segments, low, high, cut, reads⟩ := linked.readAll opened inRange inside
  obtain ⟨result, success, records, truncated⟩ := reads maxBytes
  obtain ⟨whole, skipped, split, below⟩ := linked.parts segments low cut
  obtain ⟨untaken, taken⟩ := takeBytes_initial maxBytes 0 (run.flatMap (overlapping startOffset))
  have returned : manager.records =
      skipped ++ result.records ++ (untaken.flatMap Placed.records ++ rest.flatMap IdealSegment.records) := by
    rw [split, records]
    nth_rewrite 1 [← taken]
    rw [flatMap_append]
    simp only [append_assoc]
  refine ⟨result, skipped, _, success, returned, below, ?_, ?_, ?_⟩
  · intro record member _
    rw [records] at member
    obtain ⟨placed, stored, inBatch⟩ := mem_flatMap.mp member
    have met := (takeBytes_initial maxBytes 0 (run.flatMap (overlapping startOffset))).subset stored
    obtain ⟨segment, inRun, part⟩ := mem_flatMap.mp met
    obtain ⟨inSegment, late, -⟩ := placed_overlapping part
    have held : segment ∈ manager.segments := by
      rw [segments, cut.split]
      exact mem_append_right _ (mem_append_left _ inRun)
    exact ⟨placed, mem_flatMap.mpr ⟨segment, held, inSegment⟩, inBatch, by omega⟩
  · obtain ⟨first, offsets⟩ : ∃ first : Int, ∃ count : Nat, manager.records.map Record.offset =
        (List.range count).map fun i : Nat => first + (i : Int) := by
      cases all : manager.segments with
      | nil =>
        rw [all] at segments
        exact absurd segments.symm (append_ne_nil_of_right_ne_nil _ (cons_ne_nil _ _))
      | cons head tail =>
        refine ⟨head.baseOffset, ?_⟩
        rw [LogManager.records, all]
        refine offsets_chain (by rw [← all]; exact linked.chain) ?_
        intro other same
        cases same
        rfl
    obtain ⟨count, offsets⟩ := offsets
    rw [returned] at offsets
    exact ⟨_, offsets_middle offsets⟩
  · intro more
    rw [truncated, decide_eq_true positive, Bool.true_and]
    refine decide_eq_true (Int.not_lt.mp ?_)
    intro short
    -- Everything that is met was taken, so that what is missing lies behind an empty segment.
    have all := @takeBytes_of_sum maxBytes 0 (run.flatMap (overlapping startOffset)) (by rwa [Nat.zero_add])
    rw [all] at taken
    have none : untaken = [] := append_right_eq_self.mp taken
    rw [none, flatMap_nil, nil_append] at more
    cases ends : rest with
    | nil =>
      rw [ends] at more
      exact more rfl
    | cons empty others =>
      have stops := cut.stops empty (by rw [ends]; rfl)
      have sorted := cut.sorted
      rw [ends] at sorted
      have above : ∀ segment ∈ rest, empty.baseOffset ≤ segment.baseOffset := by
        intro segment member
        rw [ends] at member
        cases member with
        | head => exact le_rfl
        | tail _ member => exact (pairwise_cons.mp sorted).1 segment member
      have listed : ∀ segment ∈ rest, segment ∈ first :: after := by
        intro segment member
        rw [cut.split]
        exact mem_append_right _ member
      have emptyMember : empty ∈ rest := by
        rw [ends]
        exact mem_cons_self
      have beyond : startOffset < empty.baseOffset := by
        cases listed empty emptyMember with
        | head => omega
        | tail _ member => exact cut.later empty member
      by_cases inLog : empty.baseOffset < manager.logEndOffset
      · have limit := reached empty (by rw [segments]; exact mem_append_right _ (listed empty emptyMember)) stops
          beyond inLog
        have gone : (rest.flatMap (overlapping startOffset)).filter (fun placed =>
            decide (placed.endOffset ≤ empty.baseOffset)) = [] := by
          refine filter_eq_nil_iff.mpr ?_
          intro placed member
          obtain ⟨segment, inRest, part⟩ := mem_flatMap.mp member
          have := above segment inRest
          have := placed_overlapping part
          rw [decide_eq_true_iff]
          omega
        rw [whole, filter_append, gone, append_nil] at limit
        have smaller := (filter_sublist.map Placed.size : (((run.flatMap (overlapping startOffset)).filter
          fun placed => decide (placed.endOffset ≤ empty.baseOffset)).map Placed.size).Sublist
            ((run.flatMap (overlapping startOffset)).map Placed.size)).sum_le_sum fun _ _ => Nat.zero_le _
        omega
      · refine more (flatMap_eq_nil_iff.mpr ?_)
        intro segment member
        refine eq_nil_iff_forall_not_mem.mpr ?_
        intro record stored
        have := mem_segment_records stored
        have := above segment member
        have := cut.upper segment (listed segment member)
        omega

theorem Linked.unbroken {maxBytes : Int}
    (readsOn : manager.ReadsOn startOffset maxBytes) : manager.Unbroken startOffset maxBytes := by
  obtain ⟨before, first, after, run, rest, segments, low, high, cut, reads⟩ := linked.readAll opened inRange inside
  obtain ⟨result, success, records, truncated⟩ := reads maxBytes
  obtain ⟨whole, -⟩ := linked.parts segments low cut
  obtain ⟨other, earlier, later, again, split, below, -, -, complete⟩ := readsOn
  rw [success] at again
  cases again
  have returned : result.isTruncated = false → ∀ record ∈ manager.records, startOffset ≤ record.offset →
      record ∈ result.records := by
    intro whole record member late
    have none : later = [] := by
      by_contra more
      rw [complete more] at whole
      cases whole
    rw [split, none, append_nil] at member
    cases mem_append.mp member with
    | inl early =>
      have := below record early
      omega
    | inr returned => exact returned
  constructor
  · by_contra nonpositive
    obtain ⟨record, stored, offset⟩ := IdealSegment.exists_record low high
    have member : record ∈ manager.records :=
      mem_flatMap.mpr ⟨first, by rw [segments]; exact mem_append_right _ mem_cons_self, stored⟩
    have found := returned (by rw [truncated, decide_eq_false nonpositive, Bool.false_and]) record member (by omega)
    have none : (takeBytes maxBytes 0 (run.flatMap (overlapping startOffset))).1 = [] := by
      cases run.flatMap (overlapping startOffset) with
      | nil => rfl
      | cons placed batches => rw [takeBytes, if_pos (by omega)]
    rw [records, none] at found
    cases found
  · intro empty member none beyond inLog
    by_contra short
    have inRest : empty ∈ rest := by
      rw [segments, cut.split] at member
      cases mem_append.mp member with
      | inl early =>
        have chain := linked.chain
        rw [segments] at chain
        have := (pairwise_append.mp (pairwise_next_of_isChain chain)).2.2 empty early first mem_cons_self
        omega
      | inr late =>
        cases mem_append.mp late with
        | inl inRun =>
          have := cut.full empty inRun
          omega
        | inr inRest => exact inRest
    have small : ((((run.flatMap (overlapping startOffset)).map Placed.size).sum : Nat) : Int) < maxBytes := by
      have all : (run.flatMap (overlapping startOffset)).filter (fun placed =>
          decide (placed.endOffset ≤ empty.baseOffset)) = run.flatMap (overlapping startOffset) := by
        refine filter_eq_self.mpr ?_
        intro placed met
        obtain ⟨segment, inRun, part⟩ := mem_flatMap.mp met
        have := placed_overlapping part
        have := cut.apart segment inRun empty inRest
        exact decide_eq_true (by omega)
      rw [whole, filter_append, all, map_append, sum_append] at short
      omega
    obtain ⟨holder, position, held⟩ := linked.find (inRange.trans beyond.le) (linked.logEndOffset ▸ inLog)
    obtain ⟨holderLow, holderHigh⟩ := holds_iff.mp held
    obtain ⟨record, stored, offset⟩ := IdealSegment.exists_record holderLow holderHigh
    have found := returned (by rw [truncated, decide_eq_false (not_le.mpr small), Bool.and_false]) record
      (mem_flatMap.mpr ⟨holder, mem_of_getElem? position, stored⟩) (by omega)
    rw [records] at found
    obtain ⟨placed, taken, inBatch⟩ := mem_flatMap.mp found
    have met := (takeBytes_initial maxBytes 0 (run.flatMap (overlapping startOffset))).subset taken
    obtain ⟨segment, inRun, part⟩ := mem_flatMap.mp met
    have := placed_overlapping part
    have := mem_placed_records inBatch
    have := cut.apart segment inRun empty inRest
    omega

end

end

/-- Exactly then is a fetch complete. -/
theorem readsOn_iff (linked : Linked «sealed» active manager) (opened : manager.isOpen = true)
    (inRange : manager.logStartOffset ≤ startOffset) (inside : startOffset < manager.logEndOffset) (maxBytes : Int) :
    manager.ReadsOn startOffset maxBytes ↔ manager.Unbroken startOffset maxBytes :=
  ⟨linked.unbroken opened inRange inside, linked.readsOn opened inRange inside⟩

end Linked

def splitLog : LogManager :=
  Runs.run step ((LogManager.new {}).open [] 0)
    [.append keyedBatch kInvalidOffset 0, .roll 0, .append keyedBatch kInvalidOffset 0]

theorem linked_splitLog : ∃ «sealed» active, Linked «sealed» active splitLog := by
  obtain ⟨closed, active, fresh⟩ := recovered_nil.linked {} 0
  obtain ⟨closed, active, first⟩ := fresh.append keyedBatch kInvalidOffset 0
  obtain ⟨closed, active, rolled⟩ := first.stepRoll 0
  obtain ⟨closed, active, second⟩ := rolled.append keyedBatch kInvalidOffset 0
  exact ⟨closed, active, second⟩

theorem readsOn_splitLog : splitLog.ReadsOn 0 1000 := by
  obtain ⟨closed, active, linked⟩ := linked_splitLog
  refine (readsOn_iff linked (by decide +kernel) (by decide +kernel) (by decide +kernel) 1000).mpr ?_
  unfold Unbroken
  decide +kernel

def hollowLog : LogManager :=
  Runs.run step ((LogManager.new {}).open [] 0)
    [.append keyedBatch kInvalidOffset 0, .roll 0, .roll 0, .append keyedBatch kInvalidOffset 0]

/-- The second batch is not given back, and the limit is not reached. -/
theorem not_readsOn_hollowLog : ¬∀ («sealed» : List IdealSegment) (active : IdealSegment) (manager : LogManager)
    (startOffset maxBytes : Int), Linked «sealed» active manager → manager.isOpen = true →
    manager.logStartOffset ≤ startOffset → startOffset < manager.logEndOffset →
    manager.ReadsOn startOffset maxBytes := by
  intro claim
  obtain ⟨closed, active, fresh⟩ := recovered_nil.linked {} 0
  obtain ⟨closed, active, first⟩ := fresh.append keyedBatch kInvalidOffset 0
  obtain ⟨closed, active, rolled⟩ := first.stepRoll 0
  obtain ⟨closed, active, again⟩ := rolled.stepRoll 0
  obtain ⟨closed, active, linked⟩ := again.append keyedBatch kInvalidOffset 0
  obtain ⟨result, earlier, later, success, split, -, -, -, complete⟩ :=
    claim closed active hollowLog 0 1000 linked (by decide +kernel) (by decide +kernel) (by decide +kernel)
  have fetched : ((hollowLog.read 0 1000 none .readUncommitted).toOption.map fun result =>
      (result.records.map Record.offset, result.isTruncated)) = some ([0], false) := by
    decide +kernel
  rw [success] at fetched
  obtain ⟨offsets, whole⟩ := Prod.mk.inj (Option.some.inj fetched)
  have none : later = [] := by
    by_contra more
    exact Bool.false_ne_true (whole.symm.trans (complete more))
  have stored : hollowLog.records.map Record.offset = [0, 1] := by decide +kernel
  rw [split, none, append_nil, map_append, offsets] at stored
  have last := congrArg getLast? stored
  rw [getLast?_concat] at last
  revert last
  decide

end LogManager

end TorrentMq.Storage
