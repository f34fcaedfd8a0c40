import TorrentMq.Storage.IdealSegmentProperties
import TorrentMq.Storage.LogManager

/-!
# The chain of segments

Segments that follow on each other, with the only one that is open for writes
at the end, and which calls of the log manager keep them so.
-/

set_option autoImplicit false

namespace TorrentMq.Storage

open List

namespace LogManager

def Follows (earlier later : IdealSegment) : Prop := earlier.nextOffset = later.baseOffset

/-- The segments are in order and without gaps, the active one is the last and the only one that is
not sealed, and each offset of the log is found in the segment that has its record. -/
structure Chained (manager : LogManager) : Prop where
  sorted : manager.segments.Pairwise fun earlier later => earlier.baseOffset ≤ later.baseOffset
  follows : manager.segments.IsChain Follows
  activeLast : manager.activeIndex + 1 = manager.segments.length
  onlyUnsealed : ∀ i segment, manager.segments[i]? = some segment →
    (segment.isSealed = false ↔ i = manager.activeIndex)
  found : ∀ offset, manager.logStartOffset ≤ offset → offset < manager.logEndOffset →
    ∃ i segment, manager.findSegmentIndex offset = some i ∧ manager.segments[i]? = some segment ∧
      ∃ record ∈ segment.records, record.offset = offset

variable {segments : List IdealSegment}

theorem pairwise_next_of_isChain (chain : segments.IsChain Follows) :
    segments.Pairwise fun earlier later => earlier.nextOffset ≤ later.baseOffset := by
  have : Trans (fun earlier later : IdealSegment => earlier.nextOffset ≤ later.baseOffset)
      (fun earlier later : IdealSegment => earlier.nextOffset ≤ later.baseOffset)
      (fun earlier later : IdealSegment => earlier.nextOffset ≤ later.baseOffset) :=
    ⟨fun {_ middle _} first second => (first.trans middle.baseOffset_le_nextOffset).trans second⟩
  exact isChain_iff_pairwise.mp (chain.imp fun _ _ follows => follows.le)

theorem sorted_of_isChain (chain : segments.IsChain Follows) :
    segments.Pairwise fun earlier later => earlier.baseOffset ≤ later.baseOffset :=
  (pairwise_next_of_isChain chain).imp fun {earlier _} le => earlier.baseOffset_le_nextOffset.trans le

variable {offset : Int}

theorem holds_iff {segment : IdealSegment} :
    holds segment offset = true ↔ segment.baseOffset ≤ offset ∧ offset < segment.nextOffset := by
  rw [holds, Bool.and_eq_true, decide_eq_true_iff, decide_eq_true_iff]

theorem holds_lowerBound {first : IdealSegment} (chain : (first :: segments).IsChain Follows)
    (lower : first.baseOffset ≤ offset) (upper : ∀ last ∈ (first :: segments).getLast?, offset < last.nextOffset) :
    ∃ segment, (first :: segments)[lowerBound (first :: segments) offset]? = some segment ∧
      holds segment offset = true := by
  induction segments generalizing first with
  | nil =>
    have inside := upper first rfl
    refine ⟨first, ?_, holds_iff.mpr ⟨lower, inside⟩⟩
    rw [lowerBound, takeWhile_cons_of_neg (by simpa using inside)]
    rfl
  | cons second segments ih =>
    by_cases inside : offset < first.nextOffset
    · refine ⟨first, ?_, holds_iff.mpr ⟨lower, inside⟩⟩
      rw [lowerBound, takeWhile_cons_of_neg (by simpa using inside)]
      rfl
    · obtain ⟨follows, rest⟩ := isChain_cons_cons.mp chain
      have beyond : first.nextOffset ≤ offset := by omega
      obtain ⟨segment, position, held⟩ := ih rest (follows ▸ beyond) upper
      refine ⟨segment, ?_, held⟩
      rw [lowerBound, takeWhile_cons_of_pos (by simpa using beyond), length_cons, getElem?_cons_succ]
      exact position

theorem findSegmentIndex_of_lowerBound {manager : LogManager} {segment : IdealSegment}
    (position : manager.segments[lowerBound manager.segments offset]? = some segment)
    (held : holds segment offset = true) :
    manager.findSegmentIndex offset = some (lowerBound manager.segments offset) := by
  unfold findSegmentIndex
  dsimp only
  rw [position]
  exact if_pos held

/-- The sealed segments of a log and the active one behind them. -/
structure Linked («sealed» : List IdealSegment) (active : IdealSegment) (manager : LogManager) : Prop where
  segments : manager.segments = «sealed» ++ [active]
  activeIndex : manager.activeIndex = «sealed».length
  follows : («sealed» ++ [active]).IsChain Follows
  allSealed : ∀ segment ∈ «sealed», segment.isSealed = true
  unsealed : active.isSealed = false
  start : ((«sealed» ++ [active]).map (·.baseOffset)).head? = some manager.logStartOffset
  nonnegative : ∀ segment ∈ «sealed» ++ [active], 0 ≤ segment.baseOffset
  distinct : ((«sealed» ++ [active]).map (·.segmentId)).Nodup
  known : ∀ segment ∈ «sealed» ++ [active], segment.segmentId < manager.nextSegmentId

section Linked

variable {«sealed» : List IdealSegment} {active : IdealSegment} {manager : LogManager}

section

variable (linked : Linked «sealed» active manager)
include linked

theorem Linked.activeSegment : manager.activeSegment = some active := by
  rw [LogManager.activeSegment, linked.segments, linked.activeIndex, getElem?_concat_length]

theorem Linked.logEndOffset : manager.logEndOffset = active.nextOffset := by
  rw [LogManager.logEndOffset, linked.segments, getLast?_concat]

theorem Linked.next_le {segment : IdealSegment}
    (member : segment ∈ «sealed») : segment.nextOffset ≤ active.baseOffset :=
  (pairwise_append.mp (pairwise_next_of_isChain linked.follows)).2.2 segment member active mem_cons_self

theorem Linked.find {offset : Int} (lower : manager.logStartOffset ≤ offset) (upper : offset < active.nextOffset) :
    ∃ segment, manager.segments[lowerBound manager.segments offset]? = some segment ∧ holds segment offset = true := by
  obtain ⟨first, segments, split⟩ : ∃ first segments, «sealed» ++ [active] = first :: segments :=
    exists_cons_of_ne_nil (append_ne_nil_of_right_ne_nil _ (cons_ne_nil _ _))
  have chain := linked.follows
  have start := linked.start
  have last : ∀ last ∈ (first :: segments).getLast?, offset < last.nextOffset := by
    rw [← split, getLast?_concat]
    rintro last ⟨⟩
    exact upper
  rw [split] at chain start
  rw [linked.segments, split]
  exact holds_lowerBound chain ((Option.some.inj start).trans_le lower) last

theorem Linked.chained : Chained manager where
  sorted := by
    rw [linked.segments]
    exact sorted_of_isChain linked.follows
  follows := by
    rw [linked.segments]
    exact linked.follows
  activeLast := by
    rw [linked.segments, linked.activeIndex, length_append, length_singleton]
  onlyUnsealed := by
    intro i segment position
    rw [linked.segments] at position
    rw [linked.activeIndex]
    rcases Nat.lt_or_ge i «sealed».length with early | late
    · rw [getElem?_append_left early] at position
      have closed := linked.allSealed segment (mem_of_getElem? position)
      rw [closed]
      exact ⟨fun open_ => absurd open_ (by decide), fun same => by omega⟩
    · rw [getElem?_append_right late] at position
      obtain ⟨inside, same⟩ := List.getElem?_eq_some_iff.mp position
      rw [length_singleton] at inside
      rw [getElem_singleton] at same
      rw [← same, linked.unsealed]
      exact ⟨fun _ => by omega, fun _ => rfl⟩
  found := by
    intro offset lower upper
    obtain ⟨segment, position, held⟩ := linked.find lower (linked.logEndOffset ▸ upper)
    obtain ⟨low, high⟩ := holds_iff.mp held
    exact ⟨_, segment, findSegmentIndex_of_lowerBound position held, position, IdealSegment.exists_record low high⟩

theorem Linked.setActive {written : IdealSegment}
    (same : IdealSegment.SameIdentity active written) : Linked «sealed» written (manager.setActive written) := by
  obtain ⟨chain, -, joint⟩ := isChain_append.mp linked.follows
  constructor
  · rw [LogManager.setActive, linked.segments, linked.activeIndex, set_append_right _ _ le_rfl, Nat.sub_self,
      set_cons_zero]
  · exact linked.activeIndex
  · refine isChain_append.mpr ⟨chain, isChain_singleton _, ?_⟩
    rintro last member next ⟨⟩
    have follows : last.nextOffset = active.baseOffset := joint last member active rfl
    rw [Follows, follows, same.baseOffset]
  · exact linked.allSealed
  · rw [same.isSealed, linked.unsealed]
  · have start := linked.start
    rw [map_append, map_singleton] at start ⊢
    rwa [same.baseOffset]
  · intro segment member
    cases mem_append.mp member with
    | inl early => exact linked.nonnegative segment (mem_append_left _ early)
    | inr late =>
      rw [mem_singleton.mp late, same.baseOffset]
      exact linked.nonnegative active (mem_append_right _ mem_cons_self)
  · have distinct := linked.distinct
    rw [map_append, map_singleton] at distinct ⊢
    rwa [same.segmentId]
  · intro segment member
    cases mem_append.mp member with
    | inl early => exact linked.known segment (mem_append_left _ early)
    | inr late =>
      rw [mem_singleton.mp late, same.segmentId]
      exact linked.known active (mem_append_right _ mem_cons_self)

theorem Linked.push (now : Int64) :
    Linked («sealed» ++ [active.seal]) (createSegment active.nextOffset manager.nextSegmentId now)
      { manager with
        segments := «sealed» ++ [active.seal] ++ [createSegment active.nextOffset manager.nextSegmentId now]
        activeIndex := «sealed».length + 1
        nextSegmentId := manager.nextSegmentId + 1 } := by
  obtain ⟨chain, -, joint⟩ := isChain_append.mp linked.follows
  have old : («sealed» ++ [active.seal]).map (·.segmentId) = («sealed» ++ [active]).map (·.segmentId) := by
    rw [map_append, map_append]
    rfl
  have oldBases : («sealed» ++ [active.seal]).map (·.baseOffset) = («sealed» ++ [active]).map (·.baseOffset) := by
    rw [map_append, map_append]
    rfl
  have members : ∀ segment ∈ «sealed» ++ [active.seal], ∃ before ∈ «sealed» ++ [active],
      segment.baseOffset = before.baseOffset ∧ segment.segmentId = before.segmentId := by
    intro segment member
    cases mem_append.mp member with
    | inl early => exact ⟨segment, mem_append_left _ early, rfl, rfl⟩
    | inr late =>
      rw [mem_singleton.mp late]
      exact ⟨active, mem_append_right _ mem_cons_self, rfl, rfl⟩
  constructor
  · rfl
  · rw [length_append, length_singleton]
  · refine isChain_append.mpr ⟨isChain_append.mpr ⟨chain, isChain_singleton _, ?_⟩,
      isChain_singleton _, ?_⟩
    · rintro last member next ⟨⟩
      exact joint last member active rfl
    · rintro last member next ⟨⟩
      rw [getLast?_concat] at member
      cases member
      rfl
  · intro segment member
    cases mem_append.mp member with
    | inl early => exact linked.allSealed segment early
    | inr late => rw [mem_singleton.mp late]; rfl
  · rfl
  · rw [map_append, head?_append, oldBases, linked.start]
    rfl
  · intro segment member
    cases mem_append.mp member with
    | inl early =>
      obtain ⟨before, inside, base, -⟩ := members segment early
      rw [base]
      exact linked.nonnegative before inside
    | inr late =>
      rw [mem_singleton.mp late]
      exact (linked.nonnegative active (mem_append_right _ mem_cons_self)).trans
        active.baseOffset_le_nextOffset
  · rw [map_append, old, map_singleton]
    refine nodup_append.mpr ⟨linked.distinct, nodup_singleton _, ?_⟩
    rintro id member other late rfl
    rw [mem_singleton.mp late] at member
    obtain ⟨segment, inside, same⟩ := mem_map.mp member
    have below := linked.known segment inside
    change segment.segmentId = manager.nextSegmentId at same
    omega
  · intro segment member
    dsimp only
    cases mem_append.mp member with
    | inl early =>
      obtain ⟨before, inside, -, id⟩ := members segment early
      have below := linked.known before inside
      omega
    | inr late =>
      rw [mem_singleton.mp late]
      exact Nat.lt_succ_self _

theorem Linked.roll (now : Int64) :
    ∃ rolled, manager.rollActiveSegment now = .ok rolled ∧ ∃ closed next, Linked closed next rolled := by
  have replaced : (manager.setActive active.seal).segments = «sealed» ++ [active.seal] := by
    rw [LogManager.setActive, linked.segments, linked.activeIndex, set_append_right _ _ le_rfl, Nat.sub_self,
      set_cons_zero]
  have pushed := linked.push now
  unfold rollActiveSegment
  rw [linked.activeSegment]
  dsimp only
  rw [replaced]
  rw [length_append, length_append, length_singleton, length_singleton, Nat.add_sub_cancel]
  exact ⟨_, rfl, _, _, pushed⟩

theorem Linked.stepRoll (now : Int64) : ∃ closed next, Linked closed next (manager.step (.roll now)) := by
  obtain ⟨rolled, success, linked⟩ := linked.roll now
  rw [LogManager.step, success]
  exact linked

theorem Linked.rollIfDue (now : Int64) :
    ∃ rolled, manager.rollIfDue now = .ok rolled ∧ ∃ closed next, Linked closed next rolled := by
  unfold LogManager.rollIfDue
  rw [linked.activeSegment]
  dsimp only
  split
  · exact linked.roll now
  · exact ⟨manager, rfl, _, _, linked⟩

theorem Linked.append (batch : RecordBatch) (expectedBaseOffset : Int)
    (now : Int64) : ∃ closed next, Linked closed next (manager.append batch expectedBaseOffset now).1 := by
  obtain ⟨rolled, success, closed, next, after⟩ := linked.rollIfDue now
  obtain ⟨written, result, appended, same, -⟩ := IdealSegment.append_of_unsealed after.unsealed batch
  unfold LogManager.append
  split
  · exact ⟨_, _, linked⟩
  · rw [success]
    dsimp only
    rw [after.activeSegment]
    dsimp only
    rw [appended]
    exact ⟨_, _, after.setActive same⟩

theorem Linked.appendEach (clock : Nat → Int64) (preAppendOffset : Int)
    (i : Nat) (batches : List RecordBatch) (firstBaseOffset : Int) :
    ∃ closed next, Linked closed next (appendEach clock preAppendOffset i batches manager firstBaseOffset).1 := by
  induction batches generalizing «sealed» active manager i firstBaseOffset with
  | nil => exact ⟨_, _, linked⟩
  | cons batch batches ih =>
    obtain ⟨rolled, success, closed, next, after⟩ := linked.rollIfDue (clock i)
    obtain ⟨written, result, appended, same, -⟩ := IdealSegment.append_of_unsealed after.unsealed batch
    unfold LogManager.appendEach
    rw [success]
    dsimp only
    rw [after.activeSegment]
    dsimp only
    rw [appended]
    exact ih (after.setActive same) _ _

theorem Linked.appendBatch (batches : List RecordBatch)
    (clock : Nat → Int64) : ∃ closed next, Linked closed next (manager.appendBatch batches clock).1 := by
  obtain ⟨rolled, success, closed, next, after⟩ := linked.rollIfDue (clock 0)
  unfold LogManager.appendBatch
  split
  · exact ⟨_, _, linked⟩
  · split
    · exact ⟨_, _, linked⟩
    · rw [success]
      dsimp only
      rw [after.activeSegment]
      exact after.appendEach clock _ _ _ _

theorem Linked.drop (count : Nat) {kept : LogManager}
    (segments : kept.segments = «sealed».drop count ++ [active])
    (activeIndex : kept.activeIndex = («sealed».drop count).length)
    (start : ((«sealed».drop count ++ [active]).map (·.baseOffset)).head? = some kept.logStartOffset)
    (ids : kept.nextSegmentId = manager.nextSegmentId) : Linked («sealed».drop count) active kept := by
  have shorter : («sealed».drop count ++ [active]).Sublist («sealed» ++ [active]) :=
    (drop_sublist count «sealed»).append_right _
  have behind : («sealed».drop count ++ [active]) <:+ («sealed» ++ [active]) :=
    ⟨«sealed».take count, by rw [← append_assoc, take_append_drop]⟩
  constructor
  · exact segments
  · exact activeIndex
  · exact linked.follows.suffix behind
  · intro segment member
    exact linked.allSealed segment (mem_of_mem_drop member)
  · exact linked.unsealed
  · exact start
  · intro segment member
    exact linked.nonnegative segment (shorter.subset member)
  · exact linked.distinct.sublist (shorter.map _)
  · intro segment member
    rw [ids]
    exact linked.known segment (shorter.subset member)

end

theorem offload_kept {active : IdealSegment} {i : Nat} {toOffload : Int}
    {«sealed» : List IdealSegment} (allSealed : ∀ segment ∈ «sealed», segment.isSealed = true) :
    (offload (i + «sealed».length) i toOffload («sealed» ++ [active])).1 = «sealed».drop toOffload.toNat ++ [active] := by
  induction «sealed» generalizing i toOffload with
  | nil =>
    rw [nil_append, offload, if_neg (by simp), drop_nil, nil_append]
    rfl
  | cons segment «sealed» ih =>
    have rest : ∀ other ∈ «sealed», other.isSealed = true :=
      fun other member => allSealed other (mem_cons_of_mem _ member)
    have shift : i + (segment :: «sealed»).length = i + 1 + «sealed».length := by
      rw [length_cons]
      omega
    rw [cons_append, offload, shift]
    by_cases positive : 0 < toOffload
    · rw [if_pos ⟨positive, by omega, allSealed segment mem_cons_self⟩]
      dsimp only
      rw [ih rest, show toOffload.toNat = (toOffload - 1).toNat + 1 by omega, drop_succ_cons]
    · rw [if_neg (fun all => positive all.1)]
      dsimp only
      rw [ih rest, show toOffload.toNat = 0 by omega, drop_zero, drop_zero, cons_append]

theorem Linked.archive (linked : Linked «sealed» active manager) (now : Int64) :
    ∃ closed next, Linked closed next
      (((manager.archiveToTieredStorage now).toOption.map Prod.fst).getD manager) := by
  unfold archiveToTieredStorage
  split
  · exact ⟨_, _, linked⟩
  split
  · exact ⟨_, _, linked⟩
  split
  · exact ⟨_, _, linked⟩
  have kept := @offload_kept active 0 manager.offloadCount «sealed» linked.allSealed
  rw [Nat.zero_add, ← linked.activeIndex, ← linked.segments] at kept
  generalize offload manager.activeIndex 0 manager.offloadCount manager.segments = parted at kept ⊢
  obtain ⟨remaining, archived⟩ := parted
  dsimp only at kept ⊢
  cases remaining with
  | nil => exact absurd kept.symm (append_ne_nil_of_right_ne_nil _ (cons_ne_nil _ _))
  | cons first rest =>
    refine ⟨_, active, linked.drop manager.offloadCount.toNat kept ?_ ?_ rfl⟩
    · have length := congrArg List.length kept
      rw [length_cons, length_append, length_singleton] at length
      exact Nat.succ.inj length
    · rw [← kept]
      rfl

end Linked

/-- Segments on disk that follow on each other, all but the last of them sealed. -/
structure Recovered (discovered : List IdealSegment) : Prop where
  follows : discovered.IsChain Follows
  allSealed : ∀ segment ∈ discovered.dropLast, segment.isSealed = true
  nonnegative : ∀ segment ∈ discovered, 0 ≤ segment.baseOffset
  distinct : (discovered.map (·.segmentId)).Nodup

theorem lt_nextSegmentId (discovered : List IdealSegment) (start : Nat) :
    start ≤ discovered.foldl
        (fun next segment => if next ≤ segment.segmentId then segment.segmentId + 1 else next) start ∧
      ∀ segment ∈ discovered, segment.segmentId < discovered.foldl
        (fun next segment => if next ≤ segment.segmentId then segment.segmentId + 1 else next) start := by
  induction discovered generalizing start with
  | nil => exact ⟨le_rfl, fun _ member => (not_mem_nil member).elim⟩
  | cons first discovered ih =>
    obtain ⟨lower, below⟩ := ih (if start ≤ first.segmentId then first.segmentId + 1 else start)
    rw [foldl_cons]
    have moved : start ≤ (if start ≤ first.segmentId then first.segmentId + 1 else start) ∧
        first.segmentId < (if start ≤ first.segmentId then first.segmentId + 1 else start) := by
      split <;> omega
    refine ⟨moved.1.trans lower, ?_⟩
    intro segment member
    cases member with
    | head => exact moved.2.trans_le lower
    | tail _ member => exact below segment member

theorem Recovered.linked {discovered : List IdealSegment} (recovered : Recovered discovered)
    (config : LogManagerConfig) (now : Int64) :
    ∃ closed next, Linked closed next ((LogManager.new config).open discovered now) := by
  have same : discovered.insertionSort (fun left right => left.baseOffset ≤ right.baseOffset) = discovered :=
    (sorted_of_isChain recovered.follows).insertionSort_eq
  obtain ⟨-, below⟩ := lt_nextSegmentId discovered 0
  unfold LogManager.open
  rw [if_neg (show ¬(LogManager.new config).isOpen = true from Bool.false_ne_true)]
  dsimp only [LogManager.new]
  rw [nil_append, same]
  generalize discovered.foldl
    (fun next segment => if next ≤ segment.segmentId then segment.segmentId + 1 else next) 0 = nextId at below ⊢
  rcases eq_nil_or_concat discovered with rfl | ⟨closed, last, rfl⟩
  · refine ⟨[], createSegment 0 nextId now, rfl, rfl, isChain_singleton _, ?_, rfl, rfl, ?_, ?_, ?_⟩
    · exact fun _ member => (not_mem_nil member).elim
    · intro segment member
      rw [mem_singleton.mp member]
      exact le_rfl
    · exact nodup_singleton _
    · intro segment member
      rw [mem_singleton.mp member]
      exact Nat.lt_succ_self _
  · obtain ⟨follows, allSealed, nonnegative, distinct⟩ := recovered
    rw [concat_eq_append] at follows nonnegative distinct below allSealed ⊢
    rw [dropLast_concat] at allSealed
    rw [getLast?_concat]
    dsimp only
    cases state : last.isSealed with
    | false =>
      refine ⟨closed, last, rfl, ?_, follows, allSealed, state, ?_, nonnegative, distinct, below⟩
      · dsimp only
        rw [if_neg (by decide), length_append, length_singleton, Nat.add_sub_cancel]
      · cases closed <;> rfl
    | true =>
      have reopened : Linked closed { last with isSealed := false }
          { config := (LogManager.new config).config
            segments := closed ++ [{ last with isSealed := false }]
            activeIndex := closed.length
            logStartOffset := (((closed ++ [last]).head?.map (·.baseOffset)).getD 0)
            nextSegmentId := nextId } := by
        obtain ⟨chain, -, joint⟩ := isChain_append.mp follows
        constructor
        · rfl
        · rfl
        · refine isChain_append.mpr ⟨chain, isChain_singleton _, ?_⟩
          rintro before member next ⟨⟩
          exact joint before member last rfl
        · exact allSealed
        · rfl
        · cases closed <;> rfl
        · intro segment member
          cases mem_append.mp member with
          | inl early => exact nonnegative segment (mem_append_left _ early)
          | inr late =>
            rw [mem_singleton.mp late]
            exact nonnegative last (mem_append_right _ mem_cons_self)
        · rw [map_append] at distinct ⊢
          exact distinct
        · intro segment member
          cases mem_append.mp member with
          | inl early => exact below segment (mem_append_left _ early)
          | inr late =>
            rw [mem_singleton.mp late]
            exact below last (mem_append_right _ mem_cons_self)
      have sealedLast : ({ last with isSealed := false } : IdealSegment).seal = last := by
        rw [IdealSegment.seal, ← state]
      have pushed := reopened.push now
      rw [sealedLast] at pushed
      refine ⟨_, _, pushed.segments, ?_, pushed.follows, pushed.allSealed, pushed.unsealed, ?_, pushed.nonnegative,
        pushed.distinct, pushed.known⟩
      · dsimp only
        rw [if_pos rfl, length_append, length_append, length_singleton, length_singleton,
          Nat.add_sub_cancel]
      · cases closed <;> rfl

def keyedBatch : RecordBatch := { records := [{ key := [97] }] }

theorem recovered_nil : Recovered [] :=
  ⟨isChain_nil, fun _ member => (not_mem_nil member).elim, fun _ member => (not_mem_nil member).elim,
    nodup_nil⟩

end LogManager

end TorrentMq.Storage
