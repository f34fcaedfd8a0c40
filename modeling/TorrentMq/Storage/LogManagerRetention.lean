import TorrentMq.Storage.LogManagerChain
import TorrentMq.Storage.SegmentObjectProperties

/-!
# Retention

Which segments a retention check is meant to remove, and for which logs it
removes these. A segment is closed before it is deleted, and the close may
not return.
-/

set_option autoImplicit false

namespace TorrentMq.Storage

open List

namespace LogManager

/-- A segment that a retention check at some time takes for expired. -/
def ExpiredAt (manager : LogManager) (now : Int64) (i : Nat) : Prop :=
  i ≠ manager.activeIndex ∧ ∃ segment, manager.segments[i]? = some segment ∧
    isExpiredByTime segment now manager.config.topicConfig.retentionMs = true

variable {manager : LogManager} {now : Int64}

theorem mem_expiredCandidates {i : Nat} :
    i ∈ (manager.expiredCandidates now).map (·.index) ↔ manager.ExpiredAt now i := by
  unfold expiredCandidates ExpiredAt
  rw [mem_map]
  constructor
  · rintro ⟨candidate, member, rfl⟩
    obtain ⟨j, -, taken⟩ := mem_filterMap.mp member
    split at taken
    · cases taken
    next other =>
      split at taken
      · cases taken
      next segment position =>
        split at taken
        next expired =>
          cases taken
          exact ⟨other, segment, position, expired⟩
        · cases taken
  · rintro ⟨other, segment, position, expired⟩
    refine ⟨⟨i, segment.fileSize⟩, mem_filterMap.mpr ⟨i, ?_, ?_⟩, rfl⟩
    · exact mem_range.mpr (List.getElem?_eq_some_iff.mp position).1
    · rw [if_neg other, position]
      exact if_pos expired

def expiredCandidate (manager : LogManager) (now : Int64) (i : Nat) : Option DeletionCandidate :=
  if i = manager.activeIndex then none
  else
    match manager.segments[i]? with
    | none => none
    | some segment =>
      if isExpiredByTime segment now manager.config.topicConfig.retentionMs then some ⟨i, segment.fileSize⟩
      else none

theorem index_expiredCandidate {i : Nat} {candidate : DeletionCandidate}
    (taken : manager.expiredCandidate now i = some candidate) : candidate.index = i := by
  unfold expiredCandidate at taken
  split at taken
  · cases taken
  split at taken
  · cases taken
  split at taken
  · cases taken
    rfl
  · cases taken

theorem pairwise_expiredCandidates (manager : LogManager) (now : Int64) :
    (manager.expiredCandidates now).Pairwise fun earlier later => earlier.index < later.index := by
  change ((List.range manager.segments.length).filterMap (manager.expiredCandidate now)).Pairwise _
  refine List.Pairwise.filterMap _ ?_ pairwise_lt_range
  intro i j below earlier earlierTaken later laterTaken
  rw [index_expiredCandidate earlierTaken, index_expiredCandidate laterTaken]
  exact below

abbrev Slot := IdealSegment × Nat

def bytes (slots : List Slot) : Int := ((slots.map (·.1.fileSize)).sum : Nat)

def stays (manager : LogManager) (now : Int64) (slot : Slot) : Bool :=
  decide (slot.2 = manager.activeIndex) || !isExpiredByTime slot.1 now manager.config.topicConfig.retentionMs

def unexpired (manager : LogManager) (now : Int64) : List Slot := manager.segments.zipIdx.filter (manager.stays now)

/-- Segments that are removed oldest first, as many as a size limit needs and no more. -/
structure TrimmedTo (retentionBytes : Int) (activeIndex : Nat) (before after : List Slot) : Prop where
  sublist : after.Sublist before
  active : ∀ slot ∈ before, slot.2 = activeIndex → slot ∈ after
  oldest : ∀ removed ∈ before, removed ∉ after → ∀ kept ∈ after, kept.2 ≠ activeIndex →
    removed.1.baseOffset ≤ kept.1.baseOffset
  enough : 0 < retentionBytes → bytes after ≤ retentionBytes ∨ ∀ kept ∈ after, kept.2 = activeIndex
  needed : after ≠ before → 0 < retentionBytes ∧ ∃ last ∈ before, last ∉ after ∧
    (∀ removed ∈ before, removed ∉ after → removed.1.baseOffset ≤ last.1.baseOffset) ∧
    retentionBytes < bytes after + last.1.fileSize

/-- A check removes the segments that are due by time, and then the oldest ones that are due by size. -/
def RetainsExactly (manager : LogManager) (now : Int64) : Prop :=
  ∃ after result survivors, manager.retentionCheck now = .ok (after, result) ∧
    TrimmedTo manager.config.topicConfig.retentionBytes manager.activeIndex (manager.unexpired now) survivors ∧
    after.segments = survivors.map Prod.fst ∧
    after.segments[after.activeIndex]? = manager.segments[manager.activeIndex]?

/-!
## Closing
-/

section Closing

variable (closes : IdealSegment → Bool)

/-- A deletion is refused before the close of the segment, or gets past it. -/
def getsPast (manager : LogManager) (index : Nat) : Bool :=
  decide (index = manager.activeIndex) || manager.segments[index]?.all closes

def closeExpired (state : LogManager × RetentionResult) (candidate : DeletionCandidate) :
    Option (LogManager × RetentionResult) :=
  if state.1.getsPast closes candidate.index then some (deleteExpired state candidate) else none

def closeBySize (retentionBytes : Int) :
    Nat → Int → LogManager × RetentionResult → Option (LogManager × RetentionResult)
  | 0, _, state => some state
  | fuel + 1, currentTotal, state =>
    if currentTotal ≤ retentionBytes then some state
    else
      match (oldest state.1.segments state.1.activeIndex).bind fun i => state.1.segments[i]?.map (i, ·) with
      | none => some state
      | some (oldestIdx, segment) =>
        if !state.1.getsPast closes oldestIdx then none
        else
          match state.1.deleteSegment oldestIdx with
          | .error _ => some state
          | .ok deleted =>
            closeBySize retentionBytes fuel (currentTotal - segment.fileSize)
              (deleted,
                { state.2 with
                  segmentsDeletedBySize := state.2.segmentsDeletedBySize + 1
                  bytesDeleted := state.2.bytesDeleted + segment.fileSize })

/-- A retention check, with the segments whose close returns. `none` is a check that does not. -/
def closingRetentionCheck (manager : LogManager) (now : Int64) :
    Option (Except LogError (LogManager × RetentionResult)) :=
  let topic := manager.config.topicConfig
  if !manager.isOpen then some (.error .notOpen)
  else if topic.retentionMs ≤ 0 ∧ topic.retentionBytes ≤ 0 then
    some (.ok (manager, { newLogStartOffset := manager.logStartOffset }))
  else do
    let byTime ← (manager.expiredCandidates now).foldlM (closeExpired closes) (manager, {})
    let bySize ←
      (if 0 < topic.retentionBytes then
        closeBySize closes topic.retentionBytes byTime.1.segments.length byTime.1.totalBytes byTime
      else some byTime)
    match bySize.1.segments with
    | [] => return .ok bySize
    | first :: _ =>
      return .ok
        ({ bySize.1 with logStartOffset := first.baseOffset },
          { bySize.2 with newLogStartOffset := first.baseOffset })

def RetainsExactlyClosing (manager : LogManager) (now : Int64) : Prop :=
  ∃ after result survivors, manager.closingRetentionCheck closes now = some (.ok (after, result)) ∧
    TrimmedTo manager.config.topicConfig.retentionBytes manager.activeIndex (manager.unexpired now) survivors ∧
    after.segments = survivors.map Prod.fst ∧
    after.segments[after.activeIndex]? = manager.segments[manager.activeIndex]?

end Closing

/-- Which segments are closed by a call that returns, each of them being an object of its own. -/
def closesAs (object : IdealSegment → SegmentObject) (answers : SegmentAnswers) (segment : IdealSegment) : Bool :=
  ((SegmentObject.close answers).run Locking.Locked.free (object segment)).returns

/-- No segment but the active one is due by its time or by the size of the log. -/
def NothingDue (manager : LogManager) (now : Int64) : Prop :=
  (∀ i, ¬manager.ExpiredAt now i) ∧
    (0 < manager.config.topicConfig.retentionBytes →
      (manager.totalBytes : Int) ≤ manager.config.topicConfig.retentionBytes ∨
        ∀ i < manager.segments.length, i = manager.activeIndex)

def withRetentionBytes (manager : LogManager) (retentionBytes : Int) : LogManager :=
  { manager with
    config := { manager.config with topicConfig := { manager.config.topicConfig with retentionBytes } } }

def ExpiresOnce (manager : LogManager) (now : Int64) : Prop :=
  ∀ i j, manager.ExpiredAt now i → manager.ExpiredAt now j → i = j

/-- A log that some segments were deleted from, none of them the active one. -/
structure Remaining (before : LogManager) (current : List Slot) (after : LogManager) : Prop where
  segments : after.segments = current.map Prod.fst
  sublist : current.Sublist before.segments.zipIdx
  active : ∀ slot ∈ before.segments.zipIdx, slot.2 = before.activeIndex → slot ∈ current
  activeIndex : after.activeIndex =
    current.countP (fun slot => decide (slot.2 < before.activeIndex)) + (before.activeIndex - before.segments.length)

variable (segments : List IdealSegment)

theorem pairwise_zipIdx :
    segments.zipIdx.Pairwise fun earlier later => earlier.2 < later.2 := by
  have ascending : (segments.zipIdx.map Prod.snd).Pairwise (· < ·) := by
    rw [zipIdx_map_snd]
    exact pairwise_lt_range'
  exact pairwise_map.mp ascending

theorem nodup_zipIdx : segments.zipIdx.Nodup := by
  refine (pairwise_zipIdx segments).imp ?_
  intro earlier later below same
  rw [same] at below
  exact Nat.lt_irrefl _ below

theorem split_of_getElem? {α : Type} {values : List α} {position : Nat} {value : α}
    (found : values[position]? = some value) :
    ∃ front back, values = front ++ value :: back ∧ front.length = position ∧
      values.eraseIdx position = front ++ back := by
  obtain ⟨inside, same⟩ := List.getElem?_eq_some_iff.mp found
  refine ⟨values.take position, values.drop (position + 1), ?_, ?_, ?_⟩
  · rw [← same, ← drop_eq_getElem_cons, take_append_drop]
  · exact length_take_of_le inside.le
  · exact eraseIdx_eq_take_drop_succ values position

section Remaining

variable {before after : LogManager} {current : List Slot}

theorem remaining_self (manager : LogManager) : Remaining manager manager.segments.zipIdx manager where
  segments := (zipIdx_map_fst 0 manager.segments).symm
  sublist := List.Sublist.refl _
  active := fun _ member _ => member
  activeIndex := by
    have counted : ∀ (segments : List IdealSegment) (start : Nat),
        (segments.zipIdx start).countP (fun slot => decide (slot.2 < manager.activeIndex)) =
          min segments.length (manager.activeIndex - start) := by
      intro segments
      induction segments with
      | nil =>
        intro start
        rw [zipIdx_nil, countP_nil, length_nil, Nat.zero_min]
      | cons segment segments ih =>
        intro start
        rw [zipIdx_cons, countP_cons, ih, length_cons]
        by_cases below : start < manager.activeIndex
        · rw [if_pos (decide_eq_true below)]
          omega
        · rw [if_neg (by rwa [decide_eq_true_iff])]
          omega
    rw [counted]
    omega

theorem Remaining.ordered (remaining : Remaining before current after) :
    current.Pairwise fun earlier later => earlier.2 < later.2 :=
  (pairwise_zipIdx before.segments).sublist remaining.sublist

section

variable (remaining : Remaining before current after)
include remaining

theorem Remaining.position {front back : List Slot} {slot : Slot} (split : current = front ++ slot :: back) :
    (front.length = after.activeIndex ↔ slot.2 = before.activeIndex) ∧
      (front.length < after.activeIndex ↔ slot.2 < before.activeIndex) := by
  have ordered := remaining.ordered
  have index := remaining.activeIndex
  rw [split] at ordered index
  obtain ⟨-, behind, across⟩ := pairwise_append.mp ordered
  have inside : slot.2 < before.segments.length :=
    snd_lt_of_mem_zipIdx (remaining.sublist.subset (by
      rw [split]
      exact mem_append_right _ mem_cons_self))
  rw [countP_append, countP_cons] at index
  rcases Nat.lt_trichotomy slot.2 before.activeIndex with below | same | above
  · have all : front.countP (fun slot => decide (slot.2 < before.activeIndex)) = front.length := by
      refine countP_eq_length.mpr ?_
      intro earlier member
      exact decide_eq_true ((across earlier member slot mem_cons_self).trans below)
    rw [all, if_pos (decide_eq_true below)] at index
    omega
  · have all : front.countP (fun slot => decide (slot.2 < before.activeIndex)) = front.length := by
      refine countP_eq_length.mpr ?_
      intro earlier member
      exact decide_eq_true ((across earlier member slot mem_cons_self).trans_eq same)
    have none : back.countP (fun slot => decide (slot.2 < before.activeIndex)) = 0 := by
      refine countP_eq_zero.mpr ?_
      intro later member
      rw [decide_eq_true_iff]
      have := (pairwise_cons.mp behind).1 later member
      omega
    rw [all, none, if_neg (by rw [decide_eq_true_iff]; omega)] at index
    omega
  · have none : back.countP (fun slot => decide (slot.2 < before.activeIndex)) = 0 := by
      refine countP_eq_zero.mpr ?_
      intro later member
      rw [decide_eq_true_iff]
      have := (pairwise_cons.mp behind).1 later member
      omega
    -- The active segment is still there, in front of the slot and not counted.
    have fewer : front.countP (fun slot => decide (slot.2 < before.activeIndex)) < front.length := by
      have held : before.activeIndex < before.segments.length := above.trans inside
      have member := remaining.active (before.segments[before.activeIndex], before.activeIndex)
        (mk_mem_zipIdx_iff_getElem?.mpr (getElem?_eq_getElem held)) rfl
      rw [split] at member
      have early : (before.segments[before.activeIndex], before.activeIndex) ∈ front := by
        cases mem_append.mp member with
        | inl early => exact early
        | inr late =>
          cases late with
          | head => exact absurd above (Nat.lt_irrefl _)
          | tail _ later =>
            have := (pairwise_cons.mp behind).1 _ later
            dsimp only at this
            omega
      refine lt_of_le_of_ne countP_le_length ?_
      intro all
      have less := countP_eq_length.mp all _ early
      rw [decide_eq_true_iff] at less
      exact Nat.lt_irrefl _ less
    rw [none, if_neg (by rw [decide_eq_true_iff]; omega)] at index
    omega

theorem Remaining.delete {position : Nat} {slot : Slot}
    (found : current[position]? = some slot) (other : slot.2 ≠ before.activeIndex) :
    ∃ deleted, after.deleteSegment position = .ok deleted ∧
      Remaining before (current.eraseIdx position) deleted ∧ deleted.config = after.config := by
  obtain ⟨front, back, split, length, erased⟩ := split_of_getElem? found
  obtain ⟨atActive, belowActive⟩ := remaining.position split
  rw [length] at atActive belowActive
  unfold deleteSegment
  rw [if_neg, if_neg (fun same => other (atActive.mp same))]
  · refine ⟨_, rfl, ⟨?_, ?_, ?_, ?_⟩, rfl⟩
    · dsimp only
      rw [remaining.segments, erased, split, map_append, map_cons, map_append, ← length,
        ← length_map Prod.fst, eraseIdx_append_of_length_le le_rfl, Nat.sub_self, eraseIdx_cons_zero]
    · exact (eraseIdx_sublist current position).trans remaining.sublist
    · intro kept member same
      have held := remaining.active kept member same
      rw [erased]
      rw [split] at held
      cases mem_append.mp held with
      | inl early => exact mem_append_left _ early
      | inr late =>
        cases late with
        | head => exact absurd same other
        | tail _ later => exact mem_append_right _ later
    · have index := remaining.activeIndex
      rw [split, countP_append, countP_cons] at index
      dsimp only
      rw [erased, countP_append]
      by_cases below : slot.2 < before.activeIndex
      · rw [if_pos (belowActive.mpr below)]
        rw [if_pos (decide_eq_true below)] at index
        omega
      · rw [if_neg (fun less => below (belowActive.mp less))]
        rw [if_neg (by rwa [decide_eq_true_iff])] at index
        omega
  · rw [remaining.segments, length_map]
    exact Nat.not_le.mpr (List.getElem?_eq_some_iff.mp found).1

theorem Remaining.deleted (position : Nat) : (∃ error, after.deleteSegment position = .error error) ∨
      ∃ slot deleted, current[position]? = some slot ∧ slot.2 ≠ before.activeIndex ∧
        after.deleteSegment position = .ok deleted ∧ Remaining before (current.eraseIdx position) deleted := by
  cases found : current[position]? with
  | none =>
    refine .inl ⟨.indexOutOfRange position after.segments.length, ?_⟩
    unfold deleteSegment
    rw [if_pos]
    rw [remaining.segments, length_map]
    exact List.getElem?_eq_none_iff.mp found
  | some slot =>
    by_cases same : slot.2 = before.activeIndex
    · obtain ⟨front, back, split, length, -⟩ := split_of_getElem? found
      refine .inl ⟨.deletesActive, ?_⟩
      unfold deleteSegment
      rw [if_neg, if_pos]
      · rw [← length]
        exact (remaining.position split).1.mpr same
      · rw [remaining.segments, length_map]
        exact Nat.not_le.mpr (List.getElem?_eq_some_iff.mp found).1
    · obtain ⟨deleted, success, next, -⟩ := remaining.delete found same
      exact .inr ⟨slot, deleted, rfl, same, success, next⟩

theorem Remaining.activeSegment : after.segments[after.activeIndex]? = before.segments[before.activeIndex]? := by
  by_cases inside : before.activeIndex < before.segments.length
  · have member := remaining.active (before.segments[before.activeIndex], before.activeIndex)
      (mk_mem_zipIdx_iff_getElem?.mpr (getElem?_eq_getElem inside)) rfl
    obtain ⟨front, back, split⟩ := append_of_mem member
    rw [remaining.segments, ← (remaining.position split).1.mpr rfl, split, map_append, map_cons,
      getElem?_append_right (by rw [length_map]), length_map, Nat.sub_self, getElem?_cons_zero,
      getElem?_eq_getElem inside]
  · rw [getElem?_eq_none (Nat.not_lt.mp inside), remaining.segments]
    refine getElem?_eq_none ?_
    have all : current.countP (fun slot => decide (slot.2 < before.activeIndex)) = current.length := by
      refine countP_eq_length.mpr ?_
      intro slot member
      have below := snd_lt_of_mem_zipIdx (remaining.sublist.subset member)
      exact decide_eq_true (by omega)
    rw [remaining.activeIndex, all, length_map]
    omega

end

end Remaining

variable {manager : LogManager}

theorem mem_unexpired {now : Int64} {slot : Slot} (member : slot ∈ manager.segments.zipIdx) :
    slot ∉ manager.unexpired now ↔ manager.ExpiredAt now slot.2 := by
  have position := mem_zipIdx_iff_getElem?.mp member
  unfold unexpired ExpiredAt
  rw [List.mem_filter, stays, Bool.or_eq_true, decide_eq_true_iff, Bool.not_eq_true', position]
  constructor
  · intro gone
    refine ⟨fun same => gone ⟨member, .inl same⟩, slot.1, rfl, ?_⟩
    exact Bool.of_not_eq_false fun fresh => gone ⟨member, .inr fresh⟩
  · rintro ⟨other, segment, same, expired⟩ ⟨-, kept⟩
    rw [← Option.some.inj same] at expired
    cases kept with
    | inl active => exact other active
    | inr fresh =>
      rw [expired] at fresh
      cases fresh

theorem getElem?_of_expiredAt {now : Int64} {i : Nat} (expired : manager.ExpiredAt now i) :
    ∃ slot, manager.segments.zipIdx[i]? = some slot ∧ slot.2 = i ∧ slot ∉ manager.unexpired now := by
  obtain ⟨-, segment, position, -⟩ := id expired
  have found : manager.segments.zipIdx[i]? = some (segment, i) := by
    rw [getElem?_zipIdx, position, Option.map_some, Nat.zero_add]
  exact ⟨_, found, rfl, (mem_unexpired (mem_of_getElem? found)).mpr expired⟩

theorem deleteExpired_of_once {now : Int64} (once : manager.ExpiresOnce now) :
    let timed := ((manager.expiredCandidates now).foldl deleteExpired (manager, {})).1
    Remaining manager (manager.unexpired now) timed ∧ timed.config = manager.config := by
  intro timed
  have members : ∀ candidate ∈ manager.expiredCandidates now, manager.ExpiredAt now candidate.index :=
    fun candidate member => mem_expiredCandidates.mp (mem_map_of_mem member)
  have sorted := pairwise_expiredCandidates manager now
  unfold timed
  cases candidates : manager.expiredCandidates now with
  | nil =>
    have all : manager.unexpired now = manager.segments.zipIdx := by
      refine filter_eq_self.mpr ?_
      intro slot member
      have kept : slot ∈ manager.unexpired now := by
        by_contra gone
        have due := mem_expiredCandidates.mpr ((mem_unexpired member).mp gone)
        rw [candidates] at due
        cases due
      exact (List.mem_filter.mp kept).2
    rw [all]
    exact ⟨remaining_self manager, rfl⟩
  | cons candidate more =>
    rw [candidates] at members sorted
    have due := members candidate mem_cons_self
    have single : more = [] := by
      refine eq_nil_iff_forall_not_mem.mpr ?_
      intro other member
      have above := (pairwise_cons.mp sorted).1 other member
      have same := once _ _ due (members other (mem_cons_of_mem _ member))
      omega
    obtain ⟨slot, found, same, gone⟩ := getElem?_of_expiredAt due
    obtain ⟨deleted, success, remaining, config⟩ :=
      (remaining_self manager).delete found (by rw [same]; exact due.1)
    have rest : manager.unexpired now = manager.segments.zipIdx.eraseIdx candidate.index := by
      obtain ⟨front, back, split, length, erased⟩ := split_of_getElem? found
      have distinct := nodup_zipIdx manager.segments
      have kept : ∀ other ∈ manager.segments.zipIdx, other ≠ slot → manager.stays now other = true := by
        intro other member different
        have held : other ∈ manager.unexpired now := by
          by_contra removed
          have position := once _ _ ((mem_unexpired member).mp removed) due
          have slotPosition := mem_zipIdx_iff_getElem?.mp (mem_of_getElem? found)
          have otherPosition := mem_zipIdx_iff_getElem?.mp member
          rw [position, ← same, slotPosition] at otherPosition
          exact different (Prod.ext (Option.some.inj otherPosition).symm (position.trans same.symm))
        exact (List.mem_filter.mp held).2
      have drops : ¬manager.stays now slot = true :=
        fun stays => gone (List.mem_filter.mpr ⟨mem_of_getElem? found, stays⟩)
      rw [split] at kept distinct
      obtain ⟨-, behind, across⟩ := pairwise_append.mp distinct
      rw [unexpired, erased, split, filter_append, filter_cons_of_neg drops]
      congr 1
      · refine filter_eq_self.mpr ?_
        intro other member
        exact kept other (mem_append_left _ member) (across other member slot mem_cons_self)
      · refine filter_eq_self.mpr ?_
        intro other member
        exact kept other (mem_append_right _ (mem_cons_of_mem _ member))
          ((pairwise_cons.mp behind).1 other member).symm
    rw [single, foldl_cons, foldl_nil, deleteExpired, success, rest]
    exact ⟨remaining, config⟩

theorem Remaining.deleteExpired {before : LogManager} {current : List Slot} {state : LogManager × RetentionResult}
    (remaining : Remaining before current state.1) {position : Nat} {slot : Slot}
    (found : current[position]? = some slot) {candidates : List DeletionCandidate}
    (behind : ∀ candidate ∈ candidates, position < candidate.index) :
    ∃ left, Remaining before left (candidates.foldl LogManager.deleteExpired state).1 ∧ slot ∈ left := by
  induction candidates generalizing current state with
  | nil => exact ⟨current, remaining, mem_of_getElem? found⟩
  | cons candidate candidates ih =>
    have rest : ∀ other ∈ candidates, position < other.index :=
      fun other member => behind other (mem_cons_of_mem _ member)
    rw [foldl_cons]
    rcases remaining.deleted candidate.index with ⟨error, refused⟩ | ⟨_, deleted, -, -, success, next⟩
    · have same : LogManager.deleteExpired state candidate = state := by
        rw [LogManager.deleteExpired, refused]
      rw [same]
      exact ih remaining found rest
    · have once : (LogManager.deleteExpired state candidate).1 = deleted := by
        rw [LogManager.deleteExpired, success]
      refine ih (by rw [once]; exact next) ?_ rest
      rw [getElem?_eraseIdx_of_lt (behind candidate mem_cons_self)]
      exact found

theorem exists_overlooked {now : Int64} (twice : ¬manager.ExpiresOnce now) :
    ∃ left, Remaining manager left ((manager.expiredCandidates now).foldl deleteExpired (manager, {})).1 ∧
      ∃ slot ∈ left, manager.ExpiredAt now slot.2 := by
  have members : ∀ candidate ∈ manager.expiredCandidates now, manager.ExpiredAt now candidate.index :=
    fun candidate member => mem_expiredCandidates.mp (mem_map_of_mem member)
  have complete : ∀ i, manager.ExpiredAt now i → ∃ candidate ∈ manager.expiredCandidates now, candidate.index = i :=
    fun i expired => mem_map.mp (mem_expiredCandidates.mpr expired)
  have sorted := pairwise_expiredCandidates manager now
  cases candidates : manager.expiredCandidates now with
  | nil =>
    refine absurd ?_ twice
    intro i j first
    obtain ⟨candidate, member, -⟩ := complete i first
    rw [candidates] at member
    cases member
  | cons first more =>
    rw [candidates] at members complete sorted
    cases more with
    | nil =>
      refine absurd ?_ twice
      intro i j earlier later
      obtain ⟨candidate, member, index⟩ := complete i earlier
      obtain ⟨other, otherMember, otherIndex⟩ := complete j later
      rw [← index, ← otherIndex, mem_singleton.mp member, mem_singleton.mp otherMember]
    | cons second more =>
      obtain ⟨above, rest⟩ := pairwise_cons.mp sorted
      have ascends := above second mem_cons_self
      obtain ⟨slot, found, same, -⟩ := getElem?_of_expiredAt (members first mem_cons_self)
      obtain ⟨deleted, success, remaining, -⟩ :=
        (remaining_self manager).delete found (by rw [same]; exact (members first mem_cons_self).1)
      have due := members second (mem_cons_of_mem _ mem_cons_self)
      obtain ⟨missed, position, missedIndex, -⟩ := getElem?_of_expiredAt due
      have once : (deleteExpired (manager, {}) first).1 = deleted := by
        rw [LogManager.deleteExpired, success]
      -- The second segment has moved to the position in front of the one that is deleted.
      have shifted : (manager.segments.zipIdx.eraseIdx first.index)[second.index - 1]? = some missed := by
        rw [getElem?_eraseIdx_of_ge (by omega), Nat.sub_add_cancel (by omega)]
        exact position
      rw [foldl_cons]
      obtain ⟨left, after, member⟩ := @Remaining.deleteExpired manager _ (deleteExpired (manager, {}) first)
        (by rw [once]; exact remaining) _ _ shifted (second :: more) (by
          intro candidate member
          cases member with
          | head => omega
          | tail _ later =>
            have := (pairwise_cons.mp rest).1 candidate later
            omega)
      exact ⟨left, after, missed, member, by rw [missedIndex]; exact due⟩

/-- What a search has found that is at its end: one of the segments with the lowest base offset, besides the
active one. -/
def FoundOldest (activeIndex : Nat) (seen : List Slot) : Option Nat × Int → Prop
  | (none, base) => base = kInvalidOffset ∧ ∀ slot ∈ seen, slot.2 = activeIndex
  | (some i, base) => i ≠ activeIndex ∧ ∃ segment, (segment, i) ∈ seen ∧ segment.baseOffset = base ∧
      ∀ slot ∈ seen, slot.2 ≠ activeIndex → base ≤ slot.1.baseOffset

theorem foundOldest_fold {activeIndex : Nat} {seen : List Slot} (valid : ∀ slot ∈ seen, 0 ≤ slot.1.baseOffset) :
    FoundOldest activeIndex seen
      (seen.foldl
        (fun (found : Option Nat × Int) (indexed : IdealSegment × Nat) =>
          if indexed.2 = activeIndex then found
          else if indexed.1.baseOffset < found.2 ∨ found.2 = kInvalidOffset then
            (some indexed.2, indexed.1.baseOffset)
          else found)
        (none, kInvalidOffset)) := by
  induction seen using List.reverseRecOn with
  | nil => exact ⟨rfl, fun _ member => (not_mem_nil member).elim⟩
  | append_singleton seen slot ih =>
    have before := ih fun other member => valid other (mem_append_left _ member)
    rw [foldl_append, foldl_cons, foldl_nil]
    generalize seen.foldl _ (none, kInvalidOffset) = found at before ⊢
    obtain ⟨i, base⟩ := found
    dsimp only
    by_cases active : slot.2 = activeIndex
    · rw [if_pos active]
      cases i with
      | none =>
        obtain ⟨unset, all⟩ := before
        refine ⟨unset, ?_⟩
        intro other member
        cases mem_append.mp member with
        | inl old => exact all other old
        | inr new => rw [mem_singleton.mp new, active]
      | some i =>
        obtain ⟨other, segment, member, same, lowest⟩ := before
        refine ⟨other, segment, mem_append_left _ member, same, ?_⟩
        intro next inside inactive
        cases mem_append.mp inside with
        | inl old => exact lowest next old inactive
        | inr new =>
          rw [mem_singleton.mp new] at inactive
          exact absurd active inactive
    · rw [if_neg active]
      cases i with
      | none =>
        obtain ⟨unset, all⟩ := before
        rw [if_pos (.inr unset)]
        refine ⟨active, slot.1, mem_append_right _ mem_cons_self, rfl, ?_⟩
        intro other member inactive
        cases mem_append.mp member with
        | inl old => exact absurd (all other old) inactive
        | inr new => rw [mem_singleton.mp new]
      | some i =>
        obtain ⟨other, segment, member, same, lowest⟩ := before
        have set : base ≠ kInvalidOffset := by
          have nonnegative := valid (segment, i) (mem_append_left _ member)
          unfold kInvalidOffset
          dsimp only at nonnegative
          omega
        by_cases below : slot.1.baseOffset < base
        · rw [if_pos (.inl below)]
          refine ⟨active, slot.1, mem_append_right _ mem_cons_self, rfl, ?_⟩
          intro next inside inactive
          cases mem_append.mp inside with
          | inl old => exact below.le.trans (lowest next old inactive)
          | inr new => rw [mem_singleton.mp new]
        · rw [if_neg (fun either => either.elim below set)]
          refine ⟨other, segment, mem_append_left _ member, same, ?_⟩
          intro next inside inactive
          cases mem_append.mp inside with
          | inl old => exact lowest next old inactive
          | inr new =>
            rw [mem_singleton.mp new]
            exact Int.not_lt.mp below

theorem Remaining.oldest {before after : LogManager} {current : List Slot} (remaining : Remaining before current after)
    (valid : ∀ segment ∈ before.segments, 0 ≤ segment.baseOffset) :
    (LogManager.oldest after.segments after.activeIndex = none ∧ ∀ slot ∈ current, slot.2 = before.activeIndex) ∨
      ∃ position slot, LogManager.oldest after.segments after.activeIndex = some position ∧
        current[position]? = some slot ∧ slot.2 ≠ before.activeIndex ∧
        ∀ other ∈ current, other.2 ≠ before.activeIndex → slot.1.baseOffset ≤ other.1.baseOffset := by
  have known : ∀ slot ∈ current, 0 ≤ slot.1.baseOffset := fun slot member =>
    valid slot.1 (fst_mem_of_mem_zipIdx (remaining.sublist.subset member))
  have now : ∀ i slot, current[i]? = some slot → (slot.1, i) ∈ after.segments.zipIdx ∧
      (i = after.activeIndex ↔ slot.2 = before.activeIndex) := by
    intro i slot found
    obtain ⟨front, back, split, length, -⟩ := split_of_getElem? found
    refine ⟨?_, by rw [← length]; exact (remaining.position split).1⟩
    rw [mk_mem_zipIdx_iff_getElem?, remaining.segments, getElem?_map, found, Option.map_some]
  have slots : ∀ indexed ∈ after.segments.zipIdx, ∃ slot, current[indexed.2]? = some slot ∧ slot.1 = indexed.1 := by
    intro indexed member
    have position := mem_zipIdx_iff_getElem?.mp member
    rw [remaining.segments, getElem?_map, Option.map_eq_some_iff] at position
    exact position
  have found := @foundOldest_fold after.activeIndex after.segments.zipIdx (by
    intro indexed member
    obtain ⟨slot, position, same⟩ := slots indexed member
    rw [← same]
    exact known slot (mem_of_getElem? position))
  unfold LogManager.oldest
  generalize after.segments.zipIdx.foldl _ (none, kInvalidOffset) = result at found ⊢
  obtain ⟨i, base⟩ := result
  cases i with
  | none =>
    refine .inl ⟨rfl, ?_⟩
    intro slot member
    obtain ⟨i, position⟩ := mem_iff_getElem?.mp member
    obtain ⟨indexed, active⟩ := now i slot position
    exact active.mp (found.2 _ indexed)
  | some i =>
    obtain ⟨inactive, segment, member, same, lowest⟩ := found
    obtain ⟨slot, position, segmentEq⟩ := slots _ member
    refine .inr ⟨i, slot, rfl, position, fun active => inactive ((now i slot position).2.mpr active), ?_⟩
    intro other otherMember otherInactive
    obtain ⟨j, otherPosition⟩ := mem_iff_getElem?.mp otherMember
    obtain ⟨indexed, active⟩ := now j other otherPosition
    rw [segmentEq, same]
    exact lowest (other.1, j) indexed fun equal => otherInactive (active.mp equal)

structure Trimming (retentionBytes : Int) (activeIndex : Nat) (start current : List Slot) : Prop where
  sublist : current.Sublist start
  active : ∀ slot ∈ start, slot.2 = activeIndex → slot ∈ current
  oldest : ∀ removed ∈ start, removed ∉ current → ∀ kept ∈ current, kept.2 ≠ activeIndex →
    removed.1.baseOffset ≤ kept.1.baseOffset
  needed : current ≠ start → ∃ last ∈ start, last ∉ current ∧
    (∀ removed ∈ start, removed ∉ current → removed.1.baseOffset ≤ last.1.baseOffset) ∧
    retentionBytes < bytes current + last.1.fileSize

theorem bytes_split (front back : List Slot) (slot : Slot) :
    bytes (front ++ slot :: back) = bytes (front ++ back) + slot.1.fileSize := by
  unfold bytes
  rw [map_append, map_cons, sum_append, sum_cons, map_append, sum_append]
  omega

theorem Trimming.remove {retentionBytes : Int} {activeIndex : Nat} {start current : List Slot}
    (trimming : Trimming retentionBytes activeIndex start current) (distinct : start.Nodup) {position : Nat}
    {slot : Slot} (found : current[position]? = some slot) (inactive : slot.2 ≠ activeIndex)
    (lowest : ∀ other ∈ current, other.2 ≠ activeIndex → slot.1.baseOffset ≤ other.1.baseOffset)
    (above : retentionBytes < bytes current) :
    Trimming retentionBytes activeIndex start (current.eraseIdx position) ∧
      bytes (current.eraseIdx position) = bytes current - slot.1.fileSize := by
  obtain ⟨front, back, split, -, erased⟩ := split_of_getElem? found
  have once := distinct.sublist trimming.sublist
  rw [split] at once
  have gone : slot ∉ front ++ back := (nodup_middle.mp once).notMem
  have kept : ∀ other, other ∈ current ↔ other = slot ∨ other ∈ front ++ back := by
    intro other
    rw [split, mem_append, mem_cons, mem_append]
    tauto
  have held := trimming.sublist.subset (mem_of_getElem? found)
  have removed : ∀ other ∈ start, other ∉ front ++ back → other = slot ∨ other ∉ current := by
    intro other member absent
    by_cases inside : other ∈ current
    · exact .inl (((kept other).mp inside).resolve_right absent)
    · exact .inr inside
  have earlier : ∀ other ∈ start, other ∉ front ++ back → other.1.baseOffset ≤ slot.1.baseOffset := by
    intro other member absent
    cases removed other member absent with
    | inl same => rw [same]
    | inr out => exact trimming.oldest other member out slot (mem_of_getElem? found) inactive
  have size := bytes_split front back slot
  rw [← split] at size
  rw [erased]
  refine ⟨⟨?_, ?_, ?_, ?_⟩, by omega⟩
  · rw [← erased]
    exact (eraseIdx_sublist current position).trans trimming.sublist
  · intro other member active
    cases (kept other).mp (trimming.active other member active) with
    | inl same =>
      rw [same] at active
      exact absurd active inactive
    | inr inside => exact inside
  · intro other member absent next inside nextInactive
    exact (earlier other member absent).trans (lowest next ((kept next).mpr (.inr inside)) nextInactive)
  · intro _
    exact ⟨slot, held, gone, earlier, by omega⟩

theorem Remaining.deleteBySize {before : LogManager} {start current : List Slot} {state : LogManager × RetentionResult}
    (remaining : Remaining before current state.1) (valid : ∀ segment ∈ before.segments, 0 ≤ segment.baseOffset)
    {retentionBytes : Int} (distinct : start.Nodup)
    (trimming : Trimming retentionBytes before.activeIndex start current) {fuel : Nat}
    (enough : current.length ≤ fuel) :
    ∃ left, Remaining before left (LogManager.deleteBySize retentionBytes fuel (bytes current) state).1 ∧
      Trimming retentionBytes before.activeIndex start left ∧
      (bytes left ≤ retentionBytes ∨ ∀ kept ∈ left, kept.2 = before.activeIndex) := by
  induction fuel generalizing current state with
  | zero =>
    have none : current = [] := length_eq_zero_iff.mp (Nat.le_zero.mp enough)
    refine ⟨current, remaining, trimming, .inr ?_⟩
    rw [none]
    exact forall_mem_nil _
  | succ fuel ih =>
    rw [LogManager.deleteBySize]
    by_cases within : bytes current ≤ retentionBytes
    · rw [if_pos within]
      exact ⟨current, remaining, trimming, .inl within⟩
    · rw [if_neg within]
      rcases remaining.oldest valid with ⟨none, all⟩ | ⟨position, slot, oldest, found, inactive, lowest⟩
      · rw [none]
        exact ⟨current, remaining, trimming, .inr all⟩
      · obtain ⟨deleted, success, next, -⟩ := remaining.delete found inactive
        obtain ⟨trimmed, size⟩ := trimming.remove distinct found inactive lowest (Int.not_le.mp within)
        have segment : state.1.segments[position]? = some slot.1 := by
          rw [remaining.segments, getElem?_map, found, Option.map_some]
        have shorter : (current.eraseIdx position).length ≤ fuel := by
          rw [length_eraseIdx_of_lt (List.getElem?_eq_some_iff.mp found).1]
          omega
        rw [oldest]
        dsimp only [Option.bind]
        rw [segment]
        dsimp only [Option.map]
        rw [success]
        dsimp only
        rw [← size]
        refine ih ?_ trimmed shorter
        exact next

theorem nodup_unexpired (manager : LogManager) (now : Int64) : (manager.unexpired now).Nodup :=
  (nodup_zipIdx manager.segments).sublist filter_sublist

theorem trimming_self (retentionBytes : Int) (activeIndex : Nat) (start : List Slot) :
    Trimming retentionBytes activeIndex start start where
  sublist := List.Sublist.refl _
  active := fun _ member _ => member
  oldest := fun _ member absent => absurd member absent
  needed := fun different => absurd rfl different

theorem isExpiredByTime_of_unset {segment : IdealSegment} {now : Int64} {retentionMs : Int} (unset : retentionMs ≤ 0) :
    isExpiredByTime segment now retentionMs = false := by
  unfold isExpiredByTime
  rw [decide_eq_false (by omega), Bool.false_and]

theorem retainsExactly_of_once {now : Int64} (opened : manager.isOpen = true)
    (valid : ∀ segment ∈ manager.segments, 0 ≤ segment.baseOffset) (once : manager.ExpiresOnce now) :
    manager.RetainsExactly now := by
  unfold RetainsExactly retentionCheck
  rw [opened]
  dsimp only
  rw [if_neg (by decide)]
  by_cases unset : manager.config.topicConfig.retentionMs ≤ 0 ∧ manager.config.topicConfig.retentionBytes ≤ 0
  · rw [if_pos unset]
    have all : manager.unexpired now = manager.segments.zipIdx := by
      refine filter_eq_self.mpr ?_
      intro slot member
      rw [stays, isExpiredByTime_of_unset unset.1, Bool.not_false, Bool.or_true]
    refine ⟨manager, _, manager.segments.zipIdx, rfl, ?_, (zipIdx_map_fst 0 _).symm, rfl⟩
    have start := trimming_self manager.config.topicConfig.retentionBytes manager.activeIndex manager.segments.zipIdx
    rw [all]
    exact ⟨start.sublist, start.active, start.oldest, fun positive => absurd positive (Int.not_lt.mpr unset.2),
      fun different => absurd rfl different⟩
  · rw [if_neg unset]
    obtain ⟨timed, config⟩ := deleteExpired_of_once once
    generalize (manager.expiredCandidates now).foldl deleteExpired (manager, {}) = state at timed config ⊢
    obtain ⟨left, remaining, trimmed⟩ : ∃ left, Remaining manager left
        (if 0 < manager.config.topicConfig.retentionBytes then
          LogManager.deleteBySize manager.config.topicConfig.retentionBytes state.1.segments.length state.1.totalBytes
            state
        else state).1 ∧
        TrimmedTo manager.config.topicConfig.retentionBytes manager.activeIndex (manager.unexpired now) left := by
      have start := trimming_self manager.config.topicConfig.retentionBytes manager.activeIndex (manager.unexpired now)
      by_cases limited : 0 < manager.config.topicConfig.retentionBytes
      · rw [if_pos limited]
        have total : (state.1.totalBytes : Int) = bytes (manager.unexpired now) := by
          rw [totalBytes, timed.segments, map_map]
          rfl
        have length : (manager.unexpired now).length ≤ state.1.segments.length := by
          rw [timed.segments, length_map]
        rw [total]
        obtain ⟨left, remaining, trimming, within⟩ :=
          timed.deleteBySize valid (nodup_unexpired manager now) start length
        exact ⟨left, remaining, trimming.sublist, trimming.active, trimming.oldest, fun _ => within,
          fun different => ⟨limited, trimming.needed different⟩⟩
      · rw [if_neg limited]
        exact ⟨manager.unexpired now, timed, start.sublist, start.active, start.oldest,
          fun positive => absurd positive limited, fun different => absurd rfl different⟩
    generalize (if 0 < manager.config.topicConfig.retentionBytes then
      LogManager.deleteBySize manager.config.topicConfig.retentionBytes state.1.segments.length state.1.totalBytes
        state
    else state) = sized at remaining ⊢
    split
    · exact ⟨sized.1, sized.2, left, rfl, trimmed, remaining.segments, remaining.activeSegment⟩
    next first rest segments =>
      exact ⟨_, _, left, rfl, trimmed, remaining.segments, remaining.activeSegment⟩

theorem once_of_retainsExactly {now : Int64} (opened : manager.isOpen = true)
    (unlimited : manager.config.topicConfig.retentionBytes = 0) (exactly : manager.RetainsExactly now) :
    manager.ExpiresOnce now := by
  by_contra twice
  obtain ⟨left, remaining, slot, member, due⟩ := exists_overlooked twice
  obtain ⟨after, result, survivors, check, trimmed, segments, -⟩ := exactly
  have kept : survivors = manager.unexpired now := by
    by_contra different
    have limited := (trimmed.needed different).1
    omega
  -- Both lists have the active segment, if that is as old, and only one of them the overlooked one.
  let expired : Slot → Bool := fun other => isExpiredByTime other.1 now manager.config.topicConfig.retentionMs
  have slotExpired : expired slot = true := by
    obtain ⟨-, segment, position, old⟩ := due
    have found := mem_zipIdx_iff_getElem?.mp (remaining.sublist.subset member)
    rw [position] at found
    rw [Option.some.inj found] at old
    exact old
  have set : 0 < manager.config.topicConfig.retentionMs := by
    by_contra unset
    have fresh := @isExpiredByTime_of_unset slot.1 now _ (Int.not_lt.mp unset)
    exact Bool.false_ne_true (fresh.symm.trans slotExpired)
  have same : (manager.unexpired now).map Prod.fst = left.map Prod.fst := by
    unfold retentionCheck at check
    rw [opened] at check
    dsimp only at check
    rw [if_neg (by decide), if_neg (fun unset => absurd set (Int.not_lt.mpr unset.1)), if_neg (by omega)] at check
    rw [← kept, ← segments, ← remaining.segments]
    split at check
    · injection check with pair
      rw [pair]
    · injection check with pair
      injection pair with same
      rw [← same]
  have counted : (manager.unexpired now).countP expired = left.countP expired := by
    have both := congrArg
      (countP fun segment => isExpiredByTime segment now manager.config.topicConfig.retentionMs) same
    rwa [countP_map, countP_map] at both
  have gone : slot ∉ (manager.unexpired now).filter expired := fun inside =>
    (mem_unexpired (remaining.sublist.subset member)).mpr due (mem_of_mem_filter inside)
  have inside : slot :: (manager.unexpired now).filter expired ⊆ left.filter expired := by
    intro other among
    cases among with
    | head => exact List.mem_filter.mpr ⟨member, slotExpired⟩
    | tail _ among =>
      obtain ⟨held, old⟩ := List.mem_filter.mp among
      obtain ⟨stored, stays⟩ := List.mem_filter.mp held
      refine List.mem_filter.mpr ⟨remaining.active other stored ?_, old⟩
      unfold LogManager.stays at stays
      rw [show isExpiredByTime other.1 now manager.config.topicConfig.retentionMs = true from old, Bool.not_true,
        Bool.or_false] at stays
      exact of_decide_eq_true stays
  have distinct : (slot :: (manager.unexpired now).filter expired).Nodup :=
    nodup_cons.mpr ⟨gone, (nodup_unexpired manager now).sublist filter_sublist⟩
  have longer := List.Nodup.length_le_of_subset distinct inside
  rw [length_cons, ← countP_eq_length_filter, ← countP_eq_length_filter, counted] at longer
  omega

/-!
## Checks that close segments
-/

theorem closeBySize_true (retentionBytes : Int) (fuel : Nat) (currentTotal : Int) (state : LogManager × RetentionResult) :
    closeBySize (fun _ => true) retentionBytes fuel currentTotal state =
      some (deleteBySize retentionBytes fuel currentTotal state) := by
  have past : ∀ (manager : LogManager) (index : Nat), manager.getsPast (fun _ => true) index = true := by
    intro manager index
    unfold getsPast
    cases manager.segments[index]? <;> simp
  induction fuel generalizing currentTotal state with
  | zero => rfl
  | succ fuel ih =>
    rw [closeBySize, deleteBySize]
    split
    · rfl
    · cases (oldest state.1.segments state.1.activeIndex).bind fun i => state.1.segments[i]?.map (i, ·) with
      | none => rfl
      | some found =>
        dsimp only
        rw [past, Bool.not_true, if_neg Bool.false_ne_true]
        cases state.1.deleteSegment found.1 with
        | error => rfl
        | ok deleted => exact ih _ _

theorem closeExpired_true (candidates : List DeletionCandidate) (state : LogManager × RetentionResult) :
    candidates.foldlM (closeExpired fun _ => true) state = some (candidates.foldl deleteExpired state) := by
  induction candidates generalizing state with
  | nil => rfl
  | cons candidate candidates ih =>
    have past : closeExpired (fun _ => true) state candidate = some (deleteExpired state candidate) := by
      unfold closeExpired getsPast
      cases state.1.segments[candidate.index]? <;> simp
    rw [foldlM_cons, past, foldl_cons, ← ih]
    rfl

/-- Where every close returns, the check is the one over ideal segments. -/
theorem closingRetentionCheck_true (manager : LogManager) (now : Int64) :
    manager.closingRetentionCheck (fun _ => true) now = some (manager.retentionCheck now) := by
  unfold closingRetentionCheck retentionCheck
  simp only [closeExpired_true, closeBySize_true]
  split
  · rfl
  split
  · rfl
  simp only [Option.bind_eq_bind, Option.bind_some, ← apply_ite some]
  generalize (if 0 < manager.config.topicConfig.retentionBytes then _ else _) = sized
  cases sized.1.segments <;> rfl

theorem retainsExactlyClosing_true {now : Int64} :
    manager.RetainsExactlyClosing (fun _ => true) now ↔ manager.RetainsExactly now := by
  unfold RetainsExactlyClosing RetainsExactly
  simp only [closingRetentionCheck_true, Option.some.injEq]

theorem expiredCandidates_eq_nil {now : Int64} :
    manager.expiredCandidates now = [] ↔ ∀ i, ¬manager.ExpiredAt now i := by
  simp only [← mem_expiredCandidates]
  rw [← eq_nil_iff_forall_not_mem, map_eq_nil_iff]

theorem getElem?_zipIdx_some {i : Nat} {segment : IdealSegment} (found : manager.segments[i]? = some segment) :
    (segment, i) ∈ manager.segments.zipIdx := mk_mem_zipIdx_iff_getElem?.mpr found

/-- A size limit deletes nothing where it is kept, or where only the active segment is there. -/
theorem oldest_eq_none_iff (valid : ∀ segment ∈ manager.segments, 0 ≤ segment.baseOffset) :
    oldest manager.segments manager.activeIndex = none ↔ ∀ i < manager.segments.length, i = manager.activeIndex := by
  rcases (remaining_self manager).oldest valid with ⟨none, all⟩ | ⟨position, slot, found, held, other, -⟩
  · refine ⟨fun _ i inside => ?_, fun _ => none⟩
    exact all _ (getElem?_zipIdx_some (getElem?_eq_getElem inside))
  · rw [found]
    refine ⟨(fun none => nomatch none), fun all => ?_⟩
    have member := mem_of_getElem? held
    exact absurd (all slot.2 (snd_lt_of_mem_zipIdx member)) other

theorem retainsExactlyClosing_of_nothingDue {now : Int64} (opened : manager.isOpen = true)
    (valid : ∀ segment ∈ manager.segments, 0 ≤ segment.baseOffset) (nothing : manager.NothingDue now)
    (closes : IdealSegment → Bool) : manager.RetainsExactlyClosing closes now := by
  obtain ⟨fresh, small⟩ := nothing
  have stays : manager.unexpired now = manager.segments.zipIdx := by
    refine filter_eq_self.mpr ?_
    intro slot member
    by_contra goes
    have gone : slot ∉ manager.unexpired now := fun inside => goes (List.mem_filter.mp inside).2
    exact fresh slot.2 ((mem_unexpired member).mp gone)
  have sized : (if 0 < manager.config.topicConfig.retentionBytes then
      closeBySize closes manager.config.topicConfig.retentionBytes manager.segments.length manager.totalBytes (manager, {})
      else some (manager, {})) = some (manager, {}) := by
    split
    next limited =>
      cases manager.segments.length with
      | zero => rfl
      | succ fuel =>
        rw [closeBySize]
        split
        · rfl
        next large =>
          rw [(oldest_eq_none_iff valid).mpr ((small limited).resolve_left large)]
          rfl
    next => rfl
  have total : bytes manager.segments.zipIdx = manager.totalBytes := by
    rw [bytes, totalBytes, ← zipIdx_map_fst 0 manager.segments, map_map, zipIdx_map_fst]
    rfl
  have trimmed : TrimmedTo manager.config.topicConfig.retentionBytes manager.activeIndex (manager.unexpired now)
      manager.segments.zipIdx := by
    rw [stays]
    have start := trimming_self manager.config.topicConfig.retentionBytes manager.activeIndex manager.segments.zipIdx
    refine ⟨start.sublist, start.active, start.oldest, fun limited => ?_, fun different => absurd rfl different⟩
    rw [total]
    exact (small limited).imp_right fun all slot member => all slot.2 (snd_lt_of_mem_zipIdx member)
  obtain ⟨start, result, check⟩ : ∃ start result,
      manager.closingRetentionCheck closes now = some (.ok ({ manager with logStartOffset := start }, result)) := by
    unfold closingRetentionCheck
    rw [if_neg (by rw [opened]; decide), expiredCandidates_eq_nil.mpr fresh]
    split
    · exact ⟨manager.logStartOffset, _, rfl⟩
    · simp only [foldlM_nil, pure_bind, sized, Option.bind_eq_bind, Option.bind_some]
      split
      · exact ⟨manager.logStartOffset, _, rfl⟩
      next first _ _ => exact ⟨first.baseOffset, _, rfl⟩
  exact ⟨_, _, manager.segments.zipIdx, check, trimmed, (zipIdx_map_fst 0 _).symm, rfl⟩

/-- The first segment that is due, by time or by size, is closed, and that is as far as the check gets. -/
theorem closingRetentionCheck_eq_none {now : Int64} (opened : manager.isOpen = true)
    (valid : ∀ segment ∈ manager.segments, 0 ≤ segment.baseOffset) (due : ¬manager.NothingDue now)
    {closes : IdealSegment → Bool} (stuck : ∀ segment ∈ manager.segments, closes segment = false) :
    manager.closingRetentionCheck closes now = none := by
  have stops : ∀ {index : Nat} {segment : IdealSegment}, index ≠ manager.activeIndex →
      manager.segments[index]? = some segment → manager.getsPast closes index = false := by
    intro index segment other found
    unfold getsPast
    rw [found, decide_eq_false other, Bool.false_or, Option.all_some]
    exact stuck segment (mem_of_getElem? found)
  unfold closingRetentionCheck
  rw [opened]
  dsimp only
  rw [if_neg (by decide)]
  cases candidates : manager.expiredCandidates now with
  | cons candidate rest =>
    obtain ⟨other, segment, found, expired⟩ := mem_expiredCandidates.mp
      (mem_map_of_mem (show candidate ∈ manager.expiredCandidates now by rw [candidates]; exact mem_cons_self))
    have set : ¬(manager.config.topicConfig.retentionMs ≤ 0 ∧ manager.config.topicConfig.retentionBytes ≤ 0) := by
      rintro ⟨unset, -⟩
      rw [isExpiredByTime_of_unset unset] at expired
      cases expired
    have first : closeExpired closes (manager, {}) candidate = none := by
      unfold closeExpired
      rw [stops other found, if_neg Bool.false_ne_true]
    rw [if_neg set, foldlM_cons, first]
    rfl
  | nil =>
    have fresh := expiredCandidates_eq_nil.mp candidates
    have big : 0 < manager.config.topicConfig.retentionBytes ∧
        ¬((manager.totalBytes : Int) ≤ manager.config.topicConfig.retentionBytes) ∧
        ¬∀ i < manager.segments.length, i = manager.activeIndex := by
      by_contra small
      exact due ⟨fresh, fun limited => by
        by_contra large
        exact small ⟨limited, not_or.mp large⟩⟩
    obtain ⟨limited, large, others⟩ := big
    rw [if_neg (fun unset => absurd limited (Int.not_lt.mpr unset.2))]
    simp only [foldlM_nil, pure_bind]
    rw [if_pos limited]
    rcases (remaining_self manager).oldest valid with ⟨-, all⟩ | ⟨position, slot, found, held, other, -⟩
    · exact absurd (fun i inside => all _ (getElem?_zipIdx_some (getElem?_eq_getElem inside))) others
    · have there : manager.segments[position]? = some slot.1 := by
        rw [← zipIdx_map_fst 0 manager.segments, getElem?_map, held, Option.map_some]
      have same : slot.2 = position := by
        rw [getElem?_zipIdx, there, Option.map_some, Nat.zero_add] at held
        exact (congrArg Prod.snd (Option.some.inj held)).symm
      have filled : manager.segments.length = manager.segments.length - 1 + 1 := by
        have := (List.getElem?_eq_some_iff.mp there).1
        omega
      rw [filled, closeBySize, if_neg large, found, Option.bind_some, there, Option.map_some]
      dsimp only
      rw [stops (same ▸ other) there, Bool.not_false, if_pos rfl]
      rfl

theorem closesAs_eq_false {object : IdealSegment → SegmentObject} {segment : IdealSegment}
    (isOpen : (object segment).segment.isOpen = true) (answers : SegmentAnswers) :
    closesAs object answers segment = false := by
  unfold closesAs
  rw [SegmentObject.run_close_of_isOpen isOpen]
  rfl

/-- Segments are closed under a lock that is not recursive: a check of a log whose segments are open
objects is exact just where it deletes none. If only each close returned, it would be exact for every size limit
just where at most one segment is due by time. -/
theorem retainsExactly_iff {manager : LogManager} (opened : manager.isOpen = true)
    (valid : ∀ segment ∈ manager.segments, 0 ≤ segment.baseOffset) (now : Int64) :
    (∀ object answers, (∀ segment ∈ manager.segments, (object segment).segment.isOpen = true) →
      (manager.RetainsExactlyClosing (closesAs object answers) now ↔ manager.NothingDue now)) ∧
    ((∀ retentionBytes, (manager.withRetentionBytes retentionBytes).RetainsExactlyClosing (fun _ => true) now) ↔
      manager.ExpiresOnce now) := by
  constructor
  · intro object answers objects
    refine ⟨fun exactly => ?_, fun nothing => retainsExactlyClosing_of_nothingDue opened valid nothing _⟩
    by_contra due
    obtain ⟨after, result, survivors, check, -⟩ := exactly
    have stuck : manager.closingRetentionCheck (closesAs object answers) now = none :=
      closingRetentionCheck_eq_none opened valid due
        fun segment member => closesAs_eq_false (objects segment member) answers
    rw [stuck] at check
    cases check
  · simp only [retainsExactlyClosing_true]
    constructor
    · intro exactly
      exact @once_of_retainsExactly (manager.withRetentionBytes 0) now opened rfl (exactly 0)
    · intro once retentionBytes
      exact @retainsExactly_of_once (manager.withRetentionBytes retentionBytes) now opened valid once

def segmentAt (position : Nat) (timestamp : Int64) : IdealSegment :=
  { segmentId := position
    baseOffset := position
    createdAt := 0
    maxTimestamp := timestamp
    isSealed := true
    batches := [{ maxTimestamp := timestamp, records := [{ key := [97], timestamp }] }] }

def agingLog (timestamps : List Int64) : LogManager :=
  { config := { topicConfig := { retentionMs := 500 } }
    segments := timestamps.mapIdx segmentAt ++
      [{ segmentId := timestamps.length, baseOffset := timestamps.length, createdAt := 0 }]
    activeIndex := timestamps.length
    logStartOffset := 0
    isOpen := true
    nextSegmentId := timestamps.length + 1 }

def openObject : SegmentObject where
  segment := { Segment.new {} 0 none none with state := .active }
  descriptor := true
  descriptor_of_isOpen := fun _ => rfl

/-- Nothing is due in the first log. In the second one segment is due by its time, and one by its size. -/
theorem retainsExactly_agingLog :
    (agingLog [900]).RetainsExactlyClosing (closesAs (fun _ => openObject) {}) 1000 ∧
      ((agingLog [0, 900]).withRetentionBytes 100).RetainsExactlyClosing (fun _ => true) 1000 := by
  constructor
  · refine ((retainsExactly_iff rfl (by decide) 1000).1 (fun _ => openObject) {} fun _ _ => rfl).mpr
      ⟨expiredCandidates_eq_nil.mp (by decide), fun limited => absurd limited (by decide)⟩
  · refine (retainsExactly_iff rfl (by decide) 1000).2.mpr ?_ 100
    intro i j earlier later
    have only : ∀ i, (agingLog [0, 900]).ExpiredAt 1000 i → i = 0 := by
      intro i expired
      have member := mem_expiredCandidates.mpr expired
      have listed : ((agingLog [0, 900]).expiredCandidates 1000).map (·.index) = [0] := by decide
      rw [listed] at member
      exact mem_singleton.mp member
    rw [only i earlier, only j later]

/-- The close of the only segment that is due does not return. -/
theorem not_retainsExactly_agingLog : ¬∀ (manager : LogManager) (object : IdealSegment → SegmentObject)
    (answers : SegmentAnswers) (now : Int64), manager.isOpen = true →
    (∀ segment ∈ manager.segments, 0 ≤ segment.baseOffset ∧ (object segment).segment.isOpen = true) →
    manager.RetainsExactlyClosing (closesAs object answers) now := by
  intro claim
  obtain ⟨after, result, survivors, check, -⟩ := claim (agingLog [0]) (fun _ => openObject) {} 1000 rfl (by decide)
  have stuck : (agingLog [0]).closingRetentionCheck (closesAs (fun _ => openObject) {}) 1000 = none := by
    refine closingRetentionCheck_eq_none rfl (by decide) ?_ fun segment _ => closesAs_eq_false rfl {}
    rintro ⟨fresh, -⟩
    exact absurd (expiredCandidates_eq_nil.mpr fresh) (by decide)
  rw [stuck] at check
  cases check

end LogManager

end TorrentMq.Storage
