import TorrentMq.Storage.LogManagerRead

/-!
# Truncation of a log

What is expected of a log that is cut off at an offset, and what becomes of
the process that cuts it off.
-/

set_option autoImplicit false

namespace TorrentMq.Storage

open List Option

namespace LogManager

/-- A batch comes back from the offset that it begins at, however few bytes are asked for. -/
def Fetchable (manager : LogManager) (batch : RecordBatch) : Prop :=
  ∃ fetch, manager.read batch.baseOffset 1 none .readUncommitted = .ok fetch ∧ fetch.batch = some batch

/-- What is expected of a log after it was cut off at an offset. -/
structure TruncatedAt (before after : LogManager) (newEndOffset : Int) : Prop where
  kept : ∀ batch, before.Fetchable batch → batch.baseOffset + batch.records.length ≤ newEndOffset → after.Fetchable batch
  cut : ∀ startOffset maxBytes endOffset isolation fetch,
    after.read startOffset maxBytes endOffset isolation = .ok fetch →
      ∀ record ∈ fetch.records, record.offset < newEndOffset
  logEnd : after.logEndOffset = newEndOffset
  next : ∀ batch now, (after.append batch kInvalidOffset now).2 = .ok newEndOffset

/-- A truncation returns, reports success and leaves the log cut off. -/
def Truncates (manager : LogManager) (newEndOffset : Int) : Prop :=
  ∃ after, manager.truncateTo newEndOffset = some (.ok after) ∧ TruncatedAt manager after newEndOffset

/-- The offset lies within a segment or at its end. -/
def ReachedBy (manager : LogManager) (offset : Int) : Prop :=
  ∃ segment ∈ manager.segments, segment.baseOffset ≤ offset ∧ offset ≤ segment.nextOffset

variable {manager : LogManager} {offset : Int}

theorem holds_of_findSegmentIndex {index : Nat} (found : manager.findSegmentIndex offset = some index) :
    ∃ segment, manager.segments[index]? = some segment ∧ holds segment offset = true := by
  unfold findSegmentIndex at found
  dsimp only at found
  split at found
  next held =>
    cases found
    obtain ⟨segment, position, inside⟩ := (Option.any_eq_true _ _).mp held
    exact ⟨segment, position, inside⟩
  next =>
    obtain ⟨bound, held, -⟩ := findIdx?_eq_some_iff_getElem.mp found
    exact ⟨_, getElem?_eq_getElem bound, held⟩

theorem not_holds_of_findSegmentIndex (missing : manager.findSegmentIndex offset = none) :
    ∀ segment ∈ manager.segments, holds segment offset = false := by
  unfold findSegmentIndex at missing
  dsimp only at missing
  split at missing
  · cases missing
  · exact findIdx?_eq_none_iff.mp missing

def truncationTarget (manager : LogManager) (newEndOffset : Int) : Option (Nat × IdealSegment) :=
  ((manager.findSegmentIndex newEndOffset).or
    (manager.segments.findIdx? fun segment => decide (segment.nextOffset = newEndOffset))).bind
      fun target => manager.segments[target]?.map (target, ·)

theorem truncationTarget_some {target : Nat} {targetSeg : IdealSegment}
    (found : manager.truncationTarget offset = some (target, targetSeg)) :
    targetSeg ∈ manager.segments ∧ targetSeg.baseOffset ≤ offset ∧ offset ≤ targetSeg.nextOffset := by
  obtain ⟨index, located, held⟩ := Option.bind_eq_some_iff.mp found
  obtain ⟨segment, position, same⟩ := Option.map_eq_some_iff.mp held
  cases same
  refine ⟨mem_of_getElem? position, ?_⟩
  rcases Option.or_eq_some_iff.mp located with inside | ⟨-, atEnd⟩
  · obtain ⟨other, there, holding⟩ := holds_of_findSegmentIndex inside
    rw [position] at there
    cases there
    obtain ⟨lower, upper⟩ := holds_iff.mp holding
    exact ⟨lower, upper.le⟩
  · obtain ⟨bound, ends, -⟩ := findIdx?_eq_some_iff_getElem.mp atEnd
    rw [getElem?_eq_getElem bound] at position
    cases position
    have reaches := of_decide_eq_true ends
    exact ⟨reaches ▸ IdealSegment.baseOffset_le_nextOffset _, reaches.ge⟩

theorem truncationTarget_none (missing : manager.truncationTarget offset = none) : ¬manager.ReachedBy offset := by
  rintro ⟨segment, member, lower, upper⟩
  have apart : manager.findSegmentIndex offset = none ∧
      manager.segments.findIdx? (fun segment => decide (segment.nextOffset = offset)) = none := by
    rw [← Option.or_eq_none_iff]
    refine Option.eq_none_iff_forall_ne_some.mpr fun index located => ?_
    have bound : ∃ segment, manager.segments[index]? = some segment := by
      rcases Option.or_eq_some_iff.mp located with inside | ⟨-, atEnd⟩
      · exact (holds_of_findSegmentIndex inside).imp fun _ found => found.1
      · exact ⟨_, getElem?_eq_getElem (findIdx?_eq_some_iff_getElem.mp atEnd).1⟩
    obtain ⟨target, position⟩ := bound
    rw [truncationTarget, located, Option.bind_some, position] at missing
    cases missing
  have outside := not_holds_of_findSegmentIndex apart.1 segment member
  have ends := of_decide_eq_false (findIdx?_eq_none_iff.mp apart.2 segment member)
  rw [Bool.eq_false_iff, ne_eq, holds_iff] at outside
  omega

/-- A truncation is refused, or ends the process once the segment is cut. -/
theorem truncateTo_eq (manager : LogManager) (newEndOffset : Int) :
    manager.truncateTo newEndOffset =
      if !manager.isOpen then some (.error .notOpen)
      else if newEndOffset < manager.logStartOffset then
        some (.error (.beforeLogStart newEndOffset manager.logStartOffset))
      else if manager.logEndOffset < newEndOffset then
        some (.error (.beyondLogEnd newEndOffset manager.logEndOffset))
      else
        match manager.truncationTarget newEndOffset with
        | none => some (.error (.noSegment newEndOffset))
        | some _ => none := by
  unfold truncateTo getLogEndOffset
  simp only [Bool.false_eq_true, if_false, if_true, Option.bind_eq_bind, Option.bind_some, Option.bind_none,
    Option.pure_def]
  rw [← truncationTarget]
  cases found : manager.truncationTarget newEndOffset with
  | none => rfl
  | some located =>
    obtain ⟨-, lower, upper⟩ := truncationTarget_some found
    obtain ⟨truncated, success, -⟩ := IdealSegment.truncateTo_of_inside lower upper
    dsimp only
    rw [success]

/-- No truncation succeeds. Of an open log, each one at an offset of the log that a segment reaches ends
the process, whatever the segments are. -/
theorem truncates_never (manager : LogManager) (newEndOffset : Int) :
    ¬manager.Truncates newEndOffset ∧
      (manager.truncateTo newEndOffset = none ↔ manager.isOpen = true ∧ manager.logStartOffset ≤ newEndOffset ∧
        newEndOffset ≤ manager.logEndOffset ∧ manager.ReachedBy newEndOffset) := by
  unfold Truncates
  rw [truncateTo_eq]
  cases opened : manager.isOpen with
  | false => simp
  | true =>
    by_cases low : newEndOffset < manager.logStartOffset
    · simp [low]
    · by_cases high : manager.logEndOffset < newEndOffset
      · simp [low, high]
      · cases found : manager.truncationTarget newEndOffset with
        | none => simp [low, high, truncationTarget_none found]
        | some located =>
          obtain ⟨target, targetSeg⟩ := located
          have reached : manager.ReachedBy newEndOffset := ⟨targetSeg, truncationTarget_some found⟩
          simp [low, high, reached, Int.not_lt.mp low, Int.not_lt.mp high]

def rolledLog : LogManager :=
  Runs.run step ((LogManager.new {}).open [] 0) [.append keyedBatch kInvalidOffset 0,
    .append keyedBatch kInvalidOffset 0, .roll 0, .append keyedBatch kInvalidOffset 0]

/-- A cut between the two batches of the sealed segment. -/
theorem not_truncates_rolledLog : ¬∀ (calls : List LogCall) (newEndOffset : Int),
    let manager := Runs.run step ((LogManager.new {}).open [] 0) calls
    manager.logStartOffset ≤ newEndOffset → newEndOffset ≤ manager.logEndOffset → manager.Truncates newEndOffset := by
  intro claim
  have ended : rolledLog.truncateTo 1 = none := by decide +kernel
  obtain ⟨after, success, -⟩ := claim [.append keyedBatch kInvalidOffset 0, .append keyedBatch kInvalidOffset 0, .roll 0,
    .append keyedBatch kInvalidOffset 0] 1 (by decide +kernel) (by decide +kernel)
  cases ended.symm.trans success

end LogManager

end TorrentMq.Storage
