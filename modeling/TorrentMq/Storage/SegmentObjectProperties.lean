import TorrentMq.Storage.SegmentObject

/-!
# What the operations of a segment object come to

Lookups and truncation of a segment object by a thread that holds none of its
mutexes, in terms of the segment that the object holds.
-/

set_option autoImplicit false

namespace TorrentMq.Storage

open Locking Locked

@[simp] theorem hold_mutex_indexMutex {held : SegmentMutex → Bool} :
    hold .mutex held .indexMutex = held .indexMutex := hold_of_ne (by decide)

theorem indexMutex_unheld : hold SegmentMutex.mutex free .indexMutex = false := rfl

namespace SegmentObject

variable {object : SegmentObject} {held : SegmentMutex → Bool}

theorem run_findPosition (object : SegmentObject) (targetOffset : Int) (unheld : held .indexMutex = false) :
    (findPosition targetOffset).run held object = .returned (object.segment.findPosition targetOffset) object := by
  simp [findPosition, unheld]

/-- The close of an open segment locks the segment's state a second time. -/
theorem run_close_of_isOpen {object : SegmentObject} (isOpen : object.segment.isOpen = true)
    (answers : SegmentAnswers) : (close answers).run free object = .relocks .mutex := by
  have descriptor := object.descriptor_of_isOpen isOpen
  unfold close
  rw [run_lock_of_free rfl, run_bind, run_get, Outcome.andThen_returned]
  cases state : object.segment.state with
  | active => simp [descriptor, flush]
  | «sealed» => simp [descriptor, flush]
  | uninitialized | closed | corrupted => simp [Segment.isOpen, state] at isOpen

/-- Truncation succeeds within the offsets of an open file, unless the file cannot be cut. -/
def Truncates (answers : SegmentAnswers) (object : SegmentObject) (newEndOffset : Int) : Prop :=
  object.descriptor = true ∧ object.segment.header.baseOffset ≤ newEndOffset ∧
    newEndOffset ≤ object.segment.nextOffset ∧
    (newEndOffset = object.segment.nextOffset ∨ answers.fileTruncated = true)

theorem run_truncateTo (object : SegmentObject) (answers : SegmentAnswers) (newEndOffset : Int) :
    ∃ result after, (truncateTo answers newEndOffset).run free object = .returned result after ∧
      (result = true ↔ Truncates answers object newEndOffset) ∧
      (result = true → after.segment =
        if newEndOffset = object.segment.nextOffset then object.segment else object.segment.truncatedTo newEndOffset) := by
  cases descriptor : object.descriptor with
  | false => exact ⟨false, object, by simp [truncateTo, descriptor], by simp [Truncates, descriptor], by simp⟩
  | true =>
    by_cases low : newEndOffset < object.segment.header.baseOffset
    · exact ⟨false, object, by simp [truncateTo, descriptor, low], by simp [Truncates, Int.not_le.mpr low], by simp⟩
    · by_cases high : object.segment.nextOffset < newEndOffset
      · exact ⟨false, object, by simp [truncateTo, descriptor, low, high], by simp [Truncates, Int.not_le.mpr high],
          by simp⟩
      · have inside : object.segment.header.baseOffset ≤ newEndOffset ∧ newEndOffset ≤ object.segment.nextOffset :=
          ⟨Int.not_lt.mp low, Int.not_lt.mp high⟩
        by_cases same : newEndOffset = object.segment.nextOffset
        · subst same
          refine ⟨true, object, ?_, by simp [Truncates, descriptor, inside.1], fun _ => (if_pos rfl).symm⟩
          simp [truncateTo, descriptor, inside.1]
        · have looked : ∃ position,
              (if object.segment.header.baseOffset < newEndOffset then
                  Outcome.returned (object.segment.findPosition newEndOffset) object
                else .returned none object) = (.returned position object : Outcome SegmentMutex _ _) := by
            split
            · exact ⟨_, rfl⟩
            · exact ⟨none, rfl⟩
          obtain ⟨position, looked⟩ := looked
          cases truncated : answers.fileTruncated with
          | false =>
            refine ⟨false, object, ?_, by simp [Truncates, same, truncated], by simp⟩
            simp only [truncateTo, run_lock, free_apply, Bool.false_eq_true, if_false, run_bind, run_get, looked,
              run_findPosition object newEndOffset indexMutex_unheld, Outcome.andThen_returned, run_ite,
              descriptor, Bool.not_true, if_neg low, if_neg high, if_neg same, truncated, Bool.not_false, if_true, run_pure]
          | true =>
            refine ⟨true, object.withData (·.truncatedTo newEndOffset) fun segment =>
              (segment.cutFile _).state_pruneSparseIndex newEndOffset, ?_,
              by simp [Truncates, descriptor, inside, truncated], fun _ => (if_neg same).symm⟩
            simp only [truncateTo, run_lock, free_apply, Bool.false_eq_true, if_false, run_bind, run_get, looked,
              run_findPosition object newEndOffset indexMutex_unheld, Outcome.andThen_returned, run_ite,
              descriptor, Bool.not_true, if_neg low, if_neg high, if_neg same, truncated,
              run_set, pruneSparseIndex, hold_mutex_indexMutex, run_modify, run_pure]
            rfl

end SegmentObject

end TorrentMq.Storage
