import TorrentMq.Consensus.RaftLogProperties
import TorrentMq.Consensus.RaftNodeCases

/-! What an AppendEntries request does to a follower's log, over every log that
obeys the interface comments, and exactly when it keeps the entries that it
should keep. -/

set_option autoImplicit false

namespace TorrentMq.Consensus

open List RaftLog

namespace RaftNode

variable {L : Type} [RaftLog L] [LawfulRaftLog L]

open LawfulRaftLog

variable {request : AppendEntriesRequest}

theorem lastNew_eq (contiguous : Numbered request.prevLogIndex request.entries) :
    lastNew request = request.prevLogIndex + request.entries.length := by
  unfold lastNew
  split
  next none => simp [getLast?_eq_none_iff.mp none]
  next entry some =>
    have nonempty : request.entries ≠ [] := by
      rintro none
      simp [none] at some
    rw [getLast?_eq_getElem?] at some
    have number := contiguous _ _ some
    have := length_pos_of_ne_nil nonempty
    omega

def cutSuffix (log : L) (request : AppendEntriesRequest) : L :=
  if request.prevLogIndex + 1 ≤ lastIndex log then
    truncateSuffix log request.prevLogIndex
  else log

theorem view_cutSuffix (log : L) (request : AppendEntriesRequest) :
    view (cutSuffix log request) = (view log).truncateSuffix request.prevLogIndex := by
  unfold cutSuffix
  rw [lastIndex_eq]
  split
  · exact truncateSuffix_eq log _ (by omega)
  · exact ((view log).truncateSuffix_of_le (by omega)).symm

omit [LawfulRaftLog L] in
theorem appendEntriesToLog_eq (log : L) (nonempty : request.entries ≠ [])
    (contiguous : Numbered request.prevLogIndex request.entries) (matched : prevLogConflict log request = none) :
    appendEntriesToLog log request =
      ((append (cutSuffix log request) request.prevLogIndex request.prevLogTerm request.entries).1,
        if (append (cutSuffix log request) request.prevLogIndex request.prevLogTerm
          request.entries).2 = kNoLogIndex then some (request.prevLogIndex + 1) else none) := by
  unfold appendEntriesToLog
  split
  next none => exact absurd none nonempty
  next first rest shape =>
    have number := contiguous 0 first (by simp [shape])
    have start : first.index = request.prevLogIndex + 1 := by simpa using number
    have cut : (if first.index ≤ lastIndex log then
        truncateSuffix log (first.index - 1) else log) = cutSuffix log request := by
      rw [start, cutSuffix, show request.prevLogIndex + 1 - 1 = request.prevLogIndex by omega]
    rw [matched]
    dsimp only
    rw [cut]
    split
    · rfl
    · rfl

omit [LawfulRaftLog L] in
theorem appendEntriesToLog_conflict {log : L}
    (stored : (appendEntriesToLog log request).2 = none) : prevLogConflict log request = none := by
  unfold appendEntriesToLog at stored
  split at stored
  · exact stored
  · split at stored
    · cases stored
    · assumption

theorem prevLogConflict_none (log : L) (matched : prevLogConflict log request = none)
    (above : (view log).snapshotIndex ≤ request.prevLogIndex) :
    request.prevLogIndex ≤ (view log).lastIndex ∧
      (request.prevLogIndex = 0 ∨ (view log).termAt request.prevLogIndex = request.prevLogTerm) := by
  have nonneg := (view log).snapshotIndex_nonneg
  unfold prevLogConflict at matched
  rw [lastIndex_eq, termAt_eq] at matched
  split at matched
  · split at matched
    · cases matched
    · dsimp only at matched
      split at matched
      · split at matched <;> cases matched
      next same => exact ⟨by omega, .inr (by simpa using same)⟩
  · have : (view log).lastIndex = (view log).snapshotIndex + (view log).entries.length := rfl
    exact ⟨by omega, .inl (by omega)⟩

section

variable (log : L) (nonempty : request.entries ≠ []) (contiguous : Numbered request.prevLogIndex request.entries)
  (matched : prevLogConflict log request = none)
include log nonempty contiguous matched

section

variable (above : (view log).snapshotIndex ≤ request.prevLogIndex)

include above

theorem appendEntriesToLog_stores :
    (appendEntriesToLog log request).2 = none ∧
      (view (appendEntriesToLog log request).1).snapshotIndex = (view log).snapshotIndex ∧
      (view (appendEntriesToLog log request).1).entries =
        (view log).entries.take ((view log).position request.prevLogIndex) ++ request.entries := by
  have nonneg := (view log).snapshotIndex_nonneg
  obtain ⟨upper, term⟩ := prevLogConflict_none log matched above
  have last := (view log).lastIndex_truncateSuffix above upper
  obtain ⟨stored, result⟩ := append_eq (cutSuffix log request) request.prevLogIndex
    request.prevLogTerm request.entries nonempty contiguous
    (fun _ => by rw [view_cutSuffix, last])
  obtain ⟨returned, snapshot, entries⟩ :=
    (view log).append_truncateSuffix nonempty contiguous above upper term
  rw [view_cutSuffix] at stored result
  rw [appendEntriesToLog_eq log nonempty contiguous matched]
  refine ⟨?_, ?_, ?_⟩
  · rw [result, returned]
    exact if_neg (by simp only [kNoLogIndex]; omega)
  · rw [stored, snapshot]
  · rw [stored, entries]

theorem lastIndex_appendEntriesToLog :
    lastIndex (appendEntriesToLog log request).1 = request.prevLogIndex + request.entries.length := by
  obtain ⟨upper, _⟩ := prevLogConflict_none log matched above
  obtain ⟨_, snapshot, entries⟩ := appendEntriesToLog_stores log nonempty contiguous matched above
  rw [lastIndex_eq, LogView.lastIndex, snapshot, entries, length_append, (view log).length_take_position upper]
  push_cast
  omega

end

theorem appendEntriesToLog_compacted (below : request.prevLogIndex < (view log).snapshotIndex) :
    (view (appendEntriesToLog log request).1).snapshotIndex = (view log).snapshotIndex ∧
      (view (appendEntriesToLog log request).1).entries = [] ∧
      (appendEntriesToLog log request).2 = some (request.prevLogIndex + 1) := by
  have refused : ¬((view log).truncateSuffix request.prevLogIndex).Matches
      request.prevLogIndex request.prevLogTerm := by
    intro fits
    exact absurd fits.1 (by simp only [LogView.truncateSuffix]; omega)
  obtain ⟨stored, result⟩ := append_eq (cutSuffix log request) request.prevLogIndex
    request.prevLogTerm request.entries nonempty contiguous
    (fun fits => absurd (view_cutSuffix log request ▸ fits) refused)
  rw [view_cutSuffix, LogView.append, if_neg (by simpa using nonempty),
    dif_neg (fun valid => refused valid.1)] at stored result
  have none : (view log).position request.prevLogIndex = 0 := by
    simp only [LogView.position]
    omega
  rw [appendEntriesToLog_eq log nonempty contiguous matched, stored, result]
  simp [LogView.truncateSuffix, none]

theorem entryAt_appendEntriesToLog (above : (view log).snapshotIndex ≤ request.prevLogIndex)
    (upper : request.prevLogIndex ≤ (view log).lastIndex) (index : Int) (entry : LogEntry) :
    entryAt (appendEntriesToLog log request).1 index = some entry ↔
      index ≤ request.prevLogIndex ∧ entryAt log index = some entry ∨
        entry ∈ request.entries ∧ entry.index = index := by
  obtain ⟨_, snapshot, entries⟩ := appendEntriesToLog_stores log nonempty contiguous matched above
  rw [entryAt_eq, entryAt_eq, LogView.entryAt_eq_some_iff, LogView.entryAt_eq_some_iff, snapshot,
    entries, ← contiguous.getElem?_eq_some_iff, getElem?_append, (view log).length_take_position upper]
  by_cases kept : index ≤ request.prevLogIndex
  · constructor
    · rintro ⟨lower, found⟩
      rw [if_pos (by omega), getElem?_take_of_lt (by simp only [LogView.position]; omega)] at found
      exact .inl ⟨kept, lower, found⟩
    · rintro (⟨_, lower, found⟩ | ⟨beyond, _⟩)
      · rw [if_pos (by omega), getElem?_take_of_lt (by simp only [LogView.position]; omega)]
        exact ⟨lower, found⟩
      · omega
  · have shift : (index - (view log).snapshotIndex - 1).toNat -
        (request.prevLogIndex - (view log).snapshotIndex).toNat =
        (index - request.prevLogIndex - 1).toNat := by omega
    rw [if_neg (by omega), shift]
    constructor
    · rintro ⟨_, found⟩
      exact .inr ⟨by omega, found⟩
    · rintro (⟨below, _⟩ | ⟨_, found⟩)
      · omega
      · exact ⟨by omega, found⟩

end

omit [LawfulRaftLog L] in
theorem handleAppendEntries_log (node : RaftNode L)
    (follower : node.state = .follower) (current : node.currentTerm ≤ request.term) :
    (node.handleAppendEntries request).1.log = (appendEntriesToLog node.log request).1 := by
  generalize reply : node.handleAppendEntries request = result
  have outcome := node.handleAppendEntries_outcome request
  rw [reply] at outcome
  cases outcome with
  | stale below => omega
  | rival _ leads =>
    rw [follower] at leads
    cases leads
  | refused => rfl
  | accepted =>
    unfold advanceFollowerCommit
    split
    · rw [(applyCommitted_applies _).log]
    · rfl

/-- An entry of the request contradicts the local entry at its index. -/
def ConflictsAt (log : L) (request : AppendEntriesRequest) (index : Int) : Prop :=
  ∃ entry ∈ request.entries, entry.index = index ∧
    ∃ stored, entryAt log index = some stored ∧ stored.term ≠ entry.term

/-- Only conflicting entries and their successors go: in particular nothing
changes when all entries are already there, and nothing committed is lost. -/
structure PreservesLog (node : RaftNode L) (request : AppendEntriesRequest) : Prop where
  unconflicted : ∀ index entry, entryAt node.log index = some entry →
    (∀ earlier ≤ index, ¬ConflictsAt node.log request earlier) →
    entryAt (node.handleAppendEntries request).1.log index = some entry
  redelivered : (∀ entry ∈ request.entries, entryAt node.log entry.index = some entry) →
    lastIndex (node.handleAppendEntries request).1.log = lastIndex node.log ∧
      ∀ index, entryAt (node.handleAppendEntries request).1.log index =
        entryAt node.log index
  committed : ∀ index entry, index ≤ node.commitIndex →
    entryAt node.log index = some entry →
    entryAt (node.handleAppendEntries request).1.log index = some entry

/-- The overlaps that the truncation survives: the request is empty, or every
conflict lies above the commit index and either the request covers the rest of
the log with the same entries up to the first conflict, or it starts below a
snapshot behind which nothing unconflicted is left. -/
def OverwritesSafely (node : RaftNode L) (request : AppendEntriesRequest) : Prop :=
  request.entries = [] ∨
    (∀ index, ConflictsAt node.log request index → node.commitIndex < index) ∧
      (firstIndex node.log ≤ request.prevLogIndex + 1 ∧
          (∀ entry ∈ request.entries,
            (∀ earlier ≤ entry.index, ¬ConflictsAt node.log request earlier) →
            ∀ stored, entryAt node.log entry.index = some stored → stored = entry) ∧
          ((∀ index, ¬ConflictsAt node.log request index) →
            lastIndex node.log ≤ lastNew request) ∨
        request.prevLogIndex + 1 < firstIndex node.log ∧
          (lastIndex node.log < firstIndex node.log ∨
            ConflictsAt node.log request (firstIndex node.log)))

section Overlap

variable {node : RaftNode L} {request : AppendEntriesRequest} {log : L}

theorem ConflictsAt.bounds {index : Int} (conflict : ConflictsAt log request index) :
    firstIndex log ≤ index ∧ index ≤ lastIndex log := by
  obtain ⟨_, _, _, stored, found, _⟩ := conflict
  rw [entryAt_eq] at found
  obtain ⟨lower, upper, _⟩ := (view log).entryAt_bounds found
  rw [firstIndex_eq, lastIndex_eq]
  exact ⟨lower, upper⟩

omit [LawfulRaftLog L] in
theorem not_conflictsAt_of_present
    (present : ∀ entry ∈ request.entries, entryAt log entry.index = some entry) (index : Int) :
    ¬ConflictsAt log request index := by
  rintro ⟨entry, member, rfl, stored, found, differs⟩
  rw [present entry member, Option.some.injEq] at found
  exact differs (found ▸ rfl)

section

variable (nonempty : request.entries ≠ []) (contiguous : Numbered request.prevLogIndex request.entries)
  (follower : node.state = .follower) (current : node.currentTerm ≤ request.term)
  (matched : prevLogConflict node.log request = none)
include nonempty contiguous follower current matched

theorem preservesLog_iff_of_above (above : (view node.log).snapshotIndex ≤ request.prevLogIndex) :
    PreservesLog node request ↔
      (∀ index, ConflictsAt node.log request index → node.commitIndex < index) ∧
        (∀ entry ∈ request.entries, (∀ earlier ≤ entry.index, ¬ConflictsAt node.log request earlier) →
          ∀ stored, entryAt node.log entry.index = some stored → stored = entry) ∧
        ((∀ index, ¬ConflictsAt node.log request index) → lastIndex node.log ≤ lastNew request) := by
  obtain ⟨upper, _⟩ := prevLogConflict_none node.log matched above
  have after := entryAt_appendEntriesToLog node.log nonempty contiguous matched above upper
  rw [← handleAppendEntries_log node follower current] at after
  have span := lastNew_eq contiguous
  have replaced : ∀ entry ∈ request.entries, ∀ stored,
      entryAt (node.handleAppendEntries request).1.log entry.index = some stored →
      stored = entry := by
    intro entry member stored found
    have := contiguous.index_le member
    rcases (after entry.index stored).mp found with ⟨below, _⟩ | ⟨member', same⟩
    · omega
    · exact contiguous.eq_of_index_eq member' member same
  constructor
  · intro preserves
    refine ⟨?_, ?_, ?_⟩
    · rintro index ⟨entry, member, rfl, stored, found, differs⟩
      by_contra low
      have kept := preserves.committed entry.index stored (by omega) found
      exact differs (congrArg LogEntry.term (replaced entry member stored kept))
    · intro entry member agreed stored found
      exact replaced entry member stored (preserves.unconflicted entry.index stored found agreed)
    · intro agreed
      by_contra longer
      rw [lastIndex_eq, span] at longer
      have lower : (view node.log).snapshotIndex < (view node.log).lastIndex := by omega
      obtain ⟨stored, found⟩ := (view node.log).exists_entryAt lower (le_refl _)
      rw [← entryAt_eq] at found
      have kept := preserves.unconflicted _ stored found (fun earlier _ => agreed earlier)
      rcases (after _ stored).mp kept with ⟨below, _⟩ | ⟨member, same⟩
      · omega
      · have := contiguous.index_le member
        omega
  · rintro ⟨conflicts, agreed, covered⟩
    have unconflicted : ∀ index entry, entryAt node.log index = some entry →
        (∀ earlier ≤ index, ¬ConflictsAt node.log request earlier) →
        entryAt (node.handleAppendEntries request).1.log index = some entry := by
      intro index entry found clear
      rw [after]
      by_cases kept : index ≤ request.prevLogIndex
      · exact .inl ⟨kept, found⟩
      · have inside : index ≤ request.prevLogIndex + request.entries.length := by
          by_contra beyond
          have none : ∀ other, ¬ConflictsAt node.log request other := by
            intro other conflict
            have ⟨entry, member, same, _⟩ := conflict
            have := contiguous.index_le member
            exact clear other (by omega) conflict
          have := covered none
          rw [entryAt_eq] at found
          have := (view node.log).entryAt_bounds found
          rw [lastIndex_eq] at *
          omega
        obtain ⟨sent, member, rfl⟩ := contiguous.exists_mem (by omega) inside
        rw [agreed sent member clear entry found]
        exact .inr ⟨member, rfl⟩
    refine ⟨unconflicted, ?_, ?_⟩
    · intro present
      have none := not_conflictsAt_of_present present
      have same : ∀ index, entryAt (node.handleAppendEntries request).1.log index =
          entryAt node.log index := by
        intro index
        apply Option.ext
        intro entry
        constructor
        · intro found
          rcases (after index entry).mp found with ⟨_, old⟩ | ⟨member, rfl⟩
          · exact old
          · exact present entry member
        · intro found
          exact unconflicted index entry found (fun earlier _ => none earlier)
      refine ⟨?_, same⟩
      have reach := covered none
      have length := length_pos_of_ne_nil nonempty
      obtain ⟨last, member, index⟩ := contiguous.exists_mem
        (show request.prevLogIndex < request.prevLogIndex + request.entries.length by omega) (le_refl _)
      have found := present last member
      rw [entryAt_eq] at found
      have := (view node.log).entryAt_bounds found
      rw [handleAppendEntries_log node follower current,
        lastIndex_appendEntriesToLog node.log nonempty contiguous matched above]
      rw [lastIndex_eq] at *
      omega
    · intro index entry low found
      refine unconflicted index entry found ?_
      intro earlier before conflict
      have := conflicts earlier conflict
      omega

theorem preservesLog_iff_of_compacted (below : request.prevLogIndex < (view node.log).snapshotIndex) :
    PreservesLog node request ↔
      (∀ index, ConflictsAt node.log request index → node.commitIndex < index) ∧
        (lastIndex node.log < firstIndex node.log ∨
          ConflictsAt node.log request (firstIndex node.log)) := by
  have gone : ∀ index entry, entryAt (node.handleAppendEntries request).1.log index ≠ some entry := by
    intro index entry found
    obtain ⟨_, entries, _⟩ := appendEntriesToLog_compacted node.log nonempty contiguous matched below
    rw [handleAppendEntries_log node follower current, entryAt_eq, LogView.entryAt_eq_some_iff, entries] at found
    simp at found
  constructor
  · intro preserves
    refine ⟨?_, ?_⟩
    · rintro index ⟨entry, _, _, stored, found, _⟩
      by_contra low
      exact gone index stored (preserves.committed index stored (by omega) found)
    · by_contra neither
      push Not at neither
      obtain ⟨some, clear⟩ := neither
      rw [firstIndex_eq, lastIndex_eq] at some
      obtain ⟨stored, found⟩ := (view node.log).exists_entryAt
        (show (view node.log).snapshotIndex < (view node.log).firstIndex by
          simp only [LogView.firstIndex]; omega) some
      rw [← entryAt_eq, ← firstIndex_eq] at found
      refine gone _ stored (preserves.unconflicted _ stored found ?_)
      intro earlier before conflict
      have := conflict.bounds
      exact clear ((show earlier = firstIndex node.log by omega) ▸ conflict)
  · rintro ⟨conflicts, cleared⟩
    have first : ∀ index entry, entryAt node.log index = some entry →
        firstIndex node.log ≤ index ∧ ConflictsAt node.log request (firstIndex node.log) := by
      intro index entry found
      rw [entryAt_eq] at found
      have bounds := (view node.log).entryAt_bounds found
      rw [firstIndex_eq, lastIndex_eq] at *
      simp only [LogView.firstIndex] at *
      exact ⟨by omega, cleared.resolve_left (by omega)⟩
    refine ⟨?_, ?_, ?_⟩
    · intro index entry found clear
      obtain ⟨before, conflict⟩ := first index entry found
      exact absurd conflict (clear _ before)
    · intro present
      obtain ⟨sent, member, index⟩ := contiguous.exists_mem
        (show request.prevLogIndex < request.prevLogIndex + 1 by omega)
        (by have := length_pos_of_ne_nil nonempty; omega)
      obtain ⟨before, _⟩ := first sent.index sent (present sent member)
      rw [firstIndex_eq, LogView.firstIndex] at before
      omega
    · intro index entry low found
      obtain ⟨before, conflict⟩ := first index entry found
      have := conflicts _ conflict
      omega

end

end Overlap

/-- For every follower over a lawful log and every request that passes the
consistency check, the log is preserved exactly for the safe overlaps. -/
theorem preservesLog_iff (node : RaftNode L) (request : AppendEntriesRequest) (follower : node.state = .follower)
    (current : node.currentTerm ≤ request.term) (matched : prevLogConflict node.log request = none)
    (contiguous : Numbered request.prevLogIndex request.entries) :
    PreservesLog node request ↔ OverwritesSafely node request := by
  unfold OverwritesSafely
  by_cases empty : request.entries = []
  · have same : (node.handleAppendEntries request).1.log = node.log := by
      rw [handleAppendEntries_log node follower current, appendEntriesToLog]
      simp [empty]
    refine ⟨fun _ => .inl empty, fun _ => ⟨?_, ?_, ?_⟩⟩
    · intro index entry found _
      rwa [same]
    · intro _
      rw [same]
      exact ⟨rfl, fun _ => rfl⟩
    · intro index entry _ found
      rwa [same]
  · have firstIndex : firstIndex node.log = (view node.log).snapshotIndex + 1 :=
      firstIndex_eq node.log
    by_cases above : (view node.log).snapshotIndex ≤ request.prevLogIndex
    · rw [preservesLog_iff_of_above empty contiguous follower current matched above]
      constructor
      · rintro ⟨conflicts, agreed, covered⟩
        exact .inr ⟨conflicts, .inl ⟨by omega, agreed, covered⟩⟩
      · rintro (none | ⟨conflicts, ⟨_, agreed, covered⟩ | ⟨below, _⟩⟩)
        · exact absurd none empty
        · exact ⟨conflicts, agreed, covered⟩
        · omega
    · rw [preservesLog_iff_of_compacted empty contiguous follower current matched (by omega)]
      constructor
      · rintro ⟨conflicts, cleared⟩
        exact .inr ⟨conflicts, .inr ⟨by omega, cleared⟩⟩
      · rintro (none | ⟨conflicts, ⟨lower, _⟩ | ⟨_, cleared⟩⟩)
        · exact absurd none empty
        · omega
        · exact ⟨conflicts, cleared⟩

def firstEntryRequest : AppendEntriesRequest where
  term := 1
  leaderId := 2
  entries := [{ term := 1, index := 1 }]

def caughtUpFollower : RaftNode LogView :=
  (start 1 {} LogView.empty [1, 2, 3]).run
    [.appendEntries firstEntryRequest,
      .appendEntries {
        term := 1
        leaderId := 2
        prevLogIndex := 1
        prevLogTerm := 1
        entries := [{ term := 1, index := 2 }]
        leaderCommit := 2 }]

theorem preservesLog_iff_caughtUp :
    caughtUpFollower.state = .follower ∧ caughtUpFollower.currentTerm ≤ firstEntryRequest.term ∧
      prevLogConflict caughtUpFollower.log firstEntryRequest = none ∧
      Numbered firstEntryRequest.prevLogIndex firstEntryRequest.entries ∧
      (PreservesLog caughtUpFollower firstEntryRequest ↔ OverwritesSafely caughtUpFollower firstEntryRequest) :=
  ⟨by decide +kernel, by decide +kernel, by decide +kernel, by decide +kernel,
    preservesLog_iff caughtUpFollower firstEntryRequest (by decide +kernel) (by decide +kernel)
      (by decide +kernel) (by decide +kernel)⟩

/-- The first request arrives once more: the committed second entry is gone. -/
theorem redelivery_removes_committed :
    caughtUpFollower.state = .follower ∧ caughtUpFollower.currentTerm ≤ firstEntryRequest.term ∧
      prevLogConflict caughtUpFollower.log firstEntryRequest = none ∧
      Numbered firstEntryRequest.prevLogIndex firstEntryRequest.entries ∧
      (∀ entry ∈ firstEntryRequest.entries, entryAt caughtUpFollower.log entry.index = some entry) ∧
      ¬PreservesLog caughtUpFollower firstEntryRequest := by
  refine ⟨by decide +kernel, by decide +kernel, by decide +kernel, by decide +kernel, by decide +kernel, ?_⟩
  intro preserves
  have kept := preserves.committed 2 { term := 1, index := 2 } (by decide +kernel) (by decide +kernel)
  have lost : entryAt (caughtUpFollower.handleAppendEntries firstEntryRequest).1.log 2 = none := by
    decide +kernel
  rw [lost] at kept
  cases kept

end RaftNode

end TorrentMq.Consensus
