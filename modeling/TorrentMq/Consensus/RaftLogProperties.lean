import Mathlib.Data.Int.Order.Basic
import Mathlib.Order.Basic
import TorrentMq.Consensus.RaftLog

/-! Reads, cuts and extensions of the reference log, and of contiguous runs of
entries. -/

set_option autoImplicit false

namespace TorrentMq.Consensus

open List RaftLog

namespace LogView

section

variable (view : LogView)
include view

theorem entryAt_eq_some_iff (index : Int) (entry : LogEntry) : view.entryAt index = some entry ↔
      view.snapshotIndex < index ∧ view.entries[(index - view.snapshotIndex - 1).toNat]? = some entry := by
  have position : view.position index - 1 = (index - view.snapshotIndex - 1).toNat := by
    simp only [LogView.position]
    omega
  unfold entryAt
  rw [position]
  split
  next below => exact ⟨nofun, fun found => absurd found.1 (by omega)⟩
  next above => exact ⟨fun found => ⟨by omega, found⟩, fun found => found.2⟩

variable {index : Int}

theorem entryAt_bounds {entry : LogEntry} (found : view.entryAt index = some entry) :
    view.snapshotIndex < index ∧ index ≤ view.lastIndex ∧ entry.index = index := by
  obtain ⟨above, stored⟩ := (view.entryAt_eq_some_iff index entry).mp found
  obtain ⟨short, _⟩ := List.getElem?_eq_some_iff.mp stored
  have number := view.numbered _ _ stored
  simp only [lastIndex]
  omega

theorem exists_entryAt (lower : view.snapshotIndex < index)
    (upper : index ≤ view.lastIndex) : ∃ entry, view.entryAt index = some entry := by
  simp only [lastIndex] at upper
  have short : (index - view.snapshotIndex - 1).toNat < view.entries.length := by omega
  exact ⟨_, (view.entryAt_eq_some_iff index _).mpr ⟨lower, getElem?_eq_getElem short⟩⟩

variable {lastKept : Int}

theorem truncateSuffix_of_le (beyond : view.lastIndex ≤ lastKept) :
    view.truncateSuffix lastKept = view := by
  have all : view.entries.length ≤ view.position lastKept := by
    simp only [lastIndex, position] at *
    omega
  cases view
  simp only [truncateSuffix, mk.injEq, true_and]
  exact take_of_length_le all

theorem lastIndex_truncateSuffix
    (lower : view.snapshotIndex ≤ lastKept) (upper : lastKept ≤ view.lastIndex) :
    (view.truncateSuffix lastKept).lastIndex = lastKept := by
  simp only [truncateSuffix, lastIndex]
  rw [view.length_take_position upper]
  omega

theorem termAt_truncateSuffix (kept : index ≤ lastKept) :
    (view.truncateSuffix lastKept).termAt index = view.termAt index := by
  have same : (view.truncateSuffix lastKept).entryAt index = view.entryAt index := by
    change (if index ≤ view.snapshotIndex then none
      else (view.entries.take (view.position lastKept))[view.position index - 1]?) = view.entryAt index
    unfold entryAt
    split
    · rfl
    · rw [getElem?_take_of_lt (by simp only [position]; omega)]
  unfold termAt
  rw [same]
  rfl

theorem append_truncateSuffix {prevLogIndex prevLogTerm : Int} {added : List LogEntry} (nonempty : added ≠ [])
    (numbered : Numbered prevLogIndex added) (lower : view.snapshotIndex ≤ prevLogIndex)
    (upper : prevLogIndex ≤ view.lastIndex) (term : prevLogIndex = 0 ∨ view.termAt prevLogIndex = prevLogTerm) :
    ((view.truncateSuffix prevLogIndex).append prevLogIndex prevLogTerm added).2 = prevLogIndex + 1 ∧
      ((view.truncateSuffix prevLogIndex).append prevLogIndex prevLogTerm added).1.snapshotIndex =
        view.snapshotIndex ∧
      ((view.truncateSuffix prevLogIndex).append prevLogIndex prevLogTerm added).1.entries =
        view.entries.take (view.position prevLogIndex) ++ added := by
  have last := view.lastIndex_truncateSuffix lower upper
  have valid : (view.truncateSuffix prevLogIndex).Matches prevLogIndex prevLogTerm := by
    refine ⟨lower, last.ge, ?_⟩
    rwa [view.termAt_truncateSuffix (le_refl _)]
  rw [append, if_neg (by simpa using nonempty), dif_pos ⟨valid, numbered⟩]
  refine ⟨rfl, rfl, ?_⟩
  simp only [truncateSuffix, position, take_take, min_self]

theorem length_getEntries {start stop : Int}
    (lower : view.firstIndex ≤ start) (range : start ≤ stop) (upper : stop ≤ view.lastIndex) :
    ((view.getEntries start stop).length : Int) = stop - start + 1 := by
  have inside : ¬(start > stop ∨ start < view.firstIndex ∨ stop > view.lastIndex) := by omega
  have short := view.position_le upper
  rw [getEntries, if_neg inside, length_drop, length_take_of_le short]
  simp only [firstIndex, lastIndex, position] at *
  omega

theorem numbered_getEntries (start stop : Int) : Numbered (start - 1) (view.getEntries start stop) := by
  unfold getEntries
  split
  · exact .nil _
  next inside =>
    have base : view.snapshotIndex + ((view.position start - 1 : Nat) : Int) = start - 1 := by
      simp only [firstIndex, lastIndex, position] at *
      omega
    exact base ▸ (view.numbered.take _).drop _

theorem mem_getEntries {start stop : Int} {entry : LogEntry} (member : entry ∈ view.getEntries start stop) :
    start ≤ entry.index ∧ entry.index ≤ stop ∧ view.entryAt entry.index = some entry := by
  obtain ⟨position, found⟩ := mem_iff_getElem?.mp member
  have number := view.numbered_getEntries start stop _ _ found
  unfold getEntries at found
  split at found
  · simp at found
  next inside =>
    rw [getElem?_drop, getElem?_take] at found
    split at found
    next below =>
      simp only [firstIndex, lastIndex, LogView.position] at *
      refine ⟨by omega, by omega, ?_⟩
      rw [entryAt_eq_some_iff]
      refine ⟨by omega, ?_⟩
      rwa [show (entry.index - view.snapshotIndex - 1).toNat =
        (start - view.snapshotIndex).toNat - 1 + position by omega]
    · cases found

end

end LogView

variable {base : Int} {entries : List LogEntry}

section

variable (numbered : Numbered base entries)

include numbered

theorem Numbered.getElem?_eq_some_iff {index : Int} {entry : LogEntry} :
    (base < index ∧ entries[(index - base - 1).toNat]? = some entry) ↔ entry ∈ entries ∧ entry.index = index := by
  constructor
  · rintro ⟨above, found⟩
    have number := numbered _ _ found
    exact ⟨mem_of_getElem? found, by omega⟩
  · rintro ⟨member, rfl⟩
    obtain ⟨position, found⟩ := mem_iff_getElem?.mp member
    have number := numbered _ _ found
    refine ⟨by omega, ?_⟩
    rwa [show (entry.index - base - 1).toNat = position by omega]

theorem Numbered.index_le {entry : LogEntry} (member : entry ∈ entries) :
    base < entry.index ∧ entry.index ≤ base + entries.length := by
  obtain ⟨position, found⟩ := mem_iff_getElem?.mp member
  obtain ⟨short, _⟩ := List.getElem?_eq_some_iff.mp found
  have number := numbered _ _ found
  omega

theorem Numbered.exists_mem
    {index : Int} (lower : base < index) (upper : index ≤ base + entries.length) :
    ∃ entry ∈ entries, entry.index = index := by
  have short : (index - base - 1).toNat < entries.length := by omega
  obtain ⟨member, same⟩ := numbered.getElem?_eq_some_iff.mp ⟨lower, getElem?_eq_getElem short⟩
  exact ⟨_, member, same⟩

theorem Numbered.eq_of_index_eq {first second : LogEntry} (member : first ∈ entries)
    (member' : second ∈ entries) (same : first.index = second.index) : first = second := by
  obtain ⟨_, found⟩ := numbered.getElem?_eq_some_iff.mpr ⟨member, same⟩
  obtain ⟨_, found'⟩ := numbered.getElem?_eq_some_iff.mpr ⟨member', rfl⟩
  exact Option.some.inj (found.symm.trans found')

end

namespace LogView

variable (view : LogView)

theorem lastIndex_nonneg : 0 ≤ view.lastIndex := by
  have := view.snapshotIndex_nonneg
  simp only [lastIndex]
  omega

theorem snapshotIndex_le_lastIndex : view.snapshotIndex ≤ view.lastIndex := by
  simp only [lastIndex]
  omega

variable {first second : LogView}

theorem entryAt_congr (snapshot : first.snapshotIndex = second.snapshotIndex)
    (entries : first.entries = second.entries) (index : Int) :
    first.entryAt index = second.entryAt index := by
  simp only [entryAt, position, snapshot, entries]

theorem lastIndex_congr (snapshot : first.snapshotIndex = second.snapshotIndex)
    (entries : first.entries = second.entries) : first.lastIndex = second.lastIndex := by
  simp only [lastIndex, snapshot, entries]

theorem entryAt_of_drop {bound : Int} (lower : first.snapshotIndex ≤ bound) (snapshot : second.snapshotIndex = bound)
    (entries : second.entries = first.entries.drop (first.position bound)) {index : Int}
    (above : bound < index) : second.entryAt index = first.entryAt index := by
  apply Option.ext
  intro entry
  rw [entryAt_eq_some_iff, entryAt_eq_some_iff, snapshot, entries, getElem?_drop]
  have position : first.position bound + (index - bound - 1).toNat = (index - first.snapshotIndex - 1).toNat := by
    simp only [LogView.position]
    omega
  rw [position]
  exact ⟨fun found => ⟨by omega, found.2⟩, fun found => ⟨above, found.2⟩⟩

theorem lastIndex_of_drop {bound : Int} (lower : first.snapshotIndex ≤ bound) (upper : bound ≤ first.lastIndex)
    (snapshot : second.snapshotIndex = bound) (entries : second.entries = first.entries.drop (first.position bound)) :
    second.lastIndex = first.lastIndex := by
  have := first.position_le upper
  rw [lastIndex, snapshot, entries, length_drop]
  simp only [lastIndex, position] at *
  omega

theorem truncatePrefix_drop {firstKept : Int} (above : view.snapshotIndex < firstKept) :
    (view.truncatePrefix firstKept).snapshotIndex = firstKept - 1 ∧
      (view.truncatePrefix firstKept).entries = view.entries.drop (view.position (firstKept - 1)) := by
  unfold truncatePrefix
  split
  · exact ⟨rfl, rfl⟩
  · have same : firstKept - 1 = view.snapshotIndex := by omega
    simp [same, position]

theorem applySnapshot_drop (snapshot : RaftSnapshot) :
    (view.applySnapshot snapshot).snapshotIndex = view.snapshotIndex ∧
        (view.applySnapshot snapshot).entries = view.entries ∨
      view.snapshotIndex ≤ snapshot.lastIncludedIndex ∧
        (view.applySnapshot snapshot).snapshotIndex = snapshot.lastIncludedIndex ∧
        (view.applySnapshot snapshot).entries = view.entries.drop (view.position snapshot.lastIncludedIndex) := by
  unfold applySnapshot
  split
  next newer => exact .inr ⟨newer.2, rfl, rfl⟩
  · exact .inl ⟨rfl, rfl⟩

end LogView

namespace LawfulRaftLog

variable {L : Type} [RaftLog L] [LawfulRaftLog L]

theorem append_last (log : L) {prevLogTerm : Int} {entry : LogEntry} (index : entry.index = lastIndex log + 1)
    (term : lastIndex log = 0 ∨ prevLogTerm = termAt log (lastIndex log)) :
    (append log (lastIndex log) prevLogTerm [entry]).2 = lastIndex log + 1 ∧
      (view (append log (lastIndex log) prevLogTerm [entry]).1).snapshotIndex =
        (view log).snapshotIndex ∧
      (view (append log (lastIndex log) prevLogTerm [entry]).1).entries =
        (view log).entries ++ [entry] := by
  rw [termAt_eq] at term
  rw [lastIndex_eq] at *
  have numbered : Numbered (view log).lastIndex [entry] :=
    Numbered.cons_iff.mpr ⟨index, .nil _⟩
  obtain ⟨stored, returned⟩ := append_eq log (view log).lastIndex prevLogTerm [entry]
    (by simp) numbered (fun _ => rfl)
  have extended := (view log).append_truncateSuffix (by simp : [entry] ≠ []) numbered
    (view log).snapshotIndex_le_lastIndex (le_refl _) (term.imp_right Eq.symm)
  rw [(view log).truncateSuffix_of_le (le_refl _)] at extended
  have whole : (view log).entries.take ((view log).position (view log).lastIndex) = (view log).entries :=
    take_of_length_le (by simp only [LogView.position, LogView.lastIndex]; omega)
  rw [whole] at extended
  rw [stored, returned]
  exact extended

section

variable (log : L) {prevLogTerm : Int} {entry : LogEntry} (index : entry.index = lastIndex log + 1)
  (term : lastIndex log = 0 ∨ prevLogTerm = termAt log (lastIndex log))
include log index term

theorem entryAt_append_last (position : Int) (found : LogEntry) :
    entryAt (append log (lastIndex log) prevLogTerm [entry]).1 position = some found ↔
      entryAt log position = some found ∨ found = entry ∧ position = entry.index := by
  obtain ⟨_, snapshot, entries⟩ := append_last log index term
  rw [lastIndex_eq] at index
  rw [entryAt_eq, entryAt_eq, LogView.entryAt_eq_some_iff, LogView.entryAt_eq_some_iff, snapshot,
    entries, getElem?_append]
  simp only [LogView.lastIndex] at index
  by_cases inside : (position - (view log).snapshotIndex - 1).toNat < (view log).entries.length
  · rw [if_pos inside]
    constructor
    · exact .inl
    · rintro (old | ⟨rfl, rfl⟩)
      · exact old
      · omega
  · rw [if_neg inside, getElem?_eq_none (show (view log).entries.length ≤
      (position - (view log).snapshotIndex - 1).toNat by omega), getElem?_singleton]
    constructor
    · rintro ⟨above, stored⟩
      split at stored
      · exact .inr ⟨(Option.some.inj stored).symm, by omega⟩
      · cases stored
    · rintro (⟨_, stored⟩ | ⟨rfl, rfl⟩)
      · cases stored
      · exact ⟨by omega, by rw [if_pos (by omega)]⟩

theorem lastIndex_append_last : lastIndex (append log (lastIndex log) prevLogTerm [entry]).1 =
      lastIndex log + 1 := by
  obtain ⟨_, snapshot, entries⟩ := append_last log index term
  rw [lastIndex_eq (append _ _ _ _).1, lastIndex_eq log] at *
  simp only [LogView.lastIndex] at *
  rw [snapshot, entries, length_append, length_singleton]
  omega

end

end LawfulRaftLog

end TorrentMq.Consensus
