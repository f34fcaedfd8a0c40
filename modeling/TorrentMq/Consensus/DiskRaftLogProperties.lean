import TorrentMq.Consensus.DiskRaftLogFrames
import TorrentMq.Consensus.RaftLogProperties

/-! The index of the log on disk: which keys it has, and what the four calls
that change it do to them. -/

set_option autoImplicit false

namespace TorrentMq.Consensus

open OrderedMap

theorem Numbered.index_getLast {previous : Int} {entries : List LogEntry}
    (numbered : Numbered previous entries) (nonempty : entries ≠ []) :
    (entries.getLast nonempty).index = previous + entries.length := by
  have positive : 0 < entries.length := List.length_pos_iff.mpr nonempty
  have final : entries[entries.length - 1]? = some (entries.getLast nonempty) := by
    rw [← List.getLast?_eq_getElem?, List.getLast?_eq_some_getLast]
  have number := numbered (entries.length - 1) _ final
  omega

namespace DiskRaftLog

variable {index : OrderedMap Int IndexEntry}

theorem mem_keys_indexBatch {offset length : Nat}
    {entries : List LogEntry} {key : Int} :
    key ∈ (indexBatch index offset length entries).keys ↔
      key ∈ index.keys ∨ ∃ entry ∈ entries, entry.index = key := by
  unfold indexBatch
  induction entries generalizing index with
  | nil => simp
  | cons entry entries ih =>
    rw [List.foldl_cons, ih, mem_keys_insert]
    simp only [List.mem_cons, exists_eq_or_imp]
    constructor
    · rintro ((same | old) | new)
      · exact .inr (.inl same.symm)
      · exact .inl old
      · exact .inr (.inr new)
    · rintro (old | same | new)
      · exact .inl (.inr old)
      · exact .inl (.inl same.symm)
      · exact .inr new

theorem mem_keys_indexBatch_of_numbered {offset length : Nat}
    {previous : Int} {entries : List LogEntry} (numbered : Numbered previous entries) {key : Int} :
    key ∈ (indexBatch index offset length entries).keys ↔
      key ∈ index.keys ∨ previous < key ∧ key ≤ previous + entries.length := by
  rw [mem_keys_indexBatch]
  refine or_congr_right ⟨?_, ?_⟩
  · rintro ⟨entry, member, rfl⟩
    exact numbered.index_le member
  · rintro ⟨lower, upper⟩
    exact numbered.exists_mem lower upper

theorem append_cases (log : DiskRaftLog) (previous previousTerm : Int) (entries : List LogEntry) :
    (log.append none previous previousTerm entries).1 = log ∨
      ∃ first rest, entries = first :: rest ∧
        (0 < previous → log.termAt previous = previousTerm ∧ previousTerm ≠ kNoTerm) ∧
        ((log.append none previous previousTerm entries).1 = log.cutBehind previous ∨
          (serializeBatch entries).length ≤ kMaxBatchBytes ∧
            (log.append none previous previousTerm entries).1 = (log.cutBehind previous).writeBatch first rest) := by
  cases entries with
  | nil => exact .inl rfl
  | cons first rest =>
    simp only [append]
    split
    · exact .inl rfl
    next accepted =>
      refine .inr ⟨first, rest, rfl, ?_, ?_⟩
      · intro positive
        by_cases same : log.termAt previous = previousTerm
        · exact ⟨same, fun unset => accepted ⟨positive, .inl (same.trans unset)⟩⟩
        · exact absurd ⟨positive, .inr same⟩ accepted
      · split
        · exact .inl rfl
        next fits => exact .inr ⟨Nat.not_lt.mp fits, rfl⟩

/-- The keys of the index are the indices from the first to the last. -/
def Contiguous (log : DiskRaftLog) : Prop :=
  ∀ key, key ∈ log.index.keys ↔ log.firstIndex ≤ key ∧ key ≤ log.lastIndex

/-- A call that keeps the index contiguous: an accepted batch continues inside
the log, a cut starts inside it, and a snapshot does not lie below it. -/
def CallsInside (log : DiskRaftLog) : DiskLogCall → Prop
  | .append previous previousTerm entries =>
    entries ≠ [] → 0 ≤ previous ∧ Numbered previous entries ∧
      (0 < previous → log.termAt previous = previousTerm → previousTerm ≠ kNoTerm →
        previous ≤ log.lastIndex)
  | .truncateSuffix fromIndex => 0 < fromIndex ∧ fromIndex ≤ log.lastIndex + 1
  | .truncatePrefix _ => True
  | .applySnapshot snapshot =>
    snapshot.isValid = true →
      log.firstIndex ≤ snapshot.lastIncludedIndex + 1 ∨ log.lastIndex < log.firstIndex

instance (log : DiskRaftLog) : (call : DiskLogCall) → Decidable (log.CallsInside call)
  | .append _ _ _ | .applySnapshot _ => inferInstanceAs (Decidable (_ → _))
  | .truncateSuffix _ => inferInstanceAs (Decidable (_ ∧ _))
  | .truncatePrefix _ => .isTrue trivial

/-- Contiguity with bounds that every call inside the log keeps. -/
structure Ranged (log : DiskRaftLog) : Prop where
  contiguous : log.Contiguous
  positive : 0 < log.firstIndex
  ordered : log.firstIndex ≤ log.lastIndex + 1

section

variable {log : DiskRaftLog} (ranged : log.Ranged)
include ranged

theorem Ranged.truncateSuffixLocked {fromIndex : Int} (lower : 0 < fromIndex) (upper : fromIndex ≤ log.lastIndex + 1) :
    (log.truncateSuffixLocked fromIndex).Ranged ∧ (log.truncateSuffixLocked fromIndex).lastIndex = fromIndex - 1 := by
  have ordered := ranged.ordered
  have positive := ranged.positive
  unfold DiskRaftLog.truncateSuffixLocked
  split
  · dsimp only [writeMeta]
    refine ⟨⟨?_, lower, by dsimp only; omega⟩, rfl⟩
    intro key
    refine ⟨fun member => absurd member mem_keys_empty, fun inside => ?_⟩
    dsimp only at inside
    omega
  next above =>
    dsimp only [writeMeta]
    refine ⟨⟨?_, positive, by dsimp only; omega⟩, rfl⟩
    intro key
    dsimp only
    rw [mem_keys_filter, ranged.contiguous key, decide_eq_true_iff]
    omega

theorem Ranged.append {previous previousTerm : Int}
    {entries : List LogEntry} (inside : log.CallsInside (.append previous previousTerm entries)) :
    (log.append none previous previousTerm entries).1.Ranged := by
  rcases append_cases log previous previousTerm entries with same | ⟨first, rest, rfl, accepted, stored⟩
  · rwa [same]
  · obtain ⟨nonneg, numbered, reached⟩ := inside (List.cons_ne_nil first rest)
    have ordered := ranged.ordered
    have positive := ranged.positive
    have within : previous ≤ log.lastIndex ∨ log.lastIndex = 0 ∧ previous = 0 := by
      by_cases unset : previous = 0
      · omega
      · obtain ⟨term, real⟩ := accepted (by omega)
        exact .inl (reached (by omega) term real)
    have cut : (log.cutBehind previous).Ranged ∧ (log.cutBehind previous).lastIndex = previous := by
      unfold cutBehind
      split
      · have result := ranged.truncateSuffixLocked (by omega : 0 < previous + 1) (by omega)
        rw [Int.add_sub_cancel] at result
        exact result
      · exact ⟨ranged, by omega⟩
    rcases stored with only | ⟨_, written⟩
    · rw [only]
      exact cut.1
    · rw [written]
      obtain ⟨cut, last⟩ := cut
      have front : first.index = previous + 1 := by
        have number := numbered 0 first rfl
        omega
      have back := numbered.index_getLast (List.cons_ne_nil first rest)
      have cutOrdered := cut.ordered
      have cutPositive := cut.positive
      have start : ((log.cutBehind previous).writeBatch first rest).firstIndex =
          (log.cutBehind previous).firstIndex := by
        dsimp only [writeBatch]
        rw [if_neg (by omega)]
      refine ⟨?_, by rw [start]; exact cutPositive, ?_⟩
      · intro key
        rw [start]
        dsimp only [writeBatch]
        rw [mem_keys_indexBatch_of_numbered numbered, cut.contiguous key, back]
        omega
      · rw [start]
        dsimp only [writeBatch]
        rw [back]
        omega

theorem Ranged.truncatePrefix (firstIndex : Int) : (log.truncatePrefix firstIndex).Ranged := by
  have positive := ranged.positive
  unfold DiskRaftLog.truncatePrefix
  split
  · exact ranged
  · dsimp only [writeMeta]
    refine ⟨?_, by dsimp only; omega, ?_⟩
    · intro key
      dsimp only
      rw [mem_keys_filter, ranged.contiguous key, decide_eq_true_iff]
      split <;> omega
    · dsimp only
      split <;> omega

theorem Ranged.applySnapshot {snapshot : RaftSnapshot}
    (inside : log.CallsInside (.applySnapshot snapshot)) : (log.applySnapshot snapshot).Ranged := by
  have ordered := ranged.ordered
  unfold DiskRaftLog.applySnapshot
  split
  · exact ranged
  next valid =>
    have valid : snapshot.isValid = true := by simpa using valid
    have above := inside valid
    have positive : 0 < snapshot.lastIncludedIndex := by
      simp only [RaftSnapshot.isValid, Bool.and_eq_true, decide_eq_true_eq] at valid
      exact valid.2
    have keys : ∀ key, key ∈ (log.index.filter fun key =>
        decide (snapshot.lastIncludedIndex < key)).keys ↔
          snapshot.lastIncludedIndex < key ∧ log.firstIndex ≤ key ∧ key ≤ log.lastIndex := by
      intro key
      rw [mem_keys_filter, ranged.contiguous key, decide_eq_true_iff]
      exact and_comm
    dsimp only
    split
    next empty =>
      have none := isEmpty_entries_iff.mp empty
      dsimp only [writeMeta]
      refine ⟨?_, by dsimp only; omega, by dsimp only; omega⟩
      intro key
      dsimp only
      refine ⟨fun member => absurd member (none key), fun inside => ?_⟩
      omega
    next some =>
      dsimp only [writeMeta]
      have reached : snapshot.lastIncludedIndex < log.lastIndex ∧ log.firstIndex ≤ log.lastIndex := by
        by_contra beyond
        refine some (isEmpty_entries_iff.mpr fun key member => ?_)
        have := (keys key).mp member
        omega
      refine ⟨?_, by dsimp only; omega, by dsimp only; omega⟩
      intro key
      dsimp only
      rw [keys key]
      omega

theorem Ranged.step (call : DiskLogCall) (inside : log.CallsInside call) : (log.step call).Ranged := by
  cases call with
  | append => exact ranged.append inside
  | truncateSuffix => exact (ranged.truncateSuffixLocked inside.1 inside.2).1
  | truncatePrefix firstIndex => exact ranged.truncatePrefix firstIndex
  | applySnapshot => exact ranged.applySnapshot inside

end

theorem fresh_ranged : fresh.Ranged where
  contiguous key := by
    refine ⟨fun member => absurd member mem_keys_empty, fun inside => ?_⟩
    change 1 ≤ key ∧ key ≤ 0 at inside
    omega
  positive := Int.one_pos
  ordered := le_refl (1 : Int)

/-- In every session whose calls stay inside the log, the keys of the index are
exactly the indices from the first to the last. -/
theorem index_contiguous (calls : List DiskLogCall) (meets : CallsMeet CallsInside fresh calls) :
    (fresh.run calls).Contiguous :=
  (meets.preserves Ranged (fun _ call inside ranged => ranged.step call inside) fresh_ranged).contiguous

/-- A session inside the log: a batch, a conflicting one over its end, a
prefix removed, and a snapshot within what is left. -/
def insideCalls : List DiskLogCall :=
  [ .append 0 0 [⟨1, 1, .noOp⟩, ⟨1, 2, .noOp⟩, ⟨1, 3, .noOp⟩]
  , .append 2 1 [⟨2, 3, .noOp⟩, ⟨2, 4, .noOp⟩]
  , .truncatePrefix 2
  , .applySnapshot { filePath := "snapshot", lastIncludedIndex := 3, lastIncludedTerm := 2 }
  , .truncateSuffix 5 ]

theorem index_contiguous_insideCalls : CallsMeet CallsInside fresh insideCalls ∧ (fresh.run insideCalls).Contiguous :=
  ⟨by decide +kernel, index_contiguous insideCalls (by decide +kernel)⟩

/-- Cutting from index zero on leaves both bounds at zero with nothing stored. -/
theorem index_gap_of_truncate_zero : ¬(fresh.run [.append 0 0 [⟨1, 1, .noOp⟩], .truncateSuffix 0]).Contiguous := by
  intro contiguous
  have bounds : (0 : Int) ∈ (fresh.run [.append 0 0 [⟨1, 1, .noOp⟩], .truncateSuffix 0]).index.keys :=
    (contiguous 0).mpr (by decide +kernel)
  exact absurd bounds (by decide +kernel)

end DiskRaftLog

end TorrentMq.Consensus
