import TorrentMq.Consensus.DiskRaftLogDurability

/-! What a failed append leaves. The stale entries are cut off before the size of
the batch is checked and before it is written, so an append that fails there
leaves the log as it was only where nothing stands behind the previous entry. -/

set_option autoImplicit false

namespace TorrentMq.Consensus

open Bytes OrderedMap DiskRaftLog

def frameEnd (data : Bytes) (offset : Nat) : Nat :=
  let (_, header) := readNat 4 (pread data offset 16)
  let (_, header) := readNat 4 header
  let (_, header) := readNat 4 header
  offset + 16 + (readNat 4 header).1

variable {data : Bytes} {offset : Nat}

theorem pread_append_of_inside {count : Nat} (inside : offset + count ≤ data.length)
    (more : Bytes) : pread (data ++ more) offset count = pread data offset count := by
  rw [pread, pread, List.drop_append_of_le_length (by omega), List.take_append_of_le_length]
  rw [List.length_drop]
  omega

theorem length_pread (data : Bytes) (offset count : Nat) :
    (pread data offset count).length = min count (data.length - offset) := by
  rw [pread, List.length_take, List.length_drop]

theorem readBatch_append_of_inside {more : Bytes}
    (inside : frameEnd (data ++ more) offset ≤ data.length) :
    readBatch (data ++ more) offset = readBatch data offset := by
  unfold frameEnd at inside
  dsimp only at inside
  have header : pread (data ++ more) offset 16 = pread data offset 16 :=
    pread_append_of_inside (by omega) more
  rw [header] at inside
  unfold readBatch
  rw [header]
  dsimp only
  rw [pread_append_of_inside (by omega) more]

theorem readBatch_of_beyond {more : Bytes}
    (beyond : data.length < frameEnd (data ++ more) offset) : readBatch data offset = [] := by
  unfold frameEnd at beyond
  dsimp only at beyond
  by_cases short : data.length < offset + 16
  · unfold readBatch
    dsimp only
    rw [if_pos]
    rw [length_pread]
    omega
  · have header : pread (data ++ more) offset 16 = pread data offset 16 :=
      pread_append_of_inside (by omega) more
    rw [header] at beyond
    have cut : (pread data (offset + 16)
        (readNat 4 (readNat 4 (readNat 4 (readNat 4 (pread data offset 16)).2).2).2).1).length ≠
        (readNat 4 (readNat 4 (readNat 4 (readNat 4 (pread data offset 16)).2).2).2).1 := by
      rw [length_pread]
      omega
    unfold readBatch
    dsimp only
    rw [if_pos cut]
    split
    · rfl
    · split
      · rfl
      · split <;> rfl

namespace DiskRaftLog

inductive AppendFails (log : DiskRaftLog) (previous previousTerm : Int) (entries : List LogEntry) :
    Option Nat → Prop where
  | mismatch {shortWrite : Option Nat} (nonempty : entries ≠ []) (refused : log.Refuses previous previousTerm) :
      AppendFails log previous previousTerm entries shortWrite
  | oversized {shortWrite : Option Nat} (large : log.TooLarge previous previousTerm entries) :
      AppendFails log previous previousTerm entries shortWrite
  | short {written : Nat} (writes : log.Writes previous previousTerm entries)
      (cut : written < (frame entries).length) : AppendFails log previous previousTerm entries (some written)

/-- Two logs that cannot be told apart by a read of one index. -/
structure SameReads (log after : DiskRaftLog) : Prop where
  firstIndex : after.firstIndex = log.firstIndex
  lastIndex : after.lastIndex = log.lastIndex
  termAt : ∀ index, after.termAt index = log.termAt index
  entryAt : ∀ index, after.entryAt index = log.entryAt index

theorem SameReads.refl (log : DiskRaftLog) : log.SameReads log := ⟨rfl, rfl, fun _ => rfl, fun _ => rfl⟩

/-- Bytes at the end of the data file complete a frame for an indexed entry. -/
def Completes (data more : Bytes) (indexed : Int × IndexEntry) : Prop :=
  data.length < frameEnd (data ++ more) indexed.2.offset ∧
    (firstAt (readBatch (data ++ more) indexed.2.offset) indexed.1).isSome = true

instance (data more : Bytes) (indexed : Int × IndexEntry) : Decidable (Completes data more indexed) :=
  inferInstanceAs (Decidable (_ ∧ _))

/-- An indexed entry that cannot be read, and whose term is that of no entry or of the snapshot. -/
def Hidden (log : DiskRaftLog) (indexed : Int × IndexEntry) : Prop :=
  log.entryAt indexed.1 = none ∧
    (indexed.2.term = kNoTerm ∨ log.snapshot.map RaftSnapshot.lastIncludedIndex = some indexed.1)

instance (log : DiskRaftLog) (indexed : Int × IndexEntry) : Decidable (log.Hidden indexed) :=
  inferInstanceAs (Decidable (_ ∧ _))

/-- A cut that empties the log leaves its bounds only where they are those of a log without
entries, and its entries only where there is nothing to see of them. -/
def CutsNothing (log : DiskRaftLog) (previous : Int) : Prop :=
  previous < 0 ∧ log.firstIndex = previous + 1 ∧ log.lastIndex = 0 ∧ ∀ indexed ∈ log.index.entries, log.Hidden indexed

instance (log : DiskRaftLog) (previous : Int) : Decidable (log.CutsNothing previous) :=
  inferInstanceAs (Decidable (_ ∧ _))

/-- A failed append that changes nothing: it is refused for its previous entry, or the log has
nothing behind that entry, and what is left of the batch completes no frame. -/
def FailsCleanly (log : DiskRaftLog) (shortWrite : Option Nat) (previous previousTerm : Int)
    (entries : List LogEntry) : Prop :=
  log.Refuses previous previousTerm ∨ log.CutsNothing previous ∨
    log.lastIndex ≤ previous ∧ (log.TooLarge previous previousTerm entries ∨
      ∀ written ∈ shortWrite, ∀ indexed ∈ log.index.entries,
        ¬Completes log.files.data ((frame entries).take written) indexed)

instance (log : DiskRaftLog) (shortWrite : Option Nat) (previous previousTerm : Int) (entries : List LogEntry) :
    Decidable (log.FailsCleanly shortWrite previous previousTerm entries) := inferInstanceAs (Decidable (_ ∨ _))

section Failures

variable {log : DiskRaftLog} {previous previousTerm : Int}

def withBytes (log : DiskRaftLog) (more : Bytes) : DiskRaftLog :=
  { log with files := { log.files with data := log.files.data ++ more } }

@[simp] theorem withBytes_nil : log.withBytes [] = log := by
  simp [withBytes]

theorem append_short {first : LogEntry} {rest : List LogEntry}
    (writes : log.Writes previous previousTerm (first :: rest)) (written : Nat) :
    log.append (some written) previous previousTerm (first :: rest) =
      ((log.cutBehind previous).withBytes ((frame (first :: rest)).take written), kNoLogIndex) := by
  simp only [append, gt_iff_lt]
  rw [if_neg (by exact writes.2.1), if_neg (Nat.not_lt.mpr writes.2.2)]
  rfl

theorem entryAt_withBytes_iff (more : Bytes) (index : Int) :
    (log.withBytes more).entryAt index = log.entryAt index ↔
      ∀ indexed ∈ log.index.find? index, ¬Completes log.files.data more (index, indexed) := by
  simp only [entryAt, withBytes]
  cases found : log.index.find? index with
  | none => simp
  | some indexed =>
    simp only [Option.mem_def, Option.some.injEq, forall_eq']
    by_cases inside : frameEnd (log.files.data ++ more) indexed.offset ≤ log.files.data.length
    · rw [readBatch_append_of_inside inside]
      exact iff_of_true rfl fun completes => absurd completes.1 (Nat.not_lt.mpr inside)
    · rw [readBatch_of_beyond (Nat.not_le.mp inside), List.find?_nil]
      simp only [Completes, Nat.not_le.mp inside, true_and, Bool.not_eq_true, Option.isSome_eq_false_iff,
        Option.isNone_iff_eq_none]
      rfl

theorem sameReads_withBytes_iff (more : Bytes) :
    log.SameReads (log.withBytes more) ↔ ∀ indexed ∈ log.index.entries, ¬Completes log.files.data more indexed := by
  constructor
  · intro same indexed member
    exact (entryAt_withBytes_iff more indexed.1).mp (same.entryAt indexed.1) _ (find?_eq_some_iff.mpr member)
  · intro clean
    refine ⟨rfl, rfl, fun _ => rfl, fun index => (entryAt_withBytes_iff more index).mpr ?_⟩
    exact fun indexed stands => clean (index, indexed) (find?_eq_some_iff.mp stands)

theorem sameReads_cut_iff (cut : previous < log.lastIndex) (more : Bytes) :
    log.SameReads ((log.cutBehind previous).withBytes more) ↔ log.CutsNothing previous := by
  unfold cutBehind
  rw [if_pos cut]
  by_cases whole : previous + 1 ≤ log.firstIndex
  · rw [truncateSuffixLocked, if_pos whole]
    constructor
    · rintro ⟨first, last, terms, entries⟩
      simp only [withBytes, writeMeta] at first last
      have bounds : previous < 0 ∧ log.lastIndex = 0 := by
        split at last <;> omega
      refine ⟨bounds.1, first.symm, bounds.2, fun indexed member => ⟨(entries indexed.1).symm, ?_⟩⟩
      have stands := find?_eq_some_iff.mpr member
      have term := terms indexed.1
      simp only [termAt, withBytes, writeMeta, find?_empty, stands] at term
      cases stored : log.snapshot with
      | none =>
        rw [stored] at term
        exact .inl term.symm
      | some snapshot =>
        rw [stored] at term
        by_cases own : indexed.1 = snapshot.lastIncludedIndex
        · exact .inr (congrArg some own.symm)
        · simp only [own, if_false] at term
          exact .inl term.symm
    · rintro ⟨negative, first, last, hidden⟩
      refine ⟨first.symm, ?_, fun index => ?_, fun index => ?_⟩
      · simp only [withBytes, writeMeta, last]
        rw [if_neg (by omega)]
      · simp only [termAt, withBytes, writeMeta, find?_empty]
        cases found : log.index.find? index with
        | none => rfl
        | some indexed =>
          have unseen := (hidden (index, indexed) (find?_eq_some_iff.mp found)).2
          cases stored : log.snapshot with
          | none =>
            rw [stored] at unseen
            exact (unseen.resolve_right (by simp)).symm
          | some snapshot =>
            rw [stored] at unseen
            dsimp only
            split
            · rfl
            next other =>
              refine (unseen.resolve_right fun own => other ?_).symm
              exact (Option.some.inj own).symm
      · simp only [entryAt, withBytes, writeMeta, find?_empty]
        cases found : log.index.find? index with
        | none => rfl
        | some indexed =>
          have unseen := (hidden (index, indexed) (find?_eq_some_iff.mp found)).1
          simp only [entryAt, found] at unseen
          exact unseen.symm
  · rw [truncateSuffixLocked, if_neg whole]
    refine iff_of_false ?_ ?_
    · intro same
      have last := same.lastIndex
      simp only [withBytes, writeMeta] at last
      omega
    · intro nothing
      exact whole nothing.2.1.ge

/-- An append that fails leaves every read as it was exactly when it fails cleanly. -/
theorem sameReads_iff_failsCleanly (log : DiskRaftLog) (shortWrite : Option Nat) (previous previousTerm : Int)
    (entries : List LogEntry) (fails : log.AppendFails previous previousTerm entries shortWrite) :
    log.SameReads (log.append shortWrite previous previousTerm entries).1 ↔
      log.FailsCleanly shortWrite previous previousTerm entries := by
  cases entries with
  | nil =>
    cases fails with
    | mismatch nonempty => exact absurd rfl nonempty
    | oversized large => exact absurd rfl large.1
    | short writes => exact absurd rfl writes.1
  | cons first rest =>
    cases fails with
    | mismatch nonempty refused =>
      rw [append_refused refused]
      exact iff_of_true (.refl log) (.inl refused)
    | oversized large =>
      rw [append_large large]
      by_cases cut : previous < log.lastIndex
      · have same := sameReads_cut_iff cut []
        rw [withBytes_nil] at same
        simp only [same, FailsCleanly, large.2.1, false_or, Int.not_le.mpr cut, false_and, or_false]
      · rw [cutBehind, if_neg cut]
        exact iff_of_true (.refl log) (.inr (.inr ⟨Int.not_lt.mp cut, .inl large⟩))
    | short writes =>
      next written _ =>
      rw [append_short writes]
      by_cases cut : previous < log.lastIndex
      · simp only [sameReads_cut_iff cut, FailsCleanly, writes.2.1, false_or, Int.not_le.mpr cut, false_and, or_false]
      · have bounds : ¬log.CutsNothing previous := by
          rintro ⟨negative, -, last, -⟩
          omega
        have fits : ¬log.TooLarge previous previousTerm (first :: rest) :=
          fun large => absurd large.2.2 (Nat.not_lt.mpr writes.2.2)
        rw [cutBehind, if_neg cut, sameReads_withBytes_iff]
        simp only [FailsCleanly, writes.2.1, bounds, fits, false_or, Int.not_lt.mp cut, true_and,
          Option.mem_def, Option.some.injEq, forall_eq']

end Failures

def oneEntry : DiskRaftLog := fresh.step (.append 0 0 [⟨1, 1, .noOp⟩])

/-- A batch of which five bytes are written behind the entry. -/
theorem sameReads_shortWrite : oneEntry.SameReads (oneEntry.append (some 5) 1 1 [⟨1, 2, .noOp⟩]).1 :=
  (sameReads_iff_failsCleanly oneEntry (some 5) 1 1 [⟨1, 2, .noOp⟩] (.short (by decide +kernel) (by decide))).mpr
    (by decide +kernel)

/-- A batch of which nothing is written takes the entry away that it was to replace. -/
theorem entry_lost_to_failed_append : ¬∀ (log : DiskRaftLog) (shortWrite : Option Nat) (previous previousTerm : Int)
    (entries : List LogEntry), log.AppendFails previous previousTerm entries shortWrite →
      log.SameReads (log.append shortWrite previous previousTerm entries).1 := by
  intro all
  have same := all oneEntry (some 0) 0 0 [⟨2, 1, .noOp⟩] (.short (by decide +kernel) (by decide))
  have last := same.lastIndex
  revert last
  decide +kernel

end DiskRaftLog

end TorrentMq.Consensus
