import TorrentMq.Consensus.DiskRaftLogStorage

/-! What became of an appended entry. A call may remove entries that it was not
asked to remove, or leave some that it was; where it does neither, every read
returns the last entry that was appended at the index. -/

set_option autoImplicit false

namespace TorrentMq.Consensus

open Bytes OrderedMap

def DiskLogCall.Batched : DiskLogCall → Prop
  | .append _ _ entries => (∀ entry ∈ entries, entry.InRange) ∧ entries.length ≤ kMaxBatchEntries
  | _ => True

instance : (call : DiskLogCall) → Decidable call.Batched
  | .append _ _ _ => inferInstanceAs (Decidable (_ ∧ _))
  | .truncateSuffix _ | .truncatePrefix _ | .applySnapshot _ => .isTrue trivial

namespace DiskRaftLog

/-- The previous entry of a batch is missing, or it has another term. -/
def Refuses (log : DiskRaftLog) (previous previousTerm : Int) : Prop :=
  0 < previous ∧ (log.termAt previous = kNoTerm ∨ log.termAt previous ≠ previousTerm)

instance (log : DiskRaftLog) (previous previousTerm : Int) : Decidable (log.Refuses previous previousTerm) :=
  inferInstanceAs (Decidable (_ ∧ _))

def Writes (log : DiskRaftLog) (previous previousTerm : Int) (entries : List LogEntry) : Prop :=
  entries ≠ [] ∧ ¬log.Refuses previous previousTerm ∧ (serializeBatch entries).length ≤ kMaxBatchBytes

instance (log : DiskRaftLog) (previous previousTerm : Int) (entries : List LogEntry) :
    Decidable (log.Writes previous previousTerm entries) := inferInstanceAs (Decidable (_ ∧ _))

def TooLarge (log : DiskRaftLog) (previous previousTerm : Int) (entries : List LogEntry) : Prop :=
  entries ≠ [] ∧ ¬log.Refuses previous previousTerm ∧ kMaxBatchBytes < (serializeBatch entries).length

instance (log : DiskRaftLog) (previous previousTerm : Int) (entries : List LogEntry) :
    Decidable (log.TooLarge previous previousTerm entries) := inferInstanceAs (Decidable (_ ∧ _))

section Append

variable {log : DiskRaftLog} {previous previousTerm : Int} {first : LogEntry} {rest : List LogEntry}

theorem append_refused (refused : log.Refuses previous previousTerm) (shortWrite : Option Nat) :
    log.append shortWrite previous previousTerm (first :: rest) = (log, kNoLogIndex) := by
  simp only [DiskRaftLog.append, gt_iff_lt]
  exact if_pos refused

theorem append_large (large : log.TooLarge previous previousTerm (first :: rest)) (shortWrite : Option Nat) :
    log.append shortWrite previous previousTerm (first :: rest) = (log.cutBehind previous, kNoLogIndex) := by
  simp only [DiskRaftLog.append, gt_iff_lt]
  rw [if_neg (by exact large.2.1), if_pos large.2.2]

theorem append_written (writes : log.Writes previous previousTerm (first :: rest)) :
    log.append none previous previousTerm (first :: rest) =
      ((log.cutBehind previous).writeBatch first rest, first.index) := by
  simp only [DiskRaftLog.append, gt_iff_lt]
  rw [if_neg (by exact writes.2.1), if_neg (Nat.not_lt.mpr writes.2.2)]

end Append

def firstAt (entries : List LogEntry) (index : Int) : Option LogEntry :=
  entries.find? fun entry => decide (entry.index = index)

def lastAt (entries : List LogEntry) (index : Int) : Option LogEntry := firstAt entries.reverse index

/-- The entries that are to be read after a call. A batch that is written takes the place of
everything behind its previous entry, and a call that fails changes nothing. -/
def appendedAfter (log : DiskRaftLog) (appended : Int → Option LogEntry) : DiskLogCall → Int → Option LogEntry
  | .append previous previousTerm entries, index =>
    if log.Writes previous previousTerm entries then
      (lastAt entries index).or (if index ≤ previous then appended index else none)
    else appended index
  | .truncateSuffix fromIndex, index => if index < fromIndex then appended index else none
  | .truncatePrefix firstIndex, index => if firstIndex ≤ index then appended index else none
  | .applySnapshot snapshot, index =>
    if snapshot.isValid = true ∧ index ≤ snapshot.lastIncludedIndex then none else appended index

def appendedFrom (log : DiskRaftLog) (appended : Int → Option LogEntry) : List DiskLogCall → Int → Option LogEntry
  | [] => appended
  | call :: calls => (log.step call).appendedFrom (log.appendedAfter appended call) calls

/-- The last entry appended at every index in a session, where it was not truncated or
snapshotted away since. -/
def appendedEntries (calls : List DiskLogCall) : Int → Option LogEntry := fresh.appendedFrom (fun _ => none) calls

/-- A cut leaves an entry below it: it does not empty the log, and the data file is not cut
inside the entry's frame. -/
def Keeps (log : DiskRaftLog) (fromIndex key : Int) : Prop :=
  log.firstIndex < fromIndex ∧ ∀ indexed ∈ log.index.find? key,
    indexed.offset + indexed.batchLength ≤ frontier (log.index.filter fun other => decide (other < fromIndex))

instance (log : DiskRaftLog) (fromIndex key : Int) : Decidable (log.Keeps fromIndex key) :=
  inferInstanceAs (Decidable (_ ∧ _))

def CallsFaithful (log : DiskRaftLog) : DiskLogCall → Prop
  | .append previous previousTerm entries =>
    (log.Writes previous previousTerm entries →
      (∀ entry ∈ entries, firstAt entries entry.index = lastAt entries entry.index) ∧
        ∀ key ∈ log.index.keys, (∀ entry ∈ entries, entry.index ≠ key) →
          if previous < log.lastIndex then key ≤ previous → log.Keeps (previous + 1) key else key ≤ previous) ∧
    (log.TooLarge previous previousTerm entries → previous < log.lastIndex →
      ∀ key ∈ log.index.keys, key ≤ previous ∧ log.Keeps (previous + 1) key)
  | .truncateSuffix fromIndex => ∀ key ∈ log.index.keys, key < fromIndex → log.Keeps fromIndex key
  | .truncatePrefix firstIndex => firstIndex ≤ log.firstIndex → ∀ key ∈ log.index.keys, firstIndex ≤ key
  | .applySnapshot _ => True

instance (log : DiskRaftLog) : (call : DiskLogCall) → Decidable (log.CallsFaithful call)
  | .append _ _ _ => inferInstanceAs (Decidable (_ ∧ _))
  | .truncateSuffix _ => inferInstanceAs (Decidable (∀ _ ∈ _, _))
  | .truncatePrefix _ => inferInstanceAs (Decidable (_ → _))
  | .applySnapshot _ => .isTrue trivial

/-- What the log shows at an index: nothing, or the entry that a batch has there, whose frame is
stored in full. -/
inductive ShownAt (log : DiskRaftLog) (index : Int) : Option LogEntry → Prop where
  | absent (missing : log.index.find? index = none) : ShownAt log index none
  | present {entry : LogEntry} {indexed : IndexEntry} {batch : List LogEntry}
      (found : log.index.find? index = some indexed) (writable : Writable batch)
      (small : batch.length ≤ kMaxBatchEntries) (stored : frame batch <+: log.files.data.drop indexed.offset)
      (length : indexed.batchLength = (frame batch).length) (read : firstAt batch index = some entry) :
      ShownAt log index (some entry)

variable {log after : DiskRaftLog} {index : Int} {shown : Option LogEntry}

section

variable (shows : log.ShownAt index shown)

include shows

theorem ShownAt.entryAt : log.entryAt index = shown := by
  unfold DiskRaftLog.entryAt
  cases shows with
  | absent missing => rw [missing]
  | present found writable small stored length read =>
    rw [found]
    dsimp only
    rw [readBatch_of_stored writable stored, if_pos small]
    exact read

theorem ShownAt.key (absent : index ∉ log.index.keys) : shown = none := by
  cases shows with
  | absent => rfl
  | present found => exact absurd (mem_keys_iff_isSome.mpr (by rw [found]; rfl)) absent

theorem ShownAt.keep (found : after.index.find? index = log.index.find? index)
    (kept : ∀ indexed, log.index.find? index = some indexed → ∀ bytes : Bytes,
      indexed.batchLength = bytes.length → bytes <+: log.files.data.drop indexed.offset →
        bytes <+: after.files.data.drop indexed.offset) :
    after.ShownAt index shown := by
  cases shows with
  | absent missing => exact .absent (found.trans missing)
  | present stands writable small stored length read =>
    exact .present (found.trans stands) writable small (kept _ stands _ length stored) length read

theorem ShownAt.truncateSuffixLocked {fromIndex : Int} (below : index < fromIndex)
    (keeps : index ∈ log.index.keys → log.Keeps fromIndex index) :
    (log.truncateSuffixLocked fromIndex).ShownAt index shown := by
  by_cases known : index ∈ log.index.keys
  · obtain ⟨inside, cut⟩ := keeps known
    rw [DiskRaftLog.truncateSuffixLocked, if_neg (Int.not_le.mpr inside)]
    refine shows.keep ?_ ?_
    · dsimp only [writeMeta]
      rw [find?_filter, if_pos (decide_eq_true below)]
    · intro indexed stands bytes length stored
      exact stored_ftruncate stored (length ▸ cut indexed stands)
  · obtain rfl := shows.key known
    refine .absent (find?_eq_none_iff_not_mem_keys.mpr fun member => known ?_)
    revert member
    unfold DiskRaftLog.truncateSuffixLocked
    split
    · exact fun member => absurd member mem_keys_empty
    · exact fun member => (mem_keys_filter.mp member).1

end

theorem truncateSuffixLocked_absent {fromIndex : Int} (above : fromIndex ≤ index) :
    (log.truncateSuffixLocked fromIndex).index.find? index = none := by
  unfold DiskRaftLog.truncateSuffixLocked
  split
  · exact find?_empty
  · dsimp only [writeMeta]
    rw [find?_filter, if_neg (by simpa using above)]

theorem truncateSuffixLocked_size (fromIndex : Int) :
    (log.truncateSuffixLocked fromIndex).dataFileSize = (log.truncateSuffixLocked fromIndex).files.data.length := by
  unfold DiskRaftLog.truncateSuffixLocked
  split
  · rfl
  · exact (length_ftruncate _ _).symm

theorem cutBehind_size (size : log.dataFileSize = log.files.data.length) (previous : Int) :
    (log.cutBehind previous).dataFileSize = (log.cutBehind previous).files.data.length := by
  unfold cutBehind
  split
  · exact truncateSuffixLocked_size (previous + 1)
  · exact size

theorem writeBatch_shows (size : log.dataFileSize = log.files.data.length) {first : LogEntry} {rest : List LogEntry}
    (writable : Writable (first :: rest)) (small : (first :: rest).length ≤ kMaxBatchEntries) {entry : LogEntry}
    (read : firstAt (first :: rest) index = some entry) : (log.writeBatch first rest).ShownAt index (some entry) := by
  rcases find?_foldl_insert LogEntry.index
    (fun entry => IndexEntry.mk entry.index log.dataFileSize entry.term (frame (first :: rest)).length)
    (first :: rest) log.index index with ⟨other, member, same, stands⟩ | ⟨missing, -⟩
  · refine .present stands writable small ?_ rfl read
    simp [DiskRaftLog.writeBatch, size]
  · have own : entry.index = index := by simpa using List.find?_some read
    exact absurd own (missing entry (List.mem_of_find?_eq_some read))

theorem ShownAt.writeBatch (shows : log.ShownAt index shown) {first : LogEntry} {rest : List LogEntry}
    (outside : ∀ entry ∈ first :: rest, entry.index ≠ index) : (log.writeBatch first rest).ShownAt index shown := by
  rcases find?_foldl_insert LogEntry.index
    (fun entry => IndexEntry.mk entry.index log.dataFileSize entry.term (frame (first :: rest)).length)
    (first :: rest) log.index index with ⟨other, member, same, -⟩ | ⟨-, stands⟩
  · exact absurd same (outside other member)
  · exact shows.keep stands fun _ _ _ _ stored => stored_append stored _

/-- The log shows what was appended, and knows where the data file ends. -/
structure Shows (log : DiskRaftLog) (appended : Int → Option LogEntry) : Prop where
  size : log.dataFileSize = log.files.data.length
  shown : ∀ index, log.ShownAt index (appended index)

variable {appended : Int → Option LogEntry}

variable {entries : List LogEntry}

theorem firstAt_eq_none_iff :
    firstAt entries index = none ↔ ∀ entry ∈ entries, entry.index ≠ index := by
  simp [firstAt, List.find?_eq_none]

theorem lastAt_eq_none_iff :
    lastAt entries index = none ↔ ∀ entry ∈ entries, entry.index ≠ index := by
  simp [lastAt, firstAt_eq_none_iff]

section

variable (shows : log.Shows appended)
include shows

theorem Shows.cutBehind {previous : Int} (below : index ≤ previous)
    (keeps : previous < log.lastIndex → index ∈ log.index.keys → log.Keeps (previous + 1) index) :
    (log.cutBehind previous).ShownAt index (appended index) := by
  unfold DiskRaftLog.cutBehind
  split
  next cut => exact (shows.shown index).truncateSuffixLocked (by omega) (keeps cut)
  next => exact shows.shown index

section

variable {previous previousTerm : Int} {entries : List LogEntry}
  (batched : (DiskLogCall.append previous previousTerm entries).Batched)
include batched

theorem Shows.writes (writes : log.Writes previous previousTerm entries)
    (faithful : log.CallsFaithful (.append previous previousTerm entries)) :
    (log.append none previous previousTerm entries).1.Shows
      (log.appendedAfter appended (.append previous previousTerm entries)) := by
  obtain ⟨inRange, small⟩ := batched
  obtain ⟨single, outside⟩ := faithful.1 writes
  obtain ⟨nonempty, accepted, fits⟩ := writes
  cases entries with
  | nil => exact absurd rfl nonempty
  | cons first rest =>
    rw [append_written ⟨nonempty, accepted, fits⟩]
    have size := cutBehind_size shows.size previous
    refine ⟨by simp [DiskRaftLog.writeBatch, size], ?_⟩
    intro index
    rw [appendedAfter, if_pos ⟨nonempty, accepted, fits⟩]
    cases found : lastAt (first :: rest) index with
    | some entry =>
      have own : entry.index = index := by simpa using List.find?_some found
      have member := List.mem_reverse.mp (List.mem_of_find?_eq_some found)
      have same := single entry member
      rw [own, found] at same
      exact writeBatch_shows size ⟨inRange, fits⟩ small same
    | none =>
      have others := lastAt_eq_none_iff.mp found
      rw [Option.none_or]
      split
      next below =>
        refine (shows.cutBehind below fun cut known => ?_).writeBatch others
        have kept := outside index known others
        rw [if_pos cut] at kept
        exact kept below
      next above =>
        -- Nothing is left behind the previous entry, whether the log was cut or ends there.
        refine (ShownAt.absent ?_).writeBatch others
        unfold DiskRaftLog.cutBehind
        split
        next => exact truncateSuffixLocked_absent (by omega)
        next whole =>
          refine find?_eq_none_iff_not_mem_keys.mpr fun known => above ?_
          have kept := outside index known others
          rwa [if_neg whole] at kept

theorem Shows.append (faithful : log.CallsFaithful (.append previous previousTerm entries)) :
    (log.append none previous previousTerm entries).1.Shows
      (log.appendedAfter appended (.append previous previousTerm entries)) := by
  by_cases writes : log.Writes previous previousTerm entries
  · exact shows.writes batched writes faithful
  · have same : log.appendedAfter appended (.append previous previousTerm entries) = appended :=
      funext fun index => if_neg writes
    rw [same]
    cases entries with
    | nil => exact shows
    | cons first rest =>
      by_cases refused : log.Refuses previous previousTerm
      · rw [append_refused refused]
        exact shows
      · have large : log.TooLarge previous previousTerm (first :: rest) := by
          refine ⟨List.cons_ne_nil first rest, refused, ?_⟩
          by_contra fits
          exact writes ⟨List.cons_ne_nil first rest, refused, Nat.not_lt.mp fits⟩
        have kept := faithful.2 large
        rw [append_large large]
        refine ⟨cutBehind_size shows.size previous, fun index => ?_⟩
        by_cases below : index ≤ previous
        · exact shows.cutBehind below fun cut known => (kept cut index known).2
        · unfold DiskRaftLog.cutBehind
          split
          next cut =>
            have unknown : index ∉ log.index.keys := fun known => below (kept cut index known).1
            rw [(shows.shown index).key unknown]
            exact .absent (truncateSuffixLocked_absent (by omega))
          next => exact shows.shown index

end

theorem Shows.truncateSuffix {fromIndex : Int} (faithful : log.CallsFaithful (.truncateSuffix fromIndex)) :
    (log.truncateSuffix fromIndex).Shows (log.appendedAfter appended (.truncateSuffix fromIndex)) := by
  refine ⟨truncateSuffixLocked_size fromIndex, fun index => ?_⟩
  rw [appendedAfter]
  split
  next below => exact (shows.shown index).truncateSuffixLocked below fun known => faithful index known below
  next above => exact .absent (truncateSuffixLocked_absent (Int.not_lt.mp above))

theorem Shows.truncatePrefix {firstIndex : Int} (faithful : log.CallsFaithful (.truncatePrefix firstIndex)) :
    (log.truncatePrefix firstIndex).Shows (log.appendedAfter appended (.truncatePrefix firstIndex)) := by
  by_cases low : firstIndex ≤ log.firstIndex
  · rw [DiskRaftLog.truncatePrefix, if_pos low]
    refine ⟨shows.size, fun index => ?_⟩
    rw [appendedAfter]
    split
    next => exact shows.shown index
    next below =>
      have unknown : index ∉ log.index.keys := fun known => below (faithful low index known)
      exact .absent (find?_eq_none_iff_not_mem_keys.mpr unknown)
  · rw [DiskRaftLog.truncatePrefix, if_neg low]
    refine ⟨shows.size, fun index => ?_⟩
    rw [appendedAfter]
    by_cases kept : firstIndex ≤ index
    · rw [if_pos kept]
      refine (shows.shown index).keep ?_ fun _ _ _ _ stored => stored
      dsimp only [writeMeta]
      rw [find?_filter, if_pos (decide_eq_true kept)]
    · rw [if_neg kept]
      refine .absent ?_
      dsimp only [writeMeta]
      rw [find?_filter, if_neg (by simpa using kept)]

theorem Shows.applySnapshot (snapshot : RaftSnapshot) :
    (log.applySnapshot snapshot).Shows (log.appendedAfter appended (.applySnapshot snapshot)) := by
  unfold DiskRaftLog.applySnapshot
  split
  next invalid =>
    refine ⟨shows.size, fun index => ?_⟩
    rw [appendedAfter, if_neg fun both => by simp [both.1] at invalid]
    exact shows.shown index
  next valid =>
    let keep := fun key => decide (snapshot.lastIncludedIndex < key)
    have filtered : ∀ index, ShownAt { log with index := log.index.filter keep } index
        (log.appendedAfter appended (.applySnapshot snapshot) index) := by
      intro index
      rw [appendedAfter]
      split
      next gone =>
        refine .absent ?_
        dsimp only
        rw [find?_filter, if_neg (by simpa [keep] using gone.2)]
      next left =>
        have above : keep index = true := by
          by_contra below
          exact left ⟨by simpa using valid, by simpa [keep] using below⟩
        refine (shows.shown index).keep ?_ fun _ _ _ _ stored => stored
        dsimp only
        rw [find?_filter, if_pos above]
    dsimp only
    split
    next empty =>
      -- Nothing is left of the index, so nothing is lost with the file.
      refine ⟨rfl, fun index => (filtered index).keep rfl ?_⟩
      intro indexed stands
      exact absurd (mem_keys.mpr ⟨indexed, find?_eq_some_iff.mp stands⟩) (isEmpty_entries_iff.mp empty index)
    next => exact ⟨shows.size, fun index => (filtered index).keep rfl fun _ _ _ _ stored => stored⟩

theorem Shows.step {call : DiskLogCall} (batched : call.Batched)
    (faithful : log.CallsFaithful call) : (log.step call).Shows (log.appendedAfter appended call) := by
  cases call with
  | append => exact shows.append batched faithful
  | truncateSuffix => exact shows.truncateSuffix faithful
  | truncatePrefix => exact shows.truncatePrefix faithful
  | applySnapshot snapshot => exact shows.applySnapshot snapshot

theorem Shows.run {calls : List DiskLogCall} (batched : ∀ call ∈ calls, call.Batched)
    (faithful : CallsMeet CallsFaithful log calls) : (log.run calls).Shows (log.appendedFrom appended calls) := by
  induction calls generalizing log appended with
  | nil => exact shows
  | cons call calls ih =>
    refine ih (shows.step (batched call List.mem_cons_self) faithful.1) ?_ faithful.2
    exact fun later member => batched later (List.mem_cons_of_mem call member)

end

theorem fresh_shows : fresh.Shows fun _ => none := ⟨rfl, fun _ => .absent find?_empty⟩

/-- All through a session whose calls remove just the entries they are asked to remove, a read
returns the last entry that was appended at its index and not removed since. -/
theorem entryAt_eq_appended (calls : List DiskLogCall) (batched : ∀ call ∈ calls, call.Batched)
    (faithful : CallsMeet CallsFaithful fresh calls) :
    ∀ reached, reached <+: calls → ∀ index, (fresh.run reached).entryAt index = appendedEntries reached index := by
  intro reached before index
  refine ((fresh_shows.run ?_ (faithful.of_prefix before)).shown index).entryAt
  exact fun call member => batched call (before.subset member)

/-- Three kinds of commands, a cut in the middle of a batch, another batch in its place, and both ends
removed. -/
def mixedCalls : List DiskLogCall :=
  [ .append 0 0 [⟨1, 1, .noOp⟩, ⟨1, 2, .user ⟨[7, 8]⟩⟩, ⟨1, 3, .noOp⟩]
  , .append 2 1 [⟨2, 3, .configChange { newMembers := [1, 2], jointConsensus := true, oldMembers := [1] }⟩,
      ⟨2, 4, .noOp⟩]
  , .truncateSuffix 4
  , .truncatePrefix 2
  , .applySnapshot { filePath := "snapshot", lastIncludedIndex := 2, lastIncludedTerm := 1 } ]

theorem entryAt_eq_appended_mixedCalls : CallsMeet CallsFaithful fresh mixedCalls ∧
    ∀ reached, reached <+: mixedCalls → ∀ index, (fresh.run reached).entryAt index = appendedEntries reached index :=
  ⟨by decide +kernel, entryAt_eq_appended mixedCalls (by decide) (by decide +kernel)⟩

theorem entryAt_of_oversized (nonempty : entries ≠ [])
    (large : kMaxBatchBytes < (serializeBatch entries).length) :
    (fresh.run [.append 0 0 [⟨1, 1, .noOp⟩], .append 0 0 entries]).entryAt 1 = none ∧
      appendedEntries [.append 0 0 [⟨1, 1, .noOp⟩], .append 0 0 entries] 1 = some ⟨1, 1, .noOp⟩ := by
  let stored := fresh.step (.append 0 0 [⟨1, 1, .noOp⟩])
  cases entries with
  | nil => exact absurd rfl nonempty
  | cons first rest =>
    have refused : stored.TooLarge 0 0 (first :: rest) :=
      ⟨nonempty, fun refused => absurd refused.1 (lt_irrefl 0), large⟩
    constructor
    · have emptied : fresh.run [.append 0 0 [⟨1, 1, .noOp⟩], .append 0 0 (first :: rest)] = stored.cutBehind 0 :=
        congrArg Prod.fst (append_large refused none)
      rw [emptied]
      decide +kernel
    · have kept : appendedEntries [.append 0 0 [⟨1, 1, .noOp⟩], .append 0 0 (first :: rest)] 1 =
          fresh.appendedAfter (fun _ => none) (.append 0 0 [⟨1, 1, .noOp⟩]) 1 :=
        if_neg fun writes => Nat.not_lt.mpr writes.2.2 large
      rw [kept]
      decide +kernel

/-- A batch of more than 64 MiB over the only entry. -/
theorem entryAt_ne_appended : ¬∀ calls : List DiskLogCall, (∀ call ∈ calls, call.Batched) →
    ∀ index, (fresh.run calls).entryAt index = appendedEntries calls index := by
  intro all
  obtain ⟨payload, size⟩ : ∃ payload : Bytes, payload.length = kMaxBatchBytes :=
    ⟨List.replicate kMaxBatchBytes 0, List.length_replicate⟩
  have bytes : (serializeBatch [⟨2, 1, .user ⟨payload⟩⟩]).length = 21 + kMaxBatchBytes := by
    simp only [serializeBatch, serializeEntry, List.flatMap_cons, List.flatMap_nil, List.append_nil,
      List.length_append, List.length_cons, length_encodeInt, length_encode, RaftCommand.serialize, size]
    omega
  obtain ⟨gone, standing⟩ := @entryAt_of_oversized [⟨2, 1, .user ⟨payload⟩⟩] (List.cons_ne_nil _ _) (by omega)
  have read := all [.append 0 0 [⟨1, 1, .noOp⟩], .append 0 0 [⟨2, 1, .user ⟨payload⟩⟩]] ?_ 1
  · rw [gone, standing] at read
    cases read
  · intro call member
    rcases List.mem_pair.mp member with rfl | rfl
    · decide
    · refine ⟨fun entry inside => ?_, Nat.le_add_left 1 _⟩
      rw [List.mem_singleton.mp inside]
      exact ⟨show FitsInt 8 2 by decide, show FitsInt 8 1 by decide, trivial⟩

end DiskRaftLog

end TorrentMq.Consensus
