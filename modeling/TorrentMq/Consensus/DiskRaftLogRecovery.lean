import TorrentMq.Consensus.DiskRaftLogRequests

/-! What is left of a log when it is opened again. The index file is only
rewritten when entries are removed from the end, the length of a batch is not
stored in it, and the snapshot is not read back. -/

set_option autoImplicit false

namespace TorrentMq.Consensus

open Bytes OrderedMap DiskRaftLog

def DiskLogCall.RealEntries : DiskLogCall → Prop
  | .append _ _ entries =>
    entries.length ≤ kMaxBatchEntries ∧ ∀ entry ∈ entries, entry.term ≠ kNoTerm
  | _ => True

instance : (call : DiskLogCall) → Decidable call.RealEntries
  | .append _ _ _ => inferInstanceAs (Decidable (_ ∧ _))
  | .truncateSuffix _ | .truncatePrefix _ | .applySnapshot _ => .isTrue trivial

namespace DiskRaftLog

def reopened (log : DiskRaftLog) : DiskRaftLog := openOver log.shutdown

/-- The reopened log answers as the log before, and cutting it keeps every
entry below the cut. -/
structure Survives (log : DiskRaftLog) : Prop where
  firstIndex : log.reopened.firstIndex = log.firstIndex
  lastIndex : log.reopened.lastIndex = log.lastIndex
  termAt : ∀ index, log.reopened.termAt index = log.termAt index
  entryAt : ∀ index, log.reopened.entryAt index = log.entryAt index
  truncates : ∀ fromIndex index entry, index < fromIndex → log.reopened.entryAt index = some entry →
    (log.reopened.truncateSuffix fromIndex).entryAt index = some entry

/-- Nothing to recover: no entry, no record of one, and no snapshot with a term. -/
def Blank (log : DiskRaftLog) : Prop :=
  log.index.entries = [] ∧ log.files.records = [] ∧
    ∀ snapshot ∈ log.snapshot, snapshot.lastIncludedTerm = kNoTerm

instance (log : DiskRaftLog) : Decidable log.Blank := inferInstanceAs (Decidable (_ ∧ _ ∧ _))

theorem recoverIndex_append (records : List IndexRecord) (record : IndexRecord) :
    recoverIndex (records ++ [record]) = (recoverIndex records).insert record.index
      { index := record.index, offset := record.offset, term := record.term } := by
  simp [recoverIndex, List.foldl_append]

theorem mem_recoverIndex {records : List IndexRecord} {indexed : Int × IndexEntry}
    (member : indexed ∈ (recoverIndex records).entries) :
    indexed.2.batchLength = 0 ∧ ∃ record ∈ records, record.index = indexed.1 ∧ record.term = indexed.2.term := by
  induction records using List.reverseRecOn with
  | nil => cases member
  | append_singleton records record ih =>
    rw [recoverIndex_append] at member
    rcases mem_insert.mp member with rfl | ⟨old, -⟩
    · exact ⟨rfl, record, by simp, rfl, rfl⟩
    · obtain ⟨length, other, inside, same⟩ := ih old
      exact ⟨length, other, by simp [inside], same⟩

theorem mem_keys_recoverIndex {records : List IndexRecord} {record : IndexRecord}
    (member : record ∈ records) : record.index ∈ (recoverIndex records).keys := by
  induction records using List.reverseRecOn with
  | nil => cases member
  | append_singleton records last ih =>
    rw [recoverIndex_append, mem_keys_insert]
    rcases List.mem_append.mp member with old | new
    · exact .inr (ih old)
    · exact .inl (by rw [List.mem_singleton.mp new])

theorem openOver_firstIndex_le {files : LogFiles} {key : Int} (member : key ∈ (recoverIndex files.records).keys) :
    (openOver files).firstIndex ≤ key ∧ (openOver files).firstIndex ∈ (recoverIndex files.records).keys := by
  obtain ⟨value, stored⟩ := mem_keys.mp member
  cases found : (recoverIndex files.records).first? with
  | none =>
    rw [first?, List.head?_eq_none_iff] at found
    rw [found] at stored
    cases stored
  | some front =>
    obtain ⟨inside, least⟩ := first?_spec found
    have first : (openOver files).firstIndex = front.1 := by
      simp [openOver, found]
    rw [first]
    exact ⟨least _ stored, mem_keys.mpr ⟨front.2, inside⟩⟩

variable {log : DiskRaftLog}

theorem Blank.survives (blank : log.Blank) : log.Survives := by
  obtain ⟨empty, unrecorded, unset⟩ := blank
  have index : log.reopened.index = .empty := by
    simp [reopened, openOver, shutdown, writeMeta, recoverIndex, unrecorded]
  have missing : ∀ key, log.index.find? key = none := by
    intro key
    rw [find?_eq_none_iff, empty]
    exact nofun
  have unread : ∀ key, log.reopened.entryAt key = none := by
    intro key
    rw [entryAt, index]
    rfl
  refine ⟨?_, ?_, ?_, ?_, ?_⟩
  · simp [reopened, openOver, shutdown, writeMeta, recoverIndex, unrecorded, OrderedMap.first?, OrderedMap.empty]
  · simp [reopened, openOver, shutdown, writeMeta, recoverIndex, unrecorded, OrderedMap.last?, OrderedMap.empty]
  · intro key
    have recovered : log.reopened.termAt key = kNoTerm := by
      rw [termAt, index]
      rfl
    rw [recovered, termAt, missing]
    cases taken : log.snapshot with
    | none => rfl
    | some snapshot =>
      dsimp only
      rw [unset snapshot taken]
      split <;> rfl
  · intro key
    rw [unread, entryAt, missing]
  · intro fromIndex key entry _ found
    rw [unread] at found
    cases found

/-- The first record of the index file lies at or below every indexed entry,
and below the log when there is none. -/
def FrontRecorded (log : DiskRaftLog) : Prop :=
  ∀ record ∈ log.files.records.head?,
    (∀ key ∈ log.index.keys, record.index ≤ key) ∧
      (log.index.entries = [] → record.index < log.firstIndex)

def AboveSnapshot (log : DiskRaftLog) : Prop :=
  ∃ snapshot ∈ log.snapshot, snapshot.lastIncludedIndex < log.firstIndex

/-- What a session with real entries keeps beside the frames. -/
structure Recorded (log : DiskRaftLog) : Prop where
  sound : log.Sound
  ordered : log.firstIndex ≤ log.lastIndex + 1
  readable : ∀ key ∈ log.index.keys, log.entryAt key ≠ none
  snapshotPositive : ∀ snapshot ∈ log.snapshot, 0 < snapshot.lastIncludedIndex
  enough : log.index.size ≤ log.files.records.length
  terms : ∀ record ∈ log.files.records, record.term ≠ kNoTerm
  front : log.AboveSnapshot ∨ log.FrontRecorded

theorem fresh_recorded : fresh.Recorded where
  sound := fresh_sound
  ordered := le_refl (1 : Int)
  readable := fun _ member => absurd member mem_keys_empty
  snapshotPositive := nofun
  enough := Nat.le_refl 0
  terms := nofun
  front := .inr nofun

section

variable (recorded : log.Recorded)

include recorded

theorem Recorded.truncateSuffixLocked (fromIndex : Int) :
    (log.truncateSuffixLocked fromIndex).Recorded := by
  obtain ⟨sound, below⟩ := recorded.sound.truncateSuffixLocked fromIndex
  by_cases inside : log.firstIndex < fromIndex
  · have shape : log.truncateSuffixLocked fromIndex =
        { log with
          index := log.index.filter fun key => decide (key < fromIndex)
          lastIndex := fromIndex - 1
          dataFileSize := frontier (log.index.filter fun key => decide (key < fromIndex))
          files := { log.files with
            data := ftruncate log.files.data (frontier (log.index.filter fun key => decide (key < fromIndex)))
            records := log.files.records.take (log.index.filter fun key => decide (key < fromIndex)).size } }.writeMeta := by
      have short := List.length_filter_le (fun entry => decide (entry.1 < fromIndex)) log.index.entries
      have enough := recorded.enough
      unfold DiskRaftLog.truncateSuffixLocked
      rw [if_neg (by omega)]
      dsimp only
      rw [Nat.sub_eq_zero_of_le, List.replicate_zero, List.append_nil]
      · rfl
      · exact short.trans enough
    have old := fun key => @truncateSuffixLocked_old log recorded.sound fromIndex key inside
    rw [shape] at sound below old ⊢
    refine ⟨sound, ?_, ?_, recorded.snapshotPositive, ?_, ?_, ?_⟩
    · dsimp only [writeMeta]
      omega
    · intro key member
      rw [(old key (below key member)).2]
      exact recorded.readable key (mem_keys_filter.mp member).1
    · have short := List.length_filter_le (fun entry => decide (entry.1 < fromIndex)) log.index.entries
      have enough := recorded.enough
      dsimp only [writeMeta]
      rw [List.length_take]
      exact le_min (Nat.le_refl _) (short.trans enough)
    · intro record member
      exact recorded.terms record (List.mem_of_mem_take member)
    · rcases recorded.front with above | front
      · exact .inl above
      · refine .inr fun record first => ?_
        dsimp only [writeMeta] at first
        rw [List.head?_take] at first
        split at first
        · cases first
        next some =>
          refine ⟨fun key member => (front record first).1 key (mem_keys_filter.mp member).1, ?_⟩
          intro empty
          exact absurd (by rw [size, show (log.index.filter _).entries = [] from empty]; rfl) some
  · have shape : (log.truncateSuffixLocked fromIndex).index = .empty ∧
        (log.truncateSuffixLocked fromIndex).files.records = [] ∧
        (log.truncateSuffixLocked fromIndex).firstIndex ≤ (log.truncateSuffixLocked fromIndex).lastIndex + 1 := by
      unfold DiskRaftLog.truncateSuffixLocked
      rw [if_pos (by omega)]
      refine ⟨rfl, rfl, ?_⟩
      dsimp only [writeMeta]
      split <;> omega
    obtain ⟨empty, unrecorded, ordered⟩ := shape
    refine ⟨sound, ordered, ?_, ?_, ?_, ?_, ?_⟩
    · rw [empty]
      exact fun _ member => absurd member mem_keys_empty
    · rw [truncateSuffixLocked_snapshot]
      exact recorded.snapshotPositive
    · rw [empty]
      exact Nat.zero_le _
    · rw [unrecorded]
      exact List.forall_mem_nil _
    · refine .inr fun record first => ?_
      rw [unrecorded] at first
      cases first

theorem Recorded.cutBehind (previous : Int) :
    (log.cutBehind previous).Recorded ∧ (log.cutBehind previous).firstIndex ≤ previous + 1 := by
  unfold DiskRaftLog.cutBehind
  split
  · refine ⟨recorded.truncateSuffixLocked (previous + 1), ?_⟩
    unfold DiskRaftLog.truncateSuffixLocked
    split
    · exact le_refl (previous + 1)
    next inside => exact (not_le.mp inside).le
  · have := recorded.ordered
    exact ⟨recorded, by omega⟩

theorem Recorded.writeBatch {previous : Int} {first : LogEntry} {rest : List LogEntry}
    (nonneg : 0 ≤ previous) (writable : Writable (first :: rest)) (numbered : Numbered previous (first :: rest))
    (below : ∀ key ∈ log.index.keys, key ≤ previous) (lower : log.firstIndex ≤ previous + 1)
    (real : (DiskLogCall.append previous kNoTerm (first :: rest)).RealEntries) :
    (log.writeBatch first rest).Recorded := by
  have front : first.index = previous + 1 := (Numbered.cons_iff.mp numbered).1
  have last := numbered.index_getLast (List.cons_ne_nil first rest)
  have starts : (log.writeBatch first rest).firstIndex = log.firstIndex ∨ log.firstIndex = 0 := by
    dsimp only [DiskRaftLog.writeBatch]
    by_cases unset : log.firstIndex = 0
    · exact .inr unset
    · exact .inl (if_neg (by omega))
  refine ⟨recorded.sound.writeBatch nonneg writable numbered below, ?_, ?_, recorded.snapshotPositive, ?_, ?_, ?_⟩
  · dsimp only [DiskRaftLog.writeBatch]
    rw [last, List.length_cons]
    split <;> omega
  · intro key member
    rcases mem_keys_indexBatch.mp member with old | ⟨entry, new, rfl⟩
    · rw [(writeBatch_old recorded.sound numbered below (below key old)).2]
      exact recorded.readable key old
    · rw [(writeBatch_new recorded.sound writable numbered below new).2.mpr real.1]
      exact Option.some_ne_none entry
  · have enough := recorded.enough
    dsimp only [DiskRaftLog.writeBatch, size] at enough ⊢
    rw [indexBatch_entries numbered below]
    simp only [List.length_append, List.length_map]
    omega
  · intro record member
    rcases List.mem_append.mp member with old | new
    · exact recorded.terms record old
    · obtain ⟨entry, inside, rfl⟩ := List.mem_map.mp new
      exact real.2 entry inside
  · rcases recorded.front with ⟨snapshot, taken, above⟩ | old
    · have positive := recorded.snapshotPositive snapshot taken
      exact .inl ⟨snapshot, taken, by rw [starts.resolve_right (by omega)]; exact above⟩
    · refine .inr fun record member => ⟨fun key inside => ?_, fun empty => ?_⟩
      · dsimp only [DiskRaftLog.writeBatch] at member inside
        rw [mem_keys_indexBatch_of_numbered numbered] at inside
        cases records : log.files.records with
        | nil =>
          have none : log.index.entries = [] := by
            have enough := recorded.enough
            rw [records] at enough
            exact List.eq_nil_of_length_eq_zero (Nat.le_zero.mp enough)
          have absent : key ∉ log.index.keys := by
            rw [keys, none]
            exact List.not_mem_nil
          rw [records] at member
          obtain rfl : _ = record := Option.some.inj member
          have := inside.resolve_left absent
          dsimp only
          omega
        | cons head tail =>
          rw [records] at member
          have oldest := old record (by rw [records]; exact member)
          rcases inside with present | new
          · exact oldest.1 key present
          · by_cases empty : log.index.entries = []
            · have := oldest.2 empty
              omega
            · obtain ⟨stored, present⟩ := List.exists_mem_of_ne_nil _ empty
              have := oldest.1 stored.1 (mem_keys.mpr ⟨stored.2, present⟩)
              have := below stored.1 (mem_keys.mpr ⟨stored.2, present⟩)
              omega
      · dsimp only [DiskRaftLog.writeBatch] at empty
        rw [indexBatch_entries numbered below] at empty
        exact absurd (List.append_eq_nil_iff.mp empty).2 (List.cons_ne_nil _ _)

theorem Recorded.append {previous previousTerm : Int} {entries : List LogEntry}
    (wellFormed : (DiskLogCall.append previous previousTerm entries).WellFormed)
    (real : (DiskLogCall.append previous previousTerm entries).RealEntries) :
    (log.append none previous previousTerm entries).1.Recorded := by
  obtain ⟨nonneg, numbered, inRange⟩ := wellFormed
  obtain ⟨cut, lower⟩ := recorded.cutBehind previous
  have below := (recorded.sound.cutBehind previous).2
  rcases append_cases log previous previousTerm entries with same | ⟨first, rest, rfl, -, only | ⟨fits, written⟩⟩
  · rwa [same]
  · rwa [only]
  · rw [written]
    exact cut.writeBatch nonneg ⟨inRange, fits⟩ numbered below lower real

end

theorem readable_of_filter {log after : DiskRaftLog} (keep : Int → Bool) (index : after.index = log.index.filter keep)
    (data : after.files.data = log.files.data) (readable : ∀ key ∈ log.index.keys, log.entryAt key ≠ none) :
    ∀ key ∈ after.index.keys, after.entryAt key ≠ none := by
  intro key member
  rw [index] at member
  obtain ⟨old, kept⟩ := mem_keys_filter.mp member
  have same : after.entryAt key = log.entryAt key := by
    simp only [entryAt, index, data, find?_filter, if_pos kept]
  rw [same]
  exact readable key old

theorem Recorded.truncatePrefix (recorded : log.Recorded) (firstIndex : Int) :
    (log.truncatePrefix firstIndex).Recorded := by
  have sound := recorded.sound.truncatePrefix firstIndex
  unfold DiskRaftLog.truncatePrefix at sound ⊢
  split
  · exact recorded
  next raised =>
    rw [if_neg raised] at sound
    have ordered := recorded.ordered
    refine ⟨sound, ?_, @readable_of_filter log _ (fun key => decide (firstIndex ≤ key)) rfl rfl
      recorded.readable, recorded.snapshotPositive, (List.length_filter_le _ _).trans recorded.enough, recorded.terms, ?_⟩
    · dsimp only [writeMeta]
      split <;> omega
    · rcases recorded.front with ⟨snapshot, taken, above⟩ | old
      · exact .inl ⟨snapshot, taken, above.trans (not_le.mp raised)⟩
      · refine .inr fun record member => ?_
        obtain ⟨least, below⟩ := old record member
        refine ⟨fun key inside => least key (mem_keys_filter.mp inside).1, fun gone => ?_⟩
        dsimp only [writeMeta] at gone ⊢
        by_cases empty : log.index.entries = []
        · exact (below empty).trans (not_le.mp raised)
        · obtain ⟨stored, present⟩ := List.exists_mem_of_ne_nil _ empty
          have dropped := List.filter_eq_nil_iff.mp gone stored present
          have := least stored.1 (mem_keys.mpr ⟨stored.2, present⟩)
          simp only [decide_eq_true_eq] at dropped
          omega

theorem Recorded.applySnapshot (recorded : log.Recorded) (snapshot : RaftSnapshot) :
    (log.applySnapshot snapshot).Recorded := by
  have sound := recorded.sound.applySnapshot snapshot
  unfold DiskRaftLog.applySnapshot at sound ⊢
  split
  · exact recorded
  next valid =>
    rw [if_neg valid] at sound
    have positive : 0 < snapshot.lastIncludedIndex := by
      simp only [RaftSnapshot.isValid, Bool.not_eq_true', Bool.not_eq_false, Bool.and_eq_true,
        decide_eq_true_eq] at valid
      exact valid.2
    have newest : ∀ taken ∈ some snapshot, 0 < RaftSnapshot.lastIncludedIndex taken := by
      rintro taken ⟨⟩
      exact positive
    revert sound
    dsimp only
    split
    next empty =>
      intro sound
      refine ⟨sound, le_refl _, ?_, newest, (List.length_filter_le _ _).trans recorded.enough,
        recorded.terms, .inl ⟨snapshot, rfl, Int.lt_add_one_of_le (le_refl _)⟩⟩
      exact fun key member => absurd member (isEmpty_entries_iff.mp empty key)
    next some =>
      intro sound
      refine ⟨sound, ?_, @readable_of_filter log _ (fun key => decide (snapshot.lastIncludedIndex < key))
        rfl rfl recorded.readable, newest, (List.length_filter_le _ _).trans recorded.enough, recorded.terms,
        .inl ⟨snapshot, rfl, Int.lt_add_one_of_le (le_refl _)⟩⟩
      have nonempty : (log.index.filter fun key =>
          decide (snapshot.lastIncludedIndex < key)).entries ≠ [] :=
        fun gone => some (List.isEmpty_iff.mpr gone)
      obtain ⟨stored, member⟩ := List.exists_mem_of_ne_nil _ nonempty
      have kept := sound.bounded stored.1 (mem_keys.mpr ⟨stored.2, member⟩)
      have above := of_decide_eq_true (mem_filter.mp member).2
      dsimp only [writeMeta] at kept ⊢
      omega

theorem Recorded.step (recorded : log.Recorded) {call : DiskLogCall}
    (wellFormed : call.WellFormed) (real : call.RealEntries) : (log.step call).Recorded := by
  cases call with
  | append => exact recorded.append wellFormed real
  | truncateSuffix fromIndex => exact recorded.truncateSuffixLocked fromIndex
  | truncatePrefix firstIndex => exact recorded.truncatePrefix firstIndex
  | applySnapshot snapshot => exact recorded.applySnapshot snapshot

theorem frontier_filter_of_mem {index : OrderedMap Int IndexEntry} {key : Int} {stored : IndexEntry}
    (member : (key, stored) ∈ index.entries) :
    frontier (index.filter fun other => decide (other < key + 1)) = stored.offset + stored.batchLength := by
  have kept : (key, stored) ∈ (index.filter fun other => decide (other < key + 1)).entries :=
    mem_filter.mpr ⟨member, decide_eq_true (Int.lt_add_one_of_le (le_refl key))⟩
  cases last : (index.filter fun other => decide (other < key + 1)).last? with
  | none =>
    rw [last?, List.getLast?_eq_none_iff] at last
    rw [last] at kept
    cases kept
  | some final =>
    obtain ⟨inside, greatest⟩ := last?_spec last
    obtain ⟨old, below⟩ := mem_filter.mp inside
    have above := greatest _ kept
    have same : final.1 = key := by
      simp only [decide_eq_true_eq] at below
      omega
    have value : final.2 = stored := by
      have found := find?_eq_some_iff.mpr member
      rw [← same, find?_eq_some_iff.mpr old] at found
      exact Option.some.inj found
    simp only [frontier, last, Option.map_some, Option.getD_some, value]

theorem readBatch_at_end (data : Bytes) : readBatch data data.length = [] := by
  simp [readBatch, pread]

theorem truncateSuffix_recovered {files : LogFiles} {key : Int} {entry : LogEntry}
    (found : (openOver files).entryAt key = some entry) :
    ((openOver files).truncateSuffix (key + 1)).entryAt key = none := by
  cases stored : (recoverIndex files.records).find? key with
  | none =>
    have unread : (openOver files).entryAt key = none := by
      simp only [entryAt, openOver, stored]
    rw [unread] at found
    cases found
  | some indexed =>
    have member := find?_eq_some_iff.mp stored
    have inside := (openOver_firstIndex_le (mem_keys.mpr ⟨indexed, member⟩)).1
    have cut : frontier ((recoverIndex files.records).filter fun other => decide (other < key + 1)) =
        indexed.offset := by
      rw [frontier_filter_of_mem member, (mem_recoverIndex member).1]
      rfl
    have kept := @find?_truncateSuffixLocked (openOver files) (key + 1) key (by omega) (by omega)
    have data : ((openOver files).truncateSuffix (key + 1)).files.data = ftruncate files.data indexed.offset := by
      unfold truncateSuffix truncateSuffixLocked
      rw [if_neg (by omega), ← cut]
      rfl
    have lost : readBatch (ftruncate files.data indexed.offset) indexed.offset = [] := by
      have ended := readBatch_at_end (ftruncate files.data indexed.offset)
      rwa [length_ftruncate] at ended
    rw [entryAt, data, show ((openOver files).truncateSuffix (key + 1)).index.find? key =
      some indexed from kept.trans stored]
    dsimp only
    rw [lost]
    rfl

theorem Recorded.blank_of_survives (recorded : log.Recorded) (survives : log.Survives) : log.Blank := by
  have empty : log.index.entries = [] := by
    by_contra some
    obtain ⟨stored, member⟩ := List.exists_mem_of_ne_nil _ some
    have readable := recorded.readable stored.1 (mem_keys.mpr ⟨stored.2, member⟩)
    obtain ⟨entry, found⟩ := Option.ne_none_iff_exists'.mp readable
    have recovered := (survives.entryAt stored.1).trans found
    have kept := survives.truncates (stored.1 + 1) stored.1 entry (by omega) recovered
    rw [show (log.reopened.truncateSuffix (stored.1 + 1)).entryAt stored.1 = none from
      truncateSuffix_recovered recovered] at kept
    cases kept
  have missing : ∀ key, log.index.find? key = none := by
    intro key
    rw [find?_eq_none_iff, empty]
    exact nofun
  have unrecorded : log.files.records = [] := by
    by_contra some
    obtain ⟨head, tail, records⟩ := List.exists_cons_of_ne_nil some
    have present : head.index ∈ (recoverIndex log.files.records).keys :=
      mem_keys_recoverIndex (by rw [records]; exact List.mem_cons_self)
    obtain ⟨least, stored⟩ := @openOver_firstIndex_le log.shutdown head.index present
    rw [show (openOver log.shutdown).firstIndex = log.firstIndex from survives.firstIndex] at least stored
    obtain ⟨indexed, member⟩ := mem_keys.mp stored
    obtain ⟨-, record, inside, -, term⟩ := mem_recoverIndex member
    have real : log.termAt log.firstIndex ≠ kNoTerm := by
      rw [← survives.termAt]
      have found : log.reopened.termAt log.firstIndex = indexed.term := by
        have lookup : log.reopened.index.find? log.firstIndex = Option.some indexed :=
          find?_eq_some_iff.mpr member
        rw [termAt, lookup]
        rfl
      rw [found, ← term]
      exact recorded.terms record inside
    have stands := termAt_of_absent (find?_eq_none_iff_not_mem_keys.mp (missing log.firstIndex)) real
    rcases recorded.front with ⟨snapshot, taken, above⟩ | front
    · rw [show log.snapshot = Option.some snapshot from taken, Option.map_some] at stands
      have := Option.some.inj stands
      omega
    · have := (front head (by rw [records]; rfl)).2 empty
      omega
  refine ⟨empty, unrecorded, fun snapshot taken => ?_⟩
  have same := survives.termAt snapshot.lastIncludedIndex
  have recovered : log.reopened.termAt snapshot.lastIncludedIndex = kNoTerm := by
    simp [termAt, reopened, openOver, shutdown, writeMeta, recoverIndex, unrecorded,
      OrderedMap.find?, OrderedMap.empty]
  rw [recovered, termAt, show log.snapshot = some snapshot from taken] at same
  dsimp only at same
  rw [if_pos rfl] at same
  exact same.symm

/-- After every session with real entries, the log survives a clean shutdown
exactly when there was nothing in it to recover. -/
theorem survives_iff_blank (calls : List DiskLogCall) (wellFormed : ∀ call ∈ calls, call.WellFormed)
    (real : ∀ call ∈ calls, call.RealEntries) :
    (fresh.run calls).Survives ↔ (fresh.run calls).Blank := by
  have meets : CallsMeet (fun _ call => call.WellFormed ∧ call.RealEntries) fresh calls :=
    Runs.meets_of_forall (fun call member => ⟨wellFormed call member, real call member⟩) fresh
  have recorded : (fresh.run calls).Recorded :=
    meets.preserves Recorded (fun _ _ condition recorded => recorded.step condition.1 condition.2) fresh_recorded
  exact ⟨recorded.blank_of_survives, Blank.survives⟩

def emptiedCalls : List DiskLogCall :=
  [.append 0 0 [⟨1, 1, .noOp⟩, ⟨1, 2, .noOp⟩], .truncateSuffix 1]

theorem survives_emptiedCalls : (fresh.run emptiedCalls).Blank ∧ (fresh.run emptiedCalls).Survives :=
  ⟨by decide +kernel, (survives_iff_blank emptiedCalls (by decide) (by decide)).mpr (by decide +kernel)⟩

/-- One entry is recovered, and lost by the first cut behind it. -/
theorem entry_lost_after_reopen :
    (fresh.run [.append 0 0 [⟨1, 1, .noOp⟩]]).reopened.entryAt 1 = some ⟨1, 1, .noOp⟩ ∧
      ((fresh.run [.append 0 0 [⟨1, 1, .noOp⟩]]).reopened.truncateSuffix 2).entryAt 1 = none ∧
      ¬(fresh.run [.append 0 0 [⟨1, 1, .noOp⟩]]).Survives := by
  have found : (fresh.run [.append 0 0 [⟨1, 1, .noOp⟩]]).reopened.entryAt 1 = some ⟨1, 1, .noOp⟩ := by
    decide +kernel
  have lost : ((fresh.run [.append 0 0 [⟨1, 1, .noOp⟩]]).reopened.truncateSuffix 2).entryAt 1 = none := by
    decide +kernel
  refine ⟨found, lost, fun survives => ?_⟩
  have kept := survives.truncates 2 1 _ (by decide) found
  rw [lost] at kept
  cases kept

end DiskRaftLog

end TorrentMq.Consensus
