import Mathlib.Data.List.Sort
import TorrentMq.Consensus.DiskRaftLogStorage

/-! What a read of a range returns. The walk takes one step for every index, and
reads the whole batch of each. -/

set_option autoImplicit false

namespace TorrentMq.Consensus

open Bytes OrderedMap

section

variable {base : Int} {entries : List LogEntry} (numbered : Numbered base entries)

include numbered

theorem Numbered.ascending :
    entries.Pairwise (fun left right => left.index < right.index) := by
  induction entries generalizing base with
  | nil => exact .nil
  | cons entry entries ih =>
    obtain ⟨head, tail⟩ := Numbered.cons_iff.mp numbered
    refine List.pairwise_cons.mpr ⟨?_, ih tail⟩
    intro later member
    have := (tail.index_le member).1
    omega

theorem Numbered.between
    {left right : LogEntry} (first : left ∈ entries) (last : right ∈ entries) {index : Int}
    (lower : left.index ≤ index) (upper : index ≤ right.index) : ∃ entry ∈ entries, entry.index = index := by
  have above := (numbered.index_le first).1
  have below := (numbered.index_le last).2
  exact numbered.exists_mem (by omega) (by omega)

end

theorem numbered_of_ascending {entries : List LogEntry} {base : Int}
    (ascending : entries.Pairwise fun left right => left.index < right.index) (count : Nat)
    (inside : ∀ entry ∈ entries, base < entry.index ∧ entry.index ≤ base + count)
    (every : ∀ index, base < index → index ≤ base + count → ∃ entry ∈ entries, entry.index = index) :
    Numbered base entries ∧ entries.length = count := by
  have indices : entries.map LogEntry.index =
      (List.range count).map fun position : Nat => base + 1 + (position : Int) := by
    refine List.Subset.antisymm_of_pairwise (List.pairwise_map.mpr ascending) ?_ ?_ ?_
    · rw [List.pairwise_map]
      exact List.pairwise_lt_range.imp (by intro left right lower; omega)
    · intro index listed
      obtain ⟨entry, member, rfl⟩ := List.mem_map.mp listed
      have := inside entry member
      exact List.mem_map.mpr ⟨(entry.index - base - 1).toNat, List.mem_range.mpr (by omega), by omega⟩
    · intro index listed
      obtain ⟨position, below, rfl⟩ := List.mem_map.mp listed
      have := List.mem_range.mp below
      obtain ⟨entry, member, same⟩ := every (base + 1 + position) (by omega) (by omega)
      exact List.mem_map.mpr ⟨entry, member, same⟩
  constructor
  · intro position entry found
    have stands : (entries.map LogEntry.index)[position]? = some entry.index := by simp [found]
    rw [indices, List.getElem?_map] at stands
    obtain ⟨other, below, value⟩ := Option.map_eq_some_iff.mp stands
    obtain ⟨short, same⟩ := List.getElem?_eq_some_iff.mp below
    rw [List.getElem_range] at same
    rw [← value, same]
  · simpa using congrArg List.length indices

namespace DiskRaftLog

/-- A live entry, and the batch it was appended with. -/
structure LiveEntry where
  entry : LogEntry
  batch : List LogEntry
  deriving DecidableEq

/-- What is live after a suffix is cut off: nothing, if the cut takes the whole log. -/
def liveCut (log : DiskRaftLog) (live : Int → Option LiveEntry) (fromIndex index : Int) : Option LiveEntry :=
  if log.firstIndex < fromIndex ∧ index < fromIndex then live index else none

/-- What an append leaves of the entries behind its previous one. -/
def liveBehind (log : DiskRaftLog) (live : Int → Option LiveEntry) (previous index : Int) : Option LiveEntry :=
  if previous < log.lastIndex then log.liveCut live (previous + 1) index else live index

/-- The entry of a batch that has the index. -/
def liveBatch (entries : List LogEntry) (index : Int) : Option LiveEntry :=
  (entries.find? fun entry => decide (entry.index = index)).map fun entry => ⟨entry, entries⟩

/-- What is live after a call: what it appends, and what it does not remove. -/
def liveAfter (log : DiskRaftLog) (live : Int → Option LiveEntry) : DiskLogCall → Int → Option LiveEntry
  | .append previous previousTerm entries, index =>
    if entries = [] ∨ 0 < previous ∧ (log.termAt previous = kNoTerm ∨ log.termAt previous ≠ previousTerm) then
      live index
    else if (serializeBatch entries).length > kMaxBatchBytes then log.liveBehind live previous index
    else (liveBatch entries index).or (log.liveBehind live previous index)
  | .truncateSuffix fromIndex, index => log.liveCut live fromIndex index
  | .truncatePrefix firstIndex, index =>
    if firstIndex ≤ log.firstIndex ∨ firstIndex ≤ index then live index else none
  | .applySnapshot snapshot, index =>
    if snapshot.isValid = true ∧ index ≤ snapshot.lastIncludedIndex then none else live index

def liveFrom (log : DiskRaftLog) (live : Int → Option LiveEntry) : List DiskLogCall → Int → Option LiveEntry
  | [] => live
  | call :: calls => (log.step call).liveFrom (log.liveAfter live call) calls

/-- What a session on an empty directory leaves live. -/
def liveEntries (calls : List DiskLogCall) : Int → Option LiveEntry := fresh.liveFrom (fun _ => none) calls

/-- The index has exactly the live entries, each at the frame of its batch. -/
inductive TrackedAt (log : DiskRaftLog) (index : Int) : Option LiveEntry → Prop where
  | absent (missing : log.index.find? index = none) : TrackedAt log index none
  | present {stored : LiveEntry} {indexed : IndexEntry} (found : log.index.find? index = some indexed)
      (frame : FrameAt log.files.data (index, indexed) stored.batch) (member : stored.entry ∈ stored.batch)
      (own : stored.entry.index = index) : TrackedAt log index (some stored)

def Tracked (log : DiskRaftLog) (live : Int → Option LiveEntry) : Prop := ∀ index, log.TrackedAt index (live index)

variable {log after : DiskRaftLog} {live : Int → Option LiveEntry} {index : Int} {stored : Option LiveEntry}

theorem TrackedAt.keep (tracked : log.TrackedAt index stored)
    (found : after.index.find? index = log.index.find? index)
    (kept : ∀ indexed, log.index.find? index = some indexed → ∀ batch,
      FrameAt log.files.data (index, indexed) batch → FrameAt after.files.data (index, indexed) batch) :
    after.TrackedAt index stored := by
  cases tracked with
  | absent missing => exact .absent (found.trans missing)
  | present stands frame member own => exact .present (found.trans stands) (kept _ stands _ frame) member own

theorem TrackedAt.filter (tracked : log.TrackedAt index stored) (keep : Int → Bool)
    (filtered : after.index = log.index.filter keep) (data : after.files.data = log.files.data) :
    after.TrackedAt index (if keep index = true then stored else none) := by
  have found : after.index.find? index = if keep index = true then log.index.find? index else none := by
    rw [filtered, find?_filter]
  split
  next kept => exact tracked.keep (by rw [found, if_pos kept]) (by rw [data]; exact fun _ _ _ frame => frame)
  next dropped => exact .absent (by rw [found, if_neg dropped])

section

variable (tracked : log.Tracked live)
include tracked

section

variable (sound : log.Sound)

include sound

theorem Tracked.truncateSuffixLocked (fromIndex : Int) :
    (log.truncateSuffixLocked fromIndex).Tracked (log.liveCut live fromIndex) := by
  intro index
  unfold liveCut
  by_cases inside : log.firstIndex < fromIndex
  · simp only [inside, true_and]
    have backed := sound.backed.filter fun key => decide (key < fromIndex)
    have filtered := @TrackedAt.filter log { log with index := log.index.filter fun key => decide (key < fromIndex) }
      index _ (tracked index) (fun key => decide (key < fromIndex)) rfl rfl
    simp only [decide_eq_true_eq] at filtered
    rw [DiskRaftLog.truncateSuffixLocked, if_neg (Int.not_le.mpr inside)]
    refine filtered.keep rfl ?_
    intro indexed stands batch frame
    exact frame.ftruncate (backed.end_le_frontier (find?_eq_some_iff.mp stands))
  · simp only [inside, false_and, if_false]
    rw [DiskRaftLog.truncateSuffixLocked, if_pos (Int.not_lt.mp inside)]
    exact .absent find?_empty

theorem Tracked.cutBehind (previous : Int) :
    (log.cutBehind previous).Tracked (log.liveBehind live previous) := by
  intro index
  unfold DiskRaftLog.cutBehind liveBehind
  split
  · exact tracked.truncateSuffixLocked sound (previous + 1) index
  · exact tracked index

theorem Tracked.writeBatch {previous : Int} {first : LogEntry}
    {rest : List LogEntry} (writable : Writable (first :: rest)) (numbered : Numbered previous (first :: rest)) :
    (log.writeBatch first rest).Tracked fun index => (liveBatch (first :: rest) index).or (live index) := by
  intro index
  have written := find?_foldl_insert LogEntry.index
    (fun entry => IndexEntry.mk entry.index log.dataFileSize entry.term (frame (first :: rest)).length)
    (first :: rest) log.index index
  dsimp only [liveBatch]
  cases found : (first :: rest).find? fun entry => decide (entry.index = index) with
  | some entry =>
    have own : entry.index = index := by simpa using List.find?_some found
    have member := List.mem_of_find?_eq_some found
    rcases written with ⟨other, listed, same, stands⟩ | ⟨missing, -⟩
    · refine .present stands ⟨writable, ⟨previous, numbered⟩, ⟨entry, member, own⟩, ?_, rfl⟩ member own
      simp [DiskRaftLog.writeBatch, sound.size]
    · exact absurd own (missing entry member)
  | none =>
    rcases written with ⟨other, listed, same, -⟩ | ⟨-, stands⟩
    · exact absurd same (by simpa using List.find?_eq_none.mp found other listed)
    · exact (tracked index).keep stands fun _ _ _ frame => frame.append _

theorem Tracked.append {previous previousTerm : Int}
    {entries : List LogEntry} (wellFormed : (DiskLogCall.append previous previousTerm entries).WellFormed) :
    (log.append none previous previousTerm entries).1.Tracked
      (log.liveAfter live (.append previous previousTerm entries)) := by
  obtain ⟨-, numbered, inRange⟩ := wellFormed
  have cut := tracked.cutBehind sound previous
  cases entries with
  | nil =>
    intro index
    rw [liveAfter, if_pos (.inl rfl)]
    exact tracked index
  | cons first rest =>
    intro index
    simp only [DiskRaftLog.append, liveAfter, List.cons_ne_nil, false_or]
    split
    · exact tracked index
    · split
      · exact cut index
      next fits =>
        exact cut.writeBatch (sound.cutBehind previous).1 ⟨inRange, Nat.not_lt.mp fits⟩ numbered index

end

theorem Tracked.truncatePrefix (firstIndex : Int) :
    (log.truncatePrefix firstIndex).Tracked (log.liveAfter live (.truncatePrefix firstIndex)) := by
  intro index
  simp only [liveAfter]
  by_cases low : firstIndex ≤ log.firstIndex
  · rw [DiskRaftLog.truncatePrefix, if_pos low, if_pos (.inl low)]
    exact tracked index
  · have filtered := @TrackedAt.filter log (log.truncatePrefix firstIndex) index _ (tracked index)
      (fun key => decide (firstIndex ≤ key)) (by rw [DiskRaftLog.truncatePrefix, if_neg low]; rfl)
      (by rw [DiskRaftLog.truncatePrefix, if_neg low]; rfl)
    simpa only [low, false_or, decide_eq_true_eq] using filtered

theorem Tracked.applySnapshot (snapshot : RaftSnapshot) :
    (log.applySnapshot snapshot).Tracked (log.liveAfter live (.applySnapshot snapshot)) := by
  intro index
  simp only [liveAfter]
  unfold DiskRaftLog.applySnapshot
  split
  next invalid =>
    rw [if_neg (fun both => absurd both.1 (by simpa using invalid))]
    exact tracked index
  next valid =>
    let keep := fun key => decide (snapshot.lastIncludedIndex < key)
    have filtered := @TrackedAt.filter log { log with index := log.index.filter keep } index _ (tracked index) keep
      rfl rfl
    have same : (if keep index = true then live index else none) =
        if snapshot.isValid = true ∧ index ≤ snapshot.lastIncludedIndex then none else live index := by
      by_cases above : snapshot.lastIncludedIndex < index
      · simp [keep, above]
      · simp [keep, above, Int.not_lt.mp above, show snapshot.isValid = true by simpa using valid]
    rw [same] at filtered
    dsimp only
    split
    next empty =>
      -- Nothing is left of the index, so nothing is lost with the file.
      refine filtered.keep rfl ?_
      intro indexed stands
      exact absurd (mem_keys.mpr ⟨indexed, find?_eq_some_iff.mp stands⟩) (isEmpty_entries_iff.mp empty index)
    next => exact filtered.keep rfl fun _ _ _ frame => frame

theorem Tracked.step (sound : log.Sound) {call : DiskLogCall}
    (wellFormed : call.WellFormed) : (log.step call).Tracked (log.liveAfter live call) := by
  cases call with
  | append => exact tracked.append sound wellFormed
  | truncateSuffix fromIndex => exact tracked.truncateSuffixLocked sound fromIndex
  | truncatePrefix firstIndex => exact tracked.truncatePrefix firstIndex
  | applySnapshot snapshot => exact tracked.applySnapshot snapshot

end

theorem run_tracked {calls : List DiskLogCall} (wellFormed : ∀ call ∈ calls, call.WellFormed) :
    (fresh.run calls).Tracked (liveEntries calls) := by
  have all : ∀ (log : DiskRaftLog) (live : Int → Option LiveEntry), log.Sound → log.Tracked live →
      (log.run calls).Tracked (log.liveFrom live calls) := by
    induction calls with
    | nil => exact fun _ _ _ tracked => tracked
    | cons call calls ih =>
      intro log live sound tracked
      have own := wellFormed call List.mem_cons_self
      exact ih (fun later member => wellFormed later (List.mem_cons_of_mem call member)) (log.step call) _
        (sound.step own) (tracked.step sound own)
  exact all fresh _ fresh_sound fun _ => .absent find?_empty

/-- As many entries as the range has indices, in their order, each one the live one. -/
structure Exact (log : DiskRaftLog) (live : Int → Option LiveEntry) (start stop : Int) : Prop where
  returned : ((log.getEntries start stop).length : Int) = stop - start + 1
  numbered : Numbered (start - 1) (log.getEntries start stop)
  live : ∀ entry ∈ log.getEntries start stop, (live entry.index).map LiveEntry.entry = some entry

/-- On its step at a key the walk reads an entry with an index: the key is in the range, and its
batch is not too large to be read. -/
def ReadsAt (live : Int → Option LiveEntry) (start stop key index : Int) : Prop :=
  start ≤ key ∧ key ≤ stop ∧ ∃ stored, live key = some stored ∧ stored.batch.length ≤ kMaxBatchEntries ∧
    ∃ entry ∈ stored.batch, entry.index = index

/-- Every index of the range is live, and just one step reads an entry with it, which is the live one. -/
def ReadOnce (live : Int → Option LiveEntry) (start stop : Int) : Prop :=
  ∀ index, start ≤ index → index ≤ stop → ∃ key read stored,
    (∀ other, ReadsAt live start stop other index ↔ other = key) ∧ live key = some read ∧
      live index = some stored ∧ stored.entry ∈ read.batch

/-- What the step of the walk at one key adds to the result. -/
def contribution (log : DiskRaftLog) (start stop : Int) (indexed : Int × IndexEntry) : List LogEntry :=
  (readBatch log.files.data indexed.2.offset).filter fun entry =>
    decide (start ≤ entry.index ∧ entry.index ≤ stop)

/-- The keys that the walk takes its steps at. -/
def visited (log : DiskRaftLog) (start stop : Int) : List (Int × IndexEntry) :=
  log.index.entries.filter fun indexed => decide (start ≤ indexed.1 ∧ indexed.1 ≤ stop)

theorem getEntries_eq {start stop : Int} (lower : log.firstIndex ≤ start) (nonempty : start ≤ stop)
    (upper : stop ≤ log.lastIndex) :
    log.getEntries start stop =
      if (log.index.find? start).isNone then []
      else (log.visited start stop).flatMap (log.contribution start stop) := by
  rw [getEntries, if_neg (by omega)]
  rfl

section Walk

variable {start stop : Int} {indexed : Int × IndexEntry} {entry : LogEntry}

section

variable (tracked : log.Tracked live)
include tracked

theorem contribution_eq (listed : indexed ∈ log.visited start stop) :
    ∃ stored, live indexed.1 = some stored ∧ (∃ base, Numbered base stored.batch) ∧
      (∃ entry ∈ stored.batch, entry.index = indexed.1) ∧
      log.contribution start stop indexed =
        if stored.batch.length ≤ kMaxBatchEntries then
          stored.batch.filter fun entry => decide (start ≤ entry.index ∧ entry.index ≤ stop)
        else [] := by
  have stands := find?_eq_some_iff.mpr (List.mem_filter.mp listed).1
  have shown := tracked indexed.1
  generalize live indexed.1 = stored at shown
  cases shown with
  | absent missing => simp [missing] at stands
  | @present stored other found frame member own =>
    obtain rfl : other = indexed.2 := Option.some.inj (found.symm.trans stands)
    refine ⟨stored, rfl, frame.numbered, frame.member, ?_⟩
    unfold contribution
    rw [show readBatch log.files.data indexed.2.offset = _ from frame.readBatch]
    split <;> rfl

theorem reads_of_mem (listed : indexed ∈ log.visited start stop)
    (member : entry ∈ log.contribution start stop indexed) :
    ReadsAt live start stop indexed.1 entry.index ∧ start ≤ entry.index ∧ entry.index ≤ stop ∧
      ∃ read, live indexed.1 = some read ∧ entry ∈ read.batch := by
  obtain ⟨stored, lives, -, -, taken⟩ := contribution_eq tracked listed
  obtain ⟨-, within⟩ := List.mem_filter.mp listed
  obtain ⟨lower, upper⟩ := of_decide_eq_true within
  rw [taken] at member
  by_cases readable : stored.batch.length ≤ kMaxBatchEntries
  · rw [if_pos readable] at member
    obtain ⟨inside, ranged⟩ := List.mem_filter.mp member
    obtain ⟨above, below⟩ := of_decide_eq_true ranged
    exact ⟨⟨lower, upper, stored, lives, readable, entry, inside, rfl⟩, above, below, stored, lives, inside⟩
  · rw [if_neg readable] at member
    cases member

theorem mem_of_reads {key index : Int} (reads : ReadsAt live start stop key index)
    (lower : start ≤ index) (upper : index ≤ stop) :
    ∃ indexed ∈ log.visited start stop, indexed.1 = key ∧
      ∃ entry ∈ log.contribution start stop indexed, entry.index = index := by
  obtain ⟨above, below, stored, lives, readable, entry, member, rfl⟩ := reads
  have shown := tracked key
  rw [lives] at shown
  cases shown with
  | @present _ indexed found frame =>
    have listed : (key, indexed) ∈ log.visited start stop :=
      List.mem_filter.mpr ⟨find?_eq_some_iff.mp found, decide_eq_true ⟨above, below⟩⟩
    obtain ⟨other, same, -, -, taken⟩ := contribution_eq tracked listed
    obtain rfl : stored = other := Option.some.inj (lives.symm.trans same)
    refine ⟨_, listed, rfl, entry, ?_, rfl⟩
    rw [taken, if_pos readable]
    exact List.mem_filter.mpr ⟨member, decide_eq_true ⟨lower, upper⟩⟩

theorem ReadsAt.between {key index middle : Int} (reads : ReadsAt live start stop key index)
    (inside : key ≤ middle ∧ middle ≤ index ∨ index ≤ middle ∧ middle ≤ key) :
    ReadsAt live start stop key middle := by
  obtain ⟨above, below, stored, lives, readable, entry, member, rfl⟩ := reads
  refine ⟨above, below, stored, lives, readable, ?_⟩
  have shown := tracked key
  rw [lives] at shown
  cases shown with
  | present found frame own same =>
    obtain ⟨base, numbered⟩ := frame.numbered
    rcases inside with ⟨lower, upper⟩ | ⟨lower, upper⟩
    · exact numbered.between own member (same.trans_le lower) upper
    · exact numbered.between member own lower (upper.trans_eq same.symm)

theorem flatMap_ascending
    (once : ∀ index key other, start ≤ index → index ≤ stop → ReadsAt live start stop key index →
      ReadsAt live start stop other index → key = other) :
    ((log.visited start stop).flatMap (log.contribution start stop)).Pairwise
      fun left right => left.index < right.index := by
  rw [List.pairwise_flatMap]
  constructor
  · intro indexed listed
    obtain ⟨stored, -, ⟨base, numbered⟩, -, taken⟩ := contribution_eq tracked listed
    rw [taken]
    split
    · exact numbered.ascending.filter _
    · exact .nil
  · refine (log.index.sorted.filter _).imp_of_mem ?_
    intro left right first last below entry taken later taken'
    obtain ⟨reads, lower, upper, -⟩ := reads_of_mem tracked first taken
    obtain ⟨reads', lower', upper', -⟩ := reads_of_mem tracked last taken'
    have own : ReadsAt live start stop right.1 right.1 := by
      cases le_total right.1 later.index with
      | inl above => exact reads'.between tracked (.inl ⟨le_refl _, above⟩)
      | inr above => exact reads'.between tracked (.inr ⟨above, le_refl _⟩)
    by_contra crossed
    by_cases beyond : right.1 ≤ entry.index
    · exact absurd (once right.1 left.1 right.1 reads'.1 reads'.2.1
        (reads.between tracked (.inl ⟨below.le, beyond⟩)) own) below.ne
    · exact absurd (once entry.index left.1 right.1 lower upper reads
        (reads'.between tracked (.inr ⟨by omega, by omega⟩))) below.ne

end

theorem shared_step {other : Int × IndexEntry} {twin : LogEntry}
    (ascending : ((log.visited start stop).flatMap (log.contribution start stop)).Pairwise
      fun left right => left.index < right.index)
    (listed : indexed ∈ log.visited start stop) (listed' : other ∈ log.visited start stop)
    (taken : entry ∈ log.contribution start stop indexed) (taken' : twin ∈ log.contribution start stop other)
    (same : entry.index = twin.index) : indexed = other := by
  obtain ⟨first, beyond⟩ := List.getElem_of_mem listed
  obtain ⟨second, beyond'⟩ := List.getElem_of_mem listed'
  obtain ⟨short, rfl⟩ := beyond
  obtain ⟨short', rfl⟩ := beyond'
  have apart := List.pairwise_iff_getElem.mp (List.pairwise_flatMap.mp ascending).2
  rcases lt_trichotomy first second with before | rfl | behind
  · exact absurd same (apart first second short short' before entry taken twin taken').ne
  · rfl
  · exact absurd same (apart second first short' short behind twin taken' entry taken).ne'

end Walk

variable {start stop : Int}

section

variable (tracked : log.Tracked live)

include tracked

theorem own_of_live {stored : LiveEntry} (lives : live index = some stored) :
    stored.entry ∈ stored.batch ∧ stored.entry.index = index := by
  have shown := tracked index
  rw [lives] at shown
  cases shown with
  | present _ _ member own => exact ⟨member, own⟩

theorem find?_isSome_of_live {stored : LiveEntry} (lives : live index = some stored) :
    (log.index.find? index).isNone = false := by
  have shown := tracked index
  rw [lives] at shown
  cases shown with
  | present found => rw [found]; rfl

section

variable (lower : log.firstIndex ≤ start) (nonempty : start ≤ stop) (upper : stop ≤ log.lastIndex)

include lower nonempty upper

theorem Exact.readOnce (exactly : log.Exact live start stop) : ReadOnce live start stop := by
  obtain ⟨returned, numbered, lives⟩ := exactly
  rw [getEntries_eq lower nonempty upper] at returned numbered lives
  by_cases missing : (log.index.find? start).isNone = true
  · rw [if_pos missing] at returned
    exact absurd returned (by simp; omega)
  · rw [if_neg missing] at returned numbered lives
    intro index above below
    obtain ⟨entry, member, rfl⟩ := numbered.exists_mem (show start - 1 < index by omega) (by omega)
    obtain ⟨indexed, listed, taken⟩ := List.mem_flatMap.mp member
    obtain ⟨reads, -, -, read, found, inside⟩ := reads_of_mem tracked listed taken
    obtain ⟨stored, stands, rfl⟩ := Option.map_eq_some_iff.mp (lives entry member)
    refine ⟨indexed.1, read, stored, ?_, found, stands, inside⟩
    intro other
    constructor
    · intro also
      obtain ⟨later, listed', rfl, twin, taken', same⟩ := mem_of_reads tracked also above below
      exact congrArg Prod.fst (shared_step numbered.ascending listed' listed taken' taken same)
    · rintro rfl
      exact reads

theorem ReadOnce.exact (once : ReadOnce live start stop) : log.Exact live start stop := by
  have unique : ∀ index key other, start ≤ index → index ≤ stop → ReadsAt live start stop key index →
      ReadsAt live start stop other index → key = other := by
    intro index key other above below reads also
    obtain ⟨own, -, -, only, -⟩ := once index above below
    exact ((only key).mp reads).trans ((only other).mp also).symm
  have ascending := flatMap_ascending tracked unique
  have walk : log.getEntries start stop = (log.visited start stop).flatMap (log.contribution start stop) := by
    obtain ⟨-, -, stored, -, -, lives, -⟩ := once start (le_refl start) nonempty
    rw [getEntries_eq lower nonempty upper, find?_isSome_of_live tracked lives]
    rfl
  have complete := @numbered_of_ascending _ (start - 1) ascending (stop - start + 1).toNat (by
    intro entry member
    obtain ⟨indexed, listed, taken⟩ := List.mem_flatMap.mp member
    obtain ⟨-, above, below, -⟩ := reads_of_mem tracked listed taken
    omega) (by
    intro index above below
    obtain ⟨key, -, -, only, -⟩ := once index (by omega) (by omega)
    obtain ⟨indexed, listed, -, entry, taken, same⟩ :=
      mem_of_reads tracked ((only key).mpr rfl) (by omega) (by omega)
    exact ⟨entry, List.mem_flatMap.mpr ⟨indexed, listed, taken⟩, same⟩)
  rw [← walk] at complete
  refine ⟨by omega, complete.1, ?_⟩
  intro entry member
  rw [walk] at member
  obtain ⟨indexed, listed, taken⟩ := List.mem_flatMap.mp member
  obtain ⟨reads, above, below, read, found, inside⟩ := reads_of_mem tracked listed taken
  obtain ⟨key, other, stored, only, found', lives, also⟩ := once entry.index above below
  obtain rfl := (only indexed.1).mp reads
  obtain rfl : read = other := Option.some.inj (found.symm.trans found')
  refine Option.map_eq_some_iff.mpr ⟨stored, lives, ?_⟩
  obtain ⟨batch, same, ⟨base, numbered⟩, -⟩ := contribution_eq tracked listed
  obtain rfl : read = batch := Option.some.inj (found.symm.trans same)
  exact numbered.eq_of_index_eq also inside (own_of_live tracked lives).2

end

end

/-- After every session a read inside the log is exact when and only when its walk reads every
index of the range once. -/
theorem exact_iff_readOnce (calls : List DiskLogCall) (wellFormed : ∀ call ∈ calls, call.WellFormed)
    (start stop : Int) (lower : (fresh.run calls).firstIndex ≤ start) (nonempty : start ≤ stop)
    (upper : stop ≤ (fresh.run calls).lastIndex) :
    (fresh.run calls).Exact (liveEntries calls) start stop ↔ ReadOnce (liveEntries calls) start stop :=
  ⟨fun exactly => exactly.readOnce (run_tracked wellFormed) lower nonempty upper,
    fun once => once.exact (run_tracked wellFormed) lower nonempty upper⟩

/-- Where every batch can be read, the walk reads each index once when no batch of an index in the range has
another entry there. -/
theorem readOnce_iff_alone {calls : List DiskLogCall} (wellFormed : ∀ call ∈ calls, call.WellFormed)
    (readable : ∀ index stored, liveEntries calls index = some stored → stored.batch.length ≤ kMaxBatchEntries) :
    ReadOnce (liveEntries calls) start stop ↔ ∀ index, start ≤ index → index ≤ stop →
      ∃ stored, liveEntries calls index = some stored ∧
        ∀ entry ∈ stored.batch, start ≤ entry.index → entry.index ≤ stop → entry.index = index := by
  have tracked := run_tracked wellFormed
  have own : ∀ index stored, start ≤ index → index ≤ stop → liveEntries calls index = some stored →
      ReadsAt (liveEntries calls) start stop index index := fun index stored above below lives =>
    ⟨above, below, stored, lives, readable index stored lives, stored.entry, own_of_live tracked lives⟩
  constructor
  · intro once index above below
    obtain ⟨key, read, stored, only, -, lives, -⟩ := once index above below
    refine ⟨stored, lives, fun entry member lower upper => ?_⟩
    obtain ⟨key', -, stored', only', -, lives', -⟩ := once entry.index lower upper
    have reads : ReadsAt (liveEntries calls) start stop index entry.index :=
      ⟨above, below, stored, lives, readable index stored lives, entry, member, rfl⟩
    exact ((only' _).mp (own entry.index stored' lower upper lives')).trans ((only' _).mp reads).symm
  · intro alone index above below
    obtain ⟨stored, lives, -⟩ := alone index above below
    refine ⟨index, stored, stored, fun other => ⟨?_, ?_⟩, lives, lives, (own_of_live tracked lives).1⟩
    · rintro ⟨lower, upper, read, found, -, entry, member, rfl⟩
      obtain ⟨batch, same, single⟩ := alone other lower upper
      obtain rfl : read = batch := Option.some.inj (found.symm.trans same)
      exact (single entry member above below).symm
    · rintro rfl
      exact own other stored above below lives

def rewrittenCalls : List DiskLogCall :=
  [ .append 0 0 [⟨1, 1, .noOp⟩]
  , .append 1 1 [⟨1, 2, .noOp⟩, ⟨1, 3, .noOp⟩]
  , .append 2 1 [⟨2, 3, .noOp⟩] ]

theorem readOnce_rewrittenCalls : ReadOnce (liveEntries rewrittenCalls) 1 2 :=
  (exact_iff_readOnce rewrittenCalls (by decide) 1 2 (by decide +kernel) (by decide) (by decide +kernel)).mp
    ⟨by decide +kernel, by decide +kernel, by decide +kernel⟩

/-- Two entries of one batch come back as four. -/
theorem batchOfTwo_not_exact : ¬∀ (calls : List DiskLogCall) (start stop : Int),
    (∀ call ∈ calls, call.WellFormed) → (fresh.run calls).firstIndex ≤ start → start ≤ stop →
      stop ≤ (fresh.run calls).lastIndex → (fresh.run calls).Exact (liveEntries calls) start stop := by
  intro all
  have returned := (all [.append 0 0 [⟨1, 1, .noOp⟩, ⟨1, 2, .noOp⟩]] 1 2 (by decide) (by decide +kernel)
    (by decide) (by decide +kernel)).returned
  revert returned
  decide +kernel

end DiskRaftLog

end TorrentMq.Consensus
