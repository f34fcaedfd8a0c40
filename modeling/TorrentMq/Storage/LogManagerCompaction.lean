import TorrentMq.Storage.LogManagerChain

/-! What compaction leaves of the records of a log. -/

set_option autoImplicit false

namespace TorrentMq.Storage

open List

def Record.SameEntry (left right : Record) : Prop :=
  left.offset = right.offset ∧ left.key = right.key ∧ left.value = right.value ∧ left.headers = right.headers

namespace IdealSegment

/-- A segment in which compaction finds nothing to drop: it has records, each under a key of its own. -/
def DistinctKeys (segment : IdealSegment) : Prop :=
  segment.records ≠ [] ∧ (segment.records.map (·.key)).Nodup

instance (segment : IdealSegment) : Decidable segment.DistinctKeys := inferInstanceAs (Decidable (_ ∧ _))

variable {keepExisting : Record → Record → Bool}

theorem combine_of_new {compacted : List Record} {record : Record}
    (new : record.key ∉ compacted.map (·.key)) : combine keepExisting compacted record = compacted ++ [record] := by
  induction compacted with
  | nil => rfl
  | cons existing compacted ih =>
    rw [map_cons, mem_cons, not_or] at new
    rw [combine, if_neg (Ne.symm new.1), ih new.2, cons_append]

theorem foldl_combine_of_nodup {records compacted : List Record}
    (distinct : ((compacted ++ records).map (·.key)).Nodup) :
    records.foldl (combine keepExisting) compacted = compacted ++ records := by
  induction records generalizing compacted with
  | nil => exact (append_nil compacted).symm
  | cons record records ih =>
    have new : record.key ∉ compacted.map (·.key) := by
      rw [map_append, map_cons] at distinct
      intro member
      exact (nodup_append.mp distinct).2.2 _ member _ mem_cons_self rfl
    rw [foldl_cons, combine_of_new new, ih (by rwa [append_assoc]), append_assoc]
    rfl

theorem pairwise_offset_records (segment : IdealSegment) :
    segment.records.Pairwise fun left right => left.offset ≤ right.offset := by
  have ascending : (segment.records.map Record.offset).Pairwise (· ≤ ·) := by
    rw [offsets_records, pairwise_map]
    refine pairwise_lt_range.imp ?_
    intro left right below
    omega
  exact pairwise_map.mp ascending

theorem DistinctKeys.compactRecords {segment : IdealSegment} (distinct : segment.DistinctKeys)
    (keepExisting : Record → Record → Bool) : segment.compactRecords keepExisting = segment.records := by
  have folded : segment.records.foldl (combine keepExisting) [] = segment.records :=
    foldl_combine_of_nodup distinct.2
  rw [IdealSegment.compactRecords, folded]
  exact segment.pairwise_offset_records.insertionSort_eq

theorem mapIdx_offset {records : List Record} {base : Int}
    (offsets : records.map Record.offset = (List.range records.length).map fun i : Nat => base + (i : Int)) :
    (records.mapIdx fun i record => { record with offset := base + i }) = records := by
  apply ext_getElem
  · exact length_mapIdx
  · intro i _ inside
    have offset : records[i].offset = base + i := by
      have at_i := congrArg (fun list => list[i]?) offsets
      simpa [inside] using at_i
    rw [getElem_mapIdx, ← offset]

theorem length_records (segment : IdealSegment) : segment.records.length = Segment.recordTotal segment.batches := by
  have length := congrArg List.length segment.offsets_records
  rwa [length_map, length_map, length_range] at length

end IdealSegment

namespace LogManager

open IdealSegment

theorem compactedBatch_records (compression : CompressionType) (segment : IdealSegment) :
    (compactedBatch compression segment.baseOffset segment.records).records = segment.records := by
  apply mapIdx_offset
  rw [offsets_records, length_records]

variable {segment : IdealSegment}

theorem append_compactedBatch (some : segment.records ≠ [])
    (compression : CompressionType) (segmentId : Nat) (now : Int64) :
    ∃ compacted result, (createSegment segment.baseOffset segmentId now).append
        (compactedBatch compression segment.baseOffset segment.records) = .ok (compacted, result) ∧
      compacted.seal.records = segment.records ∧ compacted.seal.segmentId = segmentId := by
  have same := compactedBatch_records compression segment
  unfold IdealSegment.append
  rw [if_neg (show ¬(createSegment segment.baseOffset segmentId now).isSealed = true from Bool.false_ne_true),
    if_neg (by rw [same, List.isEmpty_iff]; exact some)]
  refine ⟨_, _, rfl, ?_, rfl⟩
  have delivered : (compactedBatch compression segment.baseOffset segment.records).records.mapIdx
      (fun i record => { record with offset := segment.baseOffset + i }) = segment.records := by
    rw [same]
    apply mapIdx_offset
    rw [offsets_records, length_records]
  exact (append_nil _).trans delivered

/-- The segments of a log have ids of their own, and the active one is the last and the only one that is
not sealed. -/
structure Identified (manager : LogManager) : Prop where
  distinct : (manager.segments.map (·.segmentId)).Nodup
  known : ∀ segment ∈ manager.segments, segment.segmentId < manager.nextSegmentId
  activeLast : manager.activeIndex + 1 = manager.segments.length
  onlyUnsealed : ∀ i segment, manager.segments[i]? = some segment →
    (segment.isSealed = false ↔ i = manager.activeIndex)

theorem Linked.identified {«sealed» : List IdealSegment} {active : IdealSegment} {manager : LogManager}
    (linked : Linked «sealed» active manager) : manager.Identified where
  distinct := by
    rw [linked.segments]
    exact linked.distinct
  known := by
    rw [linked.segments]
    exact linked.known
  activeLast := linked.chained.activeLast
  onlyUnsealed := linked.chained.onlyUnsealed

variable {segments : List IdealSegment}

theorem findIdx?_segmentId {i : Nat}
    (distinct : (segments.map (·.segmentId)).Nodup) (position : segments[i]? = some segment) :
    segments.findIdx? (fun other => decide (other.segmentId = segment.segmentId)) = some i := by
  obtain ⟨inside, same⟩ := List.getElem?_eq_some_iff.mp position
  rw [findIdx?_eq_some_iff_getElem]
  refine ⟨inside, by rw [same]; exact decide_eq_true rfl, ?_⟩
  intro j below taken
  have equal : (segments.map (·.segmentId))[j]? = (segments.map (·.segmentId))[i]? := by
    rw [getElem?_map, getElem?_map, position, getElem?_eq_getElem (by omega)]
    exact congrArg some (by simpa using taken)
  have indices := (getElem?_inj (by rw [length_map]; omega) distinct).mp equal
  omega

/-- What rounds of compaction keep when they find nothing to drop. -/
structure Kept (records : List Record) (active : IdealSegment) (count : Nat) (manager : LogManager) : Prop where
  distinct : (manager.segments.map (·.segmentId)).Nodup
  known : ∀ segment ∈ manager.segments, segment.segmentId < manager.nextSegmentId
  same : ∀ record, record ∈ manager.records ↔ record ∈ records
  last : manager.segments.getLast? = some active
  long : count ≤ manager.segments.length

variable {before after : List IdealSegment}

theorem insertIdx_length {new : IdealSegment} :
    (before ++ segment :: after).insertIdx before.length new = before ++ new :: segment :: after := by
  induction before with
  | nil => rfl
  | cons first before ih => rw [cons_append, length_cons, insertIdx_succ_cons, ih, cons_append]

theorem eraseIdx_length {new : IdealSegment} :
    (before ++ new :: segment :: after).eraseIdx (before.length + 1) = before ++ new :: after := by
  induction before with
  | nil => rfl
  | cons first before ih => rw [cons_append, length_cons, eraseIdx_cons_succ, ih, cons_append]

theorem records_append_cons (before after : List IdealSegment) (segment : IdealSegment) (record : Record) :
    record ∈ (before ++ segment :: after).flatMap IdealSegment.records ↔
      record ∈ before.flatMap IdealSegment.records ∨ record ∈ segment.records ∨
        record ∈ after.flatMap IdealSegment.records := by
  rw [flatMap_append, flatMap_cons, mem_append, mem_append]

theorem split_at {i : Nat}
    (position : segments[i]? = some segment) :
    ∃ before after, segments = before ++ segment :: after ∧ before.length = i := by
  obtain ⟨inside, same⟩ := List.getElem?_eq_some_iff.mp position
  refine ⟨segments.take i, segments.drop (i + 1), ?_, length_take_of_le inside.le⟩
  rw [← same, ← drop_eq_getElem_cons inside, take_append_drop]

section Kept

variable {records : List Record} {active : IdealSegment} {count : Nat} {manager : LogManager}

variable {before after : List IdealSegment}

section

variable (kept : Kept records active count manager)

include kept

theorem Kept.insert
    {segment new : IdealSegment} (segments : manager.segments = before ++ segment :: after)
    (same : new.records = segment.records) (id : new.segmentId = manager.nextSegmentId) :
    Kept records active count
      { manager with
        segments := before ++ new :: segment :: after
        nextSegmentId := manager.nextSegmentId + 1 } := by
  have distinct := kept.distinct
  have known := kept.known
  rw [segments] at distinct known
  constructor
  · dsimp only
    rw [map_append, map_cons] at distinct ⊢
    rw [nodup_middle, nodup_cons]
    refine ⟨?_, distinct⟩
    intro member
    rw [← map_append] at member
    obtain ⟨other, inside, equal⟩ := mem_map.mp member
    have below := known other inside
    omega
  · intro other member
    dsimp only at member ⊢
    cases mem_append.mp member with
    | inl early =>
      have := known other (mem_append_left _ early)
      omega
    | inr late =>
      cases late with
      | head => omega
      | tail _ late =>
        have := known other (mem_append_right _ late)
        omega
  · intro record
    have unchanged := kept.same record
    unfold LogManager.records at unchanged ⊢
    rw [segments, records_append_cons] at unchanged
    dsimp only
    rw [records_append_cons, flatMap_cons, mem_append, same, ← unchanged]
    tauto
  · have last := kept.last
    rw [segments, getLast?_append_of_ne_nil _ (cons_ne_nil _ _)] at last
    dsimp only
    rw [getLast?_append_of_ne_nil _ (cons_ne_nil _ _), getLast?_cons_cons]
    exact last
  · have long := kept.long
    rw [segments, length_append, length_cons] at long
    dsimp only
    rw [length_append, length_cons, length_cons]
    omega

theorem Kept.tryDelete {segment new : IdealSegment} (segments : manager.segments = before ++ new :: segment :: after)
    (same : new.records = segment.records) (behind : after ≠ []) (long : count ≤ before.length + 1 + after.length) :
    Kept records active count (manager.tryDelete (before.length + 1)) := by
  have inside : ¬manager.segments.length ≤ before.length + 1 := by
    rw [segments, length_append, length_cons, length_cons]
    omega
  unfold LogManager.tryDelete deleteSegment
  rw [if_neg inside]
  by_cases refused : before.length + 1 = manager.activeIndex
  · rw [if_pos refused]
    exact kept
  · rw [if_neg refused]
    dsimp only
    rw [segments, eraseIdx_length]
    have shorter : (before ++ new :: after).Sublist manager.segments := by
      rw [segments]
      exact ((sublist_cons_self segment after).cons_cons new).append_left before
    constructor
    · exact kept.distinct.sublist (shorter.map _)
    · intro other member
      exact kept.known other (shorter.subset member)
    · intro record
      have unchanged := kept.same record
      unfold LogManager.records at unchanged ⊢
      rw [segments, records_append_cons, flatMap_cons, mem_append] at unchanged
      dsimp only
      rw [records_append_cons, ← unchanged, same]
      tauto
    · have last := kept.last
      rw [segments, getLast?_append_of_ne_nil _ (cons_ne_nil _ _), getLast?_cons_cons] at last
      dsimp only
      rw [getLast?_append_of_ne_nil _ (cons_ne_nil _ _)]
      cases after with
      | nil => exact absurd rfl behind
      | cons next after =>
        rw [getLast?_cons_cons] at last ⊢
        exact last
    · dsimp only
      rw [length_append, length_cons]
      omega

theorem Kept.compactRound {result : CompactionResult}
    {keepExisting : Record → Record → Bool} {now : Int64} {idx : Nat} (early : idx + 1 < count)
    (distinct : ∀ segment ∈ manager.segments[idx]?, segment.DistinctKeys) :
    Kept records active count (compactRound keepExisting now (manager, result) idx).1 := by
  unfold LogManager.compactRound
  split
  · exact kept
  dsimp only
  have inside : idx < manager.segments.length := by
    have := kept.long
    omega
  have position := getElem?_eq_getElem inside
  generalize manager.segments[idx] = segment at position
  have keys := distinct segment position
  obtain ⟨before, after, segments, length⟩ := split_at position
  have found := findIdx?_segmentId kept.distinct position
  obtain ⟨compacted, appendResult, appended, same, id⟩ :=
    append_compactedBatch keys.1 manager.config.topicConfig.compression manager.nextSegmentId now
  have total := congrArg List.length segments
  have long := kept.long
  rw [length_append, length_cons] at total
  rw [position]
  dsimp only
  unfold compactSegment
  dsimp only
  rw [keys.compactRecords, if_neg (by rw [List.isEmpty_iff]; exact keys.1), appended]
  dsimp only
  rw [found]
  dsimp only
  rw [segments, ← length, insertIdx_length]
  refine (kept.insert segments same id).tryDelete rfl same ?_ (by omega)
  rintro rfl
  rw [length_nil] at total
  omega

end

end Kept

/-- The latest record of each key is kept as it was, and no other record appears. -/
structure KeepsRecords (before after : LogManager) : Prop where
  latest : ∀ record ∈ before.records,
    (∀ other ∈ before.records, other.key = record.key → other.offset ≤ record.offset) →
    ∃ kept ∈ after.records, kept.SameEntry record
  nothingNew : ∀ record ∈ after.records, ∃ old ∈ before.records, old.SameEntry record

theorem KeepsRecords.of_same {before after : LogManager}
    (same : ∀ record, record ∈ after.records ↔ record ∈ before.records) : KeepsRecords before after where
  latest := fun record member _ => ⟨record, (same record).mpr member, rfl, rfl, rfl, rfl⟩
  nothingNew := fun record member => ⟨record, (same record).mp member, rfl, rfl, rfl, rfl⟩

/-- Besides, the active segment is the one that it was, and as it was. -/
structure KeepsLatest (before after : LogManager) : Prop extends KeepsRecords before after where
  activeUntouched : after.activeSegment = before.activeSegment

theorem KeepsLatest.refl (manager : LogManager) : KeepsLatest manager manager where
  toKeepsRecords := .of_same fun _ => Iff.rfl
  activeUntouched := rfl

/-- A round takes up a segment in which nothing is to be dropped. -/
def FindsDistinctKeys (state : LogManager × CompactionResult) (idx : Nat) : Prop :=
  ∀ segment ∈ state.1.segments[idx]?, segment.DistinctKeys

instance (state : LogManager × CompactionResult) (idx : Nat) : Decidable (FindsDistinctKeys state idx) :=
  inferInstanceAs (Decidable (∀ segment ∈ state.1.segments[idx]?, segment.DistinctKeys))

theorem eligible_lt {manager : LogManager} (activeLast : manager.activeIndex + 1 = manager.segments.length)
    {now : Int64} {idx : Nat} (member : idx ∈ manager.eligibleIndices now) :
    idx + 1 < manager.segments.length := by
  unfold eligibleIndices at member
  obtain ⟨inside, eligible⟩ := List.mem_filter.mp member
  have below := mem_range.mp inside
  rw [Bool.and_eq_true, bne_iff_ne] at eligible
  omega

/-- A cycle whose rounds all take up segments without repeated keys keeps every record. -/
theorem keepsRecords_of_distinctKeys {manager : LogManager} (identified : manager.Identified)
    (keepExisting : Option (Record → Record → Bool)) (now : Int64)
    (distinct : Runs.Meets (compactRound (keepExisting.getD fun _ _ => false) now) FindsDistinctKeys (manager, {})
      (manager.eligibleIndices now)) :
    KeepsRecords manager (manager.step (.compact keepExisting now)) := by
  rw [step, compact]
  split
  · exact (KeepsLatest.refl manager).toKeepsRecords
  split
  · exact (KeepsLatest.refl manager).toKeepsRecords
  obtain ⟨active, current⟩ : ∃ active, manager.activeSegment = some active :=
    ⟨_, getElem?_eq_getElem (by have := identified.activeLast; omega)⟩
  have last : manager.segments.getLast? = some active := by
    rw [getLast?_eq_getElem?, ← current, activeSegment, ← identified.activeLast, Nat.add_sub_cancel]
  have early := fun idx => @eligible_lt manager identified.activeLast now idx
  suffices kept : ∀ (indices : List Nat) (state : LogManager × CompactionResult),
      Kept manager.records active manager.segments.length state.1 →
      (∀ idx ∈ indices, idx + 1 < manager.segments.length) →
      Runs.Meets (compactRound (keepExisting.getD fun _ _ => false) now) FindsDistinctKeys state indices →
      Kept manager.records active manager.segments.length
        (indices.foldl (compactRound (keepExisting.getD fun _ _ => false) now) state).1 by
    have final := kept _ (manager, {})
      ⟨identified.distinct, identified.known, fun _ => Iff.rfl, last, le_rfl⟩ early distinct
    exact .of_same final.same
  intro indices
  induction indices with
  | nil => exact fun _ kept _ _ => kept
  | cons idx indices ih =>
    intro state kept inside meets
    exact ih _ (kept.compactRound (inside idx mem_cons_self) meets.1)
      (fun other member => inside other (mem_cons_of_mem _ member)) meets.2

/-!
## Where the active segment is afterwards
-/

def UnsealedLast (manager : LogManager) : Prop :=
  ∀ i segment, manager.segments[i]? = some segment → segment.isSealed = false → i + 1 = manager.segments.length

/-- The index of the active segment is that of a sealed one. -/
structure Misplaced (manager : LogManager) : Prop where
  unsealedLast : manager.UnsealedLast
  inside : manager.activeIndex < manager.segments.length
  activeSealed : ∀ segment ∈ manager.activeSegment, segment.isSealed = true

section Misplaced

variable {manager : LogManager}

theorem Misplaced.tryDelete (misplaced : Misplaced manager) (position : Nat) :
    Misplaced (manager.tryDelete position) := by
  unfold LogManager.tryDelete deleteSegment
  by_cases out : manager.segments.length ≤ position
  · rw [if_pos out]
    exact misplaced
  rw [if_neg out]
  by_cases refused : position = manager.activeIndex
  · rw [if_pos refused]
    exact misplaced
  rw [if_neg refused]
  have inside := misplaced.inside
  have length := length_eraseIdx_of_lt (Nat.not_le.mp out)
  constructor
  · intro i segment found unsealed
    dsimp only at found ⊢
    rcases Nat.lt_or_ge i position with before | behind
    · rw [getElem?_eraseIdx_of_lt before] at found
      have := misplaced.unsealedLast i segment found unsealed
      omega
    · rw [getElem?_eraseIdx_of_ge behind] at found
      have := misplaced.unsealedLast (i + 1) segment found unsealed
      omega
  · dsimp only
    split <;> omega
  · intro segment found
    refine misplaced.activeSealed segment ?_
    unfold LogManager.activeSegment at found ⊢
    dsimp only at found
    split at found
    next below =>
      rw [getElem?_eraseIdx_of_ge (by omega), Nat.sub_add_cancel (by omega)] at found
      exact found
    next above =>
      rw [getElem?_eraseIdx_of_lt (by omega)] at found
      exact found

/-- A sealed segment that is put in somewhere moves the active one away from its index. -/
theorem misplaced_insert {new : IdealSegment} (closed : new.isSealed = true) (unsealedLast : manager.UnsealedLast)
    (inside : manager.activeIndex < manager.segments.length) {position : Nat} (early : position < manager.segments.length)
    (nextSegmentId : Nat) :
    Misplaced { manager with segments := manager.segments.insertIdx position new, nextSegmentId } := by
  have length := length_insertIdx_of_le_length early.le (a := new)
  have last : ∀ i segment, (manager.segments.insertIdx position new)[i]? = some segment → segment.isSealed = false →
      i = manager.segments.length := by
    intro i segment found unsealed
    rcases Nat.lt_trichotomy i position with before | rfl | behind
    · rw [getElem?_insertIdx_of_lt before] at found
      have := unsealedLast i segment found unsealed
      omega
    · rw [getElem?_insertIdx_self, if_pos early.le] at found
      cases found
      rw [closed] at unsealed
      cases unsealed
    · rw [getElem?_insertIdx_of_gt behind] at found
      have := unsealedLast (i - 1) segment found unsealed
      omega
  constructor
  · intro i segment found unsealed
    dsimp only at found ⊢
    rw [length, last i segment found unsealed]
  · dsimp only
    omega
  · intro segment found
    by_contra unsealed
    have := last manager.activeIndex segment found (Bool.of_not_eq_true unsealed)
    omega

theorem compactedBatch_isEmpty (compression : CompressionType) (segBase : Int) (records : List Record) :
    (compactedBatch compression segBase records).records.isEmpty = records.isEmpty := by
  unfold compactedBatch
  cases records with
  | nil => rfl
  | cons first rest =>
    dsimp only
    rw [mapIdx_cons, List.isEmpty_cons, List.isEmpty_cons]

/-- Only a segment that has nothing to keep is dropped without another in its place. -/
theorem misplaced_compactSegment {keepExisting : Record → Record → Bool} {now : Int64} {result : CompactionResult}
    {segment : IdealSegment} (unsealedLast : manager.UnsealedLast)
    (inside : manager.activeIndex < manager.segments.length) (member : segment ∈ manager.segments)
    (before : segment.compactRecords keepExisting = [] → Misplaced manager) :
    Misplaced (compactSegment keepExisting now manager result segment).1 := by
  obtain ⟨position, found⟩ : ∃ position,
      manager.segments.findIdx? (fun other => decide (other.segmentId = segment.segmentId)) = some position := by
    refine Option.ne_none_iff_exists'.mp fun missing => ?_
    have absent := findIdx?_eq_none_iff.mp missing segment member
    rw [decide_eq_true rfl] at absent
    cases absent
  have early := (findIdx?_eq_some_iff_getElem.mp found).1
  unfold compactSegment
  dsimp only
  rw [found]
  cases records : segment.compactRecords keepExisting with
  | nil => exact (before records).tryDelete position
  | cons first rest =>
    have some : (compactedBatch manager.config.topicConfig.compression segment.baseOffset (first :: rest)).records.isEmpty
        = false := compactedBatch_isEmpty ..
    rw [List.isEmpty_cons, if_neg (by decide)]
    unfold IdealSegment.append
    rw [if_neg (show ¬(createSegment segment.baseOffset manager.nextSegmentId now).isSealed = true from
      Bool.false_ne_true), some, if_neg (by decide)]
    exact (misplaced_insert rfl unsealedLast inside early _).tryDelete _

theorem Misplaced.compactRound {state : LogManager × CompactionResult} (misplaced : Misplaced state.1)
    (keepExisting : Record → Record → Bool) (now : Int64) (idx : Nat) :
    Misplaced (compactRound keepExisting now state idx).1 := by
  unfold LogManager.compactRound
  split
  · exact misplaced
  split
  · exact misplaced
  next segment found =>
    exact misplaced_compactSegment misplaced.unsealedLast misplaced.inside (mem_of_getElem? found) fun _ => misplaced

variable {now : Int64}

theorem Identified.unsealedLast (identified : manager.Identified) : manager.UnsealedLast := by
  intro i segment found unsealed
  rw [(identified.onlyUnsealed i segment found).mp unsealed]
  exact identified.activeLast

theorem compactRecords_ne_nil {segment : IdealSegment} (keepExisting : Record → Record → Bool)
    (filled : segment.baseOffset < segment.nextOffset) : segment.compactRecords keepExisting ≠ [] := by
  obtain ⟨record, member, -⟩ := exists_record le_rfl filled
  have grows : ∀ (records compacted : List Record), compacted ≠ [] →
      records.foldl (combine keepExisting) compacted ≠ [] := by
    intro records
    induction records with
    | nil => exact fun _ some => some
    | cons record records ih =>
      intro compacted some
      refine ih _ ?_
      cases compacted with
      | nil => exact absurd rfl some
      | cons existing compacted =>
        rw [combine]
        split <;> exact cons_ne_nil _ _
  unfold compactRecords
  intro none
  have length := congrArg List.length none
  rw [length_insertionSort] at length
  cases records : segment.records with
  | nil =>
    rw [records] at member
    cases member
  | cons first rest =>
    rw [records, foldl_cons] at length
    exact grows rest [first] (cons_ne_nil _ _) (length_eq_zero_iff.mp length)

/-- The first round that has something to compact leaves the index behind, and no later one puts it right. -/
theorem Identified.misplaced_compact (identified : manager.Identified) (opened : manager.isOpen = true)
    (compacts : manager.config.topicConfig.policy ≠ .deleteOnly) (eligible : manager.eligibleIndices now ≠ [])
    (keepExisting : Option (Record → Record → Bool)) : Misplaced (manager.step (.compact keepExisting now)) := by
  rw [step, compact, opened, if_neg (by decide), if_neg compacts]
  change Misplaced ((manager.eligibleIndices now).foldl (LogManager.compactRound _ now) (manager, {})).1
  cases indices : manager.eligibleIndices now with
  | nil => exact absurd indices eligible
  | cons idx rest =>
    have member : idx ∈ manager.eligibleIndices now := by
      rw [indices]
      exact mem_cons_self
    obtain ⟨-, taken⟩ := List.mem_filter.mp member
    rw [Bool.and_eq_true] at taken
    obtain ⟨segment, found, filled⟩ := (Option.any_eq_true _ _).mp taken.2
    have first : Misplaced (LogManager.compactRound (keepExisting.getD fun _ _ => false) now (manager, {}) idx).1 := by
      unfold LogManager.compactRound
      dsimp only
      rw [if_neg Bool.false_ne_true, found]
      have inside : manager.activeIndex < manager.segments.length := by
        have := identified.activeLast
        omega
      refine misplaced_compactSegment identified.unsealedLast inside (mem_of_getElem? found)
        fun none => absurd none (compactRecords_ne_nil _ ?_)
      unfold compactionEligible at filled
      simp only [Bool.and_eq_true, Bool.not_eq_true', decide_eq_false_iff_not] at filled
      exact Int.not_le.mp filled.2
    rw [foldl_cons]
    generalize LogManager.compactRound (keepExisting.getD fun _ _ => false) now (manager, {}) idx = state at first ⊢
    clear indices
    induction rest generalizing state with
    | nil => exact first
    | cons other rest ih => exact ih _ (first.compactRound _ now other)

end Misplaced

theorem Misplaced.not_chained {manager : LogManager} (misplaced : Misplaced manager) : ¬manager.Chained := by
  intro chained
  have inside := misplaced.inside
  have current : manager.activeSegment = some manager.segments[manager.activeIndex] := getElem?_eq_getElem inside
  have closed := misplaced.activeSealed _ current
  rw [(chained.onlyUnsealed _ _ current).mpr rfl] at closed
  cases closed

def CompactsNothing (manager : LogManager) (now : Int64) : Prop :=
  manager.isOpen = false ∨ manager.config.topicConfig.policy = .deleteOnly ∨ manager.eligibleIndices now = []

instance (manager : LogManager) (now : Int64) : Decidable (manager.CompactsNothing now) :=
  inferInstanceAs (Decidable (_ ∨ _))

theorem step_compact_of_idle {manager : LogManager} {now : Int64} (idle : manager.CompactsNothing now)
    (keepExisting : Option (Record → Record → Bool)) : manager.step (.compact keepExisting now) = manager := by
  rw [step, compact]
  split
  · rfl
  next opened =>
    split
    · rfl
    next compacts =>
      rw [(idle.resolve_left (by simpa using opened)).resolve_left compacts]
      rfl

theorem Identified.misplaced_of_works {manager : LogManager} {now : Int64} (identified : manager.Identified)
    (works : ¬manager.CompactsNothing now) (keepExisting : Option (Record → Record → Bool)) :
    Misplaced (manager.step (.compact keepExisting now)) := by
  rw [CompactsNothing, not_or, not_or, Bool.not_eq_false] at works
  exact identified.misplaced_compact works.1 works.2.1 works.2.2 keepExisting

/-- Compaction keeps the records and the active segment where it has nothing to do, and nowhere else. The
records alone are kept also where each segment has a record for each of its keys. -/
theorem keepsLatest_compact_iff {manager : LogManager} (identified : manager.Identified)
    (keepExisting : Option (Record → Record → Bool)) (now : Int64) :
    (KeepsLatest manager (manager.step (.compact keepExisting now)) ↔ manager.CompactsNothing now) ∧
    (Runs.Meets (compactRound (keepExisting.getD fun _ _ => false) now) FindsDistinctKeys (manager, {})
        (manager.eligibleIndices now) →
      KeepsRecords manager (manager.step (.compact keepExisting now))) := by
  refine ⟨⟨?_, ?_⟩, keepsRecords_of_distinctKeys identified keepExisting now⟩
  · intro keeps
    by_contra works
    have misplaced := identified.misplaced_of_works works keepExisting
    have inside : manager.activeIndex < manager.segments.length := by
      have := identified.activeLast
      omega
    have current : manager.activeSegment = some manager.segments[manager.activeIndex] := getElem?_eq_getElem inside
    have closed := misplaced.activeSealed _ (keeps.activeUntouched.trans current)
    have unsealed := (identified.onlyUnsealed _ _ current).mpr rfl
    rw [unsealed] at closed
    cases closed
  · intro idle
    rw [step_compact_of_idle idle]
    exact .refl manager

def compactedTopic : LogManagerConfig := { topicConfig := { policy := .compactOnly } }

def distinctBatch : RecordBatch := { records := [{ key := [97], value := [1] }, { key := [98], value := [2] }] }

def distinctCalls : List LogCall :=
  [.append distinctBatch kInvalidOffset 0, .roll 0, .append distinctBatch kInvalidOffset 0]

/-- Before the roll there is nothing to compact, and after it nothing to drop. -/
theorem keepsLatest_distinctCalls :
    let fresh := Runs.run step ((LogManager.new compactedTopic).open [] 0) (distinctCalls.take 1)
    let rolled := Runs.run step ((LogManager.new compactedTopic).open [] 0) distinctCalls
    KeepsLatest fresh (fresh.step (.compact none 0)) ∧ rolled.eligibleIndices 0 = [0] ∧
      KeepsRecords rolled (rolled.step (.compact none 0)) := by
  obtain ⟨closed, active, opened⟩ := recovered_nil.linked compactedTopic 0
  obtain ⟨closed, active, first⟩ := opened.append distinctBatch kInvalidOffset 0
  obtain ⟨_, _, rolled⟩ := first.stepRoll 0
  obtain ⟨_, _, second⟩ := rolled.append distinctBatch kInvalidOffset 0
  refine ⟨(keepsLatest_compact_iff first.identified none 0).1.mpr (.inr (.inr (by decide +kernel))), by decide +kernel,
    (keepsLatest_compact_iff second.identified none 0).2 ?_⟩
  decide +kernel

def repeatedBatch : RecordBatch := { records := [{ key := [97], value := [1] }, { key := [97], value := [2] }] }

def otherBatch : RecordBatch := { records := [{ key := [98] }] }

def repeatedCalls : List LogCall :=
  [.append repeatedBatch kInvalidOffset 0, .roll 0, .append otherBatch kInvalidOffset 0, .roll 0]

/-- The value under `a` that stays is moved to another offset. -/
theorem not_keepsLatest_repeatedBatch : ¬∀ (calls : List LogCall) (now : Int64),
    let manager := Runs.run step ((LogManager.new compactedTopic).open [] 0) calls
    KeepsLatest manager (manager.step (.compact none now)) := by
  intro claim
  obtain ⟨latest, -⟩ := (claim repeatedCalls 0).toKeepsRecords
  obtain ⟨kept, member, offset, key, -, -⟩ := latest { key := [97], value := [2], offset := 1 }
    (by decide +kernel) (by decide +kernel)
  have moved : ∀ kept ∈ ((Runs.run step ((LogManager.new compactedTopic).open [] 0) repeatedCalls).step
      (.compact none 0)).records, ¬(kept.offset = 1 ∧ kept.key = [97]) := by
    decide +kernel
  exact moved kept member ⟨offset, key⟩

end LogManager

end TorrentMq.Storage
