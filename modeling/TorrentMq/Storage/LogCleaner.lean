import TorrentMq.Collections.SortedVector
import TorrentMq.Storage.CompactionStrategy

/-!
# Log cleaner

The four passes that pick files for deletion, and what holds of their picks:
which segments they name, and where the log starts without these.
-/

set_option autoImplicit false

namespace TorrentMq.Storage

open Bytes List

/-- A sort that puts keys in order; equal ones may stand in any order. -/
structure Sorting where
  sort {α : Type} (before : α → α → Bool) (values : List α) : List α
  perm {α : Type} (before : α → α → Bool) (values : List α) : (sort before values).Perm values
  ordered {α : Type} (key : α → Int64) (values : List α) :
    (sort (fun left right => decide (key left < key right)) values).Pairwise fun left right => key left ≤ key right

def stableSorting : Sorting where
  sort before values := values.mergeSort fun left right => !before right left
  perm _ values := mergeSort_perm values _
  ordered key values := by
    refine (pairwise_mergeSort (fun first second third => ?_) (fun first second => ?_) values).imp
      fun {left right} le => ?_
    · simpa using fun below above => Int64.le_trans below above
    · simpa using Int64.le_total (key first) (key second)
    · simpa using le

inductive DeleteReason where
  | timeExpired
  | sizeExcess
  | emptySegment
  | orphanIndex
deriving DecidableEq

/-- A segment that may be deleted, and why. -/
structure SegmentEligibility where
  info : SegmentInfo
  reason : DeleteReason
  ageMs : Int64 := 0
deriving DecidableEq

abbrev SegmentEligibility.path (eligibility : SegmentEligibility) : Bytes := eligibility.info.filePath

structure DirectoryEntry where
  name : Bytes
  size : Nat
  plain : 47 ∉ name

def fileName (path : Bytes) : Bytes := (path.reverse.takeWhile (· ≠ 47)).reverse

def stem (name : Bytes) : Bytes :=
  let extension := (name.reverse.takeWhile (· ≠ 46)).length
  if name.length ≤ extension + 1 ∨ name = [46, 46] then name else name.take (name.length - (extension + 1))

def companionExtensions : List Bytes :=
  [[46, 105, 110, 100, 101, 120], [46, 116, 105, 109, 101, 105, 110, 100, 101, 120],
    [46, 99, 111, 114, 114, 117, 112, 116]]

def orphanStem (name : Bytes) : Option Bytes :=
  companionExtensions.findSome? fun extension =>
    if extension.length < name.length ∧ extension <:+ name then some (name.take (name.length - extension.length))
    else none

/-!
## Paths
-/

variable {name base dataDir : Bytes}

theorem reverse_takeWhile_reverse {separator : UInt8} {front back : Bytes} (plain : separator ∉ back)
    (ends : front = [] ∨ front.getLast? = some separator) :
    ((front ++ back).reverse.takeWhile (· ≠ separator)).reverse = back := by
  have all : ∀ byte ∈ back.reverse, decide (byte ≠ separator) = true := fun byte inside =>
    decide_eq_true fun same => plain (same ▸ mem_reverse.mp inside)
  rw [reverse_append, takeWhile_append_of_pos all]
  rcases ends with rfl | last
  · simp
  · obtain ⟨init, rfl⟩ := getLast?_eq_some_iff.mp last
    simp

theorem fileName_joinPath (plain : 47 ∉ name) : fileName (joinPath dataDir name) = name := by
  unfold joinPath fileName
  split
  next ends =>
    refine reverse_takeWhile_reverse plain (ends.imp_left List.isEmpty_iff.mp)
  next =>
    rw [← singleton_append, ← append_assoc]
    exact reverse_takeWhile_reverse plain (.inr (by simp))

theorem stem_append {extension : Bytes} (plain : 46 ∉ extension) (some : base ≠ []) (longer : extension ≠ []) :
    stem (base ++ 46 :: extension) = base := by
  have last := @reverse_takeWhile_reverse 46 (base ++ [46]) extension plain (.inr (by simp))
  rw [append_assoc, singleton_append] at last
  have length := congrArg List.length last
  rw [length_reverse] at length
  have whole : (base ++ 46 :: extension).length = base.length + (extension.length + 1) := length_append
  have one := length_pos_of_ne_nil some
  have two := length_pos_of_ne_nil longer
  unfold stem
  rw [length, whole, if_neg, Nat.add_sub_cancel, take_left]
  rintro (short | dots)
  · omega
  · rw [dots, length_cons, length_singleton] at whole
    omega

theorem stem_of_orphanStem (found : orphanStem name = some base) : stem name = base := by
  obtain ⟨extension, listed, found⟩ := exists_of_findSome?_eq_some found
  split at found
  next suffix =>
    obtain ⟨shorter, front, rfl⟩ := suffix
    rw [length_append, Nat.add_sub_cancel, take_left] at found
    cases found
    rw [length_append] at shorter
    have some : base ≠ [] := ne_nil_of_length_pos (by omega)
    simp only [companionExtensions, mem_cons, not_mem_nil, or_false] at listed
    rcases listed with rfl | rfl | rfl <;> exact stem_append (by decide) some (by decide)
  next => cases found

/-!
## Passes
-/

structure LogCleaner where
  retentionMs : Int64 := 604800000
  retentionBytes : Int := -1
  deleteOrphanIndexes : Bool := true
  /-- The floating-point bonus of a large file in its priority. -/
  sizeBonus : Nat → Int := fun _ => 0
  sorting : Sorting

namespace LogCleaner

variable (cleaner : LogCleaner) (dataDir : Bytes) (directory : List DirectoryEntry)
  (segments : List SegmentInfo) (now : Int64)

def shouldDeleteByTime (seg : SegmentInfo) : Bool :=
  !decide (cleaner.retentionMs ≤ 0) && decide (0 < seg.maxTimestamp) &&
    decide (seg.maxTimestamp < now - cleaner.retentionMs)

def shouldDeleteBySize (_ : SegmentInfo) : Bool := false

def shouldDeleteSegment (seg : SegmentInfo) : Bool :=
  !(seg.isActive || !seg.isSealed) && (cleaner.shouldDeleteByTime now seg || shouldDeleteBySize seg)

def evaluateTimeRetention : List SegmentEligibility :=
  if cleaner.retentionMs ≤ 0 then []
  else cleaner.sorting.sort (fun left right => decide (right.ageMs < left.ageMs))
    ((segments.filter fun seg => !seg.isActive && seg.isSealed && cleaner.shouldDeleteSegment now seg).map fun seg =>
      ⟨seg, .timeExpired, now - seg.maxTimestamp⟩)

def takeExcess (excess : Int) : Int → List SegmentInfo → List SegmentInfo
  | _, [] => []
  | accumulated, seg :: rest =>
    if excess ≤ accumulated then [] else seg :: takeExcess excess (accumulated + seg.fileSize) rest

def sizeCandidates : List SegmentInfo :=
  cleaner.sorting.sort (fun left right => decide (left.maxTimestamp < right.maxTimestamp))
    (segments.filter fun seg => !seg.isActive && seg.isSealed && !cleaner.shouldDeleteSegment now seg)

def evaluateSizeRetention (totalBytes : Int) : List SegmentEligibility :=
  if cleaner.retentionBytes ≤ 0 ∨ totalBytes ≤ cleaner.retentionBytes then []
  else (takeExcess (totalBytes - cleaner.retentionBytes) 0 (cleaner.sizeCandidates segments now)).map fun seg =>
    ⟨seg, .sizeExcess, 0⟩

def evaluateEmptySegments : List SegmentEligibility :=
  (segments.filter fun seg => !seg.isActive && seg.empty).map fun seg => ⟨seg, .emptySegment, 0⟩

def orphanInfo (entry : DirectoryEntry) : SegmentInfo :=
  ⟨0, kInvalidOffset, kInvalidOffset, joinPath dataDir entry.name, entry.size, 0, 0, 0, 0, 0, false, false⟩

def evaluateOrphans : List SegmentEligibility :=
  if !cleaner.deleteOrphanIndexes then []
  else (directory.filter fun entry => (orphanStem entry.name).any fun base =>
    !(segments.map fun seg => stem (fileName seg.filePath)).contains base).map fun entry =>
      ⟨orphanInfo dataDir entry, .orphanIndex, 0⟩

def computePriority (eligibility : SegmentEligibility) : Int :=
  match eligibility.reason with
  | .timeExpired =>
    let overage := eligibility.ageMs - cleaner.retentionMs
    if 0 < cleaner.retentionMs ∧ 0 < overage then
      80 + min (overage / (cleaner.retentionMs / 20 + 1)).toInt 20
    else 80
  | .sizeExcess =>
    if 0 < cleaner.retentionBytes ∧ 0 < eligibility.info.fileSize then
      40 + cleaner.sizeBonus eligibility.info.fileSize
    else 40
  | .emptySegment => 20
  | .orphanIndex => 10

def moreUrgent (left right : SegmentEligibility) : Bool :=
  if cleaner.computePriority left ≠ cleaner.computePriority right then
    decide (cleaner.computePriority right < cleaner.computePriority left)
  else if left.ageMs ≠ right.ageMs then decide (right.ageMs < left.ageMs)
  else decide (right.info.fileSize < left.info.fileSize)

def totalBytes (segments : List SegmentInfo) : Int := (segments.map (·.fileSize)).sum

def passes : List SegmentEligibility :=
  cleaner.evaluateTimeRetention segments now ++
    cleaner.evaluateSizeRetention segments now (totalBytes segments) ++ evaluateEmptySegments segments ++
      cleaner.evaluateOrphans dataDir directory segments

def eligible : List SegmentEligibility :=
  cleaner.sorting.sort cleaner.moreUrgent (cleaner.passes dataDir directory segments now)

def deletes : List SegmentInfo :=
  segments.filter fun seg => ((cleaner.eligible dataDir directory segments now).map (·.path)).contains seg.filePath

def computeNewLogStart : Int :=
  let deleted := (cleaner.eligible dataDir directory segments now).map (·.path)
  match segments.find? fun seg => !deleted.contains seg.filePath with
  | some seg => seg.baseOffset
  | none => (segments.getLast?.map (·.baseOffset)).getD kInvalidOffset

variable {cleaner dataDir directory segments now} {seg : SegmentInfo} {eligibility : SegmentEligibility}

theorem orphan_ne (inside : eligibility ∈ cleaner.evaluateOrphans dataDir directory segments) (known : seg ∈ segments) :
    eligibility.path ≠ seg.filePath := by
  unfold evaluateOrphans at inside
  split at inside
  next => exact absurd inside not_mem_nil
  next =>
    obtain ⟨entry, listed, rfl⟩ := mem_map.mp inside
    obtain ⟨base, found, unknown⟩ := (Option.any_eq_true _ _).mp (List.mem_filter.mp listed).2
    intro same
    have named : stem (fileName seg.filePath) = base := by
      rw [← same, orphanInfo, fileName_joinPath entry.plain, stem_of_orphanStem found]
    rw [← named, contains_iff_mem.mpr (mem_map_of_mem known)] at unknown
    cases unknown

/-!
## Picks
-/

theorem takeExcess_isPrefix (excess accumulated : Int) : takeExcess excess accumulated segments <+: segments := by
  induction segments generalizing accumulated with
  | nil => exact prefix_rfl
  | cons seg rest ih =>
    unfold takeExcess
    split
    next => exact nil_prefix
    next => exact cons_prefix_cons.mpr ⟨rfl, ih _⟩

def sizeExcess (cleaner : LogCleaner) (segments : List SegmentInfo) (now : Int64) : List SegmentInfo :=
  if cleaner.retentionBytes ≤ 0 ∨ totalBytes segments ≤ cleaner.retentionBytes then []
  else takeExcess (totalBytes segments - cleaner.retentionBytes) 0 (cleaner.sizeCandidates segments now)

def candidate (cleaner : LogCleaner) (now : Int64) (expired : Bool) (seg : SegmentInfo) : Bool :=
  !seg.isActive && seg.isSealed && (cleaner.shouldDeleteByTime now seg == expired)

theorem passes_perm : (cleaner.eligible dataDir directory segments now).Perm
    ((segments.filter (cleaner.candidate now true)).map (fun seg => ⟨seg, .timeExpired, now - seg.maxTimestamp⟩) ++
      (cleaner.sizeExcess segments now).map (fun seg => ⟨seg, .sizeExcess, 0⟩) ++ evaluateEmptySegments segments ++
      cleaner.evaluateOrphans dataDir directory segments) := by
  refine (cleaner.sorting.perm _ _).trans ?_
  refine ((List.Perm.append ?_ (.of_eq ?_)).append_right _).append_right _
  · unfold evaluateTimeRetention
    split
    next unlimited =>
      rw [filter_eq_nil_iff.mpr fun seg _ => by simp [candidate, shouldDeleteByTime, unlimited]]
      rfl
    next =>
      refine (cleaner.sorting.perm _ _).trans (.of_eq (congrArg _ (filter_congr fun seg _ => ?_)))
      cases active : seg.isActive <;> cases sealed : seg.isSealed <;>
        simp [candidate, shouldDeleteSegment, shouldDeleteBySize, active, sealed]
  · unfold evaluateSizeRetention sizeExcess
    split
    next => rfl
    next => rfl

theorem sizeCandidates_perm :
    (cleaner.sizeCandidates segments now).Perm (segments.filter (cleaner.candidate now false)) := by
  refine (cleaner.sorting.perm _ _).trans (.of_eq (filter_congr fun seg _ => ?_))
  cases active : seg.isActive <;> cases sealed : seg.isSealed <;>
    simp [candidate, shouldDeleteSegment, shouldDeleteBySize, active, sealed]

theorem sizeExcess_isPrefix : cleaner.sizeExcess segments now <+: cleaner.sizeCandidates segments now := by
  unfold sizeExcess
  split
  next => exact nil_prefix
  next => exact takeExcess_isPrefix _ _

/-!
## Selection
-/

structure Selects (cleaner : LogCleaner) (segments : List SegmentInfo) (now : Int64)
    (eligible : List SegmentEligibility) : Prop where
  listed : ∀ eligibility ∈ eligible, eligibility.reason ≠ .orphanIndex → eligibility.info ∈ segments ∧
    eligibility.info.isActive = false ∧ (eligibility.info.empty = false → eligibility.info.isSealed = true)
  once : ∀ seg ∈ segments, seg.empty = false → (eligible.map (·.path)).count seg.filePath ≤ 1
  expired : 0 < cleaner.retentionMs → ∀ seg ∈ segments, seg.isSealed = true → seg.isActive = false →
    0 < seg.maxTimestamp → seg.maxTimestamp < now - cleaner.retentionMs → ∃ eligibility ∈ eligible, eligibility.info = seg
  excess : (∀ seg ∈ segments, cleaner.shouldDeleteByTime now seg = false) → ∀ eligibility ∈ eligible,
    eligibility.reason = .sizeExcess → 0 < cleaner.retentionBytes ∧ cleaner.retentionBytes < totalBytes segments

theorem count_filePath (distinct : (segments.map (·.filePath)).Nodup) (path : Bytes) :
    segments.countP (fun seg => seg.filePath == path) ≤ 1 := by
  have count := nodup_iff_count.mp distinct path
  rwa [List.count, countP_map] at count

theorem eligible_cases (inside : eligibility ∈ cleaner.eligible dataDir directory segments now) :
    (∃ seg ∈ segments, cleaner.candidate now true seg = true ∧
      eligibility = ⟨seg, .timeExpired, now - seg.maxTimestamp⟩) ∨
    (∃ seg ∈ cleaner.sizeExcess segments now, eligibility = ⟨seg, .sizeExcess, 0⟩) ∨
    (∃ seg ∈ segments, seg.isActive = false ∧ seg.empty = true ∧ eligibility = ⟨seg, .emptySegment, 0⟩) ∨
    eligibility.reason = .orphanIndex ∧ eligibility ∈ cleaner.evaluateOrphans dataDir directory segments := by
  rw [passes_perm.mem_iff] at inside
  simp only [mem_append, mem_map] at inside
  rcases inside with ((⟨seg, picked, rfl⟩ | ⟨seg, picked, rfl⟩) | empty) | orphan
  · exact .inl ⟨seg, (List.mem_filter.mp picked).1, (List.mem_filter.mp picked).2, rfl⟩
  · exact .inr (.inl ⟨seg, picked, rfl⟩)
  · obtain ⟨seg, picked, rfl⟩ := mem_map.mp empty
    obtain ⟨known, due⟩ := List.mem_filter.mp picked
    simp only [Bool.and_eq_true, Bool.not_eq_true'] at due
    exact .inr (.inr (.inl ⟨seg, known, due.1, due.2, rfl⟩))
  · refine .inr (.inr (.inr ⟨?_, orphan⟩))
    unfold evaluateOrphans at orphan
    split at orphan
    next => exact absurd orphan not_mem_nil
    next =>
      obtain ⟨entry, -, rfl⟩ := mem_map.mp orphan
      rfl

theorem candidate_iff {expired : Bool} : cleaner.candidate now expired seg = true ↔
    seg.isActive = false ∧ seg.isSealed = true ∧ cleaner.shouldDeleteByTime now seg = expired := by
  simp [candidate, and_assoc]

theorem mem_of_mem_sizeExcess (picked : seg ∈ cleaner.sizeExcess segments now) :
    seg ∈ segments ∧ cleaner.candidate now false seg = true :=
  List.mem_filter.mp (sizeCandidates_perm.mem_iff.mp (sizeExcess_isPrefix.subset picked))

theorem countP_picks_le (distinct : (segments.map (·.filePath)).Nodup) (path : Bytes) :
    (segments.filter (cleaner.candidate now true)).countP (fun seg => seg.filePath == path) +
      (cleaner.sizeExcess segments now).countP (fun seg => seg.filePath == path) ≤ 1 := by
  have size : (cleaner.sizeExcess segments now).countP (fun seg => seg.filePath == path) ≤ _ :=
    sizeExcess_isPrefix.sublist.countP_le
  rw [sizeCandidates_perm.countP_eq, countP_filter] at size
  have once := count_filePath distinct path
  rw [countP_eq_countP_filter_add _ _ (cleaner.shouldDeleteByTime now), countP_filter,
    countP_filter] at once
  rw [countP_filter]
  refine (Nat.add_le_add (countP_mono_left fun seg _ both => ?_) (size.trans
    (countP_mono_left fun seg _ both => ?_))).trans once
  · simp only [Bool.and_eq_true, candidate_iff] at both ⊢
    exact ⟨both.1, both.2.2.2⟩
  · simp only [Bool.and_eq_true, candidate_iff, Bool.not_eq_true'] at both ⊢
    exact ⟨both.1, both.2.2.2⟩

/-- The list names a segment with records once at most, none that is active, and each that is past its time. -/
theorem selects (distinct : (segments.map (·.filePath)).Nodup) :
    cleaner.Selects segments now (cleaner.eligible dataDir directory segments now) where
  listed eligibility inside segment := by
    rcases eligible_cases inside with ⟨seg, known, due, rfl⟩ | ⟨seg, picked, rfl⟩ | ⟨seg, known, inactive, empty, rfl⟩ |
      ⟨orphan, -⟩
    · obtain ⟨inactive, sealed, -⟩ := candidate_iff.mp due
      exact ⟨known, inactive, fun _ => sealed⟩
    · obtain ⟨known, due⟩ := mem_of_mem_sizeExcess picked
      obtain ⟨inactive, sealed, -⟩ := candidate_iff.mp due
      exact ⟨known, inactive, fun _ => sealed⟩
    · exact ⟨known, inactive, fun full => absurd empty (by simp [full])⟩
    · exact absurd orphan segment
  once seg known full := by
    have none : ((evaluateEmptySegments segments).map (·.path)).count seg.filePath = 0 := by
      refine count_eq_zero.mpr fun inside => ?_
      obtain ⟨_, listed, same⟩ := mem_map.mp inside
      obtain ⟨other, picked, rfl⟩ := mem_map.mp listed
      obtain ⟨inside, due⟩ := List.mem_filter.mp picked
      rw [inj_on_of_nodup_map distinct inside known same, full, Bool.and_false] at due
      cases due
    have orphans : ((cleaner.evaluateOrphans dataDir directory segments).map (·.path)).count seg.filePath = 0 := by
      refine count_eq_zero.mpr fun inside => ?_
      obtain ⟨_, listed, same⟩ := mem_map.mp inside
      exact orphan_ne listed known same
    rw [(passes_perm.map _).count_eq]
    simp only [map_append, count_append, none, orphans, Nat.add_zero, map_map]
    simp only [List.count, countP_map]
    exact countP_picks_le distinct seg.filePath
  expired limited seg known sealed inactive positive old := by
    refine ⟨⟨seg, .timeExpired, now - seg.maxTimestamp⟩, passes_perm.mem_iff.mpr ?_, rfl⟩
    refine mem_append_left _ (mem_append_left _ (mem_append_left _ (mem_map.mpr ⟨seg, ?_, rfl⟩)))
    exact List.mem_filter.mpr ⟨known, by
      simp [candidate, shouldDeleteByTime, sealed, inactive, positive, old, Int64.not_le.mpr limited]⟩
  excess none eligibility inside reason := by
    rcases eligible_cases inside with ⟨seg, -, -, rfl⟩ | ⟨seg, picked, rfl⟩ | ⟨seg, -, -, -, rfl⟩ | ⟨orphan, -⟩
    · cases reason
    · unfold sizeExcess at picked
      split at picked
      next => exact absurd picked not_mem_nil
      next large => omega
    · cases reason
    · rw [reason] at orphan
      cases orphan

def agedSegment (baseOffset : Int) (name : UInt8) (maxTimestamp : Int64) : SegmentInfo :=
  ⟨0, baseOffset, baseOffset + 10, [name], 100, 0, 0, maxTimestamp, 0, 0, false, true⟩

def keepsFifty : LogCleaner := { retentionMs := 50, sorting := stableSorting }

theorem selects_agedSegment : keepsFifty.Selects [agedSegment 0 97 1] 120
    (keepsFifty.eligible [] [] [agedSegment 0 97 1] 120) :=
  selects (by decide)

/-- Without a limit of time, no segment is too old. -/
theorem not_lists_agedSegment : ∃ seg, seg.isSealed = true ∧ 0 < seg.maxTimestamp ∧ seg.maxTimestamp < 120 - (-1) ∧
    ∀ eligibility ∈ ({ keepsFifty with retentionMs := -1 } : LogCleaner).eligible [] [] [seg] 120,
      eligibility.info ≠ seg :=
  ⟨agedSegment 0 97 1, by decide +kernel⟩

/-!
## Start of the log
-/

/-- Segments with records, the sealed ones first and with timestamps that ascend. -/
structure InOrder (segments : List SegmentInfo) : Prop where
  full : ∀ seg ∈ segments, seg.empty = false
  split : ∃ front back, segments = front ++ back ∧
    (∀ seg ∈ front, seg.isActive = false ∧ seg.isSealed = true ∧ 0 < seg.maxTimestamp) ∧
    front.Pairwise (fun earlier later => earlier.maxTimestamp < later.maxTimestamp) ∧
    ∀ seg ∈ back, seg.isActive = true ∨ seg.isSealed = false

theorem candidates_isPrefix (order : InOrder segments) :
    segments.filter (cleaner.candidate now true) ++ cleaner.sizeExcess segments now <+: segments := by
  obtain ⟨front, back, whole, stands, ascending, others⟩ := order.split
  have picks : ∀ expired, segments.filter (cleaner.candidate now expired) =
      front.filter fun seg => cleaner.shouldDeleteByTime now seg == expired := by
    intro expired
    rw [whole, filter_append]
    have none : back.filter (cleaner.candidate now expired) = [] := by
      refine filter_eq_nil_iff.mpr fun seg inside due => ?_
      obtain ⟨inactive, sealed, -⟩ := candidate_iff.mp due
      rcases others seg inside with active | opened
      · rw [inactive] at active
        cases active
      · rw [sealed] at opened
        cases opened
    rw [none, append_nil]
    refine filter_congr fun seg inside => ?_
    simp [candidate, (stands seg inside).1, (stands seg inside).2.1]
  have parted : SortedVector.Partitioned (cleaner.shouldDeleteByTime now) front := by
    refine ascending.imp_of_mem fun {earlier later} first _ less due => ?_
    simp only [shouldDeleteByTime, Bool.and_eq_true, decide_eq_true_eq] at due ⊢
    exact ⟨⟨due.1.1, (stands earlier first).2.2⟩, Int64.lt_trans less due.2⟩
  obtain ⟨before, after, rfl, -, old, young⟩ := parted.split
  have expired : segments.filter (cleaner.candidate now true) = before := by
    rw [picks, filter_append, filter_eq_self.mpr fun seg inside => by simp [old seg inside],
      filter_eq_nil_iff.mpr fun seg inside => by simp [young seg inside], append_nil]
  have rest : segments.filter (cleaner.candidate now false) = after := by
    rw [picks, filter_append, filter_eq_nil_iff.mpr fun seg inside => by simp [old seg inside],
      filter_eq_self.mpr fun seg inside => by simp [young seg inside], nil_append]
  have sorted : cleaner.sizeCandidates segments now = after := by
    have permuted := @sizeCandidates_perm cleaner segments now
    rw [rest] at permuted
    have ordered := (pairwise_append.mp ascending).2.1
    have apart : (after.map (·.maxTimestamp)).Nodup := pairwise_map.mpr (ordered.imp Int64.ne_of_lt)
    refine List.Perm.eq_of_pairwise (fun left right first second below above => ?_)
      (cleaner.sorting.ordered SegmentInfo.maxTimestamp _) (ordered.imp Int64.le_of_lt) permuted
    exact inj_on_of_nodup_map apart (permuted.mem_iff.mp first) second (Int64.le_antisymm below above)
  have picked := @sizeExcess_isPrefix cleaner segments now
  rw [sorted] at picked
  rw [expired]
  exact ((prefix_append_right_inj before).mpr picked).trans ⟨back, whole.symm⟩

theorem find?_first {kept : SegmentInfo → Bool}
    (sorted : segments.Pairwise fun earlier later => earlier.baseOffset ≤ later.baseOffset)
    (known : seg ∈ segments) (stays : kept seg = true) :
    ∃ first, segments.find? kept = some first ∧ first.baseOffset ≤ seg.baseOffset := by
  induction segments with
  | nil => exact absurd known not_mem_nil
  | cons head rest ih =>
    obtain ⟨below, sorted⟩ := pairwise_cons.mp sorted
    cases holds : kept head with
    | true =>
      refine ⟨head, find?_cons_of_pos holds, ?_⟩
      rcases mem_cons.mp known with rfl | inside
      · exact Int.le_refl _
      · exact below seg inside
    | false =>
      rw [find?_cons_of_neg (by simp [holds])]
      rcases mem_cons.mp known with rfl | inside
      · rw [holds] at stays
        cases stays
      · exact ih sorted inside

/-- No segment that is left lies below the new start of the log, and deletions from an ordered log leave no hole. -/
theorem deletes_oldest (distinct : (segments.map (·.filePath)).Nodup)
    (sorted : segments.Pairwise fun earlier later => earlier.baseOffset ≤ later.baseOffset) :
    (∀ seg ∈ segments, seg ∉ cleaner.deletes dataDir directory segments now →
      cleaner.computeNewLogStart dataDir directory segments now ≤ seg.baseOffset) ∧
    (InOrder segments → cleaner.deletes dataDir directory segments now <+: segments) := by
  constructor
  · intro seg known stays
    have kept : (!((cleaner.eligible dataDir directory segments now).map (·.path)).contains seg.filePath) = true := by
      rw [Bool.not_eq_true', Bool.eq_false_iff]
      exact fun deleted => stays (List.mem_filter.mpr ⟨known, deleted⟩)
    obtain ⟨first, found, below⟩ := @find?_first segments seg
      (fun seg => !((cleaner.eligible dataDir directory segments now).map (·.path)).contains seg.filePath)
      sorted known kept
    rw [computeNewLogStart, found]
    exact below
  · intro order
    have part := @candidates_isPrefix cleaner segments now order
    have deleted : cleaner.deletes dataDir directory segments now =
        segments.filter (cleaner.candidate now true) ++ cleaner.sizeExcess segments now := by
      refine CompactionStrategy.filter_eq_of_keys part.sublist distinct fun seg known => ?_
      rw [contains_iff_mem, (passes_perm.map _).mem_iff]
      have none : evaluateEmptySegments segments = [] :=
        map_eq_nil_iff.mpr (filter_eq_nil_iff.mpr fun seg inside => by simp [order.full seg inside])
      have apart : seg.filePath ∉ (cleaner.evaluateOrphans dataDir directory segments).map (·.path) := fun inside => by
        obtain ⟨_, listed, same⟩ := mem_map.mp inside
        exact orphan_ne listed known same
      rw [none, append_nil, map_append, mem_append, or_iff_left apart]
      simp
    exact deleted ▸ part

theorem deletes_oldest_agedSegments :
    keepsFifty.deletes [] [] [agedSegment 0 97 1, agedSegment 10 98 100] 120 <+:
      [agedSegment 0 97 1, agedSegment 10 98 100] :=
  (deletes_oldest (by decide) (by decide)).2
    ⟨by decide, [agedSegment 0 97 1, agedSegment 10 98 100], [], rfl, by decide, by decide, by decide⟩

/-- A timestamp that is older than the one before it leaves a hole. -/
theorem not_deletes_oldest : ¬ keepsFifty.deletes [] [] [agedSegment 0 97 100, agedSegment 10 98 1] 120 <+:
    [agedSegment 0 97 100, agedSegment 10 98 1] := by
  decide +kernel

end LogCleaner

end TorrentMq.Storage
