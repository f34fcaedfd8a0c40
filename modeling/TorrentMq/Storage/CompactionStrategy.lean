import Mathlib.Data.List.Nodup
import Mathlib.Data.Rat.Defs
import TorrentMq.Storage.LogSnapshot

/-!
# Planning of a compaction

Which segments are merged, which are compacted alone and which are left, and
when every candidate is counted once.
-/

set_option autoImplicit false

namespace TorrentMq.Storage

open List Nat

def SegmentInfo.empty (info : SegmentInfo) : Bool := decide (info.nextOffset ≤ info.baseOffset)

structure SegmentCandidate where
  info : SegmentInfo
  duplicateCount : Int64 := 0
  totalKeys : Int64 := 0
  now : Int64 := 0
deriving DecidableEq

abbrev SegmentCandidate.id (seg : SegmentCandidate) : Nat := seg.info.segmentId

structure SingleTask where
  segmentId : Nat
  urgent : Bool
deriving DecidableEq

structure MergeTask where
  segmentIds : List Nat
  urgent : Bool
deriving DecidableEq

structure CompactionPlan where
  singleTasks : List SingleTask := []
  mergeTasks : List MergeTask := []
  skippedCount : Nat := 0
deriving DecidableEq

def CompactionPlan.taskIds (plan : CompactionPlan) : List Nat :=
  plan.mergeTasks.flatMap (·.segmentIds) ++ plan.singleTasks.map (·.segmentId)

structure CompactionStrategy (Ratio : Type) where
  minCompactionLagMs : Int64 := 0
  maxCompactionLagMs : Int64 := 0
  minCleanableDirtyRatio : Ratio
  maxMergeSegments : Int := 8
  smallSegmentThreshold : Int := 16 * 1024 * 1024

namespace CompactionStrategy

variable {Ratio : Type} (strategy : CompactionStrategy Ratio)

def ageMs (seg : SegmentCandidate) (now : Int64) : Int64 :=
  let ref := if 0 < seg.info.lastModified then seg.info.lastModified else seg.info.createdAt
  if ref ≤ 0 then 0 else now - ref

def isEligible (seg : SegmentCandidate) : Bool :=
  seg.info.isSealed && !seg.info.isActive && !seg.info.empty &&
    (decide (strategy.minCompactionLagMs ≤ 0) || decide (strategy.minCompactionLagMs ≤ ageMs seg seg.now))

def isUrgent (seg : SegmentCandidate) : Bool :=
  decide (0 < strategy.maxCompactionLagMs) && decide (strategy.maxCompactionLagMs ≤ ageMs seg seg.now)

def isSmall (seg : SegmentCandidate) : Bool :=
  strategy.isEligible seg && decide (seg.info.fileSize < strategy.smallSegmentThreshold)

def runAfter (rest : List SegmentCandidate) : List SegmentCandidate :=
  (rest.take (strategy.maxMergeSegments.toNat - 1)).takeWhile strategy.isSmall

def mergeRuns : List SegmentCandidate → List (List SegmentCandidate)
  | [] => []
  | seg :: rest =>
    if strategy.isSmall seg then
      (seg :: strategy.runAfter rest) :: mergeRuns (rest.drop (strategy.runAfter rest).length)
    else mergeRuns rest
termination_by segments => segments.length

def planMerges (segments : List SegmentCandidate) : List MergeTask :=
  if strategy.maxMergeSegments < 2 then []
  else ((strategy.mergeRuns segments).filter (2 ≤ ·.length)).map fun run =>
    ⟨run.map (·.id), run.any strategy.isUrgent⟩

variable {strategy} {seg : SegmentCandidate} {segments rest run : List SegmentCandidate} {place : Nat}

theorem runAfter_append_drop : strategy.runAfter rest ++ rest.drop (strategy.runAfter rest).length = rest :=
  prefix_iff_eq_append.mp (( takeWhile_prefix _).trans ( take_prefix _ _))

theorem isSmall_of_mem_runAfter (inside : seg ∈ strategy.runAfter rest) : strategy.isSmall seg = true :=
  mem_takeWhile_imp inside

theorem head_not_small {small : SegmentCandidate → Bool} {room : Nat} {next : SegmentCandidate}
    (short : ((rest.take room).takeWhile small).length < room)
    (head : next ∈ (rest.drop ((rest.take room).takeWhile small).length).head?) : small next = false := by
  induction rest generalizing room with
  | nil => simp at head
  | cons seg rest ih =>
    cases room with
    | zero => exact absurd short (not_lt_zero _)
    | succ room =>
      rw [take_succ_cons] at short head
      cases holds : small seg with
      | false =>
        rw [takeWhile_cons_of_neg (by simp [holds])] at head
        simp only [length_nil, drop_zero, head?_cons, Option.mem_some_iff] at head
        exact head ▸ holds
      | true =>
        rw [takeWhile_cons_of_pos holds, length_cons] at short head
        exact ih (lt_of_succ_lt_succ short) head

theorem mergeRuns_induction {motive : List SegmentCandidate → List (List SegmentCandidate) → Prop}
    (none : motive [] [])
    (left : ∀ seg rest, strategy.isSmall seg = false → motive rest (strategy.mergeRuns rest) →
      motive (seg :: rest) (strategy.mergeRuns rest))
    (taken : ∀ seg run rest, (∀ small ∈ seg :: run, strategy.isSmall small = true) →
      run.length ≤ strategy.maxMergeSegments.toNat - 1 →
      (run.length < strategy.maxMergeSegments.toNat - 1 → ∀ next ∈ rest.head?, strategy.isSmall next = false) →
      motive rest (strategy.mergeRuns rest) →
      motive (seg :: (run ++ rest)) ((seg :: run) :: strategy.mergeRuns rest))
    (segments : List SegmentCandidate) : motive segments (strategy.mergeRuns segments) := by
  fun_induction mergeRuns strategy segments with
  | case1 => exact none
  | case2 seg rest small ih =>
    have whole := @runAfter_append_drop _ strategy rest
    have step := taken seg (strategy.runAfter rest) (rest.drop (strategy.runAfter rest).length)
      (forall_mem_cons.mpr ⟨small, fun _ => isSmall_of_mem_runAfter⟩)
      (( takeWhile_prefix _).length_le.trans (length_take_le _ _))
      (fun short _ head => head_not_small short head) ih
    rwa [whole] at step
  | case3 seg rest large ih => exact left seg rest (Bool.eq_false_iff.mpr large) ih

/-- A run is a stretch of the list, of small segments and within the limit. -/
def RunOf (strategy : CompactionStrategy Ratio) (segments run : List SegmentCandidate) : Prop :=
  (∃ before after, segments = before ++ run ++ after) ∧ (∀ seg ∈ run, strategy.isSmall seg = true) ∧
    run.length ≤ strategy.maxMergeSegments.toNat - 1 + 1

theorem RunOf.append (earlier : List SegmentCandidate) (runOf : strategy.RunOf segments run) :
    strategy.RunOf (earlier ++ segments) run := by
  obtain ⟨⟨before, after, rfl⟩, rest⟩ := runOf
  exact ⟨⟨earlier ++ before, after, by simp only [append_assoc]⟩, rest⟩

theorem runOf_of_mem_mergeRuns : ∀ run ∈ strategy.mergeRuns segments, strategy.RunOf segments run := by
  induction segments using @mergeRuns_induction _ strategy with
  | none => exact fun _ inside => absurd inside not_mem_nil
  | left seg rest large ih => exact fun run inside => (ih run inside).append [seg]
  | taken seg run rest small room ends ih =>
    rintro other (_ | ⟨_, inside⟩)
    · exact ⟨⟨[], rest, rfl⟩, small, succ_le_succ room⟩
    · exact (ih other inside).append (seg :: run)

theorem mergeRuns_flatten_sublist :
    ((strategy.mergeRuns segments).filter (2 ≤ ·.length)).flatten.Sublist segments := by
  induction segments using @mergeRuns_induction _ strategy with
  | none => exact List.Sublist.slnil
  | left seg rest large ih => exact ih.cons seg
  | taken seg run rest small room ends ih =>
    rw [filter_cons]
    split
    next => exact (ih.append_left run).cons_cons seg
    next => exact ih.trans (sublist_append_right (seg :: run) rest)

def merged (strategy : CompactionStrategy Ratio) (segments : List SegmentCandidate) : List SegmentCandidate :=
  if strategy.maxMergeSegments < 2 then [] else ((strategy.mergeRuns segments).filter (2 ≤ ·.length)).flatten

theorem merged_sublist : (strategy.merged segments).Sublist segments := by
  unfold merged
  split
  next => exact nil_sublist _
  next => exact mergeRuns_flatten_sublist

theorem planMerges_flatMap :
    (strategy.planMerges segments).flatMap (·.segmentIds) = (strategy.merged segments).map (·.id) := by
  unfold planMerges merged
  split
  next => rfl
  next => rw [flatMap_map, map_flatten, flatMap_def]

theorem taken_iff {seg : SegmentCandidate} :
    (strategy.planMerges segments).any (·.segmentIds.contains seg.id) = true ↔
      seg.id ∈ (strategy.merged segments).map (·.id) := by
  rw [← planMerges_flatMap]
  simp

theorem isEligible_iff {seg : SegmentCandidate} : strategy.isEligible seg = true ↔
    seg.info.isSealed = true ∧ seg.info.isActive = false ∧ seg.info.baseOffset < seg.info.nextOffset ∧
      (0 < strategy.minCompactionLagMs → strategy.minCompactionLagMs ≤ ageMs seg seg.now) := by
  have lag : ¬ strategy.minCompactionLagMs ≤ 0 ↔ 0 < strategy.minCompactionLagMs := Int64.not_le
  simp [isEligible, SegmentInfo.empty, and_assoc, or_iff_not_imp_left, lag]

theorem isEligible_of_isSmall {seg : SegmentCandidate} (small : strategy.isSmall seg = true) :
    strategy.isEligible seg = true :=
  (Bool.and_eq_true_iff.mp small).1

theorem isSmall_of_mem_merged {seg : SegmentCandidate} (inside : seg ∈ strategy.merged segments) :
    strategy.isSmall seg = true := by
  unfold merged at inside
  split at inside
  next => exact absurd inside not_mem_nil
  next =>
    obtain ⟨run, found, member⟩ := mem_flatten.mp inside
    exact (runOf_of_mem_mergeRuns run (List.mem_filter.mp found).1).2.1 seg member

variable (strategy) [IntCast Ratio] [Zero Ratio] [Div Ratio] [LT Ratio] [DecidableLT Ratio]

def dirtyRatio (seg : SegmentCandidate) : Ratio :=
  if seg.totalKeys ≤ 0 then 0 else (seg.duplicateCount.toInt : Ratio) / (seg.totalKeys.toInt : Ratio)

def tooClean (seg : SegmentCandidate) : Bool :=
  !strategy.isUrgent seg && (decide (0 < strategy.minCleanableDirtyRatio) &&
    decide (dirtyRatio seg < strategy.minCleanableDirtyRatio))

def skips (seg : SegmentCandidate) : Bool := !strategy.isEligible seg || strategy.tooClean seg

def planSingle (plan : CompactionPlan) (seg : SegmentCandidate) : CompactionPlan :=
  if strategy.skips seg then { plan with skippedCount := plan.skippedCount + 1 }
  else if plan.mergeTasks.any (·.segmentIds.contains seg.id) then plan
  else { plan with singleTasks := plan.singleTasks ++ [⟨seg.id, strategy.isUrgent seg⟩] }

def plan (segments : List SegmentCandidate) : CompactionPlan :=
  segments.foldl strategy.planSingle { mergeTasks := strategy.planMerges segments }

def single (tasks : List MergeTask) (seg : SegmentCandidate) : Bool :=
  !strategy.skips seg && !tasks.any (·.segmentIds.contains seg.id)

/-- Every candidate is in one task or skipped, and the tasks are of the candidates that may be in them. -/
structure Partitions (segments : List SegmentCandidate) (plan : CompactionPlan) : Prop where
  once : plan.taskIds.Nodup
  eligible : ∀ id ∈ plan.taskIds, ∃ seg ∈ segments, seg.id = id ∧ seg.info.isSealed = true ∧
    seg.info.isActive = false ∧ seg.info.baseOffset < seg.info.nextOffset ∧
    (0 < strategy.minCompactionLagMs → strategy.minCompactionLagMs ≤ ageMs seg seg.now)
  runs : ∀ task ∈ plan.mergeTasks, ∃ before run after, segments = before ++ run ++ after ∧
    task.segmentIds = run.map (·.id) ∧ 2 ≤ run.length ∧ run.length ≤ strategy.maxMergeSegments ∧
    ∀ seg ∈ run, seg.info.fileSize < strategy.smallSegmentThreshold
  counted : plan.taskIds.length + plan.skippedCount = segments.length

/-- A small candidate with too few duplicates comes last of the small ones around it, at the start of a run
of its own. `place` counts those right before it. -/
def CleanAlone : Nat → List SegmentCandidate → Prop
  | _, [] => True
  | place, seg :: rest =>
    if strategy.isSmall seg then
      (strategy.tooClean seg → strategy.maxMergeSegments < 2 ∨
        place % strategy.maxMergeSegments.toNat = 0 ∧ ∀ next ∈ rest.head?, strategy.isSmall next = false) ∧
      CleanAlone (place + 1) rest
    else CleanAlone 0 rest

variable {strategy}

theorem cleanAlone_append (small : ∀ seg ∈ run, strategy.isSmall seg = true)
    (inside : ∀ i < run.length, (place + i) % strategy.maxMergeSegments.toNat ≠ 0)
    (merges : ¬ strategy.maxMergeSegments < 2) :
    strategy.CleanAlone place (run ++ rest) ↔
      (∀ seg ∈ run, strategy.tooClean seg = false) ∧ strategy.CleanAlone (place + run.length) rest := by
  induction run generalizing place with
  | nil => simp
  | cons seg run ih =>
    obtain ⟨head, tail⟩ := forall_mem_cons.mp small
    have shifted := @ih (place + 1) tail fun i bound => by
      rw [add_assoc, add_comm 1]
      exact inside (i + 1) (succ_lt_succ bound)
    have start : place % strategy.maxMergeSegments.toNat ≠ 0 := inside 0 (succ_pos _)
    rw [cons_append, CleanAlone, if_pos head, shifted, forall_mem_cons, length_cons,
      add_assoc, add_comm 1]
    simp only [merges, start, false_and, or_false, imp_false, Bool.not_eq_true, and_assoc]

theorem cleanAlone_iff (merges : ¬ strategy.maxMergeSegments < 2)
    (start : ∀ next ∈ segments.head?, strategy.isSmall next = true → place % strategy.maxMergeSegments.toNat = 0) :
    strategy.CleanAlone place segments ↔
      ∀ seg ∈ ((strategy.mergeRuns segments).filter (2 ≤ ·.length)).flatten, strategy.tooClean seg = false := by
  induction segments using @mergeRuns_induction _ strategy generalizing place with
  | none => simp [CleanAlone]
  | left seg rest large ih =>
    rw [CleanAlone, if_neg (by simp [large]), ih fun _ _ _ => zero_mod _]
  | taken seg run rest small room ends ih =>
    obtain ⟨head, tail⟩ := forall_mem_cons.mp small
    have limit : run.length + 1 ≤ strategy.maxMergeSegments.toNat := by omega
    have zero := start seg rfl head
    have inside : ∀ i < run.length, (place + 1 + i) % strategy.maxMergeSegments.toNat ≠ 0 := fun i bound => by
      rw [add_assoc, add_mod, zero, zero_add, mod_mod, mod_eq_of_lt (by omega)]
      omega
    have next := @ih (place + 1 + run.length) fun next first small => by
      by_cases short : run.length < strategy.maxMergeSegments.toNat - 1
      · exact absurd small (by simp [ends short next first])
      · rw [show place + 1 + run.length = place + strategy.maxMergeSegments.toNat by omega, add_mod_right, zero]
    rw [CleanAlone, if_pos head, cleanAlone_append tail inside merges, next]
    cases run with
    | nil =>
      have alone := ends (by simp only [length_nil]; omega)
      rw [filter_cons_of_neg (by simp)]
      exact ⟨fun clean => clean.2.2, fun clean => ⟨fun _ => .inr ⟨zero, alone⟩, by simp, clean⟩⟩
    | cons second run =>
      have follows : strategy.isSmall second = true := tail second mem_cons_self
      rw [filter_cons_of_pos (by simp), flatten_cons, forall_mem_append]
      simp only [forall_mem_cons, and_assoc]
      refine and_congr ?_ Iff.rfl
      simp only [merges, cons_append, head?_cons, Option.mem_some_iff, forall_eq', follows]
      simp

theorem cleanAlone_iff_merged :
    strategy.CleanAlone 0 segments ↔ ∀ seg ∈ strategy.merged segments, strategy.tooClean seg = false := by
  unfold merged
  split
  next none =>
    suffices alone : ∀ place, strategy.CleanAlone place segments by simp [alone]
    induction segments with
    | nil => exact fun _ => trivial
    | cons seg rest ih =>
      intro place
      rw [CleanAlone]
      split
      next => exact ⟨fun _ => .inl none, ih _⟩
      next => exact ih 0
  next merges => exact cleanAlone_iff merges fun _ _ _ => zero_mod _

theorem foldl_planSingle (plan : CompactionPlan) :
    segments.foldl strategy.planSingle plan =
      { plan with
        singleTasks := plan.singleTasks ++
          (segments.filter (strategy.single plan.mergeTasks)).map fun seg => ⟨seg.id, strategy.isUrgent seg⟩
        skippedCount := plan.skippedCount + segments.countP strategy.skips } := by
  induction segments generalizing plan with
  | nil => simp
  | cons seg rest ih =>
    rw [foldl_cons, ih, filter_cons, countP_cons, planSingle, single]
    split
    next skipped => simp [skipped, add_assoc, add_comm 1]
    next kept =>
      split
      next taken => rw [taken, if_neg (by simp), add_zero]
      next free =>
        rw [Bool.eq_false_iff.mpr kept, Bool.eq_false_iff.mpr free, if_pos (by rfl), map_cons,
          append_assoc, singleton_append]
        rfl

theorem taskIds_plan :
    (strategy.plan segments).taskIds = (strategy.merged segments).map (·.id) ++
      (segments.filter (strategy.single (strategy.planMerges segments))).map (·.id) := by
  rw [plan, foldl_planSingle, CompactionPlan.taskIds, planMerges_flatMap]
  simp

theorem filter_eq_of_keys {α κ : Type} {key : α → κ} {picks : α → Bool} {some all : List α} (part : some.Sublist all)
    (distinct : (all.map key).Nodup) (picked : ∀ entry ∈ all, picks entry = true ↔ key entry ∈ some.map key) :
    all.filter picks = some := by
  induction part with
  | slnil => rfl
  | cons first part ih =>
    obtain ⟨new, distinct⟩ := nodup_cons.mp distinct
    have apart : ¬ picks first = true := fun holds =>
      new ((part.map key).subset ((picked first mem_cons_self).mp holds))
    rw [filter_cons_of_neg apart, ih distinct fun entry inside => picked entry (mem_cons_of_mem _ inside)]
  | @cons_cons some all first part ih =>
    obtain ⟨new, distinct⟩ := nodup_cons.mp distinct
    rw [filter_cons_of_pos ((picked first mem_cons_self).mpr mem_cons_self), cons_inj_right]
    refine ih distinct fun entry inside => ?_
    have other : key entry ≠ key first := fun same => new (same ▸ mem_map_of_mem inside)
    rw [picked entry (mem_cons_of_mem _ inside), map_cons, mem_cons, or_iff_right other]

theorem countP_add_countP {α : Type} (p q : α → Bool) (all : List α) :
    all.countP q + (all.filter fun entry => !p entry && !q entry).length + all.countP p =
      all.length + (all.filter q).countP p := by
  induction all with
  | nil => rfl
  | cons first all ih =>
    cases holdsP : p first <;> cases holdsQ : q first <;> simp [holdsP, holdsQ] <;> omega

theorem taskIds_length_add (distinct : (segments.map (·.id)).Nodup) :
    (strategy.plan segments).taskIds.length + (strategy.plan segments).skippedCount =
      segments.length + (strategy.merged segments).countP strategy.skips := by
  have picked := filter_eq_of_keys (@merged_sublist _ strategy segments) distinct fun _ _ => decide_eq_true_iff
  have total := countP_add_countP strategy.skips
    (fun seg => decide (seg.id ∈ (strategy.merged segments).map (·.id))) segments
  rw [picked, countP_eq_length_filter, picked] at total
  rw [taskIds_plan, plan, foldl_planSingle, length_append, length_map, length_map, zero_add, ← total]
  congr 3
  refine filter_congr fun seg _ => ?_
  rw [single, Bool.eq_iff_iff.mpr (taken_iff.trans decide_eq_true_iff.symm)]

theorem skips_of_isEligible {seg : SegmentCandidate} (eligible : strategy.isEligible seg = true) :
    strategy.skips seg = strategy.tooClean seg := by
  rw [skips, eligible, Bool.not_true, Bool.false_or]

theorem nodup_taskIds (distinct : (segments.map (·.id)).Nodup) : (strategy.plan segments).taskIds.Nodup := by
  rw [taskIds_plan, nodup_append]
  refine ⟨distinct.sublist (merged_sublist.map _), distinct.sublist (filter_sublist.map _), ?_⟩
  rintro id taken other alone rfl
  obtain ⟨seg, inside, rfl⟩ := mem_map.mp alone
  have free := (Bool.and_eq_true_iff.mp (List.mem_filter.mp inside).2).2
  rw [taken_iff.mpr taken] at free
  exact absurd free (by decide)

theorem isEligible_of_mem_taskIds {id : Nat} (inside : id ∈ (strategy.plan segments).taskIds) :
    ∃ seg ∈ segments, seg.id = id ∧ strategy.isEligible seg = true := by
  rw [taskIds_plan, ← map_append] at inside
  obtain ⟨seg, member, same⟩ := mem_map.mp inside
  rcases mem_append.mp member with taken | alone
  · exact ⟨seg, merged_sublist.subset taken, same, isEligible_of_isSmall (isSmall_of_mem_merged taken)⟩
  · obtain ⟨listed, kept⟩ := List.mem_filter.mp alone
    have unskipped := (Bool.and_eq_true_iff.mp kept).1
    rw [skips, Bool.not_or, Bool.not_not] at unskipped
    exact ⟨seg, listed, same, (Bool.and_eq_true_iff.mp unskipped).1⟩

theorem run_of_mem_mergeTasks {task : MergeTask} (inside : task ∈ (strategy.plan segments).mergeTasks) :
    ∃ before run after, segments = before ++ run ++ after ∧ task.segmentIds = run.map (·.id) ∧ 2 ≤ run.length ∧
      run.length ≤ strategy.maxMergeSegments ∧
      ∀ seg ∈ run, seg.info.fileSize < strategy.smallSegmentThreshold := by
  rw [plan, foldl_planSingle, planMerges] at inside
  split at inside
  next => exact absurd inside not_mem_nil
  next merges =>
    obtain ⟨run, listed, rfl⟩ := mem_map.mp inside
    obtain ⟨found, two⟩ := List.mem_filter.mp listed
    obtain ⟨⟨before, after, whole⟩, small, room⟩ := runOf_of_mem_mergeRuns run found
    exact ⟨before, run, after, whole, rfl, of_decide_eq_true two, by omega, fun seg member =>
      of_decide_eq_true (Bool.and_eq_true_iff.mp (small seg member)).2⟩

/-- A plan splits its candidates into tasks and those it skips, unless it merges one that is too clean. -/
theorem partitions_iff (distinct : (segments.map (·.id)).Nodup) :
    strategy.Partitions segments (strategy.plan segments) ↔ strategy.CleanAlone 0 segments := by
  have counted := @taskIds_length_add _ strategy _ _ _ _ _ _ distinct
  have none : (strategy.merged segments).countP strategy.skips = 0 ↔ strategy.CleanAlone 0 segments := by
    rw [countP_eq_zero, cleanAlone_iff_merged]
    refine forall₂_congr fun seg inside => ?_
    rw [skips_of_isEligible (isEligible_of_isSmall (isSmall_of_mem_merged inside)), Bool.not_eq_true]
  refine Iff.trans ⟨fun whole => ?_, fun zero => ?_⟩ none
  · have sum := whole.counted
    omega
  refine ⟨nodup_taskIds distinct, fun id inside => ?_, fun task => run_of_mem_mergeTasks, by omega⟩
  obtain ⟨seg, listed, same, eligible⟩ := isEligible_of_mem_taskIds inside
  exact ⟨seg, listed, same, isEligible_iff.mp eligible⟩

def cleanCandidate (id : Nat) : SegmentCandidate where
  info := ⟨id, id, id + 1, [], 0, 0, 0, 0, 0, 0, false, true⟩
  totalKeys := 1

def halfDirty : CompactionStrategy ℚ := { minCleanableDirtyRatio := 1 / 2 }

def dirtyPairs : List SegmentCandidate :=
  [0, 1, 2, 3].map (fun id => { cleanCandidate id with duplicateCount := 1 }) ++ [cleanCandidate 4]

/-- Two runs are merged, and the clean segment after them stays alone. -/
theorem partitions_dirtyPairs : let inPairs := { halfDirty with maxMergeSegments := 2 }
    inPairs.Partitions dirtyPairs (inPairs.plan dirtyPairs) := by
  refine (partitions_iff (by decide)).mpr ⟨?_, ?_, ?_, ?_, fun _ => .inr ⟨rfl, nofun⟩, trivial⟩
  all_goals exact fun clean => absurd clean (by decide +kernel)

/-- Two clean segments are merged, and both are counted as skipped. -/
theorem not_partitions_cleanCandidates :
    ¬ halfDirty.Partitions [cleanCandidate 0, cleanCandidate 1]
      (halfDirty.plan [cleanCandidate 0, cleanCandidate 1]) :=
  fun whole => absurd whole.counted (by decide +kernel)

end CompactionStrategy

end TorrentMq.Storage
