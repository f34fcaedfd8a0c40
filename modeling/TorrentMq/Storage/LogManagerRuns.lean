import TorrentMq.Collections.Positions
import TorrentMq.Storage.LogManagerCompaction
import TorrentMq.Storage.LogManagerRetention
import TorrentMq.Storage.LogManagerTruncation

/-!
# Runs of a log manager

Which calls keep the chain of segments, in a run of any calls up to the end of
the process.
-/

set_option autoImplicit false

namespace TorrentMq.Storage

open List LogManager

/-!
## Chains that segments are taken out of
-/

namespace LogManager

open Positions

section Select

variable {segments : List IdealSegment} {active : IdealSegment}

/-- Behind a segment that stays, only empty ones may go. -/
theorem isChain_cons_select {previous : IdealSegment} {keep : Nat → Bool}
    (chain : (previous :: (segments ++ [active])).IsChain Follows) :
    (previous :: (select keep segments ++ [active])).IsChain Follows ↔
      ∀ j segment, segments[j]? = some segment → keep j = false → segment.nextOffset = segment.baseOffset := by
  induction segments generalizing previous keep with
  | nil => exact iff_of_true chain fun j segment found => by cases found
  | cons first segments ih =>
    obtain ⟨follows, rest⟩ := isChain_cons_cons.mp chain
    change (first :: (segments ++ [active])).IsChain Follows at rest
    have shifted : (∀ j segment, (first :: segments)[j]? = some segment → keep j = false →
        segment.nextOffset = segment.baseOffset) ↔ (keep 0 = false → first.nextOffset = first.baseOffset) ∧
          ∀ j segment, segments[j]? = some segment → keep (j + 1) = false →
            segment.nextOffset = segment.baseOffset := by
      refine ⟨fun all => ⟨all 0 first rfl, fun j segment found => all (j + 1) segment found⟩, ?_⟩
      rintro ⟨head, tail⟩ j segment found gone
      cases j with
      | zero =>
        cases found
        exact head gone
      | succ j => exact tail j segment found gone
    rw [shifted, select]
    cases kept : keep 0 with
    | true =>
      rw [if_pos rfl, cons_append, isChain_cons_cons, and_iff_right follows, ih rest]
      exact (and_iff_right fun gone => by cases gone).symm
    | false =>
      rw [if_neg Bool.false_ne_true]
      by_cases empty : first.nextOffset = first.baseOffset
      · have direct : (previous :: (segments ++ [active])).IsChain Follows := by
          obtain ⟨next, more, split⟩ : ∃ next more, segments ++ [active] = next :: more :=
            exists_cons_of_ne_nil (append_ne_nil_of_right_ne_nil _ (cons_ne_nil _ _))
          rw [split] at rest ⊢
          obtain ⟨joint, behind⟩ := isChain_cons_cons.mp rest
          exact isChain_cons_cons.mpr ⟨follows.trans (empty.symm.trans joint), behind⟩
        rw [ih direct]
        exact (and_iff_right fun _ => empty).symm
      · refine iff_of_false ?_ fun all => empty (all.1 rfl)
        intro kept
        obtain ⟨next, more, split⟩ : ∃ next more, select (fun i => keep (i + 1)) segments ++ [active] = next :: more :=
          exists_cons_of_ne_nil (append_ne_nil_of_right_ne_nil _ (cons_ne_nil _ _))
        have member : next ∈ segments ++ [active] :=
          ((select_sublist _ segments).append_right [active]).subset (by rw [split]; exact mem_cons_self)
        rw [split] at kept
        have joint : previous.nextOffset = next.baseOffset := (isChain_cons_cons.mp kept).1
        have behind := (pairwise_cons.mp (pairwise_next_of_isChain rest)).1 next member
        have same : previous.nextOffset = first.baseOffset := follows
        have grows := first.baseOffset_le_nextOffset
        omega

theorem isChain_select {keep : Nat → Bool} (chain : (segments ++ [active]).IsChain Follows) :
    (select keep segments ++ [active]).IsChain Follows ↔ ∀ j < segments.length, ∀ i < j, keep i = true →
      keep j = false → ∀ segment ∈ segments[j]?, segment.nextOffset = segment.baseOffset := by
  induction segments generalizing keep with
  | nil => exact iff_of_true chain fun j inside => absurd inside (Nat.not_lt_zero j)
  | cons first segments ih =>
    rw [select]
    cases kept : keep 0 with
    | true =>
      rw [if_pos rfl, cons_append, isChain_cons_select chain]
      constructor
      · intro all j inside i below _ gone segment found
        cases j with
        | zero => exact absurd below (Nat.not_lt_zero i)
        | succ j => exact all j segment found gone
      · intro all j segment found gone
        have inside := (List.getElem?_eq_some_iff.mp found).1
        exact all (j + 1) (by simpa using inside) 0 (Nat.succ_pos j) kept gone segment found
    | false =>
      rw [if_neg Bool.false_ne_true, ih (isChain_of_isChain_cons chain)]
      constructor
      · intro all j inside i below stays gone segment found
        cases i with
        | zero =>
          rw [kept] at stays
          cases stays
        | succ i =>
          cases j with
          | zero => exact absurd below (Nat.not_lt_zero _)
          | succ j =>
            exact all j (by simpa using inside) i (Nat.lt_of_succ_lt_succ below) stays gone segment found
      · intro all j inside i below stays gone segment found
        exact all (j + 1) (by simpa using inside) (i + 1) (Nat.succ_lt_succ below) stays gone segment found

def sizeOf (segments : List IdealSegment) : Nat := (segments.map IdealSegment.fileSize).sum

theorem sizeOf_concat (segments : List IdealSegment) (active : IdealSegment) :
    sizeOf (segments ++ [active]) = sizeOf segments + active.fileSize := by
  rw [sizeOf, map_append, sum_append, map_singleton, sum_singleton, sizeOf]

/-- What a size limit leaves of the segments in front of the active one. -/
def trimmed (limit : Int) (active : IdealSegment) : List IdealSegment → List IdealSegment
  | [] => []
  | first :: rest =>
    if (sizeOf (first :: rest ++ [active]) : Int) ≤ limit then first :: rest else trimmed limit active rest

theorem sizeOf_select_le (keep : Nat → Bool) (i : Nat) (segments : List IdealSegment) :
    sizeOf (select (fun j => decide (i ≤ j) && keep j) segments) ≤ sizeOf (select keep segments) := by
  induction segments generalizing keep i with
  | nil => exact le_rfl
  | cons first segments ih =>
    have rest : sizeOf (select (fun j => decide (i ≤ j + 1) && keep (j + 1)) segments) ≤
        sizeOf (select (fun j => keep (j + 1)) segments) := by
      have same : (fun j => decide (i ≤ j + 1) && keep (j + 1)) = fun j => decide (i - 1 ≤ j) && keep (j + 1) := by
        funext j
        congr 1
        exact decide_eq_decide.mpr (by omega)
      rw [same]
      exact ih (fun j => keep (j + 1)) (i - 1)
    rw [select, select]
    cases keep 0 with
    | false =>
      rw [Bool.and_false, if_neg Bool.false_ne_true, if_neg Bool.false_ne_true]
      exact rest
    | true =>
      have larger : sizeOf (first :: select (fun j => keep (j + 1)) segments) =
          first.fileSize + sizeOf (select (fun j => keep (j + 1)) segments) := by
        rw [sizeOf, map_cons, sum_cons, sizeOf]
      rw [if_pos (show true = true from rfl), larger]
      split
      · rw [sizeOf, map_cons, sum_cons]
        exact Nat.add_le_add_left rest _
      · exact rest.trans (Nat.le_add_left _ _)

/-- A segment stays as long as what stays from it on is within the limit. -/
theorem trimmed_select (limit : Int) (active : IdealSegment) (keep : Nat → Bool) (segments : List IdealSegment) :
    trimmed limit active (select keep segments) = select (fun i => keep i &&
      decide ((sizeOf (select (fun j => decide (i ≤ j) && keep j) segments ++ [active]) : Int) ≤ limit)) segments := by
  induction segments generalizing keep with
  | nil => rfl
  | cons first segments ih =>
    have from_zero : select (fun j => decide (0 ≤ j) && keep j) (first :: segments) = select keep (first :: segments) :=
      select_congr fun j _ => by rw [decide_eq_true (Nat.zero_le j), Bool.true_and]
    have from_succ : ∀ i, select (fun j => decide (i + 1 ≤ j) && keep j) (first :: segments) =
        select (fun j => decide (i ≤ j) && keep (j + 1)) segments := by
      intro i
      rw [select, decide_eq_false (Nat.not_succ_le_zero i), Bool.false_and, if_neg Bool.false_ne_true]
      exact select_congr fun j _ => by rw [decide_eq_decide.mpr Nat.succ_le_succ_iff]
    rw [select.eq_2 (fun i => keep i && _), from_zero, select]
    simp only [from_succ]
    cases keep 0 with
    | false =>
      rw [Bool.false_and, if_neg Bool.false_ne_true, if_neg Bool.false_ne_true]
      exact ih _
    | true =>
      rw [if_pos (show true = true from rfl), Bool.true_and, trimmed]
      split
      next within =>
        rw [if_pos (decide_eq_true within)]
        congr 1
        refine select_congr fun i _ => ?_
        have smaller := sizeOf_select_le (fun j => keep (j + 1)) i segments
        rw [sizeOf_concat] at within ⊢
        rw [sizeOf, map_cons, sum_cons, ← sizeOf] at within
        rw [decide_eq_true (by omega), Bool.and_true]
      next large =>
        rw [if_neg (by rwa [decide_eq_true_iff])]
        exact ih _

end Select

/-!
## Retention
-/

section Retention

def hitsAt (manager : LogManager) (now : Int64) : List Nat :=
  (hits ((manager.expiredCandidates now).map (·.index))).filter fun position => decide (position < manager.activeIndex)

/-- The bytes from a position on that are left once the expired segments are deleted. -/
def bytesFrom (manager : LogManager) (now : Int64) (i : Nat) : Nat :=
  sizeOf (select (fun j => decide (i ≤ j) && decide (j ∉ manager.hitsAt now)) manager.segments)

/-- No deletion by time ends up at this segment, and no size limit asks for it. -/
def StaysAt (manager : LogManager) (now : Int64) (i : Nat) : Prop :=
  i ∉ manager.hitsAt now ∧
    (0 < manager.config.topicConfig.retentionBytes →
      (manager.bytesFrom now i : Int) ≤ manager.config.topicConfig.retentionBytes)

instance (manager : LogManager) (now : Int64) (i : Nat) : Decidable (manager.StaysAt now i) :=
  inferInstanceAs (Decidable (_ ∧ _))

/-- Behind a segment that stays, only empty ones go. -/
def LeavesChain (manager : LogManager) (now : Int64) : Prop :=
  ∀ j < manager.activeIndex, ∀ i < j, manager.StaysAt now i → ¬manager.StaysAt now j →
    ∀ segment ∈ manager.segments[j]?, segment.nextOffset = segment.baseOffset

instance (manager : LogManager) (now : Int64) : Decidable (manager.LeavesChain now) := by
  unfold LeavesChain
  infer_instance

/-- A log with other sealed segments in front of the same active one. -/
def withSealed (manager : LogManager) («sealed» : List IdealSegment) (active : IdealSegment) (logStartOffset : Int) :
    LogManager :=
  { manager with segments := «sealed» ++ [active], activeIndex := «sealed».length, logStartOffset }

variable {manager : LogManager} {«sealed» : List IdealSegment} {active : IdealSegment} {start : Int}

theorem Linked.eq_withSealed (linked : Linked «sealed» active manager) :
    manager = manager.withSealed «sealed» active manager.logStartOffset := by
  rw [withSealed, ← linked.segments, ← linked.activeIndex]

theorem deleteSegment_withSealed (index : Nat) :
    (index < «sealed».length ∧ ∃ after,
        (manager.withSealed «sealed» active start).deleteSegment index =
          .ok (manager.withSealed («sealed».eraseIdx index) active after)) ∨
      («sealed».length ≤ index ∧ ∃ error,
        (manager.withSealed «sealed» active start).deleteSegment index = .error error) := by
  unfold deleteSegment withSealed
  dsimp only
  rcases Nat.lt_or_ge index «sealed».length with inside | outside
  · refine .inl ⟨inside, ((«sealed».eraseIdx index ++ [active]).head?.map (·.baseOffset)).getD start, ?_⟩
    rw [length_append, length_singleton, if_neg (by omega), if_neg (by omega), if_pos inside,
      eraseIdx_append_of_lt_length inside, length_eraseIdx_of_lt inside]
  · refine .inr ⟨outside, ?_⟩
    rw [length_append, length_singleton]
    split
    · exact ⟨_, rfl⟩
    · rw [if_pos (by omega)]
      exact ⟨_, rfl⟩

theorem deleteExpired_withSealed {state : LogManager × RetentionResult}
    (shape : ∃ start, state.1 = manager.withSealed «sealed» active start) (candidate : DeletionCandidate) :
    ∃ start, (deleteExpired state candidate).1 = manager.withSealed («sealed».eraseIdx candidate.index) active start := by
  obtain ⟨start, same⟩ := shape
  unfold deleteExpired
  rw [same]
  rcases @deleteSegment_withSealed manager «sealed» active start candidate.index with
    ⟨-, after, success⟩ | ⟨outside, error, refused⟩
  · rw [success]
    exact ⟨after, rfl⟩
  · rw [refused, eraseIdx_of_length_le outside]
    exact ⟨start, same⟩

theorem foldl_deleteExpired (state : LogManager × RetentionResult)
    (shape : ∃ start, state.1 = manager.withSealed «sealed» active start) (candidates : List DeletionCandidate) :
    ∃ start, (candidates.foldl deleteExpired state).1 =
      manager.withSealed ((candidates.map (·.index)).foldl eraseIdx «sealed») active start := by
  induction candidates generalizing «sealed» state with
  | nil => exact shape
  | cons candidate candidates ih => exact ih _ (deleteExpired_withSealed shape candidate)

theorem oldest_fold {segments : List (IdealSegment × Nat)} {activeIndex index : Nat} {base : Int}
    (valid : 0 ≤ base) (above : ∀ indexed ∈ segments, base ≤ indexed.1.baseOffset) :
    (segments.foldl
      (fun (found : Option Nat × Int) (indexed : IdealSegment × Nat) =>
        if indexed.2 = activeIndex then found
        else if indexed.1.baseOffset < found.2 ∨ found.2 = kInvalidOffset then
          (some indexed.2, indexed.1.baseOffset)
        else found)
      (some index, base)) = (some index, base) := by
  induction segments with
  | nil => rfl
  | cons indexed segments ih =>
    have first := above indexed mem_cons_self
    have keep : ¬(indexed.1.baseOffset < base ∨ base = kInvalidOffset) := by
      unfold kInvalidOffset
      omega
    rw [foldl_cons, if_neg keep, ite_self]
    exact ih fun other member => above other (mem_cons_of_mem _ member)

theorem oldest_cons {first : IdealSegment} {rest : List IdealSegment} (valid : 0 ≤ first.baseOffset)
    (sorted : (first :: rest ++ [active]).Pairwise fun earlier later => earlier.baseOffset ≤ later.baseOffset) :
    oldest (first :: rest ++ [active]) (first :: rest).length = some 0 := by
  unfold oldest
  rw [cons_append] at sorted ⊢
  rw [zipIdx_cons, foldl_cons]
  dsimp only
  rw [if_neg (by rw [length_cons]; omega), if_pos (.inr rfl), oldest_fold valid]
  intro indexed member
  exact (pairwise_cons.mp sorted).1 indexed.1 (fst_mem_of_mem_zipIdx member)

theorem deleteBySize_withSealed {state : LogManager × RetentionResult}
    (shape : ∃ start, state.1 = manager.withSealed «sealed» active start)
    (valid : ∀ segment ∈ «sealed», 0 ≤ segment.baseOffset)
    (sorted : («sealed» ++ [active]).Pairwise fun earlier later => earlier.baseOffset ≤ later.baseOffset)
    (retentionBytes : Int) {fuel : Nat} (enough : «sealed».length ≤ fuel) :
    ∃ start, (deleteBySize retentionBytes fuel (sizeOf («sealed» ++ [active])) state).1 =
      manager.withSealed (trimmed retentionBytes active «sealed») active start := by
  induction fuel generalizing «sealed» state with
  | zero =>
    rw [length_eq_zero_iff.mp (Nat.le_zero.mp enough)] at shape ⊢
    exact shape
  | succ fuel ih =>
    obtain ⟨start, same⟩ := id shape
    rw [deleteBySize]
    cases «sealed» with
    | nil =>
      split
      · exact shape
      · rw [same]
        exact ⟨start, same⟩
    | cons first rest =>
      rw [trimmed]
      split
      · exact shape
      next large =>
        rcases @deleteSegment_withSealed manager (first :: rest) active start 0 with
          ⟨-, after, success⟩ | ⟨outside, -⟩
        · rw [same]
          dsimp only [withSealed] at success ⊢
          rw [oldest_cons (valid first mem_cons_self) sorted]
          dsimp only [Option.bind, Option.map]
          rw [cons_append, getElem?_cons_zero]
          dsimp only
          rw [← cons_append, success]
          dsimp only
          have total : (sizeOf (first :: rest ++ [active]) : Int) - first.fileSize = sizeOf (rest ++ [active]) := by
            rw [cons_append, sizeOf, map_cons, sum_cons, sizeOf]
            omega
          rw [total]
          exact ih ⟨after, rfl⟩ (fun segment member => valid segment (mem_cons_of_mem _ member))
            (pairwise_cons.mp sorted).2 (Nat.le_of_succ_le_succ enough)
        · exact absurd outside (Nat.not_succ_le_zero _)

variable {now : Int64}

theorem expiredCandidates_of_unset (unset : manager.config.topicConfig.retentionMs ≤ 0) :
    manager.expiredCandidates now = [] := by
  refine expiredCandidates_eq_nil.mpr ?_
  rintro i ⟨-, segment, -, expired⟩
  rw [isExpiredByTime_of_unset unset] at expired
  cases expired

/-- What the deletions by time leave in front of the active segment. -/
def unhit (manager : LogManager) (now : Int64) («sealed» : List IdealSegment) : List IdealSegment :=
  select (fun i => decide (i ∉ manager.hitsAt now)) «sealed»

/-- What the whole check leaves there. -/
def staying (manager : LogManager) (now : Int64) («sealed» : List IdealSegment) : List IdealSegment :=
  select (fun i => decide (manager.StaysAt now i)) «sealed»

theorem Linked.foldl_eraseIdx_expired (linked : Linked «sealed» active manager) (now : Int64) :
    ((manager.expiredCandidates now).map (·.index)).foldl eraseIdx «sealed» = manager.unhit now «sealed» := by
  rw [foldl_eraseIdx (pairwise_map.mpr (pairwise_expiredCandidates manager now))]
  refine select_congr fun i inside => decide_eq_decide.mpr (not_congr ?_)
  rw [hitsAt, List.mem_filter, decide_eq_true_iff, linked.activeIndex, and_iff_left inside]

theorem Linked.bytesFrom_eq (linked : Linked «sealed» active manager) {i : Nat} (inside : i < «sealed».length) :
    manager.bytesFrom now i =
      sizeOf (select (fun j => decide (i ≤ j) && decide (j ∉ manager.hitsAt now)) «sealed» ++ [active]) := by
  have last : «sealed».length ∉ manager.hitsAt now := by
    rw [hitsAt, List.mem_filter, decide_eq_true_iff, linked.activeIndex]
    exact fun hit => Nat.lt_irrefl _ hit.2
  rw [bytesFrom, linked.segments, select_concat, if_pos]
  rw [decide_eq_true inside.le, decide_eq_true last, Bool.and_self]

/-- What stays is what the size limit leaves of what is not deleted by time. -/
theorem Linked.staying_eq (linked : Linked «sealed» active manager) (now : Int64) :
    manager.staying now «sealed» =
      if 0 < manager.config.topicConfig.retentionBytes then
        trimmed manager.config.topicConfig.retentionBytes active (manager.unhit now «sealed»)
      else manager.unhit now «sealed» := by
  unfold staying unhit
  split
  next limited =>
    rw [trimmed_select]
    refine select_congr fun i inside => ?_
    rw [← linked.bytesFrom_eq inside, ← Bool.decide_and]
    exact decide_eq_decide.mpr (and_congr_right fun _ => ⟨fun small => small limited, fun small _ => small⟩)
  next unlimited =>
    refine select_congr fun i _ => decide_eq_decide.mpr ?_
    exact ⟨And.left, fun kept => ⟨kept, fun limited => absurd limited unlimited⟩⟩

theorem Linked.staying_idle (linked : Linked «sealed» active manager)
    (timeless : manager.config.topicConfig.retentionMs ≤ 0) (sizeless : manager.config.topicConfig.retentionBytes ≤ 0) :
    manager.staying now «sealed» = «sealed» := by
  have none : manager.hitsAt now = [] := by
    rw [hitsAt, expiredCandidates_of_unset timeless]
    rfl
  rw [linked.staying_eq now, if_neg (Int.not_lt.mpr sizeless)]
  refine select_all fun i _ => decide_eq_true ?_
  rw [none]
  exact not_mem_nil

theorem Linked.deleteBySize_staying (linked : Linked «sealed» active manager) {state : LogManager × RetentionResult}
    {start : Int} (timed : state.1 = manager.withSealed (manager.unhit now «sealed») active start) :
    ∃ last, (if 0 < manager.config.topicConfig.retentionBytes then
        deleteBySize manager.config.topicConfig.retentionBytes state.1.segments.length state.1.totalBytes state
        else state).1 = manager.withSealed (manager.staying now «sealed») active last := by
  rw [linked.staying_eq now]
  split
  · have total : state.1.totalBytes = sizeOf (manager.unhit now «sealed» ++ [active]) := by
      rw [timed]
      rfl
    rw [total]
    refine deleteBySize_withSealed ⟨start, timed⟩ (fun segment member => ?_) ?_ _ ?_
    · exact linked.nonnegative segment (mem_append_left _ ((select_sublist _ _).subset member))
    · exact (sorted_of_isChain linked.follows).sublist ((select_sublist _ _).append_right _)
    · rw [timed, withSealed, length_append]
      exact Nat.le_add_right _ _
  · exact ⟨start, timed⟩

/-- What a check leaves: the sealed segments that stay, and the active one. -/
theorem Linked.retentionCheck_eq (linked : Linked «sealed» active manager) (opened : manager.isOpen = true)
    (now : Int64) :
    ∃ start, manager.step (.retentionCheck now) = manager.withSealed (manager.staying now «sealed») active start ∧
      ((manager.staying now «sealed» ++ [active]).map (·.baseOffset)).head? = some start := by
  have whole : manager = manager.withSealed «sealed» active manager.logStartOffset := linked.eq_withSealed
  rw [step, retentionCheck, opened]
  dsimp only
  rw [if_neg (by decide)]
  split
  next idle =>
    rw [linked.staying_idle idle.1 idle.2]
    exact ⟨manager.logStartOffset, whole, linked.start⟩
  next =>
    obtain ⟨start, timed⟩ := foldl_deleteExpired (manager, {}) ⟨_, whole⟩ (manager.expiredCandidates now)
    rw [linked.foldl_eraseIdx_expired now] at timed
    generalize (manager.expiredCandidates now).foldl deleteExpired (manager, {}) = state at timed ⊢
    obtain ⟨last, left⟩ := linked.deleteBySize_staying timed
    generalize (if 0 < manager.config.topicConfig.retentionBytes then
      deleteBySize manager.config.topicConfig.retentionBytes state.1.segments.length state.1.totalBytes state
      else state) = sized at left ⊢
    split
    next none =>
      rw [left, withSealed] at none
      exact absurd none (append_ne_nil_of_right_ne_nil _ (cons_ne_nil _ _))
    next first rest segments =>
      refine ⟨first.baseOffset, ?_, ?_⟩
      · change { sized.1 with logStartOffset := first.baseOffset } = _
        rw [left]
        rfl
      · rw [left] at segments
        change manager.staying now «sealed» ++ [active] = first :: rest at segments
        rw [segments]
        rfl

theorem Linked.retentionCheck_iff (linked : Linked «sealed» active manager) (opened : manager.isOpen = true) :
    (manager.LeavesChain now → ∃ closed next, Linked closed next (manager.step (.retentionCheck now))) ∧
      ((manager.step (.retentionCheck now)).Chained → manager.LeavesChain now) := by
  obtain ⟨start, after, head⟩ := linked.retentionCheck_eq opened now
  have kept : (manager.staying now «sealed»).Sublist «sealed» := select_sublist _ _
  have sublist := kept.append_right [active]
  have exact_chain : (manager.staying now «sealed» ++ [active]).IsChain Follows ↔ manager.LeavesChain now := by
    rw [staying, isChain_select linked.follows, LeavesChain, linked.activeIndex]
    refine forall₂_congr fun j inside => forall₂_congr fun i _ => ?_
    rw [decide_eq_true_iff, decide_eq_false_iff_not, linked.segments, getElem?_append_left inside]
  rw [after]
  constructor
  · intro leaves
    refine ⟨manager.staying now «sealed», active, rfl, rfl, exact_chain.mpr leaves, ?_, linked.unsealed, head, ?_,
      linked.distinct.sublist (sublist.map _), ?_⟩
    · exact fun segment member => linked.allSealed segment (kept.subset member)
    · exact fun segment member => linked.nonnegative segment (sublist.subset member)
    · exact fun segment member => linked.known segment (sublist.subset member)
  · exact fun chained => exact_chain.mp chained.follows

end Retention

/-!
## Any calls
-/

/-- The calls that keep the chain: retention deletes nothing behind a segment that stays unless it is
empty, and compaction finds nothing to do. -/
def Harmless (manager : LogManager) : LogRequest → Prop
  | .call (.retentionCheck now) => manager.isOpen = false ∨ manager.LeavesChain now
  | .call (.compact _ now) => manager.CompactsNothing now
  | _ => True

instance (manager : LogManager) : (request : LogRequest) → Decidable (manager.Harmless request)
  | .call (.retentionCheck _) => inferInstanceAs (Decidable (_ ∨ _))
  | .call (.compact _ now) => inferInstanceAs (Decidable (manager.CompactsNothing now))
  | .call (.append ..) | .call (.appendBatch ..) | .call (.roll _) | .call (.archive _) | .truncateTo _ => .isTrue trivial

section Linked

variable {«sealed» : List IdealSegment} {active : IdealSegment} {manager after : LogManager}

theorem truncateTo_unchanged {newEndOffset : Int} (reached : after ∈ serve (some manager) (.truncateTo newEndOffset)) :
    after = manager := by
  obtain ⟨outcome, returned, same⟩ := Option.map_eq_some_iff.mp reached
  rw [← same]
  cases outcome with
  | error => rfl
  | ok truncated =>
    rw [truncateTo_eq] at returned
    split at returned
    · cases returned
    split at returned
    · cases returned
    split at returned
    · cases returned
    split at returned <;> cases returned

theorem retentionCheck_of_closed (closed : manager.isOpen = false) (now : Int64) :
    manager.step (.retentionCheck now) = manager := by
  rw [step, retentionCheck, closed]
  rfl

/-- Each call keeps the chain just where it is harmless, and then all that the chain rests on. -/
theorem Linked.serve (linked : Linked «sealed» active manager) (request : LogRequest)
    (reached : after ∈ serve (some manager) request) :
    (manager.Harmless request → ∃ closed next, Linked closed next after) ∧
      (after.Chained → manager.Harmless request) := by
  cases request with
  | truncateTo newEndOffset =>
    rw [truncateTo_unchanged reached]
    exact ⟨fun _ => ⟨_, _, linked⟩, fun _ => trivial⟩
  | call call =>
    cases reached
    cases call with
    | append batch expectedBaseOffset now =>
      exact ⟨fun _ => linked.append batch expectedBaseOffset now, fun _ => trivial⟩
    | appendBatch batches clock => exact ⟨fun _ => linked.appendBatch batches clock, fun _ => trivial⟩
    | roll now => exact ⟨fun _ => linked.stepRoll now, fun _ => trivial⟩
    | archive now => exact ⟨fun _ => linked.archive now, fun _ => trivial⟩
    | retentionCheck now =>
      cases opened : manager.isOpen with
      | false =>
        rw [retentionCheck_of_closed opened]
        exact ⟨fun _ => ⟨_, _, linked⟩, fun _ => .inl opened⟩
      | true =>
        obtain ⟨keeps, exactly⟩ := @Linked.retentionCheck_iff manager «sealed» active now linked opened
        exact ⟨fun harmless => keeps (harmless.resolve_left (by rw [opened]; decide)), fun chained => .inr (exactly chained)⟩
    | compact keepExisting now =>
      constructor
      · intro idle
        rw [step_compact_of_idle idle]
        exact ⟨_, _, linked⟩
      · intro chained
        by_contra works
        exact (linked.identified.misplaced_of_works works keepExisting).not_chained chained

end Linked

end LogManager

end TorrentMq.Storage
