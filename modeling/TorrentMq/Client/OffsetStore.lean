import TorrentMq.Bytes.Decimal
import TorrentMq.Collections.OrderedMap
import TorrentMq.Runs.Basic

/-!
# Committed offsets

The offsets that groups have committed, each until it is deleted or its
retention is over. Clocks are read in milliseconds.
-/

set_option autoImplicit false

namespace TorrentMq.Client.OffsetStore

open Bytes Runs List

structure CommittedOffset where
  topicName : Bytes
  partitionIndex : Int32
  offset : Int64
  leaderEpoch : Int32
  metadata : Bytes
  commitTimestamp : Int
  /-- -1 = never expires -/
  expireTimestamp : Int
deriving DecidableEq

def CommittedOffset.isExpired (committed : CommittedOffset) (nowMs : Int) : Bool :=
  if committed.expireTimestamp ≤ 0 then false else committed.expireTimestamp < nowMs

structure Commit where
  groupId : Bytes
  topicName : Bytes
  partition : Int32
  offset : Int64
  leaderEpoch : Int32
  metadata : Bytes
  retentionMs : Int
  nowMs : Int
deriving DecidableEq

def Commit.record (commit : Commit) : CommittedOffset where
  topicName := commit.topicName
  partitionIndex := commit.partition
  offset := commit.offset
  leaderEpoch := commit.leaderEpoch
  metadata := commit.metadata
  commitTimestamp := commit.nowMs
  expireTimestamp := if 0 < commit.retentionMs then commit.nowMs + commit.retentionMs else -1

/-- The topic, a colon and the partition in decimal. -/
def makePartitionKey (topic : Bytes) (partition : Int32) : Bytes := topic ++ 58 :: decimalInt partition.toInt

abbrev PerPartition := OrderedMap Bytes CommittedOffset

structure GroupOffsetStore where
  groups : OrderedMap Bytes PerPartition := .empty

namespace GroupOffsetStore

variable (store : GroupOffsetStore)

def commit (commit : Commit) : GroupOffsetStore :=
  let perPartition := (store.groups.find? commit.groupId).getD .empty
  let key := makePartitionKey commit.topicName commit.partition
  { groups := store.groups.insert commit.groupId (perPartition.insert key commit.record) }

def fetch (groupId topic : Bytes) (partition : Int32) (nowMs : Int) : Option CommittedOffset :=
  match store.groups.find? groupId with
  | none => none
  | some perPartition =>
    match perPartition.find? (makePartitionKey topic partition) with
    | none => none
    | some committed => if committed.isExpired nowMs then none else some committed

def fetchAll (groupId : Bytes) (nowMs : Int) (order : IterationOrder Bytes) : List CommittedOffset :=
  match store.groups.find? groupId with
  | none => []
  | some perPartition =>
    ((order.visit perPartition.keys).filterMap perPartition.find?).filter fun committed => !committed.isExpired nowMs

def deleteGroup (groupId : Bytes) : Nat × GroupOffsetStore :=
  match store.groups.find? groupId with
  | none => (0, store)
  | some perPartition => (perPartition.size, { groups := store.groups.erase groupId })

def erasePartition (deleted : Nat × PerPartition) (part : Bytes × Int32) : Nat × PerPartition :=
  let key := makePartitionKey part.1 part.2
  (deleted.1 + if (deleted.2.find? key).isSome then 1 else 0, deleted.2.erase key)

def deletePartitions (groupId : Bytes) (partitions : List (Bytes × Int32)) : Nat × GroupOffsetStore :=
  match store.groups.find? groupId with
  | none => (0, store)
  | some perPartition =>
    let (count, perPartition) := partitions.foldl erasePartition (0, perPartition)
    (count, { groups := store.groups.insert groupId perPartition })

end GroupOffsetStore

inductive Call where
  | commit (commit : Commit)
  | deletePartitions (groupId : Bytes) (partitions : List (Bytes × Int32))
  | deleteGroup (groupId : Bytes)

def step (store : GroupOffsetStore) : Call → GroupOffsetStore
  | .commit commit => store.commit commit
  | .deletePartitions groupId partitions => (store.deletePartitions groupId partitions).2
  | .deleteGroup groupId => (store.deleteGroup groupId).2

/-!
## What a store is for
-/

def Commit.IsFor (commit : Commit) (groupId topic : Bytes) (partition : Int32) : Prop :=
  commit.groupId = groupId ∧ commit.topicName = topic ∧ commit.partition = partition

instance (commit : Commit) (groupId topic : Bytes) (partition : Int32) :
    Decidable (commit.IsFor groupId topic partition) := inferInstanceAs (Decidable (_ ∧ _))

/-- The retention of a commit is over. One that ends at time 0 or before stands for none. -/
def Commit.Lapsed (commit : Commit) (nowMs : Int) : Prop :=
  0 < commit.retentionMs ∧ 0 < commit.nowMs + commit.retentionMs ∧ commit.nowMs + commit.retentionMs < nowMs

/-- The call commits to the partition or deletes it. -/
def Call.Touches (groupId topic : Bytes) (partition : Int32) : Call → Prop
  | .commit made => made.IsFor groupId topic partition
  | .deletePartitions group partitions => group = groupId ∧ (topic, partition) ∈ partitions
  | .deleteGroup group => group = groupId

instance (groupId topic : Bytes) (partition : Int32) :
    (call : Call) → Decidable (call.Touches groupId topic partition)
  | .commit made => inferInstanceAs (Decidable (made.IsFor groupId topic partition))
  | .deletePartitions _ _ => inferInstanceAs (Decidable (_ ∧ _))
  | .deleteGroup _ => inferInstanceAs (Decidable (_ = _))

/-- The last commit to a partition, which has not been deleted since. -/
def LastCommit (groupId topic : Bytes) (partition : Int32) (calls : List Call) (made : Commit) : Prop :=
  ∃ before after, calls = before ++ .commit made :: after ∧ made.IsFor groupId topic partition ∧
    ∀ call ∈ after, ¬call.Touches groupId topic partition

variable {groupId topic : Bytes} {partition : Int32} {calls : List Call} {call : Call} {made : Commit}

theorem lastCommit_concat : LastCommit groupId topic partition (calls ++ [call]) made ↔
    if call.Touches groupId topic partition then call = .commit made
    else LastCommit groupId topic partition calls made := by
  constructor
  · rintro ⟨before, after, same, own, quiet⟩
    rcases eq_nil_or_concat' after with rfl | ⟨after, last, rfl⟩
    · obtain ⟨-, last⟩ := append_inj' same rfl
      obtain rfl := singleton_inj.mp last
      exact (if_pos own).mpr rfl
    · rw [← cons_append, ← append_assoc] at same
      obtain ⟨rfl, last⟩ := append_inj' same rfl
      rw [singleton_inj.mp last, if_neg (quiet _ (mem_append_right _ mem_cons_self))]
      exact ⟨before, after, rfl, own, fun earlier listed => quiet earlier (mem_append_left _ listed)⟩
  · split
    next touches =>
      rintro rfl
      exact ⟨calls, [], rfl, touches, nofun⟩
    next other =>
      rintro ⟨before, after, rfl, own, quiet⟩
      refine ⟨before, after ++ [call], by simp, own, fun later listed => ?_⟩
      rcases mem_append.mp listed with listed | listed
      · exact quiet later listed
      · rw [mem_singleton.mp listed]
        exact other

/-!
## What a store holds
-/

namespace GroupOffsetStore

open OrderedMap

variable {store : GroupOffsetStore}

def committed (store : GroupOffsetStore) (groupId topic : Bytes) (partition : Int32) : Option CommittedOffset :=
  (store.groups.find? groupId).bind fun perPartition => perPartition.find? (makePartitionKey topic partition)

theorem makePartitionKey_inj {other : Bytes} {index : Int32} :
    makePartitionKey topic partition = makePartitionKey other index ↔ topic = other ∧ partition = index :=
  append_decimalInt_inj.trans (and_congr_right fun _ => Int32.toInt_inj)

theorem fetch_eq (nowMs : Int) : store.fetch groupId topic partition nowMs =
    (store.committed groupId topic partition).filter fun committed => !committed.isExpired nowMs := by
  unfold fetch committed
  cases store.groups.find? groupId with
  | none => rfl
  | some perPartition =>
    rw [Option.bind_some]
    dsimp only
    cases perPartition.find? (makePartitionKey topic partition) with
    | none => rfl
    | some committed => cases expired : committed.isExpired nowMs <;> simp [Option.filter, expired]

theorem committed_commit : (store.commit made).committed groupId topic partition =
    if made.IsFor groupId topic partition then some made.record else store.committed groupId topic partition := by
  unfold committed commit
  dsimp only
  rw [find?_insert]
  by_cases group : groupId = made.groupId
  · rw [if_pos group, Option.bind_some, find?_insert]
    split
    next same =>
      obtain ⟨topics, partitions⟩ := makePartitionKey_inj.mp same
      rw [if_pos ⟨group.symm, topics.symm, partitions.symm⟩]
    next other =>
      rw [if_neg fun own => other (makePartitionKey_inj.mpr ⟨own.2.1.symm, own.2.2.symm⟩), group]
      cases store.groups.find? made.groupId with
      | none => rfl
      | some => rfl
  · rw [if_neg group, if_neg fun own => group own.1.symm]

variable (partitions : List (Bytes × Int32))

theorem find?_erasePartitions (deleted : Nat × PerPartition) :
    (partitions.foldl erasePartition deleted).2.find? (makePartitionKey topic partition) =
      if (topic, partition) ∈ partitions then none else deleted.2.find? (makePartitionKey topic partition) := by
  induction partitions generalizing deleted with
  | nil => rfl
  | cons part partitions ih =>
    rw [foldl_cons, ih, erasePartition, find?_erase]
    split
    next listed => rw [if_pos (mem_cons_of_mem _ listed)]
    next others =>
      refine if_congr (makePartitionKey_inj.trans ?_) rfl rfl
      rw [mem_cons, or_iff_left others, Prod.ext_iff]

theorem committed_deletePartitions {group : Bytes} {partitions : List (Bytes × Int32)} :
    (store.deletePartitions group partitions).2.committed groupId topic partition =
      if group = groupId ∧ (topic, partition) ∈ partitions then none
      else store.committed groupId topic partition := by
  unfold deletePartitions
  cases found : store.groups.find? group with
  | none =>
    dsimp only
    split
    next gone => rw [committed, ← gone.1, found, Option.bind_none]
    next => rfl
  | some perPartition =>
    unfold committed
    dsimp only
    rw [find?_insert]
    by_cases same : groupId = group
    · rw [if_pos same, Option.bind_some, find?_erasePartitions, same, found, Option.bind_some]
      exact if_congr (by simp) rfl rfl
    · rw [if_neg same, if_neg fun gone => same gone.1.symm]

theorem committed_deleteGroup {group : Bytes} : (store.deleteGroup group).2.committed groupId topic partition =
    if group = groupId then none else store.committed groupId topic partition := by
  unfold deleteGroup
  cases found : store.groups.find? group with
  | none =>
    dsimp only
    split
    next gone => rw [committed, ← gone, found, Option.bind_none]
    next => rfl
  | some perPartition =>
    unfold committed
    dsimp only
    rw [find?_erase]
    by_cases same : groupId = group
    · rw [if_pos same, if_pos same.symm, Option.bind_none]
    · rw [if_neg same, if_neg (Ne.symm same)]

theorem committed_run {record : CommittedOffset} : (run step {} calls).committed groupId topic partition = some record ↔
    ∃ made, LastCommit groupId topic partition calls made ∧ record = made.record := by
  induction calls using List.reverseRecOn with
  | nil =>
    refine iff_of_false nofun ?_
    rintro ⟨made, ⟨before, after, same, -⟩, -⟩
    simp at same
  | append_singleton calls call ih =>
    rw [run_concat]
    simp only [lastCommit_concat]
    cases call with
    | commit made =>
      rw [step, committed_commit]
      by_cases own : made.IsFor groupId topic partition
      · simp [Call.Touches, own, eq_comm]
      · simp [Call.Touches, own, ih]
    | deletePartitions group partitions =>
      rw [step, committed_deletePartitions]
      by_cases gone : group = groupId ∧ (topic, partition) ∈ partitions
      · simp [Call.Touches, gone]
      · simp [Call.Touches, gone, ih]
    | deleteGroup group =>
      rw [step, committed_deleteGroup]
      by_cases gone : group = groupId
      · simp [Call.Touches, gone]
      · simp [Call.Touches, gone, ih]

theorem isExpired_record (made : Commit) (nowMs : Int) : made.record.isExpired nowMs = true ↔ made.Lapsed nowMs := by
  unfold CommittedOffset.isExpired Commit.record Commit.Lapsed
  dsimp only
  split
  next keeps => split <;> simp <;> omega
  next positive => simp; omega

/-!
## All commits of a group
-/

/-- Every commit is kept under the key of its partition. -/
def Keyed (perPartition : PerPartition) : Prop :=
  ∀ key, ∀ record ∈ perPartition.find? key, key = makePartitionKey record.topicName record.partitionIndex

theorem keyed_empty : Keyed .empty := nofun

theorem Keyed.insert {perPartition : PerPartition} (keyed : Keyed perPartition) (made : Commit) :
    Keyed (perPartition.insert (makePartitionKey made.topicName made.partition) made.record) := by
  intro key record found
  rw [find?_insert] at found
  split at found
  next same =>
    obtain rfl := Option.some_inj.mp found
    exact same
  next => exact keyed key record found

theorem Keyed.erasePartitions {deleted : Nat × PerPartition}
    (keyed : Keyed deleted.2) : Keyed (partitions.foldl erasePartition deleted).2 := by
  induction partitions generalizing deleted with
  | nil => exact keyed
  | cons part partitions ih =>
    refine ih fun key record found => ?_
    rw [erasePartition, find?_erase] at found
    split at found
    next => cases found
    next => exact keyed key record found

def AllKeyed (store : GroupOffsetStore) : Prop :=
  ∀ groupId, ∀ perPartition ∈ store.groups.find? groupId, Keyed perPartition

theorem AllKeyed.step (all : store.AllKeyed) (call : Call) : (step store call).AllKeyed := by
  intro groupId perPartition found
  cases call with
  | commit made =>
    rw [OffsetStore.step, commit, find?_insert] at found
    split at found
    next =>
      obtain rfl := Option.some_inj.mp found
      cases former : store.groups.find? made.groupId with
      | none => exact keyed_empty.insert made
      | some perPartition => exact (all made.groupId perPartition former).insert made
    next => exact all groupId perPartition found
  | deletePartitions group partitions =>
    rw [OffsetStore.step, deletePartitions] at found
    cases former : store.groups.find? group with
    | none =>
      rw [former] at found
      exact all groupId perPartition found
    | some others =>
      rw [former] at found
      dsimp only at found
      rw [find?_insert] at found
      split at found
      next =>
        obtain rfl := Option.some_inj.mp found
        exact Keyed.erasePartitions partitions (all group others former)
      next => exact all groupId perPartition found
  | deleteGroup group =>
    rw [OffsetStore.step, deleteGroup] at found
    cases former : store.groups.find? group with
    | none =>
      rw [former] at found
      exact all groupId perPartition found
    | some others =>
      rw [former] at found
      dsimp only at found
      rw [find?_erase] at found
      split at found
      next => cases found
      next => exact all groupId perPartition found

theorem allKeyed_run (calls : List Call) : (run OffsetStore.step {} calls).AllKeyed := by
  induction calls using List.reverseRecOn with
  | nil => exact nofun
  | append_singleton calls call ih =>
    rw [run_concat]
    exact ih.step call

theorem filterMap_single {keys : List Bytes} (distinct : keys.Nodup) (key : Bytes)
    (value : Option CommittedOffset) : keys.filterMap (fun other => if other = key then value else none) =
      if key ∈ keys then value.toList else [] := by
  induction keys with
  | nil => rfl
  | cons first keys ih =>
    obtain ⟨fresh, distinct⟩ := nodup_cons.mp distinct
    rw [filterMap_cons, ih distinct]
    by_cases same : first = key
    · subst same
      cases value <;> simp [fresh]
    · simp [same, Ne.symm same]

theorem AllKeyed.fetchAll (all : store.AllKeyed) (nowMs : Int) (order : IterationOrder Bytes) :
    (store.fetchAll groupId nowMs order).filter (fun record => record.topicName = topic ∧ record.partitionIndex = partition) =
      (store.fetch groupId topic partition nowMs).toList := by
  unfold GroupOffsetStore.fetchAll
  rw [fetch_eq, committed]
  cases found : store.groups.find? groupId with
  | none => rfl
  | some perPartition =>
    have distinct := (order.perm _).nodup_iff.mpr perPartition.nodup_keys
    have keyed := all groupId perPartition found
    dsimp only
    rw [Option.bind_some, filter_filter, filter_filterMap]
    have alone : ∀ key ∈ order.visit perPartition.keys,
        (perPartition.find? key).filter (fun record =>
          decide (record.topicName = topic ∧ record.partitionIndex = partition) && !record.isExpired nowMs) =
        if key = makePartitionKey topic partition then
          (perPartition.find? (makePartitionKey topic partition)).filter fun record => !record.isExpired nowMs
        else none := by
      intro key _
      cases stored : perPartition.find? key with
      | none =>
        split
        next same => rw [← same, stored]; rfl
        next => rfl
      | some record =>
        have named := keyed key record stored
        split
        next same =>
          obtain ⟨topics, partitions⟩ := makePartitionKey_inj.mp (named.symm.trans same)
          rw [← same, stored]
          simp [Option.filter, topics, partitions]
        next other =>
          have differs : ¬(record.topicName = topic ∧ record.partitionIndex = partition) :=
            fun same => other (named.trans (makePartitionKey_inj.mpr same))
          simp [Option.filter, differs]
    rw [filterMap_congr alone, filterMap_single distinct]
    split
    next => rfl
    next absent =>
      rw [find?_eq_none_iff_not_mem_keys.mpr fun member => absent ((order.perm _).mem_iff.mpr member)]
      rfl

end GroupOffsetStore

/-- In every run of the store, a partition has what has been committed to it last and has not been deleted since,
until its retention is over, and all commits of a group are those of its partitions. -/
theorem fetch_last_commit (calls : List Call) (groupId : Bytes) :
    (∀ topic partition nowMs record, (run step {} calls).fetch groupId topic partition nowMs = some record ↔
      ∃ made, LastCommit groupId topic partition calls made ∧ record = made.record ∧ ¬made.Lapsed nowMs) ∧
    ∀ nowMs order topic partition,
      ((run step {} calls).fetchAll groupId nowMs order).filter
          (fun record => record.topicName = topic ∧ record.partitionIndex = partition) =
        ((run step {} calls).fetch groupId topic partition nowMs).toList := by
  refine ⟨fun topic partition nowMs record => ?_, fun nowMs order topic partition => ?_⟩
  · rw [GroupOffsetStore.fetch_eq, Option.filter_eq_some_iff, GroupOffsetStore.committed_run]
    constructor
    · rintro ⟨⟨made, last, rfl⟩, kept⟩
      refine ⟨made, last, rfl, fun lapsed => ?_⟩
      rw [(GroupOffsetStore.isExpired_record made nowMs).mpr lapsed] at kept
      cases kept
    · rintro ⟨made, last, rfl, stands⟩
      refine ⟨⟨made, last, rfl⟩, ?_⟩
      rw [Bool.eq_false_iff.mpr fun expired => stands ((GroupOffsetStore.isExpired_record made nowMs).mp expired)]
      rfl
  · exact (GroupOffsetStore.allKeyed_run calls).fetchAll nowMs order
/-- A commit before time 0 whose retention ends before it is kept for good. -/
theorem lapsed_commit_fetched :
    ¬∀ (calls : List Call) (groupId topic : Bytes) (partition : Int32) (nowMs : Int) (record : CommittedOffset),
      (run step {} calls).fetch groupId topic partition nowMs = some record ↔
        ∃ made, LastCommit groupId topic partition calls made ∧ record = made.record ∧
          ¬(0 < made.retentionMs ∧ made.nowMs + made.retentionMs < nowMs) := by
  intro all
  let early : Commit := { groupId := [103], topicName := [116], partition := 0, offset := 7, leaderEpoch := 0
                          metadata := [], retentionMs := 50, nowMs := -100 }
  have fetched : (run step {} [.commit early]).fetch [103] [116] 0 0 = some early.record := by decide
  obtain ⟨made, ⟨before, after, same, -⟩, -, stands⟩ := (all _ _ _ _ _ _).mp fetched
  obtain ⟨rfl, rest⟩ : before = [] ∧ [.commit early] = .commit made :: after := by
    cases before with
    | nil => exact ⟨rfl, same⟩
    | cons => simp at same
  obtain rfl : early = made := by simpa using (List.cons.inj rest).1
  exact stands (by decide)

end TorrentMq.Client.OffsetStore
