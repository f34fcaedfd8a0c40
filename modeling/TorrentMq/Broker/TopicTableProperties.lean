import TorrentMq.Arithmetic.Counters
import TorrentMq.Broker.TopicTable

/-! Interleavings of creations, deletions and clean-ups after which the topic table
is right. -/

set_option autoImplicit false

namespace TorrentMq.Broker.TopicTable

open Bytes Runs Interleaving List OrderedMap Option TopicCacheEntry TopicManager

def TableEvent.removes (name : Bytes) : TableEvent → Bool
  | .erased other _ (some _) | .cleaned other _ => decide (other = name)
  | _ => false

def TopicMetadata.partitionCount (metadata : TopicMetadata) : Nat := metadata.partitions.length

def TopicCacheEntry.partitionCount (entry : TopicCacheEntry) : Nat := entry.metadata.partitionCount

/-- The counter is the sum over the table, a name is created again only after its topic was removed, and no
deletion removes a topic that was created after it has marked its own. -/
structure TopicManager.Consistent (manager : TopicManager) : Prop where
  counted : manager.totalPartitionCount.toInt = manager.topics.sum partitionCount
  createdOnce : ∀ before name first middle second after,
    manager.history = before ++ .created name first :: (middle ++ .created name second :: after) →
      ∃ event ∈ middle, event.removes name = true
  erasesOwn : ∀ before name target middle removed after,
    manager.history = before ++ .marked name target :: (middle ++ .erased name target (some removed) :: after) →
      .created name removed ∉ middle

def Orderly (pool : Pool) : Event → Prop
  | .start _ => True
  | .advance index _ =>
    (∀ metadata, pool.At index (.createInsert metadata) →
      pool.shared.topics.find? metadata.name = none ∧
        pool.shared.topics.sum partitionCount + metadata.partitionCount < 2 ^ 31) ∧
    ∀ snapshot, pool.At index (.deleteErase snapshot) →
      ∃ entry, pool.shared.topics.find? snapshot.name = some entry ∧ entry.metadata.topicId = snapshot.topicId

theorem concat_eq_append_cons {α : Type} {list before after : List α} {last item : α} :
    list ++ [last] = before ++ item :: after ↔
      after = [] ∧ item = last ∧ before = list ∨ ∃ rest, after = rest ++ [last] ∧ list = before ++ item :: rest := by
  constructor
  · intro same
    rcases eq_nil_or_concat' after with rfl | ⟨rest, other, rfl⟩
    · obtain ⟨front, back⟩ := append_inj' same rfl
      exact .inl ⟨rfl, (singleton_inj.mp back).symm, front.symm⟩
    · have grouped : list ++ [last] = (before ++ item :: rest) ++ [other] := by simpa using same
      obtain ⟨front, back⟩ := append_inj' grouped rfl
      exact .inr ⟨rest, by rw [singleton_inj.mp back], front⟩
  · intro cases
    rcases cases with ⟨rfl, rfl, rfl⟩ | ⟨rest, rfl, rfl⟩
    · rfl
    · simp

def createdIds (history : List TableEvent) : List Nat :=
  history.filterMap fun event => match event with
    | .created _ topicId => some topicId
    | _ => none

theorem mem_createdIds {history : List TableEvent} {topicId : Nat} :
    topicId ∈ createdIds history ↔ ∃ name, .created name topicId ∈ history := by
  simp only [createdIds, mem_filterMap]
  constructor
  · intro found
    obtain ⟨event, listed, same⟩ := found
    cases event with
    | created name other =>
      cases same
      exact ⟨name, listed⟩
    | marked | erased | cleaned => cases same
  · intro found
    obtain ⟨name, listed⟩ := found
    exact ⟨_, listed, rfl⟩

theorem createdIds_append (before after : List TableEvent) :
    createdIds (before ++ after) = createdIds before ++ createdIds after := filterMap_append

def TopicMetadata.Sized (metadata : TopicMetadata) : Prop :=
  0 < metadata.partitionCount ∧ (metadata.partitionCount : Int) ≤ kMaxPartitions

structure TopicManager.Ledger (manager : TopicManager) : Prop where
  fresh : ∀ topicId ∈ createdIds manager.history, topicId < manager.nextTopicId
  distinct : (createdIds manager.history).Nodup
  stored : ∀ name entry, manager.topics.find? name = some entry → entry.metadata.name = name ∧ entry.metadata.Sized ∧
    .created name entry.metadata.topicId ∈ manager.history
  absent : ∀ name, manager.topics.find? name = none → ∀ before topicId after,
    manager.history = before ++ .created name topicId :: after → ∃ event ∈ after, event.removes name = true
  marked : ∀ before name target after,
    manager.history = before ++ .marked name target :: after → .created name target ∈ before

/-!
## What a section adds
-/

structure Extends (manager after : TopicManager) (event : TableEvent) : Prop where
  history : after.history = manager.history ++ [event]
  next : after.nextTopicId = manager.nextTopicId
  kept : ∀ name entry, after.topics.find? name = some entry →
    (∃ old, manager.topics.find? name = some old ∧ old.metadata = entry.metadata) ∨
      event = .created name entry.metadata.topicId ∧ entry.metadata.name = name ∧ entry.metadata.Sized
  gone : ∀ name, after.topics.find? name = none → event.removes name = true ∨
    manager.topics.find? name = none ∧ ∀ topicId, event ≠ .created name topicId
  fresh : ∀ name topicId, event = .created name topicId →
    topicId < manager.nextTopicId ∧ topicId ∉ createdIds manager.history
  marked : ∀ name target, event = .marked name target → .created name target ∈ manager.history

variable {manager after : TopicManager} {event : TableEvent} {name : Bytes} {metadata snapshot : TopicMetadata}
  {surroundings : Surroundings}

theorem TopicManager.Ledger.extend (ledger : manager.Ledger) (change : Extends manager after event) :
    after.Ledger where
  fresh := by
    intro topicId listed
    rw [change.next]
    rw [change.history, createdIds_append] at listed
    cases mem_append.mp listed with
    | inl old => exact ledger.fresh topicId old
    | inr new =>
      obtain ⟨name, same⟩ := mem_createdIds.mp new
      exact (change.fresh name topicId (mem_singleton.mp same).symm).1
  distinct := by
    rw [change.history, createdIds_append]
    refine ledger.distinct.append ?_ ?_
    · cases event <;> simp [createdIds]
    · intro topicId old new
      obtain ⟨name, same⟩ := mem_createdIds.mp new
      exact (change.fresh name topicId (mem_singleton.mp same).symm).2 old
  stored := by
    intro name entry found
    rw [change.history]
    rcases change.kept name entry found with ⟨old, present, same⟩ | ⟨new, named, sized⟩
    · obtain ⟨named, sized, created⟩ := ledger.stored name old present
      rw [same] at named sized created
      exact ⟨named, sized, mem_append_left _ created⟩
    · exact ⟨named, sized, by simp [new]⟩
  absent := by
    intro name missing before topicId rest split
    rw [change.history, concat_eq_append_cons] at split
    rcases change.gone name missing with removes | ⟨earlier, other⟩
    · rcases split with ⟨-, same, -⟩ | ⟨more, rfl, -⟩
      · rw [← same] at removes
        cases removes
      · exact ⟨event, by simp, removes⟩
    · rcases split with ⟨-, same, -⟩ | ⟨more, rfl, old⟩
      · exact absurd same.symm (other topicId)
      · obtain ⟨removal, listed, removes⟩ := ledger.absent name earlier before topicId more old
        exact ⟨removal, mem_append_left _ listed, removes⟩
  marked := by
    intro before name target rest split
    rw [change.history, concat_eq_append_cons] at split
    rcases split with ⟨-, same, rfl⟩ | ⟨more, -, old⟩
    · exact change.marked name target same.symm
    · exact ledger.marked before name target more old

/-!
## What calls know
-/

def Knows (point : Point) (manager : TopicManager) : Prop :=
  match point with
  | .createInsert metadata =>
    metadata.Sized ∧ metadata.topicId < manager.nextTopicId ∧ metadata.topicId ∉ createdIds manager.history
  | .deleteErase snapshot =>
    snapshot.Sized ∧ ∃ before middle,
      manager.history = before ++ .marked snapshot.name snapshot.topicId :: middle ∧
        ∀ entry, manager.topics.find? snapshot.name = some entry →
          entry.metadata = snapshot ∨ .created snapshot.name entry.metadata.topicId ∈ middle
  | _ => True

def Apart : Point → Point → Prop
  | .createInsert metadata, .createInsert other => metadata.topicId ≠ other.topicId
  | _, _ => True

variable {point : Point}

theorem Knows.extend (knows : Knows point manager) (change : Extends manager after event)
    (others : ∀ metadata, point = .createInsert metadata → ∀ name, event ≠ .created name metadata.topicId) :
    Knows point after := by
  cases point with
  | createInsert metadata =>
    obtain ⟨sized, below, unseen⟩ := knows
    refine ⟨sized, change.next ▸ below, ?_⟩
    rw [change.history, createdIds_append]
    intro listed
    cases mem_append.mp listed with
    | inl old => exact unseen old
    | inr new =>
      obtain ⟨name, same⟩ := mem_createdIds.mp new
      exact others metadata rfl name (mem_singleton.mp same).symm
  | deleteErase snapshot =>
    obtain ⟨sized, before, middle, split, entries⟩ := knows
    refine ⟨sized, before, middle ++ [event], by rw [change.history, split]; simp, ?_⟩
    intro entry found
    rcases change.kept snapshot.name entry found with ⟨old, present, same⟩ | ⟨new, -, -⟩
    · rw [← same]
      exact (entries old present).imp_right fun listed => mem_append_left _ listed
    · exact .inr (by simp [new])
  | createCheck | createBuild | deleteMark | cleanupList | cleanupRemove => exact knows

theorem sized_buildMetadata {partitions replicationFactor brokerCount : Int} {topicId : Nat}
    (valid : validatePartitionParams partitions replicationFactor brokerCount = none) :
    (buildMetadata surroundings topicId name partitions replicationFactor).Sized := by
  have bounds : kMinPartitions ≤ partitions ∧ partitions ≤ kMaxPartitions := by
    unfold validatePartitionParams at valid
    split at valid
    · cases valid
    · split at valid
      · cases valid
      · exact ⟨by omega, by omega⟩
  have count : (buildMetadata surroundings topicId name partitions replicationFactor).partitionCount =
      partitions.toNat := by simp [TopicMetadata.partitionCount, buildMetadata]
  simp only [kMinPartitions] at bounds
  rw [TopicMetadata.Sized, count]
  exact ⟨by omega, by omega⟩

theorem createBuild_cases {partitions replicationFactor : Int} :
    (∃ answer, (manager.createBuild surroundings name partitions replicationFactor).2 = .returned answer ∧
      ((manager.createBuild surroundings name partitions replicationFactor).1 = manager ∨
        (manager.createBuild surroundings name partitions replicationFactor).1 =
          { manager with nextTopicId := manager.nextTopicId + 1 })) ∨
      ∃ metadata : TopicMetadata, metadata.topicId = manager.nextTopicId ∧ metadata.Sized ∧
        manager.createBuild surroundings name partitions replicationFactor =
          ({ manager with nextTopicId := manager.nextTopicId + 1 }, .running (.createInsert metadata)) := by
  unfold createBuild
  dsimp only
  split
  next error => exact .inl ⟨_, rfl, .inl rfl⟩
  next valid =>
    split
    next partition => exact .inl ⟨_, rfl, .inr rfl⟩
    next => exact .inr ⟨_, rfl, sized_buildMetadata valid, rfl⟩

theorem createInsert_extends (knows : Knows (.createInsert metadata) manager) :
    Extends manager (manager.createInsert metadata) (.created metadata.name metadata.topicId) where
  history := rfl
  next := rfl
  kept := by
    intro name entry found
    rw [show (manager.createInsert metadata).topics.find? name = _ from find?_insert name] at found
    split at found
    next own =>
      cases found
      exact .inr ⟨by rw [own], own.symm, knows.1⟩
    next => exact .inl ⟨entry, found, rfl⟩
  gone := by
    intro name missing
    rw [show (manager.createInsert metadata).topics.find? name = _ from find?_insert name] at missing
    split at missing
    next => cases missing
    next other =>
      refine .inr ⟨missing, ?_⟩
      intro topicId same
      cases same
      exact other rfl
  fresh := by
    intro name topicId same
    cases same
    exact knows.2
  marked := nofun

theorem deleteMark_cases :
    (∃ answer, manager.deleteMark surroundings name = (manager, .returned answer)) ∨
      ∃ entry marked, manager.topics.find? name = some entry ∧ marked.metadata = entry.metadata ∧
        manager.deleteMark surroundings name =
          ({ manager with
              topics := manager.topics.insert name marked
              history := manager.history ++ [.marked name entry.metadata.topicId] },
            .running (.deleteErase entry.metadata)) := by
  unfold deleteMark
  split
  next => exact .inl ⟨_, rfl⟩
  next entry found =>
    split
    next => exact .inl ⟨_, rfl⟩
    next =>
      exact .inr ⟨entry, { entry with markedForDeletion := true, deletionMarkedAt := surroundings.now }, found, rfl, rfl⟩

theorem mark_extends (ledger : manager.Ledger) {entry marked : TopicCacheEntry}
    (found : manager.topics.find? name = some entry) (same : marked.metadata = entry.metadata) :
    Extends manager
      { manager with
        topics := manager.topics.insert name marked
        history := manager.history ++ [.marked name entry.metadata.topicId] }
      (.marked name entry.metadata.topicId) where
  history := rfl
  next := rfl
  kept := by
    intro other present stands
    rw [find?_insert other] at stands
    split at stands
    next own =>
      cases stands
      exact .inl ⟨entry, own ▸ found, same.symm⟩
    next => exact .inl ⟨present, stands, rfl⟩
  gone := by
    intro other missing
    rw [find?_insert other] at missing
    split at missing
    next => cases missing
    next => exact .inr ⟨missing, nofun⟩
  fresh := nofun
  marked := by
    intro other target marks
    cases marks
    exact (ledger.stored name entry found).2.2

theorem erase_extends (removes : manager.topics.find? name ≠ none → event.removes name = true)
    (uncreated : ∀ other topicId, event ≠ .created other topicId)
    (unmarked : ∀ other target, event ≠ .marked other target) (topics : after.topics = manager.topics.erase name)
    (history : after.history = manager.history ++ [event]) (next : after.nextTopicId = manager.nextTopicId) :
    Extends manager after event where
  history := history
  next := next
  kept := by
    intro other entry found
    rw [topics, find?_erase other] at found
    split at found
    next => cases found
    next => exact .inl ⟨entry, found, rfl⟩
  gone := by
    intro other missing
    by_cases absent : manager.topics.find? other = none
    · exact .inr ⟨absent, uncreated other⟩
    · rw [topics, find?_erase other] at missing
      split at missing
      next own => exact .inl (own ▸ removes (own ▸ absent))
      next => exact absurd missing absent
  fresh := fun other topicId same => absurd same (uncreated other topicId)
  marked := fun other target same => absurd same (unmarked other target)

theorem deleteErase_extends : Extends manager (manager.deleteErase snapshot)
    (.erased snapshot.name snapshot.topicId ((manager.topics.find? snapshot.name).map (·.metadata.topicId))) := by
  refine @erase_extends manager (manager.deleteErase snapshot) _ snapshot.name ?_ nofun nofun rfl rfl rfl
  intro present
  obtain ⟨entry, found⟩ := ne_none_iff_exists'.mp present
  rw [found]
  exact decide_eq_true rfl

theorem cleanupOne_cases (manager : TopicManager) (name : Bytes) :
    manager.cleanupOne name = manager ∨ ∃ entry, manager.topics.find? name = some entry ∧
      (manager.cleanupOne name).totalPartitionCount =
        manager.totalPartitionCount - Int32.ofNat entry.metadata.partitions.length ∧
      (manager.cleanupOne name).topics = manager.topics.erase name ∧
      Extends manager (manager.cleanupOne name) (.cleaned name entry.metadata.topicId) := by
  unfold cleanupOne
  split
  next => exact .inl rfl
  next entry found =>
    refine .inr ⟨entry, found, rfl, rfl, ?_⟩
    refine @erase_extends manager _ _ name ?_ nofun nofun rfl rfl rfl
    exact fun _ => decide_eq_true rfl

theorem cleanupRemove_induction {motive : TopicManager → Prop} (toRemove : List Bytes)
    (one : ∀ manager name, motive manager → motive (manager.cleanupOne name)) (holds : motive manager) :
    motive (toRemove.foldl cleanupOne manager) := by
  induction toRemove generalizing manager with
  | nil => exact holds
  | cons name toRemove ih => exact ih (one manager name holds)

theorem TopicManager.Ledger.take (ledger : manager.Ledger) :
    Ledger { manager with nextTopicId := manager.nextTopicId + 1 } :=
  { ledger with fresh := fun topicId listed => Nat.lt_succ_of_lt (ledger.fresh topicId listed) }

theorem Knows.take (knows : Knows point manager) :
    Knows point { manager with nextTopicId := manager.nextTopicId + 1 } := by
  cases point with
  | createInsert metadata => exact ⟨knows.1, Nat.lt_succ_of_lt knows.2.1, knows.2.2⟩
  | createCheck | createBuild | deleteMark | deleteErase | cleanupList | cleanupRemove => exact knows

theorem TopicManager.Ledger.recount (ledger : manager.Ledger) : manager.recount.Ledger := { ledger with }

theorem Knows.recount (knows : Knows point manager) : Knows point manager.recount := by
  cases point with
  | createCheck | createBuild | createInsert | deleteMark | deleteErase | cleanupList | cleanupRemove => exact knows

theorem Knows.extend_of_uncreated (knows : Knows point manager) (change : Extends manager after event)
    (uncreated : ∀ name topicId, event ≠ .created name topicId) : Knows point after :=
  knows.extend change fun metadata _ name => uncreated name metadata.topicId

theorem ledger_act (ledger : manager.Ledger) (knows : Knows point manager) :
    (manager.act point surroundings).1.Ledger := by
  cases point with
  | createCheck => exact ledger
  | createBuild name partitions replicationFactor =>
    change (manager.createBuild surroundings name partitions replicationFactor).1.Ledger
    rcases createBuild_cases with ⟨answer, -, same | taken⟩ | ⟨metadata, -, -, result⟩
    · rwa [same]
    · rw [taken]
      exact ledger.take
    · rw [result]
      exact ledger.take
  | createInsert metadata => exact ledger.extend (createInsert_extends knows)
  | deleteMark name =>
    change (manager.deleteMark surroundings name).1.Ledger
    rcases deleteMark_cases with ⟨answer, result⟩ | ⟨entry, marked, found, same, result⟩
    · rwa [result]
    · rw [result]
      exact ledger.extend (mark_extends ledger found same)
  | deleteErase snapshot => exact ledger.extend deleteErase_extends
  | cleanupList => exact ledger
  | cleanupRemove toRemove =>
    refine TopicManager.Ledger.recount (cleanupRemove_induction toRemove ?_ ledger)
    intro manager name ledger
    rcases cleanupOne_cases manager name with same | ⟨entry, -, -, -, change⟩
    · rwa [same]
    · exact ledger.extend change

theorem knows_act {other : Point} (ledger : manager.Ledger) (knows : Knows point manager)
    (knows_other : Knows other manager) (apart : Apart point other) :
    Knows other (manager.act point surroundings).1 := by
  cases point with
  | createCheck => exact knows_other
  | createBuild name partitions replicationFactor =>
    change Knows other (manager.createBuild surroundings name partitions replicationFactor).1
    rcases createBuild_cases with ⟨answer, -, same | taken⟩ | ⟨metadata, -, -, result⟩
    · rwa [same]
    · rw [taken]
      exact knows_other.take
    · rw [result]
      exact knows_other.take
  | createInsert metadata =>
    refine knows_other.extend (createInsert_extends knows) ?_
    intro second own name same
    subst own
    injection same with _ ids
    exact apart ids
  | deleteMark name =>
    change Knows other (manager.deleteMark surroundings name).1
    rcases deleteMark_cases with ⟨answer, result⟩ | ⟨entry, marked, found, same, result⟩
    · rwa [result]
    · rw [result]
      exact knows_other.extend_of_uncreated (mark_extends ledger found same) nofun
  | deleteErase snapshot => exact knows_other.extend_of_uncreated deleteErase_extends nofun
  | cleanupList => exact knows_other
  | cleanupRemove toRemove =>
    refine Knows.recount (cleanupRemove_induction toRemove ?_ knows_other)
    intro manager name knows
    rcases cleanupOne_cases manager name with same | ⟨entry, -, -, -, change⟩
    · rwa [same]
    · exact knows.extend_of_uncreated change nofun

theorem knows_next {next other : Point} (ledger : manager.Ledger)
    (continues : (manager.act point surroundings).2 = .running next) (knows_other : Knows other manager) :
    Knows next (manager.act point surroundings).1 ∧ Apart next other ∧ Apart other next := by
  cases point with
  | createCheck name partitions replicationFactor =>
    change manager.createCheck name partitions replicationFactor = .running next at continues
    unfold createCheck at continues
    dsimp only at continues
    split at continues
    · cases continues
    · split at continues
      · cases continues
      · cases continues
        exact ⟨trivial, trivial, by cases other <;> trivial⟩
  | createBuild name partitions replicationFactor =>
    change (manager.createBuild surroundings name partitions replicationFactor).2 = .running next at continues
    change Knows next (manager.createBuild surroundings name partitions replicationFactor).1 ∧ _
    rcases createBuild_cases with ⟨answer, returned, -⟩ | ⟨metadata, own, sized, result⟩
    · cases returned.symm.trans continues
    · rw [result] at continues ⊢
      cases continues
      refine ⟨⟨sized, ?_, ?_⟩, ?_⟩
      · exact own ▸ Nat.lt_succ_self _
      · intro listed
        exact absurd (ledger.fresh _ listed) (own ▸ lt_irrefl _)
      · cases other with
        | createInsert second =>
          have below := knows_other.2.1
          have differs : metadata.topicId ≠ second.topicId := by omega
          exact ⟨differs, differs.symm⟩
        | createCheck | createBuild | deleteMark | deleteErase | cleanupList | cleanupRemove =>
          exact ⟨trivial, trivial⟩
  | createInsert | deleteErase | cleanupRemove => cases continues
  | deleteMark name =>
    change (manager.deleteMark surroundings name).2 = .running next at continues
    change Knows next (manager.deleteMark surroundings name).1 ∧ _
    rcases deleteMark_cases with ⟨answer, result⟩ | ⟨entry, marked, found, same, result⟩
    · rw [result] at continues
      cases continues
    · rw [result] at continues ⊢
      cases continues
      obtain ⟨named, sized, -⟩ := ledger.stored name entry found
      refine ⟨⟨sized, manager.history, [], by rw [named], ?_⟩, trivial, by cases other <;> trivial⟩
      intro present stands
      rw [named, find?_insert name, if_pos rfl] at stands
      cases stands
      exact .inl same
  | cleanupList deletionGracePeriod =>
    change manager.cleanupList surroundings deletionGracePeriod = .running next at continues
    unfold cleanupList at continues
    dsimp only at continues
    split at continues
    · cases continues
    · cases continues
      exact ⟨trivial, trivial, by cases other <;> trivial⟩

def Entered (_ : Pool) : Interleaving.Event Point Surroundings → Prop
  | .start point => ∃ call : Call, point = call.first
  | .advance _ _ => True

theorem outline : Outline act Entered TopicManager.Ledger Knows Apart where
  starts := by
    intro pool point entered _
    obtain ⟨call, rfl⟩ := entered
    cases call with
    | createTopic | deleteTopic | cleanupDeletedTopics =>
      refine ⟨trivial, ?_⟩
      intro index other _
      exact ⟨trivial, by cases other <;> trivial⟩
  keeps := fun _ _ _ _ _ _ ledger knows => ledger_act ledger knows
  moves := fun _ _ _ _ _ _ _ ledger knows continues => (knows_next ledger continues knows).1
  stable := fun _ _ _ _ _ _ _ _ _ _ ledger knows knows_other apart => knows_act ledger knows knows_other apart
  separates := fun _ _ _ _ _ _ _ _ _ _ _ ledger _ knows_other _ continues =>
    (knows_next ledger continues knows_other).2

/-!
## Consistency
-/

theorem TopicManager.Consistent.extend (consistent : manager.Consistent) (ledger : manager.Ledger)
    (history : after.history = manager.history ++ [event])
    (counted : after.totalPartitionCount.toInt = after.topics.sum partitionCount)
    (created : ∀ name topicId, event = .created name topicId → manager.topics.find? name = none)
    (erased : ∀ name target removed, event = .erased name target (some removed) → removed = target) :
    after.Consistent where
  counted := counted
  createdOnce := by
    intro before name first middle second rest split
    rw [history, show before ++ TableEvent.created name first :: (middle ++ .created name second :: rest) =
      (before ++ .created name first :: middle) ++ .created name second :: rest by simp, concat_eq_append_cons] at split
    rcases split with ⟨-, same, old⟩ | ⟨more, -, old⟩
    · exact ledger.absent name (created name second same.symm) before first middle old.symm
    · exact consistent.createdOnce before name first middle second more (by simpa using old)
  erasesOwn := by
    intro before name target middle removed rest split
    rw [history, show before ++ TableEvent.marked name target :: (middle ++ .erased name target (some removed) :: rest) =
      (before ++ .marked name target :: middle) ++ .erased name target (some removed) :: rest by simp,
      concat_eq_append_cons] at split
    rcases split with ⟨-, same, old⟩ | ⟨more, -, old⟩
    · obtain rfl := erased name target removed same.symm
      intro listed
      have earlier := ledger.marked before name removed middle old.symm
      have distinct := ledger.distinct
      rw [← old, createdIds_append] at distinct
      exact (nodup_append.mp distinct).2.2 removed (mem_createdIds.mpr ⟨name, earlier⟩) removed
        (mem_createdIds.mpr ⟨name, mem_cons_of_mem _ listed⟩) rfl
    · exact consistent.erasesOwn before name target middle removed more (by simpa using old)

section

variable (ledger : manager.Ledger)
include ledger

theorem partitionCount_le {entry : TopicCacheEntry} (found : manager.topics.find? name = some entry) :
    0 < entry.partitionCount ∧ entry.partitionCount ≤ 200000 := by
  obtain ⟨positive, bounded⟩ := (ledger.stored name entry found).2.1
  exact ⟨positive, Int.ofNat_le.mp bounded⟩

theorem consistent_createInsert_iff (knows : Knows (.createInsert metadata) manager)
    (consistent : manager.Consistent) :
    (manager.createInsert metadata).Consistent ↔ manager.topics.find? metadata.name = none ∧
      manager.topics.sum partitionCount + metadata.partitionCount < 2 ^ 31 := by
  obtain ⟨-, bounded⟩ := knows.1
  have bounded : metadata.partitionCount ≤ 200000 := Int.ofNat_le.mp bounded
  have counter := Counters.toInt_add_emod manager.totalPartitionCount (show metadata.partitionCount < 2 ^ 31 by omega)
  have upper := (manager.createInsert metadata).totalPartitionCount.toInt_lt
  have lower := (manager.createInsert metadata).totalPartitionCount.le_toInt
  have total : (manager.createInsert metadata).totalPartitionCount =
      manager.totalPartitionCount + Int32.ofNat metadata.partitionCount := rfl
  rw [← total, consistent.counted] at counter
  have sums : (manager.createInsert metadata).topics.sum partitionCount +
      ((manager.topics.find? metadata.name).map partitionCount).getD 0 =
        manager.topics.sum partitionCount + metadata.partitionCount := OrderedMap.sum_insert
  constructor
  · intro after
    have counted := after.counted
    cases found : manager.topics.find? metadata.name with
    | none =>
      rw [found] at sums
      simp only [map_none, getD_none] at sums
      exact ⟨rfl, by omega⟩
    | some entry =>
      obtain ⟨positive, small⟩ := partitionCount_le ledger found
      rw [found] at sums
      simp only [map_some, getD_some] at sums
      omega
  · intro orderly
    obtain ⟨absent, room⟩ := orderly
    rw [absent] at sums
    simp only [map_none, getD_none] at sums
    refine consistent.extend ledger (createInsert_extends knows).history (by omega) ?_ nofun
    intro name topicId same
    cases same
    exact absent

theorem consistent_deleteErase_iff (knows : Knows (.deleteErase snapshot) manager) (consistent : manager.Consistent) :
    (manager.deleteErase snapshot).Consistent ↔
      ∃ entry, manager.topics.find? snapshot.name = some entry ∧ entry.metadata.topicId = snapshot.topicId := by
  obtain ⟨⟨positive, bounded⟩, before, middle, split, entries⟩ := knows
  have bounded : snapshot.partitionCount ≤ 200000 := Int.ofNat_le.mp bounded
  have counter := Counters.toInt_sub_emod manager.totalPartitionCount (show snapshot.partitionCount < 2 ^ 31 by omega)
  have upper := (manager.deleteErase snapshot).totalPartitionCount.toInt_lt
  have lower := (manager.deleteErase snapshot).totalPartitionCount.le_toInt
  have room := manager.totalPartitionCount.toInt_lt
  have total : (manager.deleteErase snapshot).totalPartitionCount =
      manager.totalPartitionCount - Int32.ofNat snapshot.partitionCount := rfl
  rw [← total, consistent.counted] at counter
  rw [consistent.counted] at room
  have sums : (manager.deleteErase snapshot).topics.sum partitionCount +
      ((manager.topics.find? snapshot.name).map partitionCount).getD 0 =
        manager.topics.sum partitionCount := OrderedMap.sum_erase
  cases found : manager.topics.find? snapshot.name with
  | none =>
    rw [found] at sums
    simp only [map_none, getD_none] at sums
    constructor
    · intro after
      have counted := after.counted
      omega
    · intro orderly
      obtain ⟨entry, absent, -⟩ := orderly
      cases absent
  | some entry =>
    have event : (manager.deleteErase snapshot).history = manager.history ++
        [.erased snapshot.name snapshot.topicId (some entry.metadata.topicId)] := by
      simp [deleteErase, recount, found]
    constructor
    · intro after
      refine ⟨entry, rfl, ?_⟩
      cases entries entry found with
      | inl same => rw [same]
      | inr created =>
        refine absurd created (after.erasesOwn before snapshot.name snapshot.topicId middle _ [] ?_)
        rw [event, split]
        simp
    · intro orderly
      obtain ⟨other, same, own⟩ := orderly
      cases same
      have metadata : entry.metadata = snapshot := by
        cases entries entry found with
        | inl same => exact same
        | inr created =>
          have earlier := ledger.marked before snapshot.name snapshot.topicId middle split
          have distinct := ledger.distinct
          rw [split, createdIds_append] at distinct
          exact absurd rfl ((nodup_append.mp distinct).2.2 snapshot.topicId
            (mem_createdIds.mpr ⟨_, earlier⟩) snapshot.topicId
            (mem_createdIds.mpr ⟨_, mem_cons_of_mem _ (own ▸ created)⟩))
      rw [found] at sums
      simp only [map_some, getD_some, partitionCount, metadata] at sums
      refine consistent.extend ledger event (by omega) nofun ?_
      intro name target removed erased
      cases erased
      exact own

section

variable (consistent : manager.Consistent)

include consistent

theorem consistent_mark {entry marked : TopicCacheEntry}
    (found : manager.topics.find? name = some entry) (same : marked.metadata = entry.metadata) :
    TopicManager.Consistent
      { manager with
        topics := manager.topics.insert name marked
        history := manager.history ++ [.marked name entry.metadata.topicId] } := by
  have sums := @OrderedMap.sum_insert _ _ _ manager.topics name marked partitionCount
  have weight : marked.partitionCount = entry.partitionCount := congrArg TopicMetadata.partitionCount same
  rw [found, map_some, getD_some, weight] at sums
  refine consistent.extend ledger (mark_extends ledger found same).history ?_ nofun nofun
  dsimp only
  rw [consistent.counted, Nat.add_right_cancel sums]

theorem consistent_cleanupOne (name : Bytes) :
    (manager.cleanupOne name).Consistent := by
  rcases cleanupOne_cases manager name with same | ⟨entry, found, total, topics, change⟩
  · rwa [same]
  · obtain ⟨-, bounded⟩ := partitionCount_le ledger found
    have counter := Counters.toInt_sub_emod manager.totalPartitionCount (show entry.partitionCount < 2 ^ 31 by omega)
    have upper := (manager.cleanupOne name).totalPartitionCount.toInt_lt
    have lower := (manager.cleanupOne name).totalPartitionCount.le_toInt
    have room := manager.totalPartitionCount.toInt_lt
    have sums := @OrderedMap.sum_erase _ _ _ manager.topics name partitionCount
    rw [found, map_some, getD_some, ← topics] at sums
    have counted : (manager.cleanupOne name).totalPartitionCount.toInt % 2 ^ 32 =
        (manager.topics.sum partitionCount - entry.partitionCount) % 2 ^ 32 := by
      rw [← consistent.counted, ← counter, total]
      rfl
    rw [consistent.counted] at room
    exact consistent.extend ledger change.history (by omega) nofun nofun

theorem consistent_cleanupRemove
    (toRemove : List Bytes) : (manager.cleanupRemove toRemove).Consistent := by
  have both : ∀ manager : TopicManager, ∀ name, manager.Ledger ∧ manager.Consistent →
      (manager.cleanupOne name).Ledger ∧ (manager.cleanupOne name).Consistent := by
    intro manager name holds
    refine ⟨?_, consistent_cleanupOne holds.1 holds.2 name⟩
    rcases cleanupOne_cases manager name with same | ⟨entry, -, -, -, change⟩
    · rw [same]
      exact holds.1
    · exact holds.1.extend change
  have cleaned := (cleanupRemove_induction toRemove both ⟨ledger, consistent⟩).2
  exact ⟨cleaned.counted, cleaned.createdOnce, cleaned.erasesOwn⟩

end

end

/-- What a section must find for the table to stay right. -/
def Point.Free (point : Point) (manager : TopicManager) : Prop :=
  match point with
  | .createInsert metadata => manager.topics.find? metadata.name = none ∧
      manager.topics.sum partitionCount + metadata.partitionCount < 2 ^ 31
  | .deleteErase snapshot =>
    ∃ entry, manager.topics.find? snapshot.name = some entry ∧ entry.metadata.topicId = snapshot.topicId
  | _ => True

theorem consistent_act_iff (ledger : manager.Ledger) (knows : Knows point manager)
    (consistent : manager.Consistent) :
    (act point surroundings manager).1.Consistent ↔ point.Free manager := by
  have taken : TopicManager.Consistent { manager with nextTopicId := manager.nextTopicId + 1 } :=
    ⟨consistent.counted, consistent.createdOnce, consistent.erasesOwn⟩
  cases point with
  | createCheck | cleanupList => exact iff_of_true consistent trivial
  | createBuild name partitions replicationFactor =>
    refine iff_of_true ?_ trivial
    change (manager.createBuild surroundings name partitions replicationFactor).1.Consistent
    rcases createBuild_cases with ⟨answer, -, same | next⟩ | ⟨metadata, -, -, result⟩
    · rwa [same]
    · rwa [next]
    · rwa [result]
  | createInsert metadata => exact consistent_createInsert_iff ledger knows consistent
  | deleteMark name =>
    refine iff_of_true ?_ trivial
    change (manager.deleteMark surroundings name).1.Consistent
    rcases deleteMark_cases with ⟨answer, result⟩ | ⟨entry, marked, found, same, result⟩
    · rwa [result]
    · rw [result]
      exact consistent_mark ledger consistent found same
  | deleteErase snapshot => exact consistent_deleteErase_iff ledger knows consistent
  | cleanupRemove toRemove => exact iff_of_true (consistent_cleanupRemove ledger consistent toRemove) trivial

theorem orderly_iff {pool : Pool} {index : Nat} (running : pool.At index point) :
    Orderly pool (.advance index surroundings) ↔ point.Free pool.shared := by
  have here : ∀ other, pool.At index other ↔ point = other := by
    intro other
    constructor
    · intro also
      cases running.symm.trans also
      rfl
    · intro same
      exact same ▸ running
  simp only [Orderly, here]
  cases point <;> simp [Point.Free]

theorem consistent_step_iff {pool : Pool} (holds : Holds TopicManager.Ledger Knows Apart pool)
    (consistent : pool.shared.Consistent) (event : Event) :
    (step pool event).shared.Consistent ↔ Orderly pool event := by
  cases event with
  | start call => exact iff_of_true consistent trivial
  | advance index surroundings =>
    unfold step
    dsimp only [Event.enter]
    by_cases running : ∃ point, pool.At index point
    · obtain ⟨point, running⟩ := running
      rw [step_advance running, orderly_iff running]
      exact consistent_act_iff holds.shared (holds.knows index point running) consistent
    · have idle := not_exists.mp running
      rw [step_idle idle]
      refine iff_of_true consistent ⟨?_, ?_⟩
      · intro metadata inserts
        exact absurd inserts (idle _)
      · intro snapshot erases
        exact absurd erases (idle _)

theorem TopicManager.Ledger.initial : TopicManager.Ledger {} where
  fresh := nofun
  distinct := .nil
  stored := by
    intro name entry found
    cases found
  absent := by
    intro name _ before topicId after split
    cases before <;> cases split
  marked := by
    intro before name target after split
    cases before <;> cases split

theorem TopicManager.Consistent.initial : TopicManager.Consistent {} where
  counted := rfl
  createdOnce := by
    intro before name first middle second after split
    cases before <;> cases split
  erasesOwn := by
    intro before name target middle removed after split
    cases before <;> cases split

/-- The table stays right all through a run exactly if every insertion finds its name free and every erasure the
topic that its own call has marked. -/
theorem consistent_iff_orderly (events : List Event) :
    (∀ reached, reached <+: events → (run step { shared := {} } reached).shared.Consistent) ↔
      Meets step Orderly { shared := {} } events := by
  have kept : ∀ (pool : Pool) (event : Event), Holds TopicManager.Ledger Knows Apart pool →
      Holds TopicManager.Ledger Knows Apart (step pool event) := by
    intro pool event holds
    refine outline.step holds ?_
    cases event with
    | start call => exact ⟨call, rfl⟩
    | advance index surroundings => trivial
  exact (meets_iff_prefixes_of (Holds TopicManager.Ledger Knows Apart) (fun pool => pool.shared.Consistent)
    (fun pool event holds consistent => consistent_step_iff holds consistent event)
    (fun pool event holds _ _ => kept pool event holds)
    ⟨Holds.initial .initial, .initial⟩ events).symm

def twoCreations : List Event :=
  [.start (.createTopic (text "orders") 1 1), .start (.createTopic (text "orders") 1 1), .advance 0 {}, .advance 1 {},
    .advance 0 {}, .advance 1 {}, .advance 0 {}, .advance 1 {}]

/-- Both of them succeed, and two partitions are counted where the table has one. -/
theorem twoCreations_not_consistent : ¬(run step { shared := {} } twoCreations).shared.Consistent := by
  intro consistent
  have counted := consistent.counted
  revert counted
  decide +kernel

/-- A creation between the two sections of a deletion: the deletion removes the topic that is new. -/
example : (run step { shared := {} }
    [.start (.createTopic (text "orders") 1 1), .advance 0 {}, .advance 0 {}, .advance 0 {},
      .start (.deleteTopic (text "orders")), .advance 1 {},
      .start (.createTopic (text "orders") 1 1), .advance 2 {}, .advance 2 {}, .advance 2 {},
      .advance 1 {}]).shared.history =
    [.created (text "orders") 1, .marked (text "orders") 1, .created (text "orders") 2,
      .erased (text "orders") 1 (some 2)] := by decide +kernel

end TorrentMq.Broker.TopicTable
