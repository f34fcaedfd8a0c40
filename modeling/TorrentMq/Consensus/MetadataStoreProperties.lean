import TorrentMq.Consensus.MetadataStore

/-! The two views of a topic, under its name and under its id, and which calls
keep them equal. -/

set_option autoImplicit false

namespace TorrentMq.Consensus

open Bytes OrderedMap Option

namespace MetadataStore

structure Keyed (store : MetadataStore) : Prop where
  names : ∀ name topic, store.getTopicByName name = some topic → topic.name = name
  ids : ∀ id topic, store.getTopicById id = some topic → topic.topicId = id
  brokers : ∀ id broker, store.brokers.find? id = some broker → broker.brokerId = id

/-- A topic found by its name is found by its id as well, and the other way round. -/
structure ViewsAgree (store : MetadataStore) : Prop where
  byName : ∀ name topic, store.getTopicByName name = some topic →
    store.getTopicById topic.topicId = some topic
  byId : ∀ id topic, store.getTopicById id = some topic →
    ∃ found, store.getTopicByName topic.name = some found ∧ found.topicId = id

/-- A call that keeps the views equal: a topic is neither renamed nor given
another id, no unknown name is marked while there is a topic zero, and a
partition is only set to what it is. -/
def KeepsViews (store : MetadataStore) : MetadataCall → Prop
  | .upsertTopic topic =>
    (∀ old ∈ store.getTopicByName topic.name, old.topicId = topic.topicId) ∧
      ∀ old ∈ store.getTopicById topic.topicId, old.name = topic.name
  | .markTopicDeleted name atMs =>
    store.getTopicByName name = none →
      ∀ topic ∈ store.getTopicById 0, topic.deleted = true ∧ topic.deletedAtMs = atMs
  | .updatePartitionLeader topicId id newLeader newEpoch =>
    ∀ topic ∈ store.getTopicById topicId, ∀ partition ∈ topic.partition? id,
      partition.leader = newLeader ∧ partition.leaderEpoch = newEpoch
  | .updatePartitionIsr topicId id newIsr =>
    ∀ topic ∈ store.getTopicById topicId, ∀ partition ∈ topic.partition? id, partition.isr = newIsr
  | _ => True

instance (store : MetadataStore) : (call : MetadataCall) → Decidable (store.KeepsViews call)
  | .upsertTopic _ => inferInstanceAs (Decidable (_ ∧ _))
  | .markTopicDeleted _ _ => inferInstanceAs (Decidable (_ → _))
  | .updatePartitionLeader _ _ _ _ | .updatePartitionIsr _ _ _ => inferInstanceAs (Decidable (∀ _ ∈ _, _))
  | .removeTopic _ | .registerBroker _ | .deregisterBroker _ | .updateBrokerHeartbeat _ _
  | .markBrokerInactive _ => .isTrue trivial

section Lookups

variable (store : MetadataStore)

theorem getTopicByName_upsertTopic (topic : TopicMetadata) (name : Bytes) :
    (store.upsertTopic topic).getTopicByName name =
      if name = topic.name then some topic else store.getTopicByName name :=
  find?_insert name

theorem getTopicById_upsertTopic (topic : TopicMetadata) (id : UInt64) :
    (store.upsertTopic topic).getTopicById id =
      if id = topic.topicId then some topic else store.getTopicById id :=
  find?_insert id

def marked (topic : TopicMetadata) (atMs : Int64) : TopicMetadata :=
  { topic with deleted := true, deletedAtMs := atMs }

variable {store}

variable {name : Bytes}

theorem markTopicDeleted_of_found {topic : TopicMetadata} (found : store.getTopicByName name = some topic)
    (stored : store.getTopicById topic.topicId = some topic) (atMs : Int64) :
    (∀ other, (store.markTopicDeleted name atMs).getTopicByName other =
        if other = name then some (marked topic atMs) else store.getTopicByName other) ∧
      ∀ id, (store.markTopicDeleted name atMs).getTopicById id =
        if id = topic.topicId then some (marked topic atMs) else store.getTopicById id := by
  unfold getTopicByName at found
  unfold getTopicById at stored
  simp only [markTopicDeleted, getTopicByName, getTopicById, found, map_some, getD_some,
    stored, find?_insert]
  exact ⟨fun _ => rfl, fun _ => rfl⟩

theorem markTopicDeleted_of_missing (missing : store.getTopicByName name = none) (atMs : Int64) :
    (∀ other, (store.markTopicDeleted name atMs).getTopicByName other = store.getTopicByName other) ∧
      ∀ id, (store.markTopicDeleted name atMs).getTopicById id =
        if id = 0 then (store.getTopicById 0).map (marked · atMs) else store.getTopicById id := by
  unfold getTopicByName at missing
  refine ⟨fun other => ?_, fun id => ?_⟩
  · simp only [markTopicDeleted, getTopicByName, missing]
  · simp only [markTopicDeleted, getTopicById, missing, map_none, getD_none]
    cases stored : store.topicsById.find? 0 with
    | none =>
      by_cases zero : id = 0
      · simp [zero, stored]
      · simp [zero]
    | some topic =>
      simp only [find?_insert, map_some]
      rfl

theorem removeTopic_of_found {topic : TopicMetadata} (found : store.getTopicByName name = some topic) :
    (∀ other, (store.removeTopic name).getTopicByName other =
        if other = name then none else store.getTopicByName other) ∧
      ∀ id, (store.removeTopic name).getTopicById id =
        if id = topic.topicId then none else store.getTopicById id := by
  unfold getTopicByName at found
  simp only [removeTopic, getTopicByName, getTopicById, found]
  exact ⟨fun other => find?_erase other, fun id => find?_erase id⟩

section

variable (topicId : UInt64) (id : Int32) (change : PartitionMetadata → PartitionMetadata)

theorem getTopicById_updateTopicPartition (other : UInt64) :
    (store.updateTopicPartition topicId id change).getTopicById other =
      if other = topicId then (store.getTopicById topicId).map fun topic =>
          { topic with partitions := updatePartition id change topic.partitions }
      else store.getTopicById other := by
  unfold updateTopicPartition getTopicById
  cases stored : store.topicsById.find? topicId with
  | none =>
    by_cases same : other = topicId
    · simp [same, stored]
    · simp [same]
  | some topic =>
    dsimp only
    rw [find?_insert]
    rfl

theorem getTopicByName_updateTopicPartition (name : Bytes) :
    (store.updateTopicPartition topicId id change).getTopicByName name = store.getTopicByName name := by
  unfold updateTopicPartition
  split <;> rfl

end

end Lookups

theorem updatePartition_eq_self_iff {id : Int32} {change : PartitionMetadata → PartitionMetadata}
    {partitions : List PartitionMetadata} :
    updatePartition id change partitions = partitions ↔
      ∀ partition ∈ partitions.find? (fun partition => decide (partition.partitionId = id)),
        change partition = partition := by
  induction partitions with
  | nil => simp [updatePartition]
  | cons partition partitions ih =>
    by_cases same : partition.partitionId = id
    · simp [updatePartition, same]
    · simp only [updatePartition, if_neg same, List.cons.injEq, true_and, ih]
      rw [List.find?_cons_of_neg (by simpa using same)]

variable {store : MetadataStore}

section

variable (keyed : store.Keyed)

include keyed

theorem Keyed.updateTopicPartition (topicId : UInt64)
    (id : Int32) (change : PartitionMetadata → PartitionMetadata) :
    (store.updateTopicPartition topicId id change).Keyed := by
  refine ⟨fun name topic found => ?_, fun other topic found => ?_, fun other broker found => ?_⟩
  · rw [getTopicByName_updateTopicPartition] at found
    exact keyed.names name topic found
  · rw [getTopicById_updateTopicPartition] at found
    split at found
    next same =>
      obtain ⟨stored, inside, rfl⟩ := map_eq_some_iff.mp found
      exact (keyed.ids _ _ inside).trans same.symm
    · exact keyed.ids other topic found
  · refine keyed.brokers other broker ?_
    unfold MetadataStore.updateTopicPartition at found
    split at found <;> exact found

theorem Keyed.updateBroker (id : Int32)
    {change : BrokerMetadata → BrokerMetadata} (kept : ∀ broker, (change broker).brokerId = broker.brokerId) :
    (store.updateBroker id change).Keyed := by
  unfold MetadataStore.updateBroker
  split
  next broker stored =>
    refine ⟨keyed.names, keyed.ids, fun other result found => ?_⟩
    rw [find?_insert] at found
    split at found
    next same => rw [← Option.some.inj found, kept, keyed.brokers id broker stored, same]
    · exact keyed.brokers other result found
  · exact keyed

theorem Keyed.markTopicDeleted (name : Bytes)
    (atMs : Int64) : (store.markTopicDeleted name atMs).Keyed := by
  refine ⟨fun other result found => ?_, fun id result found => ?_, keyed.brokers⟩
  · simp only [getTopicByName, MetadataStore.markTopicDeleted] at found
    split at found
    next topic stored =>
      rw [find?_insert] at found
      split at found
      next same =>
        rw [← Option.some.inj found]
        exact (keyed.names name topic stored).trans same.symm
      · exact keyed.names other result found
    · exact keyed.names other result found
  · simp only [getTopicById, MetadataStore.markTopicDeleted] at found
    split at found
    next topic stored =>
      rw [find?_insert] at found
      split at found
      next same =>
        rw [← Option.some.inj found]
        exact (keyed.ids _ topic stored).trans same.symm
      · exact keyed.ids id result found
    · exact keyed.ids id result found

theorem Keyed.removeTopic (name : Bytes) : (store.removeTopic name).Keyed := by
  unfold MetadataStore.removeTopic
  split
  · refine ⟨fun other result found => ?_, fun id result found => ?_, keyed.brokers⟩
    · rw [getTopicByName, find?_erase] at found
      split at found
      · cases found
      · exact keyed.names other result found
    · rw [getTopicById, find?_erase] at found
      split at found
      · cases found
      · exact keyed.ids id result found
  · exact keyed

theorem Keyed.step (call : MetadataCall) : (store.step call).Keyed := by
  cases call with
  | upsertTopic topic =>
    refine ⟨fun name other found => ?_, fun id other found => ?_, keyed.brokers⟩
    · simp only [MetadataStore.step, getTopicByName_upsertTopic] at found
      split at found
      next same => rw [← Option.some.inj found, same]
      · exact keyed.names name other found
    · simp only [MetadataStore.step, getTopicById_upsertTopic] at found
      split at found
      next same => rw [← Option.some.inj found, same]
      · exact keyed.ids id other found
  | markTopicDeleted name atMs => exact keyed.markTopicDeleted name atMs
  | removeTopic name => exact keyed.removeTopic name
  | updatePartitionLeader topicId id newLeader newEpoch
  | updatePartitionIsr topicId id newIsr => exact keyed.updateTopicPartition topicId id _
  | registerBroker broker =>
    refine ⟨keyed.names, keyed.ids, fun id other found => ?_⟩
    simp only [MetadataStore.step, registerBroker, find?_insert] at found
    split at found
    next same => rw [← Option.some.inj found, same]
    · exact keyed.brokers id other found
  | deregisterBroker id =>
    refine ⟨keyed.names, keyed.ids, fun other broker found => ?_⟩
    simp only [MetadataStore.step, deregisterBroker, find?_erase] at found
    split at found
    · cases found
    · exact keyed.brokers other broker found
  | updateBrokerHeartbeat id heartbeatMs | markBrokerInactive id => exact keyed.updateBroker id fun _ => rfl

end

theorem ViewsAgree.congr {store after : MetadataStore} (agree : store.ViewsAgree)
    (names : ∀ name, after.getTopicByName name = store.getTopicByName name)
    (ids : ∀ id, after.getTopicById id = store.getTopicById id) : after.ViewsAgree where
  byName name topic := by
    rw [names, ids]
    exact agree.byName name topic
  byId id topic := by
    rw [ids, names]
    exact agree.byId id topic

theorem ViewsAgree.named (agree : store.ViewsAgree) {id : UInt64}
    {topic : TopicMetadata} (found : store.getTopicById id = some topic) :
    store.getTopicByName topic.name = some topic ∧ topic.topicId = id := by
  obtain ⟨named, byName, same⟩ := agree.byId id topic found
  have stored := agree.byName _ _ byName
  rw [same, found] at stored
  obtain rfl := Option.some.inj stored
  exact ⟨byName, same⟩

section

variable (keyed : store.Keyed) (agree : store.ViewsAgree)

include keyed agree

theorem viewsAgree_upsertTopic_iff (topic : TopicMetadata) :
    (store.upsertTopic topic).ViewsAgree ↔ store.KeepsViews (.upsertTopic topic) := by
  constructor
  · intro after
    constructor
    · intro old found
      have name := keyed.names _ _ found
      by_contra differs
      have stored : (store.upsertTopic topic).getTopicById old.topicId = some old := by
        rw [getTopicById_upsertTopic, if_neg differs]
        exact agree.byName _ _ found
      have named := (after.named stored).1
      rw [getTopicByName_upsertTopic, if_pos name] at named
      exact differs (congrArg TopicMetadata.topicId (Option.some.inj named)).symm
    · intro old found
      obtain ⟨named, id⟩ := agree.named found
      by_contra differs
      have stored := after.byName old.name old (by
        rw [getTopicByName_upsertTopic, if_neg differs]
        exact named)
      rw [getTopicById_upsertTopic, if_pos id] at stored
      exact differs (congrArg TopicMetadata.name (Option.some.inj stored)).symm
  · rintro ⟨sameId, sameName⟩
    constructor
    · intro name other found
      rw [getTopicByName_upsertTopic] at found
      split at found
      · obtain rfl := Option.some.inj found
        rw [getTopicById_upsertTopic, if_pos rfl]
      next differs =>
        have stored := agree.byName _ _ found
        rw [getTopicById_upsertTopic, if_neg]
        · exact stored
        · intro id
          rw [id] at stored
          exact differs ((keyed.names _ _ found).symm.trans (sameName other stored))
    · intro id other found
      rw [getTopicById_upsertTopic] at found
      split at found
      next same =>
        obtain rfl := Option.some.inj found
        exact ⟨topic, by rw [getTopicByName_upsertTopic, if_pos rfl], same.symm⟩
      next differs =>
        obtain ⟨named, id⟩ := agree.named found
        refine ⟨other, ?_, id⟩
        rw [getTopicByName_upsertTopic, if_neg]
        · exact named
        · intro name
          rw [name] at named
          exact differs (id.symm.trans (sameId other named))

theorem viewsAgree_markTopicDeleted_iff (name : Bytes) (atMs : Int64) :
    (store.markTopicDeleted name atMs).ViewsAgree ↔ store.KeepsViews (.markTopicDeleted name atMs) := by
  cases found : store.getTopicByName name with
  | some topic =>
    have stored := agree.byName _ _ found
    have own := keyed.names _ _ found
    obtain ⟨names, ids⟩ := markTopicDeleted_of_found found stored atMs
    refine ⟨fun _ missing => ?_, fun _ => ⟨?_, ?_⟩⟩
    · rw [found] at missing
      cases missing
    · intro other result lookup
      rw [names] at lookup
      split at lookup
      · obtain rfl := Option.some.inj lookup
        rw [ids]
        exact if_pos rfl
      next differs =>
        have kept := agree.byName _ _ lookup
        rw [ids, if_neg]
        · exact kept
        · intro same
          rw [same, stored] at kept
          obtain rfl := Option.some.inj kept
          exact differs ((keyed.names _ _ lookup).symm.trans own)
    · intro id result lookup
      rw [ids] at lookup
      split at lookup
      next same =>
        obtain rfl := Option.some.inj lookup
        exact ⟨marked topic atMs, by rw [names]; exact if_pos own, same.symm⟩
      next differs =>
        obtain ⟨named, own'⟩ := agree.named lookup
        refine ⟨result, ?_, own'⟩
        rw [names, if_neg]
        · exact named
        · intro same
          rw [same, found] at named
          obtain rfl := Option.some.inj named
          exact differs own'.symm
  | none =>
    obtain ⟨names, ids⟩ := markTopicDeleted_of_missing found atMs
    constructor
    · intro after _ topic stored
      obtain ⟨named, id⟩ := agree.named stored
      have again := after.byName topic.name topic (by rw [names]; exact named)
      rw [ids, if_pos id, show store.getTopicById 0 = some topic from stored, map_some] at again
      have same := Option.some.inj again
      exact ⟨(congrArg TopicMetadata.deleted same).symm, (congrArg TopicMetadata.deletedAtMs same).symm⟩
    · intro keeps
      refine agree.congr names fun id => ?_
      rw [ids]
      split
      next zero =>
        subst zero
        cases stored : store.getTopicById 0 with
        | none => rfl
        | some topic =>
          obtain ⟨deleted, time⟩ := keeps found topic stored
          rw [map_some, marked, ← deleted, ← time]
      · rfl

theorem viewsAgree_removeTopic
    (name : Bytes) : (store.removeTopic name).ViewsAgree := by
  cases found : store.getTopicByName name with
  | none =>
    have same : store.removeTopic name = store := by
      unfold getTopicByName at found
      simp only [removeTopic, found]
    rwa [same]
  | some topic =>
    have stored := agree.byName _ _ found
    obtain ⟨names, ids⟩ := removeTopic_of_found found
    constructor
    · intro other result lookup
      rw [names] at lookup
      split at lookup
      · cases lookup
      next differs =>
        have kept := agree.byName _ _ lookup
        rw [ids, if_neg]
        · exact kept
        · intro same
          rw [same, stored] at kept
          obtain rfl := Option.some.inj kept
          exact differs ((keyed.names _ _ lookup).symm.trans (keyed.names _ _ found))
    · intro id result lookup
      rw [ids] at lookup
      split at lookup
      · cases lookup
      next differs =>
        obtain ⟨named, own⟩ := agree.named lookup
        refine ⟨result, ?_, own⟩
        rw [names, if_neg]
        · exact named
        · intro same
          rw [same, found] at named
          obtain rfl := Option.some.inj named
          exact differs own.symm

end

theorem viewsAgree_updateTopicPartition_iff (agree : store.ViewsAgree)
    (topicId : UInt64) (id : Int32) (change : PartitionMetadata → PartitionMetadata) :
    (store.updateTopicPartition topicId id change).ViewsAgree ↔
      ∀ topic ∈ store.getTopicById topicId, ∀ partition ∈ topic.partition? id, change partition = partition := by
  constructor
  · intro after topic stored
    obtain ⟨named, own⟩ := agree.named stored
    have again := after.byName topic.name topic (by rw [getTopicByName_updateTopicPartition]; exact named)
    rw [getTopicById_updateTopicPartition, if_pos own,
      show store.getTopicById topicId = some topic from stored, map_some] at again
    exact updatePartition_eq_self_iff.mp (congrArg TopicMetadata.partitions (Option.some.inj again))
  · intro unchanged
    refine agree.congr (getTopicByName_updateTopicPartition topicId id change) fun other => ?_
    rw [getTopicById_updateTopicPartition]
    split
    next same =>
      subst same
      cases stored : store.getTopicById other with
      | none => rfl
      | some topic =>
        rw [map_some, updatePartition_eq_self_iff.mpr (unchanged topic stored)]
    · rfl

theorem ViewsAgree.updateBroker (agree : store.ViewsAgree) (id : Int32)
    (change : BrokerMetadata → BrokerMetadata) : (store.updateBroker id change).ViewsAgree := by
  unfold MetadataStore.updateBroker
  split
  · exact ⟨agree.byName, agree.byId⟩
  · exact agree

theorem viewsAgree_step_iff (keyed : store.Keyed) (agree : store.ViewsAgree)
    (call : MetadataCall) : (store.step call).ViewsAgree ↔ store.KeepsViews call := by
  cases call with
  | upsertTopic topic => exact viewsAgree_upsertTopic_iff keyed agree topic
  | markTopicDeleted name atMs => exact viewsAgree_markTopicDeleted_iff keyed agree name atMs
  | removeTopic name => exact iff_of_true (viewsAgree_removeTopic keyed agree name) trivial
  | updatePartitionLeader topicId id newLeader newEpoch | updatePartitionIsr topicId id newIsr =>
    refine (viewsAgree_updateTopicPartition_iff agree topicId id _).trans ?_
    refine forall₄_congr fun topic _ partition _ => ?_
    cases partition
    simp [eq_comm]
  | registerBroker broker | deregisterBroker id => exact iff_of_true ⟨agree.byName, agree.byId⟩ trivial
  | updateBrokerHeartbeat id heartbeatMs | markBrokerInactive id => exact iff_of_true (agree.updateBroker id _) trivial

theorem empty_keyed : ({} : MetadataStore).Keyed where
  names _ _ found := by cases found
  ids _ _ found := by cases found
  brokers _ _ found := by cases found

theorem empty_viewsAgree : ({} : MetadataStore).ViewsAgree where
  byName _ _ found := by cases found
  byId _ _ found := by cases found

/-- After every sequence of calls that meet their conditions, a topic is the
same under its name and under its id. -/
theorem run_viewsAgree (calls : List MetadataCall) (meets : CallsMeet KeepsViews {} calls) :
    (run {} calls).ViewsAgree :=
  (meets.preserves (fun store => store.Keyed ∧ store.ViewsAgree)
    (fun _ call keeps both => ⟨both.1.step call, (viewsAgree_step_iff both.1 both.2 call).mpr keeps⟩)
    ⟨empty_keyed, empty_viewsAgree⟩).2

def recreatedCalls : List MetadataCall :=
  [ .upsertTopic { topicId := 1, name := [97], partitions := [{ leader := 1 }] }
  , .markTopicDeleted [97] 5
  , .removeTopic [97]
  , .upsertTopic { topicId := 2, name := [97] } ]

theorem viewsAgree_recreatedCalls : CallsMeet KeepsViews {} recreatedCalls ∧ (run {} recreatedCalls).ViewsAgree :=
  ⟨by decide +kernel, run_viewsAgree recreatedCalls (by decide +kernel)⟩

/-- A new leader is only seen through the topic's id. -/
theorem leader_differs_by_name :
    ¬(run {} [.upsertTopic { topicId := 1, name := [97], partitions := [{ leader := 1 }] },
      .updatePartitionLeader 1 0 2 1]).ViewsAgree := by
  intro agree
  exact absurd (agree.byName [97] { topicId := 1, name := [97], partitions := [{ leader := 1 }] }
    (by decide +kernel)) (by decide +kernel)

end MetadataStore

end TorrentMq.Consensus
