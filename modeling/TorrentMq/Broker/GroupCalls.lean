import TorrentMq.Broker.ConsumerGroupManager

/-!
# Calls of a group

What happens to one group of the manager: of all calls, those that get to it, and
the passes over all groups.
-/

set_option autoImplicit false

namespace TorrentMq.Broker.ConsumerGroups

open Bytes Collections OrderedMap

inductive Call where
  | join (memberId : Bytes) (now : Int)
  | leave (memberId : Bytes) (order : IterationOrder Bytes)
  | sync (memberId : Bytes) (partitionCount : Bytes → Int)
  | heartbeat (memberId : Bytes) (generation : Int32) (now : Int)
  | checkSessionTimeouts (now : Int) (order : IterationOrder Bytes)
  | configure (strategy : AssignmentStrategy) (sessionTimeoutMs : Int32) (topics : OrderedMap Bytes Unit)

namespace GroupMetadata

def configure (group : GroupMetadata) (strategy : AssignmentStrategy) (sessionTimeoutMs : Int32)
    (topics : OrderedMap Bytes Unit) : GroupMetadata :=
  { group with strategy := strategy, sessionTimeoutMs := sessionTimeoutMs, subscribedTopics := topics }

def orElse (group : GroupMetadata) (outcome : Except GroupError GroupMetadata) : GroupMetadata :=
  outcome.toOption.getD group

@[simp] theorem orElse_ok (group after : GroupMetadata) : group.orElse (.ok after) = after := rfl

@[simp] theorem orElse_error (group : GroupMetadata) (error : GroupError) : group.orElse (.error error) = group := rfl

def step (groupId : Bytes) (group : GroupMetadata) : Call → GroupMetadata
  | .join memberId now => group.orElse (group.join groupId memberId now)
  | .leave memberId order => group.leave memberId order
  | .sync memberId partitionCount => group.orElse (group.sync memberId partitionCount)
  | .heartbeat memberId generation now => group.orElse (group.heartbeat groupId memberId generation now)
  | .checkSessionTimeouts now order => group.checkSessionTimeouts now order
  | .configure strategy sessionTimeoutMs topics => group.configure strategy sessionTimeoutMs topics

end GroupMetadata

namespace ConsumerGroupManager

variable {manager : ConsumerGroupManager} {groupId : Bytes}

def groupOf (groupId : Bytes) (manager : ConsumerGroupManager) : GroupMetadata := manager.groups.getD groupId {}

def configureCall (groupId : Bytes) (manager : ConsumerGroupManager)
    (change : GroupMetadata → AssignmentStrategy × Int32 × OrderedMap Bytes Unit) : Option Call :=
  (manager.groups.find? groupId).map fun group => .configure (change group).1 (change group).2.1 (change group).2.2

def callOf (groupId : Bytes) (manager : ConsumerGroupManager) : Event → Option Call
  | .joinGroup id memberId now =>
    if id = groupId ∧ id.isEmpty = false ∧ memberId.isEmpty = false ∧ (manager.ensureGroup groupId).isSome then
      some (.join memberId now)
    else none
  | .leaveGroup id memberId order => if id = groupId then some (.leave memberId order) else none
  | .syncGroup id memberId partitionCount => if id = groupId then some (.sync memberId partitionCount) else none
  | .heartbeat id memberId generation now => if id = groupId then some (.heartbeat memberId generation now) else none
  | .checkSessionTimeouts now order => some (.checkSessionTimeouts now (order groupId))
  | .subscribeTopic id topic =>
    if id = groupId then manager.configureCall groupId fun group =>
      (group.strategy, group.sessionTimeoutMs, group.subscribedTopics.insert topic ())
    else none
  | .unsubscribeTopic id topic =>
    if id = groupId then manager.configureCall groupId fun group =>
      (group.strategy, group.sessionTimeoutMs, group.subscribedTopics.erase topic)
    else none
  | .setGroupProtocol id protocolName =>
    if id = groupId ∧ (protocolName = kStrategyRange ∨ protocolName = kStrategyRoundRobin ∨
        protocolName = kStrategySticky) then
      manager.configureCall groupId fun group =>
        (parseStrategy protocolName, group.sessionTimeoutMs, group.subscribedTopics)
    else none
  | .setSessionTimeout id timeoutMs =>
    if id = groupId then manager.configureCall groupId fun group =>
      (group.strategy, max kMinSessionTimeoutMs (min timeoutMs kMaxSessionTimeoutMs), group.subscribedTopics)
    else none

def callsOf (groupId : Bytes) (manager : ConsumerGroupManager) : List Event → List Call
  | [] => []
  | event :: events =>
    (manager.callOf groupId event).toList ++ callsOf groupId (ConsumerGroups.step manager event) events

theorem groupOf_update (other : Bytes) (outcome : Except GroupError GroupMetadata) :
    (manager.update other outcome).1.groupOf groupId =
      if groupId = other then (manager.groupOf groupId).orElse outcome else manager.groupOf groupId := by
  cases outcome with
  | ok group => exact getD_insert groupId
  | error error =>
    split
    next => rfl
    next => rfl

theorem ensureGroup_spec {created : ConsumerGroupManager × GroupMetadata}
    (found : manager.ensureGroup groupId = some created) :
    created.2 = manager.groupOf groupId ∧ ∀ id, created.1.groupOf id = manager.groupOf id := by
  unfold ensureGroup at found
  cases stored : manager.groups.find? groupId with
  | some group =>
    rw [stored] at found
    cases found
    exact ⟨(getD_of_some stored).symm, fun _ => rfl⟩
  | none =>
    rw [stored] at found
    dsimp only at found
    split at found
    next => cases found
    next =>
      cases found
      refine ⟨(getD_of_none stored).symm, fun id => (getD_insert id).trans ?_⟩
      split
      next same => rw [same]; exact (getD_of_none stored).symm
      next => rfl

theorem groupOf_joinGroup (id memberId : Bytes) (now : Int) :
    (manager.joinGroup id memberId now).1.groupOf groupId =
      ((manager.callOf groupId (.joinGroup id memberId now)).elim (fun group => group) fun call group =>
        group.step groupId call) (manager.groupOf groupId) := by
  unfold joinGroup callOf
  cases unnamed : id.isEmpty with
  | true =>
    dsimp only
    rw [if_pos rfl, if_neg fun all => absurd all.2.1 (by rw [unnamed]; exact nofun)]
    rfl
  | false =>
    cases anonymous : memberId.isEmpty with
    | true =>
      dsimp only
      rw [if_neg nofun, if_pos rfl, if_neg fun all => absurd all.2.2.1 (by rw [anonymous]; exact nofun)]
      rfl
    | false =>
      dsimp only
      rw [if_neg nofun, if_neg nofun]
      cases found : manager.ensureGroup id with
      | none =>
        rw [if_neg]
        · rfl
        · rintro ⟨rfl, -, -, created⟩
          rw [found] at created
          cases created
      | some created =>
        obtain ⟨group, others⟩ := ensureGroup_spec found
        refine (groupOf_update id _).trans ?_
        rw [others groupId]
        by_cases own : groupId = id
        · subst own
          rw [if_pos rfl, if_pos ⟨rfl, unnamed, anonymous, by rw [found]; rfl⟩, group]
          rfl
        · rw [if_neg own, if_neg fun all => own all.1.symm]
          rfl

theorem groupOf_leaveGroup (id memberId : Bytes) (order : IterationOrder Bytes) :
    (manager.leaveGroup id memberId order).1.groupOf groupId =
      if id = groupId then (manager.groupOf groupId).leave memberId order else manager.groupOf groupId := by
  refine getD_change (fun group : GroupMetadata => group.leave memberId order) id groupId rfl
    (fun none => ?_) fun group found => ?_
  · rw [leaveGroup, none]
  · rw [leaveGroup, found]
    exact getD_insert groupId

theorem groupOf_syncGroup (id memberId : Bytes) (partitionCount : Bytes → Int) :
    (manager.syncGroup id memberId partitionCount).1.groupOf groupId =
      if id = groupId then (manager.groupOf groupId).orElse ((manager.groupOf groupId).sync memberId partitionCount)
      else manager.groupOf groupId := by
  refine getD_change (fun group : GroupMetadata => group.orElse (group.sync memberId partitionCount)
    ) id groupId rfl
    (fun none => ?_) fun group found => ?_
  · rw [syncGroup, none]
  · rw [syncGroup, found]
    refine (groupOf_update id _).trans ?_
    split
    next own => rw [groupOf, own, getD_of_some found]
    next => rfl

theorem groupOf_heartbeat (id memberId : Bytes) (generation : Int32) (now : Int) :
    (manager.heartbeat id memberId generation now).1.groupOf groupId =
      if id = groupId then
        (manager.groupOf groupId).orElse ((manager.groupOf groupId).heartbeat id memberId generation now)
      else manager.groupOf groupId := by
  refine getD_change (fun group : GroupMetadata => group.orElse (group.heartbeat id memberId generation now))
    id groupId rfl (fun none => ?_) fun group found => ?_
  · rw [heartbeat, none]
  · rw [heartbeat, found]
    refine (groupOf_update id _).trans ?_
    split
    next own => rw [groupOf, own, getD_of_some found]
    next => rfl

theorem groupOf_checkSessionTimeouts (now : Int) (order : Bytes → IterationOrder Bytes) :
    (manager.checkSessionTimeouts now order).groupOf groupId =
      (manager.groupOf groupId).checkSessionTimeouts now (order groupId) := by
  rw [groupOf, groupOf, OrderedMap.getD, OrderedMap.getD, checkSessionTimeouts, find?_mapValues]
  cases manager.groups.find? groupId with
  | none => rfl
  | some group => rfl

theorem groupOf_modify (id : Bytes)
    (change : GroupMetadata → AssignmentStrategy × Int32 × OrderedMap Bytes Unit) :
    groupOf groupId { groups := manager.groups.modify id fun group =>
        group.configure (change group).1 (change group).2.1 (change group).2.2 } =
      Runs.run (GroupMetadata.step groupId) (manager.groupOf groupId)
        (if id = groupId then manager.configureCall groupId change else none).toList := by
  rw [groupOf, groupOf, OrderedMap.getD, OrderedMap.getD, find?_modify, configureCall]
  by_cases own : id = groupId
  · rw [if_pos own.symm, if_pos own, own]
    cases manager.groups.find? groupId with
    | none => rfl
    | some group => rfl
  · rw [if_neg (Ne.symm own), if_neg own]
    rfl

theorem groupOf_setGroupProtocol (id protocolName : Bytes) :
    (manager.setGroupProtocol id protocolName).1.groupOf groupId =
      Runs.run (GroupMetadata.step groupId) (manager.groupOf groupId)
        (manager.callOf groupId (.setGroupProtocol id protocolName)).toList := by
  unfold setGroupProtocol callOf configureCall
  dsimp only
  cases found : manager.groups.find? id with
  | none =>
    by_cases own : id = groupId
    · rw [← own, found, Option.map_none, ite_self]
      rfl
    · rw [if_neg fun all => own all.1]
      rfl
  | some group =>
    dsimp only
    by_cases known : protocolName = kStrategyRange ∨ protocolName = kStrategyRoundRobin ∨
        protocolName = kStrategySticky
    · rw [if_pos known]
      refine (getD_insert groupId).trans ?_
      by_cases own : id = groupId
      · rw [if_pos own.symm, if_pos ⟨own, known⟩, ← own, found, groupOf, getD_of_some found]
        rfl
      · rw [if_neg (Ne.symm own), if_neg fun all => own all.1]
        rfl
    · rw [if_neg known, if_neg fun all => known all.2]
      rfl

theorem groupOf_step (event : Event) :
    (ConsumerGroups.step manager event).groupOf groupId =
      Runs.run (GroupMetadata.step groupId) (manager.groupOf groupId) (manager.callOf groupId event).toList := by
  cases event with
  | joinGroup id memberId now =>
    refine (groupOf_joinGroup id memberId now).trans ?_
    cases manager.callOf groupId (.joinGroup id memberId now) with
    | none => rfl
    | some call => rfl
  | leaveGroup id memberId order =>
    refine (groupOf_leaveGroup id memberId order).trans ?_
    by_cases own : id = groupId
    · rw [callOf, if_pos own, if_pos own]
      rfl
    · rw [callOf, if_neg own, if_neg own]
      rfl
  | syncGroup id memberId partitionCount =>
    refine (groupOf_syncGroup id memberId partitionCount).trans ?_
    by_cases own : id = groupId
    · rw [callOf, if_pos own, if_pos own]
      rfl
    · rw [callOf, if_neg own, if_neg own]
      rfl
  | heartbeat id memberId generation now =>
    refine (groupOf_heartbeat id memberId generation now).trans ?_
    by_cases own : id = groupId
    · rw [callOf, if_pos own, if_pos own, own]
      rfl
    · rw [callOf, if_neg own, if_neg own]
      rfl
  | checkSessionTimeouts now order => exact groupOf_checkSessionTimeouts now order
  | subscribeTopic id topic =>
    exact groupOf_modify id fun group =>
      (group.strategy, group.sessionTimeoutMs, group.subscribedTopics.insert topic ())
  | unsubscribeTopic id topic =>
    exact groupOf_modify id fun group =>
      (group.strategy, group.sessionTimeoutMs, group.subscribedTopics.erase topic)
  | setGroupProtocol id protocolName => exact groupOf_setGroupProtocol id protocolName
  | setSessionTimeout id timeoutMs =>
    exact groupOf_modify id fun group =>
      (group.strategy, max kMinSessionTimeoutMs (min timeoutMs kMaxSessionTimeoutMs), group.subscribedTopics)

/-- One group of the manager goes through its own calls. -/
theorem run_groupOf (manager : ConsumerGroupManager) (events : List Event) :
    (Runs.run ConsumerGroups.step manager events).groupOf groupId =
      Runs.run (GroupMetadata.step groupId) (manager.groupOf groupId) (manager.callsOf groupId events) := by
  induction events generalizing manager with
  | nil => rfl
  | cons event events ih =>
    rw [Runs.run_cons, ih, groupOf_step, callsOf, Runs.run_append]

end ConsumerGroupManager

end TorrentMq.Broker.ConsumerGroups
