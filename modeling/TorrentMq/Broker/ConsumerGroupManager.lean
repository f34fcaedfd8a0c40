import TorrentMq.Broker.Assignors
import TorrentMq.Runs.Basic

/-!
# Consumer group manager

The groups of a broker: members join, sync, beat and leave, and are removed when
they stay silent. Clocks are read in nanoseconds.
-/

set_option autoImplicit false

namespace TorrentMq.Broker.ConsumerGroups

open Bytes Collections Assignors

inductive GroupState where
  | empty
  | stable
  | preparingRebalance
  | completingRebalance
  | dead
deriving DecidableEq

inductive AssignmentStrategy where
  | range
  | roundRobin
  | sticky
deriving DecidableEq

def kDefaultSessionTimeoutMs : Int32 := 45000

def kMaxSessionTimeoutMs : Int32 := 300000

def kMinSessionTimeoutMs : Int32 := 100

def kMaxMembersPerGroup : Int32 := 10000

def kMaxActiveGroups : Int32 := 100000

/-- "roundrobin" -/
def kStrategyRoundRobin : Bytes := [114, 111, 117, 110, 100, 114, 111, 98, 105, 110]

/-- "range" -/
def kStrategyRange : Bytes := [114, 97, 110, 103, 101]

/-- "sticky" -/
def kStrategySticky : Bytes := [115, 116, 105, 99, 107, 121]

def parseStrategy (name : Bytes) : AssignmentStrategy :=
  if name = kStrategyRoundRobin then .roundRobin
  else if name = kStrategySticky then .sticky
  else .range

inductive GroupError where
  | groupIdEmpty
  | memberIdRequired
  | tooManyGroups
  | groupRemoved (groupId : Bytes)
  | tooManyMembers (groupId : Bytes)
  | groupNotFound (groupId : Bytes)
  | notCompletingRebalance
  | memberNotFound (memberId : Bytes)
  | memberNotFoundInGroup (memberId groupId : Bytes)
  | staleGeneration (generation expected : Int32)
  | unknownProtocol (protocolName : Bytes)
deriving DecidableEq

structure GroupMember where
  assignment : Bytes := []
  generation : Int32 := -1
  sessionTimeoutMs : Int32 := kDefaultSessionTimeoutMs
  isLeader : Bool := false
  awaitingSync : Bool := false
  lastHeartbeat : Int := 0
deriving DecidableEq

/-- A consumer group and its members. -/
structure GroupMetadata where
  state : GroupState := .empty
  members : OrderedMap Bytes GroupMember := .empty
  generation : Int32 := 0
  strategy : AssignmentStrategy := .range
  leaderId : Bytes := []
  sessionTimeoutMs : Int32 := kDefaultSessionTimeoutMs
  subscribedTopics : OrderedMap Bytes Unit := .empty

namespace GroupMetadata

variable (group : GroupMetadata)

def memberCount : Int32 := Int32.ofNat group.members.size

def isEmpty : Bool := group.members.entries.isEmpty

def hasMember (memberId : Bytes) : Bool := (group.members.find? memberId).isSome

def allMembersJoined : Bool := group.members.entries.all fun entry => entry.2.generation = group.generation

def allMembersSynced : Bool := group.members.entries.all fun entry => !entry.2.awaitingSync

def firstMember (order : IterationOrder Bytes) : Bytes := (order.visit group.members.keys).headD []

def elect (memberId : Bytes) : GroupMetadata :=
  { group with
    leaderId := memberId
    members := group.members.modify memberId fun member => { member with isLeader := true } }

def refreshOrAdd (groupId memberId : Bytes) (now : Int) : Except GroupError GroupMetadata :=
  match group.members.find? memberId with
  | some member =>
    let rebalancing := group.state = .preparingRebalance ∨ group.state = .completingRebalance
    .ok { group with
      members := group.members.insert memberId
        { member with
          lastHeartbeat := now
          generation := group.generation
          awaitingSync := if rebalancing then true else member.awaitingSync } }
  | none =>
    if kMaxMembersPerGroup ≤ group.memberCount then .error (.tooManyMembers groupId)
    else
      .ok { group with
        members := group.members.insert memberId
          { sessionTimeoutMs := group.sessionTimeoutMs
            lastHeartbeat := now
            generation := group.generation
            awaitingSync := true } }

def awaitMembers : GroupMetadata :=
  { group with
    members := group.members.mapValues fun _ member =>
      { member with awaitingSync := true, generation := group.generation } }

def completeJoin : GroupMetadata :=
  if group.allMembersJoined ∧ 0 < group.memberCount then
    { group with state := .completingRebalance, generation := group.generation + 1 }.awaitMembers
  else group

def isLeaderless : Bool := group.leaderId.isEmpty || !group.hasMember group.leaderId

def afterJoin (memberId : Bytes) : GroupMetadata :=
  match group.state with
  | .empty =>
    let group := { group.elect memberId with generation := group.generation + 1, state := .stable }
    { group with
      members := group.members.modify memberId fun member =>
        { member with awaitingSync := false, generation := group.generation } }
  | .stable =>
    let group := group.elect (if group.isLeaderless then memberId else group.leaderId)
    { group with state := .preparingRebalance }.awaitMembers
  | .preparingRebalance | .completingRebalance =>
    let group := if group.isLeaderless then group.elect memberId else group
    group.completeJoin
  | .dead => group

def join (groupId memberId : Bytes) (now : Int) : Except GroupError GroupMetadata :=
  if group.state = .dead then .error (.groupRemoved groupId)
  else (group.refreshOrAdd groupId memberId now).map fun group => group.afterJoin memberId

def markForRejoin : GroupMetadata :=
  { group with members := group.members.mapValues fun _ member => { member with awaitingSync := true } }

def afterDeparture (leaderRemoved : Bool) (order : IterationOrder Bytes) : GroupMetadata :=
  if group.isEmpty then { group with state := .empty, leaderId := [], generation := 0 }
  else
    match group.state with
    | .stable =>
      let group := { group with state := .preparingRebalance }
      let group := if leaderRemoved then group.elect (group.firstMember order) else group
      group.markForRejoin
    | .preparingRebalance | .completingRebalance =>
      if leaderRemoved then group.elect (group.firstMember order) else group
    | .empty | .dead => group

def leave (memberId : Bytes) (order : IterationOrder Bytes) : GroupMetadata :=
  match group.members.find? memberId with
  | none => group
  | some member =>
    { group with members := group.members.erase memberId }.afterDeparture member.isLeader order

def runAssignment (partitionCount : Bytes → Int) : PartitionAssignment :=
  let memberIds := group.members.keys
  let topics := group.subscribedTopics.keys
  let partitionCounts := group.subscribedTopics.mapValues fun topic _ => partitionCount topic
  match group.strategy with
  | .range => assignRange memberIds topics partitionCounts
  | .roundRobin => assignRoundrobin memberIds topics partitionCounts
  | .sticky => assignSticky memberIds topics partitionCounts .empty

def applyAssignments (assignments : PartitionAssignment) : GroupMetadata :=
  { group with
    members := group.members.mapValues fun id member =>
      if (assignments.find? id).isSome then { member with assignment := [] } else member }

def afterSync (partitionCount : Bytes → Int) : GroupMetadata :=
  if group.allMembersSynced then
    { group.applyAssignments (group.runAssignment partitionCount) with state := .stable }
  else group

def sync (memberId : Bytes) (partitionCount : Bytes → Int) : Except GroupError GroupMetadata :=
  if group.state ≠ .completingRebalance then .error .notCompletingRebalance
  else
    match group.members.find? memberId with
    | none => .error (.memberNotFound memberId)
    | some member =>
      let group := { group with members := group.members.insert memberId { member with awaitingSync := false } }
      .ok (group.afterSync partitionCount)

def heartbeat (groupId memberId : Bytes) (generation : Int32) (now : Int) : Except GroupError GroupMetadata :=
  match group.members.find? memberId with
  | none => .error (.memberNotFoundInGroup memberId groupId)
  | some member =>
    if generation ≠ member.generation then .error (.staleGeneration generation member.generation)
    else .ok { group with members := group.members.insert memberId { member with lastHeartbeat := now } }

def isExpired (now : Int) (member : GroupMember) : Bool :=
  member.sessionTimeoutMs.toInt < (now - member.lastHeartbeat).tdiv 1000000

def checkSessionTimeouts (now : Int) (order : IterationOrder Bytes) : GroupMetadata :=
  if group.state = .dead ∨ group.state = .empty then group
  else
    let expired := group.members.entries.filter fun entry => isExpired now entry.2
    if expired.isEmpty then group
    else
      let remaining := { group with members := group.members.filter fun id => id ∉ expired.map Prod.fst }
      remaining.afterDeparture (expired.any fun entry => entry.2.isLeader) order

end GroupMetadata

structure ConsumerGroupManager where
  groups : OrderedMap Bytes GroupMetadata := .empty

namespace ConsumerGroupManager

variable (manager : ConsumerGroupManager)

def setGroup (groupId : Bytes) (group : GroupMetadata) : ConsumerGroupManager :=
  { manager with groups := manager.groups.insert groupId group }

def update (groupId : Bytes) (outcome : Except GroupError GroupMetadata) :
    ConsumerGroupManager × Option GroupError :=
  match outcome with
  | .ok group => (manager.setGroup groupId group, none)
  | .error error => (manager, some error)

def ensureGroup (groupId : Bytes) : Option (ConsumerGroupManager × GroupMetadata) :=
  match manager.groups.find? groupId with
  | some group => some (manager, group)
  | none =>
    if kMaxActiveGroups ≤ Int32.ofNat manager.groups.size then none
    else some (manager.setGroup groupId {}, {})

def joinGroup (groupId memberId : Bytes) (now : Int) : ConsumerGroupManager × Option GroupError :=
  if groupId.isEmpty then (manager, some .groupIdEmpty)
  else if memberId.isEmpty then (manager, some .memberIdRequired)
  else
    match manager.ensureGroup groupId with
    | none => (manager, some .tooManyGroups)
    | some (manager, group) => manager.update groupId (group.join groupId memberId now)

def leaveGroup (groupId memberId : Bytes) (order : IterationOrder Bytes) :
    ConsumerGroupManager × Option GroupError :=
  match manager.groups.find? groupId with
  | none => (manager, none)
  | some group => (manager.setGroup groupId (group.leave memberId order), none)

def syncGroup (groupId memberId : Bytes) (partitionCount : Bytes → Int) :
    ConsumerGroupManager × Option GroupError :=
  match manager.groups.find? groupId with
  | none => (manager, some (.groupNotFound groupId))
  | some group => manager.update groupId (group.sync memberId partitionCount)

def heartbeat (groupId memberId : Bytes) (generation : Int32) (now : Int) :
    ConsumerGroupManager × Option GroupError :=
  match manager.groups.find? groupId with
  | none => (manager, some (.groupNotFound groupId))
  | some group => manager.update groupId (group.heartbeat groupId memberId generation now)

def checkSessionTimeouts (now : Int) (order : Bytes → IterationOrder Bytes) : ConsumerGroupManager :=
  { manager with groups := manager.groups.mapValues fun id group => group.checkSessionTimeouts now (order id) }

def subscribeTopic (groupId topic : Bytes) : ConsumerGroupManager :=
  { manager with
    groups := manager.groups.modify groupId fun group =>
      { group with subscribedTopics := group.subscribedTopics.insert topic () } }

def unsubscribeTopic (groupId topic : Bytes) : ConsumerGroupManager :=
  { manager with
    groups := manager.groups.modify groupId fun group =>
      { group with subscribedTopics := group.subscribedTopics.erase topic } }

def setGroupProtocol (groupId protocolName : Bytes) : ConsumerGroupManager × Option GroupError :=
  match manager.groups.find? groupId with
  | none => (manager, some (.groupNotFound groupId))
  | some group =>
    if protocolName = kStrategyRange ∨ protocolName = kStrategyRoundRobin ∨ protocolName = kStrategySticky then
      (manager.setGroup groupId { group with strategy := parseStrategy protocolName }, none)
    else (manager, some (.unknownProtocol protocolName))

def setSessionTimeout (groupId : Bytes) (timeoutMs : Int32) : ConsumerGroupManager :=
  { manager with
    groups := manager.groups.modify groupId fun group =>
      { group with sessionTimeoutMs := max kMinSessionTimeoutMs (min timeoutMs kMaxSessionTimeoutMs) } }

end ConsumerGroupManager

inductive Event where
  | joinGroup (groupId memberId : Bytes) (now : Int)
  | leaveGroup (groupId memberId : Bytes) (order : IterationOrder Bytes)
  | syncGroup (groupId memberId : Bytes) (partitionCount : Bytes → Int)
  | heartbeat (groupId memberId : Bytes) (generation : Int32) (now : Int)
  | checkSessionTimeouts (now : Int) (order : Bytes → IterationOrder Bytes)
  | subscribeTopic (groupId topic : Bytes)
  | unsubscribeTopic (groupId topic : Bytes)
  | setGroupProtocol (groupId protocolName : Bytes)
  | setSessionTimeout (groupId : Bytes) (timeoutMs : Int32)

def step (manager : ConsumerGroupManager) : Event → ConsumerGroupManager
  | .joinGroup groupId memberId now => (manager.joinGroup groupId memberId now).1
  | .leaveGroup groupId memberId order => (manager.leaveGroup groupId memberId order).1
  | .syncGroup groupId memberId partitionCount => (manager.syncGroup groupId memberId partitionCount).1
  | .heartbeat groupId memberId generation now => (manager.heartbeat groupId memberId generation now).1
  | .checkSessionTimeouts now order => manager.checkSessionTimeouts now order
  | .subscribeTopic groupId topic => manager.subscribeTopic groupId topic
  | .unsubscribeTopic groupId topic => manager.unsubscribeTopic groupId topic
  | .setGroupProtocol groupId protocolName => (manager.setGroupProtocol groupId protocolName).1
  | .setSessionTimeout groupId timeoutMs => manager.setSessionTimeout groupId timeoutMs

end TorrentMq.Broker.ConsumerGroups
