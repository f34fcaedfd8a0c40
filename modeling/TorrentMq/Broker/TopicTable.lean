import Mathlib.Data.List.Sort
import TorrentMq.Bytes.Text
import TorrentMq.Broker.TopicManager
import TorrentMq.Collections.Summing

/-!
# Topic table

The table of the topics of a broker, and how topics are created, deleted and
cleaned up in the sections in which the calls hold its lock. The work on the
partitions is done between the sections; whether it fails comes from outside.
-/

set_option autoImplicit false

namespace TorrentMq.Broker.TopicTable

open Bytes Topics

abbrev BrokerId := Int

def kMaxTopicNameLength : Nat := 249

def kMinPartitions : Int := 1

def kMaxPartitions : Int := 200000

def kMinReplicationFactor : Int := 1

def kMaxReplicationFactor : Int := 16

def kNoBroker : BrokerId := -2

def kReservedTopicNames : List Bytes :=
  [text "__consumer_offsets", text "__transaction_state", text "__cluster_metadata"]

inductive TopicError where
  | invalidName (name : Bytes)
  | alreadyExists (name : Bytes)
  | invalidPartitions
  | invalidReplicationFactor
  | partitionNotCreated (name : Bytes) (partition : Nat)
  | notFound (name : Bytes)
  | alreadyBeingDeleted (name : Bytes)
deriving DecidableEq

structure PartitionMetadata where
  topicId : Nat
  partitionId : Nat
  replicas : List BrokerId
  isr : List BrokerId
  leader : BrokerId
  leaderEpoch : Int := 0
  partitionEpoch : Int := 0
deriving DecidableEq

structure TopicMetadata where
  topicId : Nat
  name : Bytes
  config : TopicConfig := {}
  partitions : List PartitionMetadata
deriving DecidableEq

/-- A topic in the table. Deletion marks it first and takes it out later. -/
structure TopicCacheEntry where
  metadata : TopicMetadata
  hostedPartitions : List Nat := []
  generation : Int := 0
  markedForDeletion : Bool := false
  deletionMarkedAt : Int := 0
deriving DecidableEq

/-- What has become of the topics, in the order in which it happened. An erasure names the topic that the
call has marked and the one that it removes. -/
inductive TableEvent where
  | created (name : Bytes) (topicId : Nat)
  | marked (name : Bytes) (topicId : Nat)
  | erased (name : Bytes) (target : Nat) (removed : Option Nat)
  | cleaned (name : Bytes) (removed : Nat)
deriving DecidableEq

/-- The table and its counters; `history` is what has been done to it. -/
structure TopicManager where
  topics : OrderedMap Bytes TopicCacheEntry := .empty
  nextTopicId : Nat := 1
  topicCount : Int32 := 0
  totalPartitionCount : Int32 := 0
  history : List TableEvent := []

/-- What a section observes of its surroundings: the brokers, a partition that cannot be created, and the
clock in nanoseconds. -/
structure Surroundings where
  brokerCount : Int := 1
  controllerId : BrokerId := kNoBroker
  brokerId : BrokerId := 0
  partitionFailure : Option Nat := none
  now : Int := 0

/-!
## Validation
-/

def isValidTopicChar (byte : UInt8) : Bool :=
  (97 ≤ byte && byte ≤ 122) || (65 ≤ byte && byte ≤ 90) || (48 ≤ byte && byte ≤ 57) || byte = 46 || byte = 95 ||
    byte = 45

def validateTopicName (name : Bytes) : Bool :=
  !name.isEmpty && name.length ≤ kMaxTopicNameLength && !decide (name = text ".") && !decide (name = text "..") &&
    name.all isValidTopicChar && !kReservedTopicNames.contains name

def validatePartitionParams (partitions replicationFactor brokerCount : Int) : Option TopicError :=
  if partitions < kMinPartitions then some .invalidPartitions
  else if partitions > kMaxPartitions then some .invalidPartitions
  else if replicationFactor < kMinReplicationFactor then some .invalidReplicationFactor
  else if replicationFactor > kMaxReplicationFactor then some .invalidReplicationFactor
  else if brokerCount > 0 ∧ replicationFactor > brokerCount then some .invalidReplicationFactor
  else none

/-!
## Metadata
-/

def buildDefaultTopicConfig (replicationFactor : Int) : TopicConfig :=
  { replicationFactor := replicationFactor.bmod (2 ^ 16) }

def assignFrom (replicationFactor : Nat) (brokers : List BrokerId) : Nat → Nat → List (List BrokerId)
  | 0, _ => []
  | partitions + 1, startIndex =>
    (List.range replicationFactor).map (fun replica =>
      brokers.getD ((startIndex + replica) % brokers.length) kNoBroker) ::
      assignFrom replicationFactor brokers partitions ((startIndex + replicationFactor) % brokers.length)

def assignReplicas (numPartitions replicationFactor : Nat) (brokers : List BrokerId) : List (List BrokerId) :=
  if brokers.isEmpty then List.replicate numPartitions [0]
  else assignFrom replicationFactor brokers numPartitions 0

def getKnownBrokers (surroundings : Surroundings) : List BrokerId :=
  if surroundings.controllerId ≠ kNoBroker ∧ 0 ≤ surroundings.controllerId then [surroundings.controllerId] else []

def replicaBrokers (surroundings : Surroundings) : List BrokerId :=
  let known := getKnownBrokers surroundings
  (if surroundings.brokerId ∈ known then known else known ++ [surroundings.brokerId]).insertionSort (· ≤ ·)

def partitionMetadata (topicId : Nat) (partitionId : Nat) (replicas : List BrokerId) : PartitionMetadata where
  topicId := topicId
  partitionId := partitionId
  replicas := replicas
  isr := replicas
  leader := replicas.headD kNoBroker

def buildMetadata (surroundings : Surroundings) (topicId : Nat) (name : Bytes)
    (partitions replicationFactor : Int) : TopicMetadata where
  topicId := topicId
  name := name
  config := buildDefaultTopicConfig replicationFactor
  partitions :=
    let assignments := assignReplicas partitions.toNat replicationFactor.toNat (replicaBrokers surroundings)
    (List.range partitions.toNat).map fun partition =>
      partitionMetadata topicId partition (assignments.getD partition [])

/-!
## Sections
-/

inductive Point where
  | createCheck (name : Bytes) (partitions replicationFactor : Int)
  | createBuild (name : Bytes) (partitions replicationFactor : Int)
  | createInsert (metadata : TopicMetadata)
  | deleteMark (name : Bytes)
  | deleteErase (snapshot : TopicMetadata)
  | cleanupList (deletionGracePeriod : Int)
  | cleanupRemove (toRemove : List Bytes)
deriving DecidableEq

inductive Answer where
  | created (metadata : TopicMetadata)
  | deleted (snapshot : TopicMetadata)
  | cleaned
  | failed (error : TopicError)
deriving DecidableEq

abbrev Stage := Interleaving.Stage Point Answer

namespace TopicManager

variable (manager : TopicManager)

def createCheck (name : Bytes) (partitions replicationFactor : Int) : Stage :=
  if !validateTopicName name then .returned (.failed (.invalidName name))
  else
    let replicationFactor := if replicationFactor ≤ 0 then kMinReplicationFactor else replicationFactor
    let partitions := if partitions ≤ 0 then kMinPartitions else partitions
    if (manager.topics.find? name).any (!·.markedForDeletion) then .returned (.failed (.alreadyExists name))
    else .running (.createBuild name partitions replicationFactor)

/-- Takes an id and creates the partitions. The proposal is never refused, and a failure removes the
partitions again. -/
def createBuild (surroundings : Surroundings) (name : Bytes) (partitions replicationFactor : Int) :
    TopicManager × Stage :=
  let brokerCount := if surroundings.brokerCount ≤ 0 then 1 else surroundings.brokerCount
  match validatePartitionParams partitions replicationFactor brokerCount with
  | some error => (manager, .returned (.failed error))
  | none =>
    let counted := { manager with nextTopicId := manager.nextTopicId + 1 }
    match surroundings.partitionFailure with
    | some partition => (counted, .returned (.failed (.partitionNotCreated name partition)))
    | none =>
      (counted, .running
        (.createInsert (buildMetadata surroundings manager.nextTopicId name partitions replicationFactor)))

def recount : TopicManager := { manager with topicCount := Int32.ofNat manager.topics.size }

def createInsert (metadata : TopicMetadata) : TopicManager :=
  let entry : TopicCacheEntry := {
    metadata := metadata
    hostedPartitions := List.range metadata.partitions.length
    generation := 1 }
  recount { manager with
    topics := manager.topics.insert metadata.name entry
    totalPartitionCount := manager.totalPartitionCount + Int32.ofNat metadata.partitions.length
    history := manager.history ++ [.created metadata.name metadata.topicId] }

def deleteMark (surroundings : Surroundings) (name : Bytes) : TopicManager × Stage :=
  match manager.topics.find? name with
  | none => (manager, .returned (.failed (.notFound name)))
  | some entry =>
    if entry.markedForDeletion then (manager, .returned (.failed (.alreadyBeingDeleted name)))
    else
      ({ manager with
          topics := manager.topics.insert name
            { entry with markedForDeletion := true, deletionMarkedAt := surroundings.now }
          history := manager.history ++ [.marked name entry.metadata.topicId] },
        .running (.deleteErase entry.metadata))

def deleteErase (snapshot : TopicMetadata) : TopicManager :=
  recount { manager with
    topics := manager.topics.erase snapshot.name
    totalPartitionCount := manager.totalPartitionCount - Int32.ofNat snapshot.partitions.length
    history := manager.history ++ [.erased snapshot.name snapshot.topicId
      ((manager.topics.find? snapshot.name).map (·.metadata.topicId))] }

def cleanupList (surroundings : Surroundings) (deletionGracePeriod : Int) : Stage :=
  let toRemove := (manager.topics.entries.filter fun entry => entry.2.markedForDeletion &&
    decide (deletionGracePeriod ≤ (surroundings.now - entry.2.deletionMarkedAt).tdiv 1000000)).map Prod.fst
  if toRemove.isEmpty then .returned .cleaned else .running (.cleanupRemove toRemove)

def cleanupOne (name : Bytes) : TopicManager :=
  match manager.topics.find? name with
  | none => manager
  | some entry =>
    { manager with
      topics := manager.topics.erase name
      totalPartitionCount := manager.totalPartitionCount - Int32.ofNat entry.metadata.partitions.length
      history := manager.history ++ [.cleaned name entry.metadata.topicId] }

def cleanupRemove (toRemove : List Bytes) : TopicManager := (toRemove.foldl cleanupOne manager).recount

def act (point : Point) (surroundings : Surroundings) (manager : TopicManager) : TopicManager × Stage :=
  match point with
  | .createCheck name partitions replicationFactor =>
    (manager, manager.createCheck name partitions replicationFactor)
  | .createBuild name partitions replicationFactor =>
    manager.createBuild surroundings name partitions replicationFactor
  | .createInsert metadata => (manager.createInsert metadata, .returned (.created metadata))
  | .deleteMark name => manager.deleteMark surroundings name
  | .deleteErase snapshot => (manager.deleteErase snapshot, .returned (.deleted snapshot))
  | .cleanupList deletionGracePeriod => (manager, manager.cleanupList surroundings deletionGracePeriod)
  | .cleanupRemove toRemove => (manager.cleanupRemove toRemove, .returned .cleaned)

end TopicManager

/-!
## Calls
-/

inductive Call where
  | createTopic (name : Bytes) (partitions replicationFactor : Int)
  | deleteTopic (name : Bytes)
  | cleanupDeletedTopics (deletionGracePeriod : Int)
deriving DecidableEq

def Call.first : Call → Point
  | .createTopic name partitions replicationFactor => .createCheck name partitions replicationFactor
  | .deleteTopic name => .deleteMark name
  | .cleanupDeletedTopics deletionGracePeriod => .cleanupList deletionGracePeriod

abbrev Pool := Interleaving.Pool TopicManager Point Answer

abbrev Event := Interleaving.Event Call Surroundings

def step (pool : Pool) (event : Event) : Pool := Interleaving.step TopicManager.act pool (event.enter Call.first)

end TorrentMq.Broker.TopicTable
