import TorrentMq.Bytes.Reader
import TorrentMq.Collections.OrderedMap
import TorrentMq.Runs.Basic

/-!
# Cluster metadata

Topics, their partitions, and brokers, as the in-memory store keeps them. A
topic is stored twice, under its name and under its id.
-/

set_option autoImplicit false

namespace TorrentMq.Consensus

open Bytes

def kNoBroker : Int32 := -2
def kDefaultPort : UInt16 := 9092

structure PartitionMetadata where
  partitionId : Int32 := 0
  leader : Int32 := kNoBroker
  leaderEpoch : Int64 := 0
  isr : List Int32 := []
  replicas : List Int32 := []
  observers : List Int32 := []
  addingReplicas : List Int32 := []
  removingReplicas : List Int32 := []
  isOffline : Bool := false
  deriving DecidableEq

structure CompressionType where
  value : Int8
  deriving DecidableEq

namespace CompressionType

def none : CompressionType := ⟨0⟩
def gzip : CompressionType := ⟨1⟩
def snappy : CompressionType := ⟨2⟩
def lz4 : CompressionType := ⟨3⟩
def zstd : CompressionType := ⟨4⟩

end CompressionType

structure TopicConfig where
  partitionCount : Int32 := 1
  replicationFactor : Int32 := 2
  minIsr : Int32 := 1
  retentionMs : Int64 := 7 * 24 * 60 * 60 * 1000
  segmentMs : Int64 := 24 * 60 * 60 * 1000
  segmentBytes : Int64 := 1024 * 1024 * 1024
  retentionBytes : Int64 := -1
  compression : CompressionType := .none
  cleanupPolicyCompact : Bool := false
  cleanupPolicyDelete : Bool := true
  messageMaxBytes : Int64 := 1024 * 1024
  isInternal : Bool := false
  configs : OrderedMap Bytes Bytes := .empty
  deriving DecidableEq

structure TopicMetadata where
  topicId : UInt64 := 0
  name : Bytes := []
  config : TopicConfig := {}
  partitions : List PartitionMetadata := []
  createdAtMs : Int64 := 0
  updatedAtMs : Int64 := 0
  deleted : Bool := false
  deletedAtMs : Int64 := 0
  createdBy : Bytes := []
  deriving DecidableEq

structure Endpoint where
  host : Bytes := []
  port : UInt16 := kDefaultPort
  deriving DecidableEq

structure BrokerMetadata where
  brokerId : Int32 := 0
  endpoint : Endpoint := {}
  rack : Bytes := []
  hostname : Bytes := []
  registeredAtMs : Int64 := 0
  lastHeartbeatMs : Int64 := 0
  capabilities : List Bytes := []
  isActive : Bool := true
  isController : Bool := false
  deriving DecidableEq

/-!
## Partitions of a topic
-/

def updatePartition (id : Int32) (change : PartitionMetadata → PartitionMetadata) :
    List PartitionMetadata → List PartitionMetadata
  | [] => []
  | partition :: partitions =>
    if partition.partitionId = id then change partition :: partitions
    else partition :: updatePartition id change partitions

def TopicMetadata.partition? (topic : TopicMetadata) (id : Int32) : Option PartitionMetadata :=
  topic.partitions.find? fun partition => decide (partition.partitionId = id)

/-!
## The store
-/

/-- Topics by name and by id, and brokers. The two views of a topic are kept apart. -/
structure MetadataStore where
  topicsByName : OrderedMap Bytes TopicMetadata := .empty
  topicsById : OrderedMap UInt64 TopicMetadata := .empty
  brokers : OrderedMap Int32 BrokerMetadata := .empty
  deriving DecidableEq

/-- An order in which a hash table may be visited. -/
structure VisitOrder where
  visit : {Key Value : Type} → [LinearOrder Key] → OrderedMap Key Value → List (Key × Value)
  perm : ∀ {Key Value : Type} [LinearOrder Key] (map : OrderedMap Key Value), (visit map).Perm map.entries

def VisitOrder.ascending : VisitOrder where
  visit map := map.entries
  perm _ := .refl _

namespace MetadataStore

def getTopicByName (store : MetadataStore) (name : Bytes) : Option TopicMetadata :=
  store.topicsByName.find? name

def getTopicById (store : MetadataStore) (id : UInt64) : Option TopicMetadata := store.topicsById.find? id

def upsertTopic (store : MetadataStore) (topic : TopicMetadata) : MetadataStore :=
  { store with
    topicsByName := store.topicsByName.insert topic.name topic
    topicsById := store.topicsById.insert topic.topicId topic }

def markTopicDeleted (store : MetadataStore) (name : Bytes) (atMs : Int64) : MetadataStore :=
  let mark := fun topic : TopicMetadata => { topic with deleted := true, deletedAtMs := atMs }
  let found := store.topicsByName.find? name
  let id := (found.map TopicMetadata.topicId).getD 0
  { store with
    topicsByName := match found with
      | some topic => store.topicsByName.insert name (mark topic)
      | none => store.topicsByName
    topicsById := match store.topicsById.find? id with
      | some topic => store.topicsById.insert id (mark topic)
      | none => store.topicsById }

def removeTopic (store : MetadataStore) (name : Bytes) : MetadataStore :=
  match store.topicsByName.find? name with
  | some topic =>
    { store with
      topicsByName := store.topicsByName.erase name
      topicsById := store.topicsById.erase topic.topicId }
  | none => store

def allTopics (store : MetadataStore) (order : VisitOrder) : List TopicMetadata :=
  ((order.visit store.topicsByName).map Prod.snd).filter fun topic => !topic.deleted

def registerBroker (store : MetadataStore) (broker : BrokerMetadata) : MetadataStore :=
  { store with brokers := store.brokers.insert broker.brokerId broker }

def deregisterBroker (store : MetadataStore) (id : Int32) : MetadataStore :=
  { store with brokers := store.brokers.erase id }

def updateBroker (store : MetadataStore) (id : Int32) (change : BrokerMetadata → BrokerMetadata) :
    MetadataStore :=
  match store.brokers.find? id with
  | some broker => { store with brokers := store.brokers.insert id (change broker) }
  | none => store

def updateBrokerHeartbeat (store : MetadataStore) (id : Int32) (heartbeatMs : Int64) : MetadataStore :=
  store.updateBroker id fun broker => { broker with lastHeartbeatMs := heartbeatMs, isActive := true }

def markBrokerInactive (store : MetadataStore) (id : Int32) : MetadataStore :=
  store.updateBroker id fun broker => { broker with isActive := false }

def allBrokers (store : MetadataStore) (order : VisitOrder) : List BrokerMetadata :=
  (order.visit store.brokers).map Prod.snd

def updateTopicPartition (store : MetadataStore) (topicId : UInt64) (id : Int32)
    (change : PartitionMetadata → PartitionMetadata) : MetadataStore :=
  match store.topicsById.find? topicId with
  | some topic =>
    let changed := { topic with partitions := updatePartition id change topic.partitions }
    { store with topicsById := store.topicsById.insert topicId changed }
  | none => store

def updatePartitionLeader (store : MetadataStore) (topicId : UInt64) (id : Int32) (newLeader : Int32)
    (newEpoch : Int64) : MetadataStore :=
  store.updateTopicPartition topicId id fun partition =>
    { partition with leader := newLeader, leaderEpoch := newEpoch }

def updatePartitionIsr (store : MetadataStore) (topicId : UInt64) (id : Int32) (newIsr : List Int32) :
    MetadataStore :=
  store.updateTopicPartition topicId id fun partition => { partition with isr := newIsr }

end MetadataStore

/-!
## Calls
-/

inductive MetadataCall where
  | upsertTopic (topic : TopicMetadata)
  | markTopicDeleted (name : Bytes) (atMs : Int64)
  | removeTopic (name : Bytes)
  | updatePartitionLeader (topicId : UInt64) (id : Int32) (newLeader : Int32) (newEpoch : Int64)
  | updatePartitionIsr (topicId : UInt64) (id : Int32) (newIsr : List Int32)
  | registerBroker (broker : BrokerMetadata)
  | deregisterBroker (id : Int32)
  | updateBrokerHeartbeat (id : Int32) (heartbeatMs : Int64)
  | markBrokerInactive (id : Int32)
  deriving DecidableEq

namespace MetadataStore

def step (store : MetadataStore) : MetadataCall → MetadataStore
  | .upsertTopic topic => store.upsertTopic topic
  | .markTopicDeleted name atMs => store.markTopicDeleted name atMs
  | .removeTopic name => store.removeTopic name
  | .updatePartitionLeader topicId id newLeader newEpoch =>
    store.updatePartitionLeader topicId id newLeader newEpoch
  | .updatePartitionIsr topicId id newIsr => store.updatePartitionIsr topicId id newIsr
  | .registerBroker broker => store.registerBroker broker
  | .deregisterBroker id => store.deregisterBroker id
  | .updateBrokerHeartbeat id heartbeatMs => store.updateBrokerHeartbeat id heartbeatMs
  | .markBrokerInactive id => store.markBrokerInactive id

def run (store : MetadataStore) (calls : List MetadataCall) : MetadataStore := Runs.run step store calls

/-- Every call of a sequence meets a condition on the store before it. -/
abbrev CallsMeet (condition : MetadataStore → MetadataCall → Prop) (store : MetadataStore)
    (calls : List MetadataCall) : Prop := Runs.Meets step condition store calls

end MetadataStore

end TorrentMq.Consensus
