import TorrentMq.Consensus.MetadataStore

/-!
# Metadata snapshots

The byte format of a snapshot: topics with their configuration and partitions,
then brokers. Numbers are written with the most significant byte first.
-/

set_option autoImplicit false

namespace TorrentMq.Consensus

open Bytes Reader

def kMetadataFormatVersion : UInt32 := 1
def kMetadataMagic : UInt32 := 0x4D455441

def write16 (value : UInt16) : Bytes := encodeBig 2 value.toNat
def write32 (value : UInt32) : Bytes := encodeBig 4 value.toNat
def write32Signed (value : Int32) : Bytes := write32 value.toUInt32
def write64 (value : UInt64) : Bytes := encodeBig 8 value.toNat
def writeBool (value : Bool) : Bytes := [if value then 1 else 0]

def writeString16 (string : Bytes) : Bytes := write16 (UInt16.ofNat string.length) ++ string

def writeList {Value : Type} (write : Value → Bytes) (values : List Value) : Bytes :=
  write32 (UInt32.ofNat values.length) ++ values.flatMap write

def writeTopicConfig (order : VisitOrder) (config : TopicConfig) : Bytes :=
  write32Signed config.partitionCount ++ (write32Signed config.replicationFactor ++
    (write32Signed config.minIsr ++ (write64 config.retentionMs.toUInt64 ++
    (write64 config.segmentMs.toUInt64 ++ (write64 config.segmentBytes.toUInt64 ++
    (write64 config.retentionBytes.toUInt64 ++ ([config.compression.value.toUInt8] ++
    (writeBool config.cleanupPolicyCompact ++ (writeBool config.cleanupPolicyDelete ++
    (write64 config.messageMaxBytes.toUInt64 ++ (writeBool config.isInternal ++
    writeList (fun entry => writeString16 entry.1 ++ writeString16 entry.2)
      (order.visit config.configs))))))))))))

def writePartition (partition : PartitionMetadata) : Bytes :=
  write32Signed partition.partitionId ++ (write32Signed partition.leader ++
    (write64 partition.leaderEpoch.toUInt64 ++ (writeList write32Signed partition.isr ++
    (writeList write32Signed partition.replicas ++ (writeList write32Signed partition.observers ++
    (writeList write32Signed partition.addingReplicas ++ (writeList write32Signed partition.removingReplicas ++
    writeBool partition.isOffline)))))))

def writeTopic (order : VisitOrder) (topic : TopicMetadata) : Bytes :=
  write64 topic.topicId ++ (writeString16 topic.name ++ (writeTopicConfig order topic.config ++
    (writeList writePartition topic.partitions ++ (write64 topic.createdAtMs.toUInt64 ++
    (write64 topic.updatedAtMs.toUInt64 ++ (writeBool topic.deleted ++
    write64 topic.deletedAtMs.toUInt64))))))

def writeBroker (broker : BrokerMetadata) : Bytes :=
  write32Signed broker.brokerId ++ (writeString16 broker.endpoint.host ++ (write16 broker.endpoint.port ++
    (writeString16 broker.rack ++ (writeString16 broker.hostname ++
    (write64 broker.registeredAtMs.toUInt64 ++ (write64 broker.lastHeartbeatMs.toUInt64 ++
    (writeList writeString16 broker.capabilities ++ (writeBool broker.isActive ++
    writeBool broker.isController))))))))

def serialize (order : VisitOrder) (store : MetadataStore) : Bytes :=
  write32 kMetadataMagic ++ (write32 kMetadataFormatVersion ++
    (writeList (writeTopic order) (store.allTopics order) ++ writeList writeBroker (store.allBrokers order)))

def read16 : Reader UInt16 := do
  let value ← big 2
  return UInt16.ofNat value

def read32 : Reader UInt32 := do
  let value ← big 4
  return UInt32.ofNat value

def read32Signed : Reader Int32 := do
  let value ← read32
  return Int32.ofUInt32 value

def read64 : Reader UInt64 := do
  let value ← big 8
  return UInt64.ofNat value

def read64Signed : Reader Int64 := do
  let value ← read64
  return Int64.ofUInt64 value

def readByte : Reader UInt8 := do
  let bytes ← take 1
  return bytes.headD 0

def readBool : Reader Bool := do
  let byte ← readByte
  return decide (byte ≠ 0)

def readString16 : Reader Bytes := do
  let length ← read16
  take length.toNat

def readList {Value : Type} (reader : Reader Value) : Reader (List Value) := do
  let count ← read32
  many reader count.toNat

def readConfigEntry : Reader (Bytes × Bytes) := do
  let key ← readString16
  let value ← readString16
  return (key, value)

def readTopicConfig : Reader TopicConfig := do
  let partitionCount ← read32Signed
  let replicationFactor ← read32Signed
  let minIsr ← read32Signed
  let retentionMs ← read64Signed
  let segmentMs ← read64Signed
  let segmentBytes ← read64Signed
  let retentionBytes ← read64Signed
  let compression ← readByte
  let cleanupPolicyCompact ← readBool
  let cleanupPolicyDelete ← readBool
  let messageMaxBytes ← read64Signed
  let isInternal ← readBool
  let entries ← readList readConfigEntry
  return {
    partitionCount := partitionCount
    replicationFactor := replicationFactor
    minIsr := minIsr
    retentionMs := retentionMs
    segmentMs := segmentMs
    segmentBytes := segmentBytes
    retentionBytes := retentionBytes
    compression := ⟨Int8.ofUInt8 compression⟩
    cleanupPolicyCompact := cleanupPolicyCompact
    cleanupPolicyDelete := cleanupPolicyDelete
    messageMaxBytes := messageMaxBytes
    isInternal := isInternal
    configs := entries.foldl (fun configs entry => configs.insert entry.1 entry.2) .empty }

def readPartition : Reader PartitionMetadata := do
  let partitionId ← read32Signed
  let leader ← read32Signed
  let leaderEpoch ← read64Signed
  let isr ← readList read32Signed
  let replicas ← readList read32Signed
  let observers ← readList read32Signed
  let addingReplicas ← readList read32Signed
  let removingReplicas ← readList read32Signed
  let isOffline ← readBool
  return ⟨partitionId, leader, leaderEpoch, isr, replicas, observers, addingReplicas, removingReplicas, isOffline⟩

def readTopic : Reader TopicMetadata := do
  let topicId ← read64
  let name ← readString16
  let config ← readTopicConfig
  let partitions ← readList readPartition
  let createdAtMs ← read64Signed
  let updatedAtMs ← read64Signed
  let deleted ← readBool
  let deletedAtMs ← read64Signed
  return {
    topicId := topicId
    name := name
    config := config
    partitions := partitions
    createdAtMs := createdAtMs
    updatedAtMs := updatedAtMs
    deleted := deleted
    deletedAtMs := deletedAtMs }

def readBroker : Reader BrokerMetadata := do
  let brokerId ← read32Signed
  let host ← readString16
  let port ← read16
  let rack ← readString16
  let hostname ← readString16
  let registeredAtMs ← read64Signed
  let lastHeartbeatMs ← read64Signed
  let capabilities ← readList readString16
  let isActive ← readBool
  let isController ← readBool
  return ⟨brokerId, ⟨host, port⟩, rack, hostname, registeredAtMs, lastHeartbeatMs, capabilities, isActive,
    isController⟩

def load {Value : Type} (reader : Reader Value) (put : MetadataStore → Value → MetadataStore) :
    Nat → MetadataStore → Bytes → MetadataStore × Option Bytes
  | 0, store, bytes => (store, some bytes)
  | count + 1, store, bytes =>
    match reader.run bytes with
    | none => (store, none)
    | some (value, bytes) => load reader put count (put store value) bytes

def loadSection {Value : Type} (reader : Reader Value) (put : MetadataStore → Value → MetadataStore)
    (store : MetadataStore) (bytes : Bytes) : MetadataStore × Option Bytes :=
  match read32.run bytes with
  | none => (store, none)
  | some (count, bytes) => load reader put count.toNat store bytes

/-- The store after a restore, and whether the whole snapshot could be read.
What the store had before stays in it. -/
def deserialize (data : Bytes) (store : MetadataStore) : MetadataStore × Bool :=
  match read32.run data with
  | none => (store, false)
  | some (magic, bytes) =>
    if magic ≠ kMetadataMagic then (store, false)
    else
      match read32.run bytes with
      | none => (store, false)
      | some (version, bytes) =>
        if version ≠ kMetadataFormatVersion then (store, false)
        else
          match loadSection readTopic MetadataStore.upsertTopic store bytes with
          | (store, none) => (store, false)
          | (store, some bytes) =>
            match loadSection readBroker MetadataStore.registerBroker store bytes with
            | (store, none) => (store, false)
            | (store, some _) => (store, true)

end TorrentMq.Consensus
