import Mathlib.Data.List.Sort
import TorrentMq.Bytes.Decimal
import TorrentMq.Collections.Counting
import TorrentMq.Runs.Basic

/-!
# Partition manager

The partition replicas that a broker hosts, which of them it leads, and the two
counters that it keeps of them.
-/

set_option autoImplicit false

namespace TorrentMq.Broker.Partitions

open Bytes

abbrev BrokerId := Int

def kNoBroker : BrokerId := -2

def kMaxPartitionsPerBroker : Int32 := 100000

def kKeySeparator : UInt8 := 0x1e

structure BrokerServer where
  brokerId : BrokerId
  valid : 0 ≤ brokerId

inductive PartitionError where
  | topicEmpty
  | negativePartition
  | tooManyPartitions
  | storageUnavailable
  | openFailed (error : Int16)
  | statusUnknown
  | partitionNotFound (topic : Bytes) (partition : Int32)
  | staleLeaderEpoch (leaderEpoch fencedEpoch : Int64)
deriving DecidableEq

structure PartitionReplica where
  topic : Bytes
  partitionId : Int32
  leader : BrokerId := kNoBroker
  leaderEpoch : Int64 := 0
  fencedEpoch : Int64 := 0
  isr : List BrokerId := []
  offlineReplicas : List BrokerId := []
  isLeaderLocal : Bool := false
  isActive : Bool := false
deriving DecidableEq

def makePartitionKey (topic : Bytes) (partition : Int32) : Bytes :=
  topic ++ kKeySeparator :: decimalInt partition.toInt

def selectNewLeader (isr offline : List BrokerId) (localBrokerId : BrokerId) : BrokerId :=
  if localBrokerId ∈ isr ∧ localBrokerId ∉ offline then localBrokerId
  else (isr.find? fun broker => broker ∉ offline).getD kNoBroker

structure PartitionManager where
  partitions : OrderedMap Bytes PartitionReplica := .empty
  leaderPartitionCount : Int32 := 0
  totalPartitionCount : Int32 := 0

namespace PartitionManager

variable (manager : PartitionManager) (server : BrokerServer)

def setReplica (key : Bytes) (replica : PartitionReplica) : PartitionManager :=
  { manager with partitions := manager.partitions.insert key replica }

def createPartition (topic : Bytes) (partition : Int32) (opening : Except PartitionError Unit) :
    PartitionManager × Except PartitionError Int32 :=
  if topic.isEmpty then (manager, .error .topicEmpty)
  else if partition < 0 then (manager, .error .negativePartition)
  else if kMaxPartitionsPerBroker ≤ manager.totalPartitionCount then (manager, .error .tooManyPartitions)
  else
    let key := makePartitionKey topic partition
    if (manager.partitions.find? key).any (·.isActive) then (manager, .ok partition)
    else
      match opening with
      | .error error => (manager, .error error)
      | .ok _ =>
        let created := manager.setReplica key { topic := topic, partitionId := partition, isActive := true }
        ({ created with totalPartitionCount := created.totalPartitionCount + 1 }, .ok partition)

def deletePartition (topic : Bytes) (partition : Int32) (statusKnown : Bool) :
    PartitionManager × Except PartitionError Unit :=
  let key := makePartitionKey topic partition
  match manager.partitions.find? key with
  | none => (manager, .ok ())
  | some replica =>
    let stopped :=
      { manager with
        partitions := manager.partitions.erase key
        leaderPartitionCount :=
          if replica.isLeaderLocal then manager.leaderPartitionCount - 1 else manager.leaderPartitionCount }
    if statusKnown then ({ stopped with totalPartitionCount := stopped.totalPartitionCount - 1 }, .ok ())
    else (stopped, .error .statusUnknown)

def lead (replica : PartitionReplica) : PartitionReplica :=
  { replica with
    leaderEpoch := replica.leaderEpoch + 1
    fencedEpoch := replica.leaderEpoch + 1
    leader := server.brokerId
    isLeaderLocal := true
    isr :=
      if server.brokerId ∈ replica.isr then replica.isr
      else (replica.isr ++ [server.brokerId]).insertionSort (· ≤ ·) }

def becomeLeader (topic : Bytes) (partition : Int32) : PartitionManager × Except PartitionError Unit :=
  let key := makePartitionKey topic partition
  match manager.partitions.find? key with
  | none => (manager, .error (.partitionNotFound topic partition))
  | some replica =>
    if replica.isLeaderLocal then (manager, .ok ())
    else
      let led := manager.setReplica key (lead server replica)
      ({ led with leaderPartitionCount := led.leaderPartitionCount + 1 }, .ok ())

def stepDown (replica : PartitionReplica) : PartitionReplica :=
  { replica with
    isLeaderLocal := false
    leader := selectNewLeader replica.isr replica.offlineReplicas server.brokerId }

def stepDownLeader (topic : Bytes) (partition : Int32) : PartitionManager × Except PartitionError Unit :=
  let key := makePartitionKey topic partition
  match manager.partitions.find? key with
  | none => (manager, .error (.partitionNotFound topic partition))
  | some replica =>
    if replica.isLeaderLocal then
      let led := manager.setReplica key (stepDown server replica)
      ({ led with leaderPartitionCount := led.leaderPartitionCount - 1 }, .ok ())
    else (manager, .ok ())

def applyLeaderAndIsr (newLeader : BrokerId) (newIsr : List BrokerId) (leaderEpoch : Int64)
    (replica : PartitionReplica) : PartitionReplica :=
  { replica with
    leader := newLeader
    leaderEpoch := leaderEpoch
    isr := newIsr
    fencedEpoch := leaderEpoch
    isLeaderLocal := newLeader = server.brokerId }

def adjustLeaderCount (was now : Bool) (count : Int32) : Int32 :=
  if was ∧ ¬now then count - 1 else if ¬was ∧ now then count + 1 else count

def handleLeaderAndIsr (topic : Bytes) (partition : Int32) (newLeader : BrokerId) (newIsr : List BrokerId)
    (leaderEpoch : Int64) : PartitionManager × Except PartitionError Unit :=
  let key := makePartitionKey topic partition
  match manager.partitions.find? key with
  | none => (manager, .error (.partitionNotFound topic partition))
  | some replica =>
    if leaderEpoch < replica.fencedEpoch then
      (manager, .error (.staleLeaderEpoch leaderEpoch replica.fencedEpoch))
    else
      let applied := applyLeaderAndIsr server newLeader newIsr leaderEpoch replica
      let updated := manager.setReplica key applied
      ({ updated with
          leaderPartitionCount :=
            adjustLeaderCount replica.isLeaderLocal applied.isLeaderLocal updated.leaderPartitionCount },
        .ok ())

def handleStopReplica (topic : Bytes) (partition : Int32) (deleteData statusKnown : Bool) :
    PartitionManager × Except PartitionError Unit :=
  if deleteData then manager.deletePartition topic partition statusKnown
  else
    let key := makePartitionKey topic partition
    match manager.partitions.find? key with
    | none => (manager, .ok ())
    | some replica =>
      let stopped := manager.setReplica key { replica with isActive := false, isLeaderLocal := false }
      ({ stopped with
          leaderPartitionCount :=
            if replica.isLeaderLocal then stopped.leaderPartitionCount - 1 else stopped.leaderPartitionCount },
        .ok ())

end PartitionManager

inductive Event where
  | createPartition (topic : Bytes) (partition : Int32) (opening : Except PartitionError Unit)
  | deletePartition (topic : Bytes) (partition : Int32) (statusKnown : Bool)
  | becomeLeader (topic : Bytes) (partition : Int32)
  | stepDownLeader (topic : Bytes) (partition : Int32)
  | handleLeaderAndIsr (topic : Bytes) (partition : Int32) (newLeader : BrokerId) (newIsr : List BrokerId)
      (leaderEpoch : Int64)
  | handleStopReplica (topic : Bytes) (partition : Int32) (deleteData statusKnown : Bool)

def step (server : BrokerServer) (manager : PartitionManager) : Event → PartitionManager
  | .createPartition topic partition opening => (manager.createPartition topic partition opening).1
  | .deletePartition topic partition statusKnown => (manager.deletePartition topic partition statusKnown).1
  | .becomeLeader topic partition => (manager.becomeLeader server topic partition).1
  | .stepDownLeader topic partition => (manager.stepDownLeader server topic partition).1
  | .handleLeaderAndIsr topic partition newLeader newIsr leaderEpoch =>
    (manager.handleLeaderAndIsr server topic partition newLeader newIsr leaderEpoch).1
  | .handleStopReplica topic partition deleteData statusKnown =>
    (manager.handleStopReplica topic partition deleteData statusKnown).1

end TorrentMq.Broker.Partitions
