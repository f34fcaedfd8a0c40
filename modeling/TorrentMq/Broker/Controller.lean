import TorrentMq.Broker.ReplicaPlacement

/-!
# Controller

The orchestration of a cluster: the brokers that are alive, the replicas of
every partition, and the leaders that the controller elects. The locks are
taken as ones that a thread may take again.
-/

set_option autoImplicit false

namespace TorrentMq.Broker.Controllers

open Bytes Partitions OrderedMap

def kMaxReplicationFactor : Int16 := 16

inductive Privilege where
  | createTopics (controllerId : BrokerId)
  | deleteTopics
  | createPartitions
  | reassignPartitions
  | triggerLeaderElections
  | handleBrokerFailures
  | handleBrokerRecovery
deriving DecidableEq

inductive ControllerError where
  | notController (privilege : Privilege)
  | invalidateTopicName (name : Bytes)
  | partitionCountOutOfRange (numPartitions : Int32)
  | replicationFactorOutOfRange (replicationFactor : Int16)
  | noBrokersAvailable
  | replicationFactorExceedsBrokers (replicationFactor : Int16) (brokerCount : Nat)
  | topicNotFound (name : Bytes)
  | partitionCountNotGreater (newTotalCount currentCount : Int32)
  | assignmentMismatch (partitions assignments : Nat)
  | noEligibleLeader (topic : Bytes) (partition : Int32)
  | lengthError
deriving DecidableEq

/-- Where a partition is, and who leads it in which epoch. -/
structure PartitionAssignmentEntry where
  replicas : List BrokerId := []
  isr : List BrokerId := []
  leader : BrokerId := kNoBroker
  leaderEpoch : Int64 := 0
deriving DecidableEq

def preferredLeader (replicas : List BrokerId) : BrokerId := replicas.headD kNoBroker

abbrev Parts := OrderedMap Int32 PartitionAssignmentEntry

/-- The controller's view of the cluster; `undefined` once it has read what is not there. -/
structure Controller where
  controllerId : BrokerId := kNoBroker
  controllerEpoch : Int64 := 0
  isController : Bool := false
  brokers : Brokers := .empty
  registered : ∀ broker ∈ brokers.keys, 0 ≤ broker := by simp
  assignments : OrderedMap Bytes Parts := .empty
  undefined : Bool := false

def validateTopicName (name : Bytes) : Bool := !name.isEmpty && decide (name.length ≤ 249)

def Brokers.elect (brokers : Brokers) (entry : PartitionAssignmentEntry) : BrokerId :=
  let preferred := preferredLeader entry.replicas
  if preferred ≠ kNoBroker ∧ brokers.isAlive preferred = true ∧ preferred ∈ entry.isr then preferred
  else (entry.isr.find? fun broker => brokers.isAlive broker).getD kNoBroker

namespace Controller

variable (controller : Controller)

def findEntry (topic : Bytes) (partition : Int32) : Option PartitionAssignmentEntry :=
  (controller.assignments.find? topic).bind fun parts => parts.find? partition

def setParts (name : Bytes) (parts : Parts) : Controller :=
  { controller with assignments := controller.assignments.insert name parts }

def modifyEntry (topic : Bytes) (partition : Int32)
    (change : PartitionAssignmentEntry → PartitionAssignmentEntry) : Controller :=
  match controller.assignments.find? topic with
  | none => controller
  | some parts =>
    match parts.find? partition with
    | none => controller
    | some entry => controller.setParts topic (parts.insert partition (change entry))

def mapEntries (change : PartitionAssignmentEntry → PartitionAssignmentEntry) : Controller :=
  { controller with
    assignments := controller.assignments.mapValues fun _ parts => parts.mapValues fun _ entry => change entry }

def undefine : Controller := { controller with undefined := true }

def setAlive (broker : BrokerId) (isAlive : Bool) : Controller :=
  { controller with
    brokers := controller.brokers.modify broker fun state => { state with isAlive := isAlive }
    registered := fun other member => controller.registered other (mem_keys_modify.mp member) }

def newEntry (replicas : List BrokerId) : PartitionAssignmentEntry :=
  { replicas := replicas
    isr := replicas
    leader := preferredLeader replicas
    leaderEpoch := controller.controllerEpoch }

def storeAssignments (first count : Int32) (assignments : List (List BrokerId)) (parts : Parts) : Parts :=
  (assignments.take count.toNatClampNeg).zipIdx.foldl
    (fun parts assigned => parts.insert (first + Int32.ofNat assigned.2) (controller.newEntry assigned.1)) parts

def refuseTopic (name : Bytes) (numPartitions : Int32) (replicationFactor : Int16) : Option ControllerError :=
  if ¬controller.isController then some (.notController (.createTopics controller.controllerId))
  else if ¬validateTopicName name then some (.invalidateTopicName name)
  else if numPartitions < 1 ∨ 200000 < numPartitions then some (.partitionCountOutOfRange numPartitions)
  else if replicationFactor < 1 ∨ kMaxReplicationFactor < replicationFactor then
    some (.replicationFactorOutOfRange replicationFactor)
  else if controller.brokers.size = 0 then some .noBrokersAvailable
  else if Int16.ofNat controller.brokers.size < replicationFactor then
    some (.replicationFactorExceedsBrokers replicationFactor controller.brokers.size)
  else none

def createTopic (name : Bytes) (numPartitions : Int32) (replicationFactor : Int16) :
    Controller × Except ControllerError Unit :=
  match controller.refuseTopic name numPartitions replicationFactor with
  | some error => (controller, .error error)
  | none =>
    match assignReplicas controller.brokers numPartitions replicationFactor.toInt32 with
    | none => (controller, .error .lengthError)
    | some assignments =>
      let parts := (controller.assignments.find? name).getD .empty
      (controller.setParts name (controller.storeAssignments 0 numPartitions assignments parts), .ok ())

def deleteTopic (name : Bytes) : Controller × Except ControllerError Unit :=
  if ¬controller.isController then (controller, .error (.notController .deleteTopics))
  else if controller.assignments.find? name = none then (controller, .error (.topicNotFound name))
  else ({ controller with assignments := controller.assignments.erase name }, .ok ())

/-- The replication factor is that of the first entry in the order of a hash table,
which the table need not have. An assignment for each new partition is read,
which need not be there either. -/
def createPartitions (order : IterationOrder Int32) (name : Bytes) (newTotalCount : Int32) :
    Controller × Except ControllerError Unit :=
  if ¬controller.isController then (controller, .error (.notController .createPartitions))
  else
    match controller.assignments.find? name with
    | none => (controller, .error (.topicNotFound name))
    | some parts =>
      let currentCount := Int32.ofNat parts.size
      if newTotalCount ≤ currentCount then
        (controller, .error (.partitionCountNotGreater newTotalCount currentCount))
      else
        let numNew := newTotalCount - currentCount
        match (order.visit parts.keys).head?.bind fun pid => parts.find? pid with
        | none => (controller.undefine, .ok ())
        | some first =>
          match assignReplicas controller.brokers numNew (Int32.ofNat first.replicas.length) with
          | none => (controller, .error .lengthError)
          | some newAssignments =>
            if newAssignments.length < numNew.toNatClampNeg then (controller.undefine, .ok ())
            else
              (controller.setParts name
                  (controller.storeAssignments currentCount numNew newAssignments parts), .ok ())

def reassign (newReplicas : List BrokerId) (entry : PartitionAssignmentEntry) : PartitionAssignmentEntry :=
  { entry with replicas := newReplicas, isr := newReplicas, leader := preferredLeader newReplicas }

def reassignPartitions (partitions : List (Bytes × Int32)) (newAssignments : List (List BrokerId)) :
    Controller × Except ControllerError Unit :=
  if ¬controller.isController then (controller, .error (.notController .reassignPartitions))
  else if partitions.length ≠ newAssignments.length then
    (controller, .error (.assignmentMismatch partitions.length newAssignments.length))
  else
    ((partitions.zip newAssignments).foldl
      (fun controller assignment =>
        controller.modifyEntry assignment.1.1 assignment.1.2 (reassign assignment.2))
      controller, .ok ())

def electPreferredLeader (topic : Bytes) (partition : Int32) : BrokerId :=
  match controller.findEntry topic partition with
  | none => kNoBroker
  | some entry => controller.brokers.elect entry

def lead (newLeader : BrokerId) (entry : PartitionAssignmentEntry) : PartitionAssignmentEntry :=
  { entry with leader := newLeader, leaderEpoch := controller.controllerEpoch }

def triggerLeaderElection (topic : Bytes) (partition : Int32) : Controller × Except ControllerError Unit :=
  if ¬controller.isController then (controller, .error (.notController .triggerLeaderElections))
  else
    let newLeader := controller.electPreferredLeader topic partition
    if newLeader = kNoBroker then (controller, .error (.noEligibleLeader topic partition))
    else
      (controller.modifyEntry topic partition (controller.lead newLeader), .ok ())

/-- An entry without the broker that has failed. If it has been the leader, another one
is elected as the table has the entry by then. -/
def failOver (failedBroker : BrokerId) (entry : PartitionAssignmentEntry) : PartitionAssignmentEntry :=
  let shrunk := { entry with isr := entry.isr.filter (· ≠ failedBroker) }
  if entry.leader = failedBroker then
    let newLeader := controller.brokers.elect shrunk
    if newLeader ≠ kNoBroker then controller.lead newLeader shrunk else { shrunk with leader := kNoBroker }
  else shrunk

def handleBrokerFailure (failedBroker : BrokerId) : Controller × Except ControllerError Unit :=
  if ¬controller.isController then (controller, .error (.notController .handleBrokerFailures))
  else
    let marked := controller.setAlive failedBroker false
    (marked.mapEntries fun entry =>
        if entry.leader = failedBroker ∨ failedBroker ∈ entry.isr then marked.failOver failedBroker entry else entry,
      .ok ())

def restore (recoveredBroker : BrokerId) (entry : PartitionAssignmentEntry) : PartitionAssignmentEntry :=
  if recoveredBroker ∈ entry.replicas ∧ recoveredBroker ∉ entry.isr then
    { entry with isr := entry.isr ++ [recoveredBroker] }
  else entry

def handleBrokerRecovery (recoveredBroker : BrokerId) : Controller × Except ControllerError Unit :=
  if ¬controller.isController then (controller, .error (.notController .handleBrokerRecovery))
  else ((controller.setAlive recoveredBroker true).mapEntries (restore recoveredBroker), .ok ())

def register (server : BrokerServer) (rack : Bytes) : Controller :=
  { controller with
    brokers := controller.brokers.insert server.brokerId { rack := rack }
    registered := by
      intro broker member
      rcases mem_keys_insert.mp member with rfl | before
      · exact server.valid
      · exact controller.registered broker before }

def onBecomeController (server : BrokerServer) (rack : Bytes) : Controller :=
  { controller.register server rack with
    controllerId := server.brokerId
    controllerEpoch := controller.controllerEpoch + 1
    isController := true }

def onResignController : Controller :=
  if controller.isController then { controller with isController := false, controllerId := kNoBroker } else controller

def incrementEpoch : Controller := { controller with controllerEpoch := controller.controllerEpoch + 1 }

end Controller

inductive Operation where
  | createTopic (name : Bytes) (numPartitions : Int32) (replicationFactor : Int16)
  | createPartitions (order : IterationOrder Int32) (name : Bytes) (newTotalCount : Int32)
  | reassignPartitions (partitions : List (Bytes × Int32)) (newAssignments : List (List BrokerId))
  | triggerLeaderElection (topic : Bytes) (partition : Int32)
  | handleBrokerFailure (failedBroker : BrokerId)
  | handleBrokerRecovery (recoveredBroker : BrokerId)

def arrange (controller : Controller) (operation : Operation) : Controller :=
  if controller.undefined then controller
  else
    match operation with
    | .createTopic name numPartitions replicationFactor =>
      (controller.createTopic name numPartitions replicationFactor).1
    | .createPartitions order name newTotalCount => (controller.createPartitions order name newTotalCount).1
    | .reassignPartitions partitions newAssignments => (controller.reassignPartitions partitions newAssignments).1
    | .triggerLeaderElection topic partition => (controller.triggerLeaderElection topic partition).1
    | .handleBrokerFailure failedBroker => (controller.handleBrokerFailure failedBroker).1
    | .handleBrokerRecovery recoveredBroker => (controller.handleBrokerRecovery recoveredBroker).1

def registerAll (brokers : List (BrokerServer × Bytes)) : Controller :=
  brokers.foldl (fun controller broker => controller.register broker.1 broker.2) {}

end TorrentMq.Broker.Controllers
