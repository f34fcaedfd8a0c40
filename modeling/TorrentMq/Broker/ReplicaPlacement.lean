import TorrentMq.Broker.PartitionManager

/-!
# Replica placement

How the controller chooses the brokers that hold the replicas of new
partitions, rack by rack and the least loaded broker first.
-/

set_option autoImplicit false

namespace TorrentMq.Broker.Controllers

open Bytes Partitions List OrderedMap

structure BrokerMeta where
  rack : Bytes := []
  isAlive : Bool := true
deriving DecidableEq

abbrev Brokers := OrderedMap BrokerId BrokerMeta

namespace Brokers

variable (brokers : Brokers)

def isAlive (broker : BrokerId) : Bool := (brokers.find? broker).any (·.isAlive)

def aliveBrokers : List BrokerId := (brokers.filterValues (·.isAlive)).keys

def rackOf (broker : BrokerId) : Bytes := ((brokers.find? broker).map (·.rack)).getD []

def addToRack (groups : OrderedMap Bytes (List BrokerId)) (broker : BrokerId) :
    OrderedMap Bytes (List BrokerId) :=
  let rack := rackOf brokers broker
  groups.insert rack ((groups.find? rack).getD [] ++ [broker])

def rackBrokers : OrderedMap Bytes (List BrokerId) := brokers.aliveBrokers.foldl brokers.addToRack .empty

end Brokers

abbrev BrokerLoad := OrderedMap BrokerId Int32

def loadOf (brokerLoad : BrokerLoad) (broker : BrokerId) : Int32 := (brokerLoad.find? broker).getD 0

structure Best where
  broker : BrokerId := kNoBroker
  load : Int32 := kMaxPartitionsPerBroker
  rack : Bytes := []

def consider (used : List BrokerId) (brokerLoad : BrokerLoad) (rack : Bytes) (best : Best) (broker : BrokerId) :
    Best :=
  if broker ∈ used then best
  else if loadOf brokerLoad broker < best.load then { broker, load := loadOf brokerLoad broker, rack }
  else best

structure Placement where
  brokerLoad : BrokerLoad
  replicas : List BrokerId := []
  usedRacks : List Bytes := []

namespace Placement

variable (placement : Placement) (rackBrokers : OrderedMap Bytes (List BrokerId)) (aliveBrokers : List BrokerId)

def considerRack (rackCount : Nat) (best : Best) (entry : Bytes × List BrokerId) : Best :=
  if placement.usedRacks.length < rackCount ∧ entry.1 ∈ placement.usedRacks then best
  else entry.2.foldl (consider placement.replicas placement.brokerLoad entry.1) best

def pickFromRacks : Best := rackBrokers.entries.foldl (placement.considerRack rackBrokers.size) {}

def pickAny : Best := aliveBrokers.foldl (consider placement.replicas placement.brokerLoad []) {}

def push (broker : BrokerId) : Placement :=
  { placement with
    brokerLoad := placement.brokerLoad.insert broker (loadOf placement.brokerLoad broker + 1)
    replicas := placement.replicas ++ [broker] }

def spread : Placement :=
  let best := placement.pickFromRacks rackBrokers
  if best.broker = kNoBroker then placement
  else { placement.push best.broker with usedRacks := placement.usedRacks.insert best.rack }

def fill (placement : Placement) : (missing : Nat) → Placement
  | 0 => placement
  | missing + 1 =>
    let best := placement.pickAny aliveBrokers
    if best.broker = kNoBroker then placement else (placement.push best.broker).fill missing

end Placement

def placePartition (rackBrokers : OrderedMap Bytes (List BrokerId)) (aliveBrokers : List BrokerId)
    (effectiveRf : Nat) (brokerLoad : BrokerLoad) : Placement :=
  let spread : Placement := (List.range effectiveRf).foldl (fun placed _ => placed.spread rackBrokers) { brokerLoad }
  spread.fill aliveBrokers (effectiveRf - spread.replicas.length)

def placePartitions (rackBrokers : OrderedMap Bytes (List BrokerId)) (aliveBrokers : List BrokerId)
    (effectiveRf : Nat) : (numPartitions : Nat) → BrokerLoad → List (List BrokerId)
  | 0, _ => []
  | numPartitions + 1, brokerLoad =>
    let placed := placePartition rackBrokers aliveBrokers effectiveRf brokerLoad
    placed.replicas :: placePartitions rackBrokers aliveBrokers effectiveRf numPartitions placed.brokerLoad

/-- No broker alive gives no assignment at all. A factor that came out negative as a
number of 32 bits throws, where room for the replicas is reserved. -/
def assignReplicas (brokers : Brokers) (numPartitions replicationFactor : Int32) : Option (List (List BrokerId)) :=
  if numPartitions ≤ 0 then some []
  else
    let aliveBrokers := brokers.aliveBrokers
    if aliveBrokers.isEmpty then some []
    else
      let effectiveRf := min replicationFactor (Int32.ofNat aliveBrokers.length)
      if effectiveRf < 0 then none
      else
        some (placePartitions brokers.rackBrokers aliveBrokers effectiveRf.toNatClampNeg numPartitions.toNatClampNeg
          .empty)

structure Placed (brokers : Brokers) (replicas : List BrokerId) : Prop where
  distinct : replicas.Nodup
  alive : ∀ broker ∈ replicas, brokers.isAlive broker = true

section Placing

variable {brokers : Brokers} {broker : BrokerId} {used : List BrokerId} {brokerLoad : BrokerLoad}
  {placement : Placement}

theorem mem_aliveBrokers : broker ∈ brokers.aliveBrokers ↔ brokers.isAlive broker = true := by
  unfold Brokers.aliveBrokers Brokers.isAlive
  rw [mem_keys_iff_isSome, find?_filterValues]
  cases brokers.find? broker with
  | none => simp
  | some state => simp [Option.filter_some]

theorem Placed.nil : Placed brokers [] where
  distinct := .nil
  alive := nofun

theorem Placed.push (placed : Placed brokers placement.replicas) (alive : brokers.isAlive broker = true)
    (unused : broker ∉ placement.replicas) : Placed brokers (placement.push broker).replicas where
  distinct := by
    have longer := placed.distinct.concat unused
    rwa [concat_eq_append] at longer
  alive := by
    intro other member
    rcases mem_append.mp member with before | added
    · exact placed.alive other before
    · rw [mem_singleton.mp added]
      exact alive

/-- What a search has come to is no broker yet, or one that is alive and not used. -/
def Best.Sound (brokers : Brokers) (used : List BrokerId) (best : Best) : Prop :=
  best.broker ≠ kNoBroker → brokers.isAlive best.broker = true ∧ best.broker ∉ used

theorem Best.sound_default : Best.Sound brokers used {} := fun found => absurd rfl found

theorem Best.Sound.search {rack : Bytes} {best : Best} {candidates : List BrokerId}
    (sound : best.Sound brokers used) (alive : ∀ broker ∈ candidates, brokers.isAlive broker = true) :
    (candidates.foldl (consider used brokerLoad rack) best).Sound brokers used := by
  induction candidates generalizing best with
  | nil => exact sound
  | cons candidate candidates ih =>
    rw [foldl_cons]
    refine ih ?_ fun broker member => alive broker (mem_cons_of_mem candidate member)
    unfold consider
    split
    next => exact sound
    next unused =>
      split
      next => exact fun _ => ⟨alive candidate mem_cons_self, unused⟩
      next => exact sound

theorem alive_of_rackBrokers {entry : Bytes × List BrokerId} (listed : entry ∈ brokers.rackBrokers.entries)
    (member : broker ∈ entry.2) : brokers.isAlive broker = true := by
  have grouped : ∀ (candidates : List BrokerId) (groups : OrderedMap Bytes (List BrokerId)),
      (∀ entry ∈ groups.entries, ∀ broker ∈ entry.2, brokers.isAlive broker = true) →
      (∀ broker ∈ candidates, brokers.isAlive broker = true) →
      ∀ entry ∈ (candidates.foldl brokers.addToRack groups).entries, ∀ broker ∈ entry.2,
        brokers.isAlive broker = true := by
    intro candidates
    induction candidates with
    | nil => exact fun groups before _ => before
    | cons candidate candidates ih =>
      intro groups before alive
      refine ih _ ?_ fun broker member => alive broker (mem_cons_of_mem candidate member)
      intro entry listed broker member
      rcases mem_insert.mp listed with rfl | ⟨old, -⟩
      · rcases mem_append.mp member with earlier | added
        · cases found : groups.find? (brokers.rackOf candidate) with
          | none =>
            rw [found] at earlier
            cases earlier
          | some group =>
            rw [found] at earlier
            exact before _ (OrderedMap.find?_eq_some_iff.mp found) broker earlier
        · rw [mem_singleton.mp added]
          exact alive candidate mem_cons_self
      · exact before entry old broker member
  exact grouped brokers.aliveBrokers .empty nofun (fun broker => mem_aliveBrokers.mp) entry listed broker member

theorem sound_pickFromRacks : (placement.pickFromRacks brokers.rackBrokers).Sound brokers placement.replicas := by
  have searched : ∀ (entries : List (Bytes × List BrokerId)) (best : Best),
      (∀ entry ∈ entries, ∀ broker ∈ entry.2, brokers.isAlive broker = true) →
      best.Sound brokers placement.replicas →
      (entries.foldl (placement.considerRack brokers.rackBrokers.size) best).Sound brokers placement.replicas := by
    intro entries
    induction entries with
    | nil => exact fun best _ sound => sound
    | cons entry entries ih =>
      intro best alive sound
      refine ih _ (fun other member => alive other (mem_cons_of_mem entry member)) ?_
      unfold Placement.considerRack
      split
      next => exact sound
      next => exact sound.search (alive entry mem_cons_self)
  exact searched _ _ (fun entry listed broker member => alive_of_rackBrokers listed member) Best.sound_default

theorem sound_pickAny : (placement.pickAny brokers.aliveBrokers).Sound brokers placement.replicas :=
  Best.sound_default.search fun _ member => mem_aliveBrokers.mp member

theorem Placed.spread (placed : Placed brokers placement.replicas) :
    Placed brokers (placement.spread brokers.rackBrokers).replicas := by
  unfold Placement.spread
  dsimp only
  split
  next => exact placed
  next some_broker =>
    obtain ⟨alive, unused⟩ := sound_pickFromRacks some_broker
    exact placed.push alive unused

theorem Placed.fill {missing : Nat} (placed : Placed brokers placement.replicas) :
    Placed brokers (placement.fill brokers.aliveBrokers missing).replicas := by
  induction missing generalizing placement with
  | zero => exact placed
  | succ missing ih =>
    unfold Placement.fill
    dsimp only
    split
    next => exact placed
    next some_broker =>
      obtain ⟨alive, unused⟩ := sound_pickAny some_broker
      exact ih (placed.push alive unused)

theorem placed_placePartition {effectiveRf : Nat} :
    Placed brokers (placePartition brokers.rackBrokers brokers.aliveBrokers effectiveRf brokerLoad).replicas := by
  have spread : ∀ (turns : List Nat) (placement : Placement), Placed brokers placement.replicas →
      Placed brokers (turns.foldl (fun placed _ => placed.spread brokers.rackBrokers) placement).replicas := by
    intro turns
    induction turns with
    | nil => exact fun placement placed => placed
    | cons turn turns ih => exact fun placement placed => ih _ placed.spread
  unfold placePartition
  exact (spread (List.range effectiveRf) { brokerLoad } .nil).fill

theorem placed_placePartitions {effectiveRf numPartitions : Nat} {replicas : List BrokerId}
    (listed : replicas ∈
      placePartitions brokers.rackBrokers brokers.aliveBrokers effectiveRf numPartitions brokerLoad) :
    Placed brokers replicas := by
  induction numPartitions generalizing brokerLoad with
  | zero => cases listed
  | succ numPartitions ih =>
    rcases mem_cons.mp listed with rfl | later
    · exact placed_placePartition
    · exact ih later

theorem length_placePartitions {rackBrokers : OrderedMap Bytes (List BrokerId)} {aliveBrokers : List BrokerId}
    {effectiveRf numPartitions : Nat} :
    (placePartitions rackBrokers aliveBrokers effectiveRf numPartitions brokerLoad).length = numPartitions := by
  induction numPartitions generalizing brokerLoad with
  | zero => rfl
  | succ numPartitions ih => exact congrArg (· + 1) ih

variable {numPartitions replicationFactor : Int32} {assignments : List (List BrokerId)}

section

variable (assigned : assignReplicas brokers numPartitions replicationFactor = some assignments)

include assigned

theorem placed_assignReplicas
    {replicas : List BrokerId} (listed : replicas ∈ assignments) : Placed brokers replicas := by
  unfold assignReplicas at assigned
  dsimp only at assigned
  split at assigned
  next =>
    cases assigned
    cases listed
  next =>
    split at assigned
    next =>
      cases assigned
      cases listed
    next =>
      split at assigned
      next => cases assigned
      next =>
        cases assigned
        exact placed_placePartitions listed

theorem length_assignReplicas
    (some_partition : 0 < numPartitions) :
    assignments.length = if brokers.aliveBrokers.isEmpty then 0 else numPartitions.toNatClampNeg := by
  unfold assignReplicas at assigned
  rw [if_neg (by exact Int32.not_le.mpr some_partition)] at assigned
  dsimp only at assigned
  split at assigned
  next none_alive =>
    cases assigned
    rw [if_pos none_alive, length_nil]
  next some_alive =>
    split at assigned
    next => cases assigned
    next =>
      cases assigned
      rw [if_neg some_alive, length_placePartitions]

end

end Placing

end TorrentMq.Broker.Controllers
