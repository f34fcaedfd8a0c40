import Mathlib.Data.List.Dedup
import TorrentMq.Arithmetic.Counters
import TorrentMq.Broker.ReplicaPlacement

/-! Over how many brokers and racks the replicas of a partition are spread. -/

set_option autoImplicit false

namespace TorrentMq.Broker.Controllers

open Bytes Partitions List OrderedMap Int32

/-- Without a broker alive every partition is there, with no replicas. A number of partitions or of
replicas that is negative as a number of 32 bits throws, where room is reserved. -/
def assignReplicasRackAware (brokers : Brokers) (numPartitions replicationFactor : Int32) :
    Option (List (List BrokerId)) :=
  if numPartitions < 0 then none
  else if brokers.aliveBrokers.isEmpty ∨ numPartitions = 0 then
    some (List.replicate numPartitions.toNatClampNeg [])
  else
    let effectiveRf := min replicationFactor (ofNat brokers.aliveBrokers.length)
    if effectiveRf < 0 then none
    else
      some (placePartitions brokers.rackBrokers brokers.aliveBrokers effectiveRf.toNatClampNeg
        numPartitions.toNatClampNeg .empty)

section Searches

variable {brokers : Brokers} {broker : BrokerId} {brokerLoad : BrokerLoad} {placement : Placement}

/-- A search among candidates finds none that is free and below the best load so far, or ends with one of them. -/
theorem search_cases {used : List BrokerId} {rack : Bytes} {best : Best} {candidates : List BrokerId} :
    (candidates.foldl (consider used brokerLoad rack) best = best ∧
      ∀ candidate ∈ candidates, candidate ∈ used ∨ ¬loadOf brokerLoad candidate < best.load) ∨
    ∃ candidate ∈ candidates, candidate ∉ used ∧ loadOf brokerLoad candidate < best.load ∧
      candidates.foldl (consider used brokerLoad rack) best =
        { broker := candidate, load := loadOf brokerLoad candidate, rack } := by
  induction candidates generalizing best with
  | nil => exact .inl ⟨rfl, nofun⟩
  | cons candidate candidates ih =>
    rw [foldl_cons, consider]
    split
    next among =>
      rcases ih with ⟨same, rest⟩ | ⟨other, listed, unused, below, found⟩
      · exact .inl ⟨same, forall_mem_cons.mpr ⟨.inl among, rest⟩⟩
      · exact .inr ⟨other, mem_cons_of_mem candidate listed, unused, below, found⟩
    next unused =>
      split
      next below =>
        rcases ih with ⟨same, -⟩ | ⟨other, listed, unused, lower, found⟩
        · exact .inr ⟨candidate, mem_cons_self, unused, below, same⟩
        · exact .inr ⟨other, mem_cons_of_mem candidate listed, unused, lt_trans lower below, found⟩
      next loaded =>
        rcases ih with ⟨same, rest⟩ | ⟨other, listed, unused, below, found⟩
        · exact .inl ⟨same, forall_mem_cons.mpr ⟨.inr loaded, rest⟩⟩
        · exact .inr ⟨other, mem_cons_of_mem candidate listed, unused, below, found⟩

/-- A rack in use is passed over while there is one that is not. -/
def Placement.Skips (placement : Placement) (rackCount : Nat) (rack : Bytes) : Prop :=
  placement.usedRacks.length < rackCount ∧ rack ∈ placement.usedRacks

theorem rackSearch_cases {rackCount : Nat} {best : Best} {entries : List (Bytes × List BrokerId)} :
    (entries.foldl (placement.considerRack rackCount) best = best ∧
      ∀ entry ∈ entries, ¬placement.Skips rackCount entry.1 → ∀ candidate ∈ entry.2,
        candidate ∈ placement.replicas ∨ ¬loadOf placement.brokerLoad candidate < best.load) ∨
    ∃ entry ∈ entries, ¬placement.Skips rackCount entry.1 ∧ ∃ candidate ∈ entry.2, candidate ∉ placement.replicas ∧
      loadOf placement.brokerLoad candidate < best.load ∧
      entries.foldl (placement.considerRack rackCount) best =
        { broker := candidate, load := loadOf placement.brokerLoad candidate, rack := entry.1 } := by
  induction entries generalizing best with
  | nil => exact .inl ⟨rfl, nofun⟩
  | cons entry entries ih =>
    rw [foldl_cons, Placement.considerRack]
    split
    next skipped =>
      rcases ih with ⟨same, rest⟩ | ⟨other, listed, found⟩
      · exact .inl ⟨same, forall_mem_cons.mpr ⟨fun visited => absurd skipped visited, rest⟩⟩
      · exact .inr ⟨other, mem_cons_of_mem entry listed, found⟩
    next visited =>
      rcases @search_cases placement.brokerLoad placement.replicas entry.1 best entry.2 with
        ⟨same, none⟩ | ⟨candidate, member, unused, below, first⟩
      · rw [same]
        rcases ih with ⟨same, rest⟩ | ⟨other, listed, found⟩
        · exact .inl ⟨same, forall_mem_cons.mpr ⟨fun _ => none, rest⟩⟩
        · exact .inr ⟨other, mem_cons_of_mem entry listed, found⟩
      · rw [first]
        rcases ih with ⟨same, -⟩ | ⟨other, listed, open_rack, candidate, inside, unused, lower, found⟩
        · exact .inr ⟨entry, mem_cons_self, visited, candidate, member, unused, below, same⟩
        · exact .inr ⟨other, mem_cons_of_mem entry listed, open_rack, candidate, inside, unused,
            lt_trans lower below, found⟩

theorem find?_addToRack (candidates : List BrokerId) (groups : OrderedMap Bytes (List BrokerId))
    (rack : Bytes) : ((candidates.foldl brokers.addToRack groups).find? rack).getD [] =
      (groups.find? rack).getD [] ++ candidates.filter (fun broker => brokers.rackOf broker = rack) := by
  induction candidates generalizing groups with
  | nil => simp
  | cons candidate candidates ih =>
    rw [foldl_cons, ih, Brokers.addToRack, find?_insert]
    split
    next same =>
      subst same
      simp
    next other => rw [filter_cons_of_neg (by simpa using Ne.symm other)]

theorem mem_rackBrokers {entry : Bytes × List BrokerId} (listed : entry ∈ brokers.rackBrokers.entries) :
    broker ∈ entry.2 ↔ brokers.isAlive broker = true ∧ brokers.rackOf broker = entry.1 := by
  have grouped := @find?_addToRack brokers brokers.aliveBrokers .empty entry.1
  change (brokers.rackBrokers.find? entry.1).getD [] = _ at grouped
  rw [OrderedMap.find?_eq_some_iff.mpr listed, Option.getD_some] at grouped
  rw [grouped]
  simp [mem_aliveBrokers]

theorem exists_rackBrokers (alive : brokers.isAlive broker = true) :
    ∃ entry ∈ brokers.rackBrokers.entries, entry.1 = brokers.rackOf broker ∧ broker ∈ entry.2 := by
  have grouped := @find?_addToRack brokers brokers.aliveBrokers .empty (brokers.rackOf broker)
  change (brokers.rackBrokers.find? (brokers.rackOf broker)).getD [] = _ at grouped
  have member : broker ∈ (brokers.rackBrokers.find? (brokers.rackOf broker)).getD [] := by
    rw [grouped]
    simp [mem_aliveBrokers, alive]
  cases found : brokers.rackBrokers.find? (brokers.rackOf broker) with
  | none =>
    rw [found] at member
    cases member
  | some group =>
    rw [found] at member
    exact ⟨_, OrderedMap.find?_eq_some_iff.mp found, rfl, member⟩

end Searches

/-- The racks of some brokers, each once. -/
def racksOf (brokers : Brokers) (chosen : List BrokerId) : List Bytes := (chosen.map brokers.rackOf).dedup

/-- The brokers alive whose load is below the ceiling. -/
def openAt (brokers : Brokers) (brokerLoad : BrokerLoad) : List BrokerId :=
  brokers.aliveBrokers.filter fun broker => loadOf brokerLoad broker < kMaxPartitionsPerBroker

/-- A part of a placement that has begun with some loads. -/
structure Loaded (brokers : Brokers) (start : BrokerLoad) (placement : Placement) : Prop where
  distinct : placement.replicas.Nodup
  opened : ∀ broker ∈ placement.replicas, broker ∈ openAt brokers start
  loads : ∀ broker, loadOf placement.brokerLoad broker =
    if broker ∈ placement.replicas then loadOf start broker + 1 else loadOf start broker

structure Racked (brokers : Brokers) (placement : Placement) : Prop where
  distinct : placement.usedRacks.Nodup
  used : ∀ rack, rack ∈ placement.usedRacks ↔ ∃ broker ∈ placement.replicas, brokers.rackOf broker = rack

section Partition

variable {brokers : Brokers} {broker : BrokerId} {start : BrokerLoad} {placement : Placement}

theorem mem_openAt : broker ∈ openAt brokers start ↔
    brokers.isAlive broker = true ∧ loadOf start broker < kMaxPartitionsPerBroker := by
  rw [openAt, List.mem_filter, mem_aliveBrokers, decide_eq_true_iff]

theorem mem_racksOf {chosen : List BrokerId} {rack : Bytes} :
    rack ∈ racksOf brokers chosen ↔ ∃ broker ∈ chosen, brokers.rackOf broker = rack := by
  rw [racksOf, mem_dedup, mem_map]

theorem length_racksOf_openAt : (racksOf brokers (openAt brokers start)).length ≤ brokers.rackBrokers.size := by
  have among : ∀ rack ∈ racksOf brokers (openAt brokers start), rack ∈ brokers.rackBrokers.keys := by
    intro rack member
    obtain ⟨broker, opened, rfl⟩ := mem_racksOf.mp member
    obtain ⟨⟨rack, group⟩, listed, rfl, -⟩ := exists_rackBrokers (mem_openAt.mp opened).1
    exact OrderedMap.mem_keys.mpr ⟨group, listed⟩
  have fewer := (subperm_of_subset (nodup_dedup _) among).length_le
  rwa [OrderedMap.keys, length_map] at fewer

theorem Loaded.begin : Loaded brokers start { brokerLoad := start } where
  distinct := .nil
  opened := nofun
  loads _ := (if_neg not_mem_nil).symm

theorem Racked.begin : Racked brokers { brokerLoad := start } where
  distinct := .nil
  used _ := ⟨nofun, nofun⟩

theorem Loaded.length_le (loaded : Loaded brokers start placement) :
    placement.replicas.length ≤ (openAt brokers start).length :=
  (subperm_of_subset loaded.distinct loaded.opened).length_le

theorem length_push : (placement.push broker).replicas.length = placement.replicas.length + 1 := length_append

section

variable (loaded : Loaded brokers start placement)

include loaded

section

variable (opened : broker ∈ openAt brokers start) (unused : broker ∉ placement.replicas)

include opened unused

theorem Loaded.push : Loaded brokers start (placement.push broker) where
  distinct := by
    have longer := loaded.distinct.concat unused
    rwa [concat_eq_append] at longer
  opened := by
    intro other member
    rcases mem_append.mp member with before | added
    · exact loaded.opened other before
    · rw [mem_singleton.mp added]
      exact opened
  loads := by
    intro other
    have counted : loadOf (placement.push broker).brokerLoad other =
        if other = broker then loadOf placement.brokerLoad broker + 1 else loadOf placement.brokerLoad other := by
      rw [loadOf, Placement.push, find?_insert]
      split
      next => rfl
      next => rfl
    rw [counted, loaded.loads, loaded.loads, if_neg unused]
    by_cases same : other = broker
    · subst same
      rw [if_pos rfl]
      exact (if_pos (mem_append_right _ mem_cons_self)).symm
    · rw [if_neg same]
      exact if_congr (by simp [Placement.push, same]) rfl rfl

theorem Loaded.below : loadOf placement.brokerLoad broker < kMaxPartitionsPerBroker := by
  rw [loaded.loads, if_neg unused]
  exact (mem_openAt.mp opened).2

end

theorem Loaded.mem_openAt_of_below
    (alive : brokers.isAlive broker = true) (unused : broker ∉ placement.replicas)
    (below : loadOf placement.brokerLoad broker < kMaxPartitionsPerBroker) : broker ∈ openAt brokers start := by
  rw [loaded.loads, if_neg unused] at below
  exact mem_openAt.mpr ⟨alive, below⟩

end

variable (unreserved : brokers.isAlive kNoBroker = false)
include unreserved

theorem ne_kNoBroker (alive : brokers.isAlive broker = true) : broker ≠ kNoBroker := by
  rintro rfl
  rw [unreserved] at alive
  cases alive

theorem Loaded.spread_cases (loaded : Loaded brokers start placement) :
    (placement.spread brokers.rackBrokers = placement ∧ ∀ broker ∈ openAt brokers start,
      ¬placement.Skips brokers.rackBrokers.size (brokers.rackOf broker) → broker ∈ placement.replicas) ∨
    ∃ broker ∈ openAt brokers start, broker ∉ placement.replicas ∧
      ¬placement.Skips brokers.rackBrokers.size (brokers.rackOf broker) ∧
      placement.spread brokers.rackBrokers =
        { placement.push broker with usedRacks := placement.usedRacks.insert (brokers.rackOf broker) } := by
  unfold Placement.spread Placement.pickFromRacks
  rcases @rackSearch_cases placement brokers.rackBrokers.size {} brokers.rackBrokers.entries with
    ⟨same, none⟩ | ⟨entry, listed, visited, candidate, member, unused, below, found⟩
  · rw [same]
    refine .inl ⟨if_pos rfl, fun broker opened visited => ?_⟩
    obtain ⟨entry, listed, named, member⟩ := exists_rackBrokers (mem_openAt.mp opened).1
    rw [← named] at visited
    by_contra unused
    exact (none entry listed visited broker member).resolve_left unused (loaded.below opened unused)
  · obtain ⟨alive, named⟩ := (mem_rackBrokers listed).mp member
    rw [found, ← named]
    exact .inr ⟨candidate, loaded.mem_openAt_of_below alive unused below, unused, named ▸ visited,
      if_neg (ne_kNoBroker unreserved alive)⟩

theorem Loaded.pickAny_cases (loaded : Loaded brokers start placement) :
    ((placement.pickAny brokers.aliveBrokers).broker = kNoBroker ∧
      ∀ broker ∈ openAt brokers start, broker ∈ placement.replicas) ∨
    ((placement.pickAny brokers.aliveBrokers).broker ≠ kNoBroker ∧
      (placement.pickAny brokers.aliveBrokers).broker ∈ openAt brokers start ∧
      (placement.pickAny brokers.aliveBrokers).broker ∉ placement.replicas) := by
  unfold Placement.pickAny
  rcases @search_cases placement.brokerLoad placement.replicas [] {} brokers.aliveBrokers with
    ⟨same, none⟩ | ⟨candidate, listed, unused, below, found⟩
  · rw [same]
    refine .inl ⟨rfl, fun broker opened => ?_⟩
    by_contra unused
    exact (none broker (mem_aliveBrokers.mpr (mem_openAt.mp opened).1)).resolve_left unused
      (loaded.below opened unused)
  · have alive := mem_aliveBrokers.mp listed
    rw [found]
    exact .inr ⟨ne_kNoBroker unreserved alive, loaded.mem_openAt_of_below alive unused below, unused⟩

/-- A placement after some turns, each of which has taken a rack that was not in use while there was one. -/
structure Spreading (brokers : Brokers) (start : BrokerLoad) (turns : Nat) (placement : Placement) : Prop where
  loaded : Loaded brokers start placement
  racked : Racked brokers placement
  few : placement.replicas.length ≤ turns
  racks : min turns (racksOf brokers (openAt brokers start)).length ≤ placement.usedRacks.length

theorem Spreading.spread {turns : Nat} (spreading : Spreading brokers start turns placement) :
    Spreading brokers start (turns + 1) (placement.spread brokers.rackBrokers) := by
  obtain ⟨loaded, racked, few, racks⟩ := spreading
  rcases loaded.spread_cases unreserved with ⟨same, none⟩ | ⟨broker, opened, unused, visited, pushed⟩
  · rw [same]
    refine ⟨loaded, racked, few.trans (Nat.le_succ turns), (Nat.min_le_right _ _).trans ?_⟩
    refine (subperm_of_subset (nodup_dedup _) fun rack member => ?_).length_le
    obtain ⟨broker, opened, rfl⟩ := mem_racksOf.mp member
    by_contra fresh
    exact fresh ((racked.used _).mpr ⟨broker, none broker opened fun skipped => fresh skipped.2, rfl⟩)
  · rw [pushed]
    have longer := loaded.push opened unused
    refine ⟨⟨longer.distinct, longer.opened, longer.loads⟩, ⟨racked.distinct.insert, fun rack => ?_⟩, ?_, ?_⟩
    · rw [mem_insert_iff, racked.used]
      simp [Placement.push, or_and_right, exists_or, or_comm, eq_comm]
    · rw [length_push]
      exact Nat.succ_le_succ few
    · by_cases inside : brokers.rackOf broker ∈ placement.usedRacks
      · have all : brokers.rackBrokers.size ≤ placement.usedRacks.length :=
          Nat.not_lt.mp fun fewer => visited ⟨fewer, inside⟩
        rw [insert_of_mem inside]
        exact (Nat.min_le_right _ _).trans (length_racksOf_openAt.trans all)
      · rw [insert_of_not_mem inside, length_cons]
        omega

theorem Spreading.turns {turns : Nat} (spreading : Spreading brokers start turns placement) (more : List Nat) :
    Spreading brokers start (turns + more.length)
      (more.foldl (fun placed _ => placed.spread brokers.rackBrokers) placement) := by
  induction more generalizing turns placement with
  | nil => exact spreading
  | cons turn more ih =>
    rw [length_cons, ← Nat.add_assoc, Nat.add_right_comm]
    exact ih (spreading.spread unreserved)

theorem Loaded.fill {missing : Nat} (loaded : Loaded brokers start placement) :
    Loaded brokers start (placement.fill brokers.aliveBrokers missing) ∧
      placement.replicas ⊆ (placement.fill brokers.aliveBrokers missing).replicas ∧
      (placement.fill brokers.aliveBrokers missing).replicas.length ≤ placement.replicas.length + missing ∧
      ((placement.fill brokers.aliveBrokers missing).replicas.length = placement.replicas.length + missing ∨
        openAt brokers start ⊆ (placement.fill brokers.aliveBrokers missing).replicas) := by
  induction missing generalizing placement with
  | zero => exact ⟨loaded, .refl _, Nat.le_refl _, .inl rfl⟩
  | succ missing ih =>
    unfold Placement.fill
    dsimp only
    rcases loaded.pickAny_cases unreserved with ⟨stops, all⟩ | ⟨goes, opened, unused⟩
    · rw [if_pos stops]
      exact ⟨loaded, .refl _, by omega, .inr all⟩
    · rw [if_neg goes]
      obtain ⟨filled, keeps, fits, either⟩ := ih (loaded.push opened unused)
      rw [length_push] at fits either
      refine ⟨filled, fun broker member => keeps (mem_append_left _ member), ?_, ?_⟩
      · exact fits.trans (by omega)
      · exact either.imp_left fun exactly => by rw [exactly]; omega

theorem placePartition_spec (effectiveRf : Nat) {placed : Placement}
    (result : placed = placePartition brokers.rackBrokers brokers.aliveBrokers effectiveRf start) :
    Loaded brokers start placed ∧ placed.replicas.length = min effectiveRf (openAt brokers start).length ∧
      min effectiveRf (racksOf brokers (openAt brokers start)).length ≤ (racksOf brokers placed.replicas).length := by
  have begun : Spreading brokers start 0 { brokerLoad := start } := ⟨.begin, .begin, Nat.le_refl 0, by simp⟩
  have spread := begun.turns unreserved (List.range effectiveRf)
  rw [Nat.zero_add, length_range] at spread
  unfold placePartition at result
  dsimp only at result
  generalize (List.range effectiveRf).foldl (fun (placed : Placement) _ => placed.spread brokers.rackBrokers)
    { brokerLoad := start } = placement at spread result
  subst result
  obtain ⟨filled, keeps, fits, either⟩ :=
    @Loaded.fill brokers start placement unreserved (effectiveRf - placement.replicas.length) spread.loaded
  rw [Nat.add_sub_cancel' spread.few] at fits either
  refine ⟨filled, ?_, ?_⟩
  · have most := filled.length_le
    rcases either with exactly | all
    · exact exactly.trans (Nat.min_eq_left (exactly ▸ most)).symm
    · have least := (subperm_of_subset (nodup_keys.filter _) all).length_le
      exact (Nat.le_antisymm (Nat.le_min.mpr ⟨fits, most⟩) ((Nat.min_le_right _ _).trans least))
  · refine spread.racks.trans (subperm_of_subset spread.racked.distinct fun rack used => ?_).length_le
    obtain ⟨broker, member, named⟩ := (spread.racked.used rack).mp used
    exact mem_racksOf.mpr ⟨broker, keeps member, named⟩

end Partition

/-- The brokers alive that have room left when these partitions have been placed. -/
def openBrokers (brokers : Brokers) (earlier : List (List BrokerId)) : List BrokerId :=
  brokers.aliveBrokers.filter fun broker =>
    earlier.countP (fun replicas => decide (broker ∈ replicas)) < kMaxPartitionsPerBroker.toNatClampNeg

/-- What a partition gets when others have been placed before it. -/
structure Spread (brokers : Brokers) (replicationFactor : Nat) (earlier : List (List BrokerId))
    (replicas : List BrokerId) : Prop where
  placed : Placed brokers replicas
  count : replicas.length = min replicationFactor (openBrokers brokers earlier).length
  racks : min replicationFactor (racksOf brokers (openBrokers brokers earlier)).length ≤
    (racksOf brokers replicas).length

/-- The load of a broker is the number of its replicas of the earlier partitions. -/
def Hosts (brokerLoad : BrokerLoad) (earlier : List (List BrokerId)) : Prop :=
  ∀ broker, (loadOf brokerLoad broker).toInt = earlier.countP fun replicas => decide (broker ∈ replicas)

section Partitions

variable {brokers : Brokers} {broker : BrokerId} {start : BrokerLoad} {placement : Placement}
  {earlier : List (List BrokerId)}

theorem Hosts.openAt_eq (hosts : Hosts start earlier) : openAt brokers start = openBrokers brokers earlier := by
  refine filter_congr fun broker _ => decide_eq_decide.mpr ?_
  rw [lt_iff_toInt_lt, hosts broker]
  exact Int.ofNat_lt

theorem Hosts.concat (hosts : Hosts start earlier) (loaded : Loaded brokers start placement) :
    Hosts placement.brokerLoad (earlier ++ [placement.replicas]) := by
  intro broker
  rw [loaded.loads, countP_append, countP_singleton, Nat.cast_add, ← hosts broker]
  by_cases member : broker ∈ placement.replicas
  · have below := lt_iff_toInt_lt.mp (mem_openAt.mp (loaded.opened broker member)).2
    rw [if_pos member, if_pos (decide_eq_true member)]
    exact Counters.toInt_succ_of_lt (below.trans (by decide))
  · simp [member]

variable (unreserved : brokers.isAlive kNoBroker = false)
include unreserved

theorem spread_placePartitions {effectiveRf numPartitions : Nat} {before after : List (List BrokerId)}
    {replicas : List BrokerId} (hosts : Hosts start earlier)
    (split : placePartitions brokers.rackBrokers brokers.aliveBrokers effectiveRf numPartitions start =
      before ++ replicas :: after) : Spread brokers effectiveRf (earlier ++ before) replicas := by
  induction numPartitions generalizing start earlier before with
  | zero => simp [placePartitions] at split
  | succ numPartitions ih =>
    obtain ⟨loaded, count, racks⟩ := @placePartition_spec brokers start unreserved effectiveRf _ rfl
    rw [placePartitions] at split
    cases before with
    | nil =>
      obtain ⟨rfl, -⟩ := cons.inj split
      rw [hosts.openAt_eq] at count racks
      rw [append_nil]
      exact ⟨placed_placePartition, count, racks⟩
    | cons first before =>
      obtain ⟨rfl, rest⟩ := cons.inj split
      have next := ih (hosts.concat loaded) rest
      rwa [append_assoc, singleton_append] at next

end Partitions

section Assignments

variable {brokers : Brokers} {numPartitions replicationFactor : Int32}

theorem toNatClampNeg_min {alive : Nat} (few : alive < 2 ^ 31) (some_replica : 1 ≤ replicationFactor) :
    ¬min replicationFactor (ofNat alive) < 0 ∧
      (min replicationFactor (ofNat alive)).toNatClampNeg = min replicationFactor.toNatClampNeg alive := by
  have count := toInt_ofNat_of_lt few
  have positive := le_iff_toInt_le.mp some_replica
  rw [toInt_one] at positive
  simp only [lt_iff_toInt_lt, toInt_zero, toNatClampNeg]
  by_cases small : replicationFactor ≤ ofNat alive
  · have least : min replicationFactor (ofNat alive) = replicationFactor := if_pos small
    rw [le_iff_toInt_le, count] at small
    rw [least]
    omega
  · have least : min replicationFactor (ofNat alive) = ofNat alive := if_neg small
    rw [le_iff_toInt_le, count] at small
    rw [least, count]
    omega

theorem assignReplicasRackAware_eq (few : brokers.aliveBrokers.length < 2 ^ 31) (some_broker : brokers.aliveBrokers ≠ [])
    (some_partition : 1 ≤ numPartitions) (some_replica : 1 ≤ replicationFactor) :
    assignReplicasRackAware brokers numPartitions replicationFactor =
      some (placePartitions brokers.rackBrokers brokers.aliveBrokers
        (min replicationFactor.toNatClampNeg brokers.aliveBrokers.length) numPartitions.toNatClampNeg .empty) := by
  obtain ⟨nonneg, same⟩ := toNatClampNeg_min few some_replica
  have positive := le_iff_toInt_le.mp some_partition
  rw [toInt_one] at positive
  unfold assignReplicasRackAware
  dsimp only
  rw [if_neg, if_neg, if_neg nonneg, same]
  · rintro (none | rfl)
    · exact some_broker (List.isEmpty_iff.mp none)
    · exact absurd positive (by decide)
  · rw [lt_iff_toInt_lt, toInt_zero]
    omega

theorem assignReplicasRackAware_eq_replicate (no_broker : brokers.aliveBrokers = [])
    (some_partition : 1 ≤ numPartitions) : assignReplicasRackAware brokers numPartitions replicationFactor =
      some (List.replicate numPartitions.toNatClampNeg []) := by
  have positive := le_iff_toInt_le.mp some_partition
  rw [toInt_one] at positive
  unfold assignReplicasRackAware
  rw [if_neg, if_pos (.inl (List.isEmpty_iff.mpr no_broker))]
  rw [lt_iff_toInt_lt, toInt_zero]
  omega

theorem hosts_empty : Hosts .empty [] := fun _ => rfl

variable {earlier : List (List BrokerId)}

theorem openBrokers_of_few
    (few : earlier.length < kMaxPartitionsPerBroker.toNatClampNeg) :
    openBrokers brokers earlier = brokers.aliveBrokers :=
  filter_eq_self.mpr fun _ _ => decide_eq_true (Nat.lt_of_le_of_lt countP_le_length few)

theorem length_openBrokers :
    (openBrokers brokers earlier).length ≤ brokers.aliveBrokers.length := length_filter_le _ _

theorem Spread.of_min {replicationFactor : Nat} {replicas : List BrokerId}
    (spread : Spread brokers (min replicationFactor brokers.aliveBrokers.length) earlier replicas) :
    Spread brokers replicationFactor earlier replicas := by
  obtain ⟨placed, count, racks⟩ := spread
  have most := @length_openBrokers brokers earlier
  have fewer : (racksOf brokers (openBrokers brokers earlier)).length ≤ (openBrokers brokers earlier).length := by
    rw [racksOf, ← length_map (f := brokers.rackOf)]
    exact (dedup_sublist _).length_le
  exact ⟨placed, by omega, by omega⟩

end Assignments

/-- Every partition has as many replicas as asked for, or as there are brokers with room, and on as many racks as they
allow. Brokers have room at least for as many partitions as one broker may hold. -/
theorem rack_aware_spread (brokers : Brokers) (few : brokers.aliveBrokers.length < 2 ^ 31)
    (unreserved : brokers.isAlive kNoBroker = false) {numPartitions replicationFactor : Int32}
    (some_partition : 1 ≤ numPartitions) (some_replica : 1 ≤ replicationFactor) :
    ∃ assignments, assignReplicasRackAware brokers numPartitions replicationFactor = some assignments ∧
      assignments.length = numPartitions.toNatClampNeg ∧
      ∀ before replicas after, assignments = before ++ replicas :: after →
        Spread brokers replicationFactor.toNatClampNeg before replicas ∧
        (before.length < kMaxPartitionsPerBroker.toNatClampNeg →
          openBrokers brokers before = brokers.aliveBrokers) := by
  by_cases some_broker : brokers.aliveBrokers = []
  · refine ⟨_, assignReplicasRackAware_eq_replicate some_broker some_partition, length_replicate, ?_⟩
    intro before replicas after split
    have none : replicas = [] := eq_of_mem_replicate (split ▸ mem_append_right before mem_cons_self)
    subst none
    exact ⟨⟨.nil, by simp [openBrokers, some_broker], by simp [openBrokers, some_broker, racksOf]⟩, openBrokers_of_few⟩
  · refine ⟨_, assignReplicasRackAware_eq few some_broker some_partition some_replica, length_placePartitions, ?_⟩
    intro before replicas after split
    exact ⟨(spread_placePartitions unreserved hosts_empty split).of_min, openBrokers_of_few⟩

def threeBrokers : Brokers :=
  ((OrderedMap.empty.insert 1 { rack := [97] }).insert 2 { rack := [97] }).insert 3 { rack := [98] }

theorem rack_aware_three : ∃ assignments, assignReplicasRackAware threeBrokers 2 2 = some assignments ∧
    assignments.length = 2 ∧ ∀ before replicas after, assignments = before ++ replicas :: after →
      Spread threeBrokers 2 before replicas ∧
      (before.length < kMaxPartitionsPerBroker.toNatClampNeg →
        openBrokers threeBrokers before = threeBrokers.aliveBrokers) :=
  rack_aware_spread threeBrokers (by decide) (by decide) (by decide) (by decide)

def oneBroker : Brokers := OrderedMap.empty.insert 1 {}

theorem rack_aware_full :
    ¬∀ (brokers : Brokers) (numPartitions replicationFactor : Int32), 1 ≤ numPartitions → numPartitions ≤ 200000 →
      1 ≤ replicationFactor →
      ∃ assignments, assignReplicasRackAware brokers numPartitions replicationFactor = some assignments ∧
        ∀ replicas ∈ assignments, Placed brokers replicas ∧
          replicas.length = min replicationFactor.toNatClampNeg brokers.aliveBrokers.length ∧
          min replicationFactor.toNatClampNeg (racksOf brokers brokers.aliveBrokers).length ≤
            (racksOf brokers replicas).length := by
  intro all
  have alone : oneBroker.aliveBrokers = [1] := by decide
  obtain ⟨assignments, result, each⟩ := all oneBroker 100001 1 (by decide) (by decide) (by decide)
  rw [assignReplicasRackAware_eq (by decide) (by decide) (by decide) (by decide)] at result
  have placed := Option.some.inj result
  have all_there := congrArg length placed
  rw [length_placePartitions] at all_there
  rcases eq_nil_or_concat' assignments with rfl | ⟨before, last, rfl⟩
  · exact absurd all_there (by decide)
  rw [length_append, length_singleton] at all_there
  have full : ∀ replicas ∈ before, decide ((1 : BrokerId) ∈ replicas) = true := by
    intro replicas listed
    obtain ⟨placed, single, -⟩ := each replicas (mem_append_left _ listed)
    have some_broker : 0 < replicas.length := by
      rw [single]
      decide
    obtain ⟨broker, member⟩ := exists_mem_of_length_pos some_broker
    have alive := mem_aliveBrokers.mpr (placed.alive broker member)
    rw [alone, mem_singleton] at alive
    exact decide_eq_true (alive ▸ member)
  have closed : openBrokers oneBroker before = [] := by
    rw [openBrokers, alone, filter_singleton, countP_eq_length.mpr full, ← Nat.succ_inj.mp all_there]
    rfl
  have spread := spread_placePartitions (by decide) hosts_empty placed
  obtain ⟨-, single, -⟩ := each last (mem_append_right _ mem_cons_self)
  rw [spread.count, nil_append, closed] at single
  exact absurd single (by decide)

end TorrentMq.Broker.Controllers
