import TorrentMq.Broker.Controller
import TorrentMq.Runs.FencedRegister

/-!
# Leader announcements

What a controller tells the brokers of the leaders of partitions, and what a
partition manager makes of it in any order.
-/

set_option autoImplicit false

namespace TorrentMq.Broker.Controllers

open Bytes Partitions Runs List OrderedMap Option

structure LeaderAndIsr where
  topic : Bytes
  partition : Int32
  leader : BrokerId
  isr : List BrokerId
  leaderEpoch : Int64
deriving DecidableEq

def LeaderAndIsr.About (message : LeaderAndIsr) (topic : Bytes) (partition : Int32) : Prop :=
  message.topic = topic ∧ message.partition = partition

instance (message : LeaderAndIsr) (topic : Bytes) (partition : Int32) :
    Decidable (message.About topic partition) :=
  inferInstanceAs (Decidable (_ ∧ _))

def latest (messages : List LeaderAndIsr) (topic : Bytes) (partition : Int32) : Option LeaderAndIsr :=
  messages.find? fun message => message.About topic partition

def announcement (before after : Controller) (topic : Bytes) (partition : Int32) : Option LeaderAndIsr :=
  match after.findEntry topic partition with
  | none => none
  | some entry =>
    let same := (before.findEntry topic partition).any fun stored =>
      stored.leader = entry.leader ∧ stored.isr = entry.isr ∧ stored.leaderEpoch = entry.leaderEpoch
    if entry.leader = kNoBroker ∨ same = true then none
    else some ⟨topic, partition, entry.leader, entry.isr, entry.leaderEpoch⟩

namespace Controller

def partitions (controller : Controller) : List (Bytes × Int32) :=
  controller.assignments.entries.flatMap fun topic => topic.2.keys.map fun partition => (topic.1, partition)

end Controller

def announce (before after : Controller) : List LeaderAndIsr :=
  after.partitions.filterMap fun partition => announcement before after partition.1 partition.2

inductive Event where
  | arrange (operation : Operation)
  | deleteTopic (name : Bytes)
  | onBecomeController
  | onResignController
  | incrementEpoch

structure Announced where
  controller : Controller := {}
  sent : List LeaderAndIsr := []

def next (server : BrokerServer) (rack : Bytes) (controller : Controller) (event : Event) : Controller :=
  if controller.undefined then controller
  else
    match event with
    | .arrange operation => Controllers.arrange controller operation
    | .deleteTopic name => (controller.deleteTopic name).1
    | .onBecomeController => controller.onBecomeController server rack
    | .onResignController => controller.onResignController
    | .incrementEpoch => controller.incrementEpoch

def step (server : BrokerServer) (rack : Bytes) (announced : Announced) (event : Event) : Announced :=
  let after := next server rack announced.controller event
  { controller := after, sent := announce announced.controller after ++ announced.sent }

def deliver (server : BrokerServer) (manager : PartitionManager) (message : LeaderAndIsr) : PartitionManager :=
  (manager.handleLeaderAndIsr server message.topic message.partition message.leader message.isr
    message.leaderEpoch).1

/-- Another leader of a partition comes with an epoch above all that it has had, none of
which a new replica fences. In whichever order the messages are taken in by a partition
manager, the replica ends up with the leader that was announced last. -/
structure Fences (announced : Announced) : Prop where
  rises : ∀ later message earlier, announced.sent = later ++ message :: earlier →
    ∀ previous, latest earlier message.topic message.partition = some previous → previous.leader ≠ message.leader →
      ∀ old ∈ earlier, old.About message.topic message.partition → old.leaderEpoch < message.leaderEpoch
  accepted : ∀ message ∈ announced.sent, 0 ≤ message.leaderEpoch
  delivered : ∀ order, order.Perm announced.sent → ∀ topic partition last,
    latest announced.sent topic partition = some last →
      ∀ (host : BrokerServer) (manager : PartitionManager) (replica : PartitionReplica),
        manager.partitions.find? (makePartitionKey topic partition) = some replica →
          replica.fencedEpoch ≤ last.leaderEpoch →
            ((run (deliver host) manager order).partitions.find? (makePartitionKey topic partition)).map (·.leader) =
              some last.leader

section Announcements

variable {before after : Controller} {messages : List LeaderAndIsr} {message last : LeaderAndIsr} {topic : Bytes}
  {partition : Int32}

theorem mem_partitions {controller : Controller} :
    (topic, partition) ∈ controller.partitions ↔ (controller.findEntry topic partition).isSome = true := by
  unfold Controller.partitions Controller.findEntry
  rw [mem_flatMap]
  constructor
  · rintro ⟨⟨name, parts⟩, listed, member⟩
    obtain ⟨pid, found, same⟩ := mem_map.mp member
    obtain ⟨rfl, rfl⟩ := Prod.mk.inj same
    rw [OrderedMap.find?_eq_some_iff.mpr listed, bind_some]
    exact mem_keys_iff_isSome.mp found
  · intro found
    cases listed : controller.assignments.find? topic with
    | none =>
      rw [listed] at found
      cases found
    | some parts =>
      rw [listed, bind_some] at found
      exact ⟨(topic, parts), OrderedMap.find?_eq_some_iff.mp listed,
        mem_map.mpr ⟨partition, mem_keys_iff_isSome.mpr found, rfl⟩⟩

structure Tells (controller : Controller) (message : LeaderAndIsr) (entry : PartitionAssignmentEntry) : Prop where
  found : controller.findEntry message.topic message.partition = some entry
  led : entry.leader ≠ kNoBroker
  leader : message.leader = entry.leader
  epoch : message.leaderEpoch = entry.leaderEpoch

theorem tells_of_announcement (told : announcement before after topic partition = some message) :
    message.About topic partition ∧ ∃ entry, Tells after message entry := by
  unfold announcement at told
  cases found : after.findEntry topic partition with
  | none =>
    rw [found] at told
    cases told
  | some entry =>
    rw [found] at told
    dsimp only at told
    split at told
    next => cases told
    next changed =>
      cases told
      exact ⟨⟨rfl, rfl⟩, entry, found, (not_or.mp changed).1, rfl, rfl⟩

theorem tells_of_mem_announce (member : message ∈ announce before after) : ∃ entry, Tells after message entry := by
  obtain ⟨partition, -, told⟩ := mem_filterMap.mp member
  exact (tells_of_announcement told).2

theorem announced_or_same {entry : PartitionAssignmentEntry} (found : after.findEntry topic partition = some entry)
    (led : entry.leader ≠ kNoBroker) :
    (∃ message ∈ announce before after, message.About topic partition) ∨
      ∃ stored, before.findEntry topic partition = some stored ∧ stored.leader = entry.leader ∧
        stored.leaderEpoch = entry.leaderEpoch := by
  cases told : announcement before after topic partition with
  | some message =>
    refine .inl ⟨message, mem_filterMap.mpr ⟨(topic, partition), ?_, told⟩, (tells_of_announcement told).1⟩
    rw [mem_partitions, found]
    rfl
  | none =>
    unfold announcement at told
    rw [found] at told
    dsimp only at told
    split at told
    next kept =>
      have same := kept.resolve_left led
      rw [Option.any_eq_true] at same
      obtain ⟨stored, present, equal⟩ := same
      obtain ⟨same_leader, -, same_epoch⟩ := of_decide_eq_true equal
      exact .inr ⟨stored, present, same_leader, same_epoch⟩
    next => cases told

theorem about_of_latest (found : latest messages topic partition = some last) :
    last ∈ messages ∧ last.About topic partition := by
  have about := find?_some found
  exact ⟨mem_of_find?_eq_some found, of_decide_eq_true about⟩

theorem latest_of_mem (member : message ∈ messages) (about : message.About topic partition) :
    ∃ last, latest messages topic partition = some last := by
  cases found : latest messages topic partition with
  | none => exact absurd (decide_eq_true about) (List.find?_eq_none.mp found message member)
  | some last => exact ⟨last, rfl⟩

theorem rel_of_latest {relation : LeaderAndIsr → LeaderAndIsr → Prop} (ordered : messages.Pairwise relation)
    (reflexive : ∀ message, relation message message) (found : latest messages topic partition = some last)
    (member : message ∈ messages) (about : message.About topic partition) : relation last message := by
  obtain ⟨-, before, after, rfl, earlier⟩ := find?_eq_some_iff_append.mp found
  rcases mem_append.mp member with sooner | here
  · exact absurd about (by simpa using earlier message sooner)
  · rcases mem_cons.mp here with rfl | later
    · exact reflexive message
    · exact (pairwise_cons.mp (pairwise_append.mp ordered).2.1).1 message later

end Announcements

section Delivery

variable {host : BrokerServer} {manager : PartitionManager} {topic : Bytes} {partition : Int32}

def registerOf (replica : PartitionReplica) : FencedRegister Int64 BrokerId :=
  ⟨replica.fencedEpoch, replica.leader⟩

def LeaderAndIsr.offer (message : LeaderAndIsr) : Int64 × BrokerId := (message.leaderEpoch, message.leader)

theorem separator_not_mem_decimalInt (value : Int) : kKeySeparator ∉ decimalInt value := by
  intro member
  rcases mem_decimalInt member with minus | digit
  · exact absurd minus (by decide)
  · exact absurd digit.1 (by decide)

theorem makePartitionKey_inj {name : Bytes} {pid : Int32} :
    makePartitionKey topic partition = makePartitionKey name pid ↔ topic = name ∧ partition = pid := by
  constructor
  · intro same
    obtain ⟨topics, numbers⟩ :=
      append_cons_inj (separator_not_mem_decimalInt _) (separator_not_mem_decimalInt _) same
    exact ⟨topics, Int32.toInt_inj.mp (decimalInt_injective numbers)⟩
  · rintro ⟨rfl, rfl⟩
    rfl

theorem register_deliver (message : LeaderAndIsr) :
    ((deliver host manager message).partitions.find? (makePartitionKey topic partition)).map registerOf =
      if message.About topic partition then
        ((manager.partitions.find? (makePartitionKey topic partition)).map registerOf).map
          fun register => register.write message.offer
      else (manager.partitions.find? (makePartitionKey topic partition)).map registerOf := by
  unfold deliver PartitionManager.handleLeaderAndIsr
  dsimp only
  by_cases about : message.About topic partition
  · obtain ⟨rfl, rfl⟩ := about
    rw [if_pos ⟨rfl, rfl⟩]
    cases found : manager.partitions.find? (makePartitionKey message.topic message.partition) with
    | none =>
      dsimp only
      rw [found]
      rfl
    | some replica =>
      dsimp only
      split
      next stale =>
        rw [found, map_some, map_some]
        exact congrArg some (if_pos stale).symm
      next fresh =>
        unfold PartitionManager.setReplica
        rw [find?_insert, if_pos rfl, map_some, map_some, map_some]
        exact congrArg some (if_neg fresh).symm
  · rw [if_neg about]
    have differs : makePartitionKey topic partition ≠ makePartitionKey message.topic message.partition := by
      intro same
      obtain ⟨topics, numbers⟩ := makePartitionKey_inj.mp same
      exact about ⟨topics.symm, numbers.symm⟩
    cases manager.partitions.find? (makePartitionKey message.topic message.partition) with
    | none => rfl
    | some replica =>
      dsimp only
      split
      next => rfl
      next =>
        unfold PartitionManager.setReplica
        rw [find?_insert, if_neg differs]

theorem register_run_deliver (order : List LeaderAndIsr) :
    ((run (deliver host) manager order).partitions.find? (makePartitionKey topic partition)).map registerOf =
      ((manager.partitions.find? (makePartitionKey topic partition)).map registerOf).map fun register =>
        run FencedRegister.write register
          ((order.filter fun message => message.About topic partition).map LeaderAndIsr.offer) := by
  induction order generalizing manager with
  | nil => exact Option.map_id'.symm
  | cons message order ih =>
    rw [run_cons, ih, register_deliver]
    by_cases about : message.About topic partition
    · rw [if_pos about, Option.map_map, filter_cons_of_pos (by simpa using about)]
      rfl
    · rw [if_neg about, filter_cons_of_neg (by simpa using about)]

end Delivery

end TorrentMq.Broker.Controllers
