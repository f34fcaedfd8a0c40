import Mathlib.Data.List.Sort
import TorrentMq.Bytes.Reader
import TorrentMq.Collections.Dealing

/-!
# Assignors

How the consumer group manager of a broker divides the partitions of the
subscribed topics among the members of a group.
-/

set_option autoImplicit false

namespace TorrentMq.Broker.Assignors

open Bytes Collections

abbrev TopicPartition := Bytes × Int

abbrev PartitionAssignment := OrderedMap Bytes (List TopicPartition)

def partitionCount (topicPartitionCounts : OrderedMap Bytes Int) (topic : Bytes) : Int :=
  (topicPartitionCounts.find? topic).getD 0

def partitionsOf (topicPartitionCounts : OrderedMap Bytes Int) (topic : Bytes) : List TopicPartition :=
  (List.range (partitionCount topicPartitionCounts topic).toNat).map fun (p : Nat) => (topic, (p : Int))

def memberCount (members : List Bytes) : Int := (Int32.ofNat members.length).toInt

def assignBlock (topic : Bytes) (partitionsPerMember remainder : Int) (progress : PartitionAssignment × Int)
    (member : Bytes × Nat) : PartitionAssignment × Int :=
  let (result, start) := progress
  let count := partitionsPerMember + if (member.2 : Int) < remainder then 1 else 0
  ((List.range count.toNat).foldl (fun result (p : Nat) => push result (member.1, (topic, start + p))) result, start + count)

def assignRange (members topics : List Bytes) (topicPartitionCounts : OrderedMap Bytes Int) :
    PartitionAssignment :=
  if members.isEmpty then .empty
  else
    let sortedMembers := members.insertionSort (· ≤ ·)
    topics.foldl
      (fun result topic =>
        let partitionCount := partitionCount topicPartitionCounts topic
        if partitionCount ≤ 0 then result
        else
          let memberCount := memberCount sortedMembers
          let partitionsPerMember := partitionCount.tdiv memberCount
          let remainder := partitionCount.tmod memberCount
          ((sortedMembers.take memberCount.toNat).zipIdx.foldl (assignBlock topic partitionsPerMember remainder)
            (result, 0)).1)
      (openHands sortedMembers)

def assignRoundrobin (members topics : List Bytes) (topicPartitionCounts : OrderedMap Bytes Int) :
    PartitionAssignment :=
  if members.isEmpty then .empty
  else
    let sortedMembers := members.insertionSort (· ≤ ·)
    let memberCount := (memberCount sortedMembers % 2 ^ 64).toNat
    let sortedTopics := topics.insertionSort (· ≤ ·)
    let allPartitions := sortedTopics.flatMap (partitionsOf topicPartitionCounts)
    allPartitions.zipIdx.foldl
      (fun result part => push result (sortedMembers.getD (part.2 % memberCount) [], part.1))
      (openHands sortedMembers)

def preserve (topicPartitionCounts : OrderedMap Bytes Int) (member : Bytes)
    (progress : List TopicPartition × PartitionAssignment) (part : TopicPartition) :
    List TopicPartition × PartitionAssignment :=
  let (claimed, result) := progress
  match topicPartitionCounts.find? part.1 with
  | some count =>
    if part.2 < count ∧ part ∉ claimed then (part :: claimed, push result (member, part)) else (claimed, result)
  | none => (claimed, result)

def assignSticky (members topics : List Bytes) (topicPartitionCounts : OrderedMap Bytes Int)
    (previousAssignments : PartitionAssignment) : PartitionAssignment :=
  if members.isEmpty then .empty
  else
    let sortedMembers := members.insertionSort (· ≤ ·)
    let (claimed, result) := sortedMembers.foldl
      (fun progress member =>
        (handOf previousAssignments member).foldl (preserve topicPartitionCounts member) progress)
      ([], openHands sortedMembers)
    let unclaimed := topics.flatMap fun topic =>
      (partitionsOf topicPartitionCounts topic).filter fun part => part ∉ claimed
    (unclaimed.foldl
      (fun progress part =>
        (push progress.1 (sortedMembers.getD progress.2 [], part), (progress.2 + 1) % sortedMembers.length))
      (result, 0)).1

end TorrentMq.Broker.Assignors
