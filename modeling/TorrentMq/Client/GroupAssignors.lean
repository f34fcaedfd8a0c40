import Mathlib.Data.List.Dedup
import Mathlib.Data.List.DropRight
import TorrentMq.Bytes.Decimal
import TorrentMq.Collections.Dealing

/-!
# Group assignors

How the group handler divides partitions among the members of a group: every
member names its topics in a text, and an assignment is a list of texts.
-/

set_option autoImplicit false

namespace TorrentMq.Client.GroupAssignors

open Bytes Collections

structure MemberRecord where
  memberId : Bytes
  groupInstanceId : Bytes := []
  supportedProtocols : List Bytes := []
  protocolMetadata : List Bytes := []
  assignment : Bytes := []
  lastHeartbeatMs : Int := 0
  sessionTimeoutMs : Int32 := 0
  awaitingSync : Bool := false
  isLeader : Bool := false
deriving DecidableEq

structure MemberSubscription where
  memberId : Bytes
  topics : List Bytes := []
  topicPartitionCounts : OrderedMap Bytes Int := .empty

def isSpace (byte : UInt8) : Bool := byte = 32 ∨ 9 ≤ byte ∧ byte ≤ 13

def isDigit (byte : UInt8) : Bool := 48 ≤ byte ∧ byte ≤ 57

def stoi (text : Bytes) : Option Int :=
  let text := text.dropWhile isSpace
  let (negative, text) := match text with
    | 45 :: rest => (true, rest)
    | 43 :: rest => (false, rest)
    | text => (false, text)
  let digits := text.takeWhile isDigit
  let value : Int := if negative then -(readDecimal digits : Int) else readDecimal digits
  if digits.isEmpty then none
  else if -2 ^ 31 ≤ value ∧ value < 2 ^ 31 then some value
  else none

def trim (entry : Bytes) : Bytes := (entry.dropWhile isSpace).rdropWhile isSpace

def beforeColon (text : Bytes) : Bytes := text.takeWhile fun byte => byte ≠ 58

def afterColon (text : Bytes) : Bytes := (text.dropWhile fun byte => byte ≠ 58).drop 1

def parseEntry (entry : Bytes) : Option (Bytes × Int) :=
  let entry := trim entry
  if entry.isEmpty then none
  else if 58 ∈ entry then some (beforeColon entry, (stoi (afterColon entry)).getD 1)
  else some (entry, 1)

def declarations (member : MemberRecord) : List (Bytes × Int) :=
  (member.protocolMetadata.flatMap fun text => text.splitOnP fun byte => byte = 44 ∨ byte = 10).filterMap parseEntry

def parseSubscription (member : MemberRecord) : MemberSubscription where
  memberId := member.memberId
  topics := (declarations member).map Prod.fst
  topicPartitionCounts :=
    (declarations member).foldl (fun counts declared => counts.insert declared.1 declared.2) .empty

abbrev Assignments := OrderedMap Bytes (List Bytes)

structure Orders where
  members : IterationOrder Bytes := .ascending _
  topics : IterationOrder Bytes := .ascending _
  previous : IterationOrder Bytes := .ascending _

def partitionText (topic : Bytes) (partition : Int) : Bytes := topic ++ 58 :: decimalInt partition

def allTopics (subscriptions : List MemberSubscription) : List Bytes :=
  (subscriptions.flatMap MemberSubscription.topics).dedup

def numPartitions (subscriptions : List MemberSubscription) (topic : Bytes) : Int :=
  subscriptions.foldl
    (fun largest subscription =>
      match subscription.topicPartitionCounts.find? topic with
      | some count => if largest < count then count else largest
      | none => largest)
    1

def numMembers (memberIds : List Bytes) : Int := (Int32.ofNat memberIds.length).toInt

def assignBlock (topic : Bytes) (numPartitions partitionsPerMember remainder : Int)
    (progress : Assignments × Int) (member : Bytes × Nat) : Assignments × Int :=
  let (assignments, start) := progress
  let count := partitionsPerMember + if (member.2 : Int) < remainder then 1 else 0
  let partitions := (List.range count.toNat).filter fun (p : Nat) => start + (p : Int) < numPartitions
  (partitions.foldl (fun assignments (p : Nat) => push assignments (member.1, partitionText topic (start + p)))
    assignments, start + count)

def assignRange (subscriptions : List MemberSubscription) (memberIds : List Bytes)
    (order : IterationOrder Bytes) : Assignments :=
  if memberIds.isEmpty || subscriptions.isEmpty then .empty
  else
    let numMembers := numMembers memberIds
    (order.visit (allTopics subscriptions)).foldl
      (fun assignments topic =>
        let numPartitions := numPartitions subscriptions topic
        let partitionsPerMember := numPartitions.tdiv numMembers
        let remainder := numPartitions.tmod numMembers
        ((memberIds.take numMembers.toNat).zipIdx.foldl
          (assignBlock topic numPartitions partitionsPerMember remainder) (assignments, 0)).1)
      .empty

def assignRoundRobin (subscriptions : List MemberSubscription) (memberIds : List Bytes)
    (order : IterationOrder Bytes) : Assignments :=
  if memberIds.isEmpty || subscriptions.isEmpty then .empty
  else
    let numMembers := numMembers memberIds
    (order.visit (allTopics subscriptions)).foldl
      (fun assignments topic =>
        (List.range (numPartitions subscriptions topic).toNat).foldl
          (fun assignments (p : Nat) =>
            push assignments (memberIds.getD ((p : Int).tmod numMembers).toNat [], partitionText topic p))
          assignments)
      .empty

/-- A text that a member had, if its topic is still subscribed to. A number always follows the
colon in a text that a strategy has written. -/
def preserve (topics : List Bytes) (member : Bytes) (progress : List (Bytes × Int) × Assignments)
    (part : Bytes) : List (Bytes × Int) × Assignments :=
  let (assigned, assignments) := progress
  if 58 ∈ part ∧ beforeColon part ∈ topics then
    ((beforeColon part, (stoi (afterColon part)).getD 0) :: assigned, push assignments (member, part))
  else (assigned, assignments)

def fewestMember (assignments : Assignments) (memberIds : List Bytes) : Bytes :=
  memberIds.foldl
    (fun best member =>
      if (handOf assignments member).length < (handOf assignments best).length then member else best)
    (memberIds.headD [])

def distribute (memberIds : List Bytes) (progress : List (Bytes × Int) × Assignments)
    (part : Bytes × Int) : List (Bytes × Int) × Assignments :=
  let (assigned, assignments) := progress
  if part ∈ assigned then (assigned, assignments)
  else
    (part :: assigned, push assignments (fewestMember assignments memberIds, partitionText part.1 part.2))

def assignSticky (subscriptions : List MemberSubscription) (memberIds : List Bytes)
    (previousAssignments : Assignments) (order previousOrder : IterationOrder Bytes) : Assignments :=
  if memberIds.isEmpty || subscriptions.isEmpty then .empty
  else
    let topics := allTopics subscriptions
    let remembered := (previousOrder.visit previousAssignments.keys).filter fun member => member ∈ memberIds
    let preserved := remembered.foldl
      (fun progress member => (handOf previousAssignments member).foldl (preserve topics member) progress)
      ([], openHands memberIds)
    ((order.visit topics).foldl
      (fun progress topic =>
        ((List.range (numPartitions subscriptions topic).toNat).map fun (p : Nat) => (topic, (p : Int))).foldl
          (distribute memberIds) progress)
      preserved).2

inductive AssignmentStrategy where
  | range
  | roundRobin
  | sticky
deriving DecidableEq

def holds (name part : Bytes) : Bool := part <:+: name

/-- "roundrobin" and "round_robin" -/
def kRoundRobinNames : List Bytes :=
  [[114, 111, 117, 110, 100, 114, 111, 98, 105, 110], [114, 111, 117, 110, 100, 95, 114, 111, 98, 105, 110]]

/-- "sticky" -/
def kStickyName : Bytes := [115, 116, 105, 99, 107, 121]

def strategyOf (strategyName : Bytes) : AssignmentStrategy :=
  if kRoundRobinNames.any (holds strategyName) then .roundRobin
  else if holds strategyName kStickyName then .sticky
  else .range

def runAssignmentStrategy (strategy : AssignmentStrategy) (subscriptions : List MemberSubscription)
    (memberIds : List Bytes) (previousAssignments : Assignments) (orders : Orders) : Assignments :=
  match strategy with
  | .range => assignRange subscriptions memberIds orders.topics
  | .roundRobin => assignRoundRobin subscriptions memberIds orders.topics
  | .sticky => assignSticky subscriptions memberIds previousAssignments orders.topics orders.previous

end TorrentMq.Client.GroupAssignors
