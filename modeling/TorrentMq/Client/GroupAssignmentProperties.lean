import TorrentMq.Client.GenerationProperties
import TorrentMq.Client.GroupAssignorsProperties

/-! When all strategies divide the partitions of a group among the members that subscribe to them. -/

set_option autoImplicit false

namespace TorrentMq.Client.GroupHandler

open Bytes Collections Network GroupAssignors Runs List OrderedMap GroupRecord

namespace GroupRecord

def Subscribes (record : GroupRecord) (id topic : Bytes) : Prop :=
  ∃ member ∈ record.members.find? id, topic ∈ (parseSubscription member).topics

/-- A member declares more partitions of a topic. -/
def HasPartition (record : GroupRecord) (topic : Bytes) (partition : Nat) : Prop :=
  ∃ id, ∃ member ∈ record.members.find? id, ∃ count ∈ (parseSubscription member).topicPartitionCounts.find? topic,
    (partition : Int) < count

def assignBy (record : GroupRecord) (strategy : AssignmentStrategy) (orders : Orders) : Assignments :=
  runAssignmentStrategy strategy ((record.memberList orders.members).map parseSubscription)
    (orders.members.visit record.members.keys) record.stickyAssignments orders

/-- Every partition of a subscribed topic is with one member, and members only have partitions of topics
to which they subscribe. -/
structure Divides (record : GroupRecord) (result : Assignments) : Prop where
  assigned : ∀ id topic, record.Subscribes id topic → ∀ partition : Nat, record.HasPartition topic partition →
    ∃! member, partitionText topic partition ∈ handOf result member
  once : ∀ member, (handOf result member).Nodup
  own : ∀ member, ∀ text ∈ handOf result member, ∃ (topic : Bytes) (partition : Nat),
    text = partitionText topic partition ∧ record.Subscribes member topic ∧ record.HasPartition topic partition

/-- All members subscribe to the same topics, which have partitions, and what a member still has of
them are partitions that they have. -/
structure Divisible (record : GroupRecord) : Prop where
  shared : ∀ id ∈ record.members.keys, ∀ other topic, record.Subscribes other topic → record.Subscribes id topic
  counted : ∀ id topic, record.Subscribes id topic → record.HasPartition topic 0
  remembered : ∀ id ∈ record.members.keys, ∀ other topic, record.Subscribes other topic → ∀ partition : Nat,
    partitionText topic partition ∈ handOf record.stickyAssignments id → record.HasPartition topic partition

/-- What a group remembers can be given out again, and its members are not too many. -/
structure Sound (record : GroupRecord) : Prop where
  remembered : Remembered record.stickyAssignments
  few : record.members.size ≤ kMaxMembersPerGroup

variable {record after : GroupRecord} {topic memberId : Bytes} {nowMs : Int} {orders : Orders}
  {order : IterationOrder Bytes}

theorem mem_memberList {member : MemberRecord} :
    member ∈ record.memberList order ↔ ∃ id, member ∈ record.members.find? id := by
  rw [memberList, mem_filterMap]
  constructor
  · rintro ⟨id, -, found⟩
    exact ⟨id, found⟩
  · rintro ⟨id, found⟩
    exact ⟨id, (order.perm _).mem_iff.mpr (mem_keys_iff_isSome.mpr (Option.isSome_of_mem found)), found⟩

theorem mem_allTopics_iff :
    topic ∈ allTopics ((record.memberList order).map parseSubscription) ↔ ∃ id, record.Subscribes id topic := by
  simp only [mem_allTopics, mem_map, mem_memberList, Subscribes]
  constructor
  · rintro ⟨_, ⟨member, ⟨id, found⟩, rfl⟩, named⟩
    exact ⟨id, member, found, named⟩
  · rintro ⟨id, member, found, named⟩
    exact ⟨_, ⟨member, ⟨id, found⟩, rfl⟩, named⟩

theorem lt_numPartitions_iff {partition : Nat} :
    (partition : Int) < numPartitions ((record.memberList order).map parseSubscription) topic ↔
      partition = 0 ∨ record.HasPartition topic partition := by
  simp only [lt_numPartitions, mem_map, mem_memberList, HasPartition]
  refine or_congr (by omega) ?_
  constructor
  · rintro ⟨_, ⟨member, ⟨id, found⟩, rfl⟩, declared⟩
    exact ⟨id, member, found, declared⟩
  · rintro ⟨id, member, found, declared⟩
    exact ⟨_, ⟨member, ⟨id, found⟩, rfl⟩, declared⟩

theorem parsed_subscriptions :
    ∀ subscription ∈ (record.memberList order).map parseSubscription, subscription.Parsed := by
  intro subscription listed
  obtain ⟨member, -, rfl⟩ := mem_map.mp listed
  exact parseSubscription_parsed member

theorem Sound.accepted (sound : record.Sound) (some_member : record.isEmpty = false) (order : IterationOrder Bytes) :
    order.visit record.members.keys ≠ [] ∧ (order.visit record.members.keys).length < 2 ^ 31 ∧
      (record.memberList order).map parseSubscription ≠ [] := by
  obtain ⟨⟨id, member⟩, stored⟩ := exists_mem_of_ne_nil record.members.entries (by
    rw [isEmpty] at some_member
    simpa using some_member)
  have found := find?_eq_some_iff.mpr stored
  refine ⟨?_, ?_, ?_⟩
  · exact ne_nil_of_mem ((order.perm _).mem_iff.mpr (mem_keys.mpr ⟨member, stored⟩))
  · have few := sound.few
    rw [(order.perm _).length_eq, OrderedMap.keys, length_map]
    exact Nat.lt_of_le_of_lt few (by decide)
  · exact ne_nil_of_mem (mem_map_of_mem (mem_memberList.mpr ⟨id, found⟩))

theorem Subscribes.mem_keys {id : Bytes} (subscribes : record.Subscribes id topic) : id ∈ record.members.keys := by
  obtain ⟨member, found, -⟩ := subscribes
  exact mem_keys_iff_isSome.mpr (Option.isSome_of_mem found)

theorem Divisible.divides (divisible : record.Divisible) (sound : record.Sound) (some_member : record.isEmpty = false)
    (strategy : AssignmentStrategy) (orders : Orders) : record.Divides (record.assignBy strategy orders) := by
  obtain ⟨some_id, few, some_subscription⟩ := sound.accepted some_member orders.members
  obtain ⟨moves, deals, all, only⟩ :=
    runAssignmentStrategy_deals strategy some_id few some_subscription sound.remembered orders
  refine ⟨?_, ?_, ?_⟩
  · intro id topic subscribes partition declared
    obtain ⟨⟨member, text⟩, dealt, same⟩ := mem_map.mp (all (partitionText topic partition)
      ⟨topic, mem_allTopics_iff.mpr ⟨id, subscribes⟩, partition, lt_numPartitions_iff.mpr (.inr declared), rfl⟩)
    obtain rfl : text = partitionText topic partition := same
    refine ⟨member, deals.mem.mpr dealt, ?_⟩
    intro other had
    exact owner_unique deals.once (deals.mem.mp had) dealt
  · intro member
    rw [assignBy, deals.hands]
    exact dealtTo_nodup deals.once
  · intro member text had
    have dealt := deals.mem.mp had
    have joined := (orders.members.perm _).mem_iff.mp (deals.owners _ dealt)
    rcases only text (mem_map.mpr ⟨_, dealt, rfl⟩) with
      ⟨topic, subscribed, partition, below, rfl⟩ | ⟨owner, among, held, -, subscribed⟩
    · obtain ⟨id, subscribes⟩ := mem_allTopics_iff.mp subscribed
      refine ⟨topic, partition, rfl, divisible.shared member joined id topic subscribes, ?_⟩
      rcases lt_numPartitions_iff.mp below with rfl | declared
      · exact divisible.counted id topic subscribes
      · exact declared
    · obtain ⟨topic, plain, partition, -, rfl⟩ := sound.remembered.texts owner text held
      obtain ⟨id, subscribes⟩ := mem_allTopics_iff.mp subscribed
      rw [partitionText, beforeColon_append plain] at subscribes
      have known := (orders.members.perm _).mem_iff.mp among
      exact ⟨topic, partition, rfl, divisible.shared member joined id topic subscribes,
        divisible.remembered owner known id topic subscribes partition held⟩

section

variable (sound : record.Sound) {id other : Bytes} (joined : id ∈ record.members.keys)
  (subscribes : record.Subscribes other topic)
include sound joined subscribes

theorem first_mem_range : partitionText topic 0 ∈ handOf (record.assignBy .range { members := .first id }) id := by
  obtain ⟨others, visited, count⟩ := IterationOrder.visit_first joined
  have few : others.length + 1 < 2 ^ 31 := by
    have size := sound.few
    rw [count, OrderedMap.keys, length_map]
    exact Nat.lt_of_le_of_lt size (by decide)
  rw [assignBy, runAssignmentStrategy]
  dsimp only
  rw [visited]
  exact assignRange_first few _ (mem_allTopics_iff.mpr ⟨other, subscribes⟩)

theorem held_mem_sticky {partition : Nat} (held : partitionText topic partition ∈ handOf record.stickyAssignments id) :
    partitionText topic partition ∈ handOf (record.assignBy .sticky {}) id := by
  have some_member : record.isEmpty = false := isEmpty_entries_eq_false joined
  obtain ⟨some_id, -, some_subscription⟩ := sound.accepted some_member (.ascending _)
  obtain ⟨moves, deals, keeps, -⟩ :=
    @assignSticky_deals _ _ _ (.ascending _) some_id some_subscription sound.remembered (.ascending _)
  obtain ⟨named, plain, index, -, same⟩ := sound.remembered.texts id _ held
  obtain ⟨rfl, -⟩ := partitionText_inj.mp same
  have kept : Kept (allTopics ((record.memberList (.ascending _)).map parseSubscription))
      (partitionText topic partition) := by
    refine ⟨by simp [partitionText], ?_⟩
    rw [partitionText, beforeColon_append plain]
    exact mem_allTopics_iff.mpr ⟨other, subscribes⟩
  exact deals.mem.mpr (keeps id joined _ held kept)

end

theorem divides_iff (sound : record.Sound) (some_member : record.isEmpty = false) :
    (∀ strategy orders, record.Divides (record.assignBy strategy orders)) ↔ record.Divisible := by
  constructor
  · intro all
    refine ⟨?_, ?_, ?_⟩
    · intro id joined other topic subscribes
      obtain ⟨named, partition, same, own, -⟩ := (all .range _).own id _ (first_mem_range sound joined subscribes)
      obtain rfl := (partitionText_inj.mp same).1
      exact own
    · intro id topic subscribes
      obtain ⟨named, partition, same, -, declared⟩ :=
        (all .range _).own id _ (first_mem_range sound subscribes.mem_keys subscribes)
      obtain ⟨rfl, zero⟩ := partitionText_inj.mp same
      rwa [← Int.natCast_eq_zero.mp zero.symm]
    · intro id joined other topic subscribes partition held
      obtain ⟨named, index, same, -, declared⟩ :=
        (all .sticky _).own id _ (held_mem_sticky sound joined subscribes held)
      obtain ⟨rfl, equal⟩ := partitionText_inj.mp same
      rwa [Int.natCast_inj.mp equal]
  · intro divisible strategy orders
    exact divisible.divides sound some_member strategy orders

/-- A group with the same memory, and with no other members. -/
structure Shrinks (record after : GroupRecord) : Prop where
  sticky : after.stickyAssignments = record.stickyAssignments
  fewer : ∀ id ∈ after.members.keys, id ∈ record.members.keys

theorem Shrinks.refl (record : GroupRecord) : record.Shrinks record := ⟨rfl, fun _ => id⟩

theorem Shrinks.trans {between : GroupRecord} (first : record.Shrinks between) (second : between.Shrinks after) :
    record.Shrinks after := ⟨second.sticky.trans first.sticky, fun id member => first.fewer id (second.fewer id member)⟩

theorem Sound.shrinks (sound : record.Sound) (shrinks : record.Shrinks after) : after.Sound where
  remembered := by
    rw [shrinks.sticky]
    exact sound.remembered
  few := by
    have fewer := size_le_of_keys shrinks.fewer
    rw [OrderedMap.keys, length_map] at fewer
    exact fewer.trans sound.few

theorem shrinks_expireMembers : record.Shrinks (record.expireMembers nowMs) :=
  ⟨rfl, fun _ => mem_keys_of_expireMembers⟩

theorem shrinks_expire : record.Shrinks (record.expire nowMs) := by
  rw [expire_eq]
  split
  next => exact ⟨rfl, fun _ => mem_keys_of_expireMembers⟩
  next => exact shrinks_expireMembers

theorem shrinks_expireBeforeJoin : record.Shrinks (record.expireBeforeJoin nowMs) := by
  unfold expireBeforeJoin
  dsimp only
  split
  next => exact ⟨rfl, fun _ => mem_keys_of_expireMembers⟩
  next => exact shrinks_expireMembers

theorem shrinks_touch : record.Shrinks (record.touch memberId nowMs) := ⟨rfl, fun _ => mem_keys_modify.mp⟩

theorem shrinks_heartbeat {req : HeartbeatRequest} : record.Shrinks (record.heartbeat req nowMs).2 := by
  have beats : record.Shrinks (record.beat req.memberId nowMs).2 := by
    unfold beat
    dsimp only
    split
    next =>
      split
      next =>
        split
        next => exact shrinks_touch.trans ⟨rfl, fun _ => mem_keys_of_expireMembers⟩
        next => exact shrinks_touch.trans shrinks_expireMembers
      next => exact shrinks_touch
    next => exact shrinks_touch
  unfold heartbeat
  cases record.members.find? req.memberId with
  | none => exact .refl record
  | some member =>
    cases record.validateGeneration req.generationId with
    | none => exact beats
    | _ => exact .refl record

theorem shrinks_removeMembers (memberIds : List Bytes) (progress : Bool × GroupRecord) :
    progress.2.Shrinks (memberIds.foldl removeMember progress).2 := by
  induction memberIds generalizing progress with
  | nil => exact .refl progress.2
  | cons memberId memberIds ih =>
    refine Shrinks.trans ?_ (ih (removeMember progress memberId))
    unfold removeMember
    dsimp only
    cases progress.2.members.find? memberId with
    | none => exact .refl progress.2
    | some member => exact ⟨rfl, fun id stays => (mem_keys_erase.mp stays).1⟩

theorem shrinks_afterLeave {leaderRemoved : Bool} : record.Shrinks (record.afterLeave leaderRemoved nowMs order) := by
  unfold afterLeave
  split
  next => exact ⟨rfl, fun _ => id⟩
  next =>
    split
    next => exact ⟨rfl, fun _ => mem_keys_modify.mp⟩
    next => exact ⟨rfl, fun _ => id⟩

theorem shrinks_leave {req : LeaveGroupRequest} : record.Shrinks (record.leave req nowMs order).2 := by
  unfold leave
  dsimp only
  split
  next => exact .refl record
  next =>
    split
    next => exact (shrinks_removeMembers _ (false, record)).trans shrinks_afterLeave
    next => exact .refl record

theorem join_frame {req : JoinGroupRequest} {isRejoin : Bool} :
    (record.join req memberId isRejoin nowMs order).2.stickyAssignments = record.stickyAssignments ∧
      ∀ id ∈ (record.join req memberId isRejoin nowMs order).2.members.keys,
        id = memberId ∨ id ∈ record.members.keys := by
  have extended : ∀ record : GroupRecord,
      (record.extendDeadline req nowMs).stickyAssignments = record.stickyAssignments := by
    intro record
    unfold extendDeadline
    dsimp only
    split
    next => rfl
    next => rfl
  unfold join
  cases record.state with
  | dead => exact ⟨rfl, fun _ => .inr⟩
  | empty => exact ⟨rfl, fun _ => mem_keys_insert.mp⟩
  | stable =>
    cases isRejoin with
    | true => exact ⟨rfl, fun _ member => .inr (mem_keys_modify.mp member)⟩
    | false => exact ⟨rfl, fun _ => mem_keys_insert.mp⟩
  | preparingRebalance =>
    cases isRejoin with
    | true =>
      obtain ⟨-, -, members⟩ := extendDeadline_frame (record.rejoin req memberId nowMs true) req nowMs
      refine ⟨extended _, fun id member => .inr ?_⟩
      dsimp only at member
      rw [if_pos rfl, members] at member
      exact mem_keys_modify.mp member
    | false =>
      obtain ⟨-, -, members⟩ := extendDeadline_frame ({ record with
        members := record.members.insert memberId (newMember req memberId nowMs false) }.reelectProtocol order)
          req nowMs
      refine ⟨extended _, fun id member => ?_⟩
      have inserted := congrArg (fun members => id ∈ members.keys) members
      exact mem_keys_insert.mp (inserted ▸ member)

theorem Sound.joinAs {req : JoinGroupRequest} {generatedId : Bytes} (sound : record.Sound) :
    (record.joinAs req (idOf req generatedId) nowMs order).2.Sound := by
  rcases joinAs_cases record req generatedId nowMs order with
    ⟨⟨errorCode, refusedId, refused⟩, -⟩ | ⟨joined, room, known⟩
  · rw [refused]
    exact sound.shrinks shrinks_expireMembers
  · have expired := sound.shrinks (@shrinks_expireBeforeJoin record nowMs)
    obtain ⟨sticky, members⟩ := @join_frame (record.expireBeforeJoin nowMs) (idOf req generatedId) nowMs order req
      ((record.expireMembers nowMs).isRejoin req)
    obtain ⟨same_members, -, -⟩ := expireBeforeJoin_frame record nowMs
    rw [joined]
    refine ⟨?_, ?_⟩
    · rw [sticky]
      exact expired.remembered
    · cases rejoins : (record.expireMembers nowMs).isRejoin req with
      | true =>
        rw [rejoins] at sticky members
        refine (expired.shrinks ⟨sticky, fun id member => ?_⟩).few
        rcases members id member with rfl | member
        · exact known rejoins
        · exact member
      | false =>
        rw [rejoins] at members
        have added := size_le_of_keys fun id member => mem_cons.mpr (members id member)
        have size : (record.expireMembers nowMs).members.size < kMaxMembersPerGroup := room rejoins
        rw [length_cons, OrderedMap.keys, length_map, same_members] at added
        exact added.trans size

theorem Sound.assign (sound : record.Sound) (some_member : record.isEmpty = false) (orders : Orders) :
    (record.assign orders).Sound where
  remembered := by
    obtain ⟨some_id, few, some_subscription⟩ := sound.accepted some_member orders.members
    obtain ⟨moves, deals, -, only⟩ := runAssignmentStrategy_deals
      (strategyOf (if record.electedProtocol.isEmpty then kRange else record.electedProtocol))
      some_id few some_subscription sound.remembered orders
    exact deals.remembered parsed_subscriptions sound.remembered only
  few := by
    have fewer := @size_le_of_keys _ _ _ (record.assign orders).members record.members.keys
      fun _ => mem_keys_mapValues.mp
    rw [OrderedMap.keys, length_map] at fewer
    exact fewer.trans sound.few

theorem Sound.sync {req : SyncGroupRequest} (sound : record.Sound) : (record.sync req orders).2.Sound := by
  by_cases passes : req.generationId = record.generationId ∧ req.memberId ∈ record.members.keys
  · have marked : (record.markSynced req).Sound := sound.shrinks ⟨rfl, fun _ => id⟩
    rcases sync_cases passes.1 passes.2 with same | ⟨-, assigned⟩
    · rw [same]
      exact marked
    · rw [assigned]
      exact marked.assign (isEmpty_entries_eq_false passes.2) orders
  · rw [sync_refused passes]
    exact sound

theorem Sound.initial : Sound {} where
  remembered := ⟨nofun, fun _ => nodup_nil, nofun⟩
  few := Nat.zero_le _

theorem Sound.step (sound : record.Sound) (call : Call) : (record.step call).Sound := by
  cases call with
  | join req generatedId nowMs order => exact sound.joinAs
  | heartbeat req nowMs => exact sound.shrinks shrinks_heartbeat
  | leave req nowMs order => exact sound.shrinks shrinks_leave
  | sync req orders => exact sound.sync
  | expire nowMs => exact sound.shrinks shrinks_expire

theorem Sound.run (sound : record.Sound) (calls : List Call) : (Runs.run GroupRecord.step record calls).Sound := by
  induction calls generalizing record with
  | nil => exact sound
  | cons call calls ih => exact ih (sound.step call)

end GroupRecord

theorem sound_of_reached {events : List Event} {groupId : Bytes} {record : GroupRecord}
    (reached : (run step {} events).groups.find? groupId = some record) : record.Sound := by
  have same : record = run GroupRecord.step {} (GroupStateManager.callsOf groupId {} events) := by
    rw [← getD_of_some reached]
    exact GroupStateManager.groupOf_run {} events
  rw [same]
  exact GroupRecord.Sound.initial.run _

/-- In every group that the handler gets to, with members in it, all strategies divide the partitions if and
only if the group is divisible. -/
theorem strategies_divide_iff (events : List Event) (groupId : Bytes) {record : GroupRecord}
    (reached : (run step {} events).groups.find? groupId = some record) (some_member : record.isEmpty = false) :
    (∀ strategy orders, record.Divides (record.assignBy strategy orders)) ↔ record.Divisible :=
  divides_iff (sound_of_reached reached) some_member

def joinWith (memberId metadata : Bytes) : Event :=
  .join [] { groupId := [103], sessionTimeoutMs := 1000, rebalanceTimeoutMs := 1000, memberId := memberId,
             protocolMetadata := [metadata] } 0 0 (.ascending Bytes)

def GroupRecord.declared (record : GroupRecord) : List (Bytes × List (Bytes × Int)) :=
  record.members.entries.map fun entry => (entry.1, declarations entry.2)

theorem GroupRecord.subscribes_iff {record : GroupRecord} {id topic : Bytes} :
    record.Subscribes id topic ↔ ∃ declared ∈ record.declared, declared.1 = id ∧ topic ∈ declared.2.map Prod.fst := by
  constructor
  · rintro ⟨member, found, named⟩
    exact ⟨_, mem_map_of_mem (find?_eq_some_iff.mp found), rfl, named⟩
  · rintro ⟨_, listed, rfl, named⟩
    obtain ⟨⟨id, member⟩, stored, rfl⟩ := mem_map.mp listed
    exact ⟨member, find?_eq_some_iff.mpr stored, named⟩

/-- Two members, each with "t:2". -/
theorem strategies_divide_two :
    ∃ record ∈ (run step {} [joinWith [97] [116, 58, 50], joinWith [98] [116, 58, 50]]).groups.find? [103],
      ∀ strategy orders, record.Divides (record.assignBy strategy orders) := by
  let joined := (run step {} [joinWith [97] [116, 58, 50], joinWith [98] [116, 58, 50]]).groups.find? [103]
  obtain ⟨record, reached⟩ := Option.isSome_iff_exists.mp (by decide : joined.isSome = true)
  have declared : joined.map GroupRecord.declared = some [([97], [([116], 2)]), ([98], [([116], 2)])] := rfl
  have memory : joined.map GroupRecord.stickyAssignments = some .empty := rfl
  rw [reached, Option.map_some, Option.some.injEq] at declared memory
  have subscribes : ∀ id topic, record.Subscribes id topic ↔ (id = [97] ∨ id = [98]) ∧ topic = [116] := by
    intro id topic
    rw [GroupRecord.subscribes_iff, declared, exists_mem_cons_iff, exists_mem_cons_iff]
    simp [eq_comm, or_and_right]
  have first := (subscribes [97] [116]).mpr ⟨.inl rfl, rfl⟩
  refine ⟨record, reached, (strategies_divide_iff _ [103] reached ?_).mpr ⟨?_, ?_, ?_⟩⟩
  · exact isEmpty_entries_eq_false first.mem_keys
  · intro id known other topic subscribed
    have names : record.members.keys = record.declared.map Prod.fst := by
      rw [GroupRecord.declared, map_map]
      rfl
    rw [names, declared] at known
    exact (subscribes id topic).mpr ⟨by simpa using known, ((subscribes other topic).mp subscribed).2⟩
  · intro id topic subscribed
    obtain ⟨member, found, -⟩ := first
    have listed : ([97], declarations member) ∈ record.declared := mem_map_of_mem (find?_eq_some_iff.mp found)
    rw [declared] at listed
    have counts : declarations member = [([116], 2)] := by simpa using listed
    rw [((subscribes id topic).mp subscribed).2]
    refine ⟨[97], member, found, 2, ?_, by decide⟩
    rw [parseSubscription, counts]
    rfl
  · intro id _ other topic _ partition held
    rw [memory] at held
    cases held

/-- Two members, with "t:1" and "u:1": the first one gets the partitions of both topics. -/
theorem strategies_not_divide :
    ¬∀ (events : List Event) (groupId : Bytes), ∀ record ∈ (run step {} events).groups.find? groupId,
      record.isEmpty = false → ∀ strategy orders, record.Divides (record.assignBy strategy orders) := by
  intro all
  obtain ⟨record, reached⟩ := Option.isSome_iff_exists.mp
    (by decide : ((run step {} [joinWith [97] [116, 58, 49], joinWith [98] [117, 58, 49]]).groups.find?
      [103]).isSome = true)
  have declared : ((run step {} [joinWith [97] [116, 58, 49], joinWith [98] [117, 58, 49]]).groups.find? [103]).map
      declared = some [([97], [([116], 1)]), ([98], [([117], 1)])] := rfl
  rw [reached, Option.map_some, Option.some.injEq] at declared
  have first : record.Subscribes [97] [116] := by
    rw [subscribes_iff, declared]
    exact ⟨_, mem_cons_self, rfl, mem_cons_self⟩
  have second : record.Subscribes [98] [117] := by
    rw [subscribes_iff, declared]
    exact ⟨_, mem_cons_of_mem _ mem_cons_self, rfl, mem_cons_self⟩
  have some_member : record.isEmpty = false := isEmpty_entries_eq_false first.mem_keys
  have divisible := (divides_iff (sound_of_reached reached) some_member).mp
    (all _ [103] record reached some_member)
  have shared := divisible.shared [97] first.mem_keys [98] [117] second
  rw [subscribes_iff, declared] at shared
  revert shared
  decide

end TorrentMq.Client.GroupHandler
