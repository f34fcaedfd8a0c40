import TorrentMq.Client.GroupAssignmentProperties

/-!
# Retried syncs

What members are told that sync once more, among heartbeats, with a
generation that has its assignment.
-/

set_option autoImplicit false

namespace TorrentMq.Client

open Bytes Collections Network Runs List OrderedMap

namespace GroupAssignors

variable {subscriptions : List MemberSubscription} {memberIds : List Bytes} {previous : Assignments}

/-- What is dealt out owner by owner is dealt to each owner as a whole. -/
theorem dealtTo_flatMap {owners : List Bytes} (distinct : owners.Nodup) (hand : Bytes → List Bytes)
    (owner : Bytes) :
    dealtTo (owners.flatMap fun other => (hand other).map fun text => (other, text)) owner =
      if owner ∈ owners then hand owner else [] := by
  induction owners with
  | nil => rfl
  | cons other owners ih =>
    obtain ⟨fresh, distinct⟩ := nodup_cons.mp distinct
    rw [flatMap_cons, dealtTo_append, dealtTo_block, ih distinct]
    by_cases same : other = owner
    · subst same
      rw [if_pos rfl, if_neg fresh, if_pos mem_cons_self, append_nil]
    · rw [if_neg same, nil_append]
      exact if_congr (by simp [Ne.symm same]) rfl rfl

/-- An assignment that leaves nothing to a strategy: all of it is kept, and nothing is missing. -/
structure Final (subscriptions : List MemberSubscription) (memberIds : List Bytes) (previous : Assignments) :
    Prop where
  remembered : Remembered previous
  kept : ∀ member, ∀ text ∈ handOf previous member, member ∈ memberIds ∧ Kept (allTopics subscriptions) text
  whole : ∀ text, IsPartition subscriptions text → ∃ member ∈ memberIds, text ∈ handOf previous member

theorem Final.of_hands {other : Assignments} (final : Final subscriptions memberIds previous)
    (hands : ∀ member, handOf other member = handOf previous member) : Final subscriptions memberIds other where
  remembered := by
    obtain ⟨texts, once, alone⟩ := final.remembered
    exact ⟨by simpa only [hands] using texts, by simpa only [hands] using once, by simpa only [hands] using alone⟩
  kept := by simpa only [hands] using final.kept
  whole := by simpa only [hands] using final.whole

theorem Final.assignSticky (final : Final subscriptions memberIds previous) (some_member : memberIds ≠ [])
    (some_subscription : subscriptions ≠ []) (order previousOrder : IterationOrder Bytes) (member : Bytes) :
    handOf (assignSticky subscriptions memberIds previous order previousOrder) member = handOf previous member := by
  obtain ⟨later, same, -, texts⟩ := assignSticky_moves some_member some_subscription previous order previousOrder
  have all : keptMoves (allTopics subscriptions) memberIds previous previousOrder =
      rememberedMoves memberIds previous previousOrder :=
    filter_eq_self.mpr fun move listed => decide_eq_true (final.kept move.1 move.2 (mem_rememberedMoves.mp listed).2).2
  have none : later = [] := by
    refine map_eq_nil_iff.mp (texts.trans (map_eq_nil_iff.mpr (filter_eq_nil_iff.mpr ?_)))
    intro part listed free
    obtain ⟨subscribed, nonneg, below⟩ := (mem_flatMap_partitionsOf order).mp listed
    obtain ⟨p, number⟩ := Int.eq_ofNat_of_zero_le nonneg
    obtain ⟨owner, joined, had⟩ := final.whole (partitionText part.1 part.2)
      ⟨part.1, subscribed, p, number ▸ below, by rw [number]⟩
    have named : partitionOf (partitionText part.1 part.2) = part :=
      Prod.ext_iff.mpr (partitionText_inj.mp (final.remembered.named had))
    refine of_decide_eq_true free (mem_map.mpr ⟨(owner, partitionText part.1 part.2), ?_, named⟩)
    exact mem_keptMoves.mpr ⟨⟨joined, had⟩, (final.kept owner _ had).2⟩
  rw [same, none, append_nil, handOf_foldl_push, handOf_openHands, nil_append, all, rememberedMoves,
    dealtTo_flatMap (((previousOrder.perm _).nodup_iff.mpr nodup_keys).filter _)]
  split
  next => rfl
  next absent =>
    refine (eq_nil_iff_forall_not_mem.mpr fun text had => absent ?_).symm
    refine List.mem_filter.mpr ⟨(previousOrder.perm _).mem_iff.mpr ?_, decide_eq_true (final.kept member text had).1⟩
    by_contra unknown
    rw [handOf, find?_eq_none_iff_not_mem_keys.mpr unknown] at had
    cases had

theorem Kept.of_isPartition (parsed : ∀ subscription ∈ subscriptions, subscription.Parsed) {text : Bytes}
    (part : IsPartition subscriptions text) : Kept (allTopics subscriptions) text := by
  obtain ⟨topic, subscribed, partition, -, rfl⟩ := part
  obtain ⟨subscription, listed, named⟩ := mem_allTopics.mp subscribed
  refine ⟨mem_append_right _ mem_cons_self, ?_⟩
  rw [partitionText, beforeColon_append ((parsed subscription listed).plain topic named)]
  exact subscribed

theorem final_assignSticky (some_member : memberIds ≠ []) (some_subscription : subscriptions ≠ [])
    (parsed : ∀ subscription ∈ subscriptions, subscription.Parsed) (remembered : Remembered previous)
    (order previousOrder : IterationOrder Bytes) :
    Final subscriptions memberIds (GroupAssignors.assignSticky subscriptions memberIds previous order previousOrder) := by
  obtain ⟨moves, deals, -, texts⟩ := assignSticky_deals some_member some_subscription remembered order
  refine ⟨deals.remembered parsed remembered fun text => (texts text).mp, fun member text had => ?_, fun text part => ?_⟩
  · have moved := deals.mem.mp had
    refine ⟨deals.owners _ moved, ?_⟩
    rcases (texts text).mp (mem_map_of_mem moved) with part | ⟨-, -, -, kept⟩
    · exact .of_isPartition parsed part
    · exact kept
  · obtain ⟨move, moved, rfl⟩ := mem_map.mp ((texts text).mpr (.inl part))
    exact ⟨move.1, deals.owners move moved, deals.mem.mpr moved⟩

theorem runAssignmentStrategy_again (strategy : AssignmentStrategy) (some_member : memberIds ≠ [])
    (some_subscription : subscriptions ≠ []) (parsed : ∀ subscription ∈ subscriptions, subscription.Parsed)
    (remembered : Remembered previous) (orders : Orders) {former : Assignments}
    (hands : ∀ member,
      handOf former member = handOf (runAssignmentStrategy strategy subscriptions memberIds previous orders) member)
    (previousOrder : IterationOrder Bytes) (member : Bytes) :
    handOf (runAssignmentStrategy strategy subscriptions memberIds former { orders with previous := previousOrder })
      member = handOf (runAssignmentStrategy strategy subscriptions memberIds previous orders) member := by
  cases strategy with
  | range | roundRobin => rfl
  | sticky =>
    have final := (final_assignSticky some_member some_subscription parsed remembered orders.topics
      orders.previous).of_hands hands
    exact (final.assignSticky some_member some_subscription orders.topics previousOrder member).trans (hands member)

end GroupAssignors

namespace GroupHandler

open GroupAssignors

/-- A repeated request, with the order in which the assignments of before are visited, or a heartbeat. -/
inductive Retry where
  | sync (req : SyncGroupRequest) (previousOrder : IterationOrder Bytes)
  | heartbeat (req : HeartbeatRequest) (nowMs : Int)

namespace GroupRecord

/-- The members and the topics are as before, so they are visited as before. -/
def retried (orders : Orders) (record : GroupRecord) : Retry → GroupRecord
  | .sync req previousOrder => (record.sync req { orders with previous := previousOrder }).2
  | .heartbeat req nowMs => (record.heartbeat req nowMs).2

/-- A repeated sync is answered with the assignment that its member has got. -/
def Answers (orders : Orders) (done record : GroupRecord) : Retry → Prop
  | .sync req previousOrder =>
    let response := (record.sync req { orders with previous := previousOrder }).1
    response.errorCode = .none ∧ ∃ member ∈ done.members.find? req.memberId, response.assignment = member.assignment
  | .heartbeat _ _ => True

/-- The leader does not repeat its sync before all other members have. -/
def MayRetry (record : GroupRecord) : Retry → Prop
  | .sync req _ => record.leaderId = req.memberId → ∀ other ∈ record.members.keys, other ≠ req.memberId →
      (record.syncedMembers.find? other).isSome = true
  | .heartbeat _ _ => True

def unbeaten (_ : Bytes) (member : MemberRecord) : MemberRecord := { member with lastHeartbeatMs := 0 }

/-- Nothing has changed since the group has got its assignment but who has synced and who has beaten when. -/
structure Rests (done record : GroupRecord) : Prop where
  state : record.state = .stable
  generation : record.generationId = done.generationId
  leader : record.leaderId = done.leaderId
  protocol : record.electedProtocol = done.electedProtocol
  members : record.members.mapValues unbeaten = done.members.mapValues unbeaten
  hands : ∀ id, handOf record.stickyAssignments id = handOf done.stickyAssignments id

/-- A group whose members have what its strategy gave them, and would give them again. -/
structure Assigned (orders : Orders) (done : GroupRecord) : Prop where
  texts : ∀ id, ∀ member ∈ done.members.find? id,
    member.assignment = assignmentText (handOf done.stickyAssignments id) ∧ member.awaitingSync = false
  again : ∀ record, done.Rests record → ∀ previousOrder id,
    handOf (record.runStrategy { orders with previous := previousOrder }) id = handOf done.stickyAssignments id

variable {record done : GroupRecord} {orders : Orders}

theorem rests_self (stable : done.state = .stable) : done.Rests done := ⟨stable, rfl, rfl, rfl, rfl, fun _ => rfl⟩

theorem Rests.markSynced (rests : done.Rests record) (req : SyncGroupRequest) : done.Rests (record.markSynced req) :=
  ⟨rests.state, rests.generation, rests.leader, rests.protocol, rests.members, rests.hands⟩

section

variable (rests : done.Rests record)

include rests

theorem Rests.keys : record.members.keys = done.members.keys := by
  have same := congrArg OrderedMap.keys rests.members
  rwa [OrderedMap.keys, mapValues, map_map, OrderedMap.keys, mapValues, map_map] at same

theorem Rests.find? (id : Bytes) :
    (record.members.find? id).map (unbeaten id) = (done.members.find? id).map (unbeaten id) := by
  rw [← find?_mapValues, rests.members, find?_mapValues]

theorem Rests.assign (assigned : done.Assigned orders) (previousOrder : IterationOrder Bytes) :
    done.Rests (record.assign { orders with previous := previousOrder }) where
  state := rfl
  generation := rests.generation
  leader := rests.leader
  protocol := rests.protocol
  hands := assigned.again record rests previousOrder
  members := by
    refine ext_find? fun id => ?_
    have same := rests.find? id
    rw [GroupRecord.assign, find?_mapValues, find?_mapValues, find?_mapValues, assigned.again record rests]
    cases found : done.members.find? id with
    | none =>
      rw [found, Option.map_none, Option.map_eq_none_iff] at same
      rw [same]
      rfl
    | some member =>
      rw [found] at same
      obtain ⟨other, stored, same⟩ := Option.map_eq_some_iff.mp same
      obtain ⟨text, waiting⟩ := assigned.texts id member found
      rw [stored, ← text, ← waiting]
      exact congrArg (fun shown : MemberRecord =>
        some { shown with assignment := member.assignment, awaitingSync := member.awaitingSync }) same

theorem Rests.heartbeat (req : HeartbeatRequest) (nowMs : Int) : done.Rests (record.heartbeat req nowMs).2 := by
  unfold GroupRecord.heartbeat
  split
  next => exact rests
  next =>
    split
    next =>
      rw [beat, if_neg (by simp [touch, rests.state])]
      refine ⟨rests.state, rests.generation, rests.leader, rests.protocol, ?_, rests.hands⟩
      rw [← rests.members]
      refine ext_find? fun id => ?_
      rw [find?_mapValues, find?_mapValues, touch, find?_modify]
      split
      next same =>
        rw [same, Option.map_map]
        rfl
      next => rfl
    next => exact rests

end

theorem allMembersSynced_markSynced (req : SyncGroupRequest) : (record.markSynced req).allMembersSynced = true ↔
    ∀ other ∈ record.members.keys, other ≠ req.memberId → (record.syncedMembers.find? other).isSome = true := by
  unfold allMembersSynced
  rw [all_eq_true]
  refine forall₂_congr fun other _ => ?_
  unfold GroupRecord.markSynced
  dsimp only
  rw [find?_insert]
  split
  next same => simp [same]
  next different => exact ⟨fun synced _ => synced, fun synced => synced different⟩

theorem Rests.retry (rests : done.Rests record) (assigned : done.Assigned orders) {req : SyncGroupRequest}
    (current : req.generationId = done.generationId) (known : req.memberId ∈ done.members.keys)
    (previousOrder : IterationOrder Bytes) :
    (Answers orders done record (.sync req previousOrder) ↔ record.MayRetry (.sync req previousOrder)) ∧
      done.Rests (record.retried orders (.sync req previousOrder)) := by
  obtain ⟨member, found⟩ := Option.isSome_iff_exists.mp (mem_keys_iff_isSome.mp known)
  have same := rests.find? req.memberId
  rw [found] at same
  obtain ⟨other, stored, same⟩ := Option.map_eq_some_iff.mp same
  have valid : record.validateGeneration req.generationId = .none :=
    validateGeneration_eq_none.mpr (current.trans rests.generation.symm)
  have marked := rests.markSynced req
  unfold Answers MayRetry GroupRecord.retried GroupRecord.sync
  dsimp only
  rw [valid, stored]
  dsimp only
  by_cases leads : record.leaderId = req.memberId
  · simp only [if_pos leads]
    split
    next all =>
      have texts := (assigned.texts req.memberId member found).1
      refine ⟨iff_of_true ⟨rfl, member, found, ?_⟩ fun _ => (allMembersSynced_markSynced req).mp all, ?_⟩
      · have present : (record.markSynced req).members.find? req.memberId = some other := stored
        rw [texts, GroupRecord.assign, find?_mapValues, assigned.again _ marked, present]
        rfl
      · exact marked.assign assigned previousOrder
    next missing =>
      refine ⟨iff_of_false (fun answers => nomatch answers.1) fun may => missing ?_, marked⟩
      exact (allMembersSynced_markSynced req).mpr (may leads)
  · simp only [if_neg leads, marked.state]
    have text := congrArg MemberRecord.assignment same
    exact ⟨iff_of_true ⟨trivial, member, found, text⟩ fun leader => absurd leader leads, marked⟩

/-- A sync of a current member in the generation of the group, or any heartbeat. -/
def Current (done : GroupRecord) : Retry → Prop
  | .sync req _ => req.generationId = done.generationId ∧ req.memberId ∈ done.members.keys
  | .heartbeat _ _ => True

theorem Rests.meets_answers_iff (rests : done.Rests record) (assigned : done.Assigned orders) {calls : List Retry}
    (current : ∀ call ∈ calls, done.Current call) :
    Meets (retried orders) (Answers orders done) record calls ↔ Meets (retried orders) MayRetry record calls := by
  induction calls generalizing record with
  | nil => exact .rfl
  | cons call calls ih =>
    obtain ⟨own, others⟩ := forall_mem_cons.mp current
    cases call with
    | sync req previousOrder =>
      obtain ⟨answers, rests⟩ := rests.retry assigned own.1 own.2 previousOrder
      exact and_congr answers (ih rests others)
    | heartbeat req nowMs => exact and_congr .rfl (ih (rests.heartbeat req nowMs) others)

theorem Sound.assigned (sound : record.Sound) (some_member : record.isEmpty = false) (orders : Orders) :
    (record.assign orders).Assigned orders where
  texts := by
    intro id member found
    rw [Option.mem_def, GroupRecord.assign, find?_mapValues] at found
    obtain ⟨former, -, rfl⟩ := Option.map_eq_some_iff.mp found
    exact ⟨rfl, rfl⟩
  again := by
    intro other rests previousOrder id
    have keys : other.members.keys = record.members.keys := by
      rw [rests.keys, GroupRecord.assign, OrderedMap.keys, mapValues, map_map]
      rfl
    have subscriptions : (other.memberList orders.members).map parseSubscription =
        (record.memberList orders.members).map parseSubscription := by
      rw [memberList, memberList, keys, map_filterMap, map_filterMap]
      refine filterMap_congr fun id _ => ?_
      have same := congrArg (Option.map parseSubscription) (rests.find? id)
      rw [GroupRecord.assign, find?_mapValues, Option.map_map, Option.map_map, Option.map_map] at same
      exact same
    obtain ⟨some_id, -, some_subscription⟩ := sound.accepted some_member orders.members
    rw [runStrategy, subscriptions, keys, rests.protocol]
    exact runAssignmentStrategy_again _ some_id some_subscription parsed_subscriptions sound.remembered orders
      rests.hands previousOrder id

theorem sync_completes {req : SyncGroupRequest} (leads : req.memberId = record.leaderId)
    (answered : (record.sync req orders).1.errorCode = .none) :
    record.isEmpty = false ∧ (record.sync req orders).2 = (record.markSynced req).assign orders := by
  revert answered
  unfold GroupRecord.sync
  dsimp only
  cases record.validateGeneration req.generationId with
  | none =>
    cases found : record.members.find? req.memberId with
    | none => exact nofun
    | some member =>
      simp only [if_pos leads.symm]
      split
      next =>
        have known := mem_keys_iff_isSome.mpr (Option.isSome_of_mem found)
        exact fun _ => ⟨isEmpty_entries_eq_false known, rfl⟩
      next => exact nofun
  | _ => exact nofun

end GroupRecord

/-- Members that repeat their sync after the leader has completed the assignment are all told their part of it again,
if and only if the leader never repeats its own before the others have. -/
theorem retries_answered_iff (events : List Event) (groupId : Bytes) {record : GroupRecord}
    (reached : (run step {} events).groups.find? groupId = some record) {req : SyncGroupRequest} {orders : Orders}
    (leads : req.memberId = record.leaderId) (completes : (record.sync req orders).1.errorCode = .none)
    {calls : List Retry} (current : ∀ call ∈ calls, (record.sync req orders).2.Current call) :
    Meets (GroupRecord.retried orders) (GroupRecord.Answers orders (record.sync req orders).2)
        (record.sync req orders).2 calls ↔
      Meets (GroupRecord.retried orders) GroupRecord.MayRetry (record.sync req orders).2 calls := by
  obtain ⟨some_member, same⟩ := GroupRecord.sync_completes leads completes
  have marked : (record.markSynced req).Sound := (sound_of_reached reached).shrinks ⟨rfl, fun _ => id⟩
  rw [same] at current ⊢
  exact (GroupRecord.rests_self rfl).meets_answers_iff (marked.assigned some_member orders) current

def syncOf (memberId : Bytes) : SyncGroupRequest := { groupId := [103], generationId := 2, memberId := memberId }

def twoJoined : List Event :=
  [joinWith [97] [116, 58, 50], joinWith [98] [116, 58, 50], .sync (syncOf [98]) {}]

def retryOf (memberId : Bytes) : Retry := .sync (syncOf memberId) (.ascending _)

theorem twoJoined_completes : ∀ record ∈ (run step {} twoJoined).groups.find? [103],
    [97] = record.leaderId ∧ (record.sync (syncOf [97]) {}).1.errorCode = .none := by decide

def beatOf (memberId : Bytes) : Retry := .heartbeat { groupId := [103], generationId := 2, memberId := memberId } 1

theorem retries_answered_two : ∃ record ∈ (run step {} twoJoined).groups.find? [103],
    Meets (GroupRecord.retried {}) (GroupRecord.Answers {} (record.sync (syncOf [97]) {}).2)
      (record.sync (syncOf [97]) {}).2 [retryOf [98], beatOf [98], retryOf [97]] := by
  obtain ⟨record, reached⟩ := Option.isSome_iff_exists.mp
    (by decide : ((run step {} twoJoined).groups.find? [103]).isSome = true)
  have known : ∀ record ∈ (run step {} twoJoined).groups.find? [103], ∀ memberId ∈ [[98], [97]],
      2 = (record.sync (syncOf [97]) {}).2.generationId ∧
        memberId ∈ (record.sync (syncOf [97]) {}).2.members.keys := by decide
  have follows : ∀ record ∈ (run step {} twoJoined).groups.find? [103],
      (record.sync (syncOf [97]) {}).2.leaderId ≠ [98] := by decide
  have synced : ∀ record ∈ (run step {} twoJoined).groups.find? [103],
      let beaten := run (GroupRecord.retried {}) (record.sync (syncOf [97]) {}).2 [retryOf [98], beatOf [98]]
      ∀ other ∈ beaten.members.keys, other ≠ [97] → (beaten.syncedMembers.find? other).isSome = true := by decide
  refine ⟨record, reached, (retries_answered_iff twoJoined [103] reached (twoJoined_completes record reached).1
    (twoJoined_completes record reached).2 ?_).mpr ⟨?_, trivial, ?_, trivial⟩⟩
  · refine forall_mem_cons.mpr ⟨known record reached _ (by decide), forall_mem_cons.mpr ⟨trivial, ?_⟩⟩
    exact forall_mem_singleton.mpr (known record reached _ (by decide))
  · exact fun leads => absurd leads (follows record reached)
  · exact fun _ => synced record reached

/-- The leader syncs again while the other member, which has its assignment, does not. -/
theorem retries_not_answered :
    ¬∀ (events : List Event) (groupId : Bytes), ∀ record ∈ (run step {} events).groups.find? groupId,
      ∀ (req : SyncGroupRequest) (orders : Orders), req.memberId = record.leaderId →
        (record.sync req orders).1.errorCode = .none → ∀ calls : List Retry,
        (∀ call ∈ calls, (record.sync req orders).2.Current call) →
        Meets (GroupRecord.retried orders) (GroupRecord.Answers orders (record.sync req orders).2)
          (record.sync req orders).2 calls := by
  intro all
  obtain ⟨record, reached⟩ := Option.isSome_iff_exists.mp
    (by decide : ((run step {} twoJoined).groups.find? [103]).isSome = true)
  have current : ∀ record ∈ (run step {} twoJoined).groups.find? [103],
      2 = (record.sync (syncOf [97]) {}).2.generationId ∧
        [97] ∈ (record.sync (syncOf [97]) {}).2.members.keys := by decide
  have refused : ∀ record ∈ (run step {} twoJoined).groups.find? [103],
      ((record.sync (syncOf [97]) {}).2.sync (syncOf [97]) {}).1.errorCode ≠ .none := by decide
  obtain ⟨⟨answered, -⟩, -⟩ := all twoJoined [103] record reached (syncOf [97]) {} (twoJoined_completes record reached).1
    (twoJoined_completes record reached).2 [retryOf [97]] (forall_mem_singleton.mpr (current record reached))
  exact refused record reached answered

end GroupHandler

end TorrentMq.Client
