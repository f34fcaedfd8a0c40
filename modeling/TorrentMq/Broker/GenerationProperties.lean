import TorrentMq.Arithmetic.Counters
import TorrentMq.Broker.GroupCalls
import TorrentMq.Runs.Fencing

/-! Runs of a group of the manager that keep members of earlier generations out. -/

set_option autoImplicit false

namespace TorrentMq.Broker.ConsumerGroups

open Bytes Collections List OrderedMap Option GroupMetadata

namespace GroupMetadata

variable {group after : GroupMetadata} {memberId id : Bytes} {order : IterationOrder Bytes}

def tag (group : GroupMetadata) (id : Bytes) : Option (Int32 × Bool) :=
  (group.members.find? id).map fun member => (member.generation, member.awaitingSync)

theorem mem_keys_iff_tag : id ∈ group.members.keys ↔ group.tag id ≠ none := by
  rw [mem_keys_iff_isSome, tag, Ne, map_eq_none_iff, isSome_iff_ne_none]

@[simp] theorem tag_elect (memberId id : Bytes) : (group.elect memberId).tag id = group.tag id := by
  rw [tag, tag, elect, find?_modify]
  split
  next same => rw [same, Option.map_map]; rfl
  next => rfl

@[simp] theorem tag_awaitMembers (id : Bytes) :
    group.awaitMembers.tag id = (group.tag id).map fun _ => (group.generation, true) := by
  rw [tag, tag, awaitMembers, find?_mapValues, Option.map_map, Option.map_map]
  rfl

@[simp] theorem tag_markForRejoin (id : Bytes) :
    group.markForRejoin.tag id = (group.tag id).map fun tag => (tag.1, true) := by
  rw [tag, tag, markForRejoin, find?_mapValues, Option.map_map, Option.map_map]
  rfl

/-- No member is behind the generation of the group, or ahead of it. -/
def Uniform (group : GroupMetadata) : Prop := ∀ id, ∀ tag ∈ group.tag id, tag.1 = group.generation

/-!
## Joins
-/

variable {now : Int}

variable {groupId : Bytes}

theorem refreshOrAdd_tags
    (admitted : group.refreshOrAdd groupId memberId now = .ok after) :
    after.state = group.state ∧ after.generation = group.generation ∧
      ∃ awaitingSync, (group.state = .preparingRebalance ∨ group.state = .completingRebalance → awaitingSync = true) ∧
        ∀ id, after.tag id = if id = memberId then some (group.generation, awaitingSync) else group.tag id := by
  unfold refreshOrAdd at admitted
  cases found : group.members.find? memberId with
  | some member =>
    simp only [found] at admitted
    cases admitted
    refine ⟨rfl, rfl, if group.state = .preparingRebalance ∨ group.state = .completingRebalance then true
      else member.awaitingSync, fun rebalancing => if_pos rebalancing, fun id => ?_⟩
    rw [tag, find?_insert]
    split
    next => rfl
    next => rfl
  | none =>
    simp only [found] at admitted
    split at admitted
    next => cases admitted
    next =>
      cases admitted
      refine ⟨rfl, rfl, true, fun _ => rfl, fun id => ?_⟩
      rw [tag, find?_insert]
      split
      next => rfl
      next => rfl

theorem room_of_join (joined : group.join groupId memberId now = .ok after) :
    memberId ∈ group.members.keys ∨ group.memberCount < kMaxMembersPerGroup := by
  unfold join at joined
  split at joined
  next => cases joined
  next =>
    cases found : group.members.find? memberId with
    | some member => exact .inl (mem_keys_iff_isSome.mpr (by rw [found]; rfl))
    | none =>
      refine .inr (Int32.not_le.mp fun full => ?_)
      rw [refreshOrAdd, found] at joined
      dsimp only at joined
      rw [if_pos full] at joined
      cases joined

inductive JoinOutcome (group : GroupMetadata) (memberId : Bytes) (after : GroupMetadata) : Prop where
  | first (was : group.state = .empty) (state : after.state = .stable)
      (generation : after.generation = group.generation + 1)
      (tags : ∀ id, after.tag id = if id = memberId then some (after.generation, false) else group.tag id)
  | opens (was : group.state = .stable) (state : after.state = .preparingRebalance)
      (generation : after.generation = group.generation)
      (tags : ∀ id, after.tag id =
        if id = memberId then some (group.generation, true) else (group.tag id).map fun _ => (group.generation, true))
  | closes (was : group.state = .preparingRebalance ∨ group.state = .completingRebalance)
      (state : after.state = .completingRebalance) (generation : after.generation = group.generation + 1)
      (tags : ∀ id, after.tag id =
        if id = memberId then some (after.generation, true) else (group.tag id).map fun _ => (after.generation, true))
  | waits (was : group.state = .preparingRebalance ∨ group.state = .completingRebalance)
      (state : after.state = group.state) (generation : after.generation = group.generation)
      (tags : ∀ id, after.tag id = if id = memberId then some (group.generation, true) else group.tag id)

theorem completeJoin_cases (group : GroupMetadata) :
    group.completeJoin = group ∨
      group.completeJoin =
        { group with state := .completingRebalance, generation := group.generation + 1 }.awaitMembers := by
  unfold completeJoin
  split
  next => exact .inr rfl
  next => exact .inl rfl

theorem completeJoin_outcome {led : GroupMetadata}
    (was : group.state = .preparingRebalance ∨ group.state = .completingRebalance) (state : led.state = group.state)
    (generation : led.generation = group.generation)
    (tags : ∀ id, led.tag id = if id = memberId then some (group.generation, true) else group.tag id) :
    JoinOutcome group memberId led.completeJoin := by
  rcases completeJoin_cases led with same | bumped
  · rw [same]
    exact .waits was state generation tags
  · rw [bumped]
    refine .closes was rfl (congrArg (· + 1) generation) fun id => ?_
    refine (tag_awaitMembers id).trans ((congrArg (Option.map _) (tags id)).trans ?_)
    split
    next => rfl
    next => rfl

section

variable (alive : group.state ≠ .dead) (joined : group.join groupId memberId now = .ok after)

include alive joined

theorem join_admits :
    ∃ admitted, group.refreshOrAdd groupId memberId now = .ok admitted ∧ admitted.afterJoin memberId = after := by
  unfold join at joined
  rw [if_neg alive] at joined
  cases admission : group.refreshOrAdd groupId memberId now with
  | error error =>
    rw [admission] at joined
    cases joined
  | ok admitted =>
    rw [admission] at joined
    exact ⟨admitted, rfl, Except.ok.inj joined⟩

theorem join_outcome : JoinOutcome group memberId after := by
  obtain ⟨admitted, admission, rfl⟩ := join_admits alive joined
  obtain ⟨same_state, same_generation, awaitingSync, waits, tags⟩ := refreshOrAdd_tags admission
  have rebalances (was : group.state = .preparingRebalance ∨ group.state = .completingRebalance) :
      JoinOutcome group memberId
        ((if admitted.isLeaderless then admitted.elect memberId else admitted).completeJoin) := by
    rw [waits was] at tags
    split
    next =>
      exact completeJoin_outcome was same_state same_generation fun id => (tag_elect memberId id).trans (tags id)
    next => exact completeJoin_outcome was same_state same_generation tags
  unfold afterJoin
  rw [same_state]
  cases state : group.state with
  | dead => exact absurd state alive
  | empty =>
    refine .first state rfl (congrArg (· + 1) same_generation) fun id => ?_
    have elected := tags memberId
    rw [if_pos rfl, ← tag_elect memberId memberId, tag, map_eq_some_iff] at elected
    obtain ⟨member, found, -⟩ := elected
    refine (congrArg (Option.map _) (find?_modify _ id)).trans ?_
    split
    next =>
      refine (congrArg (fun stored => Option.map _ (Option.map _ stored)) found).trans ?_
      rfl
    next other => exact (tag_elect memberId id).trans ((tags id).trans (if_neg other))
  | stable =>
    have opened (leader id : Bytes) :
        tag ({ admitted.elect leader with state := .preparingRebalance }.awaitMembers) id =
          if id = memberId then some (group.generation, true)
          else (group.tag id).map fun _ => (group.generation, true) := by
      refine (tag_awaitMembers id).trans ?_
      refine (congrArg (Option.map _) ((tag_elect leader id).trans (tags id))).trans ?_
      have same : admitted.generation = group.generation := same_generation
      split
      next => exact congrArg (fun generation => some (generation, true)) same
      next => exact congrArg (fun generation => (group.tag id).map fun _ => (generation, true)) same
    exact .opens state rfl same_generation (opened _)
  | preparingRebalance => exact rebalances (.inl state)
  | completingRebalance => exact rebalances (.inr state)

end

/-!
## Departures
-/

/-- Some members are gone, but not all, and nobody has synced by that. -/
structure Departed (group after : GroupMetadata) : Prop where
  generation : after.generation = group.generation
  state : after.state = if group.state = .stable then .preparingRebalance else group.state
  members : after.isEmpty = false
  tags : ∀ id, ∀ tag ∈ after.tag id, ∃ old ∈ group.tag id, tag.1 = old.1 ∧ (tag.2 = false → old.2 = false)

theorem isEmpty_iff_tag : group.isEmpty = true ↔ ∀ id, group.tag id = none := by
  rw [isEmpty, isEmpty_entries_iff_find?]
  simp only [tag, map_eq_none_iff]

theorem isEmpty_eq_false_of_tag {tag : Int32 × Bool} (present : group.tag id = some tag) : group.isEmpty = false := by
  rw [← Bool.not_eq_true, isEmpty_iff_tag]
  intro none
  rw [none id] at present
  cases present

theorem exists_tag (members : group.isEmpty = false) : ∃ id tag, group.tag id = some tag := by
  by_contra none
  rw [← Bool.not_eq_true, isEmpty_iff_tag] at members
  exact members fun id => eq_none_iff_forall_ne_some.mpr fun tag found => none ⟨id, tag, found⟩

theorem afterDeparture_departed {remaining : GroupMetadata} {leaderRemoved : Bool} (alive : group.state ≠ .dead)
    (occupied : group.state ≠ .empty) (state : remaining.state = group.state)
    (generation : remaining.generation = group.generation) (members : remaining.isEmpty = false)
    (tags : ∀ id, remaining.tag id = none ∨ remaining.tag id = group.tag id) :
    Departed group (remaining.afterDeparture leaderRemoved order) := by
  have kept (id : Bytes) (tag : Int32 × Bool) (present : remaining.tag id = some tag) :
      ∃ old ∈ group.tag id, tag.1 = old.1 ∧ (tag.2 = false → old.2 = false) := by
    rcases tags id with gone | same
    · cases gone.symm.trans present
    · exact ⟨tag, same.symm.trans present, rfl, fun synced => synced⟩
  -- an election does not show in the tags
  have elected (leader : Bytes) : remaining.state ≠ .stable → Departed group (remaining.elect leader) := by
    intro rebalancing
    refine ⟨generation, ?_, ?_, fun id tag present => kept id tag ((tag_elect leader id).symm.trans present)⟩
    · rw [if_neg (state ▸ rebalancing)]
      exact state
    · rw [← members, Bool.eq_iff_iff, isEmpty_iff_tag, isEmpty_iff_tag]
      simp only [tag_elect]
  have unelected : remaining.state ≠ .stable → Departed group remaining := by
    intro rebalancing
    refine ⟨generation, ?_, members, kept⟩
    rw [if_neg (state ▸ rebalancing)]
    exact state
  have restarted {restarted : GroupMetadata} (was : group.state = .stable)
      (same_generation : restarted.generation = remaining.generation) (preparing : restarted.state = .preparingRebalance)
      (same_tags : ∀ id, restarted.tag id = remaining.tag id) : Departed group restarted.markForRejoin := by
    refine ⟨same_generation.trans generation, ?_, ?_, fun id tag present => ?_⟩
    · rw [if_pos was]
      exact preparing
    · rw [← members, Bool.eq_iff_iff, isEmpty_iff_tag, isEmpty_iff_tag]
      simp only [tag_markForRejoin, same_tags, map_eq_none_iff]
    · rw [tag_markForRejoin, same_tags] at present
      obtain ⟨before, found, rfl⟩ := map_eq_some_iff.mp present
      obtain ⟨old, listed, same, -⟩ := kept id before found
      exact ⟨old, listed, same, nofun⟩
  unfold afterDeparture
  rw [members, if_neg nofun]
  cases was : remaining.state with
  | empty => exact absurd (state.symm.trans was) occupied
  | dead => exact absurd (state.symm.trans was) alive
  | stable =>
    dsimp only
    split
    next => exact restarted (state.symm.trans was) rfl rfl fun id => tag_elect _ id
    next => exact restarted (state.symm.trans was) rfl rfl fun _ => rfl
  | preparingRebalance | completingRebalance =>
    dsimp only
    split
    next => exact elected _ (was.trans_ne nofun)
    next => exact unelected (was.trans_ne nofun)

theorem leave_cases (alive : group.state ≠ .dead) (occupied : memberId ∈ group.members.keys → group.state ≠ .empty)
    (others : memberId ∈ group.members.keys → ∃ other ∈ group.members.keys, other ≠ memberId) :
    group.leave memberId order = group ∨ Departed group (group.leave memberId order) := by
  unfold leave
  cases found : group.members.find? memberId with
  | none => exact .inl rfl
  | some member =>
    have known : memberId ∈ group.members.keys := mem_keys_iff_isSome.mpr (by rw [found]; rfl)
    refine .inr (afterDeparture_departed alive (occupied known) rfl rfl ?_ fun id => ?_)
    · obtain ⟨other, listed, differs⟩ := others known
      exact isEmpty_entries_eq_false (mem_keys_erase.mpr ⟨listed, differs⟩)
    · refine (em (id = memberId)).imp (fun same => ?_) fun differs => ?_
      · exact congrArg (Option.map _) ((find?_erase id).trans (if_pos same))
      · exact congrArg (Option.map _) ((find?_erase id).trans (if_neg differs))

theorem checkSessionTimeouts_cases
    (lasts : group.isEmpty = false → ∃ id, ∃ member ∈ group.members.find? id, isExpired now member = false)
    (members : group.isEmpty = true → group.state = .empty) :
    group.checkSessionTimeouts now order = group ∨ Departed group (group.checkSessionTimeouts now order) := by
  unfold checkSessionTimeouts
  split
  next => exact .inl rfl
  next live =>
    rw [not_or] at live
    dsimp only
    split
    next => exact .inl rfl
    next =>
      refine .inr (afterDeparture_departed live.1 live.2 rfl rfl ?_ fun id => ?_)
      · obtain ⟨id, member, found, unexpired⟩ := lasts (Bool.eq_false_iff.mpr fun none => live.2 (members none))
        have silent : id ∉ (group.members.entries.filter fun entry => isExpired now entry.2).map Prod.fst := by
          intro expired
          obtain ⟨⟨_, other⟩, listed, rfl⟩ := mem_map.mp expired
          obtain ⟨stored, silent⟩ := List.mem_filter.mp listed
          have same := (OrderedMap.find?_eq_some_iff.mpr stored).symm.trans found
          rw [Option.some.inj same, unexpired] at silent
          cases silent
        have known : id ∈ group.members.keys := mem_keys_iff_isSome.mpr (isSome_of_mem found)
        exact isEmpty_entries_eq_false (mem_keys_filter.mpr ⟨known, decide_eq_true silent⟩)
      · refine (em (id ∈ (group.members.entries.filter fun entry => isExpired now entry.2).map Prod.fst)).imp
          (fun expired => ?_) fun stays => ?_
        · exact congrArg (Option.map _) ((OrderedMap.find?_filter _).trans (if_neg (by simpa using expired)))
        · exact congrArg (Option.map _) ((OrderedMap.find?_filter _).trans (if_pos (decide_eq_true stays)))

/-!
## Syncs and heartbeats
-/

structure SyncOutcome (group : GroupMetadata) (memberId : Bytes) (after : GroupMetadata) : Prop where
  was : group.state = .completingRebalance
  member : memberId ∈ group.members.keys
  generation : after.generation = group.generation
  tags : ∀ id, after.tag id =
    if id = memberId then (group.tag memberId).map fun tag => (tag.1, false) else group.tag id
  state : after.state = .completingRebalance ∨ after.state = .stable ∧ ∀ id, ∀ tag ∈ after.tag id, tag.2 = false

theorem tag_applyAssignments (assignments : Assignors.PartitionAssignment) (id : Bytes) :
    (group.applyAssignments assignments).tag id = group.tag id := by
  rw [tag, tag, applyAssignments, find?_mapValues, Option.map_map]
  refine congrArg (fun read => (group.members.find? id).map read) (funext fun member => ?_)
  dsimp only [Function.comp]
  split
  next => rfl
  next => rfl

theorem allMembersSynced_spec (synced : group.allMembersSynced = true) : ∀ id, ∀ tag ∈ group.tag id, tag.2 = false := by
  intro id tag present
  obtain ⟨member, found, rfl⟩ := map_eq_some_iff.mp present
  have entry := all_eq_true.mp synced (id, member) (OrderedMap.find?_eq_some_iff.mp found)
  simpa using entry

theorem sync_outcome {partitionCount : Bytes → Int} (synced : group.sync memberId partitionCount = .ok after) :
    SyncOutcome group memberId after := by
  unfold sync at synced
  split at synced
  next => cases synced
  next was =>
    rw [not_not] at was
    cases found : group.members.find? memberId with
    | none =>
      rw [found] at synced
      cases synced
    | some member =>
      rw [found] at synced
      dsimp only at synced
      obtain rfl := Except.ok.inj synced
      have tags (id : Bytes) :
          tag { group with members := group.members.insert memberId { member with awaitingSync := false } } id =
            if id = memberId then (group.tag memberId).map fun tag => (tag.1, false) else group.tag id := by
        refine (congrArg (Option.map _) (find?_insert id)).trans ?_
        split
        next => rw [tag, found]; rfl
        next => rfl
      have known : memberId ∈ group.members.keys := mem_keys_iff_isSome.mpr (by rw [found]; rfl)
      unfold afterSync
      split
      next all =>
        refine ⟨was, known, rfl, fun id => (tag_applyAssignments _ id).trans (tags id), .inr ⟨rfl, ?_⟩⟩
        intro id tag present
        exact allMembersSynced_spec all id tag ((tag_applyAssignments _ id).symm.trans present)
      next => exact ⟨was, known, rfl, tags, .inl was⟩

theorem heartbeat_outcome {generation : Int32}
    (beaten : group.heartbeat groupId memberId generation now = .ok after) :
    (∃ awaitingSync, group.tag memberId = some (generation, awaitingSync)) ∧ after.state = group.state ∧
      after.generation = group.generation ∧ ∀ id, after.tag id = group.tag id := by
  unfold heartbeat at beaten
  cases found : group.members.find? memberId with
  | none =>
    rw [found] at beaten
    cases beaten
  | some member =>
    rw [found] at beaten
    dsimp only at beaten
    split at beaten
    next => cases beaten
    next same =>
      rw [not_not] at same
      obtain rfl := Except.ok.inj beaten
      have own : group.tag memberId = some (generation, member.awaitingSync) := by
        rw [tag, found, same]
        rfl
      refine ⟨⟨_, own⟩, rfl, rfl, fun id => ?_⟩
      refine (congrArg (Option.map _) (find?_insert id)).trans ?_
      split
      next other =>
        rw [other, own, same]
        rfl
      next => rfl

end GroupMetadata

/-!
## Watched runs
-/

structure Watched where
  group : GroupMetadata := {}
  /-- Those that have joined since the generation began. -/
  joined : List Bytes := []
  /-- Those that have come into the group since the generation began. -/
  arrived : List Bytes := []
  /-- The members that had joined when the generation began. -/
  closed : List Bytes := []

namespace Watched

variable {watched : Watched} {groupId memberId : Bytes}

def joinedBy (watched : Watched) (memberId : Bytes) (after : GroupMetadata) : Watched :=
  if after.generation = watched.group.generation then
    { watched with
      group := after
      joined := memberId :: watched.joined
      arrived :=
        if memberId ∈ watched.group.members.keys then watched.arrived else memberId :: watched.arrived }
  else
    { group := after
      closed := (memberId :: watched.joined).filter fun id => id ∈ after.members.keys }

def step (groupId : Bytes) (watched : Watched) : Call → Watched
  | .join memberId now =>
    match watched.group.join groupId memberId now with
    | .ok after => watched.joinedBy memberId after
    | .error _ => watched
  | call => { watched with group := watched.group.step groupId call }

def takesPart (groupId : Bytes) (watched : Watched) : Call → Bytes → Option Int
  | .join memberId now, member =>
    match watched.group.join groupId memberId now with
    | .ok after =>
      if after.generation ≠ watched.group.generation ∧ member ∈ (watched.joinedBy memberId after).closed then
        some after.generation.toInt
      else none
    | .error _ => none
  | .sync memberId partitionCount, member =>
    match watched.group.sync memberId partitionCount with
    | .ok after => if member = memberId then some after.generation.toInt else none
    | .error _ => none
  | _, _ => none

def accepts (groupId : Bytes) (watched : Watched) : Call → Bytes → Int → Prop
  | .heartbeat memberId generation now, member, number =>
    memberId = member ∧ generation.toInt = number ∧
      ∃ after, watched.group.heartbeat groupId memberId generation now = .ok after
  | _, _, _ => False

def coordinator (groupId : Bytes) : Runs.Coordinator Watched Call Bytes Int where
  step := step groupId
  number watched := watched.group.generation.toInt
  occupied watched := watched.group.isEmpty = false
  empties watched call := watched.group.isEmpty = false ∧ (watched.group.step groupId call).isEmpty = true
  takesPart := takesPart groupId
  accepts := accepts groupId

/-- A member whose heartbeat under the generation of the group says that it has taken part in it. -/
def MayBeat (watched : Watched) (memberId : Bytes) (member : GroupMember) : Prop :=
  match watched.group.state with
  | .preparingRebalance => memberId ∉ watched.arrived
  | .completingRebalance => memberId ∈ watched.closed ∨ member.awaitingSync = false
  | .empty | .stable | .dead => True

theorem mayBeat_of_stable {member : GroupMember} (stable : watched.group.state = .stable) :
    watched.MayBeat memberId member := by
  rw [MayBeat, stable]
  trivial

/-- The group keeps a member, there is a next generation, and who beats while the group
rebalances has been there before, or has joined or synced since. -/
def KeepsMember (watched : Watched) : Call → Prop
  | .join memberId _ =>
    watched.group.state ≠ .stable →
      memberId ∈ watched.group.members.keys ∨ watched.group.memberCount < kMaxMembersPerGroup →
        watched.group.generation ≠ Int32.maxValue
  | .leave memberId _ =>
    memberId ∈ watched.group.members.keys → ∃ other ∈ watched.group.members.keys, other ≠ memberId
  | .checkSessionTimeouts now _ =>
    watched.group.isEmpty = false →
      ∃ id, ∃ member ∈ watched.group.members.find? id, isExpired now member = false
  | .heartbeat memberId generation _ =>
    ∀ member ∈ watched.group.members.find? memberId, generation = member.generation →
      watched.MayBeat memberId member
  | .sync _ _ => True
  | .configure _ _ _ => True

/-- Who has taken part in the generation of the group, as far as its states tell. -/
structure Attested (watched : Watched) (rounds : Bytes → Option Int) : Prop where
  alive : watched.group.state ≠ .dead
  empty_iff : watched.group.state = .empty ↔ watched.group.isEmpty = true
  uniform : watched.group.Uniform
  stable : watched.group.state = .stable → ∀ id, ∀ tag ∈ watched.group.tag id,
    rounds id = some watched.group.generation.toInt
  preparing : watched.group.state = .preparingRebalance → ∀ id, ∀ tag ∈ watched.group.tag id, id ∉ watched.arrived →
    rounds id = some watched.group.generation.toInt
  synced : watched.group.state = .completingRebalance → ∀ id, ∀ tag ∈ watched.group.tag id, tag.2 = false →
    rounds id = some watched.group.generation.toInt
  closed : ∀ id ∈ watched.closed, rounds id = some watched.group.generation.toInt

variable {rounds : Bytes → Option Int} {after : GroupMetadata}

theorem Attested.initial : Attested {} fun _ => none where
  alive := nofun
  empty_iff := ⟨fun _ => rfl, fun _ => rfl⟩
  uniform := by
    intro id tag present
    cases present
  stable := nofun
  preparing := nofun
  synced := nofun
  closed := nofun

theorem Attested.frame (attested : watched.Attested rounds) (state : after.state = watched.group.state)
    (generation : after.generation = watched.group.generation) (tags : ∀ id, after.tag id = watched.group.tag id) :
    Attested { watched with group := after } rounds := by
  have members : after.isEmpty = watched.group.isEmpty := by
    rw [Bool.eq_iff_iff, isEmpty_iff_tag, isEmpty_iff_tag]
    simp only [tags]
  refine ⟨?_, ?_, ?_, ?_, ?_, ?_, ?_⟩
  · exact state.trans_ne attested.alive
  · dsimp only
    rw [state, members]
    exact attested.empty_iff
  · intro id tag present
    dsimp only
    rw [generation]
    exact attested.uniform id tag ((tags id).symm.trans present)
  all_goals dsimp only; rw [generation]
  · rw [state]
    simpa only [tags] using attested.stable
  · rw [state]
    simpa only [tags] using attested.preparing
  · rw [state]
    simpa only [tags] using attested.synced
  · exact attested.closed

theorem told_of_closed (bumped : after.generation ≠ watched.group.generation) {id : Bytes}
    (closed : id ∈ (watched.joinedBy memberId after).closed) :
    (if after.generation ≠ watched.group.generation ∧ id ∈ (watched.joinedBy memberId after).closed then
      some after.generation.toInt else none).or (rounds id) = some after.generation.toInt := by
  rw [if_pos ⟨bumped, closed⟩]
  rfl

theorem told_of_same (same : after.generation = watched.group.generation) :
    (fun id => (if after.generation ≠ watched.group.generation ∧ id ∈ (watched.joinedBy memberId after).closed then
      some after.generation.toInt else none).or (rounds id)) = rounds := by
  funext id
  rw [if_neg fun both => both.1 same]
  rfl

theorem joinedBy_of_bumped (bumped : after.generation ≠ watched.group.generation) :
    watched.joinedBy memberId after =
      { group := after, closed := (memberId :: watched.joined).filter fun id => id ∈ after.members.keys } :=
  if_neg bumped

theorem joinedBy_of_same (same : after.generation = watched.group.generation) :
    watched.joinedBy memberId after =
      { watched with
        group := after
        joined := memberId :: watched.joined
        arrived :=
          if memberId ∈ watched.group.members.keys then watched.arrived else memberId :: watched.arrived } :=
  if_pos same

theorem known_of_not_arrived {id : Bytes} (present : id = memberId ∨ watched.group.tag id ≠ none)
    (not_arrived : id ∉ (if memberId ∈ watched.group.members.keys then watched.arrived
      else memberId :: watched.arrived)) : watched.group.tag id ≠ none ∧ id ∉ watched.arrived := by
  split at not_arrived
  next known =>
    refine ⟨?_, not_arrived⟩
    rcases present with rfl | old
    · exact mem_keys_iff_tag.mp known
    · exact old
  next =>
    rw [mem_cons, not_or] at not_arrived
    exact ⟨present.resolve_left not_arrived.1, not_arrived.2⟩

section

variable (attested : watched.Attested rounds)

include attested

theorem Attested.join
    (outcome : GroupMetadata.JoinOutcome watched.group memberId after) :
    (watched.joinedBy memberId after).Attested fun id =>
      (if after.generation ≠ watched.group.generation ∧ id ∈ (watched.joinedBy memberId after).closed then
        some after.generation.toInt else none).or (rounds id) := by
  cases outcome with
  | first was state generation tags =>
    have bumped : after.generation ≠ watched.group.generation := by
      rw [generation]
      exact Counters.succ_ne _
    have none := isEmpty_iff_tag.mp (attested.empty_iff.mp was)
    have own : after.tag memberId = some (after.generation, false) := (tags memberId).trans (if_pos rfl)
    have only : ∀ id, ∀ tag ∈ after.tag id, id = memberId ∧ tag.1 = after.generation := by
      intro id tag present
      rw [tags id] at present
      split at present
      next same => exact ⟨same, by rw [← Option.some.inj present]⟩
      next => cases (none id).symm.trans present
    have closed : memberId ∈ (watched.joinedBy memberId after).closed := by
      rw [joinedBy_of_bumped bumped, List.mem_filter]
      refine ⟨List.mem_cons_self, decide_eq_true (mem_keys_iff_tag.mpr ?_)⟩
      exact own.trans_ne nofun
    have told := fun id => @told_of_closed watched memberId rounds after bumped id
    rw [joinedBy_of_bumped bumped] at closed told ⊢
    refine ⟨state.trans_ne nofun, iff_of_false (state.trans_ne nofun) ?_, ?_, ?_, ?_, ?_, told⟩
    · rw [isEmpty_eq_false_of_tag own]
      exact nofun
    · exact fun id tag present => (only id tag present).2
    · intro _ id tag present
      rw [(only id tag present).1]
      exact told memberId closed
    · intro preparing
      cases state.symm.trans preparing
    · intro completing
      cases state.symm.trans completing
  | opens was state generation tags =>
    have present_iff : ∀ id, ∀ tag ∈ after.tag id,
        tag.1 = watched.group.generation ∧ (id = memberId ∨ watched.group.tag id ≠ none) := by
      intro id tag present
      rw [tags id] at present
      split at present
      next same => exact ⟨by rw [← Option.some.inj present], .inl same⟩
      next =>
        obtain ⟨old, found, rfl⟩ := map_eq_some_iff.mp present
        exact ⟨rfl, .inr (found.trans_ne nofun)⟩
    rw [told_of_same generation, joinedBy_of_same generation]
    refine ⟨state.trans_ne nofun, iff_of_false (state.trans_ne nofun) ?_, ?_, ?_, ?_, ?_, ?_⟩
    · rw [isEmpty_eq_false_of_tag ((tags memberId).trans (if_pos rfl))]
      exact nofun
    · intro id tag present
      exact (present_iff id tag present).1.trans generation.symm
    · intro stable
      cases state.symm.trans stable
    · intro _ id tag present not_arrived
      dsimp only
      rw [generation]
      obtain ⟨old, -⟩ := known_of_not_arrived (present_iff id tag present).2 not_arrived
      obtain ⟨before, found⟩ := ne_none_iff_exists'.mp old
      exact attested.stable was id before found
    · intro completing
      cases state.symm.trans completing
    · intro id closed
      dsimp only
      rw [generation]
      exact attested.closed id closed
  | closes was state generation tags =>
    have bumped : after.generation ≠ watched.group.generation := by
      rw [generation]
      exact Counters.succ_ne _
    have pending : ∀ id, ∀ tag ∈ after.tag id, tag = (after.generation, true) := by
      intro id tag present
      rw [tags id] at present
      split at present
      next => exact (Option.some.inj present).symm
      next =>
        obtain ⟨old, -, rfl⟩ := map_eq_some_iff.mp present
        rfl
    have told := fun id => @told_of_closed watched memberId rounds after bumped id
    rw [joinedBy_of_bumped bumped] at told ⊢
    refine ⟨state.trans_ne nofun, iff_of_false (state.trans_ne nofun) ?_, ?_, ?_, ?_, ?_, told⟩
    · rw [isEmpty_eq_false_of_tag ((tags memberId).trans (if_pos rfl))]
      exact nofun
    · intro id tag present
      rw [pending id tag present]
    · intro stable
      cases state.symm.trans stable
    · intro preparing
      cases state.symm.trans preparing
    · intro _ id tag present synced
      rw [pending id tag present] at synced
      cases synced
  | waits was state generation tags =>
    have occupied : after.state ≠ .empty := by
      rw [state]
      rcases was with preparing | completing
      · exact preparing.trans_ne nofun
      · exact completing.trans_ne nofun
    have present_iff : ∀ id, ∀ tag ∈ after.tag id,
        tag = (watched.group.generation, true) ∧ id = memberId ∨ watched.group.tag id = some tag := by
      intro id tag present
      rw [tags id] at present
      split at present
      next same => exact .inl ⟨(Option.some.inj present).symm, same⟩
      next => exact .inr present
    rw [told_of_same generation, joinedBy_of_same generation]
    refine ⟨state.trans_ne attested.alive, iff_of_false occupied ?_, ?_, ?_, ?_, ?_, ?_⟩
    · rw [isEmpty_eq_false_of_tag ((tags memberId).trans (if_pos rfl))]
      exact nofun
    · intro id tag present
      dsimp only
      rw [generation]
      rcases present_iff id tag present with ⟨rfl, -⟩ | old
      · rfl
      · exact attested.uniform id tag old
    · intro stable
      rcases was with preparing | completing
      · cases (state.trans preparing).symm.trans stable
      · cases (state.trans completing).symm.trans stable
    · intro preparing id tag present not_arrived
      dsimp only
      rw [generation]
      have either := (present_iff id tag present).imp (·.2) fun old => (old.trans_ne nofun : _ ≠ none)
      obtain ⟨old, not_arrived⟩ := known_of_not_arrived either not_arrived
      obtain ⟨before, found⟩ := ne_none_iff_exists'.mp old
      exact attested.preparing (state.symm.trans preparing) id before found not_arrived
    · intro completing id tag present synced
      dsimp only
      rw [generation]
      rcases present_iff id tag present with ⟨rfl, -⟩ | old
      · cases synced
      · exact attested.synced (state.symm.trans completing) id tag old synced
    · intro id closed
      dsimp only
      rw [generation]
      exact attested.closed id closed

theorem Attested.depart (departed : GroupMetadata.Departed watched.group after) :
    Attested { watched with group := after } rounds := by
  have occupied : watched.group.state ≠ .empty := by
    intro empty
    obtain ⟨id, tag, found⟩ := exists_tag departed.members
    obtain ⟨old, listed, -⟩ := departed.tags id tag found
    exact absurd (isEmpty_iff_tag.mp (attested.empty_iff.mp empty) id) (by rw [listed]; exact nofun)
  have state := departed.state
  refine ⟨?_, ?_, ?_, ?_, ?_, ?_, ?_⟩
  · dsimp only
    rw [state]
    split
    next => exact nofun
    next => exact attested.alive
  · dsimp only
    rw [state, departed.members]
    refine iff_of_false ?_ nofun
    split
    next => exact nofun
    next => exact occupied
  · intro id tag present
    obtain ⟨old, listed, same, -⟩ := departed.tags id tag present
    dsimp only
    rw [departed.generation, same]
    exact attested.uniform id old listed
  · intro stable
    dsimp only at stable
    rw [state] at stable
    split at stable
    next => cases stable
    next not_stable => exact absurd stable not_stable
  · intro preparing id tag present not_arrived
    obtain ⟨old, listed, -⟩ := departed.tags id tag present
    dsimp only at preparing ⊢
    rw [departed.generation]
    rw [state] at preparing
    split at preparing
    next stable => exact attested.stable stable id old listed
    next => exact attested.preparing preparing id old listed not_arrived
  · intro completing id tag present synced
    obtain ⟨old, listed, -, still⟩ := departed.tags id tag present
    dsimp only at completing ⊢
    rw [departed.generation]
    rw [state] at completing
    split at completing
    next => cases completing
    next => exact attested.synced completing id old listed (still synced)
  · intro id closed
    dsimp only
    rw [departed.generation]
    exact attested.closed id closed

theorem Attested.sync
    (outcome : GroupMetadata.SyncOutcome watched.group memberId after) :
    Attested { watched with group := after } fun id =>
      (if id = memberId then some after.generation.toInt else none).or (rounds id) := by
  have told : ∀ id, id = memberId ∨ rounds id = some watched.group.generation.toInt →
      (if id = memberId then some after.generation.toInt else none).or (rounds id) = some after.generation.toInt := by
    intro id either
    split
    next => rfl
    next other =>
      rw [outcome.generation]
      exact either.resolve_left other
  have old_tags : ∀ id, ∀ tag ∈ after.tag id, ∃ old ∈ watched.group.tag id, tag.1 = old.1 ∧
      (id = memberId ∨ tag = old) := by
    intro id tag present
    rw [outcome.tags id] at present
    split at present
    next same =>
      obtain ⟨old, found, rfl⟩ := map_eq_some_iff.mp present
      exact ⟨old, same ▸ found, rfl, .inl same⟩
    next => exact ⟨tag, present, rfl, .inr rfl⟩
  have synced : ∀ id, ∀ tag ∈ after.tag id, tag.2 = false →
      (if id = memberId then some after.generation.toInt else none).or (rounds id) = some after.generation.toInt := by
    intro id tag present synced
    obtain ⟨old, listed, -, either⟩ := old_tags id tag present
    refine told id (either.imp_right fun same => ?_)
    exact attested.synced outcome.was id old listed (same ▸ synced)
  have members : after.isEmpty = false := by
    obtain ⟨tag, found⟩ := ne_none_iff_exists'.mp (mem_keys_iff_tag.mp outcome.member)
    have own : after.tag memberId = some (tag.1, false) := by
      rw [outcome.tags memberId, if_pos rfl, found]
      rfl
    exact isEmpty_eq_false_of_tag own
  have occupied : after.state ≠ .empty ∧ after.state ≠ .dead ∧ after.state ≠ .preparingRebalance := by
    rcases outcome.state with completing | ⟨stable, -⟩
    · rw [completing]
      exact ⟨nofun, nofun, nofun⟩
    · rw [stable]
      exact ⟨nofun, nofun, nofun⟩
  refine ⟨occupied.2.1, iff_of_false occupied.1 (by rw [members]; exact nofun), ?_, ?_, ?_, fun _ => synced, ?_⟩
  · intro id tag present
    obtain ⟨old, listed, same, -⟩ := old_tags id tag present
    dsimp only
    rw [outcome.generation, same]
    exact attested.uniform id old listed
  · intro stable id tag present
    rcases outcome.state with completing | ⟨-, all⟩
    · cases completing.symm.trans stable
    · exact synced id tag present (all id tag present)
  · exact fun preparing => absurd preparing occupied.2.2
  · exact fun id closed => told id (.inr (attested.closed id closed))

end

@[simp] theorem joinedBy_group (watched : Watched) (memberId : Bytes) (after : GroupMetadata) :
    (watched.joinedBy memberId after).group = after := by
  unfold joinedBy
  split
  next => rfl
  next => rfl

theorem step_group (watched : Watched) (groupId : Bytes) (call : Call) :
    (watched.step groupId call).group = watched.group.step groupId call := by
  cases call with
  | join memberId now =>
    unfold Watched.step GroupMetadata.step
    dsimp only
    cases watched.group.join groupId memberId now with
    | error error => rfl
    | ok after => exact joinedBy_group watched memberId after
  | _ => rfl

/-- What a call makes of a group, as far as members and generations go. -/
inductive Change (watched : Watched) (after : GroupMetadata) : Prop where
  | none (same : after = watched.group)
  | joins (memberId : Bytes) (outcome : GroupMetadata.JoinOutcome watched.group memberId after)
      (room : watched.group.state ≠ .stable → watched.group.generation ≠ Int32.maxValue)
  | departs (departed : GroupMetadata.Departed watched.group after)
  | keeps (generation : after.generation = watched.group.generation)
      (present : ∀ id, watched.group.tag id ≠ none → after.tag id ≠ none)

section

variable (attested : watched.Attested rounds)

include attested

theorem Attested.leaves {order : IterationOrder Bytes}
    (kept : watched.KeepsMember (.leave memberId order)) :
    watched.group.leave memberId order = watched.group ∨
      GroupMetadata.Departed watched.group (watched.group.leave memberId order) := by
  refine GroupMetadata.leave_cases attested.alive (fun known => ?_) kept
  rw [Ne, attested.empty_iff, GroupMetadata.isEmpty, isEmpty_entries_eq_false known]
  exact nofun

theorem Attested.change {call : Call} (kept : watched.KeepsMember call) :
    Change watched (watched.group.step groupId call) := by
  cases call with
  | join memberId now =>
    cases outcome : watched.group.join groupId memberId now with
    | error error =>
      simp only [GroupMetadata.step, outcome, GroupMetadata.orElse_error]
      exact .none rfl
    | ok after =>
      simp only [GroupMetadata.step, outcome, GroupMetadata.orElse_ok]
      refine .joins memberId (GroupMetadata.join_outcome attested.alive outcome) fun unsettled => kept unsettled ?_
      exact GroupMetadata.room_of_join outcome
  | leave memberId order => exact (attested.leaves kept).elim .none .departs
  | sync memberId partitionCount =>
    cases outcome : watched.group.sync memberId partitionCount with
    | error error =>
      simp only [GroupMetadata.step, outcome, GroupMetadata.orElse_error]
      exact .none rfl
    | ok after =>
      simp only [GroupMetadata.step, outcome, GroupMetadata.orElse_ok]
      have synced := GroupMetadata.sync_outcome outcome
      refine .keeps synced.generation fun id present => ?_
      obtain ⟨tag, found⟩ := ne_none_iff_exists'.mp present
      refine (synced.tags id).trans_ne ?_
      split
      next same => rw [← same, found]; exact nofun
      next => exact present
  | heartbeat memberId generation now =>
    cases outcome : watched.group.heartbeat groupId memberId generation now with
    | error error =>
      simp only [GroupMetadata.step, outcome, GroupMetadata.orElse_error]
      exact .none rfl
    | ok after =>
      simp only [GroupMetadata.step, outcome, GroupMetadata.orElse_ok]
      obtain ⟨-, -, number, tags⟩ := GroupMetadata.heartbeat_outcome outcome
      exact .keeps number fun id present => (tags id).trans_ne present
  | checkSessionTimeouts now order =>
    exact (GroupMetadata.checkSessionTimeouts_cases kept attested.empty_iff.mpr).elim .none .departs
  | configure strategy sessionTimeoutMs topics => exact .keeps rfl fun _ present => present

theorem Attested.step {call : Call} (kept : watched.KeepsMember call) :
    (watched.step groupId call).Attested fun id => (watched.takesPart groupId call id).or (rounds id) := by
  cases call with
  | join memberId now =>
    cases outcome : watched.group.join groupId memberId now with
    | error error =>
      simp only [Watched.step, takesPart, outcome]
      exact attested
    | ok after =>
      simp only [Watched.step, takesPart, outcome]
      exact attested.join (GroupMetadata.join_outcome attested.alive outcome)
  | leave memberId order =>
    rcases attested.leaves kept with same | departed
    · exact attested.frame (congrArg GroupMetadata.state same) (congrArg GroupMetadata.generation same)
        fun id => congrArg (GroupMetadata.tag · id) same
    · exact attested.depart departed
  | sync memberId partitionCount =>
    cases outcome : watched.group.sync memberId partitionCount with
    | error error =>
      simp only [Watched.step, takesPart, GroupMetadata.step, outcome, GroupMetadata.orElse_error]
      exact attested
    | ok after =>
      simp only [Watched.step, takesPart, GroupMetadata.step, outcome, GroupMetadata.orElse_ok]
      exact attested.sync (GroupMetadata.sync_outcome outcome)
  | heartbeat memberId generation now =>
    cases outcome : watched.group.heartbeat groupId memberId generation now with
    | error error =>
      simp only [Watched.step, takesPart, GroupMetadata.step, outcome, GroupMetadata.orElse_error]
      exact attested
    | ok after =>
      obtain ⟨-, state, number, tags⟩ := GroupMetadata.heartbeat_outcome outcome
      simp only [Watched.step, takesPart, GroupMetadata.step, outcome, GroupMetadata.orElse_ok]
      exact attested.frame state number tags
  | checkSessionTimeouts now order =>
    rcases @GroupMetadata.checkSessionTimeouts_cases watched.group order now kept attested.empty_iff.mpr with
      same | departed
    · exact attested.frame (congrArg GroupMetadata.state same) (congrArg GroupMetadata.generation same)
        fun id => congrArg (GroupMetadata.tag · id) same
    · exact attested.depart departed
  | configure strategy sessionTimeoutMs topics => exact attested.frame rfl rfl fun _ => rfl

end

theorem Change.occupied (change : Change watched after) (members : watched.group.isEmpty = false) :
    after.isEmpty = false := by
  cases change with
  | none same => rw [same]; exact members
  | joins memberId outcome room =>
    have own : ∃ tag, after.tag memberId = some tag := by
      cases outcome with
      | first was state generation tags | opens was state generation tags | closes was state generation tags
      | waits was state generation tags => exact ⟨_, (tags memberId).trans (if_pos rfl)⟩
    obtain ⟨tag, present⟩ := own
    exact isEmpty_eq_false_of_tag present
  | departs departed => exact departed.members
  | keeps generation present =>
    obtain ⟨id, tag, found⟩ := exists_tag members
    obtain ⟨now, still⟩ := ne_none_iff_exists'.mp (present id (found.trans_ne nofun))
    exact isEmpty_eq_false_of_tag still

theorem Change.rises (change : Change watched after) : watched.group.generation.toInt ≤ after.generation.toInt := by
  cases change with
  | none same => rw [same]
  | joins memberId outcome room =>
    cases outcome with
    | first was state generation tags =>
      rw [generation]
      exact Counters.toInt_le_succ (room (was.trans_ne nofun))
    | opens was state generation tags => rw [generation]
    | closes was state generation tags =>
      rw [generation]
      refine Counters.toInt_le_succ (room ?_)
      rcases was with preparing | completing
      · exact preparing.trans_ne nofun
      · exact completing.trans_ne nofun
    | waits was state generation tags => rw [generation]
  | departs departed => rw [departed.generation]
  | keeps generation present => rw [generation]

theorem Attested.accepts {member : Bytes} {generation : Int32} {now : Int} (attested : watched.Attested rounds)
    (kept : watched.KeepsMember (.heartbeat member generation now))
    (accepted : ∃ after, watched.group.heartbeat groupId member generation now = .ok after) :
    rounds member = some generation.toInt := by
  obtain ⟨after, beaten⟩ := accepted
  obtain ⟨⟨awaitingSync, own⟩, -⟩ := heartbeat_outcome beaten
  have same : generation = watched.group.generation := attested.uniform member _ own
  obtain ⟨stored, found, tagged⟩ := map_eq_some_iff.mp own
  obtain ⟨rfl, rfl⟩ := Prod.mk.inj tagged
  have may := kept stored found rfl
  unfold MayBeat at may
  rw [same]
  cases state : watched.group.state with
  | dead => exact absurd state attested.alive
  | empty =>
    have none := isEmpty_iff_tag.mp (attested.empty_iff.mp state) member
    cases none.symm.trans own
  | stable => exact attested.stable state member _ own
  | preparingRebalance =>
    rw [state] at may
    exact attested.preparing state member _ own may
  | completingRebalance =>
    rw [state] at may
    rcases may with joined | synced
    · exact attested.closed member joined
    · exact attested.synced state member _ own synced

theorem discipline (groupId : Bytes) :
    (coordinator groupId).Discipline KeepsMember (fun watched => watched.1.Attested watched.2) fun _ => False where
  preserved _ _ kept attested := attested.step kept
  rises watched call kept attested := by
    change watched.1.group.generation.toInt ≤ (watched.1.step groupId call).group.generation.toInt
    rw [step_group]
    exact (attested.change kept).rises
  own_round watched call kept attested member number accepted := by
    cases call with
    | heartbeat memberId generation now =>
      obtain ⟨rfl, rfl, answer⟩ := accepted
      exact attested.accepts kept answer
    | _ => exact accepted.elim
  emptied _ _ kept attested empties :=
    absurd ((attested.change kept).occupied empties.1) (Bool.not_eq_false _ ▸ empties.2)
  stays _ _ _ gone := gone
  vacant _ gone _ := gone

theorem fenced (groupId : Bytes) {calls : List Call}
    (kept : Runs.Meets (step groupId) KeepsMember {} calls) : (coordinator groupId).Fenced {} calls :=
  (discipline groupId).fenced .initial kept

end Watched

end TorrentMq.Broker.ConsumerGroups
