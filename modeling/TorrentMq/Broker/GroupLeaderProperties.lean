import TorrentMq.Broker.ConsumerGroupManager
import TorrentMq.Collections.Leadership

/-! Every group of the manager that has members has one leader among them. -/

set_option autoImplicit false

namespace TorrentMq.Broker.ConsumerGroups

open Bytes Collections List OrderedMap Option ConsumerGroupManager

namespace GroupMetadata

abbrev leads (group : GroupMetadata) (id : Bytes) : Option Bool := flagOf GroupMember.isLeader group.members id

/-- One member has the flag, the one that the group names. -/
def HasLeader (group : GroupMetadata) : Prop := Leads GroupMember.isLeader group.members group.leaderId

variable {group : GroupMetadata}

theorem HasLeader.intro (named : group.leads group.leaderId = some true)
    (only : ∀ id, group.leads id = some true → id = group.leaderId) : group.HasLeader := ⟨named, only⟩

theorem HasLeader.named (leader : group.HasLeader) : group.leads group.leaderId = some true := Leads.named leader

theorem HasLeader.only (leader : group.HasLeader) :
    ∀ id, group.leads id = some true → id = group.leaderId := Leads.only leader

structure Valid (group : GroupMetadata) : Prop where
  alive : group.state ≠ .dead
  empty_iff : group.state = .empty ↔ group.isEmpty = true
  led : group.isEmpty = false → group.HasLeader
  nameless : group.leads [] = none

variable {group : GroupMetadata} {memberId : Bytes} {order : IterationOrder Bytes}

theorem Valid.initial : Valid {} where
  alive := nofun
  empty_iff := ⟨fun _ => rfl, fun _ => rfl⟩
  led := nofun
  nameless := rfl

theorem HasLeader.valid (leader : group.HasLeader) (alive : group.state ≠ .dead) (occupied : group.state ≠ .empty)
    (nameless : group.leads [] = none) : group.Valid where
  alive := alive
  empty_iff := by simp [occupied, isEmpty, isEmpty_eq_false_of_flagOf leader.named]
  led := fun _ => leader
  nameless := nameless

theorem Valid.hasLeader (valid : group.Valid) (occupied : group.state ≠ .empty) : group.HasLeader := by
  cases members : group.isEmpty with
  | false => exact valid.led members
  | true => exact absurd (valid.empty_iff.mpr members) occupied

variable {after : GroupMetadata}

theorem HasLeader.of_flags (leader : group.HasLeader)
    (same_leader : after.leaderId = group.leaderId) (same_flags : ∀ id, after.leads id = group.leads id) :
    after.HasLeader := by
  rw [HasLeader, same_leader]
  exact leader.congr same_flags

theorem Valid.of_flags (valid : group.Valid) (alive : after.state ≠ .dead)
    (same_state : after.state = .empty ↔ group.state = .empty) (same_leader : after.leaderId = group.leaderId)
    (same_flags : ∀ id, after.leads id = group.leads id) : after.Valid := by
  have same_members : after.isEmpty = group.isEmpty := isEmpty_congr same_flags
  refine ⟨alive, ?_, ?_, ?_⟩
  · rw [same_state, same_members]
    exact valid.empty_iff
  · intro members
    exact (valid.led (same_members.symm.trans members)).of_flags same_leader same_flags
  · rw [same_flags]
    exact valid.nameless

theorem HasLeader.elect (member : group.leads memberId ≠ none)
    (alone : ∀ id, group.leads id = some true → id = memberId) : (group.elect memberId).HasLeader :=
  Leads.elect (fun _ => rfl) member alone

theorem leads_elect_eq_none {id : Bytes} (absent : group.leads id = none) :
    (group.elect memberId).leads id = none := by
  refine (flagOf_modify_set (fun _ => rfl) id).trans ?_
  split
  next same =>
    rw [← same]
    exact congrArg (Option.map _) absent
  next => exact absent

variable {groupId : Bytes} {now : Int}

theorem refreshOrAdd_spec (admitted : group.refreshOrAdd groupId memberId now = .ok after) :
    after.state = group.state ∧ after.leaderId = group.leaderId ∧
      ∀ id, after.leads id = if id = memberId then some ((group.leads memberId).getD false) else group.leads id := by
  unfold refreshOrAdd at admitted
  cases found : group.members.find? memberId with
  | some member =>
    simp only [found] at admitted
    cases admitted
    have known : group.leads memberId = some member.isLeader := by rw [leads, flagOf, found]; rfl
    refine ⟨rfl, rfl, fun id => (flagOf_insert id).trans ?_⟩
    rw [known]
    rfl
  | none =>
    simp only [found] at admitted
    split at admitted
    next => cases admitted
    next =>
      cases admitted
      have unknown : group.leads memberId = none := by rw [leads, flagOf, found]; rfl
      refine ⟨rfl, rfl, fun id => (flagOf_insert id).trans ?_⟩
      rw [unknown]
      rfl

theorem HasLeader.refreshOrAdd (leader : group.HasLeader)
    (admitted : group.refreshOrAdd groupId memberId now = .ok after) : after.HasLeader := by
  obtain ⟨-, same_leader, flags⟩ := refreshOrAdd_spec admitted
  refine .intro ?_ ?_
  · rw [same_leader, flags]
    split
    next same => rw [← same, leader.named]; rfl
    next => exact leader.named
  · intro id flag
    rw [flags] at flag
    rw [same_leader]
    split at flag
    next same =>
      apply leader.only id
      rw [same]
      cases known : group.leads memberId with
      | none =>
        rw [known] at flag
        cases flag
      | some old =>
        rw [known] at flag
        exact flag
    next => exact leader.only id flag

theorem HasLeader.not_leaderless (leader : group.HasLeader) (nameless : group.leads [] = none) :
    group.isLeaderless = false := by
  have member : group.hasMember group.leaderId = true := mem_keys_iff_isSome.mp leader.iff.1
  unfold isLeaderless
  rw [member]
  cases id : group.leaderId with
  | nil =>
    have named : group.leads group.leaderId = some true := leader.named
    rw [id, nameless] at named
    cases named
  | cons byte bytes => rfl

theorem leads_awaitMembers (id : Bytes) : group.awaitMembers.leads id = group.leads id :=
  flagOf_mapValues (fun _ _ => by rfl) id

section

variable (leader : group.HasLeader) (alive : group.state ≠ .dead) (occupied : group.state ≠ .empty)

include leader alive occupied

theorem HasLeader.completeJoin (nameless : group.leads [] = none) : group.completeJoin.Valid := by
  unfold GroupMetadata.completeJoin
  split
  next =>
    exact HasLeader.valid (leader.of_flags rfl leads_awaitMembers) nofun nofun ((leads_awaitMembers []).trans nameless)
  next => exact leader.valid alive occupied nameless

theorem HasLeader.afterJoin (nameless : group.leads [] = none) : (group.afterJoin memberId).Valid := by
  have led := leader.not_leaderless nameless
  unfold GroupMetadata.afterJoin
  cases state : group.state with
  | empty => exact absurd state occupied
  | dead => exact absurd state alive
  | stable =>
    have again : (group.elect group.leaderId).HasLeader :=
      .elect (by simp [leader.named]) leader.only
    simp only [led, Bool.false_eq_true, if_false]
    exact HasLeader.valid (again.of_flags rfl leads_awaitMembers) nofun nofun
      ((leads_awaitMembers []).trans (leads_elect_eq_none nameless))
  | preparingRebalance | completingRebalance =>
    simp only [led, Bool.false_eq_true, if_false]
    exact leader.completeJoin alive occupied nameless

end

theorem afterJoin_empty (empty : group.state = .empty) (member : group.leads memberId ≠ none)
    (alone : ∀ id, group.leads id = some true → id = memberId) (nameless : group.leads [] = none) :
    (group.afterJoin memberId).Valid := by
  have leader : (group.elect memberId).HasLeader := .elect member alone
  have flags : ∀ id, (group.afterJoin memberId).leads id = (group.elect memberId).leads id := by
    intro id
    unfold GroupMetadata.afterJoin
    simp only [empty]
    exact flagOf_modify (fun _ => by rfl) id
  have settled : (group.afterJoin memberId).state = .stable ∧ (group.afterJoin memberId).leaderId = memberId := by
    unfold GroupMetadata.afterJoin
    rw [empty]
    exact ⟨rfl, rfl⟩
  refine (leader.of_flags settled.2 flags).valid ?_ ?_ ((flags []).trans (leads_elect_eq_none nameless))
  · rw [settled.1]
    exact nofun
  · rw [settled.1]
    exact nofun

theorem Valid.join (valid : group.Valid)
    (named : memberId ≠ []) (joined : group.join groupId memberId now = .ok after) : after.Valid := by
  unfold GroupMetadata.join at joined
  rw [if_neg valid.alive] at joined
  cases admitted : group.refreshOrAdd groupId memberId now with
  | error error =>
    rw [admitted] at joined
    cases joined
  | ok admittedGroup =>
    rw [admitted] at joined
    obtain rfl := Except.ok.inj joined
    obtain ⟨same_state, -, flags⟩ := refreshOrAdd_spec admitted
    have nameless : admittedGroup.leads [] = none := by
      rw [flags, if_neg (Ne.symm named)]
      exact valid.nameless
    by_cases empty : group.state = .empty
    · have none : ∀ id, group.leads id = none := (isEmpty_iff_flagOf _).mp (valid.empty_iff.mp empty)
      refine afterJoin_empty (same_state.trans empty) ?_ ?_ nameless
      · rw [flags, if_pos rfl]
        exact nofun
      · intro id flag
        rw [flags] at flag
        split at flag
        next same => exact same
        next =>
          rw [none] at flag
          cases flag
    · refine HasLeader.afterJoin ((valid.hasLeader empty).refreshOrAdd admitted) ?_ ?_ nameless
      · rw [same_state]
        exact valid.alive
      · rw [same_state]
        exact empty

theorem leads_markForRejoin (id : Bytes) : group.markForRejoin.leads id = group.leads id :=
  flagOf_mapValues (fun _ _ => by rfl) id

theorem afterDeparture_valid {remaining : GroupMetadata} {leaderRemoved : Bool} (leader : group.HasLeader)
    (alive : group.state ≠ .dead) (occupied : group.state ≠ .empty) (nameless : group.leads [] = none)
    (same_state : remaining.state = group.state) (same_leader : remaining.leaderId = group.leaderId)
    (flags : ∀ id, remaining.leads id = none ∨ remaining.leads id = group.leads id)
    (leader_gone : leaderRemoved = true ↔ remaining.leads group.leaderId = none) :
    (remaining.afterDeparture leaderRemoved order).Valid := by
  have still_nameless : remaining.leads [] = none := by
    rcases flags [] with gone | same
    · exact gone
    · exact same.trans nameless
  have only : ∀ id, remaining.leads id = some true → id = group.leaderId := by
    intro id flag
    rcases flags id with gone | same
    · rw [gone] at flag
      cases flag
    · exact leader.only id (same.symm.trans flag)
  unfold afterDeparture
  cases members : remaining.isEmpty with
  | true =>
    refine ⟨nofun, ?_, ?_, still_nameless⟩
    · exact ⟨fun _ => members, fun _ => rfl⟩
    · intro occupied
      exact absurd (members.symm.trans occupied) (by decide)
  | false =>
    have led : (if leaderRemoved then remaining.elect (remaining.firstMember order) else remaining).HasLeader := by
      split
      next removed =>
        refine .elect (flagOf_firstKey order [] members) ?_
        intro id flag
        have same := only id flag
        rw [same, leader_gone.mp removed] at flag
        cases flag
      next kept =>
        have stays := (flags group.leaderId).resolve_left fun gone => kept (leader_gone.mpr gone)
        refine .intro ?_ ?_
        · rw [same_leader, stays]
          exact leader.named
        · rw [same_leader]
          exact only
    have led_nameless :
        (if leaderRemoved then remaining.elect (remaining.firstMember order) else remaining).leads [] = none := by
      split
      next => exact leads_elect_eq_none still_nameless
      next => exact still_nameless
    have led_state : (if leaderRemoved then remaining.elect (remaining.firstMember order) else remaining).state =
        group.state := by
      split
      next => exact same_state
      next => exact same_state
    rw [if_neg nofun]
    cases state : group.state with
    | empty => exact absurd state occupied
    | dead => exact absurd state alive
    | stable =>
      have elected : (if leaderRemoved then
          GroupMetadata.elect { remaining with state := .preparingRebalance } (remaining.firstMember order)
            else { remaining with state := .preparingRebalance }) =
          { (if leaderRemoved then remaining.elect (remaining.firstMember order) else remaining) with
            state := .preparingRebalance } := by
        split
        next => rfl
        next => rfl
      simp only [same_state, state]
      exact elected ▸ HasLeader.valid (led.of_flags rfl leads_markForRejoin) nofun nofun
        ((leads_markForRejoin []).trans led_nameless)
    | preparingRebalance | completingRebalance =>
      simp only [same_state, state]
      exact led.valid (led_state.trans_ne alive) (led_state.trans_ne occupied) led_nameless

theorem Valid.leave (valid : group.Valid) : (group.leave memberId order).Valid := by
  unfold GroupMetadata.leave
  cases found : group.members.find? memberId with
  | none => exact valid
  | some member =>
    have flag : group.leads memberId = some member.isLeader := by rw [leads, flagOf, found]; rfl
    have occupied : group.state ≠ .empty := by
      rw [Ne, valid.empty_iff, isEmpty, isEmpty_eq_false_of_flagOf flag]
      decide
    have leader := valid.hasLeader occupied
    have gone : ∀ id, leads { group with members := group.members.erase memberId } id =
        if id = memberId then none else group.leads id := fun id => flagOf_erase id
    refine afterDeparture_valid leader valid.alive occupied valid.nameless rfl rfl ?_ ?_
    · intro id
      rw [gone]
      split
      next => exact .inl rfl
      next => exact .inr rfl
    · rw [gone]
      constructor
      · intro led
        rw [led] at flag
        rw [if_pos (leader.only memberId flag).symm]
      · intro none
        split at none
        next same =>
          have named := leader.named
          rw [same, flag] at named
          exact Option.some.inj named
        next =>
          rw [leader.named] at none
          cases none

theorem Valid.checkSessionTimeouts (valid : group.Valid) : (group.checkSessionTimeouts now order).Valid := by
  unfold GroupMetadata.checkSessionTimeouts
  split
  next => exact valid
  next live =>
    rw [not_or] at live
    dsimp only
    split
    next => exact valid
    next =>
      have leader := valid.hasLeader live.2
      have gone : ∀ id, leads { group with
          members := group.members.filter fun id =>
            id ∉ (group.members.entries.filter fun entry => isExpired now entry.2).map Prod.fst } id =
          if id ∉ (group.members.entries.filter fun entry => isExpired now entry.2).map Prod.fst then group.leads id
            else none := by
        intro id
        refine (flagOf_filter id).trans ?_
        simp only [decide_eq_true_eq]
      refine afterDeparture_valid leader live.1 live.2 valid.nameless rfl rfl ?_ ?_
      · intro id
        rw [gone]
        split
        next => exact .inr rfl
        next => exact .inl rfl
      · -- the flag of the member that is removed and the name of the group say the same
        rw [gone]
        obtain ⟨stored, found, flagged⟩ := map_eq_some_iff.mp leader.named
        constructor
        · intro removed
          obtain ⟨entry, listed, led⟩ := any_eq_true.mp removed
          have member := OrderedMap.find?_eq_some_iff.mpr (List.mem_filter.mp listed).1
          have same := leader.only entry.1 (by rw [leads, flagOf, member, ← led]; rfl)
          rw [if_neg]
          rw [not_not, ← same]
          exact List.mem_map_of_mem listed
        · intro none
          split at none
          next =>
            rw [leader.named] at none
            cases none
          next removed =>
            rw [not_not] at removed
            obtain ⟨entry, listed, same⟩ := mem_map.mp removed
            have member := OrderedMap.find?_eq_some_iff.mpr (List.mem_filter.mp listed).1
            rw [same, found] at member
            obtain rfl := Option.some.inj member
            exact any_eq_true.mpr ⟨entry, listed, flagged⟩

theorem leads_applyAssignments {assignments : Assignors.PartitionAssignment} (id : Bytes) :
    (group.applyAssignments assignments).leads id = group.leads id := by
  refine flagOf_mapValues (fun key member => ?_) id
  split
  next => rfl
  next => rfl

variable {partitionCount : Bytes → Int}

theorem HasLeader.afterSync (leader : group.HasLeader)
    (alive : group.state ≠ .dead) (occupied : group.state ≠ .empty) (nameless : group.leads [] = none) :
    (group.afterSync partitionCount).Valid := by
  unfold GroupMetadata.afterSync
  split
  next =>
    exact HasLeader.valid (leader.of_flags rfl leads_applyAssignments) nofun nofun
      ((leads_applyAssignments []).trans nameless)
  next => exact leader.valid alive occupied nameless

theorem Valid.sync (valid : group.Valid)
    (synced : group.sync memberId partitionCount = .ok after) : after.Valid := by
  unfold GroupMetadata.sync at synced
  split at synced
  next => cases synced
  next completing =>
    rw [not_not] at completing
    have occupied : group.state ≠ .empty := by
      rw [completing]
      exact nofun
    cases found : group.members.find? memberId with
    | none =>
      rw [found] at synced
      cases synced
    | some member =>
      rw [found] at synced
      cases synced
      have marked : ∀ id, flagOf GroupMember.isLeader
          (group.members.insert memberId { member with awaitingSync := false }) id = group.leads id :=
        flagOf_insert_same found rfl
      exact HasLeader.afterSync ((valid.hasLeader occupied).of_flags rfl marked) valid.alive occupied
        ((marked []).trans valid.nameless)

theorem Valid.heartbeat {generation : Int32}
    (valid : group.Valid) (beat : group.heartbeat groupId memberId generation now = .ok after) : after.Valid := by
  unfold GroupMetadata.heartbeat at beat
  cases found : group.members.find? memberId with
  | none =>
    rw [found] at beat
    cases beat
  | some member =>
    rw [found] at beat
    dsimp only at beat
    split at beat
    next => cases beat
    next =>
      cases beat
      exact valid.of_flags valid.alive Iff.rfl rfl (flagOf_insert_same found rfl)

end GroupMetadata

namespace ConsumerGroupManager

def Valid (manager : ConsumerGroupManager) : Prop :=
  ∀ groupId group, manager.groups.find? groupId = some group → group.Valid

variable {manager : ConsumerGroupManager} {groupId memberId : Bytes} {group : GroupMetadata}

section

variable (valid : manager.Valid)

include valid

theorem Valid.setGroup (good : group.Valid) : (manager.setGroup groupId group).Valid := by
  intro other stored found
  rw [ConsumerGroupManager.setGroup, find?_insert] at found
  split at found
  next =>
    cases found
    exact good
  next => exact valid other stored found

theorem Valid.update {outcome : Except GroupError GroupMetadata}
    (good : ∀ group, outcome = .ok group → group.Valid) : (manager.update groupId outcome).1.Valid := by
  cases outcome with
  | ok group => exact valid.setGroup (good group rfl)
  | error => exact valid

theorem Valid.modify {change : GroupMetadata → GroupMetadata}
    (good : ∀ group : GroupMetadata, group.Valid → (change group).Valid) :
    Valid { manager with groups := manager.groups.modify groupId change } := by
  intro other stored found
  rw [find?_modify] at found
  split at found
  next =>
    obtain ⟨group, old, rfl⟩ := map_eq_some_iff.mp found
    exact good group (valid groupId group old)
  next => exact valid other stored found

theorem Valid.ensureGroup {created : ConsumerGroupManager}
    (ensured : manager.ensureGroup groupId = some (created, group)) : created.Valid ∧ group.Valid := by
  unfold ConsumerGroupManager.ensureGroup at ensured
  cases found : manager.groups.find? groupId with
  | some stored =>
    rw [found] at ensured
    cases ensured
    exact ⟨valid, valid groupId _ found⟩
  | none =>
    rw [found] at ensured
    dsimp only at ensured
    split at ensured
    next => cases ensured
    next =>
      cases ensured
      exact ⟨valid.setGroup .initial, .initial⟩

theorem Valid.joinGroup {now : Int} : (manager.joinGroup groupId memberId now).1.Valid := by
  unfold ConsumerGroupManager.joinGroup
  split
  next => exact valid
  next =>
    split
    next => exact valid
    next named =>
      cases ensured : manager.ensureGroup groupId with
      | none => exact valid
      | some pair =>
        obtain ⟨created, group⟩ := pair
        obtain ⟨valid, good⟩ := valid.ensureGroup ensured
        exact valid.update fun after joined => good.join (by simpa using named) joined

end

end ConsumerGroupManager

theorem step_valid {manager : ConsumerGroupManager} (valid : manager.Valid) (event : Event) :
    (step manager event).Valid := by
  cases event with
  | joinGroup groupId memberId now => exact valid.joinGroup
  | leaveGroup groupId memberId order =>
    change (manager.leaveGroup groupId memberId order).1.Valid
    unfold leaveGroup
    cases found : manager.groups.find? groupId with
    | none => exact valid
    | some group => exact valid.setGroup (valid groupId group found).leave
  | syncGroup groupId memberId partitionCount =>
    change (manager.syncGroup groupId memberId partitionCount).1.Valid
    unfold syncGroup
    cases found : manager.groups.find? groupId with
    | none => exact valid
    | some group => exact valid.update fun after synced => (valid groupId group found).sync synced
  | heartbeat groupId memberId generation now =>
    change (manager.heartbeat groupId memberId generation now).1.Valid
    unfold heartbeat
    cases found : manager.groups.find? groupId with
    | none => exact valid
    | some group => exact valid.update fun after beat => (valid groupId group found).heartbeat beat
  | checkSessionTimeouts now order =>
    intro groupId after found
    rw [step, checkSessionTimeouts, find?_mapValues] at found
    obtain ⟨group, stored, rfl⟩ := map_eq_some_iff.mp found
    exact (valid groupId group stored).checkSessionTimeouts
  | subscribeTopic groupId topic | unsubscribeTopic groupId topic | setSessionTimeout groupId timeoutMs =>
    exact valid.modify fun group good => good.of_flags good.alive Iff.rfl rfl fun _ => rfl
  | setGroupProtocol groupId protocolName =>
    change (manager.setGroupProtocol groupId protocolName).1.Valid
    unfold setGroupProtocol
    cases found : manager.groups.find? groupId with
    | none => exact valid
    | some group =>
      have good := valid groupId group found
      dsimp only
      split
      next => exact valid.setGroup (good.of_flags good.alive Iff.rfl rfl fun _ => rfl)
      next => exact valid

theorem run_valid (events : List Event) : (Runs.run step {} events).Valid := by
  have steps : Runs.Meets step (fun _ _ => True) {} events := Runs.meets_of_forall (fun _ _ => trivial) _
  exact steps.preserves ConsumerGroupManager.Valid (fun _ event _ valid => step_valid valid event)
    fun _ _ none => by cases none

/-- A group is empty exactly when it says so, and otherwise its leader is the one member that has the flag. -/
theorem run_groupLeader (events : List Event) (groupId : Bytes) (group : GroupMetadata)
    (found : (Runs.run step {} events).groups.find? groupId = some group) :
    (group.state = .empty ↔ group.members.keys = []) ∧
      (group.members.keys ≠ [] →
        group.leaderId ∈ group.members.keys ∧
          ∀ id member, group.members.find? id = some member → (member.isLeader = true ↔ id = group.leaderId)) := by
  have valid := run_valid events groupId group found
  have empty : group.isEmpty = true ↔ group.members.keys = [] := by
    rw [GroupMetadata.isEmpty, List.isEmpty_iff, OrderedMap.keys, map_eq_nil_iff]
  refine ⟨valid.empty_iff.trans empty, ?_⟩
  intro members
  have leader := valid.led (by rwa [← Bool.not_eq_true, empty])
  exact leader.iff

/-- The leader "m" leaves a group of three. -/
def departure : List Event :=
  [.joinGroup [103] [109] 0, .joinGroup [103] [110] 1, .joinGroup [103] [111] 2,
    .leaveGroup [103] [109] (.ascending _)]

theorem run_groupLeader_departure :
    ∃ group, (Runs.run step {} departure).groups.find? [103] = some group ∧ group.leaderId ∈ group.members.keys := by
  have present : ((Runs.run step {} departure).groups.find? [103]).map (·.members.keys) = some [[110], [111]] := by
    decide
  obtain ⟨group, found, keys⟩ := map_eq_some_iff.mp present
  exact ⟨group, found, ((run_groupLeader departure [103] group found).2 (by rw [keys]; decide)).1⟩

end TorrentMq.Broker.ConsumerGroups
