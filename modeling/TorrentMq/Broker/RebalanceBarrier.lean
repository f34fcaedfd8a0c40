import TorrentMq.Broker.GenerationProperties

/-! When a rebalance of a group of the manager waits for all members. -/

set_option autoImplicit false

namespace TorrentMq.Broker.ConsumerGroups

open Bytes Collections Runs List OrderedMap Option GroupMetadata ConsumerGroupManager

namespace GroupMetadata

variable {group after : GroupMetadata} {groupId memberId : Bytes} {now : Int} {order : IterationOrder Bytes}

def Fits (group : GroupMetadata) : Prop := (group.members.size : Int) ≤ kMaxMembersPerGroup.toInt

theorem memberCount_toInt (fits : group.Fits) : group.memberCount.toInt = group.members.size := by
  have few : (group.members.size : Int) ≤ 10000 := fits
  exact Int32.toInt_ofNat_of_lt (by omega)

theorem fits_of_keys (fits : group.Fits) (fewer : ∀ id ∈ after.members.keys, id ∈ group.members.keys) :
    after.Fits := by
  have size := size_le_of_keys fewer
  rw [OrderedMap.keys, length_map] at size
  exact (Int.ofNat_le.mpr size).trans fits

theorem allMembersJoined_of_uniform (uniform : group.Uniform) : group.allMembersJoined = true := by
  refine all_eq_true.mpr fun entry listed => decide_eq_true ?_
  refine uniform entry.1 (entry.2.generation, entry.2.awaitingSync) ?_
  rw [tag, find?_eq_some_iff.mpr listed]
  rfl

theorem completeJoin_state (uniform : group.Uniform) (fits : group.Fits) (joined : memberId ∈ group.members.keys) :
    group.completeJoin.state = .completingRebalance := by
  have some_member : 0 < group.memberCount := by
    rw [Int32.lt_iff_toInt_lt, memberCount_toInt fits]
    obtain ⟨value, listed⟩ := mem_keys.mp joined
    exact Int.natCast_pos.mpr (length_pos_of_mem listed)
  unfold completeJoin
  rw [if_pos ⟨allMembersJoined_of_uniform uniform, some_member⟩]
  rfl

theorem mem_keys_refreshOrAdd {id : Bytes} (admitted : group.refreshOrAdd groupId memberId now = .ok after) :
    id ∈ after.members.keys ↔ id = memberId ∨ id ∈ group.members.keys := by
  obtain ⟨-, -, awaitingSync, -, tags⟩ := refreshOrAdd_tags admitted
  rw [mem_keys_iff_tag, mem_keys_iff_tag, tags]
  split
  next own => exact iff_of_true nofun (.inl own)
  next other => exact (or_iff_right other).symm

theorem fits_refreshOrAdd (fits : group.Fits) (admitted : group.refreshOrAdd groupId memberId now = .ok after) :
    after.Fits := by
  by_cases known : memberId ∈ group.members.keys
  · refine fits_of_keys fits fun id listed => ?_
    rcases (mem_keys_refreshOrAdd admitted).mp listed with rfl | old
    · exact known
    · exact old
  · have absent := find?_eq_none_iff_not_mem_keys.mpr known
    have room : ¬kMaxMembersPerGroup ≤ group.memberCount := by
      intro full
      rw [refreshOrAdd, absent] at admitted
      dsimp only at admitted
      rw [if_pos full] at admitted
      cases admitted
    rw [Int32.not_le, Int32.lt_iff_toInt_lt, memberCount_toInt fits] at room
    have size := size_le_of_keys fun id listed =>
      mem_cons.mpr ((mem_keys_refreshOrAdd admitted).mp listed)
    rw [length_cons, OrderedMap.keys, length_map] at size
    have bound : (after.members.size : Int) ≤ group.members.size + 1 := by exact_mod_cast size
    exact bound.trans room

theorem join_completes (uniform : group.Uniform) (fits : group.Fits)
    (was : group.state = .preparingRebalance ∨ group.state = .completingRebalance)
    (joined : group.join groupId memberId now = .ok after) : after.state = .completingRebalance := by
  have alive : group.state ≠ .dead := by
    rcases was with preparing | completing
    · exact preparing.trans_ne nofun
    · exact completing.trans_ne nofun
  obtain ⟨admitted, admission, rfl⟩ := join_admits alive joined
  obtain ⟨state, generation, awaitingSync, -, tags⟩ := refreshOrAdd_tags admission
  have member : memberId ∈ admitted.members.keys := (mem_keys_refreshOrAdd admission).mpr (.inl rfl)
  have current : admitted.Uniform := by
    intro id tag present
    rw [generation]
    rw [tags] at present
    split at present
    next => rw [← Option.some.inj present]
    next => exact uniform id tag present
  have completes : (if admitted.isLeaderless then admitted.elect memberId else admitted).completeJoin.state =
      .completingRebalance := by
    split
    next =>
      have elected : memberId ∈ (admitted.elect memberId).members.keys := by
        rw [mem_keys_iff_tag, tag_elect]
        exact mem_keys_iff_tag.mp member
      refine completeJoin_state (fun id tag present => ?_)
        (fits_of_keys (fits_refreshOrAdd fits admission) fun id => ?_)
        elected
      · exact current id tag ((tag_elect memberId id).symm.trans present)
      · rw [mem_keys_iff_tag, mem_keys_iff_tag, tag_elect]
        exact fun listed => listed
    next => exact completeJoin_state current (fits_refreshOrAdd fits admission) member
  unfold afterJoin
  rw [state]
  rcases was with preparing | completing
  · rw [preparing]
    exact completes
  · rw [completing]
    exact completes

theorem join_of_room (alive : group.state ≠ .dead)
    (room : memberId ∈ group.members.keys ∨ group.memberCount < kMaxMembersPerGroup) :
    ∃ after, group.join groupId memberId now = .ok after := by
  unfold join
  rw [if_neg alive]
  unfold refreshOrAdd
  cases found : group.members.find? memberId with
  | some member => exact ⟨_, rfl⟩
  | none =>
    have unknown := find?_eq_none_iff_not_mem_keys.mp found
    dsimp only
    rw [if_neg (Int32.not_le.mpr (room.resolve_left unknown))]
    exact ⟨_, rfl⟩

theorem JoinOutcome.mem_keys (outcome : JoinOutcome group memberId after) (id : Bytes) :
    id ∈ after.members.keys ↔ id = memberId ∨ id ∈ group.members.keys := by
  have of_tags {own : Int32 × Bool} {other : Option (Int32 × Bool)} (absent : other = none ↔ group.tag id = none)
      (tags : after.tag id = if id = memberId then some own else other) :
      id ∈ after.members.keys ↔ id = memberId ∨ id ∈ group.members.keys := by
    rw [mem_keys_iff_tag, mem_keys_iff_tag, tags]
    split
    next same => exact iff_of_true nofun (.inl same)
    next differs => rw [or_iff_right differs, Ne, absent]
  cases outcome with
  | first was state generation tags | waits was state generation tags => exact of_tags Iff.rfl (tags id)
  | opens was state generation tags | closes was state generation tags => exact of_tags map_eq_none_iff (tags id)

theorem fits_join (fits : group.Fits) (alive : group.state ≠ .dead)
    (joined : group.join groupId memberId now = .ok after) : after.Fits := by
  have outcome := join_outcome alive joined
  obtain ⟨admitted, admission, -⟩ := join_admits alive joined
  refine fits_of_keys (fits_refreshOrAdd fits admission) fun id listed => ?_
  exact (mem_keys_refreshOrAdd admission).mpr ((outcome.mem_keys id).mp listed)

@[simp] theorem keys_elect (memberId : Bytes) (id : Bytes) :
    id ∈ (group.elect memberId).members.keys ↔ id ∈ group.members.keys := by
  rw [mem_keys_iff_tag, mem_keys_iff_tag, tag_elect]

theorem mem_keys_afterDeparture (leaderRemoved : Bool) (id : Bytes) :
    id ∈ (group.afterDeparture leaderRemoved order).members.keys ↔ id ∈ group.members.keys := by
  have marked (group : GroupMetadata) : id ∈ group.markForRejoin.members.keys ↔ id ∈ group.members.keys := by
    rw [mem_keys_iff_tag, mem_keys_iff_tag, tag_markForRejoin, Ne, map_eq_none_iff]
  unfold afterDeparture
  split
  next => rfl
  next =>
    cases group.state with
    | stable =>
      refine (marked _).trans ?_
      split
      next => exact keys_elect _ id
      next => rfl
    | preparingRebalance | completingRebalance =>
      dsimp only
      split
      next => exact keys_elect _ id
      next => rfl
    | empty => rfl
    | dead => rfl

/-!
## Departures
-/

structure Departure (group : GroupMetadata) (gone : Bytes → Prop) (after : GroupMetadata) : Prop where
  keys : ∀ id, id ∈ after.members.keys ↔ id ∈ group.members.keys ∧ ¬gone id
  outcome : after.state = .empty ∧ after.isEmpty = true ∨ Departed group after

theorem isEmpty_iff_keys : group.isEmpty = true ↔ ∀ id, id ∉ group.members.keys := by
  simp only [isEmpty_iff_tag, mem_keys_iff_tag, not_not]

variable {gone : Bytes → Prop}

theorem departure_of_remaining {remaining : GroupMetadata} {leaderRemoved : Bool}
    (alive : group.state ≠ .dead) (occupied : group.state ≠ .empty) (state : remaining.state = group.state)
    (generation : remaining.generation = group.generation)
    (tags : ∀ id, gone id ∧ remaining.tag id = none ∨ ¬gone id ∧ remaining.tag id = group.tag id) :
    Departure group gone (remaining.afterDeparture leaderRemoved order) where
  keys id := by
    rw [mem_keys_afterDeparture, mem_keys_iff_tag, mem_keys_iff_tag]
    rcases tags id with ⟨departed, none⟩ | ⟨stays, same⟩
    · exact iff_of_false (fun present => present none) fun both => both.2 departed
    · rw [same]
      exact (and_iff_left stays).symm
  outcome := by
    cases members : remaining.isEmpty with
    | false =>
      exact .inr (afterDeparture_departed alive occupied state generation members fun id =>
        (tags id).imp And.right And.right)
    | true =>
      left
      unfold afterDeparture
      rw [if_pos members]
      exact ⟨rfl, members⟩

theorem Departure.isEmpty_iff (departure : Departure group gone after) :
    after.isEmpty = true ↔ ∀ id ∈ group.members.keys, gone id := by
  simp only [isEmpty_iff_keys, departure.keys, not_and, not_not]

theorem leave_unknown (unknown : memberId ∉ group.members.keys) : group.leave memberId order = group := by
  rw [leave, find?_eq_none_iff_not_mem_keys.mpr unknown]

theorem leave_departure (alive : group.state ≠ .dead) (occupied : group.state ≠ .empty)
    (known : memberId ∈ group.members.keys) :
    Departure group (fun id => id = memberId) (group.leave memberId order) := by
  unfold leave
  obtain ⟨member, found⟩ := isSome_iff_exists.mp (mem_keys_iff_isSome.mp known)
  rw [found]
  refine departure_of_remaining alive occupied rfl rfl fun id => ?_
  refine (em (id = memberId)).imp (fun same => ⟨same, ?_⟩) fun differs => ⟨differs, ?_⟩
  · exact congrArg (Option.map _) ((find?_erase id).trans (if_pos same))
  · exact congrArg (Option.map _) ((find?_erase id).trans (if_neg differs))

def Expired (group : GroupMetadata) (now : Int) (id : Bytes) : Prop :=
  ∃ member ∈ group.members.find? id, isExpired now member = true

theorem mem_expired {id : Bytes} :
    id ∈ (group.members.entries.filter fun entry => isExpired now entry.2).map Prod.fst ↔ group.Expired now id := by
  constructor
  · intro listed
    obtain ⟨⟨_, member⟩, expired, rfl⟩ := mem_map.mp listed
    obtain ⟨stored, silent⟩ := List.mem_filter.mp expired
    exact ⟨member, find?_eq_some_iff.mpr stored, silent⟩
  · rintro ⟨member, found, silent⟩
    exact mem_map.mpr ⟨(id, member), List.mem_filter.mpr ⟨find?_eq_some_iff.mp found, silent⟩, rfl⟩

theorem checkSessionTimeouts_unexpired (none : ∀ id, ¬group.Expired now id) :
    group.checkSessionTimeouts now order = group := by
  unfold checkSessionTimeouts
  split
  next => rfl
  next =>
    dsimp only
    split
    next => rfl
    next some_expired =>
      rw [List.isEmpty_iff] at some_expired
      obtain ⟨entry, listed⟩ := exists_mem_of_ne_nil _ some_expired
      exact absurd (mem_expired.mp (mem_map.mpr ⟨entry, listed, rfl⟩)) (none entry.1)

theorem checkSessionTimeouts_departure (alive : group.state ≠ .dead) (occupied : group.state ≠ .empty)
    {silent : Bytes} (expired : group.Expired now silent) :
    Departure group (group.Expired now) (group.checkSessionTimeouts now order) := by
  unfold checkSessionTimeouts
  rw [if_neg (not_or.mpr ⟨alive, occupied⟩)]
  dsimp only
  have some_expired : (group.members.entries.filter fun entry => isExpired now entry.2).isEmpty = false := by
    rw [← Bool.not_eq_true, List.isEmpty_iff]
    intro none
    have listed := mem_expired.mpr expired
    rw [none] at listed
    cases listed
  rw [some_expired, if_neg nofun]
  refine departure_of_remaining alive occupied rfl rfl fun id => ?_
  refine (em (group.Expired now id)).imp (fun gone => ⟨gone, ?_⟩) fun stays => ⟨stays, ?_⟩
  · exact congrArg (Option.map _) ((find?_filter _).trans (if_neg (by simpa using mem_expired.mpr gone)))
  · exact congrArg (Option.map _)
      ((find?_filter _).trans (if_pos (decide_eq_true (mt mem_expired.mp stays))))

theorem step_heartbeat (group : GroupMetadata) (groupId memberId : Bytes) (generation : Int32) (now : Int) :
    (group.step groupId (.heartbeat memberId generation now)).state = group.state ∧
      (group.step groupId (.heartbeat memberId generation now)).generation = group.generation ∧
        ∀ id, (group.step groupId (.heartbeat memberId generation now)).tag id = group.tag id := by
  unfold step
  dsimp only
  cases outcome : group.heartbeat groupId memberId generation now with
  | error error => exact ⟨rfl, rfl, fun _ => rfl⟩
  | ok after => exact (heartbeat_outcome outcome).2

end GroupMetadata

/-!
## Rounds
-/

structure Rounds where
  group : GroupMetadata := {}
  /-- Those that have called for a join since the group has begun to prepare a rebalance. -/
  joined : List Bytes := []
  /-- Those that have called for a sync in the generation of the group. -/
  synced : List Bytes := []

def Call.joiner : Call → List Bytes
  | .join memberId _ => [memberId]
  | _ => []

def Call.syncer : Call → List Bytes
  | .sync memberId _ => [memberId]
  | _ => []

namespace Rounds

def step (groupId : Bytes) (rounds : Rounds) (call : Call) : Rounds :=
  let after := rounds.group.step groupId call
  let begins := rounds.group.state ≠ .preparingRebalance ∧ after.state = .preparingRebalance
  { group := after
    joined := call.joiner ++ if begins then [] else rounds.joined
    synced := call.syncer ++ if after.generation ≠ rounds.group.generation then [] else rounds.synced }

/-- The transitions of a rebalance as they are documented. -/
structure Barrier (groupId : Bytes) (rounds : Rounds) (call : Call) : Prop where
  completes : rounds.group.state = .preparingRebalance →
    (rounds.step groupId call).group.state = .completingRebalance →
      ∀ id ∈ (rounds.step groupId call).group.members.keys, id ∈ (rounds.step groupId call).joined
  stabilizes : rounds.group.state = .completingRebalance → (rounds.step groupId call).group.state = .stable →
    ∀ id ∈ (rounds.step groupId call).group.members.keys, id ∈ (rounds.step groupId call).synced
  departs : rounds.group.state = .completingRebalance →
    ∀ id ∈ rounds.group.members.keys, id ∉ (rounds.step groupId call).group.members.keys →
      (rounds.step groupId call).group.state = .preparingRebalance ∨ (rounds.step groupId call).group.state = .empty

/-- A join that goes through while a rebalance is prepared is the last one to come, and no member
leaves others behind in a group that waits for syncs. -/
def OnTime (rounds : Rounds) : Call → Prop
  | .join memberId _ =>
    rounds.group.state = .preparingRebalance →
      memberId ∈ rounds.group.members.keys ∨ rounds.group.memberCount < kMaxMembersPerGroup →
        ∀ id ∈ rounds.group.members.keys, id = memberId ∨ id ∈ rounds.joined
  | .leave memberId _ =>
    rounds.group.state = .completingRebalance → memberId ∈ rounds.group.members.keys →
      ∀ id ∈ rounds.group.members.keys, id = memberId
  | .checkSessionTimeouts now _ =>
    rounds.group.state = .completingRebalance → (∃ id, rounds.group.Expired now id) →
      ∀ id ∈ rounds.group.members.keys, rounds.group.Expired now id
  | .sync _ _ | .heartbeat _ _ _ | .configure _ _ _ => True

/-!
## What rounds keep
-/

variable {rounds : Rounds} {groupId memberId : Bytes} {call : Call} {gone : Bytes → Prop}

/-- A member that need not sync any more has called for it. -/
structure Kept (rounds : Rounds) : Prop where
  alive : rounds.group.state ≠ .dead
  empty_iff : rounds.group.state = .empty ↔ rounds.group.isEmpty = true
  uniform : rounds.group.Uniform
  fits : rounds.group.Fits
  synced : rounds.group.state = .completingRebalance → ∀ id, ∀ tag ∈ rounds.group.tag id, tag.2 = false →
    id ∈ rounds.synced

theorem Kept.initial : Kept {} where
  alive := nofun
  empty_iff := ⟨fun _ => rfl, fun _ => rfl⟩
  uniform := by
    intro id tag present
    cases present
  fits := show (0 : Int) ≤ 10000 by decide
  synced := nofun

theorem Kept.occupied (kept : rounds.Kept) {id : Bytes} (member : id ∈ rounds.group.members.keys) :
    rounds.group.state ≠ .empty := by
  intro empty
  exact isEmpty_iff_keys.mp (kept.empty_iff.mp empty) id member

theorem mem_synced_of_same {id : Bytes} (same : (rounds.group.step groupId call).generation = rounds.group.generation)
    (synced : id ∈ call.syncer ∨ id ∈ rounds.synced) : id ∈ (rounds.step groupId call).synced := by
  unfold Rounds.step
  dsimp only
  rw [same, if_neg (not_not.mpr rfl)]
  exact mem_append.mpr synced

theorem Kept.frame (kept : rounds.Kept) (state : (rounds.group.step groupId call).state = rounds.group.state)
    (generation : (rounds.group.step groupId call).generation = rounds.group.generation)
    (tags : ∀ id, (rounds.group.step groupId call).tag id = rounds.group.tag id) :
    (rounds.step groupId call).Kept where
  alive := state.trans_ne kept.alive
  empty_iff := by
    change (rounds.group.step groupId call).state = .empty ↔ (rounds.group.step groupId call).isEmpty = true
    rw [state, kept.empty_iff, isEmpty_iff_tag, isEmpty_iff_tag]
    simp only [tags]
  uniform id tag present := ((kept.uniform id tag ((tags id).symm.trans present)).trans generation.symm : _)
  fits := fits_of_keys kept.fits fun id => by
    rw [mem_keys_iff_tag, mem_keys_iff_tag]
    change (rounds.group.step groupId call).tag id ≠ none → _
    rw [tags]
    exact fun present => present
  synced completing id tag present synced := by
    refine mem_synced_of_same generation (.inr ?_)
    exact kept.synced (state.symm.trans completing) id tag ((tags id).symm.trans present) synced

theorem Kept.of_same (kept : rounds.Kept) (same : rounds.group.step groupId call = rounds.group) :
    (rounds.step groupId call).Kept :=
  kept.frame (congrArg _ same) (congrArg _ same) fun id => congrArg (tag · id) same

theorem barrier_of_frame (state : (rounds.group.step groupId call).state = rounds.group.state)
    (tags : ∀ id, (rounds.group.step groupId call).tag id = rounds.group.tag id) : rounds.Barrier groupId call where
  completes preparing completing := by cases (state.trans preparing).symm.trans completing
  stabilizes completing stable := by cases (state.trans completing).symm.trans stable
  departs _ id member departed := by
    refine absurd ?_ departed
    rw [mem_keys_iff_tag] at member ⊢
    exact (tags id).trans_ne member

theorem barrier_of_same (same : rounds.group.step groupId call = rounds.group) : rounds.Barrier groupId call :=
  barrier_of_frame (congrArg _ same) fun id => congrArg (tag · id) same

theorem Kept.join (kept : rounds.Kept) {now : Int}
    (outcome : GroupMetadata.JoinOutcome rounds.group memberId (rounds.group.step groupId (.join memberId now)))
    (fits : (rounds.group.step groupId (.join memberId now)).Fits) :
    (rounds.step groupId (.join memberId now)).Kept := by
  have member := (outcome.mem_keys memberId).mpr (.inl rfl)
  have members : (rounds.group.step groupId (.join memberId now)).isEmpty ≠ true := by
    intro none
    exact isEmpty_iff_keys.mp none memberId member
  cases outcome with
  | first was state generation tags =>
    refine ⟨state.trans_ne nofun, iff_of_false (state.trans_ne nofun) members, ?_, fits, ?_⟩
    · intro id tag present
      have present := (tags id).symm.trans present
      split at present
      next => rw [← Option.some.inj present]; rfl
      next =>
        have none := isEmpty_iff_tag.mp (kept.empty_iff.mp was) id
        cases none.symm.trans present
    · intro completing
      cases state.symm.trans completing
  | opens was state generation tags =>
    refine ⟨state.trans_ne nofun, iff_of_false (state.trans_ne nofun) members, ?_, fits, ?_⟩
    · intro id tag present
      have present := (tags id).symm.trans present
      split at present
      next => rw [← Option.some.inj present]; exact generation.symm
      next =>
        obtain ⟨old, -, rfl⟩ := map_eq_some_iff.mp present
        exact generation.symm
    · intro completing
      cases state.symm.trans completing
  | closes was state generation tags =>
    have pending : ∀ id, ∀ tag ∈ (rounds.group.step groupId (.join memberId now)).tag id,
        tag = ((rounds.group.step groupId (.join memberId now)).generation, true) := by
      intro id tag present
      have present := (tags id).symm.trans present
      split at present
      next => exact (Option.some.inj present).symm
      next =>
        obtain ⟨old, -, rfl⟩ := map_eq_some_iff.mp present
        rfl
    refine ⟨state.trans_ne nofun, iff_of_false (state.trans_ne nofun) members, ?_, fits, ?_⟩
    · intro id tag present
      rw [pending id tag present]
      rfl
    · intro _ id tag present synced
      rw [pending id tag present] at synced
      cases synced
  | waits was state generation tags =>
    have occupied : rounds.group.state ≠ .empty := by
      rcases was with preparing | completing
      · exact preparing.trans_ne nofun
      · exact completing.trans_ne nofun
    refine ⟨state.trans_ne kept.alive, iff_of_false (state.trans_ne occupied) members, ?_, fits, ?_⟩
    · intro id tag present
      have present := (tags id).symm.trans present
      refine Eq.trans ?_ generation.symm
      split at present
      next => rw [← Option.some.inj present]
      next => exact kept.uniform id tag present
    · intro completing id tag present synced
      have present := (tags id).symm.trans present
      split at present
      next =>
        rw [← Option.some.inj present] at synced
        cases synced
      next =>
        exact mem_synced_of_same generation (.inr (kept.synced (state.symm.trans completing) id tag present synced))

theorem Kept.barrier_join (kept : rounds.Kept) (now : Int) :
    rounds.Barrier groupId (.join memberId now) ↔ rounds.OnTime (.join memberId now) := by
  cases joined : rounds.group.join groupId memberId now with
  | error error =>
    have same : rounds.group.step groupId (.join memberId now) = rounds.group := by
      rw [GroupMetadata.step, joined, GroupMetadata.orElse_error]
    refine iff_of_true (barrier_of_same same) ?_
    intro preparing room
    obtain ⟨after, goes_through⟩ := @GroupMetadata.join_of_room rounds.group groupId memberId now kept.alive room
    cases joined.symm.trans goes_through
  | ok after =>
    have group : (rounds.step groupId (.join memberId now)).group = after := by
      change rounds.group.step groupId (.join memberId now) = after
      rw [GroupMetadata.step, joined, GroupMetadata.orElse_ok]
    have keys := (GroupMetadata.join_outcome kept.alive joined).mem_keys
    have completes := fun was => GroupMetadata.join_completes kept.uniform kept.fits was joined
    have joiners (preparing : rounds.group.state = .preparingRebalance) :
        (rounds.step groupId (.join memberId now)).joined = memberId :: rounds.joined := by
      unfold Rounds.step
      dsimp only
      rw [if_neg fun begins => begins.1 preparing]
      rfl
    constructor
    · intro barrier preparing room id member
      have listed := barrier.completes preparing (by rw [group]; exact completes (.inl preparing)) id
      rw [group, keys, joiners preparing, mem_cons] at listed
      exact listed (.inr member)
    · intro on_time
      refine ⟨fun preparing _ id member => ?_, fun completing stable => ?_, fun _ id member departed => ?_⟩
      · rw [joiners preparing, mem_cons]
        rw [group, keys] at member
        rcases member with own | old
        · exact .inl own
        · exact on_time preparing (GroupMetadata.room_of_join joined) id old
      · rw [group, completes (.inr completing)] at stable
        cases stable
      · rw [group, keys] at departed
        exact absurd (.inr member) departed

theorem Kept.depart (kept : rounds.Kept)
    (departure : GroupMetadata.Departure rounds.group gone (rounds.group.step groupId call)) :
    (rounds.step groupId call).Kept := by
  have fits : (rounds.group.step groupId call).Fits :=
    fits_of_keys kept.fits fun id member => ((departure.keys id).mp member).1
  rcases departure.outcome with ⟨empty, none⟩ | departed
  · refine ⟨empty.trans_ne nofun, iff_of_true empty none, ?_, fits, ?_⟩
    · intro id tag present
      cases (isEmpty_iff_tag.mp none id).symm.trans present
    · intro completing
      cases empty.symm.trans completing
  · have occupied : rounds.group.state ≠ .empty := by
      obtain ⟨id, tag, present⟩ := exists_tag departed.members
      exact kept.occupied ((departure.keys id).mp (mem_keys_iff_tag.mpr (present.trans_ne nofun))).1
    refine ⟨departed.state.trans_ne ?_, iff_of_false (departed.state.trans_ne ?_) ?_, ?_, fits, ?_⟩
    · split
      next => exact nofun
      next => exact kept.alive
    · split
      next => exact nofun
      next => exact occupied
    · change (rounds.group.step groupId call).isEmpty ≠ true
      rw [departed.members]
      exact nofun
    · intro id tag present
      obtain ⟨old, listed, same, -⟩ := departed.tags id tag present
      exact same.trans ((kept.uniform id old listed).trans departed.generation.symm)
    · intro completing id tag present synced
      obtain ⟨old, listed, -, still⟩ := departed.tags id tag present
      refine mem_synced_of_same departed.generation (.inr (kept.synced ?_ id old listed (still synced)))
      have completing := departed.state.symm.trans completing
      split at completing
      next => cases completing
      next => exact completing

theorem barrier_iff_of_departure (departure : GroupMetadata.Departure rounds.group gone (rounds.group.step groupId call))
    {silent : Bytes} (member : silent ∈ rounds.group.members.keys) (departs : gone silent) :
    rounds.Barrier groupId call ↔
      (rounds.group.state = .completingRebalance → ∀ id ∈ rounds.group.members.keys, gone id) := by
  have keys : ∀ id, id ∈ (rounds.step groupId call).group.members.keys ↔ id ∈ rounds.group.members.keys ∧ ¬gone id :=
    departure.keys
  constructor
  · intro barrier completing
    rw [← departure.isEmpty_iff]
    have state := barrier.departs completing silent member fun stays => ((keys silent).mp stays).2 departs
    rcases departure.outcome with ⟨-, none⟩ | departed
    · exact none
    · have unchanged : (rounds.step groupId call).group.state = .completingRebalance := by
        refine departed.state.trans ?_
        rw [completing]
        rfl
      rw [unchanged] at state
      rcases state with preparing | empty
      · cases preparing
      · cases empty
  · intro all
    have states : (rounds.step groupId call).group.state = .empty ∨
        (rounds.step groupId call).group.state = .preparingRebalance ∨
          (rounds.step groupId call).group.state = rounds.group.state := by
      rcases departure.outcome with ⟨empty, -⟩ | departed
      · exact .inl empty
      · refine .inr ?_
        rw [show (rounds.step groupId call).group.state = _ from departed.state]
        split
        next => exact .inl rfl
        next => exact .inr rfl
    refine ⟨fun preparing completing => ?_, fun completing stable => ?_, fun completing id listed left => ?_⟩
    · rw [completing, preparing] at states
      simp at states
    · rw [completing, stable] at states
      simp at states
    · have none : (rounds.group.step groupId call).isEmpty = true := departure.isEmpty_iff.mpr (all completing)
      rcases departure.outcome with ⟨empty, -⟩ | departed
      · exact .inr empty
      · rw [departed.members] at none
        cases none

section

variable (kept : rounds.Kept) {partitionCount : Bytes → Int}
  (outcome : GroupMetadata.SyncOutcome rounds.group memberId (rounds.group.step groupId (.sync memberId partitionCount)))
include kept outcome

theorem Kept.mem_synced {id : Bytes} {tag : Int32 × Bool}
    (present : (rounds.group.step groupId (.sync memberId partitionCount)).tag id = some tag) (synced : tag.2 = false) :
    id ∈ (rounds.step groupId (.sync memberId partitionCount)).synced := by
  refine mem_synced_of_same outcome.generation ?_
  rw [outcome.tags id] at present
  split at present
  next own => exact .inl (mem_singleton.mpr own)
  next => exact .inr (kept.synced outcome.was id tag present synced)

theorem Kept.sync : (rounds.step groupId (.sync memberId partitionCount)).Kept := by
  have keys : ∀ id, id ∈ (rounds.group.step groupId (.sync memberId partitionCount)).members.keys ↔
      id ∈ rounds.group.members.keys := by
    intro id
    rw [mem_keys_iff_tag, mem_keys_iff_tag, outcome.tags id]
    split
    next own => rw [own, Ne, map_eq_none_iff]
    next => rfl
  have members : (rounds.group.step groupId (.sync memberId partitionCount)).isEmpty ≠ true := by
    intro none
    exact isEmpty_iff_keys.mp none memberId ((keys memberId).mpr outcome.member)
  have states : (rounds.group.step groupId (.sync memberId partitionCount)).state ≠ .dead ∧
      (rounds.group.step groupId (.sync memberId partitionCount)).state ≠ .empty := by
    rcases outcome.state with completing | ⟨stable, -⟩
    · rw [completing]
      exact ⟨nofun, nofun⟩
    · rw [stable]
      exact ⟨nofun, nofun⟩
  refine ⟨states.1, iff_of_false states.2 members, ?_, ?_, fun _ id tag => kept.mem_synced outcome⟩
  · intro id tag present
    refine Eq.trans ?_ outcome.generation.symm
    have present := (outcome.tags id).symm.trans present
    split at present
    next =>
      obtain ⟨old, found, rfl⟩ := map_eq_some_iff.mp present
      exact kept.uniform memberId old found
    next => exact kept.uniform id tag present
  · exact fits_of_keys kept.fits fun id => (keys id).mp

theorem Kept.barrier_sync : rounds.Barrier groupId (.sync memberId partitionCount) where
  completes preparing := by cases preparing.symm.trans outcome.was
  stabilizes _ stable id member := by
    obtain ⟨tag, present⟩ := ne_none_iff_exists'.mp (mem_keys_iff_tag.mp member)
    rcases outcome.state with completing | ⟨-, all⟩
    · cases completing.symm.trans stable
    · exact kept.mem_synced outcome present (all id tag present)
  departs _ id member departed := by
    refine absurd ?_ departed
    rw [mem_keys_iff_tag] at member ⊢
    refine (outcome.tags id).trans_ne ?_
    split
    next own => rw [Ne, map_eq_none_iff, ← own]; exact member
    next => exact member

end

section

variable (kept : rounds.Kept)

include kept

theorem Kept.leave (order : IterationOrder Bytes) :
    (rounds.step groupId (.leave memberId order)).Kept ∧
      (rounds.Barrier groupId (.leave memberId order) ↔ rounds.OnTime (.leave memberId order)) := by
  by_cases known : memberId ∈ rounds.group.members.keys
  · have departure : GroupMetadata.Departure rounds.group (fun id => id = memberId)
        (rounds.group.step groupId (.leave memberId order)) :=
      leave_departure kept.alive (kept.occupied known) known
    refine ⟨kept.depart departure, (barrier_iff_of_departure departure known rfl).trans ?_⟩
    exact ⟨fun all completing _ => all completing, fun on_time completing => on_time completing known⟩
  · have same : rounds.group.step groupId (.leave memberId order) = rounds.group := leave_unknown known
    exact ⟨kept.of_same same, iff_of_true (barrier_of_same same) fun _ listed => absurd listed known⟩

theorem Kept.checkSessionTimeouts (now : Int) (order : IterationOrder Bytes) :
    (rounds.step groupId (.checkSessionTimeouts now order)).Kept ∧
      (rounds.Barrier groupId (.checkSessionTimeouts now order) ↔ rounds.OnTime (.checkSessionTimeouts now order)) := by
  by_cases some_expired : ∃ id, rounds.group.Expired now id
  · obtain ⟨silent, expired⟩ := some_expired
    have known : silent ∈ rounds.group.members.keys := by
      obtain ⟨member, found, -⟩ := expired
      exact mem_keys_iff_isSome.mpr (isSome_of_mem found)
    have departure : GroupMetadata.Departure rounds.group (rounds.group.Expired now)
        (rounds.group.step groupId (.checkSessionTimeouts now order)) :=
      checkSessionTimeouts_departure kept.alive (kept.occupied known) expired
    refine ⟨kept.depart departure, (barrier_iff_of_departure departure known expired).trans ?_⟩
    exact ⟨fun all completing _ => all completing, fun on_time completing => on_time completing ⟨silent, expired⟩⟩
  · have same : rounds.group.step groupId (.checkSessionTimeouts now order) = rounds.group :=
      checkSessionTimeouts_unexpired (not_exists.mp some_expired)
    exact ⟨kept.of_same same, iff_of_true (barrier_of_same same) fun _ expired => absurd expired some_expired⟩

theorem Kept.step (call : Call) : (rounds.step groupId call).Kept := by
  cases call with
  | join memberId now =>
    cases joined : rounds.group.join groupId memberId now with
    | error error =>
      have same : rounds.group.step groupId (.join memberId now) = rounds.group := by
        rw [GroupMetadata.step, joined, GroupMetadata.orElse_error]
      exact kept.of_same same
    | ok after =>
      have same : rounds.group.step groupId (.join memberId now) = after := by
        rw [GroupMetadata.step, joined, GroupMetadata.orElse_ok]
      refine kept.join (same ▸ GroupMetadata.join_outcome kept.alive joined) ?_
      rw [same]
      exact GroupMetadata.fits_join kept.fits kept.alive joined
  | leave memberId order => exact (kept.leave order).1
  | sync memberId partitionCount =>
    cases synced : rounds.group.sync memberId partitionCount with
    | error error =>
      have same : rounds.group.step groupId (.sync memberId partitionCount) = rounds.group := by
        rw [GroupMetadata.step, synced, GroupMetadata.orElse_error]
      exact kept.of_same same
    | ok after =>
      have same : rounds.group.step groupId (.sync memberId partitionCount) = after := by
        rw [GroupMetadata.step, synced, GroupMetadata.orElse_ok]
      exact kept.sync (same ▸ GroupMetadata.sync_outcome synced)
  | heartbeat memberId generation now =>
    obtain ⟨state, number, tags⟩ := GroupMetadata.step_heartbeat rounds.group groupId memberId generation now
    exact kept.frame state number tags
  | checkSessionTimeouts now order => exact (kept.checkSessionTimeouts now order).1
  | configure strategy sessionTimeoutMs topics => exact kept.frame rfl rfl fun _ => rfl

theorem Kept.barrier_iff (call : Call) : rounds.Barrier groupId call ↔ rounds.OnTime call := by
  cases call with
  | join memberId now => exact kept.barrier_join now
  | leave memberId order => exact (kept.leave order).2
  | sync memberId partitionCount =>
    refine iff_of_true ?_ trivial
    cases synced : rounds.group.sync memberId partitionCount with
    | error error =>
      have same : rounds.group.step groupId (.sync memberId partitionCount) = rounds.group := by
        rw [GroupMetadata.step, synced, GroupMetadata.orElse_error]
      exact barrier_of_same same
    | ok after =>
      have same : rounds.group.step groupId (.sync memberId partitionCount) = after := by
        rw [GroupMetadata.step, synced, GroupMetadata.orElse_ok]
      exact kept.barrier_sync (same ▸ GroupMetadata.sync_outcome synced)
  | heartbeat memberId generation now =>
    obtain ⟨state, -, tags⟩ := GroupMetadata.step_heartbeat rounds.group groupId memberId generation now
    exact iff_of_true (barrier_of_frame state tags) trivial
  | checkSessionTimeouts now order => exact (kept.checkSessionTimeouts now order).2
  | configure strategy sessionTimeoutMs topics => exact iff_of_true (barrier_of_frame rfl fun _ => rfl) trivial

theorem Kept.meets_iff (calls : List Call) :
    Meets (Rounds.step groupId) (Barrier groupId) rounds calls ↔ Meets (Rounds.step groupId) OnTime rounds calls := by
  induction calls generalizing rounds with
  | nil => exact Iff.rfl
  | cons call calls ih => exact and_congr (kept.barrier_iff call) (ih (kept.step call))

end

/-- A group keeps to the transitions of a rebalance in those runs in which nobody has to be waited for. -/
theorem barrier_iff_onTime (groupId : Bytes) (events : List Event) :
    Meets (Rounds.step groupId) (Barrier groupId) {} (callsOf groupId {} events) ↔
      Meets (Rounds.step groupId) OnTime {} (callsOf groupId {} events) :=
  Kept.initial.meets_iff _

/-- The second call of a member ends a rebalance without the first member, and a member may leave
a group that waits for syncs. -/
theorem not_barrier :
    (¬Meets (Rounds.step [103]) (Barrier [103]) {}
      (callsOf [103] {}
        [.joinGroup [103] [97] 0, .joinGroup [103] [98] 0, .joinGroup [103] [98] 0])) ∧
    ¬Meets (Rounds.step [103]) (Barrier [103]) {}
      (callsOf [103] {}
        [.joinGroup [103] [97] 0, .joinGroup [103] [98] 0, .joinGroup [103] [97] 0,
          .leaveGroup [103] [97] (IterationOrder.ascending _)]) := by
  constructor
  · intro meets
    have joined := meets.2.2.1.completes rfl rfl [97] (by decide)
    exact absurd joined (by decide)
  · intro meets
    have state := meets.2.2.2.1.departs rfl [97] (by decide) (by decide)
    exact absurd state (by decide)

end Rounds

end TorrentMq.Broker.ConsumerGroups
