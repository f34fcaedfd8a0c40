import TorrentMq.Client.GroupHandler
import TorrentMq.Collections.Leadership

/-! When a group of the handler keeps its leader, and when it loses it for ever. -/

set_option autoImplicit false

namespace TorrentMq.Client.GroupHandler

open Bytes Collections Network GroupAssignors List OrderedMap Option MemberRecord

namespace GroupRecord

/-- The name of the group is that of the one member with the flag. -/
def Led (record : GroupRecord) : Prop := Leads isLeader record.members record.leaderId

abbrev flag (record : GroupRecord) (id : Bytes) : Option Bool := flagOf isLeader record.members id

structure Valid (record : GroupRecord) : Prop where
  alive : record.state ≠ .dead
  empty_iff : record.state = .empty ↔ record.isEmpty = true
  led : record.isEmpty = false → record.Led

variable {record after : GroupRecord} {memberId : Bytes} {nowMs : Int} {order : IterationOrder Bytes}

theorem Valid.initial : Valid {} where
  alive := nofun
  empty_iff := ⟨fun _ => rfl, fun _ => rfl⟩
  led := nofun

theorem valid_iff_led (alive : record.state ≠ .dead) (occupied : record.state ≠ .empty) :
    record.Valid ↔ record.Led := by
  constructor
  · intro valid
    apply valid.led
    rw [← Bool.not_eq_true, ← valid.empty_iff]
    exact occupied
  · intro led
    have members : record.isEmpty = false := isEmpty_eq_false_of_flagOf led.named
    exact ⟨alive, by simp [occupied, members], fun _ => led⟩

theorem Valid.led_of_occupied (valid : record.Valid) (occupied : record.state ≠ .empty) : record.Led :=
  (valid_iff_led valid.alive occupied).mp valid

theorem Valid.occupied (valid : record.Valid) {set : Bool} (present : record.flag memberId = some set) :
    record.state ≠ .empty := by
  rw [Ne, valid.empty_iff, isEmpty, isEmpty_eq_false_of_flagOf present]
  decide

theorem Valid.congr (valid : record.Valid) (state : after.state = record.state)
    (leaderId : after.leaderId = record.leaderId) (flags : ∀ id, after.flag id = record.flag id) : after.Valid := by
  have members : after.isEmpty = record.isEmpty := isEmpty_congr flags
  refine ⟨?_, ?_, ?_⟩
  · rw [state]
    exact valid.alive
  · rw [state, members]
    exact valid.empty_iff
  · intro occupied
    have led := valid.led (members.symm.trans occupied)
    rw [Led, leaderId]
    exact led.congr flags

def LeaderStays (record : GroupRecord) (nowMs : Int) : Prop :=
  ∃ member ∈ record.members.find? record.leaderId, sessionExpired member nowMs = false

variable (id : Bytes)

theorem flag_expireMembers :
    (record.expireMembers nowMs).flag id =
      ((record.members.find? id).filter fun member => !sessionExpired member nowMs).map isLeader :=
  flagOf_filterValues id

theorem flag_expireMembers_fewer :
    (record.expireMembers nowMs).flag id = none ∨ (record.expireMembers nowMs).flag id = record.flag id := by
  rw [flag_expireMembers, flag, flagOf]
  cases record.members.find? id with
  | none => exact .inl rfl
  | some member =>
    rw [filter_some]
    split
    next => exact .inr rfl
    next => exact .inl rfl

/-- Every member has been silent for longer than its session may last. -/
def AllExpired (record : GroupRecord) (nowMs : Int) : Prop :=
  ∀ id, ∀ member ∈ record.members.find? id, sessionExpired member nowMs = true

theorem isEmpty_expireMembers_iff : (record.expireMembers nowMs).isEmpty = true ↔ record.AllExpired nowMs := by
  rw [isEmpty, isEmpty_iff_flagOf isLeader]
  refine forall_congr' fun id => ?_
  refine Eq.congr_left (flag_expireMembers id) |>.trans ?_
  cases record.members.find? id with
  | none => simp
  | some member => simp

theorem led_expireMembers_iff (led : record.Led) : (record.expireMembers nowMs).Led ↔ record.LeaderStays nowMs := by
  refine (led.restrict_iff flag_expireMembers_fewer).trans ?_
  change (record.expireMembers nowMs).flag record.leaderId ≠ none ↔ _
  rw [flag_expireMembers, LeaderStays]
  cases record.members.find? record.leaderId with
  | none => simp
  | some member =>
    cases expired : sessionExpired member nowMs with
    | true | false => simp [expired]

theorem unflagged_of_not_led (led : record.Led) (fewer : ∀ id, after.flag id = none ∨ after.flag id = record.flag id)
    (leaderId : after.leaderId = record.leaderId) (lost : ¬after.Led) (id : Bytes) :
    after.flag id ≠ some true := by
  intro set
  apply lost
  rw [Led, leaderId]
  refine (led.restrict_iff fewer).mpr ?_
  rcases fewer id with gone | same
  · rw [gone] at set
    cases set
  · rw [← led.only id (same.symm.trans set)]
    exact set.trans_ne nofun

theorem isEmpty_of_expireMembers (members : (record.expireMembers nowMs).isEmpty = false) : record.isEmpty = false := by
  cases none : record.isEmpty with
  | false => rfl
  | true =>
    rw [isEmpty, isEmpty_iff_flagOf isLeader] at none
    rw [isEmpty, ← Bool.not_eq_true, isEmpty_iff_flagOf isLeader] at members
    refine absurd (fun id => ?_) members
    exact (flag_expireMembers_fewer id).elim (·) fun same => same.trans (none id)

theorem valid_expireMembers_iff (valid : record.Valid) (members : (record.expireMembers nowMs).isEmpty = false) :
    (record.expireMembers nowMs).Valid ↔ record.LeaderStays nowMs := by
  have led := valid.led (isEmpty_of_expireMembers members)
  have occupied : record.state ≠ .empty := by
    rw [Ne, valid.empty_iff, isEmpty_of_expireMembers members]
    decide
  have kept : (record.expireMembers nowMs).Valid ↔ (record.expireMembers nowMs).Led :=
    valid_iff_led valid.alive occupied
  exact kept.trans (led_expireMembers_iff led)

theorem expire_eq (record : GroupRecord) (nowMs : Int) :
    record.expire nowMs =
      if record.isEmpty = false ∧ (record.expireMembers nowMs).isEmpty = true then
        { record.expireMembers nowMs with state := .empty }
      else record.expireMembers nowMs := by
  have fewer : (record.expireMembers nowMs).isEmpty = true →
      ((record.expireMembers nowMs).members.size < record.members.size ↔ record.isEmpty = false) := by
    intro none
    rw [isEmpty, List.isEmpty_iff] at none
    rw [isEmpty, ← Bool.not_eq_true, List.isEmpty_iff, OrderedMap.size, none, OrderedMap.size, length_nil,
      length_pos_iff]
  unfold expire
  dsimp only
  exact if_congr (and_congr_left fewer) rfl rfl

theorem valid_expire_iff (valid : record.Valid) :
    (record.expire nowMs).Valid ↔ (record.expireMembers nowMs).isEmpty = true ∨ record.LeaderStays nowMs := by
  rw [expire_eq]
  cases members : (record.expireMembers nowMs).isEmpty with
  | false =>
    rw [if_neg (by simp)]
    exact (valid_expireMembers_iff valid members).trans (by simp)
  | true =>
    refine iff_of_true ?_ (.inl rfl)
    split
    next => exact ⟨nofun, iff_of_true rfl members, fun some_member => absurd (members.symm.trans some_member) nofun⟩
    next kept =>
      have empty : record.isEmpty = true := by simpa using kept
      refine valid.congr rfl rfl fun id => ?_
      have gone : (record.expireMembers nowMs).flag id = none := (isEmpty_iff_flagOf _).mp members id
      exact gone.trans ((isEmpty_iff_flagOf _).mp empty id).symm

theorem extendDeadline_frame (record : GroupRecord) (req : JoinGroupRequest) (nowMs : Int) :
    (record.extendDeadline req nowMs).state = record.state ∧
      (record.extendDeadline req nowMs).leaderId = record.leaderId ∧
        (record.extendDeadline req nowMs).members = record.members := by
  unfold extendDeadline
  dsimp only
  split
  next => exact ⟨rfl, rfl, rfl⟩
  next => exact ⟨rfl, rfl, rfl⟩

/-!
## Joins
-/

/-- A join to a group that is not empty: a member that comes anew has no flag, and the name stays. -/
structure Joined (record : GroupRecord) (memberId : Bytes) (isRejoin : Bool) (after : GroupRecord) : Prop where
  occupied : after.state = .stable ∨ after.state = .preparingRebalance
  leaderId : after.leaderId = record.leaderId
  refreshed : isRejoin = true → ∀ id, after.flag id = record.flag id
  added : isRejoin = false → ∀ id, after.flag id = if id = memberId then some false else record.flag id

theorem join_joined {req : JoinGroupRequest} {isRejoin : Bool} (alive : record.state ≠ .dead)
    (occupied : record.state ≠ .empty) :
    Joined record memberId isRejoin (record.join req memberId isRejoin nowMs order).2 := by
  have refreshed : ∀ awaitingSync id, (record.rejoin req memberId nowMs awaitingSync).flag id = record.flag id :=
    fun awaitingSync id => flagOf_modify (fun _ => by rfl) id
  unfold join
  cases state : record.state with
  | empty => exact absurd state occupied
  | dead => exact absurd state alive
  | stable =>
    cases isRejoin with
    | true => exact ⟨.inl state, rfl, fun _ => refreshed false, nofun⟩
    | false => exact ⟨.inr rfl, rfl, nofun, fun _ id => flagOf_insert id⟩
  | preparingRebalance =>
    cases isRejoin with
    | true =>
      obtain ⟨same_state, same_leader, same_members⟩ :=
        extendDeadline_frame (record.rejoin req memberId nowMs true) req nowMs
      refine ⟨.inr (same_state.trans state), same_leader, fun _ id => ?_, nofun⟩
      rw [← refreshed true id]
      exact congrArg (fun members => flagOf isLeader members id) same_members
    | false =>
      obtain ⟨same_state, same_leader, same_members⟩ := extendDeadline_frame ({ record with
        members := record.members.insert memberId (newMember req memberId nowMs false) }.reelectProtocol order)
          req nowMs
      refine ⟨.inr (same_state.trans state), same_leader, nofun, fun _ id => ?_⟩
      have inserted := congrArg (fun members => flagOf isLeader members id) same_members
      exact inserted.trans (flagOf_insert id)

variable {isRejoin : Bool}

section

variable (joined : Joined record memberId isRejoin after)

include joined

theorem Joined.valid_iff : after.Valid ↔ after.Led := by
  apply valid_iff_led <;> rcases joined.occupied with state | state <;> rw [state] <;> exact nofun

theorem Joined.led_iff (led : record.Led) :
    after.Led ↔ isRejoin = true ∨ memberId ≠ record.leaderId := by
  rw [Led, joined.leaderId]
  cases isRejoin with
  | true => exact iff_of_true (led.congr (joined.refreshed rfl)) (.inl rfl)
  | false =>
    have unset : isLeader { memberId := memberId } = false := rfl
    have inserted : ∀ id, after.flag id =
        flagOf isLeader (record.members.insert memberId { memberId := memberId }) id := by
      intro id
      rw [flagOf_insert]
      exact joined.added rfl id
    exact (leads_congr inserted).trans ((led.insert_iff unset).trans (by simp))

theorem Joined.not_led
    (unflagged : ∀ id, record.flag id ≠ some true) : ¬after.Led := by
  intro led
  have named := led.named
  cases isRejoin with
  | true => exact unflagged _ ((joined.refreshed rfl _).symm.trans named)
  | false =>
    have inserted := (joined.added rfl _).symm.trans named
    split at inserted
    next => cases inserted
    next => exact unflagged _ inserted

end

variable {req : JoinGroupRequest}

theorem join_empty_valid (empty : record.state = .empty)
    (members : record.isEmpty = true) : (record.join req memberId isRejoin nowMs order).2.Valid := by
  have led : (record.joinEmpty req memberId nowMs).Led := by
    refine ⟨?_, ?_⟩
    · exact (flagOf_insert memberId).trans (if_pos rfl)
    · intro id set
      have inserted := (flagOf_insert id).symm.trans set
      split at inserted
      next same => exact same
      next =>
        rw [(isEmpty_iff_flagOf _).mp members id] at inserted
        cases inserted
  unfold join
  rw [empty]
  exact (valid_iff_led (by exact nofun) (by exact nofun)).mpr led

/-- A new member can join those whose sessions still last. -/
def HasRoom (record : GroupRecord) (nowMs : Int) : Prop :=
  (record.members.filterValues fun member => !sessionExpired member nowMs).size < kMaxMembersPerGroup

theorem hasRoom_of_isEmpty (none : (record.expireMembers nowMs).isEmpty = true) : record.HasRoom nowMs := by
  have size : (record.expireMembers nowMs).members.size < kMaxMembersPerGroup := by
    rw [OrderedMap.size, List.isEmpty_iff.mp none]
    decide
  exact size

/-- What a join asks of the group that it finds, for the group to have a leader afterwards. -/
def JoinKeepsLeader (record : GroupRecord) (req : JoinGroupRequest) (memberId : Bytes) (nowMs : Int) : Prop :=
  (record.AllExpired nowMs → record.state ≠ .preparingRebalance) ∧
    (¬record.AllExpired nowMs →
      record.LeaderStays nowMs ∧ (req.memberId = [] → record.HasRoom nowMs → memberId ≠ record.leaderId))

theorem expireBeforeJoin_frame (record : GroupRecord) (nowMs : Int) :
    (record.expireBeforeJoin nowMs).members = (record.expireMembers nowMs).members ∧
      (record.expireBeforeJoin nowMs).leaderId = record.leaderId ∧
        (record.expireBeforeJoin nowMs).state =
          if (record.expireMembers nowMs).isEmpty ∧ record.state = .stable then .empty else record.state := by
  unfold expireBeforeJoin
  dsimp only
  split
  next last => exact ⟨rfl, rfl, (if_pos last).symm⟩
  next stays => exact ⟨rfl, rfl, (if_neg stays).symm⟩

theorem joinAs_valid_iff_of_isEmpty (valid : record.Valid) (members : (record.expireMembers nowMs).isEmpty = true) :
    (record.joinAs req memberId nowMs order).2.Valid ↔ record.state ≠ .preparingRebalance := by
  have none : ∀ id, (record.expireMembers nowMs).flag id = none := (isEmpty_iff_flagOf _).mp members
  obtain ⟨same_members, -, same_state⟩ := expireBeforeJoin_frame record nowMs
  have isNew : (record.expireBeforeJoin nowMs).isRejoin req = false := by
    rw [isRejoin, same_members, isEmpty_entries_iff_find?.mp members]
    simp
  have room : ¬kMaxMembersPerGroup ≤ (record.expireBeforeJoin nowMs).members.size := by
    rw [same_members]
    exact Nat.not_le.mpr (hasRoom_of_isEmpty members)
  have outcome : (record.joinAs req memberId nowMs order).2 =
      ((record.expireBeforeJoin nowMs).join req memberId false nowMs order).2 := by
    unfold joinAs
    dsimp only
    rw [isNew, if_neg (by simpa using room)]
  rw [outcome]
  have still_empty : (record.expireBeforeJoin nowMs).isEmpty = true := by
    rw [isEmpty, same_members]
    exact members
  by_cases preparing : record.state = .preparingRebalance
  · refine iff_of_false ?_ (not_not.mpr preparing)
    have state : (record.expireBeforeJoin nowMs).state = .preparingRebalance := by
      rw [same_state, preparing]
      simp
    have joined : Joined _ memberId false ((record.expireBeforeJoin nowMs).join req memberId false nowMs order).2 :=
      join_joined (by rw [state]; exact nofun) (by rw [state]; exact nofun)
    rw [joined.valid_iff]
    refine joined.not_led fun id => ?_
    rw [flag, same_members]
    exact (none id).trans_ne nofun
  · refine iff_of_true ?_ preparing
    refine join_empty_valid ?_ still_empty
    rw [same_state, members]
    cases state : record.state with
    | empty => simp
    | stable => simp
    | dead => exact absurd state valid.alive
    | preparingRebalance => exact absurd state preparing

theorem takes_iff (led : record.Led) (named : req.memberId ≠ [] → memberId = req.memberId)
    (room : ¬(!record.isRejoin req && decide (kMaxMembersPerGroup ≤ record.members.size)) = true) :
    record.isRejoin req = true ∨ memberId ≠ record.leaderId ↔
      (req.memberId = [] → record.members.size < kMaxMembersPerGroup → memberId ≠ record.leaderId) := by
  rw [Bool.and_eq_true, decide_eq_true_eq] at room
  cases explicit : req.memberId with
  | nil =>
    have isNew : record.isRejoin req = false := by simp [isRejoin, explicit]
    simp only [isNew, Bool.not_false, true_and, Nat.not_le] at room
    simp [isNew, room]
  | cons first rest =>
    refine iff_of_true ?_ nofun
    cases known : record.isRejoin req with
    | true => exact .inl rfl
    | false =>
      refine .inr fun same => ?_
      have leader : (record.members.find? req.memberId).isSome = true := by
        rw [← named (by rw [explicit]; exact nofun), same]
        have flag : (record.members.find? record.leaderId).map isLeader = some true := led.named
        exact isSome_of_mem (map_eq_some_iff.mp flag).choose_spec.1
      rw [isRejoin, leader, explicit] at known
      exact absurd known nofun

theorem joinAs_valid_iff_of_members (valid : record.Valid)
    (members : (record.expireMembers nowMs).isEmpty = false) (named : req.memberId ≠ [] → memberId = req.memberId) :
    (record.joinAs req memberId nowMs order).2.Valid ↔
      record.LeaderStays nowMs ∧ (req.memberId = [] → record.HasRoom nowMs → memberId ≠ record.leaderId) := by
  have led := valid.led (isEmpty_of_expireMembers members)
  have occupied : record.state ≠ .empty := by
    rw [Ne, valid.empty_iff, isEmpty_of_expireMembers members]
    decide
  have same : record.expireBeforeJoin nowMs = record.expireMembers nowMs := by
    unfold expireBeforeJoin
    dsimp only
    rw [members]
    exact if_neg (by simp)
  unfold joinAs
  dsimp only
  rw [same]
  by_cases full : (!(record.expireMembers nowMs).isRejoin req &&
      decide (kMaxMembersPerGroup ≤ (record.expireMembers nowMs).members.size)) = true
  · -- a group that is full refuses the member, and no id is taken
    rw [if_pos full]
    refine (valid_expireMembers_iff valid members).trans (Iff.symm (and_iff_left fun _ room => ?_))
    rw [Bool.and_eq_true, decide_eq_true_eq] at full
    exact absurd room (Nat.not_lt.mpr full.2)
  · rw [if_neg full]
    have joined := @join_joined (record.expireMembers nowMs) memberId nowMs order req
      ((record.expireMembers nowMs).isRejoin req) valid.alive occupied
    rw [joined.valid_iff]
    by_cases stays : record.LeaderStays nowMs
    · have still_led := (led_expireMembers_iff led).mpr stays
      rw [joined.led_iff still_led, and_iff_right stays]
      exact takes_iff still_led named full
    · refine iff_of_false (joined.not_led ?_) fun both => stays both.1
      exact unflagged_of_not_led led flag_expireMembers_fewer rfl fun still => stays ((led_expireMembers_iff led).mp still)

theorem joinAs_valid_iff (valid : record.Valid) (named : req.memberId ≠ [] → memberId = req.memberId) :
    (record.joinAs req memberId nowMs order).2.Valid ↔ record.JoinKeepsLeader req memberId nowMs := by
  unfold JoinKeepsLeader
  rw [← isEmpty_expireMembers_iff]
  cases members : (record.expireMembers nowMs).isEmpty with
  | true => exact (joinAs_valid_iff_of_isEmpty valid members).trans (by simp)
  | false => exact (joinAs_valid_iff_of_members valid members named).trans (by simp)

/-!
## Heartbeats, leaves and syncs
-/

theorem not_sessionExpired_beat (member : MemberRecord) :
    sessionExpired { member with lastHeartbeatMs := nowMs } nowMs = false := by
  rw [sessionExpired, decide_eq_false_iff_not, Int.sub_self, Int32.lt_iff_toInt_lt, Int32.toInt_zero]
  omega

theorem flag_touch : (record.touch memberId nowMs).flag id = record.flag id :=
  flagOf_modify (fun _ => by rfl) id

theorem leaderStays_touch_iff {member : MemberRecord} (present : record.members.find? memberId = some member) :
    (record.touch memberId nowMs).LeaderStays nowMs ↔ memberId = record.leaderId ∨ record.LeaderStays nowMs := by
  unfold LeaderStays touch
  rw [find?_modify]
  split
  next same =>
    refine iff_of_true ?_ (.inl same.symm)
    rw [present]
    exact ⟨_, rfl, not_sessionExpired_beat member⟩
  next different => simp [Ne.symm different]

theorem beat_valid_iff {member : MemberRecord} (valid : record.Valid)
    (present : record.members.find? memberId = some member) :
    (record.beat memberId nowMs).2.Valid ↔
      (record.state = .preparingRebalance ∧ record.rebalanceTimedOut nowMs = true →
        memberId = record.leaderId ∨ record.LeaderStays nowMs) := by
  have touched : (record.touch memberId nowMs).Valid := valid.congr rfl rfl flag_touch
  have survives : ((record.touch memberId nowMs).expireMembers nowMs).isEmpty = false := by
    have flag : ((record.touch memberId nowMs).expireMembers nowMs).flag memberId = some member.isLeader := by
      refine (flag_expireMembers memberId).trans ?_
      rw [touch, find?_modify, if_pos rfl, present]
      simp [not_sessionExpired_beat]
    exact isEmpty_eq_false_of_flagOf flag
  have timed : (record.touch memberId nowMs).rebalanceTimedOut nowMs = record.rebalanceTimedOut nowMs := rfl
  unfold beat
  dsimp only
  rw [timed, survives]
  by_cases preparing : record.state = .preparingRebalance
  · rw [if_pos (show (record.touch memberId nowMs).state = _ from preparing)]
    cases timedOut : record.rebalanceTimedOut nowMs with
    | true =>
      rw [if_pos rfl, if_neg nofun]
      refine (valid_expireMembers_iff touched survives).trans ((leaderStays_touch_iff present).trans ?_)
      simp [preparing]
    | false => simp [touched]
  · rw [if_neg (show ¬(record.touch memberId nowMs).state = _ from preparing)]
    simp [touched, preparing]

theorem removeMember_spec (progress : Bool × GroupRecord) (memberId : Bytes) :
    (removeMember progress memberId).2.state = progress.2.state ∧
      (removeMember progress memberId).2.leaderId = progress.2.leaderId ∧
      (∀ id, (removeMember progress memberId).2.flag id = if id = memberId then none else progress.2.flag id) ∧
      ((removeMember progress memberId).1 = true ↔ progress.1 = true ∨ progress.2.flag memberId = some true) := by
  obtain ⟨leaderRemoved, record⟩ := progress
  unfold removeMember
  cases found : record.members.find? memberId with
  | none =>
    have unknown : record.flag memberId = none := by rw [flag, flagOf, found]; rfl
    simp only [found]
    refine ⟨trivial, trivial, fun id => ?_, ?_⟩
    · split
      next same => rw [same]; exact unknown
      next => rfl
    · simp [unknown]
  | some member =>
    have known : record.flag memberId = some member.isLeader := by rw [flag, flagOf, found]; rfl
    simp only [found]
    refine ⟨trivial, trivial, fun id => flagOf_erase id, ?_⟩
    simp [known]

/-- Members have left a group, and the flag says whether the leader is among them. -/
structure Left (record : GroupRecord) (progress : Bool × GroupRecord) : Prop where
  state : progress.2.state = record.state
  leaderId : progress.2.leaderId = record.leaderId
  fewer : ∀ id, progress.2.flag id = none ∨ progress.2.flag id = record.flag id
  leader_gone : progress.1 = true ↔ progress.2.flag record.leaderId = none

variable {progress : Bool × GroupRecord}

theorem Left.removeMember (led : record.Led) (left : Left record progress)
    (memberId : Bytes) : Left record (removeMember progress memberId) := by
  obtain ⟨state, leaderId, flags, removed⟩ := removeMember_spec progress memberId
  refine ⟨state.trans left.state, leaderId.trans left.leaderId, fun id => ?_, ?_⟩
  · have now := flags id
    split at now
    next => exact .inl now
    next => exact (left.fewer id).imp now.trans now.trans
  · have now := flags record.leaderId
    have own : progress.2.flag memberId = some true → memberId = record.leaderId := by
      intro set
      rcases left.fewer memberId with gone | same
      · rw [gone] at set
        cases set
      · exact led.only memberId (same.symm.trans set)
    refine removed.trans ?_
    rw [left.leader_gone]
    split at now
    next same =>
      refine iff_of_true ?_ now
      rw [← same]
      exact (left.fewer record.leaderId).imp id fun kept => kept.trans led.named
    next different =>
      rw [now]
      exact or_iff_left fun set => different (own set).symm

theorem Left.removeMembers (led : record.Led) (memberIds : List Bytes) :
    Left record (memberIds.foldl GroupRecord.removeMember (false, record)) := by
  have run : ∀ progress, Left record progress → Left record (memberIds.foldl GroupRecord.removeMember progress) := by
    induction memberIds with
    | nil => exact fun _ left => left
    | cons memberId memberIds ih => exact fun progress left => ih _ (left.removeMember led memberId)
  refine run _ ⟨rfl, rfl, fun _ => .inr rfl, ?_⟩
  have named : record.flag record.leaderId = some true := led.named
  simp [named]

theorem afterLeave_valid (led : record.Led) (left : Left record progress) :
    (progress.2.afterLeave progress.1 nowMs order).Valid := by
  obtain ⟨leaderRemoved, remaining⟩ := progress
  unfold afterLeave
  cases members : remaining.isEmpty with
  | true => exact ⟨nofun, iff_of_true rfl members, fun occupied => absurd (members.symm.trans occupied) nofun⟩
  | false =>
    rw [if_neg nofun]
    cases leaderRemoved with
    | true =>
      have alone : ∀ id, remaining.flag id = some true → id = remaining.firstMember order := by
        intro id set
        rcases left.fewer id with gone | same
        · exact absurd (gone.symm.trans set) nofun
        · rw [led.only id (same.symm.trans set), left.leader_gone.mp rfl] at set
          cases set
      have elected : (remaining.electLeader (remaining.firstMember order)).Led :=
        Leads.elect (fun _ => by rfl) (flagOf_firstKey order [] members) alone
      exact (valid_iff_led (by exact nofun) (by exact nofun)).mpr elected
    | false =>
      have stays : remaining.Led := by
        rw [Led, left.leaderId]
        refine (led.restrict_iff left.fewer).mpr fun gone => ?_
        exact absurd (left.leader_gone.mpr gone) nofun
      exact (valid_iff_led (by exact nofun) (by exact nofun)).mpr stays

theorem Valid.leave {req : LeaveGroupRequest} (valid : record.Valid) : (record.leave req nowMs order).2.Valid := by
  unfold GroupRecord.leave
  dsimp only
  split
  next => exact valid
  next =>
    split
    next known =>
      obtain ⟨id, -, present⟩ := any_eq_true.mp known
      obtain ⟨member, found⟩ := isSome_iff_exists.mp present
      have flag : record.flag id = some member.isLeader := by rw [flag, flagOf, found]; rfl
      have led := valid.led_of_occupied (valid.occupied flag)
      exact afterLeave_valid led (Left.removeMembers led _)
    next => exact valid

theorem Valid.sync {req : SyncGroupRequest} {orders : Orders} (valid : record.Valid) :
    (record.sync req orders).2.Valid := by
  have marked : (record.markSynced req).Valid := valid.congr rfl rfl fun _ => rfl
  unfold GroupRecord.sync
  dsimp only
  cases record.validateGeneration req.generationId with
  | none =>
    cases found : record.members.find? req.memberId with
    | none => exact valid
    | some member =>
      have flag : record.flag req.memberId = some member.isLeader := by rw [flag, flagOf, found]; rfl
      have led := valid.led_of_occupied (valid.occupied flag)
      dsimp only
      split
      next =>
        split
        next =>
          have assigned : ((record.markSynced req).assign orders).Led :=
            led.congr fun id => flagOf_mapValues (fun _ _ => by rfl) id
          exact (valid_iff_led (by rintro ⟨⟩) (by rintro ⟨⟩)).mpr assigned
        next => exact marked
      next =>
        split <;> exact marked
  | _ => exact valid

/-!
## Reached groups
-/

def Alive (record : GroupRecord) : Prop := record.state ≠ .dead

/-- What a group is to be: empty exactly without members, and else with a leader. -/
structure InOrder (record : GroupRecord) : Prop where
  empty_iff : record.state = .empty ↔ record.isEmpty = true
  led : record.isEmpty = false → record.Led

section

variable (alive : record.Alive)

include alive

theorem valid_iff_inOrder : record.Valid ↔ record.InOrder :=
  ⟨fun valid => ⟨valid.empty_iff, valid.led⟩, fun inOrder => ⟨alive, inOrder.empty_iff, inOrder.led⟩⟩

theorem Alive.join : (record.join req memberId isRejoin nowMs order).2.Alive := by
  by_cases occupied : record.state = .empty
  · unfold GroupRecord.join
    rw [occupied]
    exact nofun
  · have joined := @join_joined record memberId nowMs order req isRejoin alive occupied
    rcases joined.occupied with state | state
    · exact state.trans_ne nofun
    · exact state.trans_ne nofun

theorem Alive.expireBeforeJoin : (record.expireBeforeJoin nowMs).Alive := by
  unfold GroupRecord.expireBeforeJoin
  dsimp only
  split
  next => exact nofun
  next => exact alive

theorem Alive.joinAs : (record.joinAs req memberId nowMs order).2.Alive := by
  unfold GroupRecord.joinAs
  dsimp only
  split
  next => exact alive.expireBeforeJoin
  next => exact alive.expireBeforeJoin.join

theorem Alive.heartbeat {req : HeartbeatRequest} : (record.heartbeat req nowMs).2.Alive := by
  have beaten : (record.beat req.memberId nowMs).2.Alive := by
    unfold beat
    dsimp only
    split
    next =>
      split
      next =>
        split
        next => exact nofun
        next => exact alive
      next => exact alive
    next => exact alive
  unfold GroupRecord.heartbeat
  cases record.members.find? req.memberId with
  | none => exact alive
  | some member =>
    cases record.validateGeneration req.generationId with
    | none => exact beaten
    | _ => exact alive

theorem Alive.leave {req : LeaveGroupRequest} : (record.leave req nowMs order).2.Alive := by
  unfold GroupRecord.leave
  dsimp only
  split
  next => exact alive
  next =>
    split
    next =>
      unfold afterLeave
      dsimp only
      split
      next => exact nofun
      next =>
        split
        next => exact nofun
        next => exact nofun
    next => exact alive

theorem Alive.sync {req : SyncGroupRequest} {orders : Orders} :
    (record.sync req orders).2.Alive := by
  unfold GroupRecord.sync
  dsimp only
  cases record.validateGeneration req.generationId with
  | none =>
    cases record.members.find? req.memberId with
    | none => exact alive
    | some member =>
      dsimp only
      split
      next =>
        split
        next => exact nofun
        next => exact alive
      next => split <;> exact alive
  | _ => exact alive

theorem Alive.expire : (record.expire nowMs).Alive := by
  unfold GroupRecord.expire
  dsimp only
  split
  next => exact nofun
  next => exact alive

end

/-- A heartbeat does no harm unless it comes from a member of a group whose rebalance has lasted too long. -/
def BeatKeepsLeader (record : GroupRecord) (req : HeartbeatRequest) (nowMs : Int) : Prop :=
  (record.members.find? req.memberId).isSome = true → record.validateGeneration req.generationId = .none →
    record.state = .preparingRebalance ∧ record.rebalanceTimedOut nowMs = true →
      req.memberId = record.leaderId ∨ record.LeaderStays nowMs

theorem heartbeat_valid_iff {req : HeartbeatRequest} (valid : record.Valid) :
    (record.heartbeat req nowMs).2.Valid ↔ record.BeatKeepsLeader req nowMs := by
  unfold GroupRecord.heartbeat BeatKeepsLeader
  cases found : record.members.find? req.memberId with
  | none => exact iff_of_true valid nofun
  | some member =>
    cases accepted : record.validateGeneration req.generationId with
    | none => exact (beat_valid_iff valid found).trans (by simp)
    | _ => exact iff_of_true valid fun _ => nofun

end GroupRecord

namespace GroupStateManager

def AllGroups (ok : GroupRecord → Prop) (manager : GroupStateManager) : Prop :=
  ∀ groupId, ∀ record ∈ manager.groups.find? groupId, ok record

variable {manager : GroupStateManager} {ok : GroupRecord → Prop} {groupId : Bytes} {record : GroupRecord}

theorem AllGroups.initial : AllGroups ok {} := by
  intro groupId record found
  cases found

theorem AllGroups.insert_iff {counter : Nat} (all : manager.AllGroups ok) :
    AllGroups ok { groups := manager.groups.insert groupId record, counter := counter } ↔ ok record := by
  constructor
  · intro inserted
    exact inserted groupId record ((find?_insert groupId).trans (if_pos rfl))
  · intro good other stored found
    rw [mem_def, find?_insert] at found
    split at found
    next => exact Option.some.inj found ▸ good
    next => exact all other stored found

theorem AllGroups.mapValues_iff {change : Bytes → GroupRecord → GroupRecord} {counter : Nat} :
    AllGroups ok { groups := manager.groups.mapValues change, counter := counter } ↔
      ∀ groupId, ∀ record ∈ manager.groups.find? groupId, ok (change groupId record) := by
  refine forall_congr' fun groupId => ?_
  rw [find?_mapValues]
  simp

theorem AllGroups.getOrCreate (all : manager.AllGroups ok) (fresh : ok {})
    (found : manager.getOrCreate groupId = some record) : ok record := by
  unfold GroupStateManager.getOrCreate at found
  cases stored : manager.groups.find? groupId with
  | some known =>
    rw [stored] at found
    exact Option.some.inj found ▸ all groupId known stored
  | none =>
    rw [stored] at found
    dsimp only at found
    split at found
    next => cases found
    next => exact Option.some.inj found ▸ fresh

def KeepsLeaders (manager : GroupStateManager) : Event → Prop
  | .join clientId req nowMs idNowMs _ =>
    validateJoin req = none → ∀ record ∈ manager.getOrCreate req.groupId,
      record.JoinKeepsLeader (clampJoin req) (manager.joinerId clientId req idNowMs) nowMs
  | .heartbeat req nowMs => ∀ record ∈ manager.groups.find? req.groupId, record.BeatKeepsLeader req nowMs
  | .leave _ _ _ => True
  | .sync _ _ => True
  | .expireAll nowMs =>
    ∀ groupId, ∀ record ∈ manager.groups.find? groupId, record.AllExpired nowMs ∨ record.LeaderStays nowMs

variable {nowMs : Int} {order : IterationOrder Bytes}

section

variable (all : manager.AllGroups ok)

include all

theorem handleJoin_allGroups_iff {clientId : Bytes} {req : JoinGroupRequest} {idNowMs : Int} :
    (manager.handleJoin clientId req nowMs idNowMs order).2.AllGroups ok ↔
      (validateJoin req = none → ∀ record ∈ manager.getOrCreate req.groupId,
        ok (record.joinAs (clampJoin req) (manager.joinerId clientId req idNowMs) nowMs order).2) := by
  unfold handleJoin
  cases validateJoin req with
  | some errorCode => exact iff_of_true all nofun
  | none =>
    have same : (clampJoin req).groupId = req.groupId := rfl
    dsimp only
    rw [same]
    cases manager.getOrCreate req.groupId with
    | none => exact iff_of_true all fun _ => nofun
    | some record => exact all.insert_iff.trans (by simp; rfl)

theorem handleHeartbeat_allGroups_iff {req : HeartbeatRequest} :
    (manager.handleHeartbeat req nowMs).2.AllGroups ok ↔
      ∀ record ∈ manager.groups.find? req.groupId, ok (record.heartbeat req nowMs).2 := by
  unfold handleHeartbeat
  cases manager.groups.find? req.groupId with
  | none => exact iff_of_true all nofun
  | some record => exact all.insert_iff.trans (by simp)

theorem handleLeave_allGroups_iff {req : LeaveGroupRequest} :
    (manager.handleLeave req nowMs order).2.AllGroups ok ↔
      ∀ record ∈ manager.groups.find? req.groupId, ok (record.leave req nowMs order).2 := by
  unfold handleLeave
  cases manager.groups.find? req.groupId with
  | none => exact iff_of_true all nofun
  | some record => exact all.insert_iff.trans (by simp)

theorem handleSync_allGroups_iff {req : SyncGroupRequest} {orders : Orders} :
    (manager.handleSync req orders).2.AllGroups ok ↔
      ∀ record ∈ manager.groups.find? req.groupId, ok (record.sync req orders).2 := by
  unfold handleSync
  cases manager.groups.find? req.groupId with
  | none => exact iff_of_true all nofun
  | some record => exact all.insert_iff.trans (by simp)

end

theorem step_alive (event : Event) (alive : manager.AllGroups GroupRecord.Alive) :
    (step manager event).AllGroups GroupRecord.Alive := by
  cases event with
  | join clientId req nowMs idNowMs order =>
    exact (handleJoin_allGroups_iff alive).mpr fun _ record found => (alive.getOrCreate nofun found).joinAs
  | heartbeat req nowMs => exact (handleHeartbeat_allGroups_iff alive).mpr fun record found => (alive _ _ found).heartbeat
  | leave req nowMs order => exact (handleLeave_allGroups_iff alive).mpr fun record found => (alive _ _ found).leave
  | sync req orders => exact (handleSync_allGroups_iff alive).mpr fun record found => (alive _ _ found).sync
  | expireAll nowMs => exact AllGroups.mapValues_iff.mpr fun groupId record found => (alive _ _ found).expire

theorem step_valid_iff (event : Event) (valid : manager.AllGroups GroupRecord.Valid) :
    (step manager event).AllGroups GroupRecord.Valid ↔ manager.KeepsLeaders event := by
  cases event with
  | join clientId req nowMs idNowMs order =>
    refine (handleJoin_allGroups_iff valid).trans (imp_congr_right fun _ => forall₂_congr fun record found => ?_)
    refine GroupRecord.joinAs_valid_iff (valid.getOrCreate .initial found) fun named => ?_
    exact if_neg (by simpa [clampJoin] using named)
  | heartbeat req nowMs =>
    refine (handleHeartbeat_allGroups_iff valid).trans (forall₂_congr fun record found => ?_)
    exact GroupRecord.heartbeat_valid_iff (valid _ _ found)
  | leave req nowMs order =>
    exact iff_of_true ((handleLeave_allGroups_iff valid).mpr fun record found => (valid _ _ found).leave) trivial
  | sync req orders =>
    exact iff_of_true ((handleSync_allGroups_iff valid).mpr fun record found => (valid _ _ found).sync) trivial
  | expireAll nowMs =>
    refine AllGroups.mapValues_iff.trans (forall_congr' fun groupId => forall₂_congr fun record found => ?_)
    exact (GroupRecord.valid_expire_iff (valid _ _ found)).trans (or_congr_left GroupRecord.isEmpty_expireMembers_iff)

end GroupStateManager

open GroupStateManager Runs

theorem run_alive (events : List Event) : (run step {} events).AllGroups GroupRecord.Alive :=
  Meets.preserves (AllGroups GroupRecord.Alive) (fun _ event _ => step_alive event) .initial
    (meets_of_forall (fun _ _ => trivial) _ : Meets step (fun _ _ => True) _ events)

/-- The groups are in order all through a run exactly if no event takes a leader away from the members that stay. -/
theorem run_inOrder_iff (events : List Event) :
    Meets step KeepsLeaders {} events ↔
      ∀ reached, reached <+: events → (run step {} reached).AllGroups GroupRecord.InOrder := by
  refine (meets_iff_prefixes (AllGroups GroupRecord.Valid) (fun _ => step_valid_iff) .initial events).trans ?_
  refine forall₂_congr fun reached _ => forall_congr' fun groupId => forall₂_congr fun record found => ?_
  exact GroupRecord.valid_iff_inOrder (run_alive reached groupId record found)

/-- The session of the first member, which leads the group, is over when that of the second one still lasts. -/
def leaderExpires : List Event :=
  let join (memberId : Bytes) (sessionTimeoutMs : Int32) : Event :=
    .join [] { groupId := [103], sessionTimeoutMs := sessionTimeoutMs, rebalanceTimeoutMs := 0, memberId := memberId }
      0 0 (.ascending Bytes)
  [join [97] 100, join [98] 1000, .expireAll 200]

theorem leaderExpires_not_inOrder : ¬∀ events, (run step {} events).AllGroups GroupRecord.InOrder := by
  intro all
  have found : ((run step {} leaderExpires).groups.find? [103]).isSome = true := by decide
  obtain ⟨record, stored⟩ := isSome_iff_exists.mp found
  have kept := all leaderExpires [103] record stored
  have leaderless : ((run step {} leaderExpires).groups.find? [103]).map
      (fun record => (record.isEmpty, record.flag record.leaderId)) = some (false, none) := by decide
  rw [stored] at leaderless
  simp only [map_some, Option.some.injEq, Prod.mk.injEq] at leaderless
  exact some_ne_none true ((kept.led leaderless.1).named.symm.trans leaderless.2)

end TorrentMq.Client.GroupHandler
