import TorrentMq.Arithmetic.Counters
import TorrentMq.Client.GroupCalls
import TorrentMq.Client.GroupLeaderProperties
import TorrentMq.Runs.Fencing

/-! Which runs of a group of the handler keep members of earlier generations out. -/

set_option autoImplicit false

namespace TorrentMq.Client.GroupHandler

open Bytes Collections Network GroupAssignors List OrderedMap GroupRecord

namespace GroupRecord

def takesPart (record : GroupRecord) : Call → Bytes → Option Int
  | .join req generatedId nowMs order, member =>
    match (record.joinAs req (idOf req generatedId) nowMs order).1 with
    | .joined _ generationId _ _ memberId _ => if member = memberId then some generationId.toInt else none
    | .refused _ _ => none
  | .sync req _, member =>
    if member = req.memberId ∧ record.validateGeneration req.generationId = .none ∧ member ∈ record.members.keys then
      some req.generationId.toInt
    else none
  | _, _ => none

def remaining (record : GroupRecord) : Call → GroupRecord
  | .join _ _ nowMs _ => record.expireMembers nowMs
  | call => record.step call

def accepts (record : GroupRecord) : Call → Bytes → Int → Prop
  | .heartbeat req nowMs, member, number =>
    req.memberId = member ∧ req.generationId.toInt = number ∧ (record.heartbeat req nowMs).1 = .none
  | _, _, _ => False

def coordinator : Runs.Coordinator GroupRecord Call Bytes Int where
  step := step
  number record := record.generationId.toInt
  occupied record := record.isEmpty = false
  empties record call := record.isEmpty = false ∧ (record.remaining call).isEmpty = true
  takesPart := takesPart
  accepts := accepts

def NeverUsed (record : GroupRecord) : Prop := record.state = .empty ∧ record.generationId = 0

def OpensByJoin (record : GroupRecord) (req : JoinGroupRequest) (nowMs : Int) : Prop :=
  record.state = .stable ∧ ¬record.AllExpired nowMs ∧ (record.expireMembers nowMs).isRejoin req = false ∧
    record.HasRoom nowMs

def KeepsNumbers (record : GroupRecord) : Call → Prop
  | .join req _ nowMs _ =>
    (record.NeverUsed ∨ ¬record.AllExpired nowMs) ∧
      (record.OpensByJoin req nowMs → record.generationId ≠ Int32.maxValue)
  | .leave req _ _ =>
    (∃ id ∈ membersToRemove req, id ∈ record.members.keys) → record.generationId ≠ Int32.maxValue
  | _ => True

/-- Every member of a stable group has taken part in its generation, and so has everyone who is marked as synced. -/
structure Attested (record : GroupRecord) (rounds : Bytes → Option Int) : Prop where
  alive : record.Alive
  empty_iff : record.state = .empty ↔ record.isEmpty = true
  numbered : record.NeverUsed ∨ 0 < record.generationId.toInt
  stable : record.state = .stable → ∀ id ∈ record.members.keys, rounds id = some record.generationId.toInt
  synced : ∀ id ∈ record.syncedMembers.keys, rounds id = some record.generationId.toInt

variable {record after : GroupRecord} {rounds : Bytes → Option Int} {memberId : Bytes} {nowMs : Int}
  {order : IterationOrder Bytes}

theorem Attested.initial : Attested {} fun _ => none where
  alive := nofun
  empty_iff := ⟨fun _ => rfl, fun _ => rfl⟩
  numbered := .inl ⟨rfl, rfl⟩
  stable := nofun
  synced := nofun

section

variable (attested : record.Attested rounds)

include attested

theorem Attested.numbered_of_occupied (occupied : record.state ≠ .empty) :
    0 < record.generationId.toInt := attested.numbered.resolve_left fun fresh => occupied fresh.1

theorem Attested.occupied (member : memberId ∈ record.members.keys) :
    record.state ≠ .empty := by
  rw [Ne, attested.empty_iff, isEmpty, isEmpty_entries_eq_false member]
  exact Bool.false_ne_true

theorem Attested.frame (alive : after.Alive)
    (empty_iff : after.state = .empty ↔ after.isEmpty = true) (generationId : after.generationId = record.generationId)
    (fewer : ∀ id ∈ after.members.keys, id ∈ record.members.keys)
    (synced : ∀ id ∈ after.syncedMembers.keys, id ∈ record.syncedMembers.keys)
    (stable : after.state = .stable → record.state = .stable) : after.Attested rounds where
  alive := alive
  empty_iff := empty_iff
  numbered := by
    rw [NeverUsed, generationId]
    refine attested.numbered.imp_left fun fresh => ⟨?_, fresh.2⟩
    have none := attested.empty_iff.mp fresh.1
    rw [isEmpty, isEmpty_entries_iff] at none
    rw [empty_iff, isEmpty, isEmpty_entries_iff]
    exact fun id member => none id (fewer id member)
  stable := fun now_stable id member => by
    rw [generationId]
    exact attested.stable (stable now_stable) id (fewer id member)
  synced := fun id member => by
    rw [generationId]
    exact attested.synced id (synced id member)

end

/-!
## Expiry
-/

theorem mem_keys_of_expireMembers {id : Bytes} (stays : id ∈ (record.expireMembers nowMs).members.keys) :
    id ∈ record.members.keys := mem_keys_of_filterValues stays

section

variable (attested : record.Attested rounds)

include attested

theorem Attested.expireMembers
    (members : (record.expireMembers nowMs).isEmpty = false) : (record.expireMembers nowMs).Attested rounds := by
  refine attested.frame attested.alive ?_ rfl (fun _ => mem_keys_of_expireMembers) (fun _ => id) id
  have occupied := attested.empty_iff.not.mpr (Bool.not_eq_true _ ▸ isEmpty_of_expireMembers members)
  exact iff_of_false occupied (Bool.not_eq_true _ ▸ members)

theorem Attested.expireToEmpty
    (none : (record.expireMembers nowMs).isEmpty = true) :
    Attested { record.expireMembers nowMs with state := .empty } rounds :=
  attested.frame nofun (iff_of_true rfl none) rfl (fun _ => mem_keys_of_expireMembers) (fun _ => id) nofun

theorem Attested.expire : (record.expire nowMs).Attested rounds := by
  rw [expire_eq]
  cases members : (record.expireMembers nowMs).isEmpty with
  | false =>
    rw [if_neg (by simp)]
    exact attested.expireMembers members
  | true =>
    split
    next => exact attested.expireToEmpty members
    next kept =>
      have none : record.isEmpty = true := by simpa using kept
      exact attested.frame attested.alive (iff_of_true (attested.empty_iff.mpr none) members) rfl
        (fun _ => mem_keys_of_expireMembers) (fun _ => id) id

theorem Attested.expireBeforeJoin
    (used : record.state = .preparingRebalance → (record.expireMembers nowMs).isEmpty = false) :
    (record.expireBeforeJoin nowMs).Attested rounds := by
  cases members : (record.expireMembers nowMs).isEmpty with
  | false =>
    have same : record.expireBeforeJoin nowMs = record.expireMembers nowMs := by
      unfold GroupRecord.expireBeforeJoin
      dsimp only
      rw [members]
      exact if_neg (by simp)
    rw [same]
    exact attested.expireMembers members
  | true =>
    unfold GroupRecord.expireBeforeJoin
    dsimp only
    split
    next => exact attested.expireToEmpty members
    next other =>
      have empty : record.state = .empty := by
        cases state : record.state with
        | empty => rfl
        | stable => exact absurd ⟨members, state⟩ other
        | preparingRebalance => exact absurd ((used state).symm.trans members) nofun
        | dead => exact absurd state attested.alive
      exact attested.frame attested.alive (iff_of_true empty members) rfl
        (fun _ => mem_keys_of_expireMembers) (fun _ => id) id

end

theorem expireBeforeJoin_generationId (record : GroupRecord) (nowMs : Int) :
    (record.expireBeforeJoin nowMs).generationId = record.generationId := by
  unfold expireBeforeJoin
  dsimp only
  split
  next => rfl
  next => rfl

theorem expireBeforeJoin_stable (stable : (record.expireBeforeJoin nowMs).state = .stable) :
    record.state = .stable ∧ ¬(record.expireMembers nowMs).isEmpty = true := by
  obtain ⟨-, -, same_state⟩ := expireBeforeJoin_frame record nowMs
  rw [same_state] at stable
  split at stable
  next => cases stable
  next last => exact ⟨stable, fun none => last ⟨none, stable⟩⟩

/-!
## Joins
-/

structure JoinOutcome (record : GroupRecord) (memberId : Bytes) (isRejoin : Bool) (after : GroupRecord) :
    Prop where
  present : ∀ id, id ∈ after.members.keys ↔ id = memberId ∨ id ∈ record.members.keys
  first : record.state = .empty →
    after.state = .stable ∧ after.generationId = 1 ∧ after.syncedMembers = .empty
  opens : record.state = .stable → isRejoin = false →
    after.state = .preparingRebalance ∧ after.generationId = record.generationId + 1 ∧ after.syncedMembers = .empty
  continues : record.state ≠ .empty → record.state = .preparingRebalance ∨ isRejoin = true →
    after.state = record.state ∧ after.generationId = record.generationId ∧
      after.syncedMembers = record.syncedMembers

variable {req : JoinGroupRequest}

theorem mem_keys_rejoin {awaitingSync : Bool} (known : memberId ∈ record.members.keys) (id : Bytes) :
    id ∈ (record.rejoin req memberId nowMs awaitingSync).members.keys ↔ id = memberId ∨ id ∈ record.members.keys := by
  refine mem_keys_modify.trans ⟨.inr, fun either => ?_⟩
  rcases either with rfl | member
  · exact known
  · exact member

theorem extendDeadline_rest (record : GroupRecord) (req : JoinGroupRequest) (nowMs : Int) :
    (record.extendDeadline req nowMs).generationId = record.generationId ∧
      (record.extendDeadline req nowMs).syncedMembers = record.syncedMembers := by
  unfold extendDeadline
  dsimp only
  split
  next => exact ⟨rfl, rfl⟩
  next => exact ⟨rfl, rfl⟩

theorem join_outcome {req : JoinGroupRequest} {isRejoin : Bool} (alive : record.Alive)
    (known : isRejoin = true → memberId ∈ record.members.keys) :
    JoinOutcome record memberId isRejoin (record.join req memberId isRejoin nowMs order).2 := by
  unfold join
  cases state : record.state with
  | dead => exact absurd state alive
  | empty =>
    refine ⟨fun id => mem_keys_insert, fun _ => ⟨rfl, rfl, rfl⟩, ?_, ?_⟩
    · intro stable
      cases state.symm.trans stable
    · intro occupied
      exact absurd state occupied
  | stable =>
    cases isRejoin with
    | true =>
      refine ⟨mem_keys_rejoin (known rfl), ?_, nofun, fun _ _ => ⟨rfl, rfl, rfl⟩⟩
      intro empty
      cases state.symm.trans empty
    | false =>
      refine ⟨fun id => mem_keys_insert, ?_, fun _ _ => ⟨rfl, rfl, rfl⟩, ?_⟩
      · intro empty
        cases state.symm.trans empty
      · intro _ either
        cases either with
        | inl preparing => cases state.symm.trans preparing
        | inr rejoin => cases rejoin
  | preparingRebalance =>
    cases isRejoin with
    | true =>
      obtain ⟨same_state, -, same_members⟩ := extendDeadline_frame (record.rejoin req memberId nowMs true) req nowMs
      obtain ⟨same_number, same_synced⟩ := extendDeadline_rest (record.rejoin req memberId nowMs true) req nowMs
      refine ⟨fun id => ?_, ?_, nofun, fun _ _ => ⟨same_state, same_number, same_synced⟩⟩
      · rw [← mem_keys_rejoin (known rfl) id]
        exact iff_of_eq (congrArg (id ∈ ·.keys) same_members)
      · intro empty
        cases state.symm.trans empty
    | false =>
      obtain ⟨same_state, -, same_members⟩ := extendDeadline_frame ({ record with
        members := record.members.insert memberId (newMember req memberId nowMs false) }.reelectProtocol order)
          req nowMs
      obtain ⟨same_number, same_synced⟩ := extendDeadline_rest ({ record with
        members := record.members.insert memberId (newMember req memberId nowMs false) }.reelectProtocol order)
          req nowMs
      refine ⟨fun id => ?_, ?_, ?_, fun _ _ => ⟨same_state, same_number, same_synced⟩⟩
      · rw [← mem_keys_insert]
        exact iff_of_eq (congrArg (id ∈ ·.keys) same_members)
      · intro empty
        cases state.symm.trans empty
      · intro stable
        cases state.symm.trans stable

theorem join_response {req : JoinGroupRequest} {isRejoin : Bool} (alive : record.Alive) :
    ∃ errorCode protocol leaderId members,
      (record.join req memberId isRejoin nowMs order).1 = .joined errorCode
        (record.join req memberId isRejoin nowMs order).2.generationId protocol leaderId memberId members := by
  unfold join
  cases state : record.state with
  | dead => exact absurd state alive
  | empty => exact ⟨_, _, _, _, rfl⟩
  | stable | preparingRebalance =>
    cases isRejoin with
    | true | false => exact ⟨_, _, _, _, rfl⟩

theorem Attested.join {isRejoin : Bool} (attested : record.Attested rounds)
    (outcome : JoinOutcome record memberId isRejoin after)
    (room : record.state = .stable → isRejoin = false → record.generationId ≠ Int32.maxValue) :
    after.Attested fun id => (if id = memberId then some after.generationId.toInt else none).or (rounds id) := by
  have joiner : after.isEmpty = false := isEmpty_entries_eq_false ((outcome.present memberId).mpr (.inl rfl))
  have told : ∀ id, id = memberId ∨ rounds id = some after.generationId.toInt →
      (if id = memberId then some after.generationId.toInt else none).or (rounds id) =
        some after.generationId.toInt := by
    intro id either
    split
    next => rfl
    next other => exact either.resolve_left other
  have continues : record.state ≠ .empty → record.state = .preparingRebalance ∨ isRejoin = true →
      after.Attested fun id => (if id = memberId then some after.generationId.toInt else none).or (rounds id) := by
    intro occupied either
    obtain ⟨same_state, same_number, same_synced⟩ := outcome.continues occupied either
    refine ⟨?_, ?_, .inr ?_, ?_, ?_⟩
    · exact same_state.trans_ne attested.alive
    · exact iff_of_false (same_state.trans_ne occupied) (by rw [joiner]; exact Bool.false_ne_true)
    · rw [same_number]
      exact attested.numbered_of_occupied occupied
    · intro stable id member
      refine told id (((outcome.present id).mp member).imp_right fun old => ?_)
      rw [same_number]
      exact attested.stable (same_state.symm.trans stable) id old
    · intro id member
      refine told id (.inr ?_)
      rw [same_number]
      exact attested.synced id (same_synced ▸ member)
  cases state : record.state with
  | dead => exact absurd state attested.alive
  | empty =>
    obtain ⟨now_stable, number, none_synced⟩ := outcome.first state
    have none := attested.empty_iff.mp state
    rw [isEmpty, isEmpty_entries_iff] at none
    refine ⟨now_stable.trans_ne (by decide),
      iff_of_false (now_stable.trans_ne (by decide)) (by rw [joiner]; exact Bool.false_ne_true),
      .inr (by rw [number]; decide), ?_, ?_⟩
    · intro _ id member
      exact told id (((outcome.present id).mp member).imp_right fun old => absurd old (none id))
    · rw [none_synced]
      exact fun id synced => absurd synced OrderedMap.mem_keys_empty
  | preparingRebalance => exact continues (by rw [state]; decide) (.inl state)
  | stable =>
    have occupied : record.state ≠ .empty := state.trans_ne (by decide)
    cases isRejoin with
    | true => exact continues occupied (.inr rfl)
    | false =>
      obtain ⟨preparing, number, none_synced⟩ := outcome.opens state rfl
      refine ⟨preparing.trans_ne (by decide),
        iff_of_false (preparing.trans_ne (by decide)) (by rw [joiner]; exact Bool.false_ne_true),
        .inr ?_, ?_, ?_⟩
      · have positive := attested.numbered_of_occupied occupied
        rw [number, Counters.toInt_succ (room state rfl)]
        omega
      · intro stable
        cases preparing.symm.trans stable
      · rw [none_synced]
        exact fun id synced => absurd synced OrderedMap.mem_keys_empty

theorem joinAs_cases (record : GroupRecord) (req : JoinGroupRequest) (generatedId : Bytes) (nowMs : Int)
    (order : IterationOrder Bytes) :
    (∃ errorCode memberId,
        record.joinAs req (idOf req generatedId) nowMs order = (.refused errorCode memberId, record.expireMembers nowMs)) ∧
        ¬record.HasRoom nowMs ∨
      record.joinAs req (idOf req generatedId) nowMs order = (record.expireBeforeJoin nowMs).join req
          (idOf req generatedId) ((record.expireMembers nowMs).isRejoin req) nowMs order ∧
        ((record.expireMembers nowMs).isRejoin req = false → record.HasRoom nowMs) ∧
        ((record.expireMembers nowMs).isRejoin req = true →
          idOf req generatedId ∈ (record.expireBeforeJoin nowMs).members.keys) := by
  obtain ⟨same_members, -, same_state⟩ := expireBeforeJoin_frame record nowMs
  have same_rejoin : (record.expireBeforeJoin nowMs).isRejoin req = (record.expireMembers nowMs).isRejoin req := by
    rw [isRejoin, isRejoin, same_members]
  have same_size : (record.expireBeforeJoin nowMs).members.size = (record.expireMembers nowMs).members.size := by
    rw [same_members]
  unfold joinAs
  dsimp only
  rw [same_rejoin, same_size]
  by_cases full : (!(record.expireMembers nowMs).isRejoin req &&
      decide (kMaxMembersPerGroup ≤ (record.expireMembers nowMs).members.size)) = true
  · rw [if_pos full]
    rw [Bool.and_eq_true, decide_eq_true_eq] at full
    refine .inl ⟨⟨_, _, Prod.ext rfl ?_⟩, Nat.not_lt.mpr full.2⟩
    have some_member : (record.expireMembers nowMs).isEmpty = false := by
      rw [← Bool.not_eq_true]
      exact fun none => Nat.not_lt.mpr full.2 (hasRoom_of_isEmpty none)
    unfold expireBeforeJoin
    dsimp only
    rw [some_member]
    exact if_neg (by simp)
  · rw [if_neg full]
    rw [Bool.and_eq_true, decide_eq_true_eq, not_and, Nat.not_le] at full
    refine .inr ⟨rfl, fun isNew => full (by rw [isNew]; rfl), fun rejoins => ?_⟩
    rw [isRejoin, Bool.and_eq_true, Bool.not_eq_true'] at rejoins
    rw [same_members, idOf, if_neg (by rw [rejoins.1]; exact Bool.false_ne_true)]
    exact mem_keys_iff_isSome.mpr rejoins.2

variable {generatedId : Bytes}

theorem Attested.joinAs (attested : record.Attested rounds)
    (kept : record.KeepsNumbers (.join req generatedId nowMs order)) :
    (record.step (.join req generatedId nowMs order)).Attested fun id =>
      (record.takesPart (.join req generatedId nowMs order) id).or (rounds id) := by
  have used : record.state = .preparingRebalance → (record.expireMembers nowMs).isEmpty = false := by
    intro preparing
    rw [← Bool.not_eq_true, isEmpty_expireMembers_iff]
    exact kept.1.resolve_left fun fresh => absurd (preparing.symm.trans fresh.1) nofun
  have expired := attested.expireBeforeJoin used
  rcases joinAs_cases record req generatedId nowMs order with ⟨⟨errorCode, memberId, refused⟩, full⟩ | joined
  · have some_member : (record.expireMembers nowMs).isEmpty = false := by
      rw [← Bool.not_eq_true]
      exact fun none => full (hasRoom_of_isEmpty none)
    simp only [step, takesPart, refused]
    exact attested.expireMembers some_member
  · obtain ⟨outcome, room, known⟩ := joined
    obtain ⟨errorCode, protocol, leaderId, members, response⟩ := @join_response _ (idOf req generatedId) nowMs order req
      ((record.expireMembers nowMs).isRejoin req) expired.alive
    simp only [step, takesPart, outcome, response]
    refine expired.join (join_outcome expired.alive known) fun stable isNew => ?_
    obtain ⟨was_stable, survivors⟩ := expireBeforeJoin_stable stable
    rw [expireBeforeJoin_generationId]
    exact kept.2 ⟨was_stable, isEmpty_expireMembers_iff.not.mp survivors, isNew, room isNew⟩

/-!
## Heartbeats, leaves and syncs
-/

theorem mem_keys_touch {id : Bytes} :
    id ∈ (record.touch memberId nowMs).members.keys ↔ id ∈ record.members.keys := mem_keys_modify

section

variable (attested : record.Attested rounds)

include attested

theorem Attested.touch : (record.touch memberId nowMs).Attested rounds := by
  refine attested.frame attested.alive ?_ rfl (fun _ => mem_keys_touch.mp) (fun _ => id) id
  refine attested.empty_iff.trans ?_
  rw [isEmpty, isEmpty, isEmpty_entries_iff, isEmpty_entries_iff]
  exact forall_congr' fun id => not_congr mem_keys_touch.symm

theorem Attested.beat : (record.beat memberId nowMs).2.Attested rounds := by
  have touched : (record.touch memberId nowMs).Attested rounds := attested.touch
  unfold GroupRecord.beat
  dsimp only
  split
  next =>
    split
    next =>
      split
      next none => exact touched.expireToEmpty none
      next some_member => exact touched.expireMembers (by simpa using some_member)
    next => exact touched
  next => exact touched

theorem Attested.heartbeat {req : HeartbeatRequest} :
    (record.heartbeat req nowMs).2.Attested rounds := by
  unfold GroupRecord.heartbeat
  cases record.members.find? req.memberId with
  | none => exact attested
  | some member =>
    cases record.validateGeneration req.generationId with
    | none => exact attested.beat
    | _ => exact attested

end

theorem validateGeneration_eq_none {generation : Int32} :
    record.validateGeneration generation = .none ↔ generation = record.generationId := by
  unfold validateGeneration
  split
  next other =>
    refine iff_of_false ?_ other
    split
    next => exact nofun
    next => exact nofun
  next same => exact iff_of_true rfl (not_not.mp same)

theorem beat_generationId : (record.beat memberId nowMs).2.generationId = record.generationId := by
  unfold beat
  dsimp only
  split
  next =>
    split
    next =>
      split
      next => rfl
      next => rfl
    next => rfl
  next => rfl

theorem heartbeat_generationId {req : HeartbeatRequest} :
    (record.heartbeat req nowMs).2.generationId = record.generationId := by
  unfold heartbeat
  cases record.members.find? req.memberId with
  | none => rfl
  | some member =>
    cases record.validateGeneration req.generationId with
    | none => exact beat_generationId
    | _ => rfl

theorem heartbeat_accepted {req : HeartbeatRequest} (accepted : (record.heartbeat req nowMs).1 = .none) :
    req.memberId ∈ record.members.keys ∧ req.generationId = record.generationId ∧
      record.state ≠ .preparingRebalance := by
  unfold heartbeat at accepted
  cases found : record.members.find? req.memberId with
  | none =>
    rw [found] at accepted
    cases accepted
  | some member =>
    rw [found] at accepted
    refine ⟨mem_keys_iff_isSome.mpr (by rw [found]; rfl), ?_⟩
    cases valid : record.validateGeneration req.generationId with
    | none =>
      refine ⟨validateGeneration_eq_none.mp valid, fun preparing => ?_⟩
      simp only [valid] at accepted
      unfold beat at accepted
      dsimp only at accepted
      rw [if_pos (show (record.touch req.memberId nowMs).state = _ from preparing)] at accepted
      split at accepted
      next =>
        split at accepted
        next => cases accepted
        next => cases accepted
      next => cases accepted
    | _ =>
      simp only [valid] at accepted
      cases accepted

theorem Attested.accepts {req : HeartbeatRequest} (attested : record.Attested rounds)
    (accepted : (record.heartbeat req nowMs).1 = .none) : rounds req.memberId = some req.generationId.toInt := by
  obtain ⟨member, same, settled⟩ := heartbeat_accepted accepted
  rw [same]
  refine attested.stable ?_ req.memberId member
  cases state : record.state with
  | stable => rfl
  | empty => exact absurd state (attested.occupied member)
  | preparingRebalance => exact absurd state settled
  | dead => exact absurd state attested.alive

theorem removeMembers_generationId (memberIds : List Bytes) (progress : Bool × GroupRecord) :
    (memberIds.foldl removeMember progress).2.generationId = progress.2.generationId := by
  induction memberIds generalizing progress with
  | nil => rfl
  | cons memberId memberIds ih =>
    refine (ih (removeMember progress memberId)).trans ?_
    unfold removeMember
    dsimp only
    cases progress.2.members.find? memberId with
    | none => rfl
    | some member => rfl

theorem afterLeave_spec (remaining : GroupRecord) (leaderRemoved : Bool) (nowMs : Int)
    (order : IterationOrder Bytes) :
    (remaining.afterLeave leaderRemoved nowMs order).generationId = remaining.generationId + 1 ∧
      (remaining.afterLeave leaderRemoved nowMs order).syncedMembers = .empty ∧
      (remaining.afterLeave leaderRemoved nowMs order).isEmpty = remaining.isEmpty ∧
      (remaining.afterLeave leaderRemoved nowMs order).state =
        if remaining.isEmpty then .empty else .preparingRebalance := by
  unfold afterLeave
  cases members : remaining.isEmpty with
  | true => exact ⟨rfl, rfl, members, rfl⟩
  | false =>
    rw [if_neg nofun]
    cases leaderRemoved with
    | false => exact ⟨rfl, rfl, members, rfl⟩
    | true =>
      refine ⟨rfl, rfl, ?_, rfl⟩
      rw [← members]
      have present : ∀ id, flagOf (fun _ : MemberRecord => true)
          (remaining.electLeader (remaining.firstMember order)).members id =
            flagOf (fun _ => true) remaining.members id := fun id => flagOf_modify (fun _ => by rfl) id
      exact isEmpty_congr present

theorem leave_cases (record : GroupRecord) (req : LeaveGroupRequest) (nowMs : Int) (order : IterationOrder Bytes) :
    (record.leave req nowMs order).2 = record ∧ ¬(∃ id ∈ membersToRemove req, id ∈ record.members.keys) ∨
      (∃ id ∈ membersToRemove req, id ∈ record.members.keys) ∧
        ∃ progress : Bool × GroupRecord, progress.2.generationId = record.generationId ∧
          (record.leave req nowMs order).2 = progress.2.afterLeave progress.1 nowMs order := by
  have some_known : ((membersToRemove req).any fun id => (record.members.find? id).isSome) = true ↔
      ∃ id ∈ membersToRemove req, id ∈ record.members.keys := by
    simp only [any_eq_true, mem_keys_iff_isSome]
  unfold leave
  dsimp only
  split
  next none =>
    refine .inl ⟨rfl, ?_⟩
    rintro ⟨id, listed, -⟩
    rw [List.isEmpty_iff.mp none] at listed
    cases listed
  next =>
    split
    next known =>
      exact .inr ⟨some_known.mp known, _, removeMembers_generationId _ (false, record), rfl⟩
    next unknown => exact .inl ⟨rfl, some_known.not.mp unknown⟩

theorem Attested.leave {req : LeaveGroupRequest} (attested : record.Attested rounds)
    (kept : record.KeepsNumbers (.leave req nowMs order)) : (record.leave req nowMs order).2.Attested rounds := by
  rcases leave_cases record req nowMs order with ⟨same, -⟩ | ⟨some_known, progress, same_number, outcome⟩
  · rw [same]
    exact attested
  · obtain ⟨number, none_synced, members, state⟩ := afterLeave_spec progress.2 progress.1 nowMs order
    have positive : 0 < record.generationId.toInt := by
      obtain ⟨id, -, known⟩ := some_known
      exact attested.numbered_of_occupied (attested.occupied known)
    rw [outcome]
    refine ⟨?_, ?_, .inr ?_, ?_, ?_⟩
    · rw [Alive, state]
      split
      next => exact nofun
      next => exact nofun
    · rw [state, members]
      cases progress.2.isEmpty with
      | true => simp
      | false => simp
    · rw [number, same_number, Counters.toInt_succ (kept some_known)]
      omega
    · rw [state]
      intro stable
      split at stable
      next => cases stable
      next => cases stable
    · rw [none_synced]
      exact fun id synced => absurd synced OrderedMap.mem_keys_empty

variable {orders : Orders}

theorem sync_refused {req : SyncGroupRequest}
    (refused : ¬(req.generationId = record.generationId ∧ req.memberId ∈ record.members.keys)) :
    (record.sync req orders).2 = record := by
  unfold sync
  dsimp only
  cases valid : record.validateGeneration req.generationId with
  | none =>
    cases found : record.members.find? req.memberId with
    | none => rfl
    | some member =>
      refine absurd ⟨validateGeneration_eq_none.mp valid, ?_⟩ refused
      exact mem_keys_iff_isSome.mpr (by rw [found]; rfl)
  | _ => rfl

theorem sync_cases {req : SyncGroupRequest} {orders : Orders} (valid : req.generationId = record.generationId)
    (member : req.memberId ∈ record.members.keys) :
    (record.sync req orders).2 = record.markSynced req ∨
      (record.markSynced req).allMembersSynced = true ∧
        (record.sync req orders).2 = (record.markSynced req).assign orders := by
  obtain ⟨stored, found⟩ := Option.isSome_iff_exists.mp (mem_keys_iff_isSome.mp member)
  unfold sync
  rw [validateGeneration_eq_none.mpr valid, found]
  dsimp only
  split
  next =>
    split
    next all => exact .inr ⟨all, rfl⟩
    next => exact .inl rfl
  next =>
    split <;> exact .inl rfl

theorem Attested.sync {req : SyncGroupRequest} (attested : record.Attested rounds) :
    (record.step (.sync req orders)).Attested fun id =>
      (record.takesPart (.sync req orders) id).or (rounds id) := by
  by_cases passes : req.generationId = record.generationId ∧ req.memberId ∈ record.members.keys
  · obtain ⟨valid, member⟩ := passes
    have told : ∀ id, id = req.memberId ∨ rounds id = some record.generationId.toInt →
        (record.takesPart (.sync req orders) id).or (rounds id) = some record.generationId.toInt := by
      intro id either
      unfold takesPart
      dsimp only
      split
      next => rw [valid]; rfl
      next other =>
        exact either.resolve_left fun same => other ⟨same, validateGeneration_eq_none.mpr valid, same ▸ member⟩
    have synced : ∀ id ∈ (record.markSynced req).syncedMembers.keys,
        (record.takesPart (.sync req orders) id).or (rounds id) = some record.generationId.toInt := by
      intro id marked
      exact told id ((mem_keys_insert.mp marked).imp_right (attested.synced id))
    have occupied := attested.occupied member
    rcases @sync_cases record req orders valid member with outcome | ⟨all, outcome⟩
    · rw [step, outcome]
      refine ⟨attested.alive, attested.empty_iff, attested.numbered, ?_, synced⟩
      exact fun stable id known => told id (.inr (attested.stable stable id known))
    · rw [step, outcome]
      refine ⟨(by rintro ⟨⟩), iff_of_false (by rintro ⟨⟩) ?_, .inr (attested.numbered_of_occupied occupied), ?_, ?_⟩
      · have still : req.memberId ∈ ((record.markSynced req).assign orders).members.keys :=
          mem_keys_mapValues.mpr member
        rw [isEmpty, isEmpty_entries_eq_false still]
        exact Bool.false_ne_true
      · intro _ id known
        refine synced id (mem_keys_iff_isSome.mpr ?_)
        exact all_eq_true.mp all id (mem_keys_mapValues.mp known)
      · exact fun id none => absurd none OrderedMap.mem_keys_empty
  · have not_told : ∀ id, record.takesPart (.sync req orders) id = none := by
      intro id
      unfold takesPart
      dsimp only
      rw [if_neg]
      rintro ⟨rfl, valid, member⟩
      exact passes ⟨validateGeneration_eq_none.mp valid, member⟩
    rw [step, sync_refused passes]
    simpa only [not_told, Option.none_or] using attested

variable {call : Call}

theorem Attested.step (attested : record.Attested rounds) (kept : record.KeepsNumbers call) :
    (record.step call).Attested fun id => (record.takesPart call id).or (rounds id) := by
  cases call with
  | join req generatedId nowMs order => exact attested.joinAs kept
  | heartbeat req nowMs => exact attested.heartbeat
  | leave req nowMs order => exact attested.leave kept
  | sync req orders => exact attested.sync
  | expire nowMs => exact attested.expire

/-!
## Numbers of generations
-/

theorem sync_generationId {req : SyncGroupRequest} :
    (record.sync req orders).2.generationId = record.generationId := by
  by_cases passes : req.generationId = record.generationId ∧ req.memberId ∈ record.members.keys
  · rcases @sync_cases record req orders passes.1 passes.2 with outcome | ⟨-, outcome⟩
    · rw [outcome]
      rfl
    · rw [outcome]
      rfl
  · rw [sync_refused passes]

theorem expire_generationId : (record.expire nowMs).generationId = record.generationId := by
  rw [expire_eq]
  split
  next => rfl
  next => rfl

theorem joinAs_occupied (alive : record.Alive) :
    (record.step (.join req generatedId nowMs order)).isEmpty = false := by
  rcases joinAs_cases record req generatedId nowMs order with ⟨⟨errorCode, memberId, refused⟩, full⟩ | joined
  · rw [step, refused, ← Bool.not_eq_true]
    exact fun none => full (hasRoom_of_isEmpty none)
  · obtain ⟨outcome, -, known⟩ := joined
    have still_alive : (record.expireBeforeJoin nowMs).Alive := alive.expireBeforeJoin
    rw [step, outcome]
    exact isEmpty_entries_eq_false (((join_outcome still_alive known).present _).mpr (.inl rfl))

theorem Attested.allExpired (attested : record.Attested rounds) (empty : record.state = .empty) :
    record.AllExpired nowMs := by
  have none := attested.empty_iff.mp empty
  rw [isEmpty, isEmpty_entries_iff_find?] at none
  intro id member found
  rw [none id] at found
  cases found

theorem joinAs_number {req : JoinGroupRequest} {generatedId : Bytes} (attested : record.Attested rounds) :
    record.AllExpired nowMs ∧ record.state ≠ .preparingRebalance ∧
        (record.step (.join req generatedId nowMs order)).generationId = 1 ∨
      record.OpensByJoin req nowMs ∧
        (record.step (.join req generatedId nowMs order)).generationId = record.generationId + 1 ∨
      (record.AllExpired nowMs → record.state = .preparingRebalance) ∧ ¬record.OpensByJoin req nowMs ∧
        (record.step (.join req generatedId nowMs order)).generationId = record.generationId := by
  rcases joinAs_cases record req generatedId nowMs order with ⟨⟨errorCode, memberId, refused⟩, full⟩ | joined
  · refine .inr (.inr ⟨fun none => ?_, fun opens => full opens.2.2.2, ?_⟩)
    · exact absurd (hasRoom_of_isEmpty (isEmpty_expireMembers_iff.mpr none)) full
    · rw [step, refused]
      rfl
  · obtain ⟨outcome, room, known⟩ := joined
    obtain ⟨-, -, same_state⟩ := expireBeforeJoin_frame record nowMs
    have still_alive : (record.expireBeforeJoin nowMs).Alive := attested.alive.expireBeforeJoin
    have joined := @join_outcome _ _ nowMs order req _ still_alive known
    have same_number := expireBeforeJoin_generationId record nowMs
    rw [step, outcome]
    cases state : (record.expireBeforeJoin nowMs).state with
    | dead => exact absurd state still_alive
    | empty =>
      refine .inl ⟨?_, ?_, (joined.first state).2.1⟩
      · rw [same_state] at state
        split at state
        next none => exact isEmpty_expireMembers_iff.mp none.1
        next => exact attested.allExpired state
      · intro preparing
        rw [same_state, preparing, if_neg (by simp)] at state
        cases state
    | stable =>
      obtain ⟨was_stable, survivors⟩ := expireBeforeJoin_stable state
      cases isRejoin : (record.expireMembers nowMs).isRejoin req with
      | true =>
        refine .inr (.inr ⟨fun none => absurd (isEmpty_expireMembers_iff.mpr none) survivors,
          fun opens => absurd (isRejoin.symm.trans opens.2.2.1) nofun, ?_⟩)
        rw [isRejoin] at joined
        exact (joined.continues (state.trans_ne nofun) (.inr rfl)).2.1.trans same_number
      | false =>
        rw [isRejoin] at joined
        refine .inr (.inl ⟨⟨was_stable, isEmpty_expireMembers_iff.not.mp survivors, isRejoin, room isRejoin⟩, ?_⟩)
        rw [← same_number]
        exact (joined.opens state rfl).2.1
    | preparingRebalance =>
      have continues := (joined.continues (state.trans_ne nofun) (.inl state)).2.1.trans same_number
      have preparing : record.state = .preparingRebalance := by
        rw [same_state] at state
        split at state
        next => cases state
        next => exact state
      exact .inr (.inr ⟨fun _ => preparing, fun opens => absurd (preparing.symm.trans opens.1) nofun, continues⟩)

theorem Attested.rises (attested : record.Attested rounds) (kept : record.KeepsNumbers call) :
    record.generationId.toInt ≤ (record.step call).generationId.toInt := by
  cases call with
  | join req generatedId nowMs order =>
    rcases @joinAs_number record rounds nowMs order req generatedId attested with
      ⟨expired, -, number⟩ | ⟨opens, number⟩ | ⟨-, -, number⟩
    · have fresh := kept.1.resolve_right fun lasts => lasts expired
      rw [number, fresh.2]
      decide
    · rw [number]
      exact Counters.toInt_le_succ (kept.2 opens)
    · rw [number]
  | heartbeat req nowMs => exact le_of_eq (congrArg Int32.toInt heartbeat_generationId.symm)
  | leave req nowMs order =>
    rcases leave_cases record req nowMs order with ⟨same, -⟩ | ⟨some_known, progress, same_number, outcome⟩
    · rw [GroupRecord.step, same]
    · rw [GroupRecord.step, outcome, (afterLeave_spec progress.2 progress.1 nowMs order).1, same_number]
      exact Counters.toInt_le_succ (kept some_known)
  | sync req orders => exact le_of_eq (congrArg Int32.toInt sync_generationId.symm)
  | expire nowMs => exact le_of_eq (congrArg Int32.toInt expire_generationId.symm)

def Abandoned (record : GroupRecord) : Prop := record.isEmpty = true ∧ 0 < record.generationId.toInt

theorem Abandoned.step (abandoned : record.Abandoned) (kept : record.KeepsNumbers call) :
    (record.step call).Abandoned := by
  have none : ∀ id, record.members.find? id = none := isEmpty_entries_iff_find?.mp abandoned.1
  have unknown : ∀ id, id ∉ record.members.keys := isEmpty_entries_iff.mp abandoned.1
  cases call with
  | join req generatedId nowMs order =>
    refine absurd (kept.1.resolve_right fun lasts => lasts fun id member found => ?_) fun fresh => ?_
    · rw [none id] at found
      cases found
    · have positive := abandoned.2
      rw [fresh.2] at positive
      exact absurd positive (by decide)
  | heartbeat req nowMs =>
    rw [step, heartbeat, none]
    exact abandoned
  | leave req nowMs order =>
    rcases leave_cases record req nowMs order with ⟨same, -⟩ | ⟨⟨id, -, known⟩, -⟩
    · rw [step, same]
      exact abandoned
    · exact absurd known (unknown id)
  | sync req orders =>
    rw [step, sync_refused fun passes => unknown _ passes.2]
    exact abandoned
  | expire nowMs =>
    refine ⟨?_, ?_⟩
    · have still : (record.expireMembers nowMs).isEmpty = true := by
        rw [isEmpty, isEmpty_entries_iff]
        exact fun id member => unknown id (mem_keys_of_expireMembers member)
      rw [step, expire_eq]
      split
      next => exact still
      next => exact still
    · rw [step, expire_generationId]
      exact abandoned.2

theorem Attested.emptied (attested : record.Attested rounds) (kept : record.KeepsNumbers call)
    (empties : coordinator.empties record call) : (record.step call).Abandoned := by
  obtain ⟨members, none⟩ := empties
  have occupied : record.state ≠ .empty := by
    rw [Ne, attested.empty_iff, members]
    exact nofun
  have positive := attested.numbered_of_occupied occupied
  cases call with
  | join req generatedId nowMs order =>
    have fresh := kept.1.resolve_right fun lasts => lasts (isEmpty_expireMembers_iff.mp none)
    exact absurd fresh.1 occupied
  | heartbeat req nowMs | leave req nowMs order | sync req orders
  | expire nowMs => exact ⟨none, positive.trans_le (attested.rises kept)⟩

theorem discipline :
    coordinator.Discipline KeepsNumbers (fun watched => watched.1.Attested watched.2) Abandoned where
  preserved _ _ kept attested := attested.step kept
  rises _ _ kept attested := attested.rises kept
  own_round watched event _ attested member number accepted := by
    cases event with
    | heartbeat req nowMs =>
      obtain ⟨rfl, rfl, answer⟩ := accepted
      exact attested.accepts answer
    | _ => exact accepted.elim
  emptied _ _ kept attested empties := attested.emptied kept empties
  stays _ _ kept abandoned := abandoned.step kept
  vacant _ abandoned occupied := absurd (abandoned.1.symm.trans occupied) nofun

open Runs

theorem attested_run {calls : List Call} (meets : Meets step KeepsNumbers {} calls) :
    (run step {} calls).Attested (coordinator.lastRound {} calls) := discipline.reached .initial meets

theorem step_generationId_of_isEmpty (none : record.isEmpty = true)
    (after : (record.step call).isEmpty = true) (alive : record.Alive) :
    (record.step call).generationId = record.generationId := by
  cases call with
  | join req generatedId nowMs order => exact absurd (after.symm.trans (joinAs_occupied alive)) nofun
  | heartbeat req nowMs => exact heartbeat_generationId
  | leave req nowMs order =>
    rcases leave_cases record req nowMs order with ⟨same, -⟩ | ⟨⟨id, -, known⟩, -⟩
    · rw [step, same]
    · exact absurd known (isEmpty_entries_iff.mp none id)
  | sync req orders => exact sync_generationId
  | expire nowMs => exact expire_generationId

variable {before : List Call}

theorem emptied_before (meets : Meets step KeepsNumbers {} before)
    (none : (run step {} before).isEmpty = true) (used : 0 < (run step {} before).generationId.toInt) :
    ∃ first call, first ++ [call] <+: before ∧ coordinator.empties (run step {} first) call := by
  induction before using List.reverseRecOn with
  | nil => exact absurd used (by decide)
  | append_singleton before call ih =>
    have earlier := (meets_append.mp meets).1
    have attested := attested_run earlier
    rw [run_concat] at none used
    cases members : (run step {} before).isEmpty with
    | false =>
      refine ⟨before, call, prefix_refl _, members, ?_⟩
      cases call with
      | join req generatedId nowMs order =>
        exact absurd (none.symm.trans (joinAs_occupied attested.alive)) nofun
      | _ => exact none
    | true =>
      rw [step_generationId_of_isEmpty members none attested.alive] at used
      obtain ⟨first, last, within, empties⟩ := ih earlier members used
      exact ⟨first, last, within.trans (prefix_append before [call]), empties⟩

theorem not_fenced_of_reuse (meets : Meets step KeepsNumbers {} before) (used : ¬(run step {} before).NeverUsed)
    (expired : (run step {} before).AllExpired nowMs) :
    ¬coordinator.Fenced {} (before ++ [.join req generatedId nowMs order]) := by
  intro fenced
  have attested := attested_run meets
  have positive := attested.numbered.resolve_left used
  have last : ∀ record, record = run step {} before → (record.step (.join req generatedId nowMs order)).isEmpty = false ∧
      record.generationId.toInt ≤ (record.step (.join req generatedId nowMs order)).generationId.toInt := by
    rintro record rfl
    refine ⟨joinAs_occupied attested.alive, ?_⟩
    have rises := fenced.rises before (before ++ [.join req generatedId nowMs order]) (prefix_append _ _)
      (prefix_refl _)
    rw [run_concat] at rises
    exact rises
  obtain ⟨occupied, rises⟩ := last _ rfl
  -- a number of a time before the loss
  have retired : ∀ first call, first ++ [call] <+: before ++ [.join req generatedId nowMs order] →
      coordinator.empties (run step {} first) call →
        ((run step {} before).step (.join req generatedId nowMs order)).generationId.toInt ≠
          (run step {} first).generationId.toInt := by
    intro first call within empties
    have retired := fenced.retired first first call (before ++ [.join req generatedId nowMs order])
      (prefix_refl _) within (prefix_refl _) empties.1 empties
    rw [run_concat] at retired
    exact retired occupied
  cases members : (run step {} before).isEmpty with
  | false =>
    have differs := retired before _ (prefix_refl _) ⟨members, isEmpty_expireMembers_iff.mpr expired⟩
    rcases @joinAs_number _ _ nowMs order req generatedId attested with
      ⟨-, -, number⟩ | ⟨opens, -⟩ | ⟨-, -, number⟩
    · have one : (1 : Int32).toInt = 1 := rfl
      rw [number, one] at rises differs
      omega
    · exact opens.2.1 expired
    · rw [number] at differs
      exact differs rfl
  | true =>
    obtain ⟨first, call, within, empties⟩ := emptied_before meets members positive
    have empty := attested.empty_iff.mpr members
    have number : ((run step {} before).step (.join req generatedId nowMs order)).generationId = 1 := by
      rcases @joinAs_number _ _ nowMs order req generatedId attested with ⟨-, -, number⟩ | ⟨opens, -⟩ | ⟨preparing, -⟩
      · exact number
      · cases empty.symm.trans opens.1
      · cases empty.symm.trans (preparing expired)
    have differs := retired first call (within.trans (prefix_append _ _)) empties
    have earlier : first <+: before := (prefix_append _ _).trans within
    have since : (run step {} first).generationId.toInt ≤ (run step {} before).generationId.toInt :=
      fenced.rises first before earlier (prefix_append _ _)
    have then_positive : 0 < (run step {} first).generationId.toInt := by
      have then_attested := attested_run (meets.of_prefix earlier)
      refine then_attested.numbered_of_occupied ?_
      rw [Ne, then_attested.empty_iff, empties.1]
      exact nofun
    have one : (1 : Int32).toInt = 1 := rfl
    rw [number, one] at rises differs
    omega

theorem not_fenced_of_wrap (last : (run step {} before).generationId = Int32.maxValue)
    (wraps : ((run step {} before).step call).generationId = (run step {} before).generationId + 1) :
    ¬coordinator.Fenced {} (before ++ [call]) := by
  intro fenced
  have rises := fenced.rises before (before ++ [call]) (prefix_append _ _) (prefix_refl _)
  rw [run_concat] at rises
  have number : (run step {} before).generationId.toInt ≤ ((run step {} before).step call).generationId.toInt := rises
  rw [wraps, last] at number
  exact absurd number (Int.not_le.mpr Counters.toInt_succ_maxValue_lt)

theorem fenced_iff (calls : List Call) : coordinator.Fenced {} calls ↔ Meets step KeepsNumbers {} calls := by
  refine ⟨fun fenced => meets_of_prefixes fun before call within meets => ?_, discipline.fenced .initial⟩
  have attested := attested_run meets
  have upto := fenced.of_prefix within
  cases call with
  | join req generatedId nowMs order =>
    refine ⟨?_, fun opens last => ?_⟩
    · by_contra neither
      rw [not_or, not_not] at neither
      exact not_fenced_of_reuse meets neither.1 neither.2 upto
    · rcases @joinAs_number _ _ nowMs order req generatedId attested with
        ⟨expired, -⟩ | ⟨-, number⟩ | ⟨-, other, -⟩
      · exact opens.2.1 expired
      · exact not_fenced_of_wrap last number upto
      · exact other opens
  | leave req nowMs order =>
    intro known last
    rcases leave_cases (run step {} before) req nowMs order with ⟨-, unknown⟩ | ⟨-, progress, same_number, outcome⟩
    · exact unknown known
    · refine not_fenced_of_wrap last ?_ upto
      rw [step, outcome, (afterLeave_spec progress.2 progress.1 nowMs order).1, same_number]
  | heartbeat req nowMs | sync req orders | expire nowMs => trivial

end GroupRecord

end TorrentMq.Client.GroupHandler
