import TorrentMq.Client.GroupHandler

/-!
# Calls of a group

What happens to one group of the handler: of all requests, those that get to it,
and the passes over all groups.
-/

set_option autoImplicit false

namespace TorrentMq.Client.GroupHandler

open Bytes Collections Network GroupAssignors OrderedMap

inductive Call where
  | join (req : JoinGroupRequest) (generatedId : Bytes) (nowMs : Int) (order : IterationOrder Bytes)
  | heartbeat (req : HeartbeatRequest) (nowMs : Int)
  | leave (req : LeaveGroupRequest) (nowMs : Int) (order : IterationOrder Bytes)
  | sync (req : SyncGroupRequest) (orders : Orders)
  | expire (nowMs : Int)

def idOf (req : JoinGroupRequest) (generatedId : Bytes) : Bytes :=
  if req.memberId.isEmpty then generatedId else req.memberId

namespace GroupRecord

def step (record : GroupRecord) : Call → GroupRecord
  | .join req generatedId nowMs order => (record.joinAs req (idOf req generatedId) nowMs order).2
  | .heartbeat req nowMs => (record.heartbeat req nowMs).2
  | .leave req nowMs order => (record.leave req nowMs order).2
  | .sync req orders => (record.sync req orders).2
  | .expire nowMs => record.expire nowMs

end GroupRecord

namespace GroupStateManager

variable {manager : GroupStateManager} {groupId : Bytes}

def groupOf (groupId : Bytes) (manager : GroupStateManager) : GroupRecord := manager.groups.getD groupId {}

def callOf (groupId : Bytes) (manager : GroupStateManager) : Event → Option Call
  | .join clientId req nowMs idNowMs order =>
    if req.groupId = groupId ∧ validateJoin req = none ∧ (manager.getOrCreate groupId).isSome then
      some (.join (clampJoin req) (generateMemberId clientId idNowMs manager.counter) nowMs order)
    else none
  | .heartbeat req nowMs => if req.groupId = groupId then some (.heartbeat req nowMs) else none
  | .leave req nowMs order => if req.groupId = groupId then some (.leave req nowMs order) else none
  | .sync req orders => if req.groupId = groupId then some (.sync req orders) else none
  | .expireAll nowMs => some (.expire nowMs)

def callsOf (groupId : Bytes) (manager : GroupStateManager) : List Event → List Call
  | [] => []
  | event :: events =>
    (manager.callOf groupId event).toList ++ callsOf groupId (GroupHandler.step manager event) events

theorem groupOf_insert (other : Bytes) (record : GroupRecord) (counter : Nat) :
    groupOf groupId { groups := manager.groups.insert other record, counter := counter } =
      if groupId = other then record else manager.groupOf groupId := getD_insert groupId

theorem groupOf_getOrCreate {record : GroupRecord} (found : manager.getOrCreate groupId = some record) :
    manager.groupOf groupId = record := by
  unfold getOrCreate at found
  cases stored : manager.groups.find? groupId with
  | some known =>
    rw [stored] at found
    exact (getD_of_some stored).trans (Option.some.inj found)
  | none =>
    rw [stored] at found
    dsimp only at found
    split at found
    next => cases found
    next => exact (getD_of_none stored).trans (Option.some.inj found)

theorem groupOf_handleJoin (clientId : Bytes) (req : JoinGroupRequest) (nowMs idNowMs : Int)
    (order : IterationOrder Bytes) :
    (manager.handleJoin clientId req nowMs idNowMs order).2.groupOf groupId =
      ((manager.callOf groupId (.join clientId req nowMs idNowMs order)).elim id fun call record => record.step call)
        (manager.groupOf groupId) := by
  have same : (clampJoin req).groupId = req.groupId := rfl
  unfold handleJoin callOf
  cases valid : validateJoin req with
  | some errorCode =>
    dsimp only
    rw [if_neg]
    · rfl
    · rintro ⟨-, accepted, -⟩
      rw [valid] at accepted
      cases accepted
  | none =>
    simp only [same]
    cases found : manager.getOrCreate req.groupId with
    | none =>
      rw [if_neg]
      · rfl
      · rintro ⟨rfl, -, created⟩
        rw [found] at created
        cases created
    | some record =>
      refine (groupOf_insert req.groupId _ _).trans ?_
      by_cases own : groupId = req.groupId
      · subst own
        rw [if_pos rfl, if_pos ⟨rfl, valid, by rw [found]; rfl⟩, groupOf_getOrCreate found]
        rfl
      · rw [if_neg own, if_neg fun all => own all.1.symm]
        rfl

theorem groupOf_change (change : GroupRecord → GroupRecord) {after : GroupStateManager} (other : Bytes)
    (new : change {} = {}) (absent : manager.groups.find? other = none → after = manager)
    (present : ∀ record, manager.groups.find? other = some record → after = manager.setGroup other (change record)) :
    after.groupOf groupId =
      if other = groupId then change (manager.groupOf groupId) else manager.groupOf groupId := by
  refine getD_change change other groupId new (fun none => ?_) fun record found => ?_
  · rw [absent none]
  · rw [present record found]
    exact groupOf_insert other _ _

theorem groupOf_handleHeartbeat (req : HeartbeatRequest) (nowMs : Int) :
    (manager.handleHeartbeat req nowMs).2.groupOf groupId =
      if req.groupId = groupId then ((manager.groupOf groupId).heartbeat req nowMs).2 else manager.groupOf groupId := by
  apply groupOf_change (fun record => (record.heartbeat req nowMs).2) req.groupId rfl
  · intro absent
    rw [handleHeartbeat, absent]
  · intro record found
    rw [handleHeartbeat, found]

section

variable (req : LeaveGroupRequest) (nowMs : Int) (order : IterationOrder Bytes)

theorem leave_new :
    (GroupRecord.leave {} req nowMs order).2 = {} := by
  unfold GroupRecord.leave
  dsimp only
  split
  next => rfl
  next => simp

theorem groupOf_handleLeave :
    (manager.handleLeave req nowMs order).2.groupOf groupId =
      if req.groupId = groupId then ((manager.groupOf groupId).leave req nowMs order).2
      else manager.groupOf groupId := by
  apply groupOf_change (fun record => (record.leave req nowMs order).2) req.groupId (leave_new req nowMs order)
  · intro absent
    rw [handleLeave, absent]
  · intro record found
    rw [handleLeave, found]

end

section

variable (req : SyncGroupRequest) (orders : Orders)

theorem sync_new : (GroupRecord.sync {} req orders).2 = {} := by
  unfold GroupRecord.sync
  dsimp only
  cases GroupRecord.validateGeneration {} req.generationId with
  | none => rfl
  | _ => rfl

theorem groupOf_handleSync :
    (manager.handleSync req orders).2.groupOf groupId =
      if req.groupId = groupId then ((manager.groupOf groupId).sync req orders).2 else manager.groupOf groupId := by
  apply groupOf_change (fun record => (record.sync req orders).2) req.groupId (sync_new req orders)
  · intro absent
    rw [handleSync, absent]
  · intro record found
    rw [handleSync, found]

end

theorem groupOf_expireAll (nowMs : Int) :
    (manager.expireAll nowMs).groupOf groupId = (manager.groupOf groupId).expire nowMs := by
  rw [groupOf, groupOf, OrderedMap.getD, OrderedMap.getD, expireAll, find?_mapValues]
  cases manager.groups.find? groupId with
  | none => rfl
  | some record => rfl

theorem groupOf_step (event : Event) :
    (GroupHandler.step manager event).groupOf groupId =
      Runs.run GroupRecord.step (manager.groupOf groupId) (manager.callOf groupId event).toList := by
  cases event with
  | join clientId req nowMs idNowMs order =>
    refine (groupOf_handleJoin clientId req nowMs idNowMs order).trans ?_
    cases manager.callOf groupId (.join clientId req nowMs idNowMs order) with
    | none => rfl
    | some call => rfl
  | heartbeat req nowMs =>
    refine (groupOf_handleHeartbeat req nowMs).trans ?_
    by_cases own : req.groupId = groupId
    · rw [callOf, if_pos own, if_pos own]
      rfl
    · rw [callOf, if_neg own, if_neg own]
      rfl
  | leave req nowMs order =>
    refine (groupOf_handleLeave req nowMs order).trans ?_
    by_cases own : req.groupId = groupId
    · rw [callOf, if_pos own, if_pos own]
      rfl
    · rw [callOf, if_neg own, if_neg own]
      rfl
  | sync req orders =>
    refine (groupOf_handleSync req orders).trans ?_
    by_cases own : req.groupId = groupId
    · rw [callOf, if_pos own, if_pos own]
      rfl
    · rw [callOf, if_neg own, if_neg own]
      rfl
  | expireAll nowMs => exact groupOf_expireAll nowMs

theorem groupOf_run (manager : GroupStateManager) (events : List Event) :
    (Runs.run GroupHandler.step manager events).groupOf groupId =
      Runs.run GroupRecord.step (manager.groupOf groupId) (manager.callsOf groupId events) := by
  induction events generalizing manager with
  | nil => rfl
  | cons event events ih =>
    rw [Runs.run_cons, ih, groupOf_step, callsOf, Runs.run_append]

end GroupStateManager

end TorrentMq.Client.GroupHandler
