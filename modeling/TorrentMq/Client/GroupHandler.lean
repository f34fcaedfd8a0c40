import TorrentMq.Client.GroupAssignors
import TorrentMq.Network.GroupRequests
import TorrentMq.Runs.Basic

/-!
# Group handler

The coordinator of consumer groups behind the client protocol: joins, heartbeats,
leaves and syncs, and the removal of members that stay silent. Clocks are read in
milliseconds.
-/

set_option autoImplicit false

namespace TorrentMq.Client.GroupHandler

open Bytes Collections Network GroupAssignors

def kMaxSessionTimeoutMs : Int32 := 300000

def kMinSessionTimeoutMs : Int32 := 100

def kDefaultRebalanceTimeoutMs : Int32 := 60000

def kMaxMembersPerGroup : Nat := 10000

def kMaxActiveGroups : Nat := 100000

def kMaxProtocolsPerMember : Nat := 10

/-- "consumer" -/
def kDefaultProtocolType : Bytes := [99, 111, 110, 115, 117, 109, 101, 114]

inductive GroupState where
  | empty
  | stable
  | preparingRebalance
  | dead
deriving DecidableEq

inductive ErrorCode where
  | none
  | invalidGroupId
  | invalidSessionTimeout
  | invalidRequest
  | unknownServerError
  | unknownMemberId
  | unknownGroupId
  | rebalanceInProgress
deriving DecidableEq

/-- The member has not sent a heartbeat within its session timeout. -/
def sessionExpired (member : MemberRecord) (nowMs : Int) : Bool :=
  0 < member.sessionTimeoutMs ∧ member.sessionTimeoutMs.toInt < nowMs - member.lastHeartbeatMs

/-- A consumer group, with its members and what they have been assigned. -/
structure GroupRecord where
  state : GroupState := .empty
  generationId : Int32 := 0
  protocolType : Bytes := []
  electedProtocol : Bytes := []
  leaderId : Bytes := []
  rebalanceTimeoutMs : Int := 0
  rebalanceDeadlineMs : Int := 0
  members : OrderedMap Bytes MemberRecord := .empty
  syncedMembers : OrderedMap Bytes Unit := .empty
  pendingAssignments : OrderedMap Bytes Bytes := .empty
  stickyAssignments : Assignments := .empty

inductive JoinGroupResponse where
  | refused (errorCode : ErrorCode) (memberId : Bytes)
  | joined (errorCode : ErrorCode) (generationId : Int32) (protocolName leaderId memberId : Bytes)
      (members : List MemberRecord)
deriving DecidableEq

structure SyncGroupResponse where
  errorCode : ErrorCode := .none
  protocolType : Bytes
  protocolName : Bytes
  assignment : Bytes := []
deriving DecidableEq

/-!
## Groups
-/

namespace GroupRecord

variable (record : GroupRecord)

def isEmpty : Bool := record.members.entries.isEmpty

/-- A request of another generation is refused, in one way if it is late and in another if it is early. -/
def validateGeneration (generation : Int32) : ErrorCode :=
  if generation ≠ record.generationId then
    if generation < record.generationId then .unknownMemberId else .rebalanceInProgress
  else .none

def expireMembers (nowMs : Int) : GroupRecord :=
  { record with members := record.members.filterValues fun member => !sessionExpired member nowMs }

def allMembersSynced : Bool := record.members.keys.all fun id => (record.syncedMembers.find? id).isSome

def memberList (order : IterationOrder Bytes) : List MemberRecord :=
  (order.visit record.members.keys).filterMap record.members.find?

/-- The first protocol that is named as often as there are members. -/
def electProtocol (order : IterationOrder Bytes) : Bytes :=
  let protocols := (record.memberList order).flatMap MemberRecord.supportedProtocols
  (protocols.find? fun protocol => protocols.count protocol = record.members.size).getD []

def clearRound : GroupRecord := { record with syncedMembers := .empty, pendingAssignments := .empty }

end GroupRecord

/-!
## Joins
-/

def newMember (req : JoinGroupRequest) (memberId : Bytes) (nowMs : Int) (isLeader : Bool) : MemberRecord where
  memberId := memberId
  groupInstanceId := req.groupInstanceId
  supportedProtocols := req.protocols
  protocolMetadata := req.protocolMetadata
  lastHeartbeatMs := nowMs
  sessionTimeoutMs := req.sessionTimeoutMs
  awaitingSync := true
  isLeader := isLeader

def refreshMember (req : JoinGroupRequest) (nowMs : Int) (awaitingSync : Bool) (existing : MemberRecord) :
    MemberRecord :=
  { existing with
    lastHeartbeatMs := nowMs
    sessionTimeoutMs := req.sessionTimeoutMs
    supportedProtocols := req.protocols
    protocolMetadata := req.protocolMetadata
    awaitingSync := awaitingSync
    groupInstanceId := req.groupInstanceId }

namespace GroupRecord

variable (record : GroupRecord)

def joinedResponse (errorCode : ErrorCode) (memberId : Bytes) (order : IterationOrder Bytes) :
    JoinGroupResponse :=
  .joined errorCode record.generationId record.electedProtocol record.leaderId memberId (record.memberList order)

def extendDeadline (req : JoinGroupRequest) (nowMs : Int) : GroupRecord :=
  let newDeadline := nowMs + req.rebalanceTimeoutMs.toInt
  if record.rebalanceDeadlineMs < newDeadline then
    { record with rebalanceDeadlineMs := newDeadline, rebalanceTimeoutMs := req.rebalanceTimeoutMs.toInt }
  else record

def reelectProtocol (order : IterationOrder Bytes) : GroupRecord :=
  { record with electedProtocol := record.electProtocol order }

def rejoin (req : JoinGroupRequest) (memberId : Bytes) (nowMs : Int) (awaitingSync : Bool) : GroupRecord :=
  { record with members := record.members.modify memberId (refreshMember req nowMs awaitingSync) }

def joinEmpty (req : JoinGroupRequest) (memberId : Bytes) (nowMs : Int) : GroupRecord :=
  { record with
    members := record.members.insert memberId (newMember req memberId nowMs true)
    protocolType := req.protocolType
    generationId := 1
    leaderId := memberId
    electedProtocol := req.protocols.headD []
    state := .stable }.clearRound

def joinStable (req : JoinGroupRequest) (memberId : Bytes) (nowMs : Int) (order : IterationOrder Bytes) :
    GroupRecord :=
  ({ record with
    members := record.members.insert memberId (newMember req memberId nowMs false)
    state := .preparingRebalance
    generationId := record.generationId + 1
    rebalanceTimeoutMs := req.rebalanceTimeoutMs.toInt
    rebalanceDeadlineMs := nowMs + req.rebalanceTimeoutMs.toInt }.clearRound).reelectProtocol order

def joinPreparing (req : JoinGroupRequest) (memberId : Bytes) (nowMs : Int)
    (order : IterationOrder Bytes) : GroupRecord :=
  ({ record with
    members := record.members.insert memberId (newMember req memberId nowMs false) }.reelectProtocol
      order).extendDeadline req nowMs

def join (req : JoinGroupRequest) (memberId : Bytes) (isRejoin : Bool) (nowMs : Int)
    (order : IterationOrder Bytes) : JoinGroupResponse × GroupRecord :=
  match record.state with
  | .empty =>
    let record := record.joinEmpty req memberId nowMs
    (record.joinedResponse .none memberId order, record)
  | .stable =>
    if isRejoin then
      let record := record.rejoin req memberId nowMs false
      (record.joinedResponse .none memberId order, record)
    else
      let record := record.joinStable req memberId nowMs order
      (record.joinedResponse .rebalanceInProgress memberId order, record)
  | .preparingRebalance =>
    if isRejoin then
      let record := (record.rejoin req memberId nowMs true).extendDeadline req nowMs
      (record.joinedResponse .rebalanceInProgress memberId order, record)
    else
      let record := record.joinPreparing req memberId nowMs order
      (record.joinedResponse .rebalanceInProgress memberId order, record)
  | .dead => (.refused .unknownGroupId memberId, record)

def expireBeforeJoin (nowMs : Int) : GroupRecord :=
  let record := record.expireMembers nowMs
  if record.isEmpty ∧ record.state = .stable then { record with state := .empty } else record

def isRejoin (req : JoinGroupRequest) : Bool := !req.memberId.isEmpty && (record.members.find? req.memberId).isSome

def joinAs (req : JoinGroupRequest) (memberId : Bytes) (nowMs : Int) (order : IterationOrder Bytes) :
    JoinGroupResponse × GroupRecord :=
  let record := record.expireBeforeJoin nowMs
  let isRejoin := record.isRejoin req
  if !isRejoin && kMaxMembersPerGroup ≤ record.members.size then (.refused .unknownServerError memberId, record)
  else record.join req memberId isRejoin nowMs order

end GroupRecord

structure GroupStateManager where
  groups : OrderedMap Bytes GroupRecord := .empty
  /-- Goes into the ids of the members that come without one. -/
  counter : Nat := 0

def generateMemberId (clientId : Bytes) (nowMs : Int) (counter : Nat) : Bytes :=
  clientId ++ 45 :: (decimalInt nowMs ++ 45 :: decimal counter)

def clampJoin (req : JoinGroupRequest) : JoinGroupRequest :=
  { req with
    rebalanceTimeoutMs :=
      if req.rebalanceTimeoutMs ≤ 0 then kDefaultRebalanceTimeoutMs
      else if kMaxSessionTimeoutMs < req.rebalanceTimeoutMs then kMaxSessionTimeoutMs
      else req.rebalanceTimeoutMs
    protocolType := if req.protocolType.isEmpty then kDefaultProtocolType else req.protocolType }

def validateJoin (req : JoinGroupRequest) : Option ErrorCode :=
  if req.groupId.isEmpty then some .invalidGroupId
  else if req.sessionTimeoutMs < kMinSessionTimeoutMs ∨ kMaxSessionTimeoutMs < req.sessionTimeoutMs then
    some .invalidSessionTimeout
  else if kMaxProtocolsPerMember < req.protocols.length then some .invalidRequest
  else none

namespace GroupStateManager

variable (manager : GroupStateManager)

def setGroup (groupId : Bytes) (record : GroupRecord) : GroupStateManager :=
  { manager with groups := manager.groups.insert groupId record }

def getOrCreate (groupId : Bytes) : Option GroupRecord :=
  match manager.groups.find? groupId with
  | some record => some record
  | none => if kMaxActiveGroups ≤ manager.groups.size then none else some {}

def joinerId (clientId : Bytes) (req : JoinGroupRequest) (idNowMs : Int) : Bytes :=
  if req.memberId.isEmpty then generateMemberId clientId idNowMs manager.counter else req.memberId

def joinRecord (clientId : Bytes) (req : JoinGroupRequest) (record : GroupRecord) (nowMs idNowMs : Int)
    (order : IterationOrder Bytes) : JoinGroupResponse × GroupStateManager :=
  let (response, record) := record.joinAs req (manager.joinerId clientId req idNowMs) nowMs order
  (response, {
    groups := manager.groups.insert req.groupId record
    counter := if req.memberId.isEmpty then manager.counter + 1 else manager.counter })

def handleJoin (clientId : Bytes) (req : JoinGroupRequest) (nowMs idNowMs : Int)
    (order : IterationOrder Bytes) : JoinGroupResponse × GroupStateManager :=
  match validateJoin req with
  | some errorCode => (.refused errorCode [], manager)
  | none =>
    let req := clampJoin req
    match manager.getOrCreate req.groupId with
    | none => (.refused .unknownServerError [], manager)
    | some record => manager.joinRecord clientId req record nowMs idNowMs order

end GroupStateManager

/-!
## Heartbeats, leaves and syncs
-/

namespace GroupRecord

variable (record : GroupRecord)

def rebalanceTimedOut (nowMs : Int) : Bool := record.rebalanceDeadlineMs < nowMs ∧ 0 < record.rebalanceDeadlineMs

def touch (memberId : Bytes) (nowMs : Int) : GroupRecord :=
  { record with members := record.members.modify memberId fun member => { member with lastHeartbeatMs := nowMs } }

def beat (memberId : Bytes) (nowMs : Int) : ErrorCode × GroupRecord :=
  let record := record.touch memberId nowMs
  if record.state = .preparingRebalance then
    if record.rebalanceTimedOut nowMs then
      let record := record.expireMembers nowMs
      if record.isEmpty then (.unknownMemberId, { record with state := .empty }) else (.rebalanceInProgress, record)
    else (.rebalanceInProgress, record)
  else (.none, record)

def heartbeat (req : HeartbeatRequest) (nowMs : Int) : ErrorCode × GroupRecord :=
  match record.members.find? req.memberId with
  | none => (.unknownMemberId, record)
  | some _ =>
    match record.validateGeneration req.generationId with
    | .none => record.beat req.memberId nowMs
    | errorCode => (errorCode, record)

/-- A member that leaves; the flag says whether the leader has left. -/
def removeMember (progress : Bool × GroupRecord) (memberId : Bytes) : Bool × GroupRecord :=
  let (leaderRemoved, record) := progress
  match record.members.find? memberId with
  | none => (leaderRemoved, record)
  | some member =>
    (leaderRemoved || member.isLeader,
      { record with
        syncedMembers := record.syncedMembers.erase memberId
        pendingAssignments := record.pendingAssignments.erase memberId
        members := record.members.erase memberId })

def firstMember (order : IterationOrder Bytes) : Bytes := (order.visit record.members.keys).headD []

def startRebalance (nowMs : Int) : GroupRecord :=
  { record with
    state := .preparingRebalance
    generationId := record.generationId + 1
    rebalanceTimeoutMs := kDefaultRebalanceTimeoutMs.toInt
    rebalanceDeadlineMs := nowMs + kDefaultRebalanceTimeoutMs.toInt }.clearRound

def electLeader (leaderId : Bytes) : GroupRecord :=
  { record with
    leaderId := leaderId
    members := record.members.modify leaderId fun member => { member with isLeader := true } }

def afterLeave (leaderRemoved : Bool) (nowMs : Int) (order : IterationOrder Bytes) : GroupRecord :=
  if record.isEmpty then
    { record with state := .empty, leaderId := [], generationId := record.generationId + 1 }.clearRound
  else if leaderRemoved then
    ((record.electLeader (record.firstMember order)).startRebalance nowMs).reelectProtocol order
  else record.startRebalance nowMs

def membersToRemove (req : LeaveGroupRequest) : List Bytes :=
  if req.members.isEmpty then if req.memberId.isEmpty then [] else [req.memberId] else req.members

def leave (req : LeaveGroupRequest) (nowMs : Int) (order : IterationOrder Bytes) : ErrorCode × GroupRecord :=
  let membersToRemove := membersToRemove req
  if membersToRemove.isEmpty then (.invalidRequest, record)
  else if membersToRemove.any fun id => (record.members.find? id).isSome then
    let (leaderRemoved, record) := membersToRemove.foldl removeMember (false, record)
    (.none, record.afterLeave leaderRemoved nowMs order)
  else (.unknownMemberId, record)

def assignmentText (partitions : List Bytes) : Bytes := ([44] : Bytes).intercalate partitions

/-- "range" -/
def kRange : Bytes := [114, 97, 110, 103, 101]

def runStrategy (orders : Orders) : Assignments :=
  let memberIds := orders.members.visit record.members.keys
  let subscriptions := (record.memberList orders.members).map parseSubscription
  let strategyName := if record.electedProtocol.isEmpty then kRange else record.electedProtocol
  runAssignmentStrategy (strategyOf strategyName) subscriptions memberIds record.stickyAssignments orders

def assign (orders : Orders) : GroupRecord :=
  let newAssignments := record.runStrategy orders
  { record with
    stickyAssignments := newAssignments
    members := record.members.mapValues fun id member =>
      { member with assignment := assignmentText (handOf newAssignments id), awaitingSync := false }
    state := .stable
    syncedMembers := .empty }

def markSynced (req : SyncGroupRequest) : GroupRecord :=
  { record with
    syncedMembers := record.syncedMembers.insert req.memberId ()
    pendingAssignments :=
      match req.assignments with
      | [] => record.pendingAssignments
      | own :: _ => record.pendingAssignments.insert req.memberId own }

def sync (req : SyncGroupRequest) (orders : Orders) : SyncGroupResponse × GroupRecord :=
  let resp : SyncGroupResponse := { protocolType := req.protocolType, protocolName := req.protocolName }
  match record.validateGeneration req.generationId with
  | .none =>
    match record.members.find? req.memberId with
    | none => ({ resp with errorCode := .unknownMemberId }, record)
    | some member =>
      let isLeader := record.leaderId = req.memberId
      let record := record.markSynced req
      if isLeader then
        if record.allMembersSynced then
          let record := record.assign orders
          let own := (record.members.find? req.memberId).map MemberRecord.assignment
          ({ resp with assignment := own.getD [] }, record)
        else ({ resp with errorCode := .rebalanceInProgress }, record)
      else
        match record.state with
        | .stable => ({ resp with assignment := member.assignment }, record)
        | .preparingRebalance => ({ resp with errorCode := .rebalanceInProgress }, record)
        | .empty | .dead => ({ resp with errorCode := .unknownServerError }, record)
  | errorCode => ({ resp with errorCode := errorCode }, record)

def expire (nowMs : Int) : GroupRecord :=
  let expired := record.expireMembers nowMs
  if expired.members.size < record.members.size ∧ expired.isEmpty then { expired with state := .empty } else expired

end GroupRecord

namespace GroupStateManager

variable (manager : GroupStateManager)

def handleHeartbeat (req : HeartbeatRequest) (nowMs : Int) : ErrorCode × GroupStateManager :=
  match manager.groups.find? req.groupId with
  | none => (.unknownGroupId, manager)
  | some record =>
    let (errorCode, record) := record.heartbeat req nowMs
    (errorCode, manager.setGroup req.groupId record)

def handleLeave (req : LeaveGroupRequest) (nowMs : Int) (order : IterationOrder Bytes) :
    ErrorCode × GroupStateManager :=
  match manager.groups.find? req.groupId with
  | none => (.unknownGroupId, manager)
  | some record =>
    let (errorCode, record) := record.leave req nowMs order
    (errorCode, manager.setGroup req.groupId record)

def handleSync (req : SyncGroupRequest) (orders : Orders) : SyncGroupResponse × GroupStateManager :=
  match manager.groups.find? req.groupId with
  | none =>
    ({ errorCode := .unknownGroupId, protocolType := req.protocolType, protocolName := req.protocolName }, manager)
  | some record =>
    let (response, record) := record.sync req orders
    (response, manager.setGroup req.groupId record)

def expireAll (nowMs : Int) : GroupStateManager :=
  { manager with groups := manager.groups.mapValues fun _ record => record.expire nowMs }

end GroupStateManager

inductive Event where
  | join (clientId : Bytes) (req : JoinGroupRequest) (nowMs idNowMs : Int) (order : IterationOrder Bytes)
  | heartbeat (req : HeartbeatRequest) (nowMs : Int)
  | leave (req : LeaveGroupRequest) (nowMs : Int) (order : IterationOrder Bytes)
  | sync (req : SyncGroupRequest) (orders : Orders)
  | expireAll (nowMs : Int)

def step (manager : GroupStateManager) : Event → GroupStateManager
  | .join clientId req nowMs idNowMs order => (manager.handleJoin clientId req nowMs idNowMs order).2
  | .heartbeat req nowMs => (manager.handleHeartbeat req nowMs).2
  | .leave req nowMs order => (manager.handleLeave req nowMs order).2
  | .sync req orders => (manager.handleSync req orders).2
  | .expireAll nowMs => manager.expireAll nowMs

end TorrentMq.Client.GroupHandler
