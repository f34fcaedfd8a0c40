import Mathlib.Data.List.Sort
import Mathlib.Order.Lattice
import TorrentMq.Consensus.RaftLog

/-!
# The Raft engine

State and operations of one node. Each operation is the body that the source
runs under the node's exclusive lock; locks are taken to be re-entrant. The
callbacks of the source appear as traces in the state: `outbox` holds the
messages handed to the senders, `applied` the entries handed to the state
machine. Clock readings enter only through `Env`.
-/

set_option autoImplicit false

namespace TorrentMq.Consensus

open RaftLog

/-!
## State
-/

/-- What a leader keeps about one follower. -/
structure FollowerState where
  nextIndex : Int := 1
  matchIndex : Int := 0
  isActive : Bool := true
  inFlight : Nat := 0
  pendingSnapshot : Option InstallSnapshotRequest := none
  deriving DecidableEq

/-- A message, and whom it goes to. -/
inductive Outbound where
  | appendEntries (target : RaftNodeId) (request : AppendEntriesRequest)
  | requestVote (target : RaftNodeId) (request : RequestVoteRequest)
  | installSnapshot (target : RaftNodeId) (request : InstallSnapshotRequest)
  deriving DecidableEq

/-- What a leader keeps about its followers, and the snapshots that it is sending them. -/
structure Replication where
  followerStates : AList (fun _ : RaftNodeId => FollowerState) := ∅
  heartbeatFailures : AList (fun _ : RaftNodeId => Nat) := ∅
  backtrackRounds : AList (fun _ : RaftNodeId => Nat) := ∅
  snapshotChunkData : AList (fun _ : RaftNodeId => List UInt8) := ∅

/-- One node. Messages and applied entries are kept in the order in which they come. -/
structure RaftNode (L : Type) where
  nodeId : RaftNodeId
  config : RaftConfig
  log : L
  currentTerm : Int := kNoTerm
  votedFor : RaftNodeId := kNoLeader
  state : RaftNodeState := .follower
  leaderId : RaftNodeId := kNoLeader
  commitIndex : Int := 0
  lastApplied : Int := 0
  votesReceived : Nat := 0
  preVotesReceived : Nat := 0
  membership : RaftMembership := {}
  pendingConfigIndex : Int := 0
  running : Bool := false
  transferring : Bool := false
  snapshotBuffer : List UInt8 := []
  pendingSnapshotMeta : InstallSnapshotRequest := {}
  replication : Replication := {}
  snapshotFiles : List (String × List UInt8) := []
  outbox : List Outbound := []
  applied : List LogEntry := []

/-- What one operation observes of its surroundings: the wall clock, whether a
sender returns normally for a peer, whether snapshot files can be read and
written, and the outcome of the two clock comparisons of the heartbeat thread. -/
structure Env where
  nowMs : Int := 0
  delivers : RaftNodeId → Bool := fun _ => true
  readOk : Bool := true
  writeOk : Bool := true
  partitioned : Bool := false
  inactivityElapsed : RaftNodeId → Bool := fun _ => false

def kMaxBacktrackRounds : Nat := 10
def kMaxApplyBatch : Nat := 1024
def kHardMaxEntriesPerAppend : Nat := 1000
def kMaxHeartbeatFailures : Nat := 3
def kMaxConcurrentSnapshots : Nat := 2

def logEntryHeaderSize : Nat := 80
def nodeIdSize : Nat := 4

def logEntryByteSize (entry : LogEntry) : Nat :=
  match entry.command with
  | .noOp => logEntryHeaderSize
  | .configChange command =>
    logEntryHeaderSize + command.newMembers.length * nodeIdSize +
      command.oldMembers.length * nodeIdSize
  | .user command => logEntryHeaderSize + command.payload.length

namespace Replication

/-- A follower that is new starts behind the last entry. -/
def track (replication : Replication) (peer : RaftNodeId) (lastIndex : Int) : Replication :=
  match replication.followerStates.lookup peer with
  | some _ => replication
  | none =>
    { replication with
      followerStates := replication.followerStates.insert peer { nextIndex := lastIndex + 1 } }

def setFollower (replication : Replication) (peer : RaftNodeId) (follower : FollowerState) :
    Replication :=
  { replication with followerStates := replication.followerStates.insert peer follower }

def setFailures (replication : Replication) (peer : RaftNodeId) (failures : Nat) : Replication :=
  { replication with heartbeatFailures := replication.heartbeatFailures.insert peer failures }

def failures (replication : Replication) (peer : RaftNodeId) : Nat :=
  (replication.heartbeatFailures.lookup peer).getD 0

def setRounds (replication : Replication) (peer : RaftNodeId) (rounds : Nat) : Replication :=
  { replication with backtrackRounds := replication.backtrackRounds.insert peer rounds }

def rounds (replication : Replication) (peer : RaftNodeId) : Nat :=
  (replication.backtrackRounds.lookup peer).getD 0

def setChunkData (replication : Replication) (peer : RaftNodeId) (data : List UInt8) :
    Replication :=
  { replication with snapshotChunkData := replication.snapshotChunkData.insert peer data }

def chunkData (replication : Replication) (peer : RaftNodeId) : List UInt8 :=
  (replication.snapshotChunkData.lookup peer).getD []

def eraseChunkData (replication : Replication) (peer : RaftNodeId) : Replication :=
  { replication with snapshotChunkData := replication.snapshotChunkData.erase peer }

def forget (replication : Replication) (peer : RaftNodeId) : Replication where
  followerStates := replication.followerStates.erase peer
  heartbeatFailures := replication.heartbeatFailures.erase peer
  backtrackRounds := replication.backtrackRounds.erase peer
  snapshotChunkData := replication.snapshotChunkData.erase peer

end Replication

namespace RaftNode

variable {L : Type} [RaftLog L]

def lastLogIndex (node : RaftNode L) : Int := lastIndex node.log

def quorumSize (node : RaftNode L) : Nat := node.membership.quorumSize

def peers (node : RaftNode L) : List RaftNodeId :=
  node.membership.quorumSet.filter (fun peer => decide (peer ≠ node.nodeId))

def start (nodeId : RaftNodeId) (config : RaftConfig) (log : L) (members : List RaftNodeId) :
    RaftNode L where
  nodeId := nodeId
  config := validateRaftConfig config
  log := log
  membership := { members := members }
  running := true

/-!
## State transitions
-/

def resetToFollower (node : RaftNode L) : RaftNode L :=
  let node :=
    if node.state = .leader then
      { node with
        replication := { snapshotChunkData := node.replication.snapshotChunkData }
        transferring := false }
    else node
  { node with
    state := .follower
    leaderId := kNoLeader
    votesReceived := 0
    preVotesReceived := 0 }

def becomeFollower (node : RaftNode L) (newTerm : Int) : RaftNode L :=
  if newTerm > node.currentTerm then
    { node with currentTerm := newTerm, votedFor := kNoLeader }.resetToFollower
  else if newTerm = node.currentTerm ∧ node.state = .follower then node
  else node.resetToFollower

def voteRequest (node : RaftNode L) (preVote : Bool) : RequestVoteRequest where
  term := if preVote then node.currentTerm + 1 else node.currentTerm
  candidateId := node.nodeId
  lastLogIndex := node.lastLogIndex
  lastLogTerm := termAt node.log node.lastLogIndex
  preVote := preVote

def startVoteRound (node : RaftNode L) (preVote : Bool) : RaftNode L :=
  { node with
    outbox := node.outbox ++ node.peers.map (fun peer => .requestVote peer (node.voteRequest preVote)) }

def becomeCandidate (node : RaftNode L) : RaftNode L :=
  if node.membership.members.isEmpty then node.becomeFollower node.currentTerm
  else if node.state = .leader then node
  else
    { node with
      currentTerm := node.currentTerm + 1
      votedFor := node.nodeId
      votesReceived := 1
      preVotesReceived := 0
      state := .candidate
      leaderId := kNoLeader }.startVoteRound false

def becomePreCandidate (node : RaftNode L) : RaftNode L :=
  if node.state = .preCandidate then node
  else if node.state = .leader then node
  else if node.membership.members.isEmpty then node
  else if !node.config.enablePreVote then node.becomeCandidate
  else
    { node with
      state := .preCandidate
      preVotesReceived := 1
      votesReceived := 0 }.startVoteRound true

def onElectionTimeout (node : RaftNode L) : RaftNode L :=
  if node.state = .leader then node
  else if node.config.enablePreVote ∧ node.state ≠ .candidate then node.becomePreCandidate
  else node.becomeCandidate

/-!
## Leader replication
-/

/-- A request without entries, for what lies before the next entry of the follower. -/
def probe (node : RaftNode L) (follower : FollowerState) : AppendEntriesRequest where
  term := node.currentTerm
  leaderId := node.nodeId
  prevLogIndex := if follower.nextIndex > 1 then follower.nextIndex - 1 else 0
  prevLogTerm :=
    if follower.nextIndex > 1 then termAt node.log (follower.nextIndex - 1) else kNoTerm
  leaderCommit := node.commitIndex

/-- A follower that several heartbeats do not reach is taken for inactive. -/
def heartbeatTo (env : Env) (node : RaftNode L) (sent : Replication × List Outbound)
    (peer : RaftNodeId) : Replication × List Outbound :=
  let replication := sent.1.track peer node.lastLogIndex
  match replication.followerStates.lookup peer with
  | none => (replication, sent.2)
  | some follower =>
    if follower.inFlight ≥ node.config.rpcQueueCapacity then (replication, sent.2)
    else if env.delivers peer then
      (replication, sent.2 ++ [.appendEntries peer (node.probe follower)])
    else
      let failures := replication.failures peer + 1
      let replication := replication.setFailures peer failures
      if failures ≥ kMaxHeartbeatFailures then
        (replication.setFollower peer { follower with isActive := false }, sent.2)
      else (replication, sent.2)

def sendHeartbeats (env : Env) (node : RaftNode L) : RaftNode L :=
  if node.state ≠ .leader then node
  else if node.membership.members.isEmpty then node
  else
    let sent := node.peers.foldl (node.heartbeatTo env) (node.replication, [])
    { node with replication := sent.1, outbox := node.outbox ++ sent.2 }

/-- As many entries as fit into a request; the first one is taken whatever its size. -/
def fitBytes (limit : Nat) : Nat → Bool → List LogEntry → List LogEntry
  | _, _, [] => []
  | total, isFirst, entry :: entries =>
    if total + logEntryByteSize entry > limit ∧ isFirst = false then []
    else entry :: fitBytes limit (total + logEntryByteSize entry) false entries

/-- The entries that are sent next, within the limits of the configuration. -/
def batchFor (node : RaftNode L) (follower : FollowerState) : List LogEntry :=
  let available := (node.lastLogIndex - follower.nextIndex + 1).toNat
  let toSend := min (min node.config.maxEntriesPerAppend kHardMaxEntriesPerAppend) available
  let stop := follower.nextIndex + toSend - 1
  fitBytes node.config.maxAppendBytes 0 true
    (getEntries node.log follower.nextIndex stop)

def sendAppendEntriesTo (env : Env) (node : RaftNode L) (target : RaftNodeId) : RaftNode L :=
  match node.replication.followerStates.lookup target with
  | none => node
  | some follower =>
    if follower.inFlight ≥ node.config.rpcQueueCapacity then node
    else if follower.nextIndex > node.lastLogIndex then node
    else
      let entries := node.batchFor follower
      if entries.isEmpty then node
      else if env.delivers target then
        { node with
          replication :=
            (node.replication.setFollower target
              { follower with inFlight := follower.inFlight + 1 }).setFailures target 0
          outbox := node.outbox ++
            [.appendEntries target { node.probe follower with entries := entries }] }
      else
        { node with
          replication := node.replication.setFailures target (node.replication.failures target + 1) }

def activeSnapshots (node : RaftNode L) : Nat :=
  node.replication.followerStates.entries.countP (fun follower => follower.2.pendingSnapshot.isSome)

def findSnapshotFile (node : RaftNode L) : Option (List UInt8) :=
  ((node.snapshotFiles.filter (fun file =>
    ("snapshot-" ++ toString node.nodeId ++ "-").toList.isPrefixOf file.1.toList)).getLast?).map (·.2)

def snapshotHeader (node : RaftNode L) : InstallSnapshotRequest where
  term := node.currentTerm
  leaderId := node.nodeId
  lastIncludedIndex := firstIndex node.log - 1
  lastIncludedTerm := termAt node.log (firstIndex node.log - 1)

/-- Starts or continues a transfer; `none` when there is nothing to send. The
request that a single-chunk start builds here is dropped, as in the source. -/
def prepareSnapshot (env : Env) (node : RaftNode L) (target : RaftNodeId)
    (follower : FollowerState) : Option (FollowerState × Replication) :=
  let chunkSize := node.config.snapshotChunkSize
  match follower.pendingSnapshot with
  | none =>
    match node.findSnapshotFile with
    | none => none
    | some content =>
      if !env.readOk then none
      else if content.length > chunkSize then
        some ({ follower with pendingSnapshot := some node.snapshotHeader },
          node.replication.setChunkData target content)
      else some (follower, node.replication)
  | some pending =>
    let stored := node.replication.chunkData target
    let stop := min (pending.offset + chunkSize) stored.length
    if pending.offset + chunkSize ≥ stored.length then
      some ({ follower with pendingSnapshot := none }, node.replication.eraseChunkData target)
    else
      some ({ follower with pendingSnapshot := some { pending with offset := stop } },
        node.replication.setChunkData target stored)

def snapshotMessage (node : RaftNode L) (target : RaftNodeId)
    (prepared : FollowerState × Replication) : InstallSnapshotRequest × Replication :=
  let stored := prepared.2.chunkData target
  match prepared.1.pendingSnapshot with
  | none =>
    ({ node.snapshotHeader with data := stored, offset := 0, done := true },
      prepared.2.setChunkData target [])
  | some pending =>
    let stop := min (pending.offset + node.config.snapshotChunkSize) stored.length
    let data := (stored.take stop).drop pending.offset
    ({ pending with
        data := data
        done := decide (pending.offset + data.length ≥ stored.length) },
      prepared.2.setChunkData target stored)

def sendInstallSnapshotTo (env : Env) (node : RaftNode L) (target : RaftNodeId) : RaftNode L :=
  match node.replication.followerStates.lookup target with
  | none => node
  | some follower =>
    if firstIndex node.log ≤ 1 then node
    else if node.activeSnapshots ≥ kMaxConcurrentSnapshots ∧ follower.pendingSnapshot = none then node
    else
      match node.prepareSnapshot env target follower with
      | none => node
      | some prepared =>
        let message := node.snapshotMessage target prepared
        if env.delivers target then
          { node with
            replication := message.2.setFollower target
              { prepared.1 with inFlight := prepared.1.inFlight + 1 }
            outbox := node.outbox ++ [.installSnapshot target message.1] }
        else
          { node with
            replication := (message.2.setFollower target
              { prepared.1 with
                inFlight := prepared.1.inFlight - 1
                pendingSnapshot := none }).eraseChunkData target }

/-- A follower that has fallen behind the log is sent a snapshot. -/
def replicateTo (env : Env) (node : RaftNode L) (peer : RaftNodeId) : RaftNode L :=
  match node.replication.followerStates.lookup peer with
  | none => node
  | some follower =>
    if !follower.isActive then node
    else if follower.inFlight ≥ node.config.rpcQueueCapacity then node
    else if follower.nextIndex > node.lastLogIndex then node
    else if follower.nextIndex > 0 ∧ follower.nextIndex ≤ firstIndex node.log then
      node.sendInstallSnapshotTo env peer
    else node.sendAppendEntriesTo env peer

def replicateToFollowers (env : Env) (node : RaftNode L) : RaftNode L :=
  if node.state ≠ .leader then node
  else if node.membership.members.isEmpty then node
  else node.replication.followerStates.keys.foldl (replicateTo env) node

def reactivate (env : Env) (replication : Replication)
    (follower : Sigma fun _ : RaftNodeId => FollowerState) : Replication :=
  if follower.2.isActive = false ∧ env.inactivityElapsed follower.1 then
    (replication.setFollower follower.1 { follower.2 with isActive := true }).setFailures follower.1 0
  else replication

def tryReactivateFollowers (env : Env) (node : RaftNode L) : RaftNode L :=
  if node.state ≠ .leader then node
  else
    { node with
      replication := node.replication.followerStates.entries.foldl (reactivate env) node.replication }

def becomeLeader (env : Env) (node : RaftNode L) : RaftNode L :=
  if node.membership.members.isEmpty then node.becomeFollower node.currentTerm
  else
    let lastIndex := node.lastLogIndex
    let followerStates := node.peers.foldl
      (fun states peer => states.insert peer { nextIndex := lastIndex + 1 })
      (∅ : AList (fun _ : RaftNodeId => FollowerState))
    let node := { node with
      state := .leader
      leaderId := node.nodeId
      transferring := false
      replication :=
        { followerStates := followerStates
          snapshotChunkData := node.replication.snapshotChunkData } }
    let noop : LogEntry := { term := node.currentTerm, index := lastIndex + 1, command := .noOp }
    let appended := append node.log lastIndex (termAt node.log lastIndex) [noop]
    let node := { node with log := appended.1 }
    if appended.2 = kNoLogIndex then node.becomeFollower node.currentTerm
    else node.sendHeartbeats env

/-- Enough votes make a candidate the leader, and enough pre-votes make it a candidate. -/
def tallyVotes (env : Env) (node : RaftNode L) (preVote : Bool) : RaftNode L :=
  if preVote then
    if node.preVotesReceived ≥ node.quorumSize ∧ node.state = .preCandidate then node.becomeCandidate
    else node
  else
    if node.votesReceived ≥ node.quorumSize ∧ node.state = .candidate then node.becomeLeader env
    else node

/-!
## Membership
-/

/-- New members are tracked, and those that have left are forgotten. -/
def reconcileFollowerStates (node : RaftNode L) (newMembers : List RaftNodeId) : RaftNode L :=
  let added := (newMembers.filter (fun peer => decide (peer ≠ node.nodeId))).foldl
    (fun replication peer => replication.track peer node.lastLogIndex) node.replication
  let stale := added.followerStates.keys.filter (fun peer => !isMember newMembers peer)
  { node with replication := stale.foldl Replication.forget added }

def applyDirectMembershipChange (node : RaftNode L) (newMembers : List RaftNodeId) : RaftNode L :=
  if newMembers.isEmpty then node
  else
    let node := { node with
      membership := { node.membership with members := newMembers, jointMembers := [] } }
    if node.state = .leader then node.reconcileFollowerStates newMembers else node

def applyJointConsensusEntry (node : RaftNode L) (command : ConfigChangeCommand) : RaftNode L :=
  if command.oldMembers.isEmpty then node.applyDirectMembershipChange command.newMembers
  else
    let node := { node with
      membership := { node.membership with
        members := command.oldMembers
        jointMembers := command.newMembers } }
    if node.state = .leader then
      { node with
        replication := (command.newMembers.filter (fun peer => decide (peer ≠ node.nodeId))).foldl
          (fun replication peer => replication.track peer node.lastLogIndex) node.replication }
    else node

def applyJointConsensusFinalization (node : RaftNode L) (command : ConfigChangeCommand) :
    RaftNode L :=
  if command.jointConsensus then node
  else if command.newMembers ≠ node.membership.jointMembers then node
  else
    let removed := node.membership.members.filter
      (fun id => !isMember node.membership.jointMembers id)
    let node := { node with
      membership := { node.membership with
        members := node.membership.jointMembers
        jointMembers := [] } }
    let node :=
      if node.state = .leader then
        { node with replication := removed.foldl Replication.forget node.replication }
      else node
    if !isMember node.membership.members node.nodeId then node.becomeFollower node.currentTerm
    else node

/-- A change of the membership takes effect where its entry is applied. -/
def processConfigChange (node : RaftNode L) (command : ConfigChangeCommand) : RaftNode L :=
  let node :=
    if !node.membership.inJointConsensus then
      if !command.jointConsensus then node.applyDirectMembershipChange command.newMembers
      else node.applyJointConsensusEntry command
    else node.applyJointConsensusFinalization command
  { node with pendingConfigIndex := 0 }

/-!
## Commit and apply
-/

def applyEntry (node : RaftNode L) (entry : LogEntry) : RaftNode L :=
  let node :=
    match entry.command with
    | .configChange command => node.processConfigChange command
    | _ => node
  { node with applied := node.applied ++ [entry], lastApplied := entry.index }

def applyBatch (node : RaftNode L) (entries : List LogEntry) : RaftNode L :=
  entries.foldl applyEntry node

/-- The committed entries that are applied in one round. -/
def nextBatch (node : RaftNode L) : List LogEntry :=
  getEntries node.log (node.lastApplied + 1)
    (node.lastApplied + min (node.commitIndex - node.lastApplied).toNat kMaxApplyBatch)

def applyRounds : Nat → RaftNode L → RaftNode L
  | 0, node => node
  | fuel + 1, node =>
    if node.commitIndex > node.lastApplied then
      if node.nextBatch.isEmpty then node
      else applyRounds fuel (node.applyBatch node.nextBatch)
    else node

/-- Every round that does not end the loop applies at least one entry, so the
distance to the commit index bounds the number of rounds. -/
def applyCommitted (node : RaftNode L) : RaftNode L :=
  applyRounds (node.commitIndex - node.lastApplied).toNat node

/-- How far the leader and its active followers have got, in descending order. -/
def sortedMatches (node : RaftNode L) : List Int :=
  (node.lastLogIndex ::
    (node.replication.followerStates.entries.filter (fun follower => follower.2.isActive)).map
      (fun follower => follower.2.matchIndex)).insertionSort (fun left right => left ≥ right)

/-- A majority of the new members of a joint configuration has got the entry. -/
def jointMajority (node : RaftNode L) (index : Int) : Bool :=
  decide (node.membership.jointMembers.countP (fun peer =>
    if peer = node.nodeId then false
    else match node.replication.followerStates.lookup peer with
      | some follower => decide (follower.matchIndex ≥ index)
      | none => false) +
    (if isMember node.membership.jointMembers node.nodeId then 1 else 0) ≥
      node.membership.jointMembers.length / 2 + 1)

/-- The last entry of the current term, within a distance, that enough members have got. -/
def findCommit (node : RaftNode L) (replicated : List Int) : Nat → Option Int
  | 0 => none
  | distance + 1 =>
    let index := node.commitIndex + (distance + 1 : Nat)
    if replicated.length < node.quorumSize then none
    else if replicated.getD (node.quorumSize - 1) 0 < index then node.findCommit replicated distance
    else if termAt node.log index ≠ node.currentTerm then node.findCommit replicated distance
    else if node.membership.inJointConsensus ∧ node.jointMajority index = false then
      node.findCommit replicated distance
    else some index

def advanceCommitIndex (node : RaftNode L) : RaftNode L :=
  if node.state ≠ .leader then node
  else if node.lastLogIndex ≤ node.commitIndex then node
  else if node.sortedMatches.length < 2 then
    if node.membership.members.length = 1 then
      { node with commitIndex := node.lastLogIndex }.applyCommitted
    else node
  else
    match node.findCommit node.sortedMatches (node.lastLogIndex - node.commitIndex).toNat with
    | some index => { node with commitIndex := index }.applyCommitted
    | none => node

/-!
## Snapshots
-/

def pushInt (width : Nat) (value : Int) : List UInt8 :=
  (List.range width).map (fun position => UInt8.ofNat (value / 256 ^ position % 256).toNat)

def snapshotBytes (node : RaftNode L) (index term nowMs : Int) : List UInt8 :=
  pushInt 8 index ++ pushInt 8 term ++ pushInt 8 nowMs ++
    pushInt 4 node.membership.members.length ++ node.membership.members.flatMap (pushInt 4) ++
    pushInt 4 node.membership.jointMembers.length ++ node.membership.jointMembers.flatMap (pushInt 4)

def snapshotFileName (node : RaftNode L) (index nowMs : Int) : String :=
  "snapshot-" ++ toString node.nodeId ++ "-" ++ toString index ++ "-" ++ toString nowMs ++ ".snap"

def writeFileAtomic (files : List (String × List UInt8)) (name : String) (data : List UInt8) :
    List (String × List UInt8) :=
  files.filter (fun file => file.1 ≠ name) ++ [(name, data)]

/-- A snapshot of what is committed takes the place of the entries up to there. -/
def createSnapshot (env : Env) (node : RaftNode L) : RaftNode L × RaftSnapshot :=
  if node.commitIndex ≤ firstIndex node.log then (node, {})
  else
    let index := node.commitIndex
    let term := termAt node.log index
    if term = kNoTerm ∧ index > 0 then (node, {})
    else
      let data := node.snapshotBytes index term env.nowMs
      if !env.writeOk then (node, {})
      else
        let snapshot : RaftSnapshot := {
          filePath := node.config.snapshotDirectory ++ "/" ++ node.snapshotFileName index env.nowMs
          lastIncludedIndex := index
          lastIncludedTerm := term
          membership := node.membership
          fileSizeBytes := data.length
          createdAtMs := env.nowMs }
        ({ node with
            snapshotFiles := writeFileAtomic node.snapshotFiles
              (node.snapshotFileName index env.nowMs) data
            log := applySnapshot (truncatePrefix node.log index) snapshot },
          snapshot)

def maybeCreateSnapshot (env : Env) (node : RaftNode L) : RaftNode L :=
  if node.state ≠ .leader then node
  else if entryCount node.log ≥ node.config.snapshotThresholdEntries then
    (node.createSnapshot env).1
  else node

/-!
## Client operations and the heartbeat thread
-/

inductive ErrorCode where
  | shutdownInProgress
  | notLeaderForPartition
  | reassignmentInProgress
  | brokerNotAvailable
  | corruptMessage
  deriving DecidableEq

structure RaftError where
  code : ErrorCode
  message : String
  deriving DecidableEq

/-- A proposal is refused for the first of several reasons, or appended to the log. -/
def propose (node : RaftNode L) (command : RaftCommand) : RaftNode L × Except RaftError Int :=
  if !node.running then
    (node, .error ⟨.shutdownInProgress,
      "Raft node " ++ toString node.nodeId ++ " is shutting down"⟩)
  else if node.state ≠ .leader then
    (node, .error ⟨.notLeaderForPartition,
      "Not the leader (node " ++ toString node.nodeId ++ " is " ++ stateName node.state ++
        ", leader is " ++ (if node.leaderId ≠ kNoLeader then toString node.leaderId else "unknown") ++
        ")"⟩)
  else if !node.membership.members.isEmpty ∧ !isMember node.membership.members node.nodeId then
    (node, .error ⟨.notLeaderForPartition,
      "Node " ++ toString node.nodeId ++ " is not in the current membership"⟩)
  else if node.transferring then
    (node, .error ⟨.notLeaderForPartition,
      "Leadership transfer in progress — proposals temporarily rejected"⟩)
  else if node.pendingConfigIndex ≠ 0 ∧ command.isConfigChange then
    (node, .error ⟨.reassignmentInProgress,
      "A configuration change is already in progress at index " ++
        toString node.pendingConfigIndex⟩)
  else if node.membership.members.isEmpty then
    (node, .error ⟨.brokerNotAvailable,
      "No cluster membership configured — cannot accept proposals"⟩)
  else
    let prevIndex := node.lastLogIndex
    let prevTerm := if prevIndex > 0 then termAt node.log prevIndex else kNoTerm
    let entry : LogEntry := { term := node.currentTerm, index := prevIndex + 1, command := command }
    let appended := append node.log prevIndex prevTerm [entry]
    let node := { node with log := appended.1 }
    if appended.2 = kNoLogIndex then
      (node, .error ⟨.corruptMessage,
        "Failed to append entry to Raft log at index " ++ toString (prevIndex + 1)⟩)
    else if entry.isConfigChange then
      ({ node with pendingConfigIndex := entry.index }, .ok entry.index)
    else (node, .ok entry.index)

def heartbeatTick (env : Env) (node : RaftNode L) : RaftNode L :=
  if node.state ≠ .leader then node
  else if env.partitioned then node.becomeFollower node.currentTerm
  else
    (((node.sendHeartbeats env).replicateToFollowers env).maybeCreateSnapshot env).tryReactivateFollowers
      env

def stepDown (node : RaftNode L) : RaftNode L :=
  if node.state ≠ .leader then node else node.becomeFollower node.currentTerm

def shutdown (node : RaftNode L) : RaftNode L :=
  if !node.running then node
  else
    { node with
      running := false
      replication :=
        if node.state = .leader then { snapshotChunkData := node.replication.snapshotChunkData }
        else node.replication
      state := .follower
      leaderId := kNoLeader
      transferring := false }

/-- A transfer of leadership in four parts; `transferring` holds off proposals meanwhile. -/
def transferStart (node : RaftNode L) (target : RaftNodeId) : RaftNode L :=
  if node.state ≠ .leader then node
  else if target = node.nodeId then node
  else if !isMember node.membership.quorumSet target then node
  else
    match node.replication.followerStates.lookup target with
    | none => { node with transferring := false }
    | some _ => { node with transferring := true }

def transferRound (env : Env) (node : RaftNode L) (target : RaftNodeId) (lastIndex : Int) :
    RaftNode L :=
  if !node.running then { node with transferring := false }
  else if node.state ≠ .leader then { node with transferring := false }
  else
    match node.replication.followerStates.lookup target with
    | none => node
    | some follower =>
      if follower.matchIndex ≥ lastIndex then node else node.sendAppendEntriesTo env target

def transferSignal (node : RaftNode L) (target : RaftNodeId) : RaftNode L :=
  { node with
    outbox := node.outbox ++ [.requestVote target {
      term := node.currentTerm + 1
      candidateId := target
      lastLogIndex := node.lastLogIndex
      lastLogTerm := termAt node.log node.lastLogIndex
      preVote := false }] }

def transferFinish (node : RaftNode L) : RaftNode L :=
  let node := if node.state = .leader then node.becomeFollower node.currentTerm else node
  { node with transferring := false }

/-!
## Inbound requests
-/

/-- The first entry of a term, found going back from one of its entries. -/
def firstOfTerm (log : L) (localTerm : Int) : Nat → Int → Int
  | 0, index => index
  | fuel + 1, index =>
    if index > firstIndex log ∧ termAt log (index - 1) = localTerm then
      firstOfTerm log localTerm fuel (index - 1)
    else index

/-- Where the log departs from what a request presupposes. -/
def prevLogConflict (log : L) (request : AppendEntriesRequest) : Option Int :=
  if request.prevLogIndex > 0 then
    if request.prevLogIndex > lastIndex log then some (lastIndex log + 1)
    else
      let localTerm := termAt log request.prevLogIndex
      if localTerm ≠ request.prevLogTerm then
        if localTerm ≠ kNoTerm then
          some (firstOfTerm log localTerm
            (request.prevLogIndex - firstIndex log).toNat request.prevLogIndex)
        else some request.prevLogIndex
      else none
  else none

/-- Stores the entries of a request, or says where the log conflicts with it. -/
def appendEntriesToLog (log : L) (request : AppendEntriesRequest) : L × Option Int :=
  match request.entries with
  | [] => (log, prevLogConflict log request)
  | first :: _ =>
    match prevLogConflict log request with
    | some conflict => (log, some conflict)
    | none =>
      let log :=
        if first.index ≤ lastIndex log then truncateSuffix log (first.index - 1)
        else log
      let appended := append log request.prevLogIndex request.prevLogTerm request.entries
      if appended.2 = kNoLogIndex then (appended.1, some (request.prevLogIndex + 1))
      else (appended.1, none)

def lastNew (request : AppendEntriesRequest) : Int :=
  match request.entries.getLast? with
  | none => request.prevLogIndex
  | some entry => entry.index

def advanceFollowerCommit (node : RaftNode L) (request : AppendEntriesRequest) : RaftNode L :=
  if request.leaderCommit > node.commitIndex then
    { node with commitIndex := min request.leaderCommit (lastNew request) }.applyCommitted
  else node

def handleAppendEntries (node : RaftNode L) (request : AppendEntriesRequest) :
    RaftNode L × AppendEntriesResponse :=
  let lastLogIndex := node.lastLogIndex
  if request.term < node.currentTerm then
    (node, { term := node.currentTerm, lastLogIndex := lastLogIndex, conflictIndex := lastLogIndex + 1 })
  else
    let node := if request.term > node.currentTerm then node.becomeFollower request.term else node
    let response : AppendEntriesResponse := { term := node.currentTerm, lastLogIndex := lastLogIndex }
    let node := { node with leaderId := request.leaderId }
    if node.state = .leader ∧ request.term = node.currentTerm then (node, response)
    else
      let stored := appendEntriesToLog node.log request
      let node := { node with log := stored.1 }
      match stored.2 with
      | some conflict => (node, { response with conflictIndex := conflict })
      | none => (node.advanceFollowerCommit request, { response with success := true })

/-- The remote log is at least as up to date as this one. -/
def logIsUpToDate (node : RaftNode L) (remoteLastIndex remoteLastTerm : Int) : Bool :=
  let localLastTerm := termAt node.log node.lastLogIndex
  if remoteLastTerm ≠ localLastTerm then decide (remoteLastTerm > localLastTerm)
  else decide (remoteLastIndex ≥ node.lastLogIndex)

def handleRequestVote (node : RaftNode L) (request : RequestVoteRequest) :
    RaftNode L × RequestVoteResponse :=
  if request.preVote then
    if request.term < node.currentTerm then (node, { term := node.currentTerm })
    else if !node.logIsUpToDate request.lastLogIndex request.lastLogTerm then
      (node, { term := node.currentTerm })
    else (node, { term := node.currentTerm, voteGranted := true })
  else if request.term < node.currentTerm then (node, { term := node.currentTerm })
  else
    let node := if request.term > node.currentTerm then node.becomeFollower request.term else node
    let response : RequestVoteResponse := { term := node.currentTerm }
    if node.votedFor ≠ kNoLeader ∧ node.votedFor ≠ request.candidateId then (node, response)
    else if !node.logIsUpToDate request.lastLogIndex request.lastLogTerm then (node, response)
    else ({ node with votedFor := request.candidateId }, { response with voteGranted := true })

def installReceivedSnapshot (env : Env) (node : RaftNode L) : RaftNode L :=
  let index := node.pendingSnapshotMeta.lastIncludedIndex
  let snapshot : RaftSnapshot := {
    filePath := node.config.snapshotDirectory ++ "/" ++ node.snapshotFileName index env.nowMs
    lastIncludedIndex := index
    lastIncludedTerm := node.pendingSnapshotMeta.lastIncludedTerm
    fileSizeBytes := node.snapshotBuffer.length
    createdAtMs := env.nowMs }
  let node :=
    if env.writeOk then
      { node with
        snapshotFiles := writeFileAtomic node.snapshotFiles
          (node.snapshotFileName index env.nowMs) node.snapshotBuffer
        log := applySnapshot node.log snapshot
        commitIndex := max node.commitIndex index
        lastApplied := max node.lastApplied index }
    else node
  { node with snapshotBuffer := [], pendingSnapshotMeta := {} }

/-- Chunks are taken in order; one at another offset empties the buffer. -/
def receiveChunk (node : RaftNode L) (request : InstallSnapshotRequest) : RaftNode L × Bool :=
  let node :=
    if request.offset = 0 then
      { node with pendingSnapshotMeta := { request with data := [] }, snapshotBuffer := [] }
    else node
  if request.offset ≠ node.snapshotBuffer.length then
    if request.offset = 0 then
      ({ node with
          pendingSnapshotMeta := { request with data := [] }
          snapshotBuffer := request.data }, true)
    else ({ node with snapshotBuffer := [] }, false)
  else ({ node with snapshotBuffer := node.snapshotBuffer ++ request.data }, true)

def handleInstallSnapshot (env : Env) (node : RaftNode L) (request : InstallSnapshotRequest) :
    RaftNode L × InstallSnapshotResponse :=
  if request.term < node.currentTerm then (node, { term := node.currentTerm })
  else
    let node := if request.term > node.currentTerm then node.becomeFollower request.term else node
    let response : InstallSnapshotResponse := { term := node.currentTerm }
    let received := { node with leaderId := request.leaderId }.receiveChunk request
    if received.2 && request.done then (received.1.installReceivedSnapshot env, response)
    else (received.1, response)

/-!
## Responses
-/

/-- A refusal moves the next entry to send back, to the conflict if the follower names one. -/
def backtrack (node : RaftNode L) (follower : FollowerState) (response : AppendEntriesResponse) :
    FollowerState :=
  let nextIndex :=
    if response.conflictIndex > 0 ∧ response.conflictIndex < follower.nextIndex then
      response.conflictIndex
    else if follower.nextIndex > 1 then follower.nextIndex - 1
    else follower.nextIndex
  { follower with nextIndex := max nextIndex (firstIndex node.log) }

def handleAppendEntriesResponse (env : Env) (node : RaftNode L) (sender : RaftNodeId)
    (response : AppendEntriesResponse) : RaftNode L :=
  if node.state ≠ .leader then node
  else if response.term > node.currentTerm then node.becomeFollower response.term
  else
    match node.replication.followerStates.lookup sender with
    | none => node
    | some follower =>
      let follower := { follower with inFlight := follower.inFlight - 1, isActive := true }
      let replication := node.replication.setFailures sender 0
      if response.success then
        let follower :=
          if response.lastLogIndex > follower.matchIndex then
            { follower with
              matchIndex := response.lastLogIndex
              nextIndex := response.lastLogIndex + 1 }
          else follower
        { node with replication := replication.setFollower sender follower }.advanceCommitIndex
      else
        let follower := node.backtrack follower response
        let rounds := replication.rounds sender + 1
        let replication := replication.setFollower sender follower
        if follower.nextIndex ≤ firstIndex node.log ∧ firstIndex node.log > 1 then
          { node with replication := replication.setRounds sender 0 }.sendInstallSnapshotTo env sender
        else if rounds ≥ kMaxBacktrackRounds then
          { node with replication := replication.setRounds sender 0 }.sendInstallSnapshotTo env sender
        else
          { node with replication := replication.setRounds sender rounds }.sendAppendEntriesTo env sender

def handleRequestVoteResponse (env : Env) (node : RaftNode L) (_sender : RaftNodeId)
    (response : RequestVoteResponse) : RaftNode L :=
  if node.state ≠ .candidate ∧ node.state ≠ .preCandidate then node
  else
    let isPreVote := decide (node.state = .preCandidate)
    let requestTerm := if isPreVote then node.currentTerm + 1 else node.currentTerm
    if response.term > requestTerm then node.becomeFollower response.term
    else
      let node :=
        if response.voteGranted then
          if isPreVote then { node with preVotesReceived := node.preVotesReceived + 1 }
          else { node with votesReceived := node.votesReceived + 1 }
        else node
      node.tallyVotes env isPreVote

def handleInstallSnapshotResponse (env : Env) (node : RaftNode L) (sender : RaftNodeId)
    (response : InstallSnapshotResponse) : RaftNode L :=
  if node.state ≠ .leader then node
  else if response.term > node.currentTerm then node.becomeFollower response.term
  else
    match node.replication.followerStates.lookup sender with
    | none => node
    | some follower =>
      let follower := { follower with inFlight := follower.inFlight - 1 }
      match follower.pendingSnapshot with
      | none => { node with replication := node.replication.setFollower sender follower }
      | some pending =>
        if pending.done then
          let follower :=
            if pending.lastIncludedIndex > follower.matchIndex then
              { follower with
                matchIndex := pending.lastIncludedIndex
                nextIndex := pending.lastIncludedIndex + 1 }
            else follower
          { node with
            replication := (node.replication.setFollower sender
              { follower with pendingSnapshot := none }).eraseChunkData sender }.advanceCommitIndex
        else
          { node with
            replication := node.replication.setFollower sender follower }.sendInstallSnapshotTo
              env sender

end RaftNode

end TorrentMq.Consensus
