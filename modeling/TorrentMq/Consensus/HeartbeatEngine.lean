import TorrentMq.Collections.Counting
import TorrentMq.Consensus.RaftTypes

/-!
# The heartbeat engine

Heartbeats, pipelined replication and commit advancement of a leader, over
callbacks of a caller that keeps the term, the log, the members and the commit
index. Time points are nanoseconds of the steady clock, which is read once a
call; intervals are milliseconds.
-/

set_option autoImplicit false

namespace TorrentMq.Consensus

/-!
## Limits
-/

namespace HeartbeatEngine

def nanoseconds (milliseconds : Int) : Int := milliseconds * 1000000

def kMinHeartbeatInterval : Int := 20
def kMaxHeartbeatInterval : Int := 5000
def kMaxHeartbeatFailures : Nat := 3

def kFollowerReactivationInterval : Int := 5

def kHardMaxEntriesPerAppend : Nat := 1000
def kMaxBacktrackRounds : Nat := 10

end HeartbeatEngine

open HeartbeatEngine (nanoseconds)

def entryByteSize (entry : LogEntry) : Nat :=
  80 + match entry.command with
    | .noOp => 0
    | .user command => command.payload.length
    | .configChange command => command.newMembers.length * 4 + command.oldMembers.length * 4

/-!
## Followers
-/

/-- What the engine knows about one follower. -/
structure FollowerTracker where
  peerId : RaftNodeId
  nextIndex : Int := 1
  matchIndex : Int := 0
  inFlight : Nat := 0
  isActive : Bool := true
  lastAck : Int := 0
  consecutiveFailures : Nat := 0
  backtrackRounds : Nat := 0
  inactiveSince : Int := 0
  deriving DecidableEq

namespace FollowerTracker

def resetForLeader (ft : FollowerTracker) (now leaderLastIndex : Int) : FollowerTracker :=
  { ft with
    nextIndex := leaderLastIndex + 1
    matchIndex := 0
    inFlight := 0
    isActive := true
    consecutiveFailures := 0
    backtrackRounds := 0
    lastAck := now
    inactiveSince := 0 }

def markInactive (ft : FollowerTracker) (now : Int) : FollowerTracker :=
  if ft.isActive then { ft with isActive := false, inactiveSince := now } else ft

def reactivate (ft : FollowerTracker) (now : Int) : FollowerTracker :=
  { ft with isActive := true, consecutiveFailures := 0, backtrackRounds := 0, lastAck := now }

def shouldReactivate (ft : FollowerTracker) (now : Int) : Bool :=
  let elapsed := (now - ft.inactiveSince).tdiv (nanoseconds 1000)
  !ft.isActive && decide (HeartbeatEngine.kFollowerReactivationInterval ≤ elapsed)

end FollowerTracker

/-!
## The lease
-/

/-- A lease that lets the leader serve reads until it runs out. -/
structure LeaderLease where
  heartbeatInterval : Int
  clockDrift : Int
  expiration : Option Int := none
  leaseTerm : Int := kNoTerm
  deriving DecidableEq

namespace LeaderLease

def extend (lease : LeaderLease) (now currentTerm : Int) : LeaderLease :=
  { lease with expiration := some (now + nanoseconds ((lease.heartbeatInterval * 3).tdiv 2)), leaseTerm := currentTerm }

def revoke (lease : LeaderLease) : LeaderLease := { lease with expiration := none, leaseTerm := kNoTerm }

end LeaderLease

/-!
## Engine and caller
-/

structure HeartbeatEngine where
  nodeId : RaftNodeId
  heartbeatInterval : Int
  maxEntriesPerAppend : Nat
  maxAppendBytes : Nat
  pipelineDepth : Nat
  lease : LeaderLease
  leaseEnabled : Bool
  followers : OrderedMap RaftNodeId FollowerTracker := .empty

def HeartbeatEngine.new (nodeId : RaftNodeId) (heartbeatInterval : Int)
    (maxEntriesPerAppend maxAppendBytes pipelineDepth : Nat) (enableLease : Bool) (clockDrift : Int) :
    HeartbeatEngine :=
  let heartbeatInterval := max kMinHeartbeatInterval (min heartbeatInterval kMaxHeartbeatInterval)
  { nodeId
    heartbeatInterval
    maxEntriesPerAppend := max 1 (min maxEntriesPerAppend kHardMaxEntriesPerAppend)
    maxAppendBytes := max maxAppendBytes 4096
    pipelineDepth := max pipelineDepth 1
    lease := { heartbeatInterval, clockDrift }
    leaseEnabled := enableLease }

/-- What the callbacks of the caller return. It also keeps the highest commit index that it knows of,
for which the engine has no callback. -/
structure LeaderContext where
  term : Int := kNoTerm
  lastLogIndex : Int := 0
  termAt : Int → Int := fun _ => kNoTerm
  getEntries : Int → Int → List LogEntry := fun _ _ => []
  members : List RaftNodeId := []
  quorum : Nat := 1
  commitIndex : Int := 0

/-- An engine with its caller: the requests that it has sent, the commit indices that it has
notified, and the peers for which it has asked for a snapshot. -/
structure Leading where
  engine : HeartbeatEngine
  context : LeaderContext
  sent : List (RaftNodeId × AppendEntriesRequest) := []
  committed : List Int := []
  snapshotNeeded : List RaftNodeId := []

structure AppendResult where
  leaderShouldStepDown : Bool := false
  commitAdvanced : Bool := false
  newCommitIndex : Int := 0
  followerNeedsSnapshot : Bool := false
  higherTerm : Int := kNoTerm
  deriving DecidableEq

namespace Leading

def setFollower (leading : Leading) (peer : RaftNodeId) (ft : FollowerTracker) : Leading :=
  { leading with engine := { leading.engine with followers := leading.engine.followers.insert peer ft } }

def send (leading : Leading) (peer : RaftNodeId) (req : AppendEntriesRequest) : Leading :=
  { leading with sent := leading.sent ++ [(peer, req)] }

def notifyCommit (leading : Leading) (newCommitIndex : Int) : Leading :=
  { leading with
    context := { leading.context with commitIndex := max leading.context.commitIndex newCommitIndex }
    committed := leading.committed ++ [newCommitIndex] }

/-!
## Followers come and go
-/

def freshFollower (leading : Leading) (now : Int) (peer : RaftNodeId) : FollowerTracker :=
  FollowerTracker.resetForLeader { peerId := peer } now leading.context.lastLogIndex

def initForLeader (leading : Leading) (now : Int) : Leading :=
  (leading.context.members.filter fun peer => peer ≠ leading.engine.nodeId).foldl
    (fun reset peer => reset.setFollower peer (leading.freshFollower now peer))
    { leading with engine := { leading.engine with followers := .empty } }

def clearForFollower (leading : Leading) : Leading :=
  { leading with engine := { leading.engine with followers := .empty, lease := leading.engine.lease.revoke } }

def addFollower (leading : Leading) (now : Int) (peer : RaftNodeId) : Leading :=
  if peer = leading.engine.nodeId then leading
  else if (leading.engine.followers.find? peer).isSome then leading
  else leading.setFollower peer (leading.freshFollower now peer)

def removeFollower (leading : Leading) (peer : RaftNodeId) : Leading :=
  { leading with engine := { leading.engine with followers := leading.engine.followers.erase peer } }

def tryReactivateFollowers (leading : Leading) (now : Int) : Leading :=
  { leading with
    engine := {
      leading.engine with
      followers := leading.engine.followers.mapValues fun _ ft =>
        if ft.isActive = false ∧ ft.shouldReactivate now = true then ft.reactivate now else ft } }

/-!
## Heartbeats
-/

def heardWithin (leading : Leading) (now window : Int) : Nat :=
  1 + leading.engine.followers.count fun ft => ft.isActive && decide (now - ft.lastAck < window)

def checkLeaderHealth (leading : Leading) (now : Int) : Bool :=
  decide (leading.context.quorum ≤ leading.heardWithin now (nanoseconds (leading.engine.heartbeatInterval * 3)))

def extendLease (leading : Leading) (now : Int) : Leading :=
  { leading with
    engine := { leading.engine with lease := leading.engine.lease.extend now leading.context.term } }

def revokeLease (leading : Leading) : Leading :=
  { leading with engine := { leading.engine with lease := leading.engine.lease.revoke } }

def maybeExtendLease (leading : Leading) (now : Int) : Leading :=
  if leading.engine.leaseEnabled = false then leading
  else if leading.context.quorum ≤ leading.heardWithin now (nanoseconds (leading.engine.heartbeatInterval * 2)) then
    leading.extendLease now
  else leading

def appendRequest (leading : Leading) (ft : FollowerTracker) (commitIdx : Int) (entries : List LogEntry) :
    AppendEntriesRequest where
  term := leading.context.term
  leaderId := leading.engine.nodeId
  prevLogIndex := ft.nextIndex - 1
  prevLogTerm := leading.context.termAt (ft.nextIndex - 1)
  entries := entries
  leaderCommit := commitIdx

/-- The heartbeat to one member. Those who joined since are tracked from now on, and an inactive
follower is left out until it is time to try it again. -/
def sendHeartbeat (now commitIdx : Int) (leading : Leading) (peer : RaftNodeId) : Leading :=
  if peer = leading.engine.nodeId then leading
  else
    let ft := (leading.engine.followers.find? peer).getD (leading.freshFollower now peer)
    if ft.isActive = false ∧ ft.shouldReactivate now = false then leading
    else
      let ft := if ft.isActive then ft else ft.reactivate now
      (leading.send peer (leading.appendRequest ft commitIdx [])).setFollower peer
        { ft with inFlight := ft.inFlight + 1 }

def sendHeartbeats (leading : Leading) (now : Int) : Leading × Bool :=
  let commitIdx := leading.context.lastLogIndex
  let members := leading.context.members
  let leading := members.foldl (sendHeartbeat now commitIdx) leading
  if members.length ≤ 1 then (if leading.engine.leaseEnabled then leading.extendLease now else leading, true)
  else (leading, leading.checkLeaderHealth now)

/-!
## Replication
-/

def fillBatch (maxAppendBytes : Nat) (batchBytes : Nat) (batch : List LogEntry) : List LogEntry → List LogEntry
  | [] => batch
  | entry :: entries =>
    if maxAppendBytes < batchBytes + entryByteSize entry ∧ batch ≠ [] then batch
    else fillBatch maxAppendBytes (batchBytes + entryByteSize entry) (batch ++ [entry]) entries

def replicate (firstLogIndex commitIdx : Int) (leading : Leading) (peer : RaftNodeId) : Leading :=
  if peer = leading.engine.nodeId then leading
  else
    match leading.engine.followers.find? peer with
    | none => leading
    | some ft =>
      if ft.isActive = false then leading
      else if leading.engine.pipelineDepth ≤ ft.inFlight then leading
      else if commitIdx < ft.nextIndex then leading
      else if ft.nextIndex ≤ firstLogIndex then
        { leading with snapshotNeeded := leading.snapshotNeeded ++ [peer] }
      else
        let batchEnd := min (ft.nextIndex + leading.engine.maxEntriesPerAppend - 1) commitIdx
        let batch := fillBatch leading.engine.maxAppendBytes 0 [] (leading.context.getEntries ft.nextIndex batchEnd)
        if batch.isEmpty then leading
        else
          (leading.send peer (leading.appendRequest ft commitIdx batch)).setFollower peer
            { ft with inFlight := ft.inFlight + 1 }

def replicateToFollowers (leading : Leading) (firstLogIndex : Int) : Leading :=
  leading.context.members.foldl (replicate firstLogIndex leading.context.lastLogIndex) leading

/-!
## Commit advancement
-/

def replicated (leading : Leading) (index : Int) : Nat :=
  1 + leading.engine.followers.count fun ft => decide (index ≤ ft.matchIndex)

/-- The loop of `tryAdvanceCommit` from an index downwards. Its last comparison is with the last index
of the log too. -/
def advanceFrom (leading : Leading) (currentTerm : Int) (qsize : Nat) : Nat → Leading × Bool
  | 0 => (leading, false)
  | lower + 1 =>
    let index : Int := lower + 1
    if leading.context.termAt index ≠ currentTerm then leading.advanceFrom currentTerm qsize lower
    else if qsize ≤ leading.replicated index then
      if leading.context.lastLogIndex < index then (leading.notifyCommit index, true) else (leading, false)
    else leading.advanceFrom currentTerm qsize lower

def tryAdvanceCommit (leading : Leading) : Leading × Bool :=
  leading.advanceFrom leading.context.term leading.context.quorum leading.context.lastLogIndex.toNat

/-!
## Responses
-/

def acknowledge (ft : FollowerTracker) (now newMatch : Int) : FollowerTracker :=
  let ft := { ft with inFlight := ft.inFlight - 1 }
  let ft := if ft.matchIndex < newMatch then { ft with matchIndex := newMatch, nextIndex := newMatch + 1 } else ft
  { ft with consecutiveFailures := 0, backtrackRounds := 0, lastAck := now, isActive := true }

def backtrack (ft : FollowerTracker) (now conflictIndex : Int) : FollowerTracker × Bool :=
  let ft := {
    ft with
    inFlight := ft.inFlight - 1
    consecutiveFailures := ft.consecutiveFailures + 1
    backtrackRounds := ft.backtrackRounds + 1 }
  let ft :=
    if 0 < conflictIndex ∧ conflictIndex < ft.nextIndex then { ft with nextIndex := conflictIndex }
    else if 1 < ft.nextIndex then { ft with nextIndex := ft.nextIndex - 1 }
    else ft
  let tooMany := decide (HeartbeatEngine.kMaxBacktrackRounds ≤ ft.backtrackRounds)
  let ft := if tooMany then { ft with backtrackRounds := 0 } else ft
  (if HeartbeatEngine.kMaxHeartbeatFailures ≤ ft.consecutiveFailures then ft.markInactive now else ft, tooMany)

def handleAppendEntriesResponse (leading : Leading) (now : Int) (sender : RaftNodeId)
    (resp : AppendEntriesResponse) : Leading × AppendResult :=
  if leading.context.term < resp.term then
    (leading, { leaderShouldStepDown := true, higherTerm := resp.term })
  else
    match leading.engine.followers.find? sender with
    | none => (leading, {})
    | some ft =>
      if resp.success then
        let (leading, commitAdvanced) :=
          (leading.setFollower sender (acknowledge ft now resp.lastLogIndex)).tryAdvanceCommit
        (leading.maybeExtendLease now,
          { commitAdvanced, newCommitIndex := if commitAdvanced then leading.context.lastLogIndex else 0 })
      else
        let (ft, followerNeedsSnapshot) := backtrack ft now resp.conflictIndex
        (leading.setFollower sender ft, { followerNeedsSnapshot })

end Leading

end TorrentMq.Consensus
