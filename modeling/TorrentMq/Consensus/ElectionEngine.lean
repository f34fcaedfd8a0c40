import TorrentMq.Consensus.RaftTypes

/-!
# The election engine

Elections with a pre-vote phase, over callbacks of a caller that keeps the
term, the log and the members. Timers only decide when a timeout is reported
and are left out.
-/

set_option autoImplicit false

namespace TorrentMq.Consensus

/-!
## Votes
-/

structure VoteTracker where
  clusterSize : Nat
  votesReceived : Nat
  peersResponded : Nat := 0
  quorum : Nat
  alreadyVoted : AList (fun _ : RaftNodeId => Bool) := ∅

namespace VoteTracker

def new (clusterSize : Nat) (selfVote : Bool) : VoteTracker :=
  let clusterSize := if clusterSize = 0 then 1 else clusterSize
  { clusterSize, votesReceived := if selfVote then 1 else 0, quorum := clusterSize / 2 + 1 }

def quorumReached (tracker : VoteTracker) : Bool := decide (tracker.quorum ≤ tracker.votesReceived)

def recordGrant (tracker : VoteTracker) (peer : RaftNodeId) : VoteTracker × Bool :=
  if peer ∈ tracker.alreadyVoted then (tracker, tracker.quorumReached)
  else
    let tracker := {
      tracker with
      alreadyVoted := tracker.alreadyVoted.insert peer true
      votesReceived := tracker.votesReceived + 1 }
    (tracker, tracker.quorumReached)

def recordRejection (tracker : VoteTracker) (peer : RaftNodeId) : VoteTracker :=
  if peer ∈ tracker.alreadyVoted then tracker
  else
    { tracker with
      alreadyVoted := tracker.alreadyVoted.insert peer false
      peersResponded := tracker.peersResponded + 1 }

end VoteTracker

/-!
## Engine and caller
-/

structure ElectionEngine where
  nodeId : RaftNodeId
  state : RaftNodeState := .follower
  voteTracker : Option VoteTracker := none
  consecutiveTimeouts : Nat := 0

/-- What the engine is told about its node with every call. -/
structure ElectionContext where
  term : Int := kNoTerm
  lastLogIndex : Int := 0
  lastLogTerm : Int := kNoTerm
  members : List RaftNodeId := []
  enablePreVote : Bool := true
  deriving DecidableEq

abbrev StateChangeNotifier := ElectionContext → RaftNodeState → RaftNodeState → Int → ElectionContext

structure Election where
  engine : ElectionEngine
  context : ElectionContext
  sent : List (RaftNodeId × RequestVoteRequest) := []

/-- What the caller is to do after a call. -/
inductive ElectionAction where
  | none
  | becomeLeader
  | becomeCandidate
  | becomeFollower
  deriving DecidableEq

structure ResponseResult where
  action : ElectionAction := .none
  peerTerm : Int := kNoTerm
  voteGranted : Bool := false
  deriving DecidableEq

def logIsUpToDate (remoteLastIndex remoteLastTerm localLastIndex localLastTerm : Int) : Bool :=
  if remoteLastTerm ≠ localLastTerm then decide (localLastTerm < remoteLastTerm)
  else decide (localLastIndex ≤ remoteLastIndex)

namespace Election

section

variable (onStateChange : StateChangeNotifier)

def notifyStateChange (election : Election) (oldState newState : RaftNodeState) (term : Int) : Election :=
  { election with context := onStateChange election.context oldState newState term }

/-!
## Transitions
-/

def becomeFollower (election : Election) (newTerm : Int) : Election × Bool :=
  let prev := election.engine.state
  let prevTerm := election.context.term
  let stepped := {
    election with
    engine := { election.engine with state := .follower, voteTracker := none, consecutiveTimeouts := 0 } }
  (if prev ≠ .follower then stepped.notifyStateChange onStateChange prev .follower (max newTerm prevTerm) else stepped,
    decide (prevTerm < newTerm))

def onBecomeLeader (election : Election) : Election :=
  let prev := election.engine.state
  let leading := {
    election with
    engine := { election.engine with state := .leader, voteTracker := none, consecutiveTimeouts := 0 } }
  leading.notifyStateChange onStateChange prev .leader leading.context.term

def voteRequest (election : Election) (preVote : Bool) : RequestVoteRequest where
  term := if preVote then election.context.term + 1 else election.context.term
  candidateId := election.engine.nodeId
  lastLogIndex := election.context.lastLogIndex
  lastLogTerm := election.context.lastLogTerm
  preVote := preVote

def startVoteRound (preVote : Bool) (autoWin : Election → Election) (election : Election) : Election :=
  let peers := election.context.members.filter fun peer => peer ≠ election.engine.nodeId
  let asked := {
    election with sent := election.sent ++ peers.map fun peer => (peer, election.voteRequest preVote) }
  if peers.length = 0 ∧ election.context.members.length ≤ 1 then autoWin asked else asked

def becomeCandidate (election : Election) : Election :=
  if election.context.members.isEmpty then
    { election with engine := { election.engine with state := .follower } }
  else
    let newTerm := election.context.term + 1
    let prev := election.engine.state
    let candidate := {
      election with
      engine := {
        election.engine with
        state := .candidate
        voteTracker := some (VoteTracker.new election.context.members.length true) } }
    (candidate.notifyStateChange onStateChange prev .candidate newTerm).startVoteRound false
      (onBecomeLeader onStateChange)

def becomePreCandidate (election : Election) : Election :=
  if election.engine.state = .preCandidate then election
  else if election.engine.state = .leader then election
  else if election.context.members.isEmpty then election
  else
    let currentTerm := election.context.term
    let prev := election.engine.state
    let preCandidate := {
      election with
      engine := {
        election.engine with
        state := .preCandidate
        voteTracker := some (VoteTracker.new election.context.members.length true) } }
    (preCandidate.notifyStateChange onStateChange prev .preCandidate (currentTerm + 1)).startVoteRound true
      (becomeCandidate onStateChange)

def onTimeout (election : Election) : Election :=
  if election.engine.state = .leader then election
  else
    let counted := {
      election with
      engine := { election.engine with consecutiveTimeouts := election.engine.consecutiveTimeouts + 1 } }
    if counted.context.enablePreVote = true ∧ counted.engine.state ≠ .candidate then
      counted.becomePreCandidate onStateChange
    else counted.becomeCandidate onStateChange

def resetTimer (election : Election) : Election :=
  if election.engine.state = .follower then
    { election with engine := { election.engine with consecutiveTimeouts := 0 } }
  else election

def stepDownFromLeader (election : Election) (currentTerm : Int) : Election :=
  if election.engine.state ≠ .leader then election else (election.becomeFollower onStateChange currentTerm).1

/-!
## Requests and responses
-/

def handleRequestVote (election : Election) (req : RequestVoteRequest) : Election × RequestVoteResponse :=
  let currentTerm := election.context.term
  if req.term < currentTerm then (election, { term := currentTerm, voteGranted := false })
  else
    let stepsDown := !req.preVote && decide (currentTerm < req.term)
    let election := if stepsDown then (election.becomeFollower onStateChange req.term).1 else election
    let respTerm := if stepsDown then req.term else currentTerm
    if req.preVote = true ∧ req.term < currentTerm + 1 then (election, { term := respTerm, voteGranted := false })
    else if !logIsUpToDate req.lastLogIndex req.lastLogTerm election.context.lastLogIndex
        election.context.lastLogTerm then
      (election, { term := respTerm, voteGranted := false })
    else
      (if req.preVote then election else election.resetTimer,
        { term := max currentTerm req.term, voteGranted := true })

def handleRequestVoteResponse (election : Election) (sender : RaftNodeId) (resp : RequestVoteResponse)
    (wasPreVote : Bool) : Election × ResponseResult :=
  let result : ResponseResult := { peerTerm := resp.term, voteGranted := resp.voteGranted }
  let currentTerm := election.context.term
  if currentTerm < resp.term then
    ((election.becomeFollower onStateChange resp.term).1, { result with action := .becomeFollower })
  else if election.engine.state ≠ .candidate ∧ election.engine.state ≠ .preCandidate then (election, result)
  else if resp.term < currentTerm then (election, result)
  else
    match election.engine.voteTracker with
    | none => (election, result)
    | some tracker =>
      if resp.voteGranted then
        let (tracker, won) := tracker.recordGrant sender
        ({ election with engine := { election.engine with voteTracker := some tracker } },
          if !won then result
          else if wasPreVote then { result with action := .becomeCandidate }
          else { result with action := .becomeLeader })
      else
        ({ election with engine := { election.engine with voteTracker := some (tracker.recordRejection sender) } },
          result)

end

end Election

end TorrentMq.Consensus
