import TorrentMq.Consensus.ElectionEngine

/-!
# Pre-vote handshakes

What becomes of a pre-vote between two engines: it is granted under the term
that is probed for, and that term makes the one that asked step down.
-/

set_option autoImplicit false

namespace TorrentMq.Consensus

namespace Election

variable (onStateChange : StateChangeNotifier)

theorem handleRequestVote_preVote {peer : Election} {req : RequestVoteRequest}
    (preVote : req.preVote = true) (above : peer.context.term < req.term)
    (upToDate : logIsUpToDate req.lastLogIndex req.lastLogTerm peer.context.lastLogIndex peer.context.lastLogTerm =
      true) :
    peer.handleRequestVote onStateChange req = (peer, { term := req.term, voteGranted := true }) := by
  unfold handleRequestVote
  dsimp only
  rw [if_neg (by omega), preVote, Bool.not_true, Bool.false_and, if_neg Bool.false_ne_true,
    if_neg Bool.false_ne_true, if_neg (by omega), upToDate, if_neg (by decide), if_pos rfl,
    Int.max_eq_right (Int.le_of_lt above)]

theorem handleRequestVoteResponse_higher {election : Election}
    (sender : RaftNodeId) {resp : RequestVoteResponse} (wasPreVote : Bool)
    (higher : election.context.term < resp.term) :
    election.handleRequestVoteResponse onStateChange sender resp wasPreVote =
      ((election.becomeFollower onStateChange resp.term).1,
        { action := .becomeFollower, peerTerm := resp.term, voteGranted := resp.voteGranted }) := by
  unfold handleRequestVoteResponse
  dsimp only
  rw [if_pos higher]

theorem engine_becomeFollower (election : Election) (newTerm : Int) :
    (election.becomeFollower onStateChange newTerm).1.engine =
      { election.engine with state := .follower, voteTracker := none, consecutiveTimeouts := 0 } := by
  unfold becomeFollower
  dsimp only
  split <;> rfl

/-- What a pre-vote that was granted is meant to do: it is counted, the engine that asked goes on
probing, and the last grant that it needs makes it a candidate. -/
structure PreVoteCounts (sender : RaftNodeId) (after : Election × ResponseResult) : Prop where
  recorded : ∃ tracker, after.1.engine.voteTracker = some tracker ∧ tracker.alreadyVoted.lookup sender = some true
  stays : after.1.engine.state = .preCandidate
  action : ∀ tracker, after.1.engine.voteTracker = some tracker →
    after.2.action = if tracker.quorumReached then .becomeCandidate else .none

/-- The peer grants the pre-vote, and its response makes the engine that asked step down, whatever
its state. -/
theorem preVote_stepsDown (onStateChange onPeerChange : StateChangeNotifier) {election peer : Election}
    (sender : RaftNodeId) (older : peer.context.term ≤ election.context.term)
    (upToDate : logIsUpToDate election.context.lastLogIndex election.context.lastLogTerm peer.context.lastLogIndex
      peer.context.lastLogTerm = true) :
    (peer.handleRequestVote onPeerChange (election.voteRequest true)).2.voteGranted = true ∧
      (election.handleRequestVoteResponse onStateChange sender
        (peer.handleRequestVote onPeerChange (election.voteRequest true)).2 true).2.action = .becomeFollower ∧
      ¬PreVoteCounts sender (election.handleRequestVoteResponse onStateChange sender
        (peer.handleRequestVote onPeerChange (election.voteRequest true)).2 true) := by
  have term : (election.voteRequest true).term = election.context.term + 1 := rfl
  rw [@handleRequestVote_preVote onPeerChange peer (election.voteRequest true) rfl (by omega) upToDate]
  dsimp only
  rw [handleRequestVoteResponse_higher onStateChange sender true (by dsimp only; omega)]
  refine ⟨rfl, rfl, fun counts => ?_⟩
  have stays := counts.stays
  rw [engine_becomeFollower] at stays
  cases stays

/-- Two engines in term 1 with empty logs, the first of which has asked for pre-votes. -/
theorem preVote_stepsDown_equal :
    let election : Election := {
      engine := { nodeId := 1, state := .preCandidate, voteTracker := some (VoteTracker.new 3 true) }
      context := { term := 1, members := [1, 2, 3] } }
    let peer : Election := { engine := { nodeId := 2 }, context := { term := 1, members := [1, 2, 3] } }
    let onStateChange : StateChangeNotifier := fun context _ _ _ => context
    ¬PreVoteCounts 2 (election.handleRequestVoteResponse onStateChange 2
      (peer.handleRequestVote onStateChange (election.voteRequest true)).2 true) := by
  intro election peer onStateChange
  exact (preVote_stepsDown onStateChange onStateChange 2 (by decide) (by decide)).2.2

theorem not_preVoteCounts : ¬∀ (onStateChange onPeerChange : StateChangeNotifier) (election peer : Election),
    election.engine.state = .preCandidate → peer.context.term ≤ election.context.term →
      logIsUpToDate election.context.lastLogIndex election.context.lastLogTerm peer.context.lastLogIndex
        peer.context.lastLogTerm = true →
      PreVoteCounts peer.engine.nodeId (election.handleRequestVoteResponse onStateChange peer.engine.nodeId
        (peer.handleRequestVote onPeerChange (election.voteRequest true)).2 true) := by
  intro claim
  have stays := (claim (fun context _ _ _ => context) (fun context _ _ _ => context)
    { engine := { nodeId := 1, state := .preCandidate, voteTracker := some (VoteTracker.new 3 true) }
      context := { term := 1, members := [1, 2, 3] } }
    { engine := { nodeId := 2 }, context := { term := 1, members := [1, 2, 3] } } rfl (by decide) (by decide)).stays
  cases stays

end Election

end TorrentMq.Consensus
