import Mathlib.Algebra.Order.Group.Int
import TorrentMq.Consensus.ElectionPreVotes
import TorrentMq.Runs.Basic

/-!
# Counting votes

Runs of an election engine over a fixed configuration and a caller that keeps
its side: who has voted for a node when it is told to become the leader.
-/

set_option autoImplicit false

namespace TorrentMq.Consensus

open List Election VoteTracker

def persist : StateChangeNotifier := fun context _ newState term =>
  match newState with
  | .candidate => { context with term }
  | _ => context

inductive ElectionCall where
  | timeout
  | response (sender : RaftNodeId) (resp : RequestVoteResponse) (wasPreVote : Bool)
  | request (req : RequestVoteRequest)
  | becomeFollower (newTerm : Int)
  | becomeLeader
  | stepDownFromLeader
  | resetTimer
  | provide (lastLogIndex lastLogTerm : Int) (members : List RaftNodeId)
  deriving DecidableEq

structure ElectionRun where
  election : Election
  answered : List (RaftNodeId × RequestVoteResponse × Bool) := []
  round : List RaftNodeId := []
  action : ElectionAction := .none

namespace ElectionRun

def start (nodeId : RaftNodeId) (context : ElectionContext) : ElectionRun where
  election := { engine := { nodeId }, context }

def term (run : ElectionRun) : Int := run.election.context.term

def state (run : ElectionRun) : RaftNodeState := run.election.engine.state

def adopt (election : Election) (term : Int) : Election :=
  { election with context := { election.context with term := max election.context.term term } }

def step (run : ElectionRun) : ElectionCall → ElectionRun
  | .timeout =>
    { run with election := run.election.onTimeout persist, round := run.election.context.members, action := .none }
  | .response sender resp wasPreVote =>
    let (election, result) := run.election.handleRequestVoteResponse persist sender resp wasPreVote
    { run with
      election := if result.action = .becomeFollower then adopt election result.peerTerm else election
      answered := run.answered ++ [(sender, resp, wasPreVote)]
      action := result.action }
  | .request req =>
    let (election, resp) := run.election.handleRequestVote persist req
    { run with election := if req.preVote then election else adopt election resp.term, action := .none }
  | .becomeFollower newTerm =>
    { run with election := adopt (run.election.becomeFollower persist newTerm).1 newTerm, action := .none }
  | .becomeLeader => { run with election := run.election.onBecomeLeader persist, action := .none }
  | .stepDownFromLeader =>
    { run with election := run.election.stepDownFromLeader persist run.term, action := .none }
  | .resetTimer => { run with election := run.election.resetTimer, action := .none }
  | .provide lastLogIndex lastLogTerm members =>
    { run with
      election := { run.election with context := { run.election.context with lastLogIndex, lastLogTerm, members } }
      action := .none }

/-- A response is to a request that was sent, and a granted one carries the term of the request. -/
def Answers (run : ElectionRun) : ElectionCall → Prop
  | .response sender resp wasPreVote =>
    ∃ req, (sender, req) ∈ run.election.sent ∧ req.preVote = wasPreVote ∧
      (resp.voteGranted = true → resp.term = req.term)
  | _ => True

def InPhase (run : ElectionRun) : ElectionCall → Prop
  | .response _ resp wasPreVote => resp.voteGranted = true → resp.term = run.term →
      (run.state = .candidate → wasPreVote = false) ∧ (run.state = .preCandidate → wasPreVote = true)
  | _ => True

/-- Besides the node itself so many members have granted it a standard vote of its term that there
is a quorum of those that the round began with. -/
def Elected (run : ElectionRun) : Prop :=
  ∃ voters : List RaftNodeId, voters.Nodup ∧ run.election.engine.nodeId ∉ voters ∧
    (∀ voter ∈ voters, voter ∈ run.round ∧ (voter, ⟨run.term, true⟩, false) ∈ run.answered) ∧
    run.round.length / 2 + 1 ≤ voters.length + 1

/-- Every vote that is counted is one of the node itself or a standard one of the current term. -/
def Tallied (run : ElectionRun) (tracker : VoteTracker) : Prop :=
  tracker.quorum = run.round.length / 2 + 1 ∧
    ∃ voters : List RaftNodeId, voters.Nodup ∧ run.election.engine.nodeId ∉ voters ∧
      (∀ voter ∈ voters, voter ∈ run.round ∧ (voter, ⟨run.term, true⟩, false) ∈ run.answered) ∧
      (∀ voter ∈ voters, voter ∈ tracker.alreadyVoted) ∧ tracker.votesReceived = voters.length + 1

structure Counted (run : ElectionRun) : Prop where
  sent : ∀ request ∈ run.election.sent, request.2.preVote = false →
    request.2.term ≤ run.term ∧ request.1 ≠ run.election.engine.nodeId
  asked : run.state = .candidate → ∀ request ∈ run.election.sent, request.2.preVote = false →
    request.2.term = run.term → request.1 ∈ run.round
  tallied : run.state = .candidate → ∀ tracker ∈ run.election.engine.voteTracker, run.Tallied tracker
  elected : run.action = .becomeLeader → run.Elected

/-- What a timeout may do to an election: at most begin a new round of votes in a new term. -/
structure TimedOut (before after : Election) : Prop where
  nodeId : after.engine.nodeId = before.engine.nodeId
  term : before.context.term ≤ after.context.term
  sent : ∀ request ∈ after.sent, request.2.preVote = false → request ∈ before.sent ∨
    (before.context.term < request.2.term ∧ request.2.term = after.context.term ∧
      request.1 ∈ before.context.members ∧ request.1 ≠ before.engine.nodeId)
  candidate : after.engine.state = .candidate → before.context.term < after.context.term ∧
    before.context.members ≠ [] ∧
    after.engine.voteTracker = some (new before.context.members.length true)

/-!
## Transitions
-/

theorem timedOut_of_not_candidate {before after : Election} (nodeId : after.engine.nodeId = before.engine.nodeId)
    (term : after.context.term = before.context.term) (sent : ∀ request ∈ after.sent, request ∈ before.sent ∨
      request.2.preVote = true) (other : after.engine.state ≠ .candidate) : TimedOut before after where
  nodeId := nodeId
  term := term.ge
  sent := by
    intro request member standard
    cases sent request member with
    | inl old => exact .inl old
    | inr preVote =>
      rw [preVote] at standard
      cases standard
  candidate := fun candidate => absurd candidate other

theorem mem_asked {election : Election} {preVote : Bool} {request : RaftNodeId × RequestVoteRequest}
    (member : request ∈ (election.context.members.filter fun peer => peer ≠ election.engine.nodeId).map
      fun peer => (peer, election.voteRequest preVote)) :
    request.1 ∈ election.context.members ∧ request.1 ≠ election.engine.nodeId ∧
      request.2 = election.voteRequest preVote := by
  obtain ⟨peer, inside, rfl⟩ := mem_map.mp member
  obtain ⟨listed, other⟩ := List.mem_filter.mp inside
  exact ⟨listed, of_decide_eq_true other, rfl⟩

def Alone (election : Election) : Prop :=
  (election.context.members.filter fun peer => peer ≠ election.engine.nodeId) = [] ∧
    election.context.members.length ≤ 1

theorem startVoteRound_alone {preVote : Bool} {autoWin : Election → Election} {election : Election}
    (alone : Alone election) : election.startVoteRound preVote autoWin = autoWin election := by
  unfold startVoteRound
  dsimp only
  rw [if_pos ⟨length_eq_zero_iff.mpr alone.1, alone.2⟩, alone.1, map_nil, append_nil]

theorem startVoteRound_cases (preVote : Bool) (autoWin : Election → Election) (election : Election) :
    (Alone election ∧ election.startVoteRound preVote autoWin = autoWin election) ∨
      (¬Alone election ∧ election.startVoteRound preVote autoWin = {
        election with
        sent := election.sent ++ (election.context.members.filter fun peer => peer ≠ election.engine.nodeId).map
          fun peer => (peer, election.voteRequest preVote) }) := by
  by_cases alone : Alone election
  · exact .inl ⟨alone, startVoteRound_alone alone⟩
  · refine .inr ⟨alone, ?_⟩
    unfold startVoteRound
    dsimp only
    exact if_neg fun only => alone ⟨length_eq_zero_iff.mp only.1, only.2⟩

variable (election : Election)

theorem timedOut_becomeCandidate : TimedOut election (election.becomeCandidate persist) := by
  unfold becomeCandidate
  split
  · exact timedOut_of_not_candidate rfl rfl (fun request member => .inl member) (fun same => by cases same)
  next some =>
    rw [List.isEmpty_iff] at some
    have later : election.context.term < election.context.term + 1 := Int.lt_succ _
    cases startVoteRound_cases false (onBecomeLeader persist) (notifyStateChange persist {
        election with
        engine := {
          election.engine with
          state := .candidate
          voteTracker := Option.some (new election.context.members.length true) } }
        election.engine.state .candidate (election.context.term + 1)) with
    | inl alone =>
      rw [alone.2]
      exact ⟨rfl, later.le, fun request member _ => .inl member, fun leads => by cases leads⟩
    | inr asks =>
      rw [asks.2]
      refine ⟨rfl, later.le, ?_, fun _ => ⟨later, some, rfl⟩⟩
      intro request member _
      cases mem_append.mp member with
      | inl old => exact .inl old
      | inr new =>
        obtain ⟨listed, other, same⟩ := mem_asked new
        rw [same]
        exact .inr ⟨later, rfl, listed, other⟩

theorem timedOut_becomePreCandidate (other : election.engine.state ≠ .candidate) :
    TimedOut election (election.becomePreCandidate persist) := by
  have same : TimedOut election election :=
    timedOut_of_not_candidate rfl rfl (fun request member => .inl member) other
  unfold becomePreCandidate
  split
  · exact same
  · split
    · exact same
    · split
      · exact same
      · cases startVoteRound_cases true (becomeCandidate persist) (notifyStateChange persist {
            election with
            engine := {
              election.engine with
              state := .preCandidate
              voteTracker := some (new election.context.members.length true) } }
            election.engine.state .preCandidate (election.context.term + 1)) with
        | inl alone =>
          rw [alone.2]
          have wins := timedOut_becomeCandidate (notifyStateChange persist {
            election with
            engine := {
              election.engine with
              state := .preCandidate
              voteTracker := some (new election.context.members.length true) } }
            election.engine.state .preCandidate (election.context.term + 1))
          exact ⟨wins.nodeId, wins.term, wins.sent, wins.candidate⟩
        | inr asks =>
          rw [asks.2]
          refine timedOut_of_not_candidate rfl rfl ?_ (fun same => by cases same)
          intro request member
          cases mem_append.mp member with
          | inl old => exact .inl old
          | inr new =>
            obtain ⟨-, -, asked⟩ := mem_asked new
            rw [asked]
            exact .inr rfl

theorem timedOut_onTimeout (other : election.engine.state ≠ .leader) :
    TimedOut election (election.onTimeout persist) := by
  unfold onTimeout
  rw [if_neg other]
  dsimp only
  split
  next preVote =>
    have pre := timedOut_becomePreCandidate {
      election with
      engine := { election.engine with consecutiveTimeouts := election.engine.consecutiveTimeouts + 1 } } preVote.2
    exact ⟨pre.nodeId, pre.term, pre.sent, pre.candidate⟩
  next =>
    have direct := timedOut_becomeCandidate {
      election with
      engine := { election.engine with consecutiveTimeouts := election.engine.consecutiveTimeouts + 1 } }
    exact ⟨direct.nodeId, direct.term, direct.sent, direct.candidate⟩

theorem becomeFollower_persist (newTerm : Int) :
    (election.becomeFollower persist newTerm).1 = {
      election with
      engine := { election.engine with state := .follower, voteTracker := none, consecutiveTimeouts := 0 } } := by
  unfold becomeFollower
  dsimp only
  split <;> rfl

theorem handleRequestVote_persist (req : RequestVoteRequest) :
    (election.handleRequestVote persist req).1.sent = election.sent ∧
      (election.handleRequestVote persist req).1.context = election.context ∧
      (election.handleRequestVote persist req).1.engine.nodeId = election.engine.nodeId ∧
      ((election.handleRequestVote persist req).1.engine.state = .follower ∨
        ((election.handleRequestVote persist req).1.engine.state = election.engine.state ∧
          (election.handleRequestVote persist req).1.engine.voteTracker = election.engine.voteTracker ∧
          (req.preVote = false → (election.handleRequestVote persist req).2.term ≤ election.context.term))) := by
  unfold handleRequestVote
  dsimp only
  split
  · exact ⟨rfl, rfl, rfl, .inr ⟨rfl, rfl, fun _ => le_rfl⟩⟩
  next current =>
    by_cases stepsDown : (!req.preVote && decide (election.context.term < req.term)) = true
    · rw [if_pos stepsDown, if_pos stepsDown, becomeFollower_persist]
      split
      · exact ⟨rfl, rfl, rfl, .inl rfl⟩
      · split
        · exact ⟨rfl, rfl, rfl, .inl rfl⟩
        · split
          · exact ⟨rfl, rfl, rfl, .inl rfl⟩
          · exact ⟨rfl, rfl, rfl, .inl rfl⟩
    · rw [if_neg stepsDown, if_neg stepsDown]
      split
      · exact ⟨rfl, rfl, rfl, .inr ⟨rfl, rfl, fun _ => le_rfl⟩⟩
      · split
        · exact ⟨rfl, rfl, rfl, .inr ⟨rfl, rfl, fun _ => le_rfl⟩⟩
        · have bounded : req.preVote = false → max election.context.term req.term ≤ election.context.term := by
            intro standard
            rw [standard, Bool.not_false, Bool.true_and, decide_eq_true_iff] at stepsDown
            exact max_le le_rfl (not_lt.mp stepsDown)
          split
          · exact ⟨rfl, rfl, rfl, .inr ⟨rfl, rfl, bounded⟩⟩
          · unfold resetTimer
            split <;> exact ⟨rfl, rfl, rfl, .inr ⟨rfl, rfl, bounded⟩⟩

def withTracker (election : Election) (tracker : VoteTracker) : Election :=
  { election with engine := { election.engine with voteTracker := some tracker } }

theorem handleRequestVoteResponse_cases (sender : RaftNodeId) (resp : RequestVoteResponse)
    (wasPreVote : Bool) {result : Election × ResponseResult}
    (returned : election.handleRequestVoteResponse persist sender resp wasPreVote = result) :
    (result.1 = (election.becomeFollower persist resp.term).1 ∧ result.2.action = .becomeFollower) ∨
    (result.1 = election ∧ result.2.action = .none) ∨
    ∃ tracker, election.engine.voteTracker = some tracker ∧ resp.term = election.context.term ∧
      (election.engine.state = .candidate ∨ election.engine.state = .preCandidate) ∧
      ((result.1 = withTracker election (tracker.recordRejection sender) ∧ result.2.action = .none) ∨
        (resp.voteGranted = true ∧ result.1 = withTracker election (tracker.recordGrant sender).1 ∧
          result.2.action =
            if !(tracker.recordGrant sender).2 then .none else if wasPreVote then .becomeCandidate
            else .becomeLeader)) := by
  unfold handleRequestVoteResponse at returned
  dsimp only at returned
  split at returned
  · exact .inl (returned ▸ ⟨rfl, rfl⟩)
  right
  split at returned
  · exact .inl (returned ▸ ⟨rfl, rfl⟩)
  next notHigher inElection =>
    split at returned
    · exact .inl (returned ▸ ⟨rfl, rfl⟩)
    next notStale =>
      split at returned
      · exact .inl (returned ▸ ⟨rfl, rfl⟩)
      next tracker found =>
        right
        refine ⟨tracker, found, by omega, by tauto, ?_⟩
        split at returned
        next granted =>
          right
          refine ⟨granted, returned ▸ rfl, ?_⟩
          rw [← returned]
          dsimp only
          split
          · rfl
          · split <;> rfl
        next => exact .inl (returned ▸ ⟨rfl, rfl⟩)

/-!
## Counts of votes
-/

section Steps

variable {run after : ElectionRun}

theorem Counted.of_not_candidate (counted : Counted run) (sent : after.election.sent = run.election.sent)
    (nodeId : after.election.engine.nodeId = run.election.engine.nodeId) (term : run.term ≤ after.term)
    (other : after.state ≠ .candidate) (action : after.action ≠ .becomeLeader) : Counted after where
  sent := by
    intro request member standard
    rw [sent] at member
    obtain ⟨below, different⟩ := counted.sent request member standard
    exact ⟨below.trans term, nodeId ▸ different⟩
  asked := fun candidate => absurd candidate other
  tallied := fun candidate => absurd candidate other
  elected := fun leads => absurd leads action

/-- A state in which the same votes are counted in the same round. -/
structure SameRound (run after : ElectionRun) : Prop where
  sent : after.election.sent = run.election.sent
  nodeId : after.election.engine.nodeId = run.election.engine.nodeId
  term : after.term = run.term
  round : after.round = run.round
  answered : run.answered ⊆ after.answered
  candidate : after.state = .candidate → run.state = .candidate

variable {tracker : VoteTracker}

theorem Tallied.same (tallied : run.Tallied tracker) (same : SameRound run after) : after.Tallied tracker := by
  obtain ⟨quorum, voters, distinct, other, granted, recorded, count⟩ := tallied
  refine ⟨same.round ▸ quorum, voters, distinct, same.nodeId ▸ other, ?_, recorded, count⟩
  intro voter member
  obtain ⟨inRound, answer⟩ := granted voter member
  rw [same.round, same.term]
  exact ⟨inRound, same.answered answer⟩

section

variable (counted : Counted run)

include counted

theorem Counted.same (same : SameRound run after)
    (tallied : after.state = .candidate → ∀ tracker ∈ after.election.engine.voteTracker, after.Tallied tracker)
    (elected : after.action = .becomeLeader → after.Elected) : Counted after where
  sent := by
    intro request member standard
    rw [same.sent] at member
    rw [same.term, same.nodeId]
    exact counted.sent request member standard
  asked := by
    intro candidate request member standard current
    rw [same.sent] at member
    rw [same.term] at current
    rw [same.round]
    exact counted.asked (same.candidate candidate) request member standard current
  tallied := tallied
  elected := elected

theorem Counted.of_sameRound (same : SameRound run after)
    (tracker : after.election.engine.voteTracker = run.election.engine.voteTracker)
    (action : after.action ≠ .becomeLeader) : Counted after := by
  refine counted.same same ?_ (fun leads => absurd leads action)
  intro candidate stored found
  rw [tracker] at found
  exact (counted.tallied (same.candidate candidate) stored found).same same

theorem Counted.timeout : Counted (run.step .timeout) := by
  by_cases leads : run.state = .leader
  · have stays : (run.step .timeout).election = run.election := by
      change run.election.onTimeout persist = run.election
      unfold Election.onTimeout
      exact if_pos leads
    refine counted.of_not_candidate (congrArg Election.sent stays) (congrArg (·.engine.nodeId) stays)
      (congrArg (·.context.term) stays).ge ?_ (fun same => by cases same)
    rw [state, stays, ← state, leads]
    decide
  · have timedOut := timedOut_onTimeout run.election leads
    constructor
    · intro request member standard
      cases timedOut.sent request member standard with
      | inl old =>
        obtain ⟨below, different⟩ := counted.sent request old standard
        exact ⟨below.trans timedOut.term, fun same => different (same.trans timedOut.nodeId)⟩
      | inr new => exact ⟨new.2.1.le, fun same => new.2.2.2 (same.trans timedOut.nodeId)⟩
    · intro candidate request member standard current
      obtain ⟨later, -, -⟩ := timedOut.candidate candidate
      cases timedOut.sent request member standard with
      | inl old =>
        have below := (counted.sent request old standard).1
        rw [current] at below
        exact absurd later (not_lt.mpr below)
      | inr new => exact new.2.2.1
    · intro candidate tracker found
      obtain ⟨-, some, fresh⟩ := timedOut.candidate candidate
      rw [show (run.step .timeout).election = run.election.onTimeout persist from rfl, fresh] at found
      cases found
      have filled := length_pos_iff.mpr some
      refine ⟨?_, [], nodup_nil, not_mem_nil, forall_mem_nil _, forall_mem_nil _, rfl⟩
      rw [new, if_neg (by omega)]
      rfl
    · intro none
      cases none

theorem Counted.request (req : RequestVoteRequest) : Counted (run.step (.request req)) := by
  obtain ⟨sent, context, nodeId, kept⟩ := handleRequestVote_persist run.election req
  have election : (run.step (.request req)).election =
      if req.preVote then (run.election.handleRequestVote persist req).1
      else adopt (run.election.handleRequestVote persist req).1
        (run.election.handleRequestVote persist req).2.term := rfl
  have handled : (run.step (.request req)).election.sent = run.election.sent ∧
      (run.step (.request req)).election.engine = (run.election.handleRequestVote persist req).1.engine := by
    rw [election]
    split <;> exact ⟨sent, rfl⟩
  have term : (run.step (.request req)).term =
      if req.preVote then run.term else max run.term (run.election.handleRequestVote persist req).2.term := by
    change (run.step (.request req)).election.context.term = _
    rw [election]
    split
    · rw [context]
      rfl
    · rw [adopt, context]
      rfl
  cases kept with
  | inl follows =>
    refine counted.of_not_candidate handled.1 (handled.2 ▸ nodeId) ?_ ?_ (fun same => by cases same)
    · rw [term]
      split
      · exact le_rfl
      · exact le_max_left _ _
    · rw [state, handled.2, follows]
      decide
  | inr stays =>
    have round : SameRound run (run.step (.request req)) := by
      refine ⟨handled.1, handled.2 ▸ nodeId, ?_, rfl, List.Subset.refl _, ?_⟩
      · rw [term]
        split
        · rfl
        next standard => exact max_eq_left (stays.2.2 (Bool.eq_false_iff.mpr standard))
      · rw [state, handled.2]
        exact fun candidate => stays.1.symm.trans candidate
    exact counted.of_sameRound round (handled.2 ▸ stays.2.1) (fun same => by cases same)

end

variable {sender : RaftNodeId}

section

variable (tallied : run.Tallied tracker)

include tallied

theorem Tallied.recordGrant
    (inRound : sender ∈ run.round) (other : sender ≠ run.election.engine.nodeId)
    (answered : (sender, ⟨run.term, true⟩, false) ∈ run.answered) : run.Tallied (tracker.recordGrant sender).1 := by
  obtain ⟨quorum, voters, distinct, self, granted, recorded, count⟩ := tallied
  unfold VoteTracker.recordGrant
  split
  · exact ⟨quorum, voters, distinct, self, granted, recorded, count⟩
  next fresh =>
    refine ⟨quorum, sender :: voters, ?_, ?_, forall_mem_cons.mpr ⟨⟨inRound, answered⟩, granted⟩, ?_, ?_⟩
    · exact nodup_cons.mpr ⟨fun member => fresh (recorded sender member), distinct⟩
    · exact fun member => (mem_cons.mp member).elim other.symm self
    · intro voter member
      rw [AList.mem_insert]
      cases member with
      | head => exact .inl rfl
      | tail _ member => exact .inr (recorded voter member)
    · dsimp only
      rw [count, length_cons]

theorem Tallied.recordRejection (sender : RaftNodeId) :
    run.Tallied (tracker.recordRejection sender) := by
  obtain ⟨quorum, voters, distinct, self, granted, recorded, count⟩ := tallied
  unfold VoteTracker.recordRejection
  split
  · exact ⟨quorum, voters, distinct, self, granted, recorded, count⟩
  · refine ⟨quorum, voters, distinct, self, granted, ?_, count⟩
    intro voter member
    rw [AList.mem_insert]
    exact .inr (recorded voter member)

theorem Tallied.elected (reached : tracker.quorumReached = true) : run.Elected := by
  obtain ⟨quorum, voters, distinct, self, granted, -, count⟩ := tallied
  have enough := of_decide_eq_true reached
  exact ⟨voters, distinct, self, granted, by omega⟩

end

theorem recordGrant_won : (tracker.recordGrant sender).2 = (tracker.recordGrant sender).1.quorumReached := by
  unfold recordGrant
  split <;> rfl

/-- A grant that is counted is one of the members, who were asked in this round. -/
theorem Counted.granted (counted : Counted run) {resp : RequestVoteResponse} {wasPreVote : Bool}
    (answers : run.Answers (.response sender resp wasPreVote))
    (inPhase : run.InPhase (.response sender resp wasPreVote)) (found : run.election.engine.voteTracker = some tracker)
    (current : resp.term = run.term) (granted : resp.voteGranted = true) (round : SameRound run after)
    (answered : (sender, resp, wasPreVote) ∈ after.answered) (candidate : run.state = .candidate) :
    after.Tallied (tracker.recordGrant sender).1 := by
  obtain ⟨req, sent, phase, grantTerm⟩ := answers
  have standard := (inPhase granted current).1 candidate
  have reqTerm : req.term = run.term := (grantTerm granted).symm.trans current
  have same : resp = ⟨run.term, true⟩ := by
    cases resp
    rw [RequestVoteResponse.mk.injEq]
    exact ⟨current, granted⟩
  rw [standard] at phase
  refine ((counted.tallied candidate tracker found).same round).recordGrant ?_ ?_ ?_
  · rw [round.round]
    exact counted.asked candidate _ sent phase reqTerm
  · rw [round.nodeId]
    exact (counted.sent _ sent phase).2
  · rw [round.term, ← same, ← standard]
    exact answered

theorem Counted.response (counted : Counted run) {resp : RequestVoteResponse}
    {wasPreVote : Bool} (answers : run.Answers (.response sender resp wasPreVote))
    (inPhase : run.InPhase (.response sender resp wasPreVote)) :
    Counted (run.step (.response sender resp wasPreVote)) := by
  cases returned : run.election.handleRequestVoteResponse persist sender resp wasPreVote with
  | mk election result =>
  have after : run.step (.response sender resp wasPreVote) = {
      run with
      election := if result.action = .becomeFollower then adopt election result.peerTerm else election
      answered := run.answered ++ [(sender, resp, wasPreVote)]
      action := result.action } := by
    rw [step, returned]
  rw [after]
  have grows : run.answered ⊆ run.answered ++ [(sender, resp, wasPreVote)] := subset_append_left _ _
  rcases handleRequestVoteResponse_cases _ _ _ _ returned with ⟨down, action⟩ | ⟨rfl, action⟩ |
    ⟨tracker, found, current, voting, recorded⟩
  · dsimp only at down action
    rw [becomeFollower_persist] at down
    rw [if_pos action, down]
    exact counted.of_not_candidate rfl rfl (le_max_left _ _) (fun same => by cases same)
      (action.trans_ne (by decide))
  · dsimp only at action ⊢
    rw [if_neg (action.trans_ne (by decide))]
    have round : SameRound run { run with
        answered := run.answered ++ [(sender, resp, wasPreVote)], action := result.action } :=
      ⟨rfl, rfl, rfl, rfl, grows, id⟩
    exact counted.of_sameRound round rfl (action.trans_ne (by decide))
  · have notDown : result.action ≠ .becomeFollower := by
      rcases recorded with ⟨-, action⟩ | ⟨-, -, action⟩
      · rw [action]
        decide
      · rw [action]
        split
        · decide
        · split <;> decide
    rw [if_neg notDown]
    have round : SameRound run { run with
        election := election
        answered := run.answered ++ [(sender, resp, wasPreVote)]
        action := result.action } := by
      rcases recorded with ⟨rfl, -⟩ | ⟨-, rfl, -⟩ <;> exact ⟨rfl, rfl, rfl, rfl, grows, id⟩
    rcases recorded with ⟨rejected, action⟩ | ⟨granted, counts, action⟩
    · dsimp only at rejected action
      refine counted.same round ?_ (fun same => by rw [action] at same; cases same)
      intro candidate other stored
      rw [rejected] at stored
      cases stored
      exact ((counted.tallied (round.candidate candidate) tracker found).recordRejection sender).same round
    · dsimp only at counts action
      have tallied := counted.granted answers inPhase found current granted round mem_concat_self
      refine counted.same round ?_ ?_
      · intro candidate other stored
        rw [counts] at stored
        cases stored
        exact tallied (round.candidate candidate)
      · intro leads
        dsimp only at leads
        rw [action, recordGrant_won] at leads
        cases reached : (tracker.recordGrant sender).1.quorumReached with
        | false =>
          rw [reached] at leads
          cases leads
        | true =>
          cases wasPreVote with
          | true =>
            rw [reached] at leads
            cases leads
          | false =>
            have candidate : run.state = .candidate := by
              cases voting with
              | inl candidate => exact candidate
              | inr probing => cases (inPhase granted current).2 probing
            exact (tallied candidate).elected reached

theorem Counted.step {call : ElectionCall} (counted : Counted run) (answers : run.Answers call)
    (inPhase : run.InPhase call) : Counted (run.step call) := by
  cases call with
  | timeout => exact counted.timeout
  | response sender resp wasPreVote => exact counted.response answers inPhase
  | request req => exact counted.request req
  | becomeFollower newTerm =>
    refine counted.of_not_candidate ?_ ?_ ?_ ?_ (fun same => by cases same)
    · rw [ElectionRun.step, becomeFollower_persist]
      rfl
    · rw [ElectionRun.step, becomeFollower_persist]
      rfl
    · rw [ElectionRun.step, becomeFollower_persist]
      exact le_max_left _ _
    · rw [ElectionRun.step, becomeFollower_persist]
      exact fun same => by cases same
  | becomeLeader =>
    exact counted.of_not_candidate rfl rfl le_rfl (fun same => by cases same) (fun same => by cases same)
  | stepDownFromLeader =>
    by_cases leads : run.election.engine.state ≠ .leader
    · have round : SameRound run (run.step .stepDownFromLeader) := by
        rw [ElectionRun.step, stepDownFromLeader, if_pos leads]
        exact ⟨rfl, rfl, rfl, rfl, List.Subset.refl _, id⟩
      refine counted.of_sameRound round ?_ (fun same => by cases same)
      rw [ElectionRun.step, stepDownFromLeader, if_pos leads]
    · have down : run.step .stepDownFromLeader = { run with
          election := (run.election.becomeFollower persist run.term).1, action := .none } := by
        rw [ElectionRun.step, stepDownFromLeader, if_neg leads]
      rw [down, becomeFollower_persist]
      exact counted.of_not_candidate rfl rfl le_rfl (fun same => by cases same) (fun same => by cases same)
  | resetTimer =>
    have kept : run.election.resetTimer.sent = run.election.sent ∧
        run.election.resetTimer.context = run.election.context ∧
        run.election.resetTimer.engine.nodeId = run.election.engine.nodeId ∧
        run.election.resetTimer.engine.state = run.election.engine.state ∧
        run.election.resetTimer.engine.voteTracker = run.election.engine.voteTracker := by
      unfold resetTimer
      split <;> exact ⟨rfl, rfl, rfl, rfl, rfl⟩
    have round : SameRound run (run.step .resetTimer) :=
      ⟨kept.1, kept.2.2.1, congrArg ElectionContext.term kept.2.1, rfl, List.Subset.refl _,
        fun candidate => kept.2.2.2.1.symm.trans candidate⟩
    exact counted.of_sameRound round kept.2.2.2.2 (fun same => by cases same)
  | provide lastLogIndex lastLogTerm members =>
    have round : SameRound run (run.step (.provide lastLogIndex lastLogTerm members)) :=
      ⟨rfl, rfl, rfl, rfl, List.Subset.refl _, id⟩
    exact counted.of_sameRound round rfl (fun same => by cases same)

theorem counted_start (nodeId : RaftNodeId) (context : ElectionContext) : Counted (start nodeId context) where
  sent := forall_mem_nil _
  asked := fun candidate => by cases candidate
  tallied := fun candidate => by cases candidate
  elected := fun leads => by cases leads

end Steps

/-!
## One phase at a time
-/

section Phases

/-- What a node asks for, and the phases that it enters, follow from its configuration. -/
structure OnePhase (election : Election) : Prop where
  sent : ∀ request ∈ election.sent, request.2.preVote = election.context.enablePreVote
  candidate : election.engine.state = .candidate → election.context.enablePreVote = false
  preCandidate : election.engine.state = .preCandidate → election.context.enablePreVote = true

section

variable {election : Election} (phase : OnePhase election)

include phase

theorem OnePhase.keeps {after : Election} (sent : after.sent = election.sent)
    (configured : after.context.enablePreVote = election.context.enablePreVote)
    (state : after.engine.state = election.engine.state ∨ after.engine.state = .follower ∨
      after.engine.state = .leader) : OnePhase after := by
  constructor
  · rw [sent, configured]
    exact phase.sent
  all_goals
    intro entered
    rw [entered] at state
    rw [configured]
  · exact phase.candidate (state.resolve_right (by decide)).symm
  · exact phase.preCandidate (state.resolve_right (by decide)).symm

theorem OnePhase.asked {asked : List (RaftNodeId × RequestVoteRequest)}
    (others : ∀ request ∈ asked, request.2.preVote = election.context.enablePreVote) :
    ∀ request ∈ election.sent ++ asked, request.2.preVote = election.context.enablePreVote :=
  forall_mem_append.mpr ⟨phase.sent, others⟩

theorem OnePhase.becomeCandidate (direct : election.context.enablePreVote = false ∨ Alone election) :
    OnePhase (election.becomeCandidate persist) := by
  unfold Election.becomeCandidate
  split
  · exact phase.keeps rfl rfl (.inr (.inl rfl))
  · rcases startVoteRound_cases false (Election.onBecomeLeader persist) (Election.notifyStateChange persist {
        election with
        engine := {
          election.engine with
          state := .candidate
          voteTracker := Option.some (new election.context.members.length true) } }
        election.engine.state .candidate (election.context.term + 1)) with ⟨-, wins⟩ | ⟨notAlone, asks⟩
    · rw [wins]
      exact phase.keeps rfl rfl (.inr (.inr rfl))
    · have standard : election.context.enablePreVote = false := direct.resolve_right notAlone
      rw [asks]
      refine ⟨phase.asked ?_, fun _ => standard, fun probing => by cases probing⟩
      intro request member
      rw [(mem_asked member).2.2, standard]
      rfl

theorem OnePhase.becomePreCandidate (enabled : election.context.enablePreVote = true) :
    OnePhase (election.becomePreCandidate persist) := by
  unfold Election.becomePreCandidate
  split
  · exact phase
  · split
    · exact phase
    · split
      · exact phase
      · rcases startVoteRound_cases true (Election.becomeCandidate persist) (Election.notifyStateChange persist {
            election with
            engine := {
              election.engine with
              state := .preCandidate
              voteTracker := some (new election.context.members.length true) } }
            election.engine.state .preCandidate (election.context.term + 1)) with ⟨alone, wins⟩ | ⟨-, asks⟩
        · rw [wins]
          refine OnePhase.becomeCandidate ?_ (.inr alone)
          exact ⟨phase.sent, (fun standard => by cases standard), fun _ => enabled⟩
        · rw [asks]
          refine ⟨phase.asked ?_, (fun standard => by cases standard), fun _ => enabled⟩
          intro request member
          rw [(mem_asked member).2.2, enabled]
          rfl

theorem OnePhase.onTimeout : OnePhase (election.onTimeout persist) := by
  have counted : OnePhase {
      election with
      engine := { election.engine with consecutiveTimeouts := election.engine.consecutiveTimeouts + 1 } } :=
    phase.keeps rfl rfl (.inl rfl)
  unfold Election.onTimeout
  split
  · exact phase
  · dsimp only
    split
    next preVote => exact counted.becomePreCandidate preVote.1
    next direct =>
      refine counted.becomeCandidate (.inl ?_)
      by_cases candidate : election.engine.state = .candidate
      · exact phase.candidate candidate
      · exact Bool.eq_false_iff.mpr fun enabled => direct ⟨enabled, candidate⟩

end

variable {run : ElectionRun}

theorem OnePhase.step (phase : OnePhase run.election) (call : ElectionCall) : OnePhase (run.step call).election := by
  cases call with
  | timeout => exact phase.onTimeout
  | response sender resp wasPreVote =>
    cases returned : run.election.handleRequestVoteResponse persist sender resp wasPreVote with
    | mk election result =>
    have after : (run.step (.response sender resp wasPreVote)).election =
        if result.action = .becomeFollower then adopt election result.peerTerm else election := by
      rw [ElectionRun.step, returned]
    have handled : OnePhase election := by
      rcases handleRequestVoteResponse_cases _ _ _ _ returned with ⟨down, -⟩ | ⟨rfl, -⟩ |
        ⟨_, -, -, -, ⟨rejected, -⟩ | ⟨-, granted, -⟩⟩
      · dsimp only at down
        rw [down, becomeFollower_persist]
        exact phase.keeps rfl rfl (.inr (.inl rfl))
      · exact phase
      · dsimp only at rejected
        exact rejected ▸ phase.keeps rfl rfl (.inl rfl)
      · dsimp only at granted
        exact granted ▸ phase.keeps rfl rfl (.inl rfl)
    rw [after]
    split
    · exact handled.keeps rfl rfl (.inl rfl)
    · exact handled
  | request req =>
    obtain ⟨sent, context, -, kept⟩ := handleRequestVote_persist run.election req
    have handled : OnePhase (run.election.handleRequestVote persist req).1 :=
      phase.keeps sent (congrArg _ context) (kept.elim (.inr ∘ .inl) fun stays => .inl stays.1)
    rw [ElectionRun.step]
    dsimp only
    split
    · exact handled
    · exact handled.keeps rfl rfl (.inl rfl)
  | becomeFollower newTerm =>
    rw [ElectionRun.step, becomeFollower_persist]
    exact phase.keeps rfl rfl (.inr (.inl rfl))
  | becomeLeader => exact phase.keeps rfl rfl (.inr (.inr rfl))
  | stepDownFromLeader =>
    rw [ElectionRun.step, stepDownFromLeader, becomeFollower_persist]
    dsimp only
    split
    · exact phase
    · exact phase.keeps rfl rfl (.inr (.inl rfl))
  | resetTimer =>
    rw [ElectionRun.step, resetTimer]
    dsimp only
    split
    · exact phase.keeps rfl rfl (.inl rfl)
    · exact phase
  | provide lastLogIndex lastLogTerm members => exact phase.keeps rfl rfl (.inl rfl)

/-- A response of the current term arrives in the phase that asked for it. -/
theorem OnePhase.inPhase (phase : OnePhase run.election) {call : ElectionCall} (answers : run.Answers call) :
    run.InPhase call := by
  cases call with
  | response sender resp wasPreVote =>
    obtain ⟨req, sent, rfl, -⟩ := answers
    have asked : req.preVote = run.election.context.enablePreVote := phase.sent (sender, req) sent
    rw [InPhase, asked]
    exact fun _ _ => ⟨phase.candidate, phase.preCandidate⟩
  | _ => trivial

theorem onePhase_start (nodeId : RaftNodeId) (context : ElectionContext) :
    OnePhase (start nodeId context).election where
  sent := forall_mem_nil _
  candidate := fun same => by cases same
  preCandidate := fun same => by cases same

end Phases

/-- A node is told to lead only when a quorum, itself included, has granted it a standard vote of its term. -/
theorem becomeLeader_elected {nodeId : RaftNodeId} {context : ElectionContext} {calls : List ElectionCall}
    (meets : Runs.Meets step Answers (start nodeId context) calls)
    (leads : (Runs.run step (start nodeId context) calls).action = .becomeLeader) :
    (Runs.run step (start nodeId context) calls).Elected := by
  have kept : OnePhase (Runs.run step (start nodeId context) calls).election ∧
      Counted (Runs.run step (start nodeId context) calls) :=
    meets.preserves (fun run => OnePhase run.election ∧ Counted run)
      (fun run call answers kept => ⟨kept.1.step call, kept.2.step answers (kept.1.inPhase answers)⟩)
      ⟨onePhase_start nodeId context, counted_start nodeId context⟩
  exact kept.2.elected leads

/-- Three members without pre-votes: the first vote of another one decides. -/
theorem becomeLeader_elected_three :
    (Runs.run step (start 1 { members := [1, 2, 3], enablePreVote := false })
      [.timeout, .response 2 ⟨1, true⟩ false]).Elected :=
  becomeLeader_elected ⟨trivial, ⟨{ term := 1, candidateId := 1 }, by decide, rfl, fun _ => rfl⟩, trivial⟩ (by decide)

end ElectionRun

end TorrentMq.Consensus
