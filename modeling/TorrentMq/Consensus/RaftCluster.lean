import Mathlib.Logic.Function.Basic
import TorrentMq.Consensus.RaftNodeRun

/-!
# Clusters

Several nodes that exchange votes and log entries. A message stays available
once it was sent, so it can be delivered late, in any order, repeatedly or
never. Each event runs one operation of one node.
-/

set_option autoImplicit false

namespace TorrentMq.Consensus

structure VoteReply where
  candidate : RaftNodeId
  voter : RaftNodeId
  request : RequestVoteRequest
  response : RequestVoteResponse
  deriving DecidableEq

/-- A response to AppendEntries on its way back to the leader, with the log
that the follower had when it sent it. -/
structure AppendReply (L : Type) where
  leader : RaftNodeId
  follower : RaftNodeId
  request : AppendEntriesRequest
  response : AppendEntriesResponse
  log : L
  deriving DecidableEq

structure Cluster (L : Type) where
  nodes : RaftNodeId → RaftNode L
  voteReplies : List VoteReply := []
  deliveredVotes : List VoteReply := []
  appendReplies : List (AppendReply L) := []

inductive ClusterEvent (L : Type) where
  | electionTimeout (node : RaftNodeId)
  | heartbeatTick (node : RaftNodeId) (env : Env)
  | propose (node : RaftNodeId) (command : RaftCommand)
  | requestVote (sender target : RaftNodeId) (request : RequestVoteRequest)
  | requestVoteReply (env : Env) (reply : VoteReply)
  | appendEntries (sender target : RaftNodeId) (request : AppendEntriesRequest)
  | appendEntriesReply (env : Env) (reply : AppendReply L)
  | stepDown (node : RaftNodeId)
  | transferStart (node target : RaftNodeId)
  | transferRound (node : RaftNodeId) (env : Env) (target : RaftNodeId) (lastIndex : Int)
  | transferSignal (node target : RaftNodeId)
  | transferFinish (node : RaftNodeId)
  | shutdown (node : RaftNodeId)

namespace ClusterEvent

variable {L : Type}

def target : ClusterEvent L → RaftNodeId
  | .electionTimeout node => node
  | .heartbeatTick node _ => node
  | .propose node _ => node
  | .requestVote _ target _ => target
  | .requestVoteReply _ reply => reply.candidate
  | .appendEntries _ target _ => target
  | .appendEntriesReply _ reply => reply.leader
  | .stepDown node | .transferStart node _ | .transferRound node _ _ _ | .transferSignal node _
  | .transferFinish node | .shutdown node => node

def input : ClusterEvent L → Input
  | .electionTimeout _ => .electionTimeout
  | .heartbeatTick _ env => .heartbeatTick env
  | .propose _ command => .propose command
  | .requestVote _ _ request => .requestVote request
  | .requestVoteReply env reply => .requestVoteResponse env reply.voter reply.response
  | .appendEntries _ _ request => .appendEntries request
  | .appendEntriesReply env reply => .appendEntriesResponse env reply.follower reply.response
  | .stepDown _ => .stepDown
  | .transferStart _ target => .transferStart target
  | .transferRound _ env target lastIndex => .transferRound env target lastIndex
  | .transferSignal _ target => .transferSignal target
  | .transferFinish _ => .transferFinish
  | .shutdown _ => .shutdown

def Votes : ClusterEvent L → Prop
  | .electionTimeout _ => True
  | .requestVote _ _ _ => True
  | .requestVoteReply _ _ => True
  | _ => False

instance : (event : ClusterEvent L) → Decidable event.Votes
  | .electionTimeout _ | .requestVote _ _ _ | .requestVoteReply _ _ => .isTrue trivial
  | .heartbeatTick _ _ | .propose _ _ | .appendEntries _ _ _ | .appendEntriesReply _ _ | .stepDown _
  | .transferStart _ _ | .transferRound _ _ _ _ | .transferSignal _ _ | .transferFinish _ | .shutdown _ => .isFalse id

end ClusterEvent

namespace Cluster

variable {L : Type} [RaftLog L]

def start (members : List RaftNodeId) (config : RaftNodeId → RaftConfig) (log : RaftNodeId → L) :
    Cluster L where
  nodes node := RaftNode.start node (config node) (log node) members

def acted (cluster : Cluster L) (event : ClusterEvent L) : RaftNode L :=
  (cluster.nodes event.target).step event.input

def newVoteReplies (cluster : Cluster L) : ClusterEvent L → List VoteReply
  | .requestVote sender target request =>
    [{ candidate := sender
       voter := target
       request := request
       response := ((cluster.nodes target).handleRequestVote request).2 }]
  | _ => []

def newDeliveredVotes : ClusterEvent L → List VoteReply
  | .requestVoteReply _ reply => [reply]
  | _ => []

def newAppendReplies (cluster : Cluster L) : ClusterEvent L → List (AppendReply L)
  | .appendEntries sender target request =>
    [{ leader := sender
       follower := target
       request := request
       response := ((cluster.nodes target).handleAppendEntries request).2
       log := ((cluster.nodes target).handleAppendEntries request).1.log }]
  | _ => []

def apply (cluster : Cluster L) (event : ClusterEvent L) : Cluster L where
  nodes := Function.update cluster.nodes event.target (cluster.acted event)
  voteReplies := cluster.voteReplies ++ cluster.newVoteReplies event
  deliveredVotes := cluster.deliveredVotes ++ newDeliveredVotes event
  appendReplies := cluster.appendReplies ++ cluster.newAppendReplies event

def run (cluster : Cluster L) (events : List (ClusterEvent L)) : Cluster L :=
  events.foldl apply cluster

variable (cluster : Cluster L)

@[simp] theorem run_append (earlier later : List (ClusterEvent L)) :
    cluster.run (earlier ++ later) = (cluster.run earlier).run later := by
  simp [run]

@[simp] theorem apply_nodes_target (event : ClusterEvent L) :
    (cluster.apply event).nodes event.target = cluster.acted event :=
  Function.update_self _ _ _

theorem apply_nodes_of_ne {event : ClusterEvent L} {node : RaftNodeId}
    (differs : node ≠ event.target) : (cluster.apply event).nodes node = cluster.nodes node :=
  Function.update_of_ne differs _ _

theorem forall_apply_nodes (event : ClusterEvent L)
    (holds : RaftNodeId → RaftNode L → Prop) (self : holds event.target (cluster.acted event))
    (others : ∀ other, other ≠ event.target → holds other (cluster.nodes other)) (other : RaftNodeId) :
    holds other ((cluster.apply event).nodes other) := by
  by_cases same : other = event.target
  · subst same
    rwa [apply_nodes_target]
  · rw [cluster.apply_nodes_of_ne same]
    exact others other same

/-- Only members act, only messages that were sent are delivered, and nobody
transfers leadership to itself. -/
def Enabled (members : List RaftNodeId) (cluster : Cluster L) (event : ClusterEvent L) : Prop :=
  event.target ∈ members ∧
    match event with
    | .requestVote sender target request =>
      .requestVote target request ∈ (cluster.nodes sender).outbox
    | .requestVoteReply _ reply => reply ∈ cluster.voteReplies
    | .appendEntries sender target request =>
      .appendEntries target request ∈ (cluster.nodes sender).outbox
    | .appendEntriesReply _ reply => reply ∈ cluster.appendReplies
    | .transferSignal node target => target ≠ node
    | _ => True

instance [DecidableEq L] (members : List RaftNodeId) (cluster : Cluster L) :
    (event : ClusterEvent L) → Decidable (Enabled members cluster event)
  | .electionTimeout _ | .heartbeatTick _ _ | .propose _ _ => inferInstanceAs (Decidable (_ ∧ True))
  | .requestVote _ _ _ | .requestVoteReply _ _ | .appendEntries _ _ _
  | .appendEntriesReply _ _ => inferInstanceAs (Decidable (_ ∧ _ ∈ _))
  | .stepDown _ | .transferStart _ _ | .transferRound _ _ _ _ | .transferFinish _ | .shutdown _ =>
    inferInstanceAs (Decidable (_ ∧ True))
  | .transferSignal _ _ => inferInstanceAs (Decidable (_ ∧ _ ≠ _))

def StepsMeet (condition : Cluster L → ClusterEvent L → Prop) (cluster : Cluster L) :
    List (ClusterEvent L) → Prop
  | [] => True
  | event :: events => condition cluster event ∧ StepsMeet condition (cluster.apply event) events

instance StepsMeet.decide (condition : Cluster L → ClusterEvent L → Prop)
    [∀ cluster event, Decidable (condition cluster event)] :
    (cluster : Cluster L) → (events : List (ClusterEvent L)) →
      Decidable (StepsMeet condition cluster events)
  | _, [] => .isTrue trivial
  | cluster, event :: events =>
    have := StepsMeet.decide condition (cluster.apply event) events
    inferInstanceAs (Decidable (_ ∧ _))

variable {condition : Cluster L → ClusterEvent L → Prop}

theorem StepsMeet.of_append {cluster : Cluster L}
    {earlier later : List (ClusterEvent L)} (meets : StepsMeet condition cluster (earlier ++ later)) :
    StepsMeet condition cluster earlier ∧ StepsMeet condition (cluster.run earlier) later := by
  induction earlier generalizing cluster with
  | nil => exact ⟨trivial, meets⟩
  | cons event earlier ih =>
    obtain ⟨first, rest⟩ := ih meets.2
    exact ⟨⟨meets.1, first⟩, rest⟩

theorem run_preserves (invariant : Cluster L → Prop)
    (preserved : ∀ cluster event, condition cluster event → invariant cluster → invariant (cluster.apply event))
    {cluster : Cluster L} (initial : invariant cluster) {events : List (ClusterEvent L)}
    (meets : StepsMeet condition cluster events) : invariant (cluster.run events) := by
  induction events generalizing cluster with
  | nil => exact initial
  | cons event events ih => exact ih (preserved cluster event meets.1 initial) meets.2

end Cluster

end TorrentMq.Consensus
