import TorrentMq.Consensus.RaftNode

/-!
# Runs of one node

Everything that can happen to a started node: messages that arrive, the two
timer threads, and the client calls. A leadership transfer releases the lock
between its sections, so each section is an input of its own.
-/

set_option autoImplicit false

namespace TorrentMq.Consensus

inductive Input where
  | appendEntries (request : AppendEntriesRequest)
  | requestVote (request : RequestVoteRequest)
  | installSnapshot (env : Env) (request : InstallSnapshotRequest)
  | appendEntriesResponse (env : Env) (sender : RaftNodeId) (response : AppendEntriesResponse)
  | requestVoteResponse (env : Env) (sender : RaftNodeId) (response : RequestVoteResponse)
  | installSnapshotResponse (env : Env) (sender : RaftNodeId) (response : InstallSnapshotResponse)
  | electionTimeout
  | heartbeatTick (env : Env)
  | propose (command : RaftCommand)
  | createSnapshot (env : Env)
  | stepDown
  | transferStart (target : RaftNodeId)
  | transferRound (env : Env) (target : RaftNodeId) (lastIndex : Int)
  | transferSignal (target : RaftNodeId)
  | transferFinish
  | shutdown

namespace RaftNode

variable {L : Type} [RaftLog L]

def step (node : RaftNode L) : Input → RaftNode L
  | .appendEntries request => (node.handleAppendEntries request).1
  | .requestVote request => (node.handleRequestVote request).1
  | .installSnapshot env request => (node.handleInstallSnapshot env request).1
  | .appendEntriesResponse env sender response =>
    node.handleAppendEntriesResponse env sender response
  | .requestVoteResponse env sender response => node.handleRequestVoteResponse env sender response
  | .installSnapshotResponse env sender response =>
    node.handleInstallSnapshotResponse env sender response
  | .electionTimeout => node.onElectionTimeout
  | .heartbeatTick env => node.heartbeatTick env
  | .propose command => (node.propose command).1
  | .createSnapshot env => (node.createSnapshot env).1
  | .stepDown => node.stepDown
  | .transferStart target => node.transferStart target
  | .transferRound env target lastIndex => node.transferRound env target lastIndex
  | .transferSignal target => node.transferSignal target
  | .transferFinish => node.transferFinish
  | .shutdown => node.shutdown

def run (node : RaftNode L) (inputs : List Input) : RaftNode L := inputs.foldl step node

variable (node : RaftNode L)

@[simp] theorem run_nil : node.run [] = node := rfl

@[simp] theorem run_cons (input : Input) (inputs : List Input) :
    node.run (input :: inputs) = (node.step input).run inputs := rfl

@[simp] theorem run_append (earlier later : List Input) :
    node.run (earlier ++ later) = (node.run earlier).run later := by
  simp [run]

def StepsMeet (condition : RaftNode L → Input → Prop) (node : RaftNode L) : List Input → Prop
  | [] => True
  | input :: inputs => condition node input ∧ StepsMeet condition (node.step input) inputs

instance StepsMeet.decide (condition : RaftNode L → Input → Prop)
    [∀ node input, Decidable (condition node input)] :
    (node : RaftNode L) → (inputs : List Input) → Decidable (StepsMeet condition node inputs)
  | _, [] => .isTrue trivial
  | node, input :: inputs =>
    have := StepsMeet.decide condition (node.step input) inputs
    inferInstanceAs (Decidable (_ ∧ _))

variable {condition : RaftNode L → Input → Prop}

theorem run_preserves (invariant : RaftNode L → Prop)
    (preserved : ∀ node input, condition node input → invariant node → invariant (node.step input))
    {node : RaftNode L} (initial : invariant node) {inputs : List Input}
    (meets : StepsMeet condition node inputs) : invariant (node.run inputs) := by
  induction inputs generalizing node with
  | nil => exact initial
  | cons input inputs ih => exact ih (preserved node input meets.1 initial) meets.2

theorem StepsMeet.of_append {node : RaftNode L}
    {earlier later : List Input} (meets : StepsMeet condition node (earlier ++ later)) :
    StepsMeet condition node earlier ∧ StepsMeet condition (node.run earlier) later := by
  induction earlier generalizing node with
  | nil => exact ⟨trivial, meets⟩
  | cons input earlier ih =>
    obtain ⟨first, rest⟩ := ih meets.2
    exact ⟨⟨meets.1, first⟩, rest⟩

end RaftNode

end TorrentMq.Consensus
