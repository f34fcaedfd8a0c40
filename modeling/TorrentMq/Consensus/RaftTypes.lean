import Mathlib.Algebra.Group.Int.Defs
import Mathlib.Algebra.Group.Nat.Defs
import Mathlib.Data.List.AList

/-! Vocabulary of the Raft engine. Node identifiers, terms and log indices are
the signed machine integers of the source, read as unbounded integers. -/

set_option autoImplicit false

namespace TorrentMq.Consensus

abbrev RaftNodeId := Int

def kNoLeader : RaftNodeId := -2
def kNoLogIndex : Int := 0
def kNoTerm : Int := 0

structure ConfigChangeCommand where
  newMembers : List RaftNodeId := []
  jointConsensus : Bool := false
  oldMembers : List RaftNodeId := []
  deriving DecidableEq

structure UserCommand where
  payload : List UInt8
  deriving DecidableEq

inductive RaftCommand where
  | noOp
  | configChange (command : ConfigChangeCommand)
  | user (command : UserCommand)
  deriving DecidableEq

structure LogEntry where
  term : Int := kNoTerm
  index : Int := kNoLogIndex
  command : RaftCommand := .noOp
  deriving DecidableEq

def RaftCommand.isConfigChange : RaftCommand → Bool
  | .configChange _ => true
  | _ => false

def LogEntry.isConfigChange (entry : LogEntry) : Bool := entry.command.isConfigChange

structure AppendEntriesRequest where
  term : Int := kNoTerm
  leaderId : RaftNodeId := kNoLeader
  prevLogIndex : Int := 0
  prevLogTerm : Int := kNoTerm
  entries : List LogEntry := []
  leaderCommit : Int := 0
  deriving DecidableEq

structure AppendEntriesResponse where
  term : Int := kNoTerm
  success : Bool := false
  lastLogIndex : Int := 0
  conflictIndex : Int := 0
  deriving DecidableEq

structure RequestVoteRequest where
  term : Int := kNoTerm
  candidateId : RaftNodeId := kNoLeader
  lastLogIndex : Int := 0
  lastLogTerm : Int := kNoTerm
  preVote : Bool := false
  deriving DecidableEq

structure RequestVoteResponse where
  term : Int := kNoTerm
  voteGranted : Bool := false
  deriving DecidableEq

structure InstallSnapshotRequest where
  term : Int := kNoTerm
  leaderId : RaftNodeId := kNoLeader
  lastIncludedIndex : Int := 0
  lastIncludedTerm : Int := kNoTerm
  offset : Nat := 0
  data : List UInt8 := []
  done : Bool := false
  deriving DecidableEq

structure InstallSnapshotResponse where
  term : Int := kNoTerm
  deriving DecidableEq

inductive RaftNodeState where
  | follower
  | candidate
  | leader
  | preCandidate
  deriving DecidableEq

def stateName : RaftNodeState → String
  | .follower => "Follower"
  | .candidate => "Candidate"
  | .leader => "Leader"
  | .preCandidate => "PreCandidate"

structure RaftConfig where
  heartbeatInterval : Int := 150
  minElectionTimeout : Int := 150
  maxElectionTimeout : Int := 300
  maxEntriesPerAppend : Nat := 100
  maxAppendBytes : Nat := 4 * 1024 * 1024
  rpcQueueCapacity : Nat := 256
  enablePreVote : Bool := true
  snapshotDirectory : String := "/var/lib/torrent/raft/snapshots"
  snapshotThresholdEntries : Nat := 10000
  snapshotChunkSize : Nat := 1024 * 1024
  deriving DecidableEq

def validateRaftConfig (config : RaftConfig) : RaftConfig :=
  let config := if config.heartbeatInterval ≤ 0 then { config with heartbeatInterval := 50 } else config
  let config := if config.minElectionTimeout ≤ 0 then { config with minElectionTimeout := 50 } else config
  let config :=
    if config.maxElectionTimeout < config.minElectionTimeout then
      { config with maxElectionTimeout := config.minElectionTimeout * 2 }
    else config
  let config :=
    if config.maxAppendBytes = 0 then { config with maxAppendBytes := 4 * 1024 * 1024 } else config
  if config.snapshotChunkSize = 0 then { config with snapshotChunkSize := 1024 * 1024 } else config

structure RaftMembership where
  members : List RaftNodeId := []
  jointMembers : List RaftNodeId := []
  configIndex : Int := 0
  deriving DecidableEq

def RaftMembership.inJointConsensus (membership : RaftMembership) : Bool :=
  !membership.jointMembers.isEmpty

def RaftMembership.quorumSet (membership : RaftMembership) : List RaftNodeId :=
  if !membership.inJointConsensus then membership.members
  else membership.members ++ membership.jointMembers.filter (fun id => !membership.members.contains id)

def RaftMembership.quorumSize (membership : RaftMembership) : Nat :=
  let oldQuorum := membership.members.length / 2 + 1
  if !membership.inJointConsensus then oldQuorum
  else max oldQuorum (membership.jointMembers.length / 2 + 1)

def isMember (members : List RaftNodeId) (id : RaftNodeId) : Bool := members.contains id

structure RaftSnapshot where
  filePath : String := ""
  lastIncludedIndex : Int := 0
  lastIncludedTerm : Int := kNoTerm
  membership : RaftMembership := {}
  fileSizeBytes : Nat := 0
  createdAtMs : Int := 0
  deriving DecidableEq

def RaftSnapshot.isValid (snapshot : RaftSnapshot) : Bool :=
  !snapshot.filePath.isEmpty && decide (0 < snapshot.lastIncludedIndex)

end TorrentMq.Consensus
