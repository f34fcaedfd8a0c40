import Mathlib.Data.List.Sort
import TorrentMq.Consensus.RaftTypes
import TorrentMq.Runs.Basic

/-!
# Membership changes

A manager proposes joint configurations and applies the committed ones. The
index a proposal gets and the time it is made are inputs of the call.
-/

set_option autoImplicit false

namespace TorrentMq.Consensus

def kMaxRapidConfigChanges : Nat := 5

def kRapidConfigWindow : Int := 10 * 1000000000

structure MembershipConfig where
  members : List RaftNodeId := []
  oldMembers : List RaftNodeId := []
  joint : Bool := false
  configIndex : Int := 0
  deriving DecidableEq

namespace MembershipConfig

def inJointConsensus (config : MembershipConfig) : Bool := config.joint && !config.oldMembers.isEmpty

def contains (config : MembershipConfig) (id : RaftNodeId) : Bool :=
  config.members.contains id || (config.inJointConsensus && config.oldMembers.contains id)

end MembershipConfig

inductive PendingOp where
  | none
  | add
  | remove
  | replace
  deriving DecidableEq

structure MembershipManager where
  nodeId : RaftNodeId
  config : MembershipConfig := {}
  pendingConfigIndex : Int := 0
  pendingFinalConfigIndex : Int := 0
  pendingNewMembers : List RaftNodeId := []
  pendingOperation : PendingOp := .none
  configChangeTimes : List Int := []
  deriving DecidableEq

namespace MembershipManager

def create (nodeId : RaftNodeId) (initialMembers : List RaftNodeId) : MembershipManager where
  nodeId := nodeId
  config := { members := if initialMembers.contains nodeId then initialMembers else initialMembers ++ [nodeId] }

def recordConfigChange (manager : MembershipManager) (now : Int) : MembershipManager :=
  { manager with configChangeTimes :=
      (manager.configChangeTimes ++ [now]).filter fun time => decide (now - kRapidConfigWindow ≤ time) }

def rateLimited (manager : MembershipManager) : Bool :=
  decide (kMaxRapidConfigChanges ≤ manager.configChangeTimes.length)

def proposed (manager : MembershipManager) (operation : PendingOp) (newMembers : List RaftNodeId)
    (index now : Int) : MembershipManager × Int :=
  if index = kNoLogIndex then (manager, index)
  else
    ({ manager with
        pendingConfigIndex := index
        pendingNewMembers := newMembers
        pendingOperation := operation }.recordConfigChange now, index)

def proposeJointConfig (oldSet newSet : List RaftNodeId) : ConfigChangeCommand :=
  { newMembers := newSet, oldMembers := oldSet, jointConsensus := true }

def addNode (manager : MembershipManager) (propose : ConfigChangeCommand → Int) (newNode : RaftNodeId)
    (now : Int) : MembershipManager × Int :=
  if manager.pendingConfigIndex ≠ 0 then (manager, kNoLogIndex)
  else if manager.config.contains newNode then (manager, kNoLogIndex)
  else if manager.rateLimited then (manager, kNoLogIndex)
  else
    let newMembers := (manager.config.members ++ [newNode]).insertionSort (· ≤ ·)
    manager.proposed .add newMembers (propose (proposeJointConfig manager.config.members newMembers)) now

def removeNode (manager : MembershipManager) (propose : ConfigChangeCommand → Int) (target : RaftNodeId)
    (now : Int) : MembershipManager × Int :=
  if manager.pendingConfigIndex ≠ 0 then (manager, kNoLogIndex)
  else if target = manager.nodeId then (manager, kNoLogIndex)
  else if !manager.config.contains target then (manager, kNoLogIndex)
  else if manager.rateLimited then (manager, kNoLogIndex)
  else
    let newMembers := manager.config.members.filter fun id => decide (id ≠ target)
    manager.proposed .remove newMembers (propose (proposeJointConfig manager.config.members newMembers)) now

def replaceMembership (manager : MembershipManager) (propose : ConfigChangeCommand → Int)
    (newMembers : List RaftNodeId) (now : Int) : MembershipManager × Int :=
  if manager.pendingConfigIndex ≠ 0 then (manager, kNoLogIndex)
  else
    let newMembers := newMembers.insertionSort (· ≤ ·)
    manager.proposed .replace newMembers (propose (proposeJointConfig manager.config.members newMembers)) now

def processConfigChange (manager : MembershipManager) (command : ConfigChangeCommand)
    (committedIndex : Int) : MembershipManager × Bool :=
  if command.jointConsensus then
    if manager.config.inJointConsensus then (manager, false)
    else
      ({ manager with config := {
          members := command.newMembers
          oldMembers := command.oldMembers
          joint := true
          configIndex := committedIndex } }, true)
  else if manager.config.inJointConsensus then
    ({ manager with
        config := {
          members :=
            if !manager.pendingNewMembers.isEmpty then manager.pendingNewMembers else command.newMembers
          oldMembers := []
          joint := false
          configIndex := committedIndex }
        pendingConfigIndex := 0
        pendingNewMembers := []
        pendingOperation := .none }, true)
  else
    ({ manager with config := { manager.config with
        members := command.newMembers
        joint := false
        configIndex := committedIndex } }, true)

def finaliseJointConsensus (manager : MembershipManager) (propose : ConfigChangeCommand → Int) :
    MembershipManager × Int :=
  if !manager.config.inJointConsensus then (manager, kNoLogIndex)
  else
    let index := propose { newMembers := manager.config.members, jointConsensus := false }
    if index = kNoLogIndex then (manager, index)
    else ({ manager with pendingFinalConfigIndex := index }, index)

end MembershipManager

inductive MembershipEvent where
  | addNode (propose : ConfigChangeCommand → Int) (newNode : RaftNodeId) (now : Int)
  | removeNode (propose : ConfigChangeCommand → Int) (target : RaftNodeId) (now : Int)
  | replaceMembership (propose : ConfigChangeCommand → Int) (newMembers : List RaftNodeId) (now : Int)
  | finaliseJointConsensus (propose : ConfigChangeCommand → Int)
  | processConfigChange (command : ConfigChangeCommand) (committedIndex : Int)

def MembershipEvent.committed? : MembershipEvent → Option (ConfigChangeCommand × Int)
  | .processConfigChange command committedIndex => some (command, committedIndex)
  | _ => none

def committed (events : List MembershipEvent) : List (ConfigChangeCommand × Int) :=
  events.filterMap MembershipEvent.committed?

namespace MembershipManager

def step (manager : MembershipManager) : MembershipEvent → MembershipManager
  | .addNode propose newNode now => (manager.addNode propose newNode now).1
  | .removeNode propose target now => (manager.removeNode propose target now).1
  | .replaceMembership propose newMembers now => (manager.replaceMembership propose newMembers now).1
  | .finaliseJointConsensus propose => (manager.finaliseJointConsensus propose).1
  | .processConfigChange command committedIndex => (manager.processConfigChange command committedIndex).1

def run (manager : MembershipManager) (events : List MembershipEvent) : MembershipManager :=
  Runs.run step manager events

end MembershipManager

end TorrentMq.Consensus
