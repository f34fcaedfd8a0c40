import TorrentMq.Consensus.MembershipManager

/-! The configuration as a function of the committed commands, and the one
place where a manager's own proposal enters it. -/

set_option autoImplicit false

namespace TorrentMq.Consensus

def MembershipConfig.commit (config : MembershipConfig) (command : ConfigChangeCommand)
    (committedIndex : Int) : MembershipConfig :=
  if command.jointConsensus then
    if config.inJointConsensus then config
    else ⟨command.newMembers, command.oldMembers, true, committedIndex⟩
  else if config.inJointConsensus then ⟨command.newMembers, [], false, committedIndex⟩
  else ⟨command.newMembers, config.oldMembers, false, committedIndex⟩

def MembershipConfig.replay (config : MembershipConfig) (commands : List (ConfigChangeCommand × Int)) :
    MembershipConfig :=
  commands.foldl (fun config entry => config.commit entry.1 entry.2) config

namespace MembershipManager

def SettlesAgreed (manager : MembershipManager) : MembershipEvent → Prop
  | .processConfigChange command _ =>
    command.jointConsensus = false → manager.config.inJointConsensus = true →
      manager.pendingNewMembers = [] ∨ manager.pendingNewMembers = command.newMembers
  | _ => True

/-- Every event of a run meets a condition on the manager before it. -/
abbrev EventsMeet (condition : MembershipManager → MembershipEvent → Prop) (manager : MembershipManager)
    (events : List MembershipEvent) : Prop := Runs.Meets step condition manager events

instance (manager : MembershipManager) : (event : MembershipEvent) → Decidable (manager.SettlesAgreed event)
  | .processConfigChange _ _ => inferInstanceAs (Decidable (_ → _))
  | .addNode _ _ _ | .removeNode _ _ _ | .replaceMembership _ _ _ | .finaliseJointConsensus _ => .isTrue trivial

variable (manager : MembershipManager)

@[simp] theorem proposed_config (operation : PendingOp)
    (newMembers : List RaftNodeId) (index now : Int) :
    (manager.proposed operation newMembers index now).1.config = manager.config := by
  unfold proposed
  split <;> rfl

theorem step_config_of_local {event : MembershipEvent}
    (uncommitted : event.committed? = none) : (manager.step event).config = manager.config := by
  cases event with
  | addNode propose newNode now =>
    simp only [step, addNode]
    split_ifs <;> first | rfl | exact proposed_config ..
  | removeNode propose target now =>
    simp only [step, removeNode]
    split_ifs <;> first | rfl | exact proposed_config ..
  | replaceMembership propose newMembers now =>
    simp only [step, replaceMembership]
    split_ifs <;> first | rfl | exact proposed_config ..
  | finaliseJointConsensus propose =>
    simp only [step, finaliseJointConsensus]
    split_ifs <;> rfl
  | processConfigChange => cases uncommitted

theorem processConfigChange_config_iff (command : ConfigChangeCommand)
    (committedIndex : Int) :
    (manager.processConfigChange command committedIndex).1.config = manager.config.commit command committedIndex ↔
      manager.SettlesAgreed (.processConfigChange command committedIndex) := by
  unfold processConfigChange MembershipConfig.commit SettlesAgreed
  cases joint : command.jointConsensus with
  | true =>
    cases phase : manager.config.inJointConsensus <;> simp [joint]
  | false =>
    cases phase : manager.config.inJointConsensus with
    | false => simp
    | true =>
      cases pending : manager.pendingNewMembers with
      | nil => simp
      | cons member members => simp [joint]

theorem run_config {manager : MembershipManager} {events : List MembershipEvent}
    (meets : EventsMeet SettlesAgreed manager events) :
    (manager.run events).config = manager.config.replay (committed events) := by
  induction events generalizing manager with
  | nil => rfl
  | cons event events ih =>
    obtain ⟨agreed, rest⟩ := meets
    have later := ih rest
    change ((manager.step event).run events).config = _
    cases event with
    | processConfigChange command committedIndex =>
      have first := (processConfigChange_config_iff manager command committedIndex).mpr agreed
      rw [later, show (manager.step (.processConfigChange command committedIndex)).config = _ from first]
      rfl
    | _ =>
      rw [later, step_config_of_local manager rfl]
      rfl

/-- Two managers with the same initial members that process the same committed
commands have the same configuration, whatever each proposes in between, as long as
neither ends a joint phase with another proposal of its own remembered. -/
theorem config_eq_of_committed_eq (initialMembers : List RaftNodeId) (left right : RaftNodeId)
    (leftMember : left ∈ initialMembers) (rightMember : right ∈ initialMembers)
    (leftEvents rightEvents : List MembershipEvent) (same : committed leftEvents = committed rightEvents)
    (leftMeets : EventsMeet SettlesAgreed (create left initialMembers) leftEvents)
    (rightMeets : EventsMeet SettlesAgreed (create right initialMembers) rightEvents) :
    ((create left initialMembers).run leftEvents).config =
      ((create right initialMembers).run rightEvents).config := by
  have initial : (create left initialMembers).config = (create right initialMembers).config := by
    simp [create, leftMember, rightMember]
  rw [run_config leftMeets, run_config rightMeets, same, initial]

def nodeFiveJoins : List MembershipEvent :=
  [ .processConfigChange { newMembers := [1, 2, 3, 5], oldMembers := [1, 2, 3], jointConsensus := true } 6
  , .processConfigChange { newMembers := [1, 2, 3, 5] } 7 ]

theorem config_eq_nodeFiveJoins :
    ((create 1 [1, 2, 3]).run nodeFiveJoins).config =
      ((create 2 [1, 2, 3]).run (.addNode (fun _ => 6) 5 0 :: nodeFiveJoins)).config :=
  config_eq_of_committed_eq [1, 2, 3] 1 2 (by decide) (by decide) nodeFiveJoins
    (.addNode (fun _ => 6) 5 0 :: nodeFiveJoins) rfl (by decide) (by decide)

/-- A proposal for node four that was never committed takes node five's place. -/
theorem uncommitted_proposal_applied :
    committed (.addNode (fun _ => 5) 4 0 :: nodeFiveJoins) = committed nodeFiveJoins ∧
      ((create 1 [1, 2, 3]).run (.addNode (fun _ => 5) 4 0 :: nodeFiveJoins)).config.members = [1, 2, 3, 4] ∧
      ((create 2 [1, 2, 3]).run nodeFiveJoins).config.members = [1, 2, 3, 5] :=
  ⟨rfl, by decide, by decide⟩

end MembershipManager

end TorrentMq.Consensus
