import TorrentMq.Consensus.RaftLogProperties
import TorrentMq.Consensus.RaftNodeCases
import TorrentMq.ReplicatedLog.Election

/-! Quorums of a membership: whether two of them meet, and whether what a leader
commits is held by one. -/

set_option autoImplicit false

namespace TorrentMq.Consensus

open List

namespace RaftMembership

variable {membership : RaftMembership}

/-- Two sets of nodes that both pass for a quorum have a node in common. -/
def QuorumsMeet (membership : RaftMembership) : Prop :=
  ∀ left right : Finset RaftNodeId, left ⊆ membership.quorumSet.toFinset →
    right ⊆ membership.quorumSet.toFinset → membership.quorumSize ≤ left.card →
      membership.quorumSize ≤ right.card → ∃ node ∈ left, node ∈ right

theorem quorumSize_pos (membership : RaftMembership) : 0 < membership.quorumSize := by
  unfold quorumSize
  dsimp only
  split <;> omega

theorem nodup_quorumSet (distinct : membership.members.Nodup) (distinctJoint : membership.jointMembers.Nodup) :
    membership.quorumSet.Nodup := by
  unfold quorumSet
  split
  next => exact distinct
  next =>
    refine distinct.append (distinctJoint.filter _) ?_
    intro node member added
    have absent := (List.mem_filter.mp added).2
    simp [member] at absent

theorem quorumsMeet_of_lt (fewer : membership.quorumSet.length < 2 * membership.quorumSize) :
    membership.QuorumsMeet := by
  intro left right inside inside' enough enough'
  have bound : membership.quorumSet.toFinset.card ≤ membership.quorumSet.length := toFinset_card_le _
  have quorum : ReplicatedLog.Quorum membership.quorumSet.toFinset (· ∈ left) :=
    ⟨left, inside, by omega, fun _ member => member⟩
  have quorum' : ReplicatedLog.Quorum membership.quorumSet.toFinset (· ∈ right) :=
    ⟨right, inside', by omega, fun _ member => member⟩
  obtain ⟨node, -, shared⟩ := quorum.meet quorum'
  exact ⟨node, shared⟩

theorem not_quorumsMeet_of_le (distinct : membership.quorumSet.Nodup)
    (enough : 2 * membership.quorumSize ≤ membership.quorumSet.length) : ¬membership.QuorumsMeet := by
  intro meet
  have parted : (membership.quorumSet.take membership.quorumSize).Disjoint
      (membership.quorumSet.drop membership.quorumSize) := disjoint_take_drop distinct (le_refl _)
  have first : (membership.quorumSet.take membership.quorumSize).toFinset.card = membership.quorumSize := by
    rw [toFinset_card_of_nodup (distinct.sublist (take_sublist _ _)), length_take]
    omega
  have second : membership.quorumSize ≤ (membership.quorumSet.drop membership.quorumSize).toFinset.card := by
    rw [toFinset_card_of_nodup (distinct.sublist (drop_sublist _ _)), length_drop]
    omega
  obtain ⟨node, left, right⟩ := meet _ _
    (fun _ member => mem_toFinset.mpr (mem_of_mem_take (mem_toFinset.mp member)))
    (fun _ member => mem_toFinset.mpr (mem_of_mem_drop (mem_toFinset.mp member)))
    first.ge second
  exact parted (mem_toFinset.mp left) (mem_toFinset.mp right)

/-- Quorums meet exactly when there is one configuration, or the larger of both majorities is
more than half of all nodes of both. -/
theorem quorumsMeet_iff (membership : RaftMembership) (distinct : membership.members.Nodup)
    (distinctJoint : membership.jointMembers.Nodup) :
    membership.QuorumsMeet ↔
      (membership.inJointConsensus = true → membership.quorumSet.length < 2 * membership.quorumSize) := by
  constructor
  · intro meet _
    by_contra enough
    exact not_quorumsMeet_of_le (nodup_quorumSet distinct distinctJoint) (Nat.not_lt.mp enough) meet
  · intro fewer
    refine quorumsMeet_of_lt ?_
    by_cases joint : membership.inJointConsensus = true
    · exact fewer joint
    · simp only [quorumSet, quorumSize, joint, Bool.not_false, if_true]
      omega

theorem quorumsMeet_overlapping : QuorumsMeet { members := [1, 2, 3], jointMembers := [2, 3] } :=
  (quorumsMeet_iff { members := [1, 2, 3], jointMembers := [2, 3] } (by decide) (by decide)).mpr (by decide)

/-- Each of two single nodes is a quorum while the second one takes the place of the first. -/
theorem not_quorumsMeet_replaced : ¬∀ membership : RaftMembership, membership.members.Nodup →
    membership.jointMembers.Nodup → membership.QuorumsMeet := by
  intro all
  obtain ⟨node, left, right⟩ := all { members := [1], jointMembers := [2] } (by decide) (by decide) {1} {2}
    (by decide) (by decide) (by decide) (by decide)
  cases Finset.mem_singleton.mp left
  cases Finset.mem_singleton.mp right

end RaftMembership

theorem lt_countP_iff_of_descending {values : List Int} (descending : values.Pairwise (· ≥ ·)) (position : Nat)
    (index : Int) :
    position < values.countP (fun value => decide (index ≤ value)) ↔
      ∃ value, values[position]? = some value ∧ index ≤ value := by
  induction values generalizing position with
  | nil => simp
  | cons value values ih =>
    obtain ⟨above, descending⟩ := pairwise_cons.mp descending
    by_cases reached : index ≤ value
    · rw [countP_cons_of_pos (by simpa using reached)]
      cases position with
      | zero => simp [reached]
      | succ position => simpa using ih descending position
    · -- Nothing behind a value is above it.
      have below : ∀ later ∈ value :: values, ¬index ≤ later := by
        intro later listed
        cases listed with
        | head => exact reached
        | tail _ behind => exact fun reaches => reached (reaches.trans (above later behind))
      rw [countP_eq_zero.mpr (by simpa using below)]
      constructor
      · intro lower
        cases lower
      · intro found
        obtain ⟨later, stands, reaches⟩ := found
        exact absurd reaches (below later (mem_of_getElem? stands))

namespace RaftNode

variable {L : Type} {node : RaftNode L} {index lower : Int}

def holds (node : RaftNode L) (index : Int) (peer : RaftNodeId) : Bool :=
  match node.replication.followerStates.lookup peer with
  | some follower => decide (follower.matchIndex ≥ index)
  | none => false

def majorityHolds (node : RaftNode L) (listed : List RaftNodeId) (index : Int) : Bool :=
  decide (listed.countP (fun peer => if peer = node.nodeId then false else node.holds index peer) +
    (if isMember listed node.nodeId then 1 else 0) ≥ listed.length / 2 + 1)

theorem jointMajority_eq (node : RaftNode L) (index : Int) :
    node.jointMajority index = node.majorityHolds node.membership.jointMembers index := rfl

theorem majorityHolds_of_le {listed : List RaftNodeId} (below : lower ≤ index)
    (majority : node.majorityHolds listed index = true) : node.majorityHolds listed lower = true := by
  have fewer : listed.countP (fun peer => if peer = node.nodeId then false else node.holds index peer) ≤
      listed.countP (fun peer => if peer = node.nodeId then false else node.holds lower peer) := by
    refine countP_mono_left ?_
    intro peer _ counted
    by_cases self : peer = node.nodeId
    · simp [self] at counted
    · simp only [self, if_false, holds] at counted ⊢
      cases found : node.replication.followerStates.lookup peer with
      | none => simp [found] at counted
      | some follower =>
        simp only [found, ge_iff_le, decide_eq_true_eq] at counted ⊢
        exact below.trans counted
  simp only [majorityHolds, decide_eq_true_eq] at majority ⊢
  omega

variable [RaftLog L]

def pooledMatches (node : RaftNode L) : List Int :=
  node.lastLogIndex ::
    (node.replication.followerStates.entries.filter (fun follower => follower.2.isActive)).map
      (fun follower => follower.2.matchIndex)

/-- What the commit index moves to is of the current term and held by a majority of each
configuration. -/
def CommitRule (node : RaftNode L) : Prop :=
  ∀ index, node.advanceCommitIndex.commitIndex = index → index ≠ node.commitIndex →
    RaftLog.termAt node.log index = node.currentTerm ∧
      node.majorityHolds node.membership.members index = true ∧
      (node.membership.inJointConsensus = true →
        node.majorityHolds node.membership.jointMembers index = true)

/-- The pool has as many match indices at an index of the current term as the larger majority,
and during a transition the new configuration has its own majority there. -/
structure PoolReaches (node : RaftNode L) (index : Int) : Prop where
  pooled : node.quorumSize ≤ node.pooledMatches.countP (fun matched => decide (index ≤ matched))
  term : RaftLog.termAt node.log index = node.currentTerm
  joint : node.membership.inJointConsensus = true → node.majorityHolds node.membership.jointMembers index = true

/-- Without active followers the only member is the leader or has caught up with it, and the log
ends in the current term; otherwise the pool is nowhere ahead of the members. -/
def PoolStandsForMembers (node : RaftNode L) : Prop :=
  if node.pooledMatches.length < 2 then
    node.membership.members.length = 1 → node.commitIndex < node.lastLogIndex →
      RaftLog.termAt node.log node.lastLogIndex = node.currentTerm ∧
        node.majorityHolds node.membership.members node.lastLogIndex = true ∧
        (node.membership.inJointConsensus = true →
          node.majorityHolds node.membership.jointMembers node.lastLogIndex = true)
  else
    ∀ index, node.commitIndex < index → index ≤ node.lastLogIndex → node.PoolReaches index →
      node.majorityHolds node.membership.members index = true

section

variable (node : RaftNode L)

theorem length_sortedMatches : node.sortedMatches.length = node.pooledMatches.length :=
  length_insertionSort _ _

theorem sortedMatches_reach_iff (index : Int) :
    (node.quorumSize ≤ node.sortedMatches.length ∧ index ≤ node.sortedMatches.getD (node.quorumSize - 1) 0) ↔
      node.quorumSize ≤ node.pooledMatches.countP (fun matched => decide (index ≤ matched)) := by
  have descending : node.sortedMatches.Pairwise (· ≥ ·) := pairwise_insertionSort _ _
  have same : node.sortedMatches.countP (fun matched => decide (index ≤ matched)) =
      node.pooledMatches.countP (fun matched => decide (index ≤ matched)) :=
    (perm_insertionSort _ _).countP_eq _
  have positive : 0 < node.quorumSize := node.membership.quorumSize_pos
  have counted := lt_countP_iff_of_descending descending (node.quorumSize - 1) index
  rw [same] at counted
  constructor
  · intro reach
    obtain ⟨short, reached⟩ := reach
    have stands : node.sortedMatches[node.quorumSize - 1]? =
        some (node.sortedMatches.getD (node.quorumSize - 1) 0) := by
      rw [getD_eq_getElem?_getD, getElem?_eq_getElem (by omega)]
      rfl
    have := counted.mpr ⟨_, stands, reached⟩
    omega
  · intro enough
    obtain ⟨value, stands, reached⟩ := counted.mp (by omega)
    obtain ⟨short, -⟩ := List.getElem?_eq_some_iff.mp stands
    refine ⟨by omega, ?_⟩
    rw [getD_eq_getElem?_getD, stands]
    exact reached

theorem findCommit_succ (distance : Nat) :
    (node.PoolReaches (node.commitIndex + (distance + 1 : Nat)) ∧
        node.findCommit node.sortedMatches (distance + 1) = some (node.commitIndex + (distance + 1 : Nat))) ∨
      ¬node.PoolReaches (node.commitIndex + (distance + 1 : Nat)) ∧
        (node.findCommit node.sortedMatches (distance + 1) = node.findCommit node.sortedMatches distance ∨
          node.sortedMatches.length < node.quorumSize) := by
  have reach := node.sortedMatches_reach_iff (node.commitIndex + (distance + 1 : Nat))
  rw [findCommit]
  split
  next short =>
    exact .inr ⟨fun reaches => absurd (reach.mpr reaches.pooled).1 (by omega), .inr short⟩
  next =>
    split
    next unreached =>
      exact .inr ⟨fun reaches => absurd (reach.mpr reaches.pooled).2 (by omega), .inl rfl⟩
    next reached =>
      split
      next stale => exact .inr ⟨fun reaches => stale reaches.term, .inl rfl⟩
      next current =>
        split
        next outvoted =>
          refine .inr ⟨fun reaches => ?_, .inl rfl⟩
          have held := reaches.joint outvoted.1
          rw [← jointMajority_eq, outvoted.2] at held
          cases held
        next agreed =>
          refine .inl ⟨⟨reach.mp ⟨by omega, by omega⟩, by simpa using current, ?_⟩, rfl⟩
          intro joint
          rw [← jointMajority_eq]
          simpa [joint] using agreed

theorem findCommit_highest (distance : Nat) :
    (node.findCommit node.sortedMatches distance = none ∧
        ∀ lower, node.commitIndex < lower → lower ≤ node.commitIndex + distance → ¬node.PoolReaches lower) ∨
      ∃ index, node.findCommit node.sortedMatches distance = some index ∧ node.commitIndex < index ∧
        index ≤ node.commitIndex + distance ∧ node.PoolReaches index ∧
        ∀ lower, lower ≤ node.commitIndex + distance → node.PoolReaches lower → lower ≤ index := by
  have short (few : node.sortedMatches.length < node.quorumSize) (lower : Int) : ¬node.PoolReaches lower :=
    fun reaches => absurd ((node.sortedMatches_reach_iff lower).mpr reaches.pooled).1 (by omega)
  induction distance with
  | zero => exact .inl ⟨rfl, fun lower above below => absurd above (by omega)⟩
  | succ distance ih =>
    rcases node.findCommit_succ distance with ⟨reaches, found⟩ | ⟨unreached, same | few⟩
    · exact .inr ⟨_, found, by omega, le_refl _, reaches, fun lower below _ => below⟩
    · have within {lower : Int} (below : lower ≤ node.commitIndex + (distance + 1 : Nat))
          (reaches : node.PoolReaches lower) : lower ≤ node.commitIndex + distance := by
        rcases (show lower = node.commitIndex + (distance + 1 : Nat) ∨ lower ≤ node.commitIndex + distance by
          omega) with rfl | inside
        · exact absurd reaches unreached
        · exact inside
      rw [same]
      rcases ih with ⟨missing, none⟩ | ⟨index, found, above, below, reaches, highest⟩
      · exact .inl ⟨missing, fun lower above below reaches => none lower above (within below reaches) reaches⟩
      · exact .inr ⟨index, found, above, by omega, reaches, fun lower below reaches =>
          highest lower (within below reaches) reaches⟩
    · refine .inl ⟨?_, fun lower _ _ => short few lower⟩
      unfold findCommit
      exact if_pos few

end

theorem advanceCommitIndex_of_caughtUp (caughtUp : node.lastLogIndex ≤ node.commitIndex) :
    node.advanceCommitIndex = node := by
  unfold advanceCommitIndex
  split
  · rfl
  · rfl

section

variable (leader : node.state = .leader)

include leader

theorem advanceCommitIndex_alone (behind : node.commitIndex < node.lastLogIndex)
    (alone : node.pooledMatches.length < 2) :
    node.advanceCommitIndex.commitIndex =
      if node.membership.members.length = 1 then node.lastLogIndex else node.commitIndex := by
  rw [advanceCommitIndex, if_neg (by simp [leader]), if_neg (by omega), if_pos (by rwa [length_sortedMatches])]
  split
  · exact (applyCommitted_applies _).commitIndex
  · rfl

theorem advanceCommitIndex_counted (behind : node.commitIndex < node.lastLogIndex)
    (counted : ¬node.pooledMatches.length < 2) :
    node.advanceCommitIndex.commitIndex =
      (node.findCommit node.sortedMatches (node.lastLogIndex - node.commitIndex).toNat).getD node.commitIndex := by
  rw [advanceCommitIndex, if_neg (by simp [leader]), if_neg (by omega), if_neg (by rwa [length_sortedMatches])]
  cases found : node.findCommit node.sortedMatches (node.lastLogIndex - node.commitIndex).toNat with
  | none => rfl
  | some index => exact (applyCommitted_applies _).commitIndex

theorem commitRule_iff_of_alone (alone : node.pooledMatches.length < 2) :
    node.CommitRule ↔ node.PoolStandsForMembers := by
  rw [PoolStandsForMembers, if_pos alone]
  constructor
  · intro rule single behind
    refine rule node.lastLogIndex ?_ behind.ne'
    rw [advanceCommitIndex_alone leader behind alone, if_pos single]
  · intro stands index moved other
    by_cases behind : node.commitIndex < node.lastLogIndex
    · rw [advanceCommitIndex_alone leader behind alone] at moved
      by_cases single : node.membership.members.length = 1
      · rw [if_pos single] at moved
        exact moved ▸ stands single behind
      · rw [if_neg single] at moved
        exact absurd moved.symm other
    · rw [advanceCommitIndex_of_caughtUp (Int.not_lt.mp behind)] at moved
      exact absurd moved.symm other

theorem commitRule_iff_of_counted (counted : ¬node.pooledMatches.length < 2) :
    node.CommitRule ↔ node.PoolStandsForMembers := by
  rw [PoolStandsForMembers, if_neg counted]
  by_cases behind : node.commitIndex < node.lastLogIndex
  · have distance : node.commitIndex + (node.lastLogIndex - node.commitIndex).toNat = node.lastLogIndex := by omega
    have moves := advanceCommitIndex_counted leader behind counted
    have search := node.findCommit_highest (node.lastLogIndex - node.commitIndex).toNat
    rw [distance] at search
    rcases search with ⟨missing, none⟩ | ⟨index, found, above, below, reaches, highest⟩
    · rw [missing] at moves
      constructor
      · intro _ lower above below reaches
        exact absurd reaches (none lower above below)
      · intro _ index moved other
        exact absurd (moved.symm.trans moves) other
    · rw [found] at moves
      constructor
      · intro rule lower _ below reaches
        exact majorityHolds_of_le (highest lower below reaches) (rule index moves above.ne').2.1
      · intro stands other moved _
        obtain rfl : index = other := moves.symm.trans moved
        exact ⟨reaches.term, stands index above below reaches, reaches.joint⟩
  · constructor
    · intro _ lower above below _
      exact absurd (above.trans_le below) behind
    · intro _ index moved other
      rw [advanceCommitIndex_of_caughtUp (Int.not_lt.mp behind)] at moved
      exact absurd moved.symm other

end

/-- The leader commits by the rule exactly when its pool of match indices stands for the members. -/
theorem commitRule_iff (node : RaftNode L) (leader : node.state = .leader) :
    node.CommitRule ↔ node.PoolStandsForMembers := by
  by_cases alone : node.pooledMatches.length < 2
  · exact commitRule_iff_of_alone leader alone
  · exact commitRule_iff_of_counted leader alone

def overlappingLeader : RaftNode LogView where
  nodeId := 1
  config := {}
  log := .ofEntries [{ term := 1, index := 1, command := .noOp }]
  currentTerm := 1
  state := .leader
  membership := { members := [1, 2, 3], jointMembers := [1, 4] }
  replication :=
    { followerStates := ((∅ : AList fun _ : RaftNodeId => FollowerState).insert 2 {}).insert 4 { matchIndex := 1 } }

theorem commitRule_settledLeader : CommitRule { overlappingLeader with membership := { members := [1, 4] } } :=
  (commitRule_iff { overlappingLeader with membership := { members := [1, 4] } } rfl).mpr fun index above below _ => by
    obtain rfl : index = 1 := Int.le_antisymm below above
    decide

theorem overlappingLeader_not_commitRule : ¬overlappingLeader.CommitRule := by
  intro rule
  have held := (rule 1 (by decide) (by decide)).2.1
  revert held
  decide

end RaftNode

end TorrentMq.Consensus
