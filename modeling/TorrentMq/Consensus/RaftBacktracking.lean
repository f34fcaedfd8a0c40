import TorrentMq.Consensus.RaftReplicationSteps
import TorrentMq.Runs.Basic

/-! How a leader finds the point where a follower's log matches its own, as long
as neither log is compacted. A refusal names an index at or below the one that
was asked for, and the leader asks below the one it would have asked for next. -/

set_option autoImplicit false

namespace TorrentMq.Consensus

open LawfulRaftLog RaftLog

theorem LawfulRaftLog.uncompacted_of_firstIndex {L : Type} [RaftLog L] [LawfulRaftLog L] {log : L}
    (first : firstIndex log ≤ 1) : Uncompacted log := by
  have nonneg := (view log).snapshotIndex_nonneg
  rw [firstIndex_eq, LogView.firstIndex] at first
  show (view log).snapshotIndex = 0
  omega

namespace RaftNode

section Follower

variable {L : Type} [RaftLog L]

theorem firstOfTerm_bounds (log : L) (localTerm : Int) (fuel : Nat) {index : Int}
    (lower : firstIndex log ≤ index) :
    firstIndex log ≤ firstOfTerm log localTerm fuel index ∧ firstOfTerm log localTerm fuel index ≤ index := by
  induction fuel generalizing index with
  | zero => exact ⟨lower, le_refl index⟩
  | succ fuel ih =>
    unfold firstOfTerm
    split
    next walks =>
      have bounds := ih (show firstIndex log ≤ index - 1 by omega)
      exact ⟨bounds.1, by omega⟩
    next => exact ⟨lower, le_refl index⟩

/-- A node that takes the requests of a term: it is not ahead of it, and does not lead it. -/
def Obeys (node : RaftNode L) (term : Int) : Prop :=
  node.currentTerm ≤ term ∧ ¬(node.state = .leader ∧ term = node.currentTerm)

instance (node : RaftNode L) (term : Int) : Decidable (node.Obeys term) := inferInstanceAs (Decidable (_ ∧ _))

variable [LawfulRaftLog L] {log : L} {request : AppendEntriesRequest}

theorem prevLogConflict_bounds (whole : Uncompacted log) {conflict : Int}
    (refused : prevLogConflict log request = some conflict) : 1 ≤ conflict ∧ conflict ≤ request.prevLogIndex := by
  have last := whole.lastIndex
  have first := whole.firstIndex
  unfold prevLogConflict at refused
  split at refused
  next positive =>
    split at refused
    next beyond =>
      obtain rfl := Option.some.inj refused
      omega
    next inside =>
      dsimp only at refused
      split at refused
      next =>
        split at refused
        next =>
          obtain rfl := Option.some.inj refused
          rw [← first]
          exact firstOfTerm_bounds log _ _ (by omega)
        next =>
          obtain rfl := Option.some.inj refused
          omega
      next => cases refused
  next => cases refused

theorem handleAppendEntries_refusal (node : RaftNode L) (whole : Uncompacted node.log)
    (obeys : node.Obeys request.term) (nonneg : 0 ≤ request.prevLogIndex)
    (numbered : Numbered request.prevLogIndex request.entries)
    (failed : (node.handleAppendEntries request).2.success = false) :
    (node.handleAppendEntries request).2.term = request.term ∧
      (1 ≤ (node.handleAppendEntries request).2.conflictIndex ∧
        (node.handleAppendEntries request).2.conflictIndex ≤ request.prevLogIndex) ∧
      (node.handleAppendEntries request).1.log = node.log ∧
      (node.handleAppendEntries request).1.Obeys request.term := by
  have outcome := handleAppendEntries_outcome node request
  generalize node.handleAppendEntries request = result at outcome failed
  cases outcome with
  | stale below => exact absurd obeys.1 (Int.not_le.mpr below)
  | rival current leads => exact absurd ⟨leads, current⟩ obeys.2
  | refused conflict current role stored =>
    rcases appendEntriesToLog_cases whole nonneg numbered with ⟨-, none, -⟩ | ⟨-, same⟩
    · rw [none] at stored
      cases stored
    · have found : prevLogConflict node.log request = some conflict := by
        cases matched : prevLogConflict node.log request with
        | none =>
          by_cases empty : request.entries = []
          · simp [appendEntriesToLog, empty, matched] at stored
          · have none := (appendEntriesToLog_stores node.log empty numbered matched (whole.le.trans nonneg)).1
            rw [none] at stored
            cases stored
        | some other =>
          unfold appendEntriesToLog at stored
          split at stored
          · rw [← matched]
            exact stored
          · rw [matched] at stored
            exact stored
      refine ⟨rfl, prevLogConflict_bounds whole found, same, ?_, ?_⟩
      · have term := adopt_currentTerm node request.term
        dsimp only
        omega
      · exact fun leads => role leads.1
  | accepted => cases failed

end Follower

section Leader

variable {L : Type} [RaftLog L]

variable {state : FollowerState}

theorem sendAppendEntriesTo_nextIndex (env : Env) (node : RaftNode L) {target : RaftNodeId}
    (tracked : node.replication.followerStates.lookup target = some state) :
    ∃ next, (node.sendAppendEntriesTo env target).replication.followerStates.lookup target = some next ∧
      next.nextIndex = state.nextIndex := by
  unfold sendAppendEntriesTo
  rw [tracked]
  dsimp only
  split
  · exact ⟨state, tracked, rfl⟩
  · split
    · exact ⟨state, tracked, rfl⟩
    · split
      · exact ⟨state, tracked, rfl⟩
      · split
        · exact ⟨_, AList.lookup_insert _, rfl⟩
        · exact ⟨state, tracked, rfl⟩

/-- What a leader makes of a refusal: it keeps its log and its term, and steps back. -/
structure StepsBack (before after : RaftNode L) (sender : RaftNodeId) (nextIndex : Int) : Prop where
  leads : after.state = .leader
  currentTerm : after.currentTerm = before.currentTerm
  log : after.log = before.log
  tracked : ∃ state, after.replication.followerStates.lookup sender = some state ∧ state.nextIndex = nextIndex

theorem StepsBack.of_send (env : Env) {before node : RaftNode L} {sender : RaftNodeId}
    (leads : node.state = .leader) (currentTerm : node.currentTerm = before.currentTerm)
    (log : node.log = before.log) (tracked : node.replication.followerStates.lookup sender = some state) :
    StepsBack before (node.sendAppendEntriesTo env sender) sender state.nextIndex := by
  have next := sendAppendEntriesTo_nextIndex env node tracked
  obtain ⟨replication, messages, sent, -⟩ := sendAppendEntriesTo_sends env node sender
  rw [sent] at next ⊢
  exact ⟨leads, currentTerm, log, next⟩

variable {response : AppendEntriesResponse}

theorem handleAppendEntriesResponse_refusal (env : Env) (node : RaftNode L) {sender : RaftNodeId} (leads : node.state = .leader)
    (uncompacted : firstIndex node.log ≤ 1)
    (tracked : node.replication.followerStates.lookup sender = some state)
    (current : response.term ≤ node.currentTerm) (failed : response.success = false) :
    StepsBack node (node.handleAppendEntriesResponse env sender response) sender
      (node.backtrack state response).nextIndex := by
  unfold handleAppendEntriesResponse
  rw [if_neg (by simp [leads]), if_neg (Int.not_lt.mpr current), tracked]
  dsimp only
  rw [failed, if_neg Bool.false_ne_true, if_neg fun compacted => absurd compacted.2 (Int.not_lt.mpr uncompacted)]
  split
  next =>
    -- Nothing is compacted, so there is no snapshot to send.
    unfold sendInstallSnapshotTo
    split
    next missing => exact ⟨leads, rfl, rfl, _, AList.lookup_insert _, rfl⟩
    next =>
      rw [if_pos (by exact uncompacted)]
      exact ⟨leads, rfl, rfl, _, AList.lookup_insert _, rfl⟩
  next =>
    change StepsBack node _ sender
      (node.backtrack { state with inFlight := state.inFlight - 1, isActive := true } response).nextIndex
    exact StepsBack.of_send env leads rfl rfl (AList.lookup_insert _)

theorem backtrack_nextIndex (node : RaftNode L) (uncompacted : firstIndex node.log ≤ 1)
    (state : FollowerState) (positive : 1 ≤ response.conflictIndex) :
    (1 < state.nextIndex → 1 ≤ (node.backtrack state response).nextIndex ∧
        (node.backtrack state response).nextIndex < state.nextIndex) ∧
      (state.nextIndex = 1 → (node.backtrack state response).nextIndex = 1) := by
  unfold backtrack
  dsimp only
  split
  · omega
  · split <;> omega

end Leader

/-- The request that a leader sends to a tracked peer: a heartbeat, or one with the entries it is
behind by. -/
def requestFor {L : Type} [RaftLog L] (node : RaftNode L) (state : FollowerState) (withEntries : Bool) :
    AppendEntriesRequest :=
  if withEntries = true ∧ state.nextIndex ≤ node.lastLogIndex then
    { node.probe state with entries := node.batchFor state }
  else node.probe state

theorem requestFor_numbered {L : Type} [RaftLog L] [LawfulRaftLog L] (node : RaftNode L)
    (whole : Uncompacted node.log) {state : FollowerState} (positive : 1 ≤ state.nextIndex) (withEntries : Bool) :
    (node.requestFor state withEntries).prevLogIndex = state.nextIndex - 1 ∧
      Numbered (node.requestFor state withEntries).prevLogIndex (node.requestFor state withEntries).entries := by
  have previous := node.probe_prevLogIndex positive
  unfold requestFor
  split
  next behind => exact ⟨previous, (node.batch_slices whole positive behind.2).2.1⟩
  next => exact ⟨previous, .nil _⟩

end RaftNode

structure Probing (L M : Type) where
  leader : RaftNode L
  follower : RaftNode M

structure ProbeRound where
  env : Env := {}
  withEntries : Bool := false

namespace Probing

variable {L M : Type} [RaftLog L] [RaftLog M] (peer : RaftNodeId)

def request (probing : Probing L M) (round : ProbeRound) : AppendEntriesRequest :=
  probing.leader.requestFor ((probing.leader.replication.followerStates.lookup peer).getD {}) round.withEntries

def response (probing : Probing L M) (round : ProbeRound) : AppendEntriesResponse :=
  (probing.follower.handleAppendEntries (probing.request peer round)).2

def step (probing : Probing L M) (round : ProbeRound) : Probing L M where
  leader := probing.leader.handleAppendEntriesResponse round.env peer (probing.response peer round)
  follower := (probing.follower.handleAppendEntries (probing.request peer round)).1

variable [LawfulRaftLog L] [LawfulRaftLog M]

/-- A leader that asks a follower from some next index on, with nothing compacted on either side. -/
structure Asks (probing : Probing L M) (nextIndex : Int) : Prop where
  leads : probing.leader.state = .leader
  leaderLog : firstIndex probing.leader.log ≤ 1
  followerLog : firstIndex probing.follower.log ≤ 1
  obeys : probing.follower.Obeys probing.leader.currentTerm
  positive : 1 ≤ nextIndex
  tracked : ∃ state, probing.leader.replication.followerStates.lookup peer = some state ∧ state.nextIndex = nextIndex

variable {peer} {probing : Probing L M} {nextIndex : Int} {round : ProbeRound}

theorem Asks.step (asks : probing.Asks peer nextIndex) (refused : (probing.response peer round).success = false) :
    ∃ lower, lower < nextIndex ∧ (probing.step peer round).Asks peer lower := by
  obtain ⟨state, tracked, rfl⟩ := asks.tracked
  have shape : probing.request peer round = probing.leader.requestFor state round.withEntries := by
    rw [request, tracked, Option.getD_some]
  obtain ⟨previous, numbered⟩ := probing.leader.requestFor_numbered (uncompacted_of_firstIndex asks.leaderLog)
    asks.positive round.withEntries
  have term : (probing.request peer round).term = probing.leader.currentTerm := by
    rw [shape, RaftNode.requestFor]
    split <;> rfl
  have obeys := asks.obeys
  rw [← term] at obeys
  rw [← shape] at previous numbered
  obtain ⟨answered, bounds, log, next⟩ := probing.follower.handleAppendEntries_refusal
    (uncompacted_of_firstIndex asks.followerLog) obeys (by have := asks.positive; omega) numbered refused
  have back := probing.leader.handleAppendEntriesResponse_refusal round.env asks.leads asks.leaderLog tracked
    (answered.trans term).le refused
  have lower := (probing.leader.backtrack_nextIndex asks.leaderLog state bounds.1).1 (by omega)
  refine ⟨_, lower.2, back.leads, ?_, ?_, ?_, lower.1, back.tracked⟩
  · exact (congrArg firstIndex back.log).trans_le asks.leaderLog
  · exact (congrArg firstIndex log).trans_le asks.followerLog
  · rw [term, ← back.currentTerm] at next
    exact next

theorem Asks.length_lt (asks : probing.Asks peer nextIndex) {rounds : List ProbeRound}
    (refused : Runs.Meets (Probing.step peer)
      (fun probing round => (probing.response peer round).success = false) probing rounds) :
      (rounds.length : Int) < nextIndex := by
  induction rounds generalizing probing nextIndex with
  | nil => exact asks.positive
  | cons round rounds ih =>
    obtain ⟨lower, below, next⟩ := asks.step refused.1
    have shorter := ih next refused.2
    rw [List.length_cons]
    omega

/-- Every refusal names an index from 1 up to the one that was asked for and lowers the next index,
unless that is at 1 already; so of as many rounds as the next index counts, one is accepted. -/
theorem backtracking_terminates (peer : RaftNodeId) (probing : Probing L M) (nextIndex : Int)
    (asks : probing.Asks peer nextIndex) :
    (∀ request : AppendEntriesRequest, request.term = probing.leader.currentTerm → 0 < request.prevLogIndex →
      Numbered request.prevLogIndex request.entries →
      (probing.follower.handleAppendEntries request).2.success = false →
        (1 ≤ (probing.follower.handleAppendEntries request).2.conflictIndex ∧
          (probing.follower.handleAppendEntries request).2.conflictIndex ≤ request.prevLogIndex) ∧
        ∀ env : Env, ∃ next, RaftNode.StepsBack probing.leader
          (probing.leader.handleAppendEntriesResponse env peer (probing.follower.handleAppendEntries request).2)
            peer next ∧ (1 < nextIndex → 1 ≤ next ∧ next < nextIndex) ∧ (nextIndex = 1 → next = 1)) ∧
      ∀ rounds : List ProbeRound, nextIndex ≤ rounds.length → ∃ before round, before ++ [round] <+: rounds ∧
        ((Runs.run (step peer) probing before).response peer round).success = true := by
  constructor
  · intro request term positive numbered refused
    have obeys := asks.obeys
    rw [← term] at obeys
    obtain ⟨answered, bounds, -⟩ := probing.follower.handleAppendEntries_refusal
      (uncompacted_of_firstIndex asks.followerLog) obeys positive.le numbered refused
    refine ⟨bounds, fun env => ?_⟩
    obtain ⟨state, tracked, rfl⟩ := asks.tracked
    have back := probing.leader.handleAppendEntriesResponse_refusal env asks.leads asks.leaderLog tracked
      (answered.trans term).le refused
    exact ⟨_, back, probing.leader.backtrack_nextIndex asks.leaderLog state bounds.1⟩
  · intro rounds enough
    by_contra none
    have refused : Runs.Meets (step peer)
        (fun probing round => (probing.response peer round).success = false) probing rounds := by
      refine Runs.meets_of_prefixes fun before round reached _ => ?_
      cases answer : ((Runs.run (step peer) probing before).response peer round).success with
      | false => rfl
      | true => exact absurd ⟨before, round, reached, answer⟩ none
    exact absurd (asks.length_lt refused) (Int.not_lt.mpr enough)

def divergedLogs : Probing LogView LogView where
  leader := {
    nodeId := 1
    config := {}
    log := .ofEntries [⟨1, 1, .noOp⟩, ⟨2, 2, .noOp⟩, ⟨2, 3, .noOp⟩]
    currentTerm := 3
    state := .leader
    replication := { followerStates := (∅ : AList fun _ : RaftNodeId => FollowerState).insert 2 { nextIndex := 4 } } }
  follower := {
    nodeId := 2
    config := {}
    log := .ofEntries [⟨1, 1, .noOp⟩, ⟨1, 2, .noOp⟩, ⟨1, 3, .noOp⟩]
    currentTerm := 1 }

theorem divergedLogs_accepts : ∃ before round, before ++ [round] <+: List.replicate 4 ({} : ProbeRound) ∧
    ((Runs.run (step 2) divergedLogs before).response 2 round).success = true :=
  (backtracking_terminates 2 divergedLogs 4 {
    leads := rfl
    leaderLog := by decide
    followerLog := by decide
    obeys := by decide
    positive := by decide
    tracked := ⟨{ nextIndex := 4 }, by decide +kernel, rfl⟩ }).2 (List.replicate 4 {}) (by decide)

def atFirstEntry : Probing LogView LogView :=
  { divergedLogs with
    leader := { divergedLogs.leader with
      replication := { followerStates := (∅ : AList fun _ : RaftNodeId => FollowerState).insert 2 {} } } }

/-- A refusal that was under way leaves the next index at 1. -/
theorem nextIndex_stays : ¬∀ (probing : Probing LogView LogView) (nextIndex : Int) (request : AppendEntriesRequest)
    (env : Env) (state : FollowerState), probing.Asks 2 nextIndex → request.term = probing.leader.currentTerm →
      0 < request.prevLogIndex → Numbered request.prevLogIndex request.entries →
      (probing.follower.handleAppendEntries request).2.success = false →
      (probing.leader.handleAppendEntriesResponse env 2
        (probing.follower.handleAppendEntries request).2).replication.followerStates.lookup 2 = some state →
      state.nextIndex < nextIndex := by
  intro all
  let request : AppendEntriesRequest := { term := 3, leaderId := 1, prevLogIndex := 3, prevLogTerm := 2 }
  have lower := all atFirstEntry 1 request {} { inFlight := 1 } {
    leads := rfl
    leaderLog := by decide
    followerLog := by decide
    obeys := by decide
    positive := by decide
    tracked := ⟨{}, by decide +kernel, rfl⟩ } rfl (by decide) (.nil 3) (by decide +kernel) (by decide +kernel)
  exact absurd lower (by decide)

end Probing

end TorrentMq.Consensus
