import TorrentMq.Consensus.RaftApplyProperties
import TorrentMq.Consensus.RaftFollowerLogProperties
import TorrentMq.Runs.Basic

/-! The fence that admits one configuration change at a time. It follows what
the node proposed and applied itself, whatever else its log holds when it takes
office; from there on a leader keeps it in step with its log. -/

set_option autoImplicit false

namespace TorrentMq.Consensus

open List RaftLog

namespace RaftNode

variable {L : Type} [RaftLog L]

/-- The log holds a configuration change above the applied index. -/
def UnappliedChange (node : RaftNode L) (index : Int) : Prop :=
  node.lastApplied < index ∧
    ∃ entry, entryAt node.log index = some entry ∧ entry.isConfigChange = true

/-- The fence is up for one unapplied change, and down when there is none. -/
structure FenceAgrees (node : RaftNode L) : Prop where
  raised : node.pendingConfigIndex ≠ 0 → ∃ index, node.UnappliedChange index
  lowered : node.pendingConfigIndex = 0 → ∀ index, ¬node.UnappliedChange index
  unique : ∀ first second, node.UnappliedChange first → node.UnappliedChange second → first = second

variable {before after : RaftNode L}

theorem FenceAgrees.congr (agrees : before.FenceAgrees)
    (pending : after.pendingConfigIndex = before.pendingConfigIndex)
    (same : ∀ index, after.UnappliedChange index ↔ before.UnappliedChange index) :
    after.FenceAgrees where
  raised raised := by
    obtain ⟨index, change⟩ := agrees.raised (pending ▸ raised)
    exact ⟨index, (same index).mpr change⟩
  lowered lowered index change := agrees.lowered (pending ▸ lowered) index ((same index).mp change)
  unique first second left right :=
    agrees.unique first second ((same first).mp left) ((same second).mp right)

theorem Idle.fenceAgrees (idle : Idle before after) (agrees : before.FenceAgrees) : after.FenceAgrees :=
  agrees.congr idle.pendingConfigIndex fun index => by
    rw [UnappliedChange, idle.lastApplied, idle.log]
    rfl

theorem AppliesEntries.fenceAgrees {entries : List LogEntry}
    (applied : AppliesEntries before after entries) (log : after.log = before.log)
    (stored : ∀ entry ∈ entries, entryAt before.log entry.index = some entry)
    (agrees : before.FenceAgrees) : after.FenceAgrees := by
  have advanced := applied.lastApplied
  have later : ∀ index, after.UnappliedChange index → before.UnappliedChange index := by
    rintro index ⟨above, entry, found, change⟩
    exact ⟨by omega, entry, log ▸ found, change⟩
  by_cases reached : entries.any (·.isConfigChange) = true
  · obtain ⟨entry, member, change⟩ := any_eq_true.mp reached
    have bounds := applied.numbered.index_le member
    have pending : before.UnappliedChange entry.index :=
      ⟨by omega, entry, stored entry member, change⟩
    have none : ∀ index, ¬after.UnappliedChange index := by
      intro index left
      have same := agrees.unique _ _ (later index left) pending
      have := left.1
      omega
    refine ⟨fun raised => ?_, fun _ => none, fun first _ left _ => absurd left (none first)⟩
    rw [applied.pendingConfigIndex, if_pos reached] at raised
    exact absurd rfl raised
  · have pending := applied.pendingConfigIndex
    rw [if_neg reached] at pending
    refine agrees.congr pending (fun index => ⟨later index, ?_⟩)
    rintro ⟨above, entry, found, change⟩
    refine ⟨?_, entry, log ▸ found, change⟩
    by_contra passed
    obtain ⟨handed, member, rfl⟩ := applied.numbered.exists_mem above (by omega)
    rw [stored handed member, Option.some.injEq] at found
    exact reached (any_eq_true.mpr ⟨handed, member, found ▸ change⟩)

theorem propose_admits {node : RaftNode L} {command : RaftCommand} {index : Int}
    (admitted : (node.propose command).2 = .ok index) (change : command.isConfigChange = true) :
    node.pendingConfigIndex = 0 := by
  by_contra raised
  unfold propose at admitted
  split at admitted
  · cases admitted
  · split at admitted
    · cases admitted
    · split at admitted
      · cases admitted
      · split at admitted
        · cases admitted
        · rw [if_pos ⟨raised, change⟩] at admitted
          cases admitted

theorem propose_refuses {node : RaftNode L} {command : RaftCommand} {error : RaftError}
    (refused : (node.propose command).2 = .error error)
    (code : error.code = .reassignmentInProgress) : node.pendingConfigIndex ≠ 0 := by
  intro lowered
  have passable : ¬(node.pendingConfigIndex ≠ 0 ∧ command.isConfigChange = true) :=
    fun fenced => fenced.1 lowered
  unfold propose at refused
  simp only [if_neg passable] at refused
  repeat' split at refused
  all_goals cases refused <;> cases code

/-!
## What may lower the fence
-/

/-- A step that lowers the fence exactly if it hands a configuration change to the state machine. -/
def Lowers (before after : RaftNode L) : Prop :=
  ∃ entries, after.applied = before.applied ++ entries ∧
    after.pendingConfigIndex = if entries.any (·.isConfigChange) then 0 else before.pendingConfigIndex

section Lowers

omit [RaftLog L] in
theorem lowers_of_same (applied : after.applied = before.applied)
    (pending : after.pendingConfigIndex = before.pendingConfigIndex) : Lowers before after :=
  ⟨[], by rw [applied, append_nil], pending⟩

omit [RaftLog L] in
theorem Idle.lowers (idle : Idle before after) : Lowers before after :=
  lowers_of_same idle.applied idle.pendingConfigIndex

omit [RaftLog L] in
theorem Lowers.trans {middle : RaftNode L} (first : Lowers before middle) (second : Lowers middle after) :
    Lowers before after := by
  obtain ⟨entries, applied, pending⟩ := first
  obtain ⟨more, further, lowered⟩ := second
  refine ⟨entries ++ more, by rw [further, applied, append_assoc], ?_⟩
  rw [lowered, pending, any_append]
  cases entries.any (·.isConfigChange) <;> simp

variable (node : RaftNode L) (env : Env)

include node

theorem applyRounds_lowers (fuel : Nat) : Lowers node (applyRounds fuel node) := by
  induction fuel generalizing node with
  | zero => exact (Idle.refl node).lowers
  | succ fuel ih =>
    have batch : Lowers node (node.applyBatch node.nextBatch) :=
      ⟨_, applyBatch_applied node _, applyBatch_pendingConfigIndex node _⟩
    unfold applyRounds
    split
    · split
      · exact (Idle.refl node).lowers
      · exact batch.trans (ih _)
    · exact (Idle.refl node).lowers

theorem commit_lowers (index : Int) : Lowers node { node with commitIndex := index }.applyCommitted :=
  applyRounds_lowers { node with commitIndex := index } _

theorem advanceCommitIndex_lowers : Lowers node node.advanceCommitIndex := by
  rcases advanceCommitIndex_cases node with same | ⟨index, _, shape⟩
  · rw [same]
    exact (Idle.refl node).lowers
  · rw [shape]
    exact commit_lowers node index

theorem handleAppendEntries_lowers (request : AppendEntriesRequest) :
    Lowers node (node.handleAppendEntries request).1 := by
  have stored : Lowers node { node.adopt request.term with
      leaderId := request.leaderId
      log := (appendEntriesToLog node.log request).1 } := lowers_of_same (by simp) (by simp)
  generalize reply : node.handleAppendEntries request = result
  have outcome := node.handleAppendEntries_outcome request
  rw [reply] at outcome
  cases outcome with
  | stale => exact (Idle.refl node).lowers
  | rival => exact lowers_of_same rfl rfl
  | refused => exact stored
  | accepted =>
    unfold advanceFollowerCommit
    split
    · exact stored.trans (commit_lowers _ _)
    · exact stored

theorem handleInstallSnapshot_lowers (request : InstallSnapshotRequest) :
    Lowers node (node.handleInstallSnapshot env request).1 := by
  have received : ∀ reached : RaftNode L, Lowers reached (reached.receiveChunk request).1 := by
    intro reached
    unfold receiveChunk
    dsimp only
    repeat' split
    all_goals exact lowers_of_same rfl rfl
  have adopted : Lowers node { node.adopt request.term with leaderId := request.leaderId } :=
    lowers_of_same (by simp) (by simp)
  have chunk : Lowers node (node.chunkReceived request).1 := adopted.trans (received _)
  rw [handleInstallSnapshot_eq]
  split
  · exact (Idle.refl node).lowers
  · split
    · refine chunk.trans ?_
      unfold installReceivedSnapshot
      dsimp only
      split <;> exact lowers_of_same rfl rfl
    · exact chunk

theorem becomeLeader_lowers : Lowers node (node.becomeLeader env) := by
  have office : Lowers node node.elected := lowers_of_same rfl rfl
  rcases becomeLeader_cases env node with ⟨_, shape⟩ | ⟨_, shape⟩ | ⟨_, sends⟩
  · rw [shape]
    exact (Idle.becomeFollower node node.currentTerm).lowers
  · rw [shape]
    exact office.trans (Idle.becomeFollower _ _).lowers
  · exact office.trans sends.idle.lowers

variable (sender : RaftNodeId)

theorem handleAppendEntriesResponse_lowers (response : AppendEntriesResponse) :
    Lowers node (node.handleAppendEntriesResponse env sender response) := by
  have tracked : ∀ replication, Lowers node { node with replication := replication } :=
    fun _ => lowers_of_same rfl rfl
  generalize result : node.handleAppendEntriesResponse env sender response = after
  have outcome := handleAppendEntriesResponse_outcome env node sender response
  rw [result] at outcome
  cases outcome with
  | ignored => exact (Idle.refl node).lowers
  | deposed => exact (Idle.becomeFollower node response.term).lowers
  | advanced _ replication => exact (tracked replication).trans (advanceCommitIndex_lowers _)
  | retried _ replication _ _ _ _ _ sent => exact (tracked replication).trans sent.idle.lowers

theorem handleInstallSnapshotResponse_lowers (response : InstallSnapshotResponse) :
    Lowers node (node.handleInstallSnapshotResponse env sender response) := by
  have tracked : ∀ replication, Lowers node { node with replication := replication } :=
    fun _ => lowers_of_same rfl rfl
  rcases handleInstallSnapshotResponse_cases env node sender response with
    same | deposed | ⟨_, replication, recorded | advanced | sent⟩
  · rw [same]
    exact (Idle.refl node).lowers
  · rw [deposed]
    exact (Idle.becomeFollower node response.term).lowers
  · rw [recorded]
    exact tracked replication
  · rw [advanced]
    exact (tracked replication).trans (advanceCommitIndex_lowers _)
  · exact (tracked replication).trans sent.idle.lowers

end Lowers

/-!
## Watched runs
-/

section

variable (node : RaftNode L) (input : Input)

/-- A proposal to the node puts a configuration change into its log. -/
def storesChange : Bool :=
  match input with
  | .propose command => command.isConfigChange && decide (node.lastLogIndex < (node.step input).lastLogIndex)
  | _ => false

/-- A configuration change is handed to the state machine. -/
def appliesChange : Bool := ((node.step input).applied.drop node.applied.length).any (·.isConfigChange)

variable {node input}

theorem storesChange_of_same (same : (node.step input).lastLogIndex = node.lastLogIndex) :
    node.storesChange input = false := by
  unfold storesChange
  split
  · rw [same, decide_eq_false (lt_irrefl _), Bool.and_false]
  · rfl

end

/-- A node, and whether a change that it has put into its own log is still to be applied. -/
structure Watched (L : Type) where
  node : RaftNode L
  outstanding : Bool := false

namespace Watched

def step (watched : Watched L) (input : Input) : Watched L where
  node := watched.node.step input
  outstanding := watched.outstanding && !watched.node.appliesChange input || watched.node.storesChange input

theorem node_run (watched : Watched L) (inputs : List Input) :
    (Runs.run step watched inputs).node = watched.node.run inputs := by
  induction inputs generalizing watched with
  | nil => rfl
  | cons input inputs ih => exact ih (watched.step input)

/-- Whatever the role of the node, the fence is up as long as a change of its own is outstanding. -/
def Tells (watched : Watched L) : Prop := watched.node.pendingConfigIndex ≠ 0 ↔ watched.outstanding = true

variable {watched : Watched L} {input : Input}

theorem Tells.lowers (tells : watched.Tells) (lowers : Lowers watched.node (watched.node.step input))
    (stores : watched.node.storesChange input = false) : (watched.step input).Tells := by
  obtain ⟨entries, applied, pending⟩ := lowers
  have handed : watched.node.appliesChange input = entries.any (·.isConfigChange) := by
    rw [appliesChange, applied, drop_left]
  rw [Tells, step, stores, handed, Bool.or_false, pending]
  cases entries.any (·.isConfigChange) with
  | false => simpa [Tells] using tells
  | true => simp

/-- The one unapplied change in the log is the outstanding one; without an outstanding one there is none. -/
def HoldsOwnChange (watched : Watched L) : Prop :=
  if watched.outstanding then ∃! index, watched.node.UnappliedChange index
  else ∀ index, ¬watched.node.UnappliedChange index

theorem HoldsOwnChange.fenceAgrees (holds : watched.HoldsOwnChange) (tells : watched.Tells) :
    watched.node.FenceAgrees := by
  unfold HoldsOwnChange at holds
  split at holds
  next outstanding =>
    obtain ⟨index, change, only⟩ := holds
    refine ⟨fun _ => ⟨index, change⟩, fun lowered => absurd lowered (tells.mpr outstanding), ?_⟩
    intro first second left right
    rw [only first left, only second right]
  next settled =>
    exact ⟨fun raised => absurd (tells.mp raised) settled, fun _ => holds, fun first _ left => absurd left (holds first)⟩

/-- Requests are numbered, a leader gets no snapshot of its own term, everything applied is still in the log
when a change is proposed, and whoever wins an election has no unapplied change but its own outstanding one. -/
def CarriesChange (watched : Watched L) : Input → Prop
  | .appendEntries request => Numbered request.prevLogIndex request.entries
  | .installSnapshot _ request => watched.node.state = .leader → request.term ≠ watched.node.currentTerm
  | .requestVoteResponse _ _ response => watched.node.Wins response → watched.HoldsOwnChange
  | .propose command => command.isConfigChange = true → watched.node.lastApplied ≤ watched.node.lastLogIndex
  | _ => True

end Watched

/-!
## Lawful logs
-/

section Lawful

variable [LawfulRaftLog L]

open LawfulRaftLog

/-- Everything committed and everything compacted is applied. -/
structure Settled (node : RaftNode L) : Prop where
  committed : node.commitIndex ≤ node.lastApplied
  compacted : (view node.log).snapshotIndex ≤ node.lastApplied

variable {before after : RaftNode L}

theorem Idle.settled (idle : Idle before after) (settled : before.Settled) : after.Settled where
  committed := by
    rw [idle.commitIndex, idle.lastApplied]
    exact settled.committed
  compacted := by
    rw [idle.lastApplied, idle.log]
    exact settled.compacted

theorem commit_settled (node : RaftNode L) (index : Int) (upper : index ≤ (view node.log).lastIndex)
    (compacted : (view node.log).snapshotIndex ≤ node.lastApplied) :
    ({ node with commitIndex := index }.applyCommitted).Settled ∧
      (node.FenceAgrees → ({ node with commitIndex := index }.applyCommitted).FenceAgrees) := by
  obtain ⟨entries, applied, reached⟩ :=
    { node with commitIndex := index }.applyCommitted_complete compacted upper
  have applies := applyCommitted_applies { node with commitIndex := index }
  have log : { node with commitIndex := index }.applyCommitted.log = node.log := applies.log
  have commit : { node with commitIndex := index }.applyCommitted.commitIndex = index :=
    applies.commitIndex
  have last : { node with commitIndex := index }.applyCommitted.lastApplied = max node.lastApplied index := reached
  refine ⟨⟨by omega, by rw [log]; omega⟩, fun agrees => ?_⟩
  refine applied.fenceAgrees log ?_ (agrees.congr rfl (fun _ => Iff.rfl))
  intro entry member
  obtain ⟨start, stop, lower, range, below, read⟩ := applied.stored entry member
  dsimp only at lower below read ⊢
  rw [getEntries_eq node.log start stop (by simp only [LogView.firstIndex]; omega) (by omega) (by omega)] at read
  rw [entryAt_eq]
  exact ((view node.log).mem_getEntries read).2.2

theorem advanceCommitIndex_settled (node : RaftNode L) (settled : node.Settled) :
    node.advanceCommitIndex.Settled ∧ (node.FenceAgrees → node.advanceCommitIndex.FenceAgrees) := by
  rcases advanceCommitIndex_cases node with same | ⟨index, commits, shape⟩
  · rw [same]
    exact ⟨settled, id⟩
  · rw [shape]
    have upper := commits.below
    rw [lastLogIndex, lastIndex_eq] at upper
    exact commit_settled node index upper settled.compacted

section

variable {request : AppendEntriesRequest} (log : L) (contiguous : Numbered request.prevLogIndex request.entries)

include contiguous

theorem snapshotIndex_appendEntriesToLog :
    (view (appendEntriesToLog log request).1).snapshotIndex = (view log).snapshotIndex := by
  by_cases empty : request.entries = []
  · simp [appendEntriesToLog, empty]
  · cases matched : prevLogConflict log request with
    | some conflict =>
      unfold appendEntriesToLog
      split
      · rfl
      · rw [matched]
    | none =>
      by_cases above : (view log).snapshotIndex ≤ request.prevLogIndex
      · exact (appendEntriesToLog_stores log empty contiguous matched above).2.1
      · exact (appendEntriesToLog_compacted log empty contiguous matched (by omega)).1

theorem lastNew_le_lastIndex (stored : (appendEntriesToLog log request).2 = none) :
    lastNew request ≤ (view (appendEntriesToLog log request).1).lastIndex := by
  have matched := appendEntriesToLog_conflict stored
  rw [lastNew_eq contiguous]
  by_cases empty : request.entries = []
  · have same : (appendEntriesToLog log request).1 = log := by simp [appendEntriesToLog, empty]
    have nonneg := (view log).lastIndex_nonneg
    rw [same, empty]
    unfold prevLogConflict at matched
    rw [lastIndex_eq] at matched
    simp only [length_nil]
    split at matched
    · split at matched
      · cases matched
      · omega
    · omega
  · by_cases above : (view log).snapshotIndex ≤ request.prevLogIndex
    · rw [← lastIndex_eq, lastIndex_appendEntriesToLog log empty contiguous matched above]
    · rw [(appendEntriesToLog_compacted log empty contiguous matched (by omega)).2.2] at stored
      cases stored

end

section

variable (node : RaftNode L) (request : AppendEntriesRequest)
  (contiguous : Numbered request.prevLogIndex request.entries) (settled : node.Settled)
include node request contiguous settled

theorem stored_settled : Settled { node.adopt request.term with
      leaderId := request.leaderId
      log := (appendEntriesToLog node.log request).1 } where
  committed := by
    simp only [adopt_commitIndex, adopt_lastApplied]
    exact settled.committed
  compacted := by
    simp only [adopt_lastApplied, snapshotIndex_appendEntriesToLog node.log contiguous]
    exact settled.compacted

theorem handleAppendEntries_settled : (node.handleAppendEntries request).1.Settled := by
  have reached := stored_settled node request contiguous settled
  generalize reply : node.handleAppendEntries request = result
  have outcome := node.handleAppendEntries_outcome request
  rw [reply] at outcome
  cases outcome with
  | stale => exact settled
  | rival => exact ⟨settled.committed, settled.compacted⟩
  | refused => exact reached
  | accepted _ _ stored =>
    unfold advanceFollowerCommit
    split
    · refine (commit_settled _ _ ?_ reached.compacted).1
      exact (min_le_right _ _).trans (lastNew_le_lastIndex node.log contiguous stored)
    · exact reached

end

omit [LawfulRaftLog L] in
theorem advanceFollowerCommit_state (node : RaftNode L) (request : AppendEntriesRequest)
    (leads : (node.advanceFollowerCommit request).state = .leader) : node.state = .leader := by
  unfold advanceFollowerCommit at leads
  split at leads
  · rcases (applyCommitted_applies { node with
      commitIndex := min request.leaderCommit (lastNew request) }).role with stepped | ⟨same, _⟩
    · rw [stepped] at leads
      cases leads
    · exact same ▸ leads
  · exact leads

omit [LawfulRaftLog L] in
theorem handleAppendEntries_fenceAgrees (node : RaftNode L) (request : AppendEntriesRequest)
    (leads : (node.handleAppendEntries request).1.state = .leader) :
    node.state = .leader ∧ (node.FenceAgrees → (node.handleAppendEntries request).1.FenceAgrees) := by
  revert leads
  generalize reply : node.handleAppendEntries request = result
  have outcome := node.handleAppendEntries_outcome request
  rw [reply] at outcome
  cases outcome with
  | stale => exact fun leads => ⟨leads, id⟩
  | rival _ leads =>
    exact fun _ => ⟨leads, Idle.fenceAgrees ⟨⟨rfl, rfl, rfl, rfl, rfl, rfl⟩, rfl, rfl⟩⟩
  | refused _ _ follows => exact fun leads => absurd leads follows
  | accepted _ follows =>
    exact fun leads => absurd (advanceFollowerCommit_state _ request leads) follows

section

variable (compacts : Compacts before after)

include compacts

theorem Compacts.log_view : (view after.log).snapshotIndex ≤ before.commitIndex ∧
      (view after.log).lastIndex = (view before.log).lastIndex ∧
      ∀ index, before.commitIndex < index → (view after.log).entryAt index = (view before.log).entryAt index := by
  obtain ⟨snapshot, included, log⟩ := compacts.log
  have above := compacts.above
  rw [firstIndex_eq, LogView.firstIndex] at above
  have nonneg := (view before.log).snapshotIndex_nonneg
  have upper : before.commitIndex ≤ (view before.log).lastIndex := by
    rcases compacts.present with present | low
    · rw [termAt_eq, LogView.termAt, if_neg (by omega)] at present
      cases found : (view before.log).entryAt before.commitIndex with
      | none => simp [found] at present
      | some entry => exact ((view before.log).entryAt_bounds found).2.1
    · omega
  obtain ⟨cutSnapshot, cutEntries⟩ := truncatePrefix_eq before.log before.commitIndex (by omega)
  obtain ⟨dropSnapshot, dropEntries⟩ := (view before.log).truncatePrefix_drop
    (show (view before.log).snapshotIndex < before.commitIndex by omega)
  obtain ⟨newSnapshot, newEntries⟩ :=
    applySnapshot_eq (truncatePrefix before.log before.commitIndex) snapshot
  rw [dropSnapshot] at cutSnapshot
  rw [dropEntries] at cutEntries
  have cutLast := LogView.lastIndex_of_drop (show (view before.log).snapshotIndex ≤
    before.commitIndex - 1 by omega) (by omega) cutSnapshot cutEntries
  have cutEntry : ∀ index, before.commitIndex < index →
      (view (truncatePrefix before.log before.commitIndex)).entryAt index =
        (view before.log).entryAt index := fun index beyond =>
    LogView.entryAt_of_drop (by omega) cutSnapshot cutEntries (by omega)
  rw [log]
  rcases (view (truncatePrefix before.log before.commitIndex)).applySnapshot_drop snapshot with
    ⟨sameSnapshot, sameEntries⟩ | ⟨lower, moved, dropped⟩
  · rw [sameSnapshot] at newSnapshot
    rw [sameEntries] at newEntries
    refine ⟨by omega, (LogView.lastIndex_congr newSnapshot newEntries).trans cutLast, ?_⟩
    intro index beyond
    exact (LogView.entryAt_congr newSnapshot newEntries index).trans (cutEntry index beyond)
  · rw [moved] at newSnapshot
    rw [dropped] at newEntries
    rw [included] at lower newSnapshot newEntries
    refine ⟨newSnapshot.le, (LogView.lastIndex_of_drop lower (by omega) newSnapshot newEntries).trans cutLast, ?_⟩
    intro index beyond
    exact (LogView.entryAt_of_drop lower newSnapshot newEntries beyond).trans (cutEntry index beyond)

theorem Compacts.settled (settled : before.Settled) : after.Settled where
  committed := by
    rw [compacts.commitIndex, compacts.lastApplied]
    exact settled.committed
  compacted := by
    rw [compacts.lastApplied]
    exact compacts.log_view.1.trans settled.committed

theorem Compacts.fenceAgrees
    (settled : before.Settled) (agrees : before.FenceAgrees) : after.FenceAgrees := by
  obtain ⟨_, _, kept⟩ := compacts.log_view
  have committed := settled.committed
  refine agrees.congr compacts.pendingConfigIndex ?_
  intro index
  rw [UnappliedChange, UnappliedChange, compacts.lastApplied]
  refine and_congr_right (fun above => ?_)
  rw [entryAt_eq, entryAt_eq, kept index (by omega)]

end

theorem appended_changes {prevTerm : Int} {entry : LogEntry} (index : entry.index = lastIndex before.log + 1)
    (term : lastIndex before.log = 0 ∨ prevTerm = termAt before.log (lastIndex before.log))
    (log : after.log = (append before.log (lastIndex before.log) prevTerm [entry]).1)
    (lastApplied : after.lastApplied = before.lastApplied)
    (within : entry.isConfigChange = true → before.lastApplied ≤ before.lastLogIndex) (position : Int) :
    after.UnappliedChange position ↔
      before.UnappliedChange position ∨ entry.isConfigChange = true ∧ position = entry.index := by
  have found := entryAt_append_last before.log index term
  rw [UnappliedChange, lastApplied, log]
  constructor
  · rintro ⟨above, stored, read, change⟩
    rcases (found position stored).mp read with old | ⟨rfl, same⟩
    · exact .inl ⟨above, stored, old, change⟩
    · exact .inr ⟨change, same⟩
  · rintro (⟨above, stored, read, change⟩ | ⟨change, rfl⟩)
    · exact ⟨above, stored, (found position stored).mpr (.inl read), change⟩
    · have inside : before.lastApplied ≤ lastIndex before.log := within change
      exact ⟨by omega, entry, (found _ entry).mpr (.inr ⟨rfl, rfl⟩), change⟩

theorem appended_fenceAgrees {prevTerm : Int} {entry : LogEntry}
    (agrees : before.FenceAgrees) (index : entry.index = lastIndex before.log + 1)
    (term : lastIndex before.log = 0 ∨ prevTerm = termAt before.log (lastIndex before.log))
    (log : after.log = (append before.log (lastIndex before.log) prevTerm [entry]).1)
    (lastApplied : after.lastApplied = before.lastApplied)
    (within : entry.isConfigChange = true → before.lastApplied ≤ before.lastLogIndex)
    (free : entry.isConfigChange = true → before.pendingConfigIndex = 0)
    (pending : after.pendingConfigIndex =
      if entry.isConfigChange then entry.index else before.pendingConfigIndex) : after.FenceAgrees := by
  have changes := appended_changes index term log lastApplied within
  have nonneg := (view before.log).lastIndex_nonneg
  rw [← lastIndex_eq] at nonneg
  by_cases change : entry.isConfigChange = true
  · rw [if_pos change] at pending
    have none := agrees.lowered (free change)
    have only : ∀ position, after.UnappliedChange position ↔ position = entry.index := by
      intro position
      rw [changes position]
      exact ⟨fun either => either.elim (fun old => absurd old (none position)) (·.2),
        fun same => .inr ⟨change, same⟩⟩
    refine ⟨fun _ => ⟨entry.index, (only _).mpr rfl⟩, fun lowered => ?_, ?_⟩
    · omega
    · intro first second left right
      rw [(only first).mp left, (only second).mp right]
  · rw [if_neg change] at pending
    refine agrees.congr pending (fun position => ?_)
    rw [changes position]
    exact ⟨fun either => either.elim id (fun new => absurd new.1 change), .inl⟩

theorem appended_settled {prevTerm : Int} {entry : LogEntry}
    (settled : before.Settled) (index : entry.index = lastIndex before.log + 1)
    (term : lastIndex before.log = 0 ∨ prevTerm = termAt before.log (lastIndex before.log))
    (log : after.log = (append before.log (lastIndex before.log) prevTerm [entry]).1)
    (commit : after.commitIndex = before.commitIndex)
    (lastApplied : after.lastApplied = before.lastApplied) : after.Settled where
  committed := by
    rw [commit, lastApplied]
    exact settled.committed
  compacted := by
    rw [lastApplied, log, (append_last before.log index term).2.1]
    exact settled.compacted

variable {command : RaftCommand}

section

variable (proposes : Proposes before after command)

include proposes

theorem Proposes.term : ∃ prevTerm, (lastIndex before.log = 0 ∨
        prevTerm = termAt before.log (lastIndex before.log)) ∧
      after.log = (append before.log (lastIndex before.log) prevTerm
        [{ term := before.currentTerm, index := before.lastLogIndex + 1, command := command }]).1 ∧
      after.pendingConfigIndex =
        if command.isConfigChange then before.lastLogIndex + 1 else before.pendingConfigIndex := by
  obtain ⟨prevTerm, pending, term, rfl, fence⟩ := proposes.appends
  have nonneg := (view before.log).lastIndex_nonneg
  rw [← lastIndex_eq] at nonneg
  have term : lastIndex before.log = 0 ∨
      prevTerm = termAt before.log (lastIndex before.log) := by
    rcases term with zero | same | negative
    · exact .inl zero
    · exact .inr same
    · exact absurd negative (by rw [lastLogIndex]; omega)
  refine ⟨prevTerm, term, rfl, fence ?_⟩
  have returned := (@append_last L _ _ before.log prevTerm
    { term := before.currentTerm, index := before.lastLogIndex + 1, command := command } rfl term).1
  intro failed
  have zero := returned.symm.trans failed
  simp only [kNoLogIndex] at zero
  omega

theorem Proposes.fenceAgrees (agrees : before.FenceAgrees)
    (within : command.isConfigChange = true → before.lastApplied ≤ before.lastLogIndex) : after.FenceAgrees := by
  obtain ⟨prevTerm, term, log, pending⟩ := proposes.term
  exact appended_fenceAgrees agrees rfl term log proposes.steady.lastApplied within proposes.unfenced pending

theorem Proposes.settled (settled : before.Settled) : after.Settled := by
  obtain ⟨prevTerm, term, log, _⟩ := proposes.term
  exact appended_settled settled rfl term log proposes.steady.commitIndex proposes.steady.lastApplied

end

variable (env : Env)

theorem becomeLeader_settled (node : RaftNode L) (settled : node.Settled) :
    (node.becomeLeader env).Settled ∧
      (node.FenceAgrees → (node.becomeLeader env).state = .leader → (node.becomeLeader env).FenceAgrees) := by
  have office : node.elected.Settled :=
    appended_settled settled rfl (.inr rfl) rfl rfl rfl
  rcases becomeLeader_cases env node with ⟨_, shape⟩ | ⟨_, shape⟩ | ⟨_, sends⟩
  · rw [shape]
    exact ⟨(Idle.becomeFollower node node.currentTerm).settled settled, fun _ leads => by simp at leads⟩
  · rw [shape]
    exact ⟨(Idle.becomeFollower _ _).settled office, fun _ leads => by simp at leads⟩
  · refine ⟨sends.idle.settled office, fun agrees _ => sends.idle.fenceAgrees ?_⟩
    exact appended_fenceAgrees agrees rfl (.inr rfl) rfl rfl nofun nofun rfl

omit [RaftLog L] [LawfulRaftLog L] in
theorem chunkReceived_state (node : RaftNode L) (request : InstallSnapshotRequest) :
    (node.chunkReceived request).1.state = (node.adopt request.term).state := by
  unfold chunkReceived receiveChunk
  dsimp only
  repeat' split
  all_goals rfl

omit [LawfulRaftLog L] in
theorem handleInstallSnapshot_leader (node : RaftNode L) (request : InstallSnapshotRequest)
    (leads : (node.handleInstallSnapshot env request).1.state = .leader) :
    node.state = .leader ∧ ((node.handleInstallSnapshot env request).1 = node ∨ request.term = node.currentTerm) := by
  rw [handleInstallSnapshot_eq] at leads ⊢
  split at leads
  next stale =>
    rw [if_pos stale]
    exact ⟨leads, .inl rfl⟩
  next current =>
    have state : (node.adopt request.term).state = .leader := by
      rw [← chunkReceived_state node request]
      split at leads
      · unfold installReceivedSnapshot at leads
        dsimp only at leads
        split at leads <;> exact leads
      · exact leads
    rcases adopt_cases node request.term with ⟨_, shape⟩ | ⟨lower, shape⟩
    · simp [shape] at state
    · exact ⟨shape ▸ state, .inr (by omega)⟩

theorem handleInstallSnapshot_settled (node : RaftNode L)
    (request : InstallSnapshotRequest) (settled : node.Settled) :
    (node.handleInstallSnapshot env request).1.Settled := by
  have committed := settled.committed
  have compacted := settled.compacted
  rcases handleInstallSnapshot_cases env node request with
    ⟨steady, log⟩ | ⟨snapshot, log, commit, last, _⟩
  · refine ⟨?_, ?_⟩
    · rw [steady.commitIndex, steady.lastApplied]
      exact committed
    · rw [steady.lastApplied, log]
      exact compacted
  · refine ⟨?_, ?_⟩
    · rw [commit, last]
      omega
    · rw [last, log, (applySnapshot_eq node.log snapshot).1]
      rcases (view node.log).applySnapshot_drop snapshot with ⟨same, _⟩ | ⟨_, moved, _⟩
      · omega
      · omega

section

variable (node : RaftNode L) (sender : RaftNodeId)

theorem handleAppendEntriesResponse_settled
    (response : AppendEntriesResponse) (settled : node.Settled) :
    (node.handleAppendEntriesResponse env sender response).Settled ∧
      ((node.handleAppendEntriesResponse env sender response).state = .leader →
        node.state = .leader ∧
          (node.FenceAgrees → (node.handleAppendEntriesResponse env sender response).FenceAgrees)) := by
  generalize result : node.handleAppendEntriesResponse env sender response = after
  have outcome := handleAppendEntriesResponse_outcome env node sender response
  rw [result] at outcome
  have tracked : ∀ replication, Idle node { node with replication := replication } :=
    fun _ => ⟨⟨rfl, rfl, rfl, rfl, rfl, rfl⟩, rfl, rfl⟩
  cases outcome with
  | ignored => exact ⟨settled, fun leads => ⟨leads, id⟩⟩
  | deposed =>
    exact ⟨(Idle.becomeFollower node response.term).settled settled, fun leads => by simp at leads⟩
  | advanced _ replication leads =>
    obtain ⟨reached, fence⟩ := advanceCommitIndex_settled _ ((tracked replication).settled settled)
    exact ⟨reached, fun _ => ⟨leads, fun agrees => fence ((tracked replication).fenceAgrees agrees)⟩⟩
  | retried _ replication _ leads _ _ _ sent =>
    have idle := (tracked replication).trans sent.idle
    exact ⟨idle.settled settled, fun _ => ⟨leads, idle.fenceAgrees⟩⟩

theorem handleInstallSnapshotResponse_settled (response : InstallSnapshotResponse) (settled : node.Settled) :
    (node.handleInstallSnapshotResponse env sender response).Settled ∧
      ((node.handleInstallSnapshotResponse env sender response).state = .leader →
        node.state = .leader ∧
          (node.FenceAgrees → (node.handleInstallSnapshotResponse env sender response).FenceAgrees)) := by
  have tracked : ∀ replication, Idle node { node with replication := replication } :=
    fun _ => ⟨⟨rfl, rfl, rfl, rfl, rfl, rfl⟩, rfl, rfl⟩
  rcases handleInstallSnapshotResponse_cases env node sender response with
    same | deposed | ⟨leads, replication, recorded | advanced | sent⟩
  · rw [same]
    exact ⟨settled, fun leads => ⟨leads, id⟩⟩
  · rw [deposed]
    exact ⟨(Idle.becomeFollower node response.term).settled settled, fun leads => by simp at leads⟩
  · rw [recorded]
    exact ⟨(tracked replication).settled settled, fun _ => ⟨leads, (tracked replication).fenceAgrees⟩⟩
  · rw [advanced]
    obtain ⟨reached, fence⟩ := advanceCommitIndex_settled _ ((tracked replication).settled settled)
    exact ⟨reached, fun _ => ⟨leads, fun agrees => fence ((tracked replication).fenceAgrees agrees)⟩⟩
  · have idle := (tracked replication).trans sent.idle
    exact ⟨idle.settled settled, fun _ => ⟨leads, idle.fenceAgrees⟩⟩

end

namespace Watched

variable {watched : Watched L} {input : Input}

theorem Tells.step (tells : watched.Tells) (input : Input) : (watched.step input).Tells := by
  generalize result : watched.node.step input = after
  have outcome := step_outcome watched.node input
  rw [result] at outcome
  cases outcome with
  | idle _ _ idle =>
    exact tells.lowers (result ▸ idle.lowers) (storesChange_of_same (by rw [result, lastLogIndex, idle.log]; rfl))
  | proposed command _ proposes =>
    obtain ⟨prevTerm, term, log, pending⟩ := proposes.term
    have last : after.lastLogIndex = watched.node.lastLogIndex + 1 := by
      rw [lastLogIndex, log]
      exact lastIndex_append_last watched.node.log rfl term
    have nonneg := (view watched.node.log).lastIndex_nonneg
    rw [← lastIndex_eq] at nonneg
    have stores : watched.node.storesChange (.propose command) = command.isConfigChange := by
      rw [storesChange, result, last, decide_eq_true (Int.lt_succ _), Bool.and_true]
    have applies : watched.node.appliesChange (.propose command) = false := by
      rw [appliesChange, result, proposes.steady.applied, drop_length]
      rfl
    rw [Tells, Watched.step, stores, applies, result, pending]
    cases command.isConfigChange with
    | false => simpa [Tells] using tells
    | true =>
      have raised : watched.node.lastLogIndex + 1 ≠ 0 := by
        rw [lastLogIndex]
        omega
      simpa using raised
  | won env _ response =>
    refine tells.lowers ?_ rfl
    rw [result]
    exact (lowers_of_same rfl rfl).trans (becomeLeader_lowers (watched.node.countVote response) env)
  | compacted _ _ compacts =>
    refine tells.lowers (result ▸ lowers_of_same compacts.applied compacts.pendingConfigIndex) ?_
    refine storesChange_of_same ?_
    rw [result, lastLogIndex, lastIndex_eq, compacts.log_view.2.1, ← lastIndex_eq]
    rfl
  | appendEntries request => exact tells.lowers (handleAppendEntries_lowers _ request) rfl
  | installSnapshot env request => exact tells.lowers (handleInstallSnapshot_lowers _ env request) rfl
  | appendEntriesResponse env sender response =>
    exact tells.lowers (handleAppendEntriesResponse_lowers _ env sender response) rfl
  | installSnapshotResponse env sender response =>
    exact tells.lowers (handleInstallSnapshotResponse_lowers _ env sender response) rfl

/-- What holds all through such a run. -/
structure Kept (watched : Watched L) : Prop where
  settled : watched.node.Settled
  tells : watched.Tells
  agrees : watched.node.state = .leader → watched.node.FenceAgrees

theorem Kept.step (kept : watched.Kept) (input : Input) (carries : watched.CarriesChange input) :
    (watched.step input).Kept := by
  obtain ⟨settled, tells, fenced⟩ := kept
  suffices reached : (watched.node.step input).Settled ∧
      ((watched.node.step input).state = .leader → (watched.node.step input).FenceAgrees) from
    ⟨reached.1, tells.step input, reached.2⟩
  generalize result : watched.node.step input = after
  have outcome := step_outcome watched.node input
  rw [result] at outcome
  cases outcome with
  | idle _ _ idle leads =>
    exact ⟨idle.settled settled, fun office => idle.fenceAgrees (fenced (leads office))⟩
  | proposed _ _ proposes =>
    exact ⟨proposes.settled settled, fun _ => proposes.fenceAgrees (fenced proposes.leads) carries⟩
  | won env _ response wins =>
    have counted : Idle watched.node (watched.node.countVote response) :=
      ⟨⟨rfl, rfl, rfl, rfl, rfl, rfl⟩, rfl, rfl⟩
    obtain ⟨reached, office⟩ := becomeLeader_settled env _ (counted.settled settled)
    exact ⟨reached, office (counted.fenceAgrees ((carries wins).fenceAgrees tells))⟩
  | compacted _ _ compacts =>
    refine ⟨compacts.settled settled, fun leads => compacts.fenceAgrees settled (fenced ?_)⟩
    exact compacts.state ▸ leads
  | appendEntries request =>
    refine ⟨handleAppendEntries_settled _ request carries settled, fun leads => ?_⟩
    obtain ⟨led, kept⟩ := handleAppendEntries_fenceAgrees _ request leads
    exact kept (fenced led)
  | installSnapshot env request =>
    refine ⟨handleInstallSnapshot_settled env _ request settled, fun leads => ?_⟩
    obtain ⟨led, same | own⟩ := handleInstallSnapshot_leader env _ request leads
    · rw [same]
      exact fenced led
    · exact absurd own (carries led)
  | appendEntriesResponse env sender response =>
    obtain ⟨reached, kept⟩ := handleAppendEntriesResponse_settled env _ sender response settled
    exact ⟨reached, fun leads => (kept leads).2 (fenced (kept leads).1)⟩
  | installSnapshotResponse env sender response =>
    obtain ⟨reached, kept⟩ := handleInstallSnapshotResponse_settled env _ sender response settled
    exact ⟨reached, fun leads => (kept leads).2 (fenced (kept leads).1)⟩

end Watched

/-- In every run whose election winners hold no unapplied change but their own outstanding one, the fence
of a leader is up exactly while an unapplied change is in its log; a change is admitted only without one and
refused as pending only with one. -/
theorem config_fence_of_carried (nodeId : RaftNodeId) (config : RaftConfig) (log : L) (members : List RaftNodeId)
    (inputs : List Input) (uncompacted : (view log).snapshotIndex = 0)
    (carried : Runs.Meets Watched.step Watched.CarriesChange { node := start nodeId config log members } inputs)
    (leads : ((start nodeId config log members).run inputs).state = .leader) :
    (((start nodeId config log members).run inputs).pendingConfigIndex ≠ 0 ↔
      ∃ index, ((start nodeId config log members).run inputs).UnappliedChange index) ∧
    ∀ command, command.isConfigChange = true →
      (∀ index, (((start nodeId config log members).run inputs).propose command).2 = .ok index →
        ¬∃ index, ((start nodeId config log members).run inputs).UnappliedChange index) ∧
      (∀ error, (((start nodeId config log members).run inputs).propose command).2 = .error error →
        error.code = .reassignmentInProgress →
        ∃ index, ((start nodeId config log members).run inputs).UnappliedChange index) := by
  have invariant := carried.preserves Watched.Kept (fun watched input carries kept => kept.step input carries)
    ⟨⟨le_refl _, uncompacted.le⟩, ⟨fun raised => absurd rfl raised, fun outstanding => by cases outstanding⟩,
      fun office => by simp [start] at office⟩
  have agrees := invariant.agrees
  rw [Watched.node_run] at agrees
  have agrees := agrees leads
  generalize (start nodeId config log members).run inputs = node at leads agrees
  have fence : node.pendingConfigIndex ≠ 0 ↔ ∃ index, node.UnappliedChange index := by
    refine ⟨agrees.raised, ?_⟩
    rintro ⟨index, change⟩ lowered
    exact agrees.lowered lowered index change
  refine ⟨fence, fun command change => ⟨?_, ?_⟩⟩
  · intro index admitted
    rw [← fence]
    exact fun raised => raised (propose_admits admitted change)
  · intro error refused code
    rw [← fence]
    exact propose_refuses refused code

end Lawful

/-- A leader proposes a change, is deposed while it is outstanding, and wins the next term with it. -/
def changeOfTwoTerms : List Input :=
  [.electionTimeout, .requestVoteResponse {} 2 { term := 1, voteGranted := true },
    .propose (.configChange { newMembers := [1, 2] }), .stepDown, .electionTimeout,
    .requestVoteResponse {} 3 { term := 2, voteGranted := true }]

theorem UnappliedChange.exists_mem {node : RaftNode LogView} {index : Int} (change : node.UnappliedChange index) :
    ∃ entry ∈ node.log.entries, entry.index = index ∧ entry.isConfigChange = true := by
  obtain ⟨_, entry, found, change⟩ := change
  obtain ⟨_, stored⟩ := (node.log.entryAt_eq_some_iff index entry).mp found
  exact ⟨entry, mem_of_getElem? stored, (node.log.entryAt_bounds found).2.2, change⟩

theorem config_fence_two_terms :
    ((start 1 { enablePreVote := false } LogView.empty [1, 2, 3]).run changeOfTwoTerms).state = .leader ∧
      (((start 1 { enablePreVote := false } LogView.empty [1, 2, 3]).run changeOfTwoTerms).pendingConfigIndex ≠ 0 ↔
        ∃ index, ((start 1 { enablePreVote := false } LogView.empty [1, 2, 3]).run
          changeOfTwoTerms).UnappliedChange index) := by
  let begun : Watched LogView := { node := start 1 { enablePreVote := false } LogView.empty [1, 2, 3] }
  have first : (Runs.run Watched.step begun (changeOfTwoTerms.take 1)).HoldsOwnChange := by
    rw [Watched.HoldsOwnChange, if_neg (by decide +kernel)]
    intro index change
    obtain ⟨entry, member, -⟩ := change.exists_mem
    exact absurd member not_mem_nil
  have second : (Runs.run Watched.step begun (changeOfTwoTerms.take 5)).HoldsOwnChange := by
    rw [Watched.HoldsOwnChange, if_pos (by decide +kernel)]
    refine ⟨2, ⟨by decide +kernel, { term := 1, index := 2, command := .configChange { newMembers := [1, 2] } },
      by decide +kernel, rfl⟩, ?_⟩
    intro index change
    obtain ⟨entry, member, rfl, isChange⟩ := change.exists_mem
    have only : ∀ entry ∈ (Runs.run Watched.step begun (changeOfTwoTerms.take 5)).node.log.entries,
        entry.isConfigChange = true → entry.index = 2 := by decide +kernel
    exact only entry member isChange
  have carried : Runs.Meets Watched.step Watched.CarriesChange begun changeOfTwoTerms :=
    ⟨trivial, fun _ => first, fun _ => by decide +kernel, trivial, trivial, fun _ => second, trivial⟩
  exact ⟨by decide +kernel, (config_fence_of_carried 1 { enablePreVote := false } LogView.empty
    [1, 2, 3] changeOfTwoTerms rfl carried (by decide +kernel)).1⟩

/-- A follower that stored a change of the old leader takes office with the
fence down, and admits a second change beside it. -/
theorem config_fence_missing_after_election :
    ∃ node : RaftNode LogView,
      node = (start 1 { enablePreVote := false } LogView.empty [1, 2, 3]).run
        [.appendEntries {
            term := 1
            leaderId := 2
            entries := [{ term := 1, index := 1 },
              { term := 1, index := 2, command := .configChange { newMembers := [1, 2] } }] },
          .electionTimeout, .requestVoteResponse {} 3 { term := 2, voteGranted := true }] ∧
      node.state = .leader ∧
      ¬(node.pendingConfigIndex ≠ 0 ↔ ∃ index, node.UnappliedChange index) ∧
      (node.propose (.configChange { newMembers := [1, 3] })).2 = .ok 4 := by
  refine ⟨_, rfl, by decide +kernel, ?_, by decide +kernel⟩
  intro fence
  refine absurd (fence.mpr ⟨2, by decide +kernel,
    { term := 1, index := 2, command := .configChange { newMembers := [1, 2] } },
    by decide +kernel, rfl⟩) ?_
  decide +kernel

end RaftNode

end TorrentMq.Consensus
