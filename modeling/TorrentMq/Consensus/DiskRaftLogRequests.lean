import TorrentMq.Consensus.DiskRaftLogStorage
import TorrentMq.Consensus.RaftNode

/-! What an append request leaves in the log on disk. The node names the last
entry it keeps when it cuts the log, and the log takes it for the first one to
remove. -/

set_option autoImplicit false

namespace TorrentMq.Consensus

open Bytes OrderedMap RaftNode

namespace DiskRaftLog

variable {previous : Int}

theorem find?_index_of_numbered {entries : List LogEntry} (numbered : Numbered previous entries)
    {entry : LogEntry} (member : entry ∈ entries) :
    (entries.find? fun other => decide (other.index = entry.index)) = some entry := by
  cases found : entries.find? fun other => decide (other.index = entry.index) with
  | none => exact absurd (decide_eq_true rfl) (List.find?_eq_none.mp found entry member)
  | some other =>
    have same : other.index = entry.index := by simpa using List.find?_some found
    rw [Numbered.eq_of_index_eq numbered (List.mem_of_find?_eq_some found) member same]

variable {index : Int}

theorem termAt_congr {log after : DiskRaftLog} (snapshot : after.snapshot = log.snapshot)
    (found : after.index.find? index = log.index.find? index) : after.termAt index = log.termAt index := by
  simp only [termAt, snapshot, found]

theorem entryAt_congr {log after : DiskRaftLog} (backed : Backed log.index log.files.data)
    (found : after.index.find? index = log.index.find? index)
    (kept : ∀ indexed ∈ log.index.entries, indexed.1 = index → ∀ batch,
      FrameAt log.files.data indexed batch → FrameAt after.files.data indexed batch) :
    after.entryAt index = log.entryAt index := by
  unfold entryAt
  rw [found]
  cases stored : log.index.find? index with
  | none => rfl
  | some indexed =>
    have member := find?_eq_some_iff.mp stored
    obtain ⟨batch, before⟩ := backed.frames _ member
    have later := kept _ member rfl batch before
    dsimp only
    rw [before.readBatch, later.readBatch]

variable {log : DiskRaftLog}

theorem termAt_of_absent (absent : index ∉ log.index.keys) (real : log.termAt index ≠ kNoTerm) :
    log.snapshot.map RaftSnapshot.lastIncludedIndex = some index := by
  have missing := find?_eq_none_iff_not_mem_keys.mpr absent
  unfold termAt at real
  rw [missing] at real
  cases stored : log.snapshot with
  | none => simp [stored] at real
  | some snapshot =>
    rw [stored] at real
    dsimp only at real
    split at real
    next same => rw [Option.map_some, same]
    · exact absurd rfl real

theorem entryAt_of_absent (absent : index ∉ log.index.keys) : log.entryAt index = none := by
  have missing := find?_eq_none_iff_not_mem_keys.mpr absent
  simp only [entryAt, missing]

theorem find?_indexBatch_of_le {index : OrderedMap Int IndexEntry} {offset length : Nat}
    {entries : List LogEntry} (numbered : Numbered previous entries)
    (below : ∀ key ∈ index.keys, key ≤ previous) {key : Int} (old : key ≤ previous) :
    (indexBatch index offset length entries).find? key = index.find? key := by
  have same : ∀ value, (key, value) ∈ (indexBatch index offset length entries).entries ↔
      (key, value) ∈ index.entries := by
    intro value
    rw [indexBatch_entries numbered below, List.mem_append]
    refine or_iff_left fun new => ?_
    obtain ⟨entry, member, same⟩ := List.mem_map.mp new
    have above := (numbered.index_le member).1
    have key : entry.index = key := congrArg Prod.fst same
    omega
  cases found : index.find? key with
  | some value => exact find?_eq_some_iff.mpr ((same value).mpr (find?_eq_some_iff.mp found))
  | none =>
    rw [find?_eq_none_iff] at found ⊢
    rintro ⟨other, value⟩ member rfl
    exact found _ ((same value).mp member) rfl

section Written

variable {log : DiskRaftLog} {previous : Int} {first : LogEntry} {rest : List LogEntry}

theorem writeBatch_old (sound : log.Sound) (numbered : Numbered previous (first :: rest))
    (below : ∀ key ∈ log.index.keys, key ≤ previous) {index : Int} (old : index ≤ previous) :
    (log.writeBatch first rest).termAt index = log.termAt index ∧
      (log.writeBatch first rest).entryAt index = log.entryAt index := by
  have found : (log.writeBatch first rest).index.find? index = log.index.find? index :=
    find?_indexBatch_of_le numbered below old
  exact ⟨termAt_congr rfl found, entryAt_congr sound.backed found fun _ _ _ _ frame => frame.append _⟩

theorem writeBatch_new (sound : log.Sound) (writable : Writable (first :: rest))
    (numbered : Numbered previous (first :: rest)) (below : ∀ key ∈ log.index.keys, key ≤ previous)
    {entry : LogEntry} (member : entry ∈ first :: rest) :
    ((log.writeBatch first rest).termAt entry.index = entry.term ↔
      ∀ snapshot ∈ log.snapshot, entry.index = snapshot.lastIncludedIndex → entry.term = snapshot.lastIncludedTerm) ∧
    ((log.writeBatch first rest).entryAt entry.index = some entry ↔ (first :: rest).length ≤ kMaxBatchEntries) := by
  have found : (log.writeBatch first rest).index.find? entry.index =
      some ⟨entry.index, log.dataFileSize, entry.term, (frame (first :: rest)).length⟩ := by
    rw [find?_eq_some_iff]
    dsimp only [writeBatch]
    rw [indexBatch_entries numbered below]
    exact List.mem_append_right _ (List.mem_map.mpr ⟨entry, member, rfl⟩)
  constructor
  · unfold termAt
    rw [found]
    dsimp only [writeBatch]
    cases log.snapshot with
    | none => simp
    | some snapshot =>
      by_cases same : entry.index = snapshot.lastIncludedIndex
      · simp [same, eq_comm]
      · simp [same]
  · have stored : frame (first :: rest) <+: (log.files.data ++ frame (first :: rest)).drop log.dataFileSize := by
      simp [sound.size]
    unfold entryAt
    rw [found]
    dsimp only [writeBatch]
    rw [readBatch_of_stored writable stored]
    by_cases small : (first :: rest).length ≤ kMaxBatchEntries
    · rw [if_pos small, find?_index_of_numbered numbered member]
      exact ⟨fun _ => small, fun _ => rfl⟩
    · rw [if_neg small]
      exact ⟨nofun, fun within => absurd within small⟩

end Written

def cutForRequest (log : DiskRaftLog) (previous : Int) : DiskRaftLog :=
  if previous + 1 ≤ log.lastIndex then log.truncateSuffix previous else log

theorem truncateSuffixLocked_snapshot (log : DiskRaftLog) (fromIndex : Int) :
    (log.truncateSuffixLocked fromIndex).snapshot = log.snapshot := by
  unfold truncateSuffixLocked
  split <;> rfl

theorem truncateSuffixLocked_lastIndex_le {fromIndex : Int} (nonneg : 0 ≤ fromIndex) :
    (log.truncateSuffixLocked fromIndex).lastIndex ≤ fromIndex := by
  unfold truncateSuffixLocked
  split
  · dsimp only [writeMeta]
    split <;> omega
  · dsimp only [writeMeta]
    omega

theorem find?_truncateSuffixLocked {log : DiskRaftLog} {fromIndex index : Int}
    (inside : log.firstIndex < fromIndex) (upper : index < fromIndex) :
    (log.truncateSuffixLocked fromIndex).index.find? index = log.index.find? index := by
  unfold truncateSuffixLocked
  rw [if_neg (by omega)]
  dsimp only [writeMeta]
  rw [find?_filter, if_pos (by simpa using upper)]

theorem truncateSuffixLocked_old {log : DiskRaftLog} (sound : log.Sound) {fromIndex index : Int}
    (inside : log.firstIndex < fromIndex) (upper : index < fromIndex) :
    (log.truncateSuffixLocked fromIndex).termAt index = log.termAt index ∧
      (log.truncateSuffixLocked fromIndex).entryAt index = log.entryAt index := by
  have found := @find?_truncateSuffixLocked log fromIndex index inside upper
  refine ⟨termAt_congr (truncateSuffixLocked_snapshot log fromIndex) found, entryAt_congr sound.backed found ?_⟩
  intro indexed member same batch stored
  have kept : indexed ∈ (log.index.filter fun key => decide (key < fromIndex)).entries :=
    mem_filter.mpr ⟨member, by simpa [same] using upper⟩
  have data : (log.truncateSuffixLocked fromIndex).files.data =
      ftruncate log.files.data (frontier (log.index.filter fun key => decide (key < fromIndex))) := by
    unfold truncateSuffixLocked
    rw [if_neg (by omega)]
    rfl
  rw [data]
  exact stored.ftruncate ((sound.backed.filter _).end_le_frontier kept)

theorem cutForRequest_spec (sound : log.Sound) (nonneg : 0 ≤ previous) : (log.cutForRequest previous).Sound ∧
      (∀ key ∈ (log.cutForRequest previous).index.keys, key ≤ previous) ∧
      (log.cutForRequest previous).snapshot = log.snapshot ∧
      (log.cutForRequest previous).cutBehind previous = log.cutForRequest previous := by
  unfold cutForRequest
  split
  · obtain ⟨kept, below⟩ := sound.truncateSuffixLocked previous
    refine ⟨kept, fun key member => (below key member).le, truncateSuffixLocked_snapshot log previous, ?_⟩
    exact if_neg (not_lt.mpr (truncateSuffixLocked_lastIndex_le nonneg))
  next behind =>
    refine ⟨sound, fun key member => ?_, rfl, if_neg (by omega)⟩
    have := (sound.bounded key member).2
    omega

theorem cutForRequest_old {log : DiskRaftLog} (sound : log.Sound) {previous : Int} (nonneg : 0 ≤ previous)
    (reached : previous = 0 ∨ log.lastIndex ≤ previous ∨
      (log.cutForRequest previous).termAt previous = log.termAt previous ∧
        (log.firstIndex ≤ previous → log.entryAt previous = none))
    {index : Int} (lower : log.firstIndex ≤ index) (upper : index ≤ previous) :
    (log.cutForRequest previous).termAt index = log.termAt index ∧
      (log.cutForRequest previous).entryAt index = log.entryAt index := by
  unfold cutForRequest at reached ⊢
  split
  next behind =>
    rw [if_pos behind] at reached
    have below := (sound.truncateSuffixLocked previous).2
    by_cases last : index = previous
    · subst last
      have cut : index ∉ (log.truncateSuffix index).index.keys := by
        intro member
        have := below index member
        omega
      rcases reached with zero | short | ⟨term, entry⟩
      · have absent : index ∉ log.index.keys := by
          intro member
          have := (sound.bounded index member).1
          omega
        refine ⟨termAt_congr (truncateSuffixLocked_snapshot log index) ?_, ?_⟩
        · rw [find?_eq_none_iff_not_mem_keys.mpr cut, find?_eq_none_iff_not_mem_keys.mpr absent]
        · rw [entryAt_of_absent cut, entryAt_of_absent absent]
      · omega
      · exact ⟨term, by rw [entryAt_of_absent cut, entry lower]⟩
    · exact truncateSuffixLocked_old sound (by omega) (by omega)
  · exact ⟨rfl, rfl⟩

variable {request : AppendEntriesRequest}

theorem prevLogConflict_eq_none_iff : prevLogConflict log request = none ↔
      (0 < request.prevLogIndex → request.prevLogIndex ≤ log.lastIndex ∧
        log.termAt request.prevLogIndex = request.prevLogTerm) := by
  have last : RaftLog.lastIndex log = log.lastIndex := rfl
  have term : RaftLog.termAt log = log.termAt := rfl
  unfold prevLogConflict
  rw [last, term]
  constructor
  · intro none positive
    rw [if_pos positive] at none
    split at none
    · cases none
    next reached =>
      refine ⟨not_lt.mp reached, ?_⟩
      by_contra differs
      dsimp only at none
      rw [if_pos differs] at none
      split at none <;> cases none
  · intro agrees
    split
    next positive =>
      obtain ⟨reached, same⟩ := agrees positive
      rw [if_neg (not_lt.mpr reached)]
      dsimp only
      rw [if_neg (not_not.mpr same)]
    · rfl

/-- A request the log takes in: the batch is small enough, and the previous
entry is still there after the cut. -/
def Accepts (log : DiskRaftLog) (request : AppendEntriesRequest) : Prop :=
  (serializeBatch request.entries).length ≤ kMaxBatchBytes ∧
    (0 < request.prevLogIndex → request.prevLogIndex ≤ log.lastIndex ∧
      log.termAt request.prevLogIndex = request.prevLogTerm ∧ request.prevLogTerm ≠ kNoTerm ∧
      (log.cutForRequest request.prevLogIndex).termAt request.prevLogIndex = request.prevLogTerm)

variable {first : LogEntry} {rest : List LogEntry}

theorem appendEntriesToLog_spec (sound : log.Sound) (shape : request.entries = first :: rest)
    (contiguous : Numbered request.prevLogIndex request.entries) (nonneg : 0 ≤ request.prevLogIndex) :
    ((appendEntriesToLog log request).2 = none ↔ log.Accepts request) ∧
      (log.Accepts request → (appendEntriesToLog log request).1 =
        (log.cutForRequest request.prevLogIndex).writeBatch first rest) := by
  have front : first.index = request.prevLogIndex + 1 := by
    have number := contiguous 0 first (by rw [shape]; rfl)
    omega
  have last : RaftLog.lastIndex log = log.lastIndex := rfl
  have behind := (cutForRequest_spec sound nonneg).2.2.2
  have cut : (if first.index ≤ RaftLog.lastIndex log then RaftLog.truncateSuffix log (first.index - 1)
      else log) = log.cutForRequest request.prevLogIndex := by
    rw [front, last, Int.add_sub_cancel]
    rfl
  have appended : ∀ entries, entries = first :: rest →
      RaftLog.append (log.cutForRequest request.prevLogIndex) request.prevLogIndex request.prevLogTerm entries =
      (log.cutForRequest request.prevLogIndex).append none request.prevLogIndex request.prevLogTerm
        (first :: rest) := by
    rintro entries rfl
    rfl
  unfold appendEntriesToLog Accepts
  rw [shape]
  dsimp only
  cases checked : prevLogConflict log request with
  | some conflict =>
    have refused := mt prevLogConflict_eq_none_iff.mpr (by rw [checked]; exact Option.some_ne_none conflict)
    dsimp only
    refine ⟨⟨fun same => absurd same (Option.some_ne_none conflict), fun accepts => ?_⟩, fun accepts => ?_⟩
    all_goals exact absurd (fun positive => ⟨(accepts.2 positive).1, (accepts.2 positive).2.1⟩) refused
  | none =>
    have agrees := prevLogConflict_eq_none_iff.mp checked
    dsimp only
    rw [cut, appended _ rfl]
    simp only [append]
    split
    next refused =>
      refine ⟨⟨?_, fun accepts => ?_⟩, fun accepts => ?_⟩
      · rw [if_pos rfl]
        exact fun same => absurd same (Option.some_ne_none _)
      all_goals
        obtain ⟨-, -, real, same⟩ := accepts.2 refused.1
        exact absurd refused.2 (by rw [same]; exact not_or.mpr ⟨real, not_not.mpr rfl⟩)
    next passed =>
      rw [behind]
      split
      next large =>
        refine ⟨⟨?_, fun accepts => absurd accepts.1 (not_le.mpr large)⟩,
          fun accepts => absurd accepts.1 (not_le.mpr large)⟩
        rw [if_pos rfl]
        exact fun same => absurd same (Option.some_ne_none _)
      next fits =>
        have started : ¬first.index = kNoLogIndex := by
          unfold kNoLogIndex
          omega
        rw [if_neg started]
        refine ⟨⟨fun _ => ⟨not_lt.mp fits, fun positive => ?_⟩, fun _ => rfl⟩, fun _ => rfl⟩
        obtain ⟨reached, same⟩ := agrees positive
        have kept := not_or.mp (fun bad => passed ⟨positive, bad⟩)
        have term := not_not.mp kept.2
        exact ⟨reached, same, fun unset => kept.1 (term.trans unset), term⟩

/-- A request is taken over: it is accepted, what the log had up to its
previous entry is unchanged, and its entries are read back at their indices. -/
structure TakesOver (log : DiskRaftLog) (request : AppendEntriesRequest) : Prop where
  accepted : (appendEntriesToLog log request).2 = none
  kept : ∀ index, log.firstIndex ≤ index → index ≤ request.prevLogIndex →
    (appendEntriesToLog log request).1.termAt index = log.termAt index ∧
      (appendEntriesToLog log request).1.entryAt index = log.entryAt index
  added : ∀ entry ∈ request.entries,
    (appendEntriesToLog log request).1.termAt entry.index = entry.term ∧
      (appendEntriesToLog log request).1.entryAt entry.index = some entry

/-- The batch can be written and read back, no snapshot gives one of its
indices another term, and the node's cut does not reach the previous entry:
there is none, or the log ends with it, or only the snapshot stands for it. -/
def Appendable (log : DiskRaftLog) (request : AppendEntriesRequest) : Prop :=
  (serializeBatch request.entries).length ≤ kMaxBatchBytes ∧
    request.entries.length ≤ kMaxBatchEntries ∧
    (∀ entry ∈ request.entries, ∀ snapshot ∈ log.snapshot,
      entry.index = snapshot.lastIncludedIndex → entry.term = snapshot.lastIncludedTerm) ∧
    (request.prevLogIndex = 0 ∨ request.prevLogTerm ≠ kNoTerm ∧
      (request.prevLogIndex = log.lastIndex ∨ request.prevLogIndex < log.lastIndex ∧
        log.snapshot.map RaftSnapshot.lastIncludedIndex = some request.prevLogIndex ∧
        (log.firstIndex ≤ request.prevLogIndex → log.entryAt request.prevLogIndex = none)))

instance (log : DiskRaftLog) (request : AppendEntriesRequest) : Decidable (log.Appendable request) :=
  inferInstanceAs (Decidable (_ ∧ _ ∧ _ ∧ _))

theorem termAt_of_snapshot
    (stands : log.snapshot.map RaftSnapshot.lastIncludedIndex = some index) {after : DiskRaftLog}
    (snapshot : after.snapshot = log.snapshot) : after.termAt index = log.termAt index := by
  obtain ⟨stored, found, same⟩ := Option.map_eq_some_iff.mp stands
  simp only [termAt, snapshot, found, if_pos same.symm]

theorem Appendable.accepts (sound : log.Sound)
    (appendable : log.Appendable request) (nonneg : 0 ≤ request.prevLogIndex)
    (matched : request.prevLogIndex = 0 ∨ log.termAt request.prevLogIndex = request.prevLogTerm) :
    log.Accepts request := by
  obtain ⟨fits, -, -, reached⟩ := appendable
  refine ⟨fits, fun positive => ?_⟩
  have term := matched.resolve_left (by omega)
  obtain ⟨real, last | ⟨inside, stands, -⟩⟩ := reached.resolve_left (by omega)
  · refine ⟨last.le, term, real, ?_⟩
    rw [cutForRequest, if_neg (by omega)]
    exact term
  · refine ⟨inside.le, term, real, ?_⟩
    rw [termAt_of_snapshot stands (cutForRequest_spec sound nonneg).2.2.1]
    exact term

theorem Appendable.takesOver (sound : log.Sound) (appendable : log.Appendable request)
    (shape : request.entries = first :: rest) (contiguous : Numbered request.prevLogIndex request.entries)
    (nonneg : 0 ≤ request.prevLogIndex) (inRange : ∀ entry ∈ request.entries, entry.InRange)
    (matched : request.prevLogIndex = 0 ∨ log.termAt request.prevLogIndex = request.prevLogTerm) :
    log.TakesOver request := by
  have accepts := appendable.accepts sound nonneg matched
  obtain ⟨accepted, written⟩ := appendEntriesToLog_spec sound shape contiguous nonneg
  obtain ⟨cutSound, below, snapshot, -⟩ := cutForRequest_spec sound nonneg
  obtain ⟨fits, small, unshadowed, reached⟩ := appendable
  refine ⟨accepted.mpr accepts, ?_, ?_⟩
  · intro index lower upper
    rw [written accepts]
    rw [shape] at contiguous
    obtain ⟨term, entry⟩ := writeBatch_old cutSound contiguous below upper
    have old := @cutForRequest_old log sound request.prevLogIndex nonneg ?_ index lower upper
    · exact ⟨term.trans old.1, entry.trans old.2⟩
    · rcases reached with zero | ⟨-, last | ⟨-, stands, absent⟩⟩
      · exact .inl zero
      · exact .inr (.inl last.ge)
      · exact .inr (.inr ⟨termAt_of_snapshot stands snapshot, absent⟩)
  · intro entry member
    rw [written accepts]
    have term := unshadowed entry member
    rw [shape] at contiguous member fits small inRange
    obtain ⟨termIff, entryIff⟩ := writeBatch_new cutSound ⟨inRange, fits⟩ contiguous below member
    rw [snapshot] at termIff
    exact ⟨termIff.mpr term, entryIff.mpr small⟩

theorem TakesOver.appendable (sound : log.Sound) (taken : log.TakesOver request)
    (shape : request.entries = first :: rest)
    (contiguous : Numbered request.prevLogIndex request.entries) (nonneg : 0 ≤ request.prevLogIndex)
    (inRange : ∀ entry ∈ request.entries, entry.InRange) : log.Appendable request := by
  obtain ⟨accepted, kept, added⟩ := taken
  obtain ⟨acceptedIff, written⟩ := appendEntriesToLog_spec sound shape contiguous nonneg
  obtain ⟨cutSound, below, snapshot, -⟩ := cutForRequest_spec sound nonneg
  have accepts := acceptedIff.mp accepted
  rw [written accepts] at kept added
  obtain ⟨fits, reached⟩ := accepts
  have member : first ∈ request.entries := by
    rw [shape]
    exact List.mem_cons_self
  rw [shape] at contiguous inRange fits
  refine ⟨by rw [shape]; exact fits, ?_, ?_, ?_⟩
  · have read := (added first member).2
    rw [shape] at member ⊢
    exact (writeBatch_new cutSound ⟨inRange, fits⟩ contiguous below member).2.mp read
  · intro entry member
    have read := (added entry member).1
    rw [shape] at member
    rw [← snapshot]
    exact (writeBatch_new cutSound ⟨inRange, fits⟩ contiguous below member).1.mp read
  · by_cases zero : request.prevLogIndex = 0
    · exact .inl zero
    · obtain ⟨inside, -, real, term⟩ := reached (by omega)
      refine .inr ⟨real, ?_⟩
      by_cases last : request.prevLogIndex = log.lastIndex
      · exact .inl last
      · have cut : request.prevLogIndex ∉ (log.cutForRequest request.prevLogIndex).index.keys := by
          unfold cutForRequest
          rw [if_pos (by omega)]
          intro present
          exact absurd ((sound.truncateSuffixLocked request.prevLogIndex).2 _ present) (lt_irrefl _)
        have stands := termAt_of_absent cut (by rw [term]; exact real)
        rw [snapshot] at stands
        refine .inr ⟨by omega, stands, fun lower => ?_⟩
        have same := (kept request.prevLogIndex lower (le_refl _)).2
        rw [(writeBatch_old cutSound contiguous below (le_refl _)).2, entryAt_of_absent cut] at same
        exact same.symm

/-- In every session, a request with entries that matches the log is taken over
exactly when the node's cut does not reach its previous entry. -/
theorem takesOver_iff_appendable (calls : List DiskLogCall) (wellFormed : ∀ call ∈ calls, call.WellFormed)
    (request : AppendEntriesRequest) (nonempty : request.entries ≠ [])
    (contiguous : Numbered request.prevLogIndex request.entries) (nonneg : 0 ≤ request.prevLogIndex)
    (inRange : ∀ entry ∈ request.entries, entry.InRange)
    (matched : request.prevLogIndex = 0 ∨ (fresh.run calls).termAt request.prevLogIndex = request.prevLogTerm) :
    (fresh.run calls).TakesOver request ↔ (fresh.run calls).Appendable request := by
  obtain ⟨first, rest, shape⟩ := List.exists_cons_of_ne_nil nonempty
  have sound := run_sound wellFormed
  exact ⟨fun taken => taken.appendable sound shape contiguous nonneg inRange,
    fun appendable => appendable.takesOver sound shape contiguous nonneg inRange matched⟩

def fourEntries : List DiskLogCall :=
  [.append 0 0 [⟨1, 1, .noOp⟩, ⟨1, 2, .noOp⟩, ⟨1, 3, .noOp⟩, ⟨1, 4, .noOp⟩]]

def behindLastRequest : AppendEntriesRequest :=
  { term := 2, prevLogIndex := 4, prevLogTerm := 1, entries := [⟨2, 5, .noOp⟩] }

theorem takesOver_behindLastRequest :
    (fresh.run fourEntries).termAt 4 = 1 ∧ (fresh.run fourEntries).TakesOver behindLastRequest :=
  ⟨by decide +kernel,
    (takesOver_iff_appendable fourEntries (by decide) behindLastRequest (by decide) (by decide) (by decide)
      (by decide) (.inr (by decide +kernel))).mpr (by decide +kernel)⟩

def replaceLastRequest : AppendEntriesRequest :=
  { term := 2, prevLogIndex := 3, prevLogTerm := 1, entries := [⟨2, 4, .noOp⟩] }

/-- The cut for a request behind entry three removes entry three as well, so
the request is refused and the entry is lost. -/
theorem replaceLastRequest_refused :
    (∀ call ∈ fourEntries, call.WellFormed) ∧ Numbered replaceLastRequest.prevLogIndex replaceLastRequest.entries ∧
      (fresh.run fourEntries).termAt replaceLastRequest.prevLogIndex = replaceLastRequest.prevLogTerm ∧
      (appendEntriesToLog (fresh.run fourEntries) replaceLastRequest).1.entryAt 3 = none ∧
      ¬(fresh.run fourEntries).TakesOver replaceLastRequest := by
  refine ⟨by decide, by decide, by decide +kernel, by decide +kernel, fun taken => ?_⟩
  exact absurd taken.accepted (by decide +kernel)

end DiskRaftLog

end TorrentMq.Consensus
