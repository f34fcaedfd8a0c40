import TorrentMq.Client.FetchSession

/-! When a fetch session hides records that the log holds. -/

set_option autoImplicit false

namespace TorrentMq.Client.FetchHandler

open Bytes Collections Network Network.Fetch Runs List Option PartitionTurn

theorem makeKey_inj {topic other : Bytes} {partition index : Int32} :
    makeKey topic partition = makeKey other index ↔ topic = other ∧ partition = index :=
  append_decimalInt_inj.trans (and_congr_right fun _ => Int32.toInt_inj)

namespace PartitionTurn

variable (turn : PartitionTurn) (topic : Bytes) (partition : Int32)

def IsOf : Prop := turn.pf.topicName = topic ∧ turn.pf.partitionIndex = partition

instance : Decidable (turn.IsOf topic partition) := inferInstanceAs (Decidable (_ ∧ _))

/-- The partition is read, unless the session says that there is nothing new. -/
def IsReadable : Prop := turn.validated.error = none ∧ turn.readError = none

instance : Decidable turn.IsReadable := inferInstanceAs (Decidable (_ ∧ _))

/-- Decided on the one offset that there may be, not by going through all of them. -/
instance (reached : Option Int64) (next : Int64) : Decidable (∀ offset ∈ reached, offset < next) :=
  Option.decidableForallMem reached

/-- The offsets behind the last reads, with one more turn. A turn is not read where it asks for
nothing beyond that offset. -/
def reach (last : Bytes → Int32 → Option Int64) (topic : Bytes) (partition : Int32) : Option Int64 :=
  if turn.IsOf topic partition ∧ turn.IsReadable ∧
      ∀ offset ∈ last topic partition, offset < turn.pf.fetchOffset then
    some turn.newOffset
  else last topic partition

def HoldsData : Prop :=
  ∃ record ∈ turn.log turn.pf.topicName turn.pf.partitionIndex, turn.pf.fetchOffset ≤ record.offset

def ShownBy (answer : Answer) : Prop := turn.HoldsData → ∀ result, answer ≠ .noNewData result

end PartitionTurn

def lastReach (turns : List PartitionTurn) : Bytes → Int32 → Option Int64 :=
  turns.foldl (fun last turn => turn.reach last) fun _ _ => none

/-- The leader epoch that the client names for a partition does not change. -/
def SameEpochs (epochs : Bytes → Int32 → Int32) (turns : List PartitionTurn) : Prop :=
  ∀ turn ∈ turns, turn.pf.currentLeaderEpoch = epochs turn.pf.topicName turn.pf.partitionIndex

/-- A session remembers the last reads, and the epochs under which they were. -/
def Remembers (epochs : Bytes → Int32 → Int32) (session : FetchSession)
    (last : Bytes → Int32 → Option Int64) : Prop :=
  ∀ topic partition,
    (session.partitions.find? (makeKey topic partition)).map
        (fun ps => (ps.lastFetchedOffset, ps.lastLeaderEpoch)) =
      (last topic partition).map fun offset => (offset, epochs topic partition)

variable {epochs : Bytes → Int32 → Int32} {session : FetchSession} {turn : PartitionTurn}
  {last : Bytes → Int32 → Option Int64}

theorem applySession_iff (remembers : Remembers epochs session last)
    (same : turn.pf.currentLeaderEpoch = epochs turn.pf.topicName turn.pf.partitionIndex) :
    applySession session turn.pf = true ↔
      ∀ offset ∈ last turn.pf.topicName turn.pf.partitionIndex, offset < turn.pf.fetchOffset := by
  have entry := remembers turn.pf.topicName turn.pf.partitionIndex
  unfold applySession
  cases found : session.partitions.find? (makeKey turn.pf.topicName turn.pf.partitionIndex) with
  | none =>
    rw [found, map_none, eq_comm, map_eq_none_iff] at entry
    simp [entry]
  | some ps =>
    rw [found, map_some, eq_comm, map_eq_some_iff] at entry
    obtain ⟨offset, stored, pair⟩ := entry
    obtain ⟨rfl, epoch⟩ := Prod.mk.inj pair
    rw [stored, same]
    dsimp only
    rw [if_neg fun all => all.2.2 epoch]
    simp

theorem find?_updatePartition (topic other : Bytes) (partition index : Int32) (newOffset lso : Int64)
    (leaderEpoch : Int32) (now : Int) :
    (session.updatePartition topic partition newOffset lso leaderEpoch now).partitions.find? (makeKey other index) =
      if topic = other ∧ partition = index then some ⟨newOffset, lso, now, leaderEpoch⟩
      else session.partitions.find? (makeKey other index) := by
  refine (OrderedMap.find?_insert _).trans ?_
  by_cases same : topic = other ∧ partition = index
  · rw [if_pos same, if_pos (makeKey_inj.mpr ⟨same.1.symm, same.2.symm⟩)]
  · rw [if_neg same, if_neg]
    intro keys
    obtain ⟨topics, partitions⟩ := makeKey_inj.mp keys
    exact same ⟨topics.symm, partitions.symm⟩

theorem Remembers.step (remembers : Remembers epochs session last)
    (same : turn.pf.currentLeaderEpoch = epochs turn.pf.topicName turn.pf.partitionIndex) :
    Remembers epochs (step session turn) (turn.reach last) := by
  have new_iff := applySession_iff remembers same
  by_cases read : turn.IsReadable ∧ applySession session turn.pf = true
  · obtain ⟨⟨valid, readable⟩, new⟩ := read
    have stored : FetchHandler.step session turn =
        session.updatePartition turn.pf.topicName turn.pf.partitionIndex turn.newOffset turn.logStartOffset
          (epochs turn.pf.topicName turn.pf.partitionIndex) turn.now := by
      simp [FetchHandler.step, answer, valid, new, fetchPartition, readable, same]
    intro topic partition
    rw [stored, find?_updatePartition, reach]
    by_cases own : turn.pf.topicName = topic ∧ turn.pf.partitionIndex = partition
    · rw [if_pos own]
      obtain ⟨rfl, rfl⟩ := own
      rw [if_pos ⟨⟨rfl, rfl⟩, ⟨valid, readable⟩, new_iff.mp new⟩]
      rfl
    · rw [if_neg own, if_neg fun all => own all.1]
      exact remembers topic partition
  · have kept : FetchHandler.step session turn = session := by
      unfold FetchHandler.step answer
      by_cases valid : turn.validated.error = none
      · by_cases new : applySession session turn.pf = true
        · have failed : turn.readError ≠ none := fun readable => read ⟨⟨valid, readable⟩, new⟩
          simp [valid, new, fetchPartition, failed]
        · simp [valid, new]
      · simp [isSome_iff_ne_none.mpr valid]
    rw [kept]
    intro topic partition
    rw [reach, if_neg]
    · exact remembers topic partition
    · rintro ⟨⟨rfl, rfl⟩, readable, beyond⟩
      exact read ⟨readable, new_iff.mpr beyond⟩

theorem lastReach_concat (turns : List PartitionTurn) (turn : PartitionTurn) :
    lastReach (turns ++ [turn]) = turn.reach (lastReach turns) := foldl_concat _ _ _ _

variable {turns : List PartitionTurn}

theorem remembers_run (same : SameEpochs epochs turns) :
    Remembers epochs (run step {} turns) (lastReach turns) := by
  induction turns using List.reverseRecOn with
  | nil => exact fun _ _ => rfl
  | append_singleton turns turn ih =>
    have earlier := ih fun other member => same other (mem_append_left _ member)
    have next := earlier.step (same turn (by simp))
    rwa [run_concat, lastReach_concat]

theorem shown_iff (remembers : Remembers epochs session last)
    (same : turn.pf.currentLeaderEpoch = epochs turn.pf.topicName turn.pf.partitionIndex) :
    turn.ShownBy (answer session turn).1 ↔
      (turn.validated.error = none → turn.HoldsData →
        ∀ offset ∈ last turn.pf.topicName turn.pf.partitionIndex, offset < turn.pf.fetchOffset) := by
  rw [PartitionTurn.ShownBy, ← applySession_iff remembers same]
  unfold answer
  dsimp only
  by_cases valid : turn.validated.error = none
  · rw [if_neg (by simp [valid])]
    by_cases new : applySession session turn.pf = true
    · simp [new]
    · simp [new, valid]
  · rw [if_pos (by simpa [isSome_iff_ne_none] using valid)]
    simp [valid]

theorem forall₂_answers :
    List.Forall₂ PartitionTurn.ShownBy turns (handlePartitions session turns).1 ↔
      Meets step (fun session turn => turn.ShownBy (answer session turn).1) session turns := by
  induction turns generalizing session with
  | nil => exact ⟨fun _ => trivial, fun _ => .nil⟩
  | cons turn turns ih => exact List.forall₂_cons.trans (and_congr_right fun _ => ih)

theorem handlePartitions_append (session : FetchSession) (turns others : List PartitionTurn) :
    handlePartitions session (turns ++ others) =
      ((handlePartitions session turns).1 ++ (handlePartitions (handlePartitions session turns).2 others).1,
        (handlePartitions (handlePartitions session turns).2 others).2) := by
  induction turns generalizing session with
  | nil => rfl
  | cons turn turns ih => simp [handlePartitions, ih]

theorem handleRequests_flatten (session : FetchSession) (requests : List (List PartitionTurn)) :
    (handleRequests session requests).1.flatten = (handlePartitions session requests.flatten).1 := by
  induction requests generalizing session with
  | nil => rfl
  | cons turns requests ih =>
    rw [flatten_cons, handlePartitions_append, handleRequests, flatten_cons, ih]

/-- With the epochs of the client as they are, no record of the log is hidden if and only if every
valid request, where the log has something for it, asks for more than what the last read has reached. -/
theorem session_hides_nothing_iff {requests : List (List PartitionTurn)} (same : SameEpochs epochs requests.flatten) :
    List.Forall₂ PartitionTurn.ShownBy requests.flatten (handleRequests {} requests).1.flatten ↔
      ∀ before turn, before ++ [turn] <+: requests.flatten → turn.validated.error = none → turn.HoldsData →
        ∀ offset ∈ lastReach before turn.pf.topicName turn.pf.partitionIndex, offset < turn.pf.fetchOffset := by
  have exact_turn : ∀ before turn, before ++ [turn] <+: requests.flatten →
      (turn.ShownBy (answer (run step {} before) turn).1 ↔
        (turn.validated.error = none → turn.HoldsData →
          ∀ offset ∈ lastReach before turn.pf.topicName turn.pf.partitionIndex, offset < turn.pf.fetchOffset)) := by
    intro before turn reached
    have all : SameEpochs epochs (before ++ [turn]) := fun other member => same other (reached.mem member)
    have earlier := remembers_run fun other member => all other (mem_append_left _ member)
    exact shown_iff earlier (all turn (by simp))
  rw [handleRequests_flatten, forall₂_answers]
  constructor
  · intro meets before turn reached
    exact (exact_turn before turn reached).mp (meets.of_prefix reached).last
  · intro beyond
    apply meets_of_prefixes
    intro before turn reached _
    exact (exact_turn before turn reached).mpr (beyond before turn reached)

namespace PartitionTurn

/-- The topic "a" with three records, of which a fetch returns one. -/
def oneOfThree (offset : Int64) : PartitionTurn :=
  { log := fun _ _ => [⟨0, { value := [1] }⟩, ⟨1, { value := [2] }⟩, ⟨2, { value := [3] }⟩]
    pf := { topicName := [97], fetchOffset := offset }
    validated := { topicName := [97] }
    count := 1 }

end PartitionTurn

theorem session_hides_nothing_behind_gap :
    List.Forall₂ PartitionTurn.ShownBy [.oneOfThree 0, .oneOfThree 2]
      (handleRequests {} [[.oneOfThree 0], [.oneOfThree 2]]).1.flatten := by
  have same : SameEpochs (fun _ _ => -1) [.oneOfThree 0, .oneOfThree 2] := by
    simp [SameEpochs, oneOfThree]
  apply (@session_hides_nothing_iff _ [[.oneOfThree 0], [.oneOfThree 2]] same).mpr
  intro before turn reached valid holds offset last
  rcases before with _ | ⟨first, _ | ⟨second, before⟩⟩
  · cases last
  · obtain ⟨rfl, rest⟩ := cons_prefix_cons.mp reached
    obtain ⟨rfl, -⟩ := cons_prefix_cons.mp rest
    have first_reach : lastReach [.oneOfThree 0] [97] 0 = some 1 := by decide
    obtain rfl := Option.some.inj (first_reach.symm.trans last)
    decide
  · exact absurd reached.length_le (by simp)

/-- A client that goes on where its last fetch has ended does not get the record that is there. -/
theorem session_hides_next :
    ¬ ∀ requests : List (List PartitionTurn), SameEpochs (fun _ _ => -1) requests.flatten →
      List.Forall₂ PartitionTurn.ShownBy requests.flatten (handleRequests {} requests).1.flatten := by
  intro all
  have shown := all [[.oneOfThree 0], [.oneOfThree 1]] (by simp [SameEpochs, oneOfThree])
  cases shown with
  | cons _ others =>
    cases others with
    | cons second _ =>
      have holds : (oneOfThree 1).HoldsData :=
        ⟨⟨1, { value := [2] }⟩, by simp [oneOfThree], by decide⟩
      exact second holds _ rfl

end TorrentMq.Client.FetchHandler
