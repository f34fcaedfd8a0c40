import TorrentMq.Collections.SortedVector
import TorrentMq.Runs.Basic
import TorrentMq.Storage.Segment

/-!
# The offset index

A sparse index from offsets to file positions that is kept in memory, and
what its searches find after any run of insertions and truncations.
-/

set_option autoImplicit false

namespace TorrentMq.Storage

open SortedVector List Option SparseIndexEntry

structure OffsetIndex where
  entries : List SparseIndexEntry := []
  entryCount : Nat := 0
deriving DecidableEq

namespace OffsetIndex

def kMaxEntries : Nat := 50000

def addEntry (index : OffsetIndex) (entry : SparseIndexEntry) : OffsetIndex :=
  let entries := add offset (fun _ => entry) entry index.entries
  if index.entries.getLast?.all (fun back => decide (back.offset < entry.offset)) ∧ kMaxEntries < entries.length then
    let pruned := pruneHalf offset entries
    { entries := pruned, entryCount := pruned.length }
  else
    { entries
      entryCount := if entries.length = index.entries.length then index.entryCount else entries.length }

def addEntries (index : OffsetIndex) (newEntries : List SparseIndexEntry) : OffsetIndex :=
  match newEntries with
  | [] => index
  | front :: rest =>
    let entries :=
      if index.entries.getLast?.all fun back => decide (back.offset < front.offset) then
        index.entries ++ front :: rest
      else
        (front :: rest).foldl (fun entries entry => put offset (fun _ => entry) entry entries)
          index.entries
    { entries, entryCount := entries.length }

def lookup (index : OffsetIndex) (targetOffset : Int) : Option Nat :=
  (binarySearchLe offset index.entries targetOffset).bind fun idx =>
    index.entries[idx]?.map (·.filePosition)

def lowerBound (index : OffsetIndex) (targetOffset : Int) : Option Nat :=
  (binarySearchLe offset index.entries targetOffset).bind fun idx =>
    index.entries[idx]?.bind fun found =>
      match index.entries[idx + 1]? with
      | none => some found.filePosition
      | some next => if found.offset < targetOffset then some next.filePosition else some found.filePosition

def truncateTo (index : OffsetIndex) (cutoffOffset : Int) : OffsetIndex :=
  if index.entries.isEmpty then index
  else
    let entries := index.entries.take (SortedVector.lowerBound offset index.entries cutoffOffset)
    { entries, entryCount := entries.length }

end OffsetIndex

inductive OffsetIndexCall where
  | addEntry (entry : SparseIndexEntry)
  | addEntries (newEntries : List SparseIndexEntry)
  | truncateTo (cutoffOffset : Int)
deriving DecidableEq

namespace OffsetIndex

def step (index : OffsetIndex) : OffsetIndexCall → OffsetIndex
  | .addEntry entry => index.addEntry entry
  | .addEntries newEntries => index.addEntries newEntries
  | .truncateTo cutoffOffset => index.truncateTo cutoffOffset

def additions : OffsetIndexCall → List SparseIndexEntry
  | .addEntry entry => [entry]
  | .addEntries newEntries => newEntries
  | .truncateTo _ => []

def latest (added : List SparseIndexEntry) (offset : Int) : Option SparseIndexEntry :=
  added.reverse.find? fun entry => decide (entry.offset = offset)

def Orderly (index : OffsetIndex) : OffsetIndexCall → Prop
  | .addEntries newEntries =>
    (∃ back ∈ index.entries.getLast?, ∃ front ∈ newEntries.head?, front.offset ≤ back.offset) ∨
      newEntries.Pairwise fun earlier later => earlier.offset < later.offset
  | _ => True

/-- The entries are in strict order, each is the one that was added last for its offset, and they
are counted. -/
structure Sound (added : List SparseIndexEntry) (index : OffsetIndex) : Prop where
  sorted : Sorted offset index.entries
  recorded : ∀ entry ∈ index.entries, latest added entry.offset = some entry
  counted : index.entryCount = index.entries.length

theorem latest_concat (added : List SparseIndexEntry) (entry : SparseIndexEntry) (offset : Int) :
    latest (added ++ [entry]) offset = if entry.offset = offset then some entry else latest added offset := by
  unfold latest
  rw [reverse_append, reverse_singleton, singleton_append, find?_cons]
  split <;> simp_all

theorem recorded_put {added entries : List SparseIndexEntry} (sorted : Sorted offset entries)
    (recorded : ∀ entry ∈ entries, latest added entry.offset = some entry) (entry : SparseIndexEntry) :
    ∀ other ∈ put offset (fun _ => entry) entry entries,
      latest (added ++ [entry]) other.offset = some other := by
  intro other member
  rw [latest_concat]
  rcases sorted.mem_put member with ⟨old, apart⟩ | ⟨rfl, -⟩ | ⟨-, -, -, rfl⟩
  · rw [if_neg (Ne.symm apart)]
    exact recorded other old
  · rw [if_pos rfl]
  · rw [if_pos rfl]

variable {added : List SparseIndexEntry} {index : OffsetIndex}

theorem Sound.addEntry (sound : Sound added index)
    (entry : SparseIndexEntry) : Sound (added ++ [entry]) (index.addEntry entry) := by
  have sorted : Sorted offset (add offset (fun _ => entry) entry index.entries) :=
    sound.sorted.add fun _ _ => rfl
  have recorded := recorded_put sound.sorted sound.recorded entry
  rw [← sound.sorted.add_eq_put] at recorded
  unfold OffsetIndex.addEntry
  dsimp only
  split
  · exact ⟨sorted.sublist (pruneHalf_sublist _),
      fun other member => recorded other ((pruneHalf_sublist _).subset member), rfl⟩
  · refine ⟨sorted, recorded, ?_⟩
    dsimp only
    split
    next same => rw [sound.counted, same]
    · rfl

theorem Sound.foldl_put {added entries : List SparseIndexEntry} (sorted : Sorted offset entries)
    (recorded : ∀ entry ∈ entries, latest added entry.offset = some entry) (newEntries : List SparseIndexEntry) :
    let merged := newEntries.foldl
      (fun entries entry => put offset (fun _ => entry) entry entries) entries
    Sorted offset merged ∧
      ∀ entry ∈ merged, latest (added ++ newEntries) entry.offset = some entry := by
  induction newEntries generalizing added entries with
  | nil =>
    rw [append_nil]
    exact ⟨sorted, recorded⟩
  | cons entry newEntries ih =>
    rw [foldl_cons, ← singleton_append, ← append_assoc]
    exact ih (sorted.put fun _ _ => rfl) (recorded_put sorted recorded entry)

theorem latest_append_sorted {added newEntries : List SparseIndexEntry}
    (ascending : newEntries.Pairwise fun earlier later => earlier.offset < later.offset) :
    (∀ entry ∈ newEntries, latest (added ++ newEntries) entry.offset = some entry) ∧
      ∀ offset, (∀ entry ∈ newEntries, entry.offset ≠ offset) →
        latest (added ++ newEntries) offset = latest added offset := by
  induction newEntries generalizing added with
  | nil =>
    rw [append_nil]
    exact ⟨fun _ member => (not_mem_nil member).elim, fun _ _ => rfl⟩
  | cons first newEntries ih =>
    obtain ⟨above, rest⟩ := pairwise_cons.mp ascending
    rw [← singleton_append, ← append_assoc]
    obtain ⟨new, old⟩ := @ih (added ++ [first]) rest
    constructor
    · intro entry member
      cases member with
      | head =>
        rw [old _ fun other inside => (above other inside).ne', latest_concat, if_pos rfl]
      | tail _ member => exact new entry member
    · intro offset apart
      rw [old offset fun entry member => apart entry (mem_cons_of_mem _ member), latest_concat,
        if_neg (apart first mem_cons_self)]

section

variable (sound : Sound added index)

include sound

theorem Sound.addEntries
    {newEntries : List SparseIndexEntry} (orderly : index.Orderly (.addEntries newEntries)) :
    Sound (added ++ newEntries) (index.addEntries newEntries) := by
  unfold OffsetIndex.addEntries
  cases newEntries with
  | nil =>
    rw [append_nil]
    exact sound
  | cons front rest =>
    dsimp only
    split
    next behind =>
      have ascending : (front :: rest).Pairwise fun earlier later => earlier.offset < later.offset := by
        refine orderly.resolve_left ?_
        rintro ⟨back, final, first, head, below⟩
        cases head
        rw [mem_def.mp final] at behind
        exact absurd (of_decide_eq_true behind) (not_lt.mpr below)
      have above : ∀ entry ∈ index.entries, ∀ other ∈ front :: rest, entry.offset < other.offset := by
        intro entry member other new
        have reached : front.offset ≤ other.offset := by
          cases new with
          | head => exact le_rfl
          | tail _ new => exact ((pairwise_cons.mp ascending).1 other new).le
        cases final : index.entries.getLast? with
        | none =>
          rw [getLast?_eq_none_iff.mp final] at member
          cases member
        | some back =>
          rw [final] at behind
          exact ((sound.sorted.le_back final entry member).trans_lt (of_decide_eq_true behind)).trans_le reached
      refine ⟨sound.sorted.append ascending above, ?_, rfl⟩
      intro entry member
      obtain ⟨new, old⟩ := @latest_append_sorted added _ ascending
      cases mem_append.mp member with
      | inl early =>
        rw [old _ fun other late => (above entry early other late).ne']
        exact sound.recorded entry early
      | inr late => exact new entry late
    · obtain ⟨sorted, recorded⟩ := Sound.foldl_put sound.sorted sound.recorded (front :: rest)
      exact ⟨sorted, recorded, rfl⟩

theorem Sound.truncateTo
    (cutoffOffset : Int) : Sound added (index.truncateTo cutoffOffset) := by
  unfold OffsetIndex.truncateTo
  split
  · exact sound
  · exact ⟨sound.sorted.sublist (take_sublist _ _),
      fun entry member => sound.recorded entry (mem_of_mem_take member), rfl⟩

theorem Sound.step
    {call : OffsetIndexCall} (orderly : index.Orderly call) : Sound (added ++ additions call) (index.step call) := by
  cases call with
  | addEntry entry => exact sound.addEntry entry
  | addEntries newEntries => exact sound.addEntries orderly
  | truncateTo cutoffOffset =>
    rw [additions, append_nil]
    exact sound.truncateTo cutoffOffset

theorem Sound.run
    {calls : List OffsetIndexCall} (orderly : Runs.Meets OffsetIndex.step Orderly index calls) :
    Sound (added ++ calls.flatMap additions) (Runs.run OffsetIndex.step index calls) := by
  induction calls generalizing added index with
  | nil =>
    rw [flatMap_nil, append_nil]
    exact sound
  | cons call calls ih =>
    rw [flatMap_cons, ← append_assoc]
    exact ih (sound.step orderly.1) orderly.2

end

/-- The retained entry with the greatest offset up to a target. -/
structure LastUpTo (index : OffsetIndex) (targetOffset : Int) (entry : SparseIndexEntry) : Prop where
  retained : entry ∈ index.entries
  upTo : entry.offset ≤ targetOffset
  greatest : ∀ other ∈ index.entries, other.offset ≤ targetOffset → other.offset ≤ entry.offset

/-- The retained entry with the least offset from a target on. -/
structure FirstFrom (index : OffsetIndex) (targetOffset : Int) (entry : SparseIndexEntry) : Prop where
  retained : entry ∈ index.entries
  reached : targetOffset ≤ entry.offset
  least : ∀ other ∈ index.entries, targetOffset ≤ other.offset → entry.offset ≤ other.offset

/-- A lookup gives the position for the greatest offset up to its target. -/
def LooksUp (index : OffsetIndex) (targetOffset : Int) : Prop :=
  (index.lookup targetOffset = none ∧ ∀ entry ∈ index.entries, targetOffset < entry.offset) ∨
    ∃ entry, index.LastUpTo targetOffset entry ∧ index.lookup targetOffset = some entry.filePosition

/-- The lower bound of a target is the first entry from it on, if there is one. -/
def BoundsFromBelow (index : OffsetIndex) (targetOffset : Int) : Prop :=
  (index.lowerBound targetOffset = none ∧ ∀ entry ∈ index.entries, entry.offset < targetOffset) ∨
    ∃ entry, index.FirstFrom targetOffset entry ∧ index.lowerBound targetOffset = some entry.filePosition

/-- The lower bound is looked for from the last entry up to the target on: where there is none, there
is no bound, and where that is the last one of all, it is the bound. -/
def BoundsBehindFound (index : OffsetIndex) (targetOffset : Int) : Prop :=
  (index.lowerBound targetOffset = none ∧ ∀ entry ∈ index.entries, targetOffset < entry.offset) ∨
    (∃ found, index.LastUpTo targetOffset found) ∧
      ((∃ entry, index.FirstFrom targetOffset entry ∧ index.lowerBound targetOffset = some entry.filePosition) ∨
        (∀ entry ∈ index.entries, entry.offset < targetOffset) ∧
          ∃ last ∈ index.entries.getLast?, index.lowerBound targetOffset = some last.filePosition)

section

variable (sorted : Sorted offset index.entries) (targetOffset : Int)
include sorted targetOffset

theorem search_cases : (binarySearchLe offset index.entries targetOffset = none ∧
        ∀ entry ∈ index.entries, targetOffset < entry.offset) ∨
      ∃ before found after, index.entries = before ++ found :: after ∧
        binarySearchLe offset index.entries targetOffset = some before.length ∧
        index.entries[before.length]? = some found ∧ index.entries[before.length + 1]? = after.head? ∧
        index.LastUpTo targetOffset found ∧ (∀ entry ∈ before, entry.offset < found.offset) ∧
        ∀ entry ∈ after, targetOffset < entry.offset := by
  rcases sorted.binarySearchLe_spec targetOffset with nothing | ⟨before, found, after, split, search, upTo, below, above⟩
  · exact .inl nothing
  · have position : index.entries[before.length]? = some found := by
      rw [split, getElem?_append_right le_rfl, Nat.sub_self]
      rfl
    have next : index.entries[before.length + 1]? = after.head? := by
      rw [split, getElem?_append_right (by omega : before.length ≤ before.length + 1),
        Nat.add_sub_cancel_left, getElem?_cons_succ,
        head?_eq_getElem?]
    refine .inr ⟨before, found, after, split, search, position, next, ⟨?_, upTo, ?_⟩, below, above⟩
    · exact mem_of_getElem? position
    · intro other member reached
      rw [split, mem_append, mem_cons] at member
      rcases member with early | rfl | late
      · exact (below other early).le
      · exact le_rfl
      · exact absurd (above other late) (not_lt.mpr reached)

theorem looksUp_of_sorted : index.LooksUp targetOffset := by
  rcases search_cases sorted targetOffset with ⟨none, above⟩ | ⟨before, found, after, -, search, position, -, last, -, -⟩
  · refine .inl ⟨?_, above⟩
    rw [lookup, none]
    rfl
  · refine .inr ⟨found, last, ?_⟩
    rw [lookup, search, bind_some, position]
    rfl

theorem boundsBehindFound_of_sorted : index.BoundsBehindFound targetOffset := by
  rcases search_cases sorted targetOffset with ⟨none, above⟩ | ⟨before, found, after, split, search, position, next, last,
    below, above⟩
  · refine .inl ⟨?_, above⟩
    rw [lowerBound, none]
    rfl
  · refine .inr ⟨⟨found, last⟩, ?_⟩
    rw [lowerBound, search, bind_some, position, bind_some, next]
    by_cases exactly : found.offset = targetOffset
    · refine .inl ⟨found, ⟨last.retained, exactly.ge, fun other _ reached => exactly.trans_le reached⟩, ?_⟩
      cases after with
      | nil => rfl
      | cons first after => exact if_neg (not_lt.mpr exactly.ge)
    · have less : found.offset < targetOffset := lt_of_le_of_ne last.upTo exactly
      cases after with
      | nil =>
        refine .inr ⟨?_, found, ?_, rfl⟩
        · intro entry member
          rw [split, mem_append, mem_singleton] at member
          rcases member with early | rfl
          · exact (below entry early).trans less
          · exact less
        · rw [split, getLast?_concat]
          rfl
      | cons first after =>
        refine .inl ⟨first, ⟨?_, ?_, ?_⟩, if_pos less⟩
        · rw [split]
          exact mem_append_right _ (mem_cons_of_mem _ mem_cons_self)
        · exact (above first mem_cons_self).le
        · intro other member reached
          rw [split] at sorted member
          have ordered := (pairwise_cons.mp (pairwise_cons.mp (pairwise_append.mp sorted).2.1).2).1
          rw [mem_append, mem_cons, mem_cons] at member
          rcases member with early | rfl | rfl | late
          · exact absurd ((below other early).trans less) (not_lt.mpr reached)
          · exact absurd less (not_lt.mpr reached)
          · exact le_rfl
          · exact (ordered other late).le

end

/-- In every run whose appended batches are in order, the index stays in strict order with the entries
that were added last, and its searches find what they are to find. -/
theorem offset_index_correct {calls : List OffsetIndexCall} (orderly : Runs.Meets step Orderly {} calls)
    (targetOffset : Int) :
    let index := Runs.run step {} calls
    Sound (calls.flatMap additions) index ∧ index.LooksUp targetOffset ∧ index.BoundsBehindFound targetOffset := by
  have empty : Sound [] {} := ⟨Sorted.nil, fun _ member => (not_mem_nil member).elim, rfl⟩
  have sound := empty.run orderly
  rw [nil_append] at sound
  exact ⟨sound, looksUp_of_sorted sound.sorted targetOffset, boundsBehindFound_of_sorted sound.sorted targetOffset⟩

theorem offset_index_correct_merged :
    let calls : List OffsetIndexCall :=
      [.addEntries [⟨2, 20, 0⟩, ⟨5, 50, 0⟩], .addEntry ⟨3, 30, 0⟩, .addEntries [⟨4, 41, 0⟩, ⟨3, 31, 0⟩], .truncateTo 5]
    let index := Runs.run step {} calls
    index.entries = [⟨2, 20, 0⟩, ⟨3, 31, 0⟩, ⟨4, 41, 0⟩] ∧ index.LooksUp 3 ∧ index.BoundsBehindFound 3 := by
  refine ⟨by decide +kernel, (offset_index_correct ?_ 3).2⟩
  refine ⟨.inr (by decide), trivial, .inl ⟨⟨5, 50, 0⟩, ?_, ⟨4, 41, 0⟩, rfl, by decide⟩, trivial, trivial⟩
  decide +kernel

/-- The bound is missing below all entries, and is the last entry behind all of them; and a batch
out of order is appended as it is. -/
theorem not_boundsFromBelow_single :
    ¬(Runs.run step {} [.addEntry ⟨5, 50, 0⟩]).BoundsFromBelow 0 ∧
      ¬(Runs.run step {} [.addEntry ⟨5, 50, 0⟩]).BoundsFromBelow 9 ∧
      ¬Sorted offset (Runs.run step {} [.addEntries [⟨5, 50, 0⟩, ⟨3, 30, 0⟩]]).entries := by
  have single : (Runs.run step {} [.addEntry ⟨5, 50, 0⟩]).entries = [⟨5, 50, 0⟩] := by decide +kernel
  refine ⟨?_, ?_, ?_⟩
  · rintro (⟨-, below⟩ | ⟨entry, -, found⟩)
    · exact absurd (below ⟨5, 50, 0⟩ (single ▸ mem_cons_self)) (by decide)
    · have nothing : (Runs.run step {} [.addEntry ⟨5, 50, 0⟩]).lowerBound 0 = none := by decide +kernel
      rw [nothing] at found
      cases found
  · rintro (⟨nothing, -⟩ | ⟨entry, first, -⟩)
    · exact absurd nothing (by decide +kernel)
    · have member := first.retained
      rw [single] at member
      cases mem_singleton.mp member
      exact absurd first.reached (by decide)
  · intro sorted
    exact absurd ((pairwise_cons.mp sorted).1 ⟨3, 30, 0⟩ mem_cons_self) (by decide)

end OffsetIndex

end TorrentMq.Storage
