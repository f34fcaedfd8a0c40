import Mathlib.Data.Int.Order.Basic
import TorrentMq.Collections.SortedVector
import TorrentMq.Runs.Basic

/-!
# The time index

A sparse index from timestamps to offsets: entries in the order of their
timestamps, whose offsets may be in another order.
-/

set_option autoImplicit false

namespace TorrentMq.Storage

open SortedVector List

structure TimeIndexEntry where
  timestamp : Int
  offset : Int
deriving DecidableEq

structure TimeIndex where
  entries : List TimeIndexEntry := []
  entryCount : Nat := 0
  maxTimestamp : Int := 0
deriving DecidableEq

namespace TimeIndex

def kMaxEntries : Nat := 50000

def merge (offset : Int) (found : TimeIndexEntry) : TimeIndexEntry :=
  if offset < found.offset then { found with offset } else found

def addEntry (index : TimeIndex) (timestamp offset : Int) : TimeIndex :=
  let entries := add TimeIndexEntry.timestamp (merge offset) ⟨timestamp, offset⟩ index.entries
  let maxTimestamp := if index.maxTimestamp < timestamp then timestamp else index.maxTimestamp
  if kMaxEntries < entries.length then
    let pruned := pruneHalf TimeIndexEntry.timestamp entries
    { entries := pruned, entryCount := pruned.length, maxTimestamp }
  else
    { entries
      entryCount := if entries.length = index.entries.length then index.entryCount else entries.length
      maxTimestamp }

def lookup (index : TimeIndex) (targetTimestamp : Int) : Option Int :=
  index.entries[binarySearchGe TimeIndexEntry.timestamp index.entries targetTimestamp]?.map (·.offset)

def truncateTo (index : TimeIndex) (cutoffOffset : Int) : TimeIndex :=
  if index.entries.isEmpty then index
  else
    let entries := index.entries.dropWhile fun entry => decide (entry.offset < cutoffOffset)
    { entries
      entryCount := entries.length
      maxTimestamp := (entries.getLast?.map (·.timestamp)).getD 0 }

end TimeIndex

inductive TimeIndexCall where
  | addEntry (timestamp offset : Int)
  | truncateTo (cutoffOffset : Int)
deriving DecidableEq

namespace TimeIndex

def step (index : TimeIndex) : TimeIndexCall → TimeIndex
  | .addEntry timestamp offset => index.addEntry timestamp offset
  | .truncateTo cutoffOffset => index.truncateTo cutoffOffset

theorem merge_timestamp (offset : Int) (found : TimeIndexEntry) : (merge offset found).timestamp = found.timestamp := by
  unfold merge
  split <;> rfl

variable {index : TimeIndex}

theorem sorted_step (sorted : Sorted TimeIndexEntry.timestamp index.entries)
    (call : TimeIndexCall) : Sorted TimeIndexEntry.timestamp (index.step call).entries := by
  cases call with
  | addEntry timestamp offset =>
    have added : Sorted TimeIndexEntry.timestamp
        (add TimeIndexEntry.timestamp (merge offset) ⟨timestamp, offset⟩ index.entries) :=
      sorted.add fun found same => (merge_timestamp offset found).trans same
    unfold step addEntry
    dsimp only
    split
    · exact added.sublist (pruneHalf_sublist _)
    · exact added
  | truncateTo cutoffOffset =>
    unfold step truncateTo
    dsimp only
    split
    · exact sorted
    · exact sorted.sublist (dropWhile_sublist _)

theorem sorted_run (calls : List TimeIndexCall) (sorted : Sorted TimeIndexEntry.timestamp index.entries) :
    Sorted TimeIndexEntry.timestamp (Runs.run step index calls).entries := by
  induction calls generalizing index with
  | nil => exact sorted
  | cons call calls ih => exact ih (sorted_step sorted call)

/-- A lookup gives the smallest offset from a timestamp on. -/
def LooksUp (index : TimeIndex) (targetTimestamp : Int) : Prop :=
  (index.lookup targetTimestamp = none ∧ ∀ entry ∈ index.entries, entry.timestamp < targetTimestamp) ∨
    ∃ entry ∈ index.entries, targetTimestamp ≤ entry.timestamp ∧
      (∀ other ∈ index.entries, targetTimestamp ≤ other.timestamp → entry.offset ≤ other.offset) ∧
      index.lookup targetTimestamp = some entry.offset

def InOrder (index : TimeIndex) : Prop :=
  index.entries.Pairwise fun earlier later => earlier.offset ≤ later.offset

/-- The entry keeps offsets and timestamps in the same order, or one with its timestamp has a smaller
offset already. -/
def Ordered (index : TimeIndex) : TimeIndexCall → Prop
  | .addEntry timestamp offset =>
    (∃ found ∈ index.entries, found.timestamp = timestamp ∧ found.offset ≤ offset) ∨
      ∀ entry ∈ index.entries, (entry.timestamp < timestamp → entry.offset ≤ offset) ∧
        (timestamp < entry.timestamp → offset ≤ entry.offset)
  | .truncateTo _ => True

instance (index : TimeIndex) : (call : TimeIndexCall) → Decidable (index.Ordered call)
  | .addEntry _ _ => inferInstanceAs (Decidable (_ ∨ _))
  | .truncateTo _ => .isTrue trivial

section

variable (sorted : Sorted TimeIndexEntry.timestamp index.entries)
include sorted

theorem lookup_first (targetTimestamp : Int) :
    (index.lookup targetTimestamp = none ∧ ∀ entry ∈ index.entries, entry.timestamp < targetTimestamp) ∨
      ∃ before first after, index.entries = before ++ first :: after ∧ targetTimestamp ≤ first.timestamp ∧
        (∀ entry ∈ before, entry.timestamp < targetTimestamp) ∧ index.lookup targetTimestamp = some first.offset := by
  rcases sorted.binarySearchGe_spec targetTimestamp with ⟨behind, below⟩ | ⟨before, first, after, split, search, reached,
    below, -⟩
  · refine .inl ⟨?_, below⟩
    rw [lookup, getElem?_eq_none behind]
    rfl
  · refine .inr ⟨before, first, after, split, reached, below, ?_⟩
    rw [lookup, search, split, getElem?_append_right le_rfl, Nat.sub_self]
    rfl

theorem looksUp_of_inOrder (inOrder : index.InOrder) (targetTimestamp : Int) : index.LooksUp targetTimestamp := by
  rcases lookup_first sorted targetTimestamp with nothing | ⟨before, first, after, split, reached, below, found⟩
  · exact .inl nothing
  · refine .inr ⟨first, ?_, reached, ?_, found⟩
    · rw [split]
      exact mem_append_right _ mem_cons_self
    · intro other member late
      rw [InOrder, split] at inOrder
      rw [split, mem_append, mem_cons] at member
      rcases member with early | rfl | behind
      · exact absurd (below other early) (not_lt.mpr late)
      · exact le_rfl
      · exact (pairwise_cons.mp (pairwise_append.mp inOrder).2.1).1 other behind

theorem lookup_own {entry : TimeIndexEntry}
    (member : entry ∈ index.entries) : index.lookup entry.timestamp = some entry.offset := by
  rcases lookup_first sorted entry.timestamp with ⟨-, below⟩ | ⟨before, first, after, split, reached, below, found⟩
  · exact absurd (below entry member) (lt_irrefl _)
  · rw [split] at sorted member
    rw [mem_append, mem_cons] at member
    rcases member with early | rfl | late
    · exact absurd (below entry early) (lt_irrefl _)
    · exact found
    · exact absurd ((pairwise_cons.mp (pairwise_append.mp sorted).2.1).1 entry late) (not_lt.mpr reached)

theorem inOrder_of_looksUp (looksUp : ∀ targetTimestamp, index.LooksUp targetTimestamp) : index.InOrder := by
  refine List.Pairwise.imp_of_mem ?_ sorted
  intro earlier later member behind order
  rcases looksUp earlier.timestamp with ⟨none, -⟩ | ⟨smallest, -, -, least, found⟩
  · rw [lookup_own sorted member] at none
    cases none
  · rw [lookup_own sorted member] at found
    rw [Option.some.inj found]
    exact least later behind order.le

end

theorem pairwise_offset_insert {before after : List TimeIndexEntry} {entry : TimeIndexEntry}
    (others : (before ++ after).Pairwise fun earlier later => earlier.offset ≤ later.offset)
    (lower : ∀ earlier ∈ before, earlier.offset ≤ entry.offset)
    (upper : ∀ later ∈ after, entry.offset ≤ later.offset) :
    (before ++ entry :: after).Pairwise fun earlier later => earlier.offset ≤ later.offset := by
  obtain ⟨first, second, across⟩ := pairwise_append.mp others
  refine pairwise_append.mpr ⟨first, pairwise_cons.mpr ⟨upper, second⟩, fun earlier member later behind => ?_⟩
  cases behind with
  | head => exact lower earlier member
  | tail _ behind => exact across earlier member later behind

section

variable (sorted : Sorted TimeIndexEntry.timestamp index.entries)

include sorted

section

variable (inOrder : index.InOrder)

include inOrder

theorem inOrder_put {timestamp offset : Int} (ordered : index.Ordered (.addEntry timestamp offset)) :
    (put TimeIndexEntry.timestamp (merge offset) ⟨timestamp, offset⟩ index.entries).Pairwise
      fun earlier later => earlier.offset ≤ later.offset := by
  obtain ⟨before, after, lower, upper, placed⟩ := sorted.put_cases (merge offset) ⟨timestamp, offset⟩
  unfold InOrder at inOrder
  rcases placed with ⟨split, result⟩ | ⟨found, same, split, result⟩
  · rw [result]
    rw [split] at inOrder
    have around : ∀ entry ∈ index.entries, (entry.timestamp < timestamp → entry.offset ≤ offset) ∧
        (timestamp < entry.timestamp → offset ≤ entry.offset) := by
      refine ordered.resolve_left ?_
      rintro ⟨other, member, equal, -⟩
      rw [split, mem_append] at member
      cases member with
      | inl early => exact (lower other early).ne equal
      | inr late => exact (upper other late).ne' equal
    refine pairwise_offset_insert inOrder (fun earlier member => ?_) fun later member => ?_
    · exact (around earlier (split ▸ mem_append_left _ member)).1 (lower earlier member)
    · exact (around later (split ▸ mem_append_right _ member)).2 (upper later member)
  · have rest : (before ++ after).Sublist index.entries := by
      rw [split]
      exact (sublist_cons_self found after).append_left before
    rw [result]
    rw [split] at inOrder
    obtain ⟨-, behind, across⟩ := pairwise_append.mp inOrder
    have foundAfter := (pairwise_cons.mp behind).1
    have foundBefore : ∀ earlier ∈ before, earlier.offset ≤ found.offset :=
      fun earlier member => across earlier member found mem_cons_self
    unfold merge
    split
    next smaller =>
      have around : ∀ entry ∈ index.entries, (entry.timestamp < timestamp → entry.offset ≤ offset) ∧
          (timestamp < entry.timestamp → offset ≤ entry.offset) := by
        refine ordered.resolve_left ?_
        rintro ⟨other, member, equal, below⟩
        rw [split, mem_append, mem_cons] at member
        rcases member with early | rfl | late
        · exact (lower other early).ne equal
        · exact absurd smaller (not_lt.mpr below)
        · exact (upper other late).ne' equal
      refine pairwise_offset_insert (inOrder.sublist ((sublist_cons_self found after).append_left before))
        (fun earlier member => ?_) fun later member => ?_
      · exact (around earlier (rest.subset (mem_append_left _ member))).1 (lower earlier member)
      · exact (around later (rest.subset (mem_append_right _ member))).2 (upper later member)
    · exact inOrder

theorem inOrder_step {call : TimeIndexCall} (ordered : index.Ordered call) : (index.step call).InOrder := by
  cases call with
  | truncateTo cutoffOffset =>
    unfold step truncateTo InOrder
    dsimp only
    split
    · exact inOrder
    · exact List.Pairwise.sublist (dropWhile_sublist _) inOrder
  | addEntry timestamp offset =>
    have added : (add TimeIndexEntry.timestamp (merge offset) ⟨timestamp, offset⟩ index.entries).Pairwise
        fun earlier later => earlier.offset ≤ later.offset := by
      rw [sorted.add_eq_put]
      exact inOrder_put sorted inOrder ordered
    unfold step addEntry InOrder
    dsimp only
    split
    · exact List.Pairwise.sublist (pruneHalf_sublist _) added
    · exact added

theorem inOrder_run {calls : List TimeIndexCall}
    (ordered : Runs.Meets step Ordered index calls) : (Runs.run step index calls).InOrder := by
  induction calls generalizing index with
  | nil => exact inOrder
  | cons call calls ih => exact ih (sorted_step sorted call) (inOrder_step sorted inOrder ordered.1) ordered.2

end

end

/-- A truncation removes exactly the entries from the cutoff on. -/
def TruncatesExactly (index : TimeIndex) (cutoffOffset : Int) : Prop :=
  (index.truncateTo cutoffOffset).entries = index.entries.filter fun entry => decide (entry.offset < cutoffOffset)

theorem dropWhile_eq_filter_iff {Entry : Type} (below : Entry → Bool) (entries : List Entry) :
    entries.dropWhile below = entries.filter below ↔ entries = [] := by
  constructor
  · intro same
    cases left : entries.dropWhile below with
    | nil =>
      have all := dropWhile_eq_nil_iff.mp left
      have none := filter_eq_nil_iff.mp (same.symm.trans left)
      exact eq_nil_iff_forall_not_mem.mpr fun entry member => none entry member (all entry member)
    | cons first rest =>
      have stop := head_dropWhile_not below (by rw [left]; exact cons_ne_nil _ _)
      have kept : first ∈ entries.filter below := by
        rw [← same, left]
        exact mem_cons_self
      simp only [left, head_cons] at stop
      rw [(List.mem_filter.mp kept).2] at stop
      cases stop
  · intro empty
    rw [empty]
    rfl

theorem truncatesExactly_iff (index : TimeIndex) (cutoffOffset : Int) :
    index.TruncatesExactly cutoffOffset ↔ index.entries = [] := by
  unfold TruncatesExactly truncateTo
  split
  next empty =>
    have none := List.isEmpty_iff.mp empty
    rw [none]
    exact ⟨fun _ => rfl, fun _ => rfl⟩
  next => exact dropWhile_eq_filter_iff _ _

/-- In every state that is reached, lookups give the smallest offsets exactly when offsets are in the
order of timestamps, as they are when entries are added in such an order; and truncations remove
what they should exactly when there is nothing. -/
theorem time_index_correct (calls : List TimeIndexCall) :
    let index := Runs.run step {} calls
    ((∀ targetTimestamp, index.LooksUp targetTimestamp) ↔ index.InOrder) ∧
      (Runs.Meets step Ordered {} calls → ∀ targetTimestamp, index.LooksUp targetTimestamp) ∧
      ∀ cutoffOffset, index.TruncatesExactly cutoffOffset ↔ index.entries = [] := by
  have empty : Sorted TimeIndexEntry.timestamp ({} : TimeIndex).entries := Sorted.nil
  have sorted := sorted_run calls empty
  refine ⟨⟨inOrder_of_looksUp sorted, looksUp_of_inOrder sorted⟩, fun ordered => ?_, truncatesExactly_iff _⟩
  exact looksUp_of_inOrder sorted (inOrder_run empty List.Pairwise.nil ordered)

theorem time_index_correct_late :
    let calls : List TimeIndexCall := [.addEntry 1000 0, .addEntry 3000 20, .addEntry 2000 10, .addEntry 2000 12]
    (Runs.run step {} calls).entries = [⟨1000, 0⟩, ⟨2000, 10⟩, ⟨3000, 20⟩] ∧ (Runs.run step {} calls).LooksUp 1500 := by
  exact ⟨by decide +kernel, (time_index_correct _).2.1 (by decide +kernel) 1500⟩

/-- A truncation removes the entry below the cutoff and keeps the one at it. -/
theorem not_truncatesExactly_pair :
    ¬(Runs.run step {} [.addEntry 1000 0, .addEntry 2000 10]).TruncatesExactly 10 ∧
      ¬(Runs.run step {} [.addEntry 1000 10, .addEntry 2000 5]).LooksUp 1000 := by
  constructor
  · intro truncates
    exact absurd ((truncatesExactly_iff _ _).mp truncates) (by decide +kernel)
  · rintro (⟨none, -⟩ | ⟨entry, -, -, least, found⟩)
    · exact absurd none (by decide +kernel)
    · have first : (Runs.run step {} [.addEntry 1000 10, .addEntry 2000 5]).lookup 1000 = some 10 := by decide +kernel
      have small := least ⟨2000, 5⟩ (by decide +kernel) (by decide)
      rw [first] at found
      rw [← Option.some.inj found] at small
      exact absurd small (by decide)

end TimeIndex

end TorrentMq.Storage
