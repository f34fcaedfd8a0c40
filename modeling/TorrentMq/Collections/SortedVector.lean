import Mathlib.Data.List.TakeWhile
import Mathlib.Order.Lattice

/-!
# Vectors that are sorted by a key

Bisection over vectors, and searches, insertion and thinning of entries that
are kept in the order of their keys.
-/

set_option autoImplicit false

namespace SortedVector

open List

section Bisection

variable {Entry : Type} (below : Entry → Bool)

def bisect (entries : List Entry) : Nat → Nat → Nat → Nat
  | 0, first, _ => first
  | fuel + 1, first, length =>
    if length = 0 then first
    else
      match entries[first + length / 2]? with
      | none => first
      | some middle =>
        if below middle then bisect entries fuel (first + length / 2 + 1) (length - length / 2 - 1)
        else bisect entries fuel first (length / 2)

def partitionPoint (entries : List Entry) : Nat := bisect below entries entries.length 0 entries.length

def Partitioned (entries : List Entry) : Prop :=
  entries.Pairwise fun earlier later => below later = true → below earlier = true

variable {below}

variable {entries : List Entry}

section

variable (partitioned : Partitioned below entries)
include partitioned

theorem Partitioned.below_iff {i : Nat} {entry : Entry} (found : entries[i]? = some entry) :
    below entry = true ↔ i < (entries.takeWhile below).length := by
  induction entries generalizing i with
  | nil => cases found
  | cons first entries ih =>
    obtain ⟨before, rest⟩ := pairwise_cons.mp partitioned
    cases holds : below first with
    | false =>
      rw [takeWhile_cons_of_neg (by simp [holds])]
      cases i with
      | zero =>
        cases found
        simp [holds]
      | succ i =>
        have after : below entry ≠ true := fun also => by
          have := before entry (mem_of_getElem? found) also
          rw [holds] at this
          cases this
        simp [after]
    | true =>
      rw [takeWhile_cons_of_pos holds, length_cons]
      cases i with
      | zero =>
        cases found
        simp [holds]
      | succ i => rw [ih rest found, Nat.succ_lt_succ_iff]

theorem Partitioned.takeWhile_eq_filter : entries.takeWhile below = entries.filter below := by
  induction entries with
  | nil => rfl
  | cons first entries ih =>
    obtain ⟨before, rest⟩ := pairwise_cons.mp partitioned
    cases holds : below first with
    | true => rw [takeWhile_cons_of_pos holds, filter_cons_of_pos holds, ih rest]
    | false =>
      have none : entries.filter below = [] := by
        rw [filter_eq_nil_iff]
        intro entry member also
        rw [before entry member also] at holds
        cases holds
      rw [takeWhile_cons_of_neg (by simp [holds]), filter_cons_of_neg (by simp [holds]), none]

theorem Partitioned.bisect_eq {fuel first length : Nat} (enough : length ≤ fuel)
    (inside : first + length ≤ entries.length) (lower : first ≤ (entries.takeWhile below).length)
    (upper : (entries.takeWhile below).length ≤ first + length) :
    bisect below entries fuel first length = (entries.takeWhile below).length := by
  induction fuel generalizing first length with
  | zero =>
    rw [bisect]
    omega
  | succ fuel ih =>
    rw [bisect]
    split
    · omega
    next some =>
      have position : first + length / 2 < entries.length := by omega
      have point := partitioned.below_iff (getElem?_eq_getElem position)
      rw [getElem?_eq_getElem position]
      dsimp only
      split
      next left =>
        have := point.mp left
        exact ih (by omega) (by omega) (by omega) (by omega)
      next right =>
        have := mt point.mpr right
        exact ih (by omega) (by omega) (by omega) (by omega)

theorem Partitioned.partitionPoint_eq : partitionPoint below entries = (entries.takeWhile below).length := by
  have short := (takeWhile_sublist below (l := entries)).length_le
  exact partitioned.bisect_eq le_rfl (by omega) (by omega) (by omega)

theorem Partitioned.split : ∃ before after, entries = before ++ after ∧ partitionPoint below entries = before.length ∧
      (∀ entry ∈ before, below entry = true) ∧ ∀ entry ∈ after, below entry = false := by
  refine ⟨entries.takeWhile below, entries.dropWhile below, takeWhile_append_dropWhile.symm,
    partitioned.partitionPoint_eq, fun entry member => mem_takeWhile_imp member, ?_⟩
  induction entries with
  | nil => exact fun _ member => (not_mem_nil member).elim
  | cons first entries ih =>
    obtain ⟨before, rest⟩ := pairwise_cons.mp partitioned
    cases holds : below first with
    | true =>
      rw [dropWhile_cons_of_pos holds]
      exact ih rest
    | false =>
      rw [dropWhile_cons_of_neg (by simp [holds])]
      intro entry member
      cases member with
      | head => exact holds
      | tail _ member =>
        refine Bool.eq_false_iff.mpr fun also => ?_
        rw [before entry member also] at holds
        cases holds

end

end Bisection

section Keys

variable {Entry Key : Type} [LinearOrder Key] (key : Entry → Key)

def lowerBound (entries : List Entry) (target : Key) : Nat :=
  partitionPoint (fun entry => decide (key entry < target)) entries

def upperBound (entries : List Entry) (target : Key) : Nat :=
  partitionPoint (fun entry => !decide (target < key entry)) entries

def binarySearchLe (entries : List Entry) (target : Key) : Option Nat :=
  match entries with
  | [] => none
  | front :: _ =>
    if target < key front then none
    else if upperBound key entries target = 0 then none
    else some (upperBound key entries target - 1)

def binarySearchGe (entries : List Entry) (target : Key) : Nat := lowerBound key entries target

def put (merge : Entry → Entry) (entry : Entry) (entries : List Entry) : List Entry :=
  let it := lowerBound key entries (key entry)
  match entries[it]? with
  | none => entries.insertIdx it entry
  | some found => if key found = key entry then entries.set it (merge found) else entries.insertIdx it entry

def add (merge : Entry → Entry) (entry : Entry) (entries : List Entry) : List Entry :=
  match entries.getLast? with
  | none => entries ++ [entry]
  | some back =>
    if key entry < key back then put key merge entry entries
    else if key entry = key back then entries.dropLast ++ [merge back]
    else entries ++ [entry]

def everyOther : List Entry → List Entry
  | [] => []
  | [entry] => [entry]
  | entry :: _ :: entries => entry :: everyOther entries

def pruneHalf (entries : List Entry) : List Entry :=
  match entries with
  | first :: _ :: third :: rest =>
    let back := (third :: rest).getLast (cons_ne_nil _ _)
    let pruned := first :: everyOther (third :: rest).dropLast
    if (pruned.getLast?.map key) ≠ some (key back) then pruned ++ [back] else pruned
  | _ => entries

def Sorted (entries : List Entry) : Prop := entries.Pairwise fun earlier later => key earlier < key later

variable {key}

theorem Sorted.nil : Sorted key [] := List.Pairwise.nil

theorem Sorted.sublist {entries kept : List Entry} (sorted : Sorted key entries) (sub : kept.Sublist entries) :
    Sorted key kept := List.Pairwise.sublist sub sorted

theorem Sorted.append {entries more : List Entry} (sorted : Sorted key entries) (also : Sorted key more)
    (above : ∀ entry ∈ entries, ∀ other ∈ more, key entry < key other) : Sorted key (entries ++ more) :=
  pairwise_append.mpr ⟨sorted, also, above⟩

variable {entries : List Entry}

section

variable (sorted : Sorted key entries)
include sorted

theorem Sorted.le_back {back : Entry}
    (final : entries.getLast? = some back) : ∀ entry ∈ entries, key entry ≤ key back := by
  obtain ⟨front, rfl⟩ := getLast?_eq_some_iff.mp final
  intro entry member
  cases mem_append.mp member with
  | inl early => exact ((pairwise_append.mp sorted).2.2 entry early back mem_cons_self).le
  | inr late => rw [mem_singleton.mp late]

section

variable (target : Key)

theorem Sorted.split_lowerBound :
    ∃ before after, entries = before ++ after ∧ lowerBound key entries target = before.length ∧
      (∀ entry ∈ before, key entry < target) ∧ ∀ entry ∈ after, target ≤ key entry := by
  have partitioned : Partitioned (fun entry => decide (key entry < target)) entries := by
    refine List.Pairwise.imp ?_ sorted
    intro earlier later order below
    exact decide_eq_true (order.trans (of_decide_eq_true below))
  obtain ⟨before, after, split, point, lower, upper⟩ := partitioned.split
  exact ⟨before, after, split, point, fun entry member => of_decide_eq_true (lower entry member),
    fun entry member => not_lt.mp (of_decide_eq_false (upper entry member))⟩

theorem Sorted.split_upperBound :
    ∃ before after, entries = before ++ after ∧ upperBound key entries target = before.length ∧
      (∀ entry ∈ before, key entry ≤ target) ∧ ∀ entry ∈ after, target < key entry := by
  have partitioned : Partitioned (fun entry => !decide (target < key entry)) entries := by
    refine List.Pairwise.imp ?_ sorted
    intro earlier later order below
    simp only [Bool.not_eq_true', decide_eq_false_iff_not, not_lt] at below ⊢
    exact order.le.trans below
  obtain ⟨before, after, split, point, lower, upper⟩ := partitioned.split
  refine ⟨before, after, split, point, fun entry member => ?_, fun entry member => ?_⟩
  · simpa using lower entry member
  · simpa using upper entry member

theorem Sorted.binarySearchLe_spec :
    (binarySearchLe key entries target = none ∧ ∀ entry ∈ entries, target < key entry) ∨
      ∃ before found after, entries = before ++ found :: after ∧
        binarySearchLe key entries target = some before.length ∧ key found ≤ target ∧
        (∀ entry ∈ before, key entry < key found) ∧ ∀ entry ∈ after, target < key entry := by
  obtain ⟨upTo, after, split, point, lower, upper⟩ := sorted.split_upperBound target
  cases upTo.eq_nil_or_concat with
  | inl none =>
    subst none
    refine .inl ⟨?_, ?_⟩
    · unfold binarySearchLe
      cases entries with
      | nil => rfl
      | cons front rest =>
        dsimp only
        split
        · rfl
        · exact if_pos point
    · rw [split]
      exact upper
  | inr some =>
    obtain ⟨before, found, same⟩ := some
    rw [concat_eq_append] at same
    subst same
    refine .inr ⟨before, found, after, ?_, ?_, ?_, ?_, upper⟩
    · rw [split, append_assoc, singleton_append]
    · have positive : upperBound key entries target = before.length + 1 := by
        rw [point, length_append, length_singleton]
      unfold binarySearchLe
      cases entries with
      | nil => simp at split
      | cons front rest =>
        have notBelow : ¬target < key front := by
          have member : front ∈ before ++ [found] := by
            cases before with
            | nil | cons other before => cases split; exact mem_cons_self
          exact not_lt.mpr (lower front member)
        dsimp only
        rw [if_neg notBelow, positive, if_neg (Nat.succ_ne_zero _), Nat.add_sub_cancel]
    · exact lower found (mem_append_right _ mem_cons_self)
    · intro entry member
      rw [split, append_assoc, singleton_append] at sorted
      exact (pairwise_append.mp sorted).2.2 entry member found mem_cons_self

theorem Sorted.binarySearchGe_spec :
    (entries.length ≤ binarySearchGe key entries target ∧ ∀ entry ∈ entries, key entry < target) ∨
      ∃ before found after, entries = before ++ found :: after ∧ binarySearchGe key entries target = before.length ∧
        target ≤ key found ∧ (∀ entry ∈ before, key entry < target) ∧ ∀ entry ∈ after, key found < key entry := by
  obtain ⟨before, after, split, point, lower, upper⟩ := sorted.split_lowerBound target
  cases after with
  | nil =>
    rw [append_nil] at split
    subst split
    exact .inl ⟨point.ge, lower⟩
  | cons found after =>
    refine .inr ⟨before, found, after, split, point, upper found mem_cons_self, lower, ?_⟩
    rw [split] at sorted
    exact (pairwise_cons.mp (pairwise_append.mp sorted).2.1).1

end

end

theorem insertIdx_length_append (before after : List Entry) (entry : Entry) :
    (before ++ after).insertIdx before.length entry = before ++ entry :: after := by
  induction before with
  | nil => rfl
  | cons first before ih => rw [cons_append, length_cons, insertIdx_succ_cons, ih, cons_append]

theorem Sorted.put_cases (sorted : Sorted key entries) (merge : Entry → Entry) (entry : Entry) :
    ∃ before after, (∀ other ∈ before, key other < key entry) ∧ (∀ other ∈ after, key entry < key other) ∧
      (entries = before ++ after ∧ put key merge entry entries = before ++ entry :: after ∨
        ∃ found, key found = key entry ∧ entries = before ++ found :: after ∧
          put key merge entry entries = before ++ merge found :: after) := by
  obtain ⟨before, after, split, point, lower, upper⟩ := sorted.split_lowerBound (key entry)
  cases after with
  | nil =>
    refine ⟨before, [], lower, fun _ member => (not_mem_nil member).elim, .inl ⟨split, ?_⟩⟩
    rw [append_nil] at split
    subst split
    unfold put
    dsimp only
    rw [point, getElem?_eq_none le_rfl]
    exact insertIdx_length_self
  | cons found after =>
    have behind : ∀ other ∈ after, key found < key other := by
      rw [split] at sorted
      exact (pairwise_cons.mp (pairwise_append.mp sorted).2.1).1
    have position : entries[before.length]? = some found := by
      rw [split, getElem?_append_right le_rfl, Nat.sub_self]
      rfl
    by_cases same : key found = key entry
    · refine ⟨before, after, lower, same ▸ behind, .inr ⟨found, same, split, ?_⟩⟩
      unfold put
      dsimp only
      rw [point, position]
      dsimp only
      rw [if_pos same, split, set_append_right _ _ le_rfl, Nat.sub_self, set_cons_zero]
    · have above : key entry < key found := lt_of_le_of_ne (upper found mem_cons_self) (Ne.symm same)
      refine ⟨before, found :: after, lower, ?_, .inl ⟨split, ?_⟩⟩
      · intro other member
        cases member with
        | head => exact above
        | tail _ member => exact above.trans (behind other member)
      · unfold put
        dsimp only
        rw [point, position]
        dsimp only
        rw [if_neg same, split, insertIdx_length_append]

variable {merge : Entry → Entry}

section

variable (sorted : Sorted key entries)

include sorted

theorem Sorted.put {entry : Entry}
    (keeps : ∀ found, key found = key entry → key (merge found) = key entry) :
    Sorted key (SortedVector.put key merge entry entries) := by
  obtain ⟨before, after, lower, upper, placed⟩ := sorted.put_cases merge entry
  have inserted : ∀ new, key new = key entry → Sorted key before → Sorted key after →
      Sorted key (before ++ new :: after) := by
    intro new same first second
    refine first.append (pairwise_cons.mpr ⟨same ▸ upper, second⟩) fun earlier member other behind => ?_
    cases behind with
    | head => exact same ▸ lower earlier member
    | tail _ behind => exact (lower earlier member).trans (upper other behind)
  cases placed with
  | inl inserts =>
    obtain ⟨split, result⟩ := inserts
    rw [split] at sorted
    rw [result]
    exact inserted entry rfl (pairwise_append.mp sorted).1 (pairwise_append.mp sorted).2.1
  | inr merges =>
    obtain ⟨found, same, split, result⟩ := merges
    rw [split] at sorted
    rw [result]
    exact inserted (merge found) (keeps found same) (pairwise_append.mp sorted).1
      (pairwise_cons.mp (pairwise_append.mp sorted).2.1).2

theorem Sorted.mem_put
    {entry other : Entry} (member : other ∈ SortedVector.put key merge entry entries) :
    other ∈ entries ∧ key other ≠ key entry ∨ other = entry ∧ (∀ found ∈ entries, key found ≠ key entry) ∨
      ∃ found ∈ entries, key found = key entry ∧ other = merge found := by
  obtain ⟨before, after, lower, upper, placed⟩ := sorted.put_cases merge entry
  have apart : ∀ other, other ∈ before ∨ other ∈ after → key other ≠ key entry := fun other side =>
    side.elim (fun early => (lower other early).ne) (fun late => (upper other late).ne')
  cases placed with
  | inl inserts =>
    obtain ⟨split, result⟩ := inserts
    rw [result, mem_append, mem_cons] at member
    have absent : ∀ found ∈ entries, key found ≠ key entry := fun found inside =>
      apart found (mem_append.mp (split ▸ inside))
    rcases member with early | rfl | late
    · exact .inl ⟨split ▸ mem_append_left _ early, apart other (.inl early)⟩
    · exact .inr (.inl ⟨rfl, absent⟩)
    · exact .inl ⟨split ▸ mem_append_right _ late, apart other (.inr late)⟩
  | inr merges =>
    obtain ⟨found, same, split, result⟩ := merges
    rw [result, mem_append, mem_cons] at member
    rcases member with early | rfl | late
    · exact .inl ⟨split ▸ mem_append_left _ early, apart other (.inl early)⟩
    · exact .inr (.inr ⟨found, split ▸ mem_append_right _ mem_cons_self, same, rfl⟩)
    · exact .inl ⟨split ▸ mem_append_right _ (mem_cons_of_mem _ late), apart other (.inr late)⟩

theorem Sorted.add_eq_put (merge : Entry → Entry)
    (entry : Entry) : add key merge entry entries = SortedVector.put key merge entry entries := by
  obtain ⟨before, after, lower, upper, placed⟩ := sorted.put_cases merge entry
  unfold add
  cases entries.eq_nil_or_concat with
  | inl none =>
    subst none
    rcases placed with ⟨split, result⟩ | ⟨found, -, split, -⟩
    · obtain ⟨rfl, rfl⟩ := append_eq_nil_iff.mp split.symm
      exact result.symm
    · cases before <;> cases split
  | inr some =>
    obtain ⟨front, back, same⟩ := some
    rw [concat_eq_append] at same
    subst same
    rw [getLast?_concat, dropLast_concat]
    dsimp only
    split
    · rfl
    next notBelow =>
      have last : ∀ rest, front ++ [back] = rest ++ after → after = [] := by
        intro rest split
        cases after.eq_nil_or_concat with
        | inl none => exact none
        | inr some =>
          obtain ⟨middle, final, same⟩ := some
          rw [concat_eq_append] at same
          subst same
          rw [← append_assoc] at split
          cases append_inj_right' split rfl
          exact absurd (upper back (mem_append_right _ mem_cons_self)) notBelow
      rcases placed with ⟨split, result⟩ | ⟨found, same, split, result⟩
      · cases last _ split
        rw [append_nil] at split
        have above := lower back (split ▸ mem_append_right _ mem_cons_self)
        rw [if_neg above.ne', result, split]
      · cases last (before ++ [found]) (by rw [split, append_assoc]; rfl)
        cases append_inj_left' split rfl
        cases append_inj_right' split rfl
        rw [if_pos same.symm, result]

theorem Sorted.add {entry : Entry}
    (keeps : ∀ found, key found = key entry → key (merge found) = key entry) :
    Sorted key (SortedVector.add key merge entry entries) := by
  rw [sorted.add_eq_put]
  exact sorted.put keeps

end

theorem everyOther_sublist (entries : List Entry) : (everyOther entries).Sublist entries := by
  induction entries using everyOther.induct with
  | case1 | case2 entry => exact List.Sublist.refl _
  | case3 entry skipped entries ih => exact (ih.cons skipped).cons_cons entry

theorem pruneHalf_sublist (entries : List Entry) : (pruneHalf key entries).Sublist entries := by
  unfold pruneHalf
  split
  next first second third rest =>
    have middle : (first :: everyOther (third :: rest).dropLast).Sublist (first :: second :: (third :: rest).dropLast) :=
      ((everyOther_sublist _).cons second).cons_cons first
    have whole : (first :: second :: (third :: rest).dropLast) ++ [(third :: rest).getLast (cons_ne_nil _ _)] =
        first :: second :: third :: rest := by
      rw [cons_append, cons_append, dropLast_concat_getLast]
    rw [← whole]
    dsimp only
    split
    · exact middle.append (List.Sublist.refl _)
    · exact middle.trans (sublist_append_left _ _)
  · exact List.Sublist.refl _

end Keys

end SortedVector
