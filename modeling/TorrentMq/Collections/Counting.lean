import Mathlib.Data.List.Count
import TorrentMq.Collections.OrderedMap

/-! How many values of a map have a property. -/

set_option autoImplicit false

namespace OrderedMap

open List

variable {Key Value : Type} [LinearOrder Key] {map : OrderedMap Key Value} {key : Key} {value : Value}

def count (map : OrderedMap Key Value) (counts : Value → Bool) : Nat := map.entries.countP fun entry => counts entry.2

def countAt (map : OrderedMap Key Value) (key : Key) (counts : Value → Bool) : Nat :=
  if (map.find? key).any counts then 1 else 0

variable {counts : Value → Bool}

theorem countAt_of_some (found : map.find? key = some value) :
    map.countAt key counts = if counts value then 1 else 0 := by
  rw [countAt, found, Option.any_some]

theorem countAt_of_none (absent : map.find? key = none) : map.countAt key counts = 0 := by
  rw [countAt, absent]
  rfl

theorem count_le_size : map.count counts ≤ map.size := countP_le_length

theorem count_true : (map.count fun _ => true) = map.size := congrFun countP_true map.entries

theorem filter_entries_eq (key : Key) :
    map.entries.filter (fun entry => decide (entry.1 = key)) = (map.find? key).toList.map fun value => (key, value) := by
  obtain ⟨entries, sorted⟩ := map
  induction entries with
  | nil => rfl
  | cons entry entries ih =>
    rw [pairwise_cons] at sorted
    by_cases same : entry.1 = key
    · subst same
      have rest : entries.filter (fun later => decide (later.1 = entry.1)) = [] := by
        rw [filter_eq_nil_iff]
        intro later listed
        simpa using (sorted.1 later listed).ne'
      rw [filter_cons, if_pos (decide_eq_true rfl), rest, find?]
      simp
    · rw [filter_cons, if_neg (by simpa using same), ih sorted.2, find?, find?]
      simp [same]

theorem count_erase : (map.erase key).count counts + map.countAt key counts = map.count counts := by
  have own : (map.entries.filter fun entry => !decide (entry.1 ≠ key)).countP (fun entry => counts entry.2) =
      map.countAt key counts := by
    have same : (fun entry : Key × Value => !decide (entry.1 ≠ key)) = fun entry => decide (entry.1 = key) := by
      funext entry
      simp
    rw [same, filter_entries_eq, countAt]
    cases map.find? key with
    | none => rfl
    | some value => simp [countP_cons]
  rw [count, count, countP_eq_countP_filter_add map.entries _ fun entry => decide (entry.1 ≠ key), own]
  rfl

theorem count_insert_erase :
    (map.insert key value).count counts = (map.erase key).count counts + if counts value then 1 else 0 := by
  have split (entries : List (Key × Value)) :
      (entries.filter fun entry => decide (entry.1 ≠ key)).countP (fun entry => counts entry.2) =
        (entries.filter fun entry => decide (entry.1 < key)).countP (fun entry => counts entry.2) +
          (entries.filter fun entry => decide (key < entry.1)).countP fun entry => counts entry.2 := by
    induction entries with
    | nil => rfl
    | cons entry entries ih =>
      rcases lt_trichotomy entry.1 key with below | same | above
      · simp [below, below.ne, below.le, countP_cons] at ih ⊢
        omega
      · simpa [same] using ih
      · simp [above, above.ne', above.le, countP_cons] at ih ⊢
        omega
  have erased : (map.erase key).count counts = _ := split map.entries
  rw [erased, count, insert]
  simp only [countP_append, countP_cons]
  omega

theorem count_insert :
    (map.insert key value).count counts + map.countAt key counts =
      map.count counts + if counts value then 1 else 0 := by
  rw [count_insert_erase, ← @count_erase Key Value _ map key]
  omega

theorem size_erase : (map.erase key).size + (if (map.find? key).isSome then 1 else 0) = map.size := by
  have erased := @count_erase Key Value _ map key fun _ => true
  rw [count_true, count_true, countAt] at erased
  cases found : map.find? key with
  | none | some value => rw [found] at erased; exact erased

theorem size_insert : (map.insert key value).size + (if (map.find? key).isSome then 1 else 0) = map.size + 1 := by
  have inserted := @count_insert Key Value _ map key value fun _ => true
  rw [count_true, count_true, countAt] at inserted
  cases found : map.find? key with
  | none | some value => rw [found] at inserted; exact inserted

end OrderedMap
