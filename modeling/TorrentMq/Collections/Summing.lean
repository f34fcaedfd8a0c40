import Mathlib.Algebra.BigOperators.Group.List.Basic
import Mathlib.Algebra.GroupWithZero.Nat
import TorrentMq.Collections.OrderedMap

/-! Sums over the values of a map. -/

set_option autoImplicit false

namespace OrderedMap

open List

variable {Key Value : Type} [LinearOrder Key] {map : OrderedMap Key Value} {key : Key} {value : Value}

def sum (map : OrderedMap Key Value) (weight : Value → Nat) : Nat := (map.entries.map fun entry => weight entry.2).sum

variable {weight : Value → Nat}

theorem nodup_entries : map.entries.Nodup := map.sorted.imp fun below same => below.ne (congrArg Prod.fst same)

theorem entries_insert_perm : (map.insert key value).entries.Perm ((key, value) :: (map.erase key).entries) := by
  have fresh : (key, value) ∉ (map.erase key).entries := by
    intro stored
    simpa using (mem_filter.mp stored).2
  apply (perm_ext_iff_of_nodup nodup_entries (nodup_cons.mpr ⟨fresh, nodup_entries⟩)).mpr
  intro entry
  rw [mem_insert, mem_cons, erase, mem_filter]
  simp

theorem entries_erase_perm (found : map.find? key = some value) :
    map.entries.Perm ((key, value) :: (map.erase key).entries) := by
  have stored := find?_eq_some_iff.mp found
  have fresh : (key, value) ∉ (map.erase key).entries := by
    intro kept
    simpa using (mem_filter.mp kept).2
  apply (perm_ext_iff_of_nodup nodup_entries (nodup_cons.mpr ⟨fresh, nodup_entries⟩)).mpr
  intro entry
  rw [mem_cons, erase, mem_filter]
  constructor
  · intro member
    by_cases own : entry.1 = key
    · left
      have same := find?_eq_some_iff.mpr (show (key, entry.2) ∈ map.entries from own ▸ member)
      exact Prod.ext own (Option.some.inj (same.symm.trans found))
    · exact .inr ⟨member, decide_eq_true own⟩
  · intro among
    cases among with
    | inl own => exact own ▸ stored
    | inr kept => exact kept.1

theorem erase_of_absent (absent : map.find? key = none) : map.erase key = map := by
  apply ext_find?
  intro other
  rw [find?_erase other]
  split
  next own => rw [own, absent]
  next => rfl

theorem sum_insert_erase : (map.insert key value).sum weight = weight value + (map.erase key).sum weight := by
  have same := ((@entries_insert_perm Key Value _ map key value).map fun entry => weight entry.2).sum_eq
  simp only [map_cons, sum_cons] at same
  exact same

theorem sum_erase : (map.erase key).sum weight + ((map.find? key).map weight).getD 0 = map.sum weight := by
  cases found : map.find? key with
  | none =>
    rw [erase_of_absent found]
    rfl
  | some value =>
    have same := ((entries_erase_perm found).map fun entry => weight entry.2).sum_eq
    simp only [map_cons, sum_cons] at same
    exact (Nat.add_comm _ _).trans same.symm

theorem sum_insert :
    (map.insert key value).sum weight + ((map.find? key).map weight).getD 0 = map.sum weight + weight value := by
  rw [sum_insert_erase, ← @sum_erase Key Value _ map key weight]
  omega

end OrderedMap
