import Mathlib.Data.List.Induction
import Mathlib.Data.List.Nodup

/-!
# Grouping

Values grouped by a key, the groups in the order in which their keys first
appear and each group in the order of its values.
-/

set_option autoImplicit false

namespace Collections

open List

variable {Key Value : Type} [DecidableEq Key] (key : Value → Key)

def insertGroup (value : Value) : List (Key × List Value) → List (Key × List Value)
  | [] => [(key value, [value])]
  | (name, values) :: groups =>
    if name = key value then (name, values ++ [value]) :: groups
    else (name, values) :: insertGroup value groups

def grouped (values : List Value) : List (Key × List Value) :=
  values.foldl (fun groups value => insertGroup key value groups) []

def keysOf (values : List Value) : List Key := (values.map key).eraseDups

def valuesOf (values : List Value) (name : Key) : List Value := values.filter fun value => key value = name

variable {key}

theorem valuesOf_concat (values : List Value) (value : Value) (name : Key) :
    valuesOf key (values ++ [value]) name =
      if key value = name then valuesOf key values name ++ [value] else valuesOf key values name := by
  unfold valuesOf
  rw [filter_append, filter_singleton]
  split <;> simp_all

theorem insertGroup_of_not_mem {names : List Key} {value : Value} (absent : key value ∉ names)
    (values : Key → List Value) :
    insertGroup key value (names.map fun name => (name, values name)) =
      names.map (fun name => (name, values name)) ++ [(key value, [value])] := by
  induction names with
  | nil => rfl
  | cons name names ih =>
    have different : name ≠ key value := fun same => absent (same ▸ mem_cons_self)
    rw [map_cons, insertGroup, if_neg different, ih (not_mem_of_not_mem_cons absent), cons_append]

theorem insertGroup_of_mem {names : List Key} {value : Value} (once : names.Nodup) (present : key value ∈ names)
    (values : Key → List Value) :
    insertGroup key value (names.map fun name => (name, values name)) =
      names.map fun name => (name, if key value = name then values name ++ [value] else values name) := by
  induction names with
  | nil => cases present
  | cons name names ih =>
    obtain ⟨fresh, once⟩ := nodup_cons.mp once
    rw [map_cons, insertGroup, map_cons]
    split
    next same =>
      rw [if_pos same.symm]
      congr 1
      refine map_congr_left ?_
      intro other member
      have different : key value ≠ other := fun equal => fresh (same.trans equal ▸ member)
      rw [if_neg different]
    next different =>
      have further := (mem_cons.mp present).resolve_left (Ne.symm different)
      rw [if_neg (Ne.symm different), ih once further]

theorem eraseDups_concat (names : List Key) (name : Key) :
    (names ++ [name]).eraseDups = if name ∈ names then names.eraseDups else names.eraseDups ++ [name] := by
  rw [eraseDups_append]
  unfold removeAll
  rw [filter_singleton]
  by_cases present : name ∈ names
  · have elem : names.elem name = true := elem_iff.mpr present
    rw [if_pos present, elem]
    exact append_nil _
  · have elem : names.elem name = false := Bool.eq_false_iff.mpr fun found => present (elem_iff.mp found)
    rw [if_neg present, elem]
    rfl

theorem keysOf_concat (values : List Value) (value : Value) : keysOf key (values ++ [value]) =
    if key value ∈ values.map key then keysOf key values else keysOf key values ++ [key value] := by
  unfold keysOf
  rw [map_append, map_singleton, eraseDups_concat]

theorem mem_keysOf {values : List Value} {name : Key} : name ∈ keysOf key values ↔ name ∈ values.map key :=
  mem_eraseDups

theorem nodup_keysOf (values : List Value) : (keysOf key values).Nodup := by
  induction values using List.reverseRecOn with
  | nil => exact nodup_nil
  | append_singleton values value ih =>
    rw [keysOf_concat]
    split
    next => exact ih
    next absent =>
      refine nodup_append.mpr ⟨ih, nodup_singleton _, ?_⟩
      rintro other member last final rfl
      cases mem_singleton.mp final
      exact absent (mem_keysOf.mp member)

theorem grouped_eq (values : List Value) :
    grouped key values = (keysOf key values).map fun name => (name, valuesOf key values name) := by
  induction values using List.reverseRecOn with
  | nil => rfl
  | append_singleton values value ih =>
    unfold grouped at ih ⊢
    rw [foldl_append, foldl_cons, foldl_nil, ih, keysOf_concat]
    by_cases present : key value ∈ values.map key
    · rw [if_pos present, insertGroup_of_mem (nodup_keysOf values) (mem_keysOf.mpr present)]
      refine map_congr_left ?_
      intro name _
      rw [valuesOf_concat]
    · have absent : key value ∉ keysOf key values := fun member => present (mem_keysOf.mp member)
      have none_yet : valuesOf key values (key value) = [] := by
        refine filter_eq_nil_iff.mpr ?_
        intro other member same
        exact present (mem_map.mpr ⟨other, member, of_decide_eq_true same⟩)
      rw [if_neg present, insertGroup_of_not_mem absent, map_append, map_singleton, valuesOf_concat,
        if_pos rfl, none_yet, nil_append]
      congr 1
      refine map_congr_left ?_
      intro name member
      have different : key value ≠ name := fun same => absent (same ▸ member)
      rw [valuesOf_concat, if_neg different]

end Collections
