import Mathlib.Algebra.BigOperators.Group.List.Basic
import Mathlib.Algebra.GroupWithZero.Nat
import Mathlib.Algebra.Ring.Int.Defs
import Mathlib.Data.List.AList
import Mathlib.Data.List.Basic

/-!
# Linked lists with stable iterators

A list whose nodes keep their iterators when others come and go, and tables
that hold for each key the iterator of its node.
-/

set_option autoImplicit false

structure NodeList (Value : Type) where
  nodes : List (Nat × Value)
  fresh : Nat
  unique : (nodes.map Prod.fst).Nodup
  below : ∀ node ∈ nodes, node.1 < fresh

namespace NodeList

open List

variable {Value : Type}

def empty : NodeList Value := ⟨[], 0, nodup_nil, fun _ member => (not_mem_nil member).elim⟩

def values (list : NodeList Value) : List Value := list.nodes.map Prod.snd

def find? (list : NodeList Value) (iterator : Nat) : Option Value := list.nodes.lookup iterator

def back? (list : NodeList Value) : Option Value := list.values.getLast?

def keep (list : NodeList Value) (nodes : List (Nat × Value)) (sub : nodes.Sublist list.nodes) : NodeList Value :=
  ⟨nodes, list.fresh, (sub.map Prod.fst).nodup list.unique, fun node member => list.below node (sub.subset member)⟩

def pushFront (list : NodeList Value) (value : Value) : NodeList Value where
  nodes := (list.fresh, value) :: list.nodes
  fresh := list.fresh + 1
  unique := by
    refine nodup_cons.mpr ⟨fun member => ?_, list.unique⟩
    obtain ⟨node, inside, same⟩ := mem_map.mp member
    exact Nat.ne_of_lt (list.below node inside) same
  below := by
    intro node member
    cases member with
    | head => exact Nat.lt_succ_self _
    | tail _ member => exact Nat.lt_succ_of_lt (list.below node member)

def popBack (list : NodeList Value) : NodeList Value := list.keep list.nodes.dropLast (dropLast_sublist _)

def erase (list : NodeList Value) (iterator : Nat) : NodeList Value :=
  list.keep (list.nodes.filter fun node => decide (node.1 ≠ iterator)) filter_sublist

def clear (list : NodeList Value) : NodeList Value := list.keep [] (nil_sublist _)

def modify (list : NodeList Value) (iterator : Nat) (change : Value → Value) : NodeList Value where
  nodes := list.nodes.map fun node => (node.1, if node.1 = iterator then change node.2 else node.2)
  fresh := list.fresh
  unique := by
    rw [map_map]
    exact list.unique
  below := by
    intro node member
    obtain ⟨old, inside, rfl⟩ := mem_map.mp member
    exact list.below old inside

def splice (list : NodeList Value) (iterator : Nat) : NodeList Value where
  nodes := list.nodes.filter (fun node => decide (node.1 = iterator)) ++
    list.nodes.filter fun node => decide (node.1 ≠ iterator)
  fresh := list.fresh
  unique := by
    have perm : (list.nodes.filter (fun node => decide (node.1 = iterator)) ++
        list.nodes.filter fun node => !decide (node.1 = iterator)).Perm list.nodes :=
      filter_append_perm _ _
    simp only [← decide_not] at perm
    exact (perm.map Prod.fst).nodup_iff.mpr list.unique
  below := by
    intro node member
    cases mem_append.mp member with
    | inl here => exact list.below node (mem_of_mem_filter here)
    | inr there => exact list.below node (mem_of_mem_filter there)

variable {iterator : Nat} {value : Value}

theorem lookup_eq_some_iff_mem {nodes : List (Nat × Value)} (unique : (nodes.map Prod.fst).Nodup)
    : nodes.lookup iterator = some value ↔ (iterator, value) ∈ nodes := by
  induction nodes with
  | nil => simp
  | cons node nodes ih =>
    obtain ⟨other, stored⟩ := node
    obtain ⟨absent, rest⟩ := nodup_cons.mp unique
    by_cases same : iterator = other
    · subst same
      have none : (iterator, value) ∉ nodes := fun member =>
        absent (mem_map.mpr ⟨(iterator, value), member, rfl⟩)
      rw [lookup_cons_self, mem_cons]
      simp [none, eq_comm]
    · rw [lookup_cons, beq_false_of_ne same, mem_cons]
      simp only [Prod.mk.injEq, same, false_and, false_or]
      exact ih rest

variable {list : NodeList Value}

theorem find?_eq_some_iff : list.find? iterator = some value ↔ (iterator, value) ∈ list.nodes :=
  lookup_eq_some_iff_mem list.unique

theorem mem_unique {left right : Value}
    (leftMember : (iterator, left) ∈ list.nodes) (rightMember : (iterator, right) ∈ list.nodes) : left = right :=
  Option.some.inj ((find?_eq_some_iff.mpr leftMember).symm.trans (find?_eq_some_iff.mpr rightMember))

theorem splice_perm (list : NodeList Value) (iterator : Nat) : (list.splice iterator).nodes.Perm list.nodes := by
  have split : (list.nodes.filter (fun node => decide (node.1 = iterator)) ++
      list.nodes.filter fun node => !decide (node.1 = iterator)).Perm list.nodes := filter_append_perm _ _
  simp only [← decide_not] at split
  exact split

theorem splice_nodes (member : (iterator, value) ∈ list.nodes) :
    (list.splice iterator).nodes = (iterator, value) :: list.nodes.filter fun node => decide (node.1 ≠ iterator) := by
  have only : list.nodes.filter (fun node => decide (node.1 = iterator)) = [(iterator, value)] := by
    have unique := list.unique
    generalize list.nodes = nodes at member unique
    induction nodes with
    | nil => cases member
    | cons node nodes ih =>
      obtain ⟨absent, rest⟩ := nodup_cons.mp unique
      cases member with
      | head =>
        rw [filter_cons_of_pos (by simp), filter_eq_nil_iff.mpr]
        intro other inside same
        rw [decide_eq_true_eq] at same
        exact absent (mem_map.mpr ⟨other, inside, same⟩)
      | tail _ member =>
        have apart : node.1 ≠ iterator := fun same =>
          absent (mem_map.mpr ⟨(iterator, value), member, same.symm⟩)
        rw [filter_cons_of_neg (by simpa using apart), ih member rest]
  unfold splice
  dsimp only
  rw [only]
  rfl

theorem perm_erase
    (member : (iterator, value) ∈ list.nodes) : list.nodes.Perm ((iterator, value) :: (list.erase iterator).nodes) := by
  have perm := list.splice_perm iterator
  rw [splice_nodes member] at perm
  exact perm.symm

theorem ahead_erase {node : Nat × Value} {rest : List (Nat × Value)}
    (ahead : (node :: rest).Sublist list.nodes) : rest.Sublist (list.erase node.1).nodes := by
  have unique := (ahead.map Prod.fst).nodup list.unique
  have absent := (nodup_cons.mp unique).1
  have apart : rest.filter (fun other => decide (other.1 ≠ node.1)) = rest := by
    refine filter_eq_self.mpr fun other member => decide_eq_true fun same => absent ?_
    exact mem_map.mpr ⟨other, member, same⟩
  rw [← apart]
  exact ((sublist_cons_self _ _).trans ahead).filter _

theorem exists_back (filled : list.nodes ≠ []) : ∃ value, list.back? = some value := by
  cases back : list.back? with
  | none => exact (filled (map_eq_nil_iff.mp (getLast?_eq_none_iff.mp back))).elim
  | some value => exact ⟨value, rfl⟩

theorem back?_eq_some (back : list.back? = some value) :
    ∃ iterator, list.nodes = list.popBack.nodes ++ [(iterator, value)] := by
  rw [back?, values, getLast?_map, Option.map_eq_some_iff] at back
  obtain ⟨⟨iterator, stored⟩, last, rfl⟩ := back
  obtain ⟨front, split⟩ := getLast?_eq_some_iff.mp last
  refine ⟨iterator, ?_⟩
  unfold popBack keep
  dsimp only
  rw [split, dropLast_concat]

variable (measure : Value → Int)

def total (list : NodeList Value) : Int := (list.values.map measure).sum

theorem total_of_perm {left right : NodeList Value} (perm : left.nodes.Perm right.nodes) :
    left.total measure = right.total measure :=
  List.Perm.sum_eq ((perm.map Prod.snd).map measure)

@[simp] theorem total_pushFront (list : NodeList Value) (value : Value) :
    (list.pushFront value).total measure = measure value + list.total measure :=
  sum_cons

@[simp] theorem total_splice (list : NodeList Value) (iterator : Nat) :
    (list.splice iterator).total measure = list.total measure :=
  total_of_perm measure (list.splice_perm iterator)

theorem total_erase (member : (iterator, value) ∈ list.nodes) :
    list.total measure = measure value + (list.erase iterator).total measure :=
  (List.Perm.sum_eq (((perm_erase member).map Prod.snd).map measure)).trans sum_cons

theorem total_popBack (back : list.back? = some value) :
    list.total measure = list.popBack.total measure + measure value := by
  obtain ⟨iterator, split⟩ := back?_eq_some back
  unfold total values
  rw [split, map_append, map_append, sum_append]
  simp

theorem total_modify (member : (iterator, value) ∈ list.nodes) (change : Value → Value) :
    (list.modify iterator change).total measure + measure value = list.total measure + measure (change value) := by
  have changed : (iterator, change value) ∈ (list.modify iterator change).nodes :=
    mem_map.mpr ⟨_, member, by simp⟩
  have others : (list.modify iterator change).erase iterator = list.erase iterator := by
    unfold erase keep modify
    simp only [mk.injEq, and_true]
    rw [filter_map]
    refine (map_congr_left fun node inside => ?_).trans (map_id _)
    obtain ⟨_, apart⟩ := List.mem_filter.mp inside
    simp only [Function.comp_apply, ne_eq, decide_eq_true_eq] at apart
    rw [if_neg apart]
    rfl
  rw [total_erase measure member, total_erase measure changed, others]
  omega

variable {Key : Type}

variable {Stored : Type}

theorem lookup_insert_eq [DecidableEq Key] (table : AList fun _ : Key => Stored) (key : Key)
    (stored : Stored) (other : Key) :
    (table.insert key stored).lookup other = if other = key then some stored else table.lookup other := by
  split
  next same => rw [same, AList.lookup_insert]
  next different => exact AList.lookup_insert_ne different

theorem lookup_erase_eq [DecidableEq Key] (table : AList fun _ : Key => Stored) (key other : Key) :
    (table.erase key).lookup other = if other = key then none else table.lookup other := by
  split
  next same => rw [same, AList.lookup_erase]
  next different => exact AList.lookup_erase_ne different

def tableTotal {Stored : Type} (amount : Stored → Nat) (table : AList fun _ : Key => Stored) : Nat :=
  (table.entries.map fun entry => amount entry.2).sum

theorem tableTotal_insert [DecidableEq Key] (amount : Stored → Nat)
    (table : AList fun _ : Key => Stored) (key : Key) (stored : Stored) :
    tableTotal amount (table.insert key stored) = amount stored + tableTotal amount (table.erase key) := by
  exact sum_cons

variable {table : AList fun _ : Key => Stored}

theorem tableTotal_erase [DecidableEq Key] (amount : Stored → Nat) {key : Key} {stored : Stored}
    (found : table.lookup key = some stored) :
    tableTotal amount table = amount stored + tableTotal amount (table.erase key) := by
  have present : key ∈ table.entries.keys := by
    refine AList.lookup_isSome.mp ?_
    rw [found]
    rfl
  obtain ⟨other, front, back, _, entries, erased⟩ := exists_of_kerase present
  have member : ⟨key, other⟩ ∈ table.entries := by
    rw [entries]
    exact mem_append_right _ mem_cons_self
  have same : some other = some stored :=
    ((mem_dlookup_iff table.nodupKeys).mpr member).symm.trans found
  cases same
  have perm : table.entries.Perm (⟨key, stored⟩ :: table.entries.kerase key) := by
    rw [erased, entries]
    exact perm_middle
  exact (List.Perm.sum_eq (perm.map fun entry => amount entry.2)).trans sum_cons

theorem tableTotal_erase_of_none [DecidableEq Key] (amount : Stored → Nat) {key : Key} (missing : table.lookup key = none) :
    tableTotal amount (table.erase key) = tableTotal amount table := by
  have absent : key ∉ table.entries.keys := AList.lookup_eq_none.mp missing
  exact congrArg (fun entries => (entries.map fun entry => amount entry.2).sum) (kerase_of_notMem_keys absent)

/-- Each key of the list is there once, and a table has the iterators of all of them. -/
structure Indexed (keyOf : Value → Key) (list : NodeList Value) (locate : Key → Option Nat) : Prop where
  distinct : (list.values.map keyOf).Nodup
  located : ∀ key iterator, locate key = some iterator ↔ ∃ value, (iterator, value) ∈ list.nodes ∧ keyOf value = key

namespace Indexed

variable {keyOf : Value → Key} {list : NodeList Value} {locate after : Key → Option Nat}

variable {iterator : Nat}

theorem find?_eq_some (indexed : Indexed keyOf list locate) {key : Key}
    (found : locate key = some iterator) : ∃ value, list.find? iterator = some value ∧ keyOf value = key := by
  obtain ⟨value, member, same⟩ := (indexed.located key iterator).mp found
  exact ⟨value, find?_eq_some_iff.mpr member, same⟩

theorem isSome_iff (indexed : Indexed keyOf list locate) (key : Key) :
    (locate key).isSome ↔ key ∈ list.values.map keyOf := by
  rw [Option.isSome_iff_exists, values, map_map, mem_map]
  constructor
  · rintro ⟨iterator, found⟩
    obtain ⟨value, member, same⟩ := (indexed.located key iterator).mp found
    exact ⟨(iterator, value), member, same⟩
  · rintro ⟨⟨iterator, value⟩, member, same⟩
    exact ⟨iterator, (indexed.located key iterator).mpr ⟨value, member, same⟩⟩

theorem perm_keys [DecidableEq Key] {Stored : Type} {table : AList fun _ : Key => Stored} {iteratorOf : Stored → Nat}
    (indexed : Indexed keyOf list fun key => (table.lookup key).map iteratorOf) :
    table.keys.Perm (list.values.map keyOf) := by
  refine (perm_ext_iff_of_nodup table.keys_nodup indexed.distinct).mpr fun key => ?_
  rw [← indexed.isSome_iff, Option.isSome_map, AList.lookup_isSome]
  rfl

variable {value : Value}

section

variable (indexed : Indexed keyOf list locate)

include indexed

theorem pushFront [DecidableEq Key] (absent : locate (keyOf value) = none)
    (inserted : ∀ key, after key = if key = keyOf value then some list.fresh else locate key) :
    Indexed keyOf (list.pushFront value) after := by
  have new : keyOf value ∉ list.values.map keyOf := by
    rw [← indexed.isSome_iff, absent]
    exact Bool.false_ne_true
  refine ⟨nodup_cons.mpr ⟨new, indexed.distinct⟩, fun key iterator => ?_⟩
  rw [inserted]
  constructor
  · split
    next same =>
      intro found
      cases found
      exact ⟨value, mem_cons_self, same.symm⟩
    next =>
      intro found
      obtain ⟨stored, member, same⟩ := (indexed.located key iterator).mp found
      exact ⟨stored, mem_cons_of_mem _ member, same⟩
  · rintro ⟨stored, member, rfl⟩
    cases member with
    | head => exact if_pos rfl
    | tail _ member =>
      rw [if_neg]
      · exact (indexed.located _ _).mpr ⟨stored, member, rfl⟩
      · intro same
        have found := (indexed.located _ iterator).mpr ⟨stored, member, same⟩
        rw [absent] at found
        cases found

theorem keep {nodes : List (Nat × Value)} (sub : nodes.Sublist list.nodes)
    (kept : ∀ key iterator, after key = some iterator ↔
      locate key = some iterator ∧ ∃ value, (iterator, value) ∈ nodes) :
    Indexed keyOf (list.keep nodes sub) after := by
  refine ⟨((sub.map Prod.snd).map keyOf).nodup indexed.distinct, fun key iterator => ?_⟩
  rw [kept, indexed.located]
  constructor
  · rintro ⟨⟨value, member, same⟩, other, left⟩
    cases mem_unique member (sub.subset left)
    exact ⟨value, left, same⟩
  · rintro ⟨value, left, same⟩
    exact ⟨⟨value, sub.subset left, same⟩, value, left⟩

theorem node_unique {left right : Nat × Value} (leftMember : left ∈ list.nodes)
    (rightMember : right ∈ list.nodes) (same : keyOf left.2 = keyOf right.2) : left = right := by
  have first := (indexed.located (keyOf left.2) left.1).mpr ⟨left.2, leftMember, rfl⟩
  have second := (indexed.located (keyOf left.2) right.1).mpr ⟨right.2, rightMember, same.symm⟩
  have iterator : left.1 = right.1 := Option.some.inj (first.symm.trans second)
  obtain ⟨leftIterator, leftValue⟩ := left
  obtain ⟨rightIterator, rightValue⟩ := right
  cases iterator
  cases mem_unique leftMember rightMember
  rfl

theorem erase [DecidableEq Key] {key : Key}
    (found : locate key = some iterator) (erased : ∀ other, after other = if other = key then none else locate other) :
    Indexed keyOf (list.erase iterator) after := by
  obtain ⟨value, member, same⟩ := (indexed.located key iterator).mp found
  refine indexed.keep filter_sublist fun other otherIterator => ?_
  rw [erased]
  split
  next equal =>
    subst equal
    refine ⟨fun none => (by cases none), ?_⟩
    rintro ⟨again, stored, left⟩
    rw [found] at again
    cases again
    exact absurd rfl (of_decide_eq_true (List.mem_filter.mp left).2)
  next different =>
    refine ⟨fun located => ⟨located, ?_⟩, And.left⟩
    obtain ⟨stored, inside, key⟩ := (indexed.located other otherIterator).mp located
    refine ⟨stored, List.mem_filter.mpr ⟨inside, decide_eq_true fun iterators => different ?_⟩⟩
    dsimp only at iterators
    rw [iterators] at inside
    cases mem_unique member inside
    exact key.symm.trans same

theorem popBack [DecidableEq Key] (back : list.back? = some value)
    (erased : ∀ key, after key = if key = keyOf value then none else locate key) :
    Indexed keyOf list.popBack after := by
  obtain ⟨iterator, split⟩ := back?_eq_some back
  generalize list.popBack.nodes = front at split
  have member : (iterator, value) ∈ list.nodes := by
    rw [split]
    exact mem_append_right _ mem_cons_self
  have absent : ∀ stored, (iterator, stored) ∉ front := by
    intro stored inside
    have unique := list.unique
    rw [split, map_append] at unique
    exact (nodup_append.mp unique).2.2 iterator (mem_map.mpr ⟨_, inside, rfl⟩) iterator mem_cons_self rfl
  refine indexed.keep (dropLast_sublist _) fun key other => ?_
  rw [erased, split, dropLast_concat]
  split
  next same =>
    refine ⟨fun none => (by cases none), ?_⟩
    rintro ⟨found, stored, left⟩
    obtain ⟨there, inside, also⟩ := (indexed.located key other).mp found
    cases indexed.node_unique inside member (also.trans same)
    exact (absent stored left).elim
  next different =>
    refine ⟨fun found => ⟨found, ?_⟩, And.left⟩
    obtain ⟨stored, inside, same⟩ := (indexed.located key other).mp found
    rw [split, mem_append, mem_singleton] at inside
    cases inside with
    | inl early => exact ⟨stored, early⟩
    | inr last =>
      cases last
      exact absurd same.symm different

end

theorem modify_keys (list : NodeList Value) (iterator : Nat) {change : Value → Value}
    (keeps : ∀ value, keyOf (change value) = keyOf value) :
    (list.modify iterator change).values.map keyOf = list.values.map keyOf := by
  unfold values NodeList.modify
  rw [map_map, map_map, map_map]
  refine map_congr_left fun node _ => ?_
  dsimp only [Function.comp_apply]
  split
  · exact keeps node.2
  · rfl

section

variable (indexed : Indexed keyOf list locate)

include indexed

theorem modify (iterator : Nat) {change : Value → Value}
    (keeps : ∀ value, keyOf (change value) = keyOf value) : Indexed keyOf (list.modify iterator change) locate := by
  have changed : ∀ node : Nat × Value, keyOf (if node.1 = iterator then change node.2 else node.2) = keyOf node.2 := by
    intro node
    split
    · exact keeps node.2
    · rfl
  constructor
  · rw [modify_keys list iterator keeps]
    exact indexed.distinct
  · intro key other
    rw [indexed.located]
    constructor
    · rintro ⟨value, member, same⟩
      exact ⟨_, mem_map_of_mem member, (changed (other, value)).trans same⟩
    · rintro ⟨value, member, same⟩
      obtain ⟨node, inside, equal⟩ := mem_map.mp member
      cases equal
      exact ⟨node.2, inside, (changed node).symm.trans same⟩

theorem splice (iterator : Nat) :
    Indexed keyOf (list.splice iterator) locate := by
  have perm := list.splice_perm iterator
  refine ⟨((perm.map Prod.snd).map keyOf).nodup_iff.mpr indexed.distinct, fun key other => ?_⟩
  rw [indexed.located]
  simp only [perm.mem_iff]

theorem splice_keys [DecidableEq Key] (member : (iterator, value) ∈ list.nodes) :
    (list.splice iterator).values.map keyOf =
      keyOf value :: (list.values.map keyOf).filter fun key => decide (key ≠ keyOf value) := by
  unfold values
  rw [splice_nodes member, map_cons, map_cons, map_map, map_map, filter_map]
  refine congrArg (keyOf value :: ·) (congrArg (List.map (keyOf ∘ Prod.snd)) (filter_congr fun node inside => ?_))
  refine decide_eq_decide.mpr (not_congr ⟨fun same => ?_, fun same => ?_⟩)
  · obtain ⟨place, stored⟩ := node
    dsimp only at same
    subst same
    exact congrArg keyOf (mem_unique inside member)
  · exact congrArg Prod.fst (indexed.node_unique inside member same)

end

end Indexed

end NodeList
