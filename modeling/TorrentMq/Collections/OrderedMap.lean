import Mathlib.Data.List.Basic
import Mathlib.Data.List.Perm.Subperm
import Mathlib.Order.Lattice

/-!
# Ordered maps

A finite map with its entries in ascending order of their keys.
-/

set_option autoImplicit false

structure OrderedMap (Key Value : Type) [LT Key] where
  entries : List (Key × Value)
  sorted : entries.Pairwise (fun left right => left.1 < right.1)

namespace OrderedMap

open List

variable {Key Value : Type} [LinearOrder Key]

instance [DecidableEq Value] : DecidableEq (OrderedMap Key Value) := fun left right =>
  decidable_of_iff (left.entries = right.entries) (by cases left; cases right; simp)

def empty : OrderedMap Key Value := ⟨[], .nil⟩

def find? (map : OrderedMap Key Value) (key : Key) : Option Value :=
  (map.entries.find? fun entry => decide (entry.1 = key)).map Prod.snd

def insert (map : OrderedMap Key Value) (key : Key) (value : Value) : OrderedMap Key Value where
  entries := map.entries.filter (fun entry => decide (entry.1 < key)) ++
    (key, value) :: map.entries.filter (fun entry => decide (key < entry.1))
  sorted := by
    rw [pairwise_append]
    refine ⟨map.sorted.filter _, pairwise_cons.mpr ⟨?_, map.sorted.filter _⟩, ?_⟩
    · intro above member
      exact of_decide_eq_true (List.mem_filter.mp member).2
    · intro below member entry member'
      have lower := of_decide_eq_true (List.mem_filter.mp member).2
      rcases mem_cons.mp member' with rfl | above
      · exact lower
      · exact lower.trans (of_decide_eq_true (List.mem_filter.mp above).2)

def filter (map : OrderedMap Key Value) (keep : Key → Bool) : OrderedMap Key Value where
  entries := map.entries.filter fun entry => keep entry.1
  sorted := map.sorted.filter _

def filterValues (map : OrderedMap Key Value) (keep : Value → Bool) : OrderedMap Key Value where
  entries := map.entries.filter fun entry => keep entry.2
  sorted := map.sorted.filter _

def erase (map : OrderedMap Key Value) (key : Key) : OrderedMap Key Value :=
  map.filter fun other => decide (other ≠ key)

def modify (map : OrderedMap Key Value) (key : Key) (change : Value → Value) : OrderedMap Key Value :=
  match map.find? key with
  | some value => map.insert key (change value)
  | none => map

def mapValues {Result : Type} (map : OrderedMap Key Value) (change : Key → Value → Result) :
    OrderedMap Key Result where
  entries := map.entries.map fun entry => (entry.1, change entry.1 entry.2)
  sorted := map.sorted.map _ fun _ _ below => below

def keys (map : OrderedMap Key Value) : List Key := map.entries.map Prod.fst

def size (map : OrderedMap Key Value) : Nat := map.entries.length

def first? (map : OrderedMap Key Value) : Option (Key × Value) := map.entries.head?

def last? (map : OrderedMap Key Value) : Option (Key × Value) := map.entries.getLast?

/-!
## Lookups
-/

variable {map : OrderedMap Key Value} {key : Key} {value : Value}

theorem find?_eq_some_iff : map.find? key = some value ↔ (key, value) ∈ map.entries := by
  obtain ⟨entries, sorted⟩ := map
  unfold find?
  dsimp only
  induction entries with
  | nil => simp
  | cons entry entries ih =>
    obtain ⟨above, sorted⟩ := pairwise_cons.mp sorted
    have rest := ih sorted
    by_cases same : entry.1 = key
    · rw [find?_cons_of_pos (by simpa using same)]
      constructor
      · rintro found
        obtain rfl := Option.some.inj found
        rw [← same]
        exact mem_cons_self
      · intro member
        rcases mem_cons.mp member with rfl | later
        · rfl
        · exact absurd same (above _ later).ne
    · rw [find?_cons_of_neg (by simpa using same), rest, mem_cons]
      refine ⟨.inr, fun member => member.resolve_left ?_⟩
      rintro rfl
      exact same rfl

theorem find?_eq_none_iff : map.find? key = none ↔ ∀ entry ∈ map.entries, entry.1 ≠ key := by
  constructor
  · rintro missing ⟨other, stored⟩ member rfl
    rw [find?_eq_some_iff.mpr member] at missing
    cases missing
  · intro absent
    by_contra present
    obtain ⟨stored, found⟩ := Option.ne_none_iff_exists'.mp present
    exact absent _ (find?_eq_some_iff.mp found) rfl

variable {entry : Key × Value}

theorem mem_insert :
    entry ∈ (map.insert key value).entries ↔ entry = (key, value) ∨ entry ∈ map.entries ∧ entry.1 ≠ key := by
  simp only [insert, mem_append, mem_cons, List.mem_filter, decide_eq_true_eq]
  constructor
  · rintro (⟨member, below⟩ | same | ⟨member, above⟩)
    · exact .inr ⟨member, below.ne⟩
    · exact .inl same
    · exact .inr ⟨member, above.ne'⟩
  · rintro (same | ⟨member, differs⟩)
    · exact .inr (.inl same)
    · rcases lt_or_gt_of_ne differs with below | above
      · exact .inl ⟨member, below⟩
      · exact .inr (.inr ⟨member, above⟩)

theorem mem_filter {keep : Key → Bool} :
    entry ∈ (map.filter keep).entries ↔ entry ∈ map.entries ∧ keep entry.1 = true :=
  List.mem_filter

theorem find?_filter (keep : Key → Bool) :
    (map.filter keep).find? key = if keep key then map.find? key else none := by
  split
  next kept =>
    cases found : map.find? key with
    | none =>
      rw [find?_eq_none_iff] at found ⊢
      exact fun entry member => found entry (mem_filter.mp member).1
    | some stored =>
      rw [find?_eq_some_iff] at found ⊢
      exact mem_filter.mpr ⟨found, kept⟩
  next dropped =>
    rw [find?_eq_none_iff]
    rintro entry member rfl
    exact dropped (mem_filter.mp member).2

theorem find?_filterValues (keep : Value → Bool) (key : Key) :
    (map.filterValues keep).find? key = (map.find? key).filter keep := by
  cases found : map.find? key with
  | none =>
    rw [Option.filter_none, find?_eq_none_iff]
    rw [find?_eq_none_iff] at found
    exact fun entry member => found entry (List.mem_filter.mp member).1
  | some stored =>
    rw [find?_eq_some_iff] at found
    rw [Option.filter_some]
    split
    next kept => exact find?_eq_some_iff.mpr (List.mem_filter.mpr ⟨found, kept⟩)
    next dropped =>
      rw [find?_eq_none_iff]
      rintro ⟨other, value⟩ member rfl
      obtain ⟨listed, kept⟩ := List.mem_filter.mp member
      have same := (find?_eq_some_iff.mpr listed).symm.trans (find?_eq_some_iff.mpr found)
      rw [Option.some.inj same] at kept
      exact dropped kept

theorem find?_insert (other : Key) [Decidable (other = key)] :
    (map.insert key value).find? other = if other = key then some value else map.find? other := by
  split
  next same =>
    rw [find?_eq_some_iff, mem_insert, same]
    exact .inl rfl
  next differs =>
    cases found : map.find? other with
    | none =>
      rw [find?_eq_none_iff] at found ⊢
      intro entry member
      rcases mem_insert.mp member with rfl | ⟨old, -⟩
      · exact fun same => differs same.symm
      · exact found entry old
    | some stored =>
      rw [find?_eq_some_iff] at found ⊢
      exact mem_insert.mpr (.inr ⟨found, differs⟩)

theorem find?_erase (other : Key) [Decidable (other = key)] :
    (map.erase key).find? other = if other = key then none else map.find? other := by
  rw [erase, find?_filter]
  by_cases same : other = key
  · simp [same]
  · simp [same]

theorem find?_modify (change : Value → Value) (other : Key) [Decidable (other = key)] :
    (map.modify key change).find? other =
      if other = key then (map.find? key).map change else map.find? other := by
  unfold modify
  cases found : map.find? key with
  | none =>
    dsimp only
    split
    next same => rw [same, found, Option.map_none]
    next => rfl
  | some stored => exact find?_insert other

theorem find?_mapValues {Result : Type} (change : Key → Value → Result) (key : Key) :
    (map.mapValues change).find? key = (map.find? key).map (change key) := by
  cases found : map.find? key with
  | none =>
    rw [find?_eq_none_iff] at found
    rw [Option.map_none, find?_eq_none_iff]
    intro entry member
    obtain ⟨stored, listed, rfl⟩ := mem_map.mp member
    exact found stored listed
  | some stored =>
    rw [Option.map_some, find?_eq_some_iff]
    exact mem_map.mpr ⟨(key, stored), find?_eq_some_iff.mp found, rfl⟩

@[simp] theorem find?_empty : (empty : OrderedMap Key Value).find? key = none := rfl

theorem insert_of_above (above : ∀ entry ∈ map.entries, entry.1 < key) :
    (map.insert key value).entries = map.entries ++ [(key, value)] := by
  have low : map.entries.filter (fun entry => decide (entry.1 < key)) = map.entries :=
    filter_eq_self.mpr fun entry member => decide_eq_true (above entry member)
  have high : map.entries.filter (fun entry => decide (key < entry.1)) = [] := by
    rw [filter_eq_nil_iff]
    intro entry member
    simpa using (above entry member).le
  dsimp only [insert]
  rw [low, high]

theorem size_insert_le : (map.insert key value).size ≤ map.size + 1 := by
  have split : ∀ entries : List (Key × Value),
      (entries.filter fun entry => decide (entry.1 < key)).length +
        (entries.filter fun entry => decide (key < entry.1)).length ≤ entries.length := by
    intro entries
    induction entries with
    | nil => exact Nat.le_refl 0
    | cons entry entries ih =>
      rcases lt_trichotomy entry.1 key with below | same | above
      · simp [below, below.le]
        omega
      · simp [same]
        omega
      · simp [above, above.le]
        omega
  have := split map.entries
  simp only [size, insert, length_append, length_cons]
  omega

theorem ext_find? {other : OrderedMap Key Value} (same : ∀ key, map.find? key = other.find? key) : map = other := by
  have members : ∀ entry, entry ∈ map.entries ↔ entry ∈ other.entries := by
    intro entry
    rw [← find?_eq_some_iff, same, find?_eq_some_iff]
  have distinct : ∀ {map : OrderedMap Key Value}, map.entries.Nodup := fun {map} =>
    map.sorted.imp fun below same => below.ne (congrArg Prod.fst same)
  obtain ⟨entries, sorted⟩ := map
  obtain ⟨others, sorted'⟩ := other
  have perm : entries.Perm others := (perm_ext_iff_of_nodup distinct distinct).mpr members
  have equal : entries = others :=
    perm.eq_of_pairwise (fun _ _ _ _ below above => absurd above below.not_gt) sorted sorted'
  subst equal
  rfl

theorem insert_insert {other : Value} : (map.insert key other).insert key value = map.insert key value := by
  refine ext_find? fun asked => ?_
  rw [find?_insert, find?_insert, find?_insert]
  split <;> rfl

theorem find?_foldl_insert {Item : Type} (name : Item → Key) (content : Item → Value)
    (items : List Item) (map : OrderedMap Key Value) (key : Key) :
    (∃ item ∈ items, name item = key ∧
        (items.foldl (fun map item => map.insert (name item) (content item)) map).find? key = some (content item)) ∨
      (∀ item ∈ items, name item ≠ key) ∧
        (items.foldl (fun map item => map.insert (name item) (content item)) map).find? key = map.find? key := by
  induction items generalizing map with
  | nil => exact .inr ⟨nofun, rfl⟩
  | cons item items ih =>
    rw [foldl_cons]
    rcases ih (map.insert (name item) (content item)) with ⟨other, member, found⟩ | ⟨absent, found⟩
    · exact .inl ⟨other, mem_cons_of_mem item member, found⟩
    · rw [found, find?_insert]
      by_cases same : key = name item
      · exact .inl ⟨item, mem_cons_self, same.symm, if_pos same⟩
      · refine .inr ⟨?_, if_neg same⟩
        intro other member
        rcases mem_cons.mp member with rfl | later
        · exact fun own => same own.symm
        · exact absent other later

def lastUnder {Item : Type} (name : Item → Key) (items : List Item) (key : Key) : Option Item :=
  items.reverse.find? fun item => decide (name item = key)

section

variable {Item : Type} (name : Item → Key) (content : Item → Value) (items : List Item) (map : OrderedMap Key Value)

theorem find?_foldl_insert_last (key : Key) :
    (items.foldl (fun map item => map.insert (name item) (content item)) map).find? key =
      ((lastUnder name items key).map content).or (map.find? key) := by
  induction items generalizing map with
  | nil => rfl
  | cons item items ih =>
    rw [foldl_cons, ih, find?_insert, lastUnder, lastUnder, reverse_cons, find?_append]
    cases items.reverse.find? fun item => decide (name item = key) with
    | some last => rfl
    | none =>
      by_cases same : key = name item
      · simp [same]
      · simp [same, Ne.symm same]

theorem foldl_insert_eq_self_iff :
    items.foldl (fun map item => map.insert (name item) (content item)) map = map ↔
      ∀ item ∈ items, map.find? (name item) = (lastUnder name items (name item)).map content := by
  constructor
  · intro same item member
    have found := find?_foldl_insert_last name content items map (name item)
    rw [same] at found
    cases last : lastUnder name items (name item) with
    | some stored => rw [found, last]; rfl
    | none => exact absurd (decide_eq_true rfl) (List.find?_eq_none.mp last item (mem_reverse.mpr member))
  · intro stored
    refine ext_find? fun key => ?_
    rw [find?_foldl_insert_last]
    cases last : lastUnder name items key with
    | none => rfl
    | some item =>
      have own : name item = key := by simpa using find?_some last
      have member := mem_reverse.mp (mem_of_find?_eq_some last)
      have found := stored item member
      rw [own, last] at found
      rw [found]
      rfl

end

theorem foldl_insert_of_perm {entries : List (Key × Value)} (perm : entries.Perm map.entries) :
    entries.foldl (fun map entry => map.insert entry.1 entry.2) .empty = map := by
  refine ext_find? fun key => ?_
  rcases find?_foldl_insert Prod.fst Prod.snd entries .empty key with ⟨entry, member, rfl, found⟩ | ⟨absent, found⟩
  · rw [found]
    exact (find?_eq_some_iff.mpr (perm.mem_iff.mp member)).symm
  · rw [found]
    refine (find?_eq_none_iff.mpr ?_).symm
    exact fun entry member => absent entry (perm.mem_iff.mpr member)

theorem last?_spec (last : map.last? = some entry) :
    entry ∈ map.entries ∧ ∀ other ∈ map.entries, other.1 ≤ entry.1 := by
  obtain ⟨entries, sorted⟩ := map
  obtain ⟨front, rfl⟩ := getLast?_eq_some_iff.mp last
  refine ⟨by simp, ?_⟩
  intro other member
  rcases mem_append.mp member with earlier | final
  · exact ((pairwise_append.mp sorted).2.2 other earlier entry (by simp)).le
  · rw [mem_singleton.mp final]

theorem first?_spec (first : map.first? = some entry) :
    entry ∈ map.entries ∧ ∀ other ∈ map.entries, entry.1 ≤ other.1 := by
  obtain ⟨entries, sorted⟩ := map
  obtain ⟨rest, rfl⟩ := head?_eq_some_iff.mp first
  refine ⟨by simp, ?_⟩
  intro other member
  rcases mem_cons.mp member with rfl | later
  · exact le_refl _
  · exact ((pairwise_cons.mp sorted).1 other later).le

/-!
## Keys
-/

variable {other : Key}

theorem mem_keys : key ∈ map.keys ↔ ∃ value, (key, value) ∈ map.entries := by
  simp [keys]

theorem find?_eq_none_iff_not_mem_keys : map.find? key = none ↔ key ∉ map.keys := by
  rw [find?_eq_none_iff, mem_keys]
  constructor
  · rintro absent ⟨value, member⟩
    exact absent _ member rfl
  · rintro absent ⟨other, value⟩ member rfl
    exact absent ⟨value, member⟩

theorem mem_keys_insert {value : Value} : other ∈ (map.insert key value).keys ↔ other = key ∨ other ∈ map.keys := by
  simp only [mem_keys, mem_insert, Prod.mk.injEq]
  constructor
  · rintro ⟨stored, ⟨same, _⟩ | ⟨member, _⟩⟩
    · exact .inl same
    · exact .inr ⟨stored, member⟩
  · rintro (same | ⟨stored, member⟩)
    · exact ⟨value, .inl ⟨same, rfl⟩⟩
    · by_cases same : other = key
      · exact ⟨value, .inl ⟨same, rfl⟩⟩
      · exact ⟨stored, .inr ⟨member, same⟩⟩

theorem mem_keys_filter {keep : Key → Bool} :
    other ∈ (map.filter keep).keys ↔ other ∈ map.keys ∧ keep other = true := by
  simp only [mem_keys, mem_filter]
  exact ⟨fun ⟨value, member, kept⟩ => ⟨⟨value, member⟩, kept⟩, fun ⟨⟨value, member⟩, kept⟩ => ⟨value, member, kept⟩⟩

@[simp] theorem mem_keys_empty : ¬key ∈ (empty : OrderedMap Key Value).keys := by
  simp [keys, empty]

theorem mem_keys_iff_isSome : key ∈ map.keys ↔ (map.find? key).isSome = true := by
  rw [mem_keys, Option.isSome_iff_exists]
  simp only [find?_eq_some_iff]

theorem mem_keys_erase : other ∈ (map.erase key).keys ↔ other ∈ map.keys ∧ other ≠ key := by
  rw [erase, mem_keys_filter, decide_eq_true_eq]

theorem mem_keys_modify {change : Value → Value} : other ∈ (map.modify key change).keys ↔ other ∈ map.keys := by
  rw [mem_keys_iff_isSome, mem_keys_iff_isSome, find?_modify]
  split
  next same => rw [same, Option.isSome_map]
  next => exact Iff.rfl

theorem mem_keys_mapValues {Result : Type} {change : Key → Value → Result} :
    other ∈ (map.mapValues change).keys ↔ other ∈ map.keys := by
  rw [mem_keys_iff_isSome, mem_keys_iff_isSome, find?_mapValues, Option.isSome_map]

theorem mem_keys_of_filterValues {keep : Value → Bool} (kept : other ∈ (map.filterValues keep).keys) :
    other ∈ map.keys := by
  obtain ⟨value, member⟩ := mem_keys.mp kept
  exact mem_keys.mpr ⟨value, mem_of_mem_filter member⟩

theorem nodup_keys : map.keys.Nodup := pairwise_map.mpr (map.sorted.imp fun below => below.ne)

theorem size_le_of_keys {keys : List Key} (among : ∀ other ∈ map.keys, other ∈ keys) : map.size ≤ keys.length := by
  have fewer := (nodup_keys.subperm among).length_le
  rwa [OrderedMap.keys, length_map] at fewer

theorem isEmpty_entries_iff : map.entries.isEmpty = true ↔ ∀ key, key ∉ map.keys := by
  rw [List.isEmpty_iff, eq_nil_iff_forall_not_mem]
  constructor
  · intro none key member
    obtain ⟨value, stored⟩ := mem_keys.mp member
    exact none _ stored
  · intro none entry stored
    exact none entry.1 (mem_keys.mpr ⟨entry.2, stored⟩)

theorem isEmpty_entries_eq_false (member : key ∈ map.keys) : map.entries.isEmpty = false := by
  rw [← Bool.not_eq_true, isEmpty_entries_iff]
  exact fun none => none key member

theorem isEmpty_entries_iff_find? : map.entries.isEmpty = true ↔ ∀ key, map.find? key = none := by
  rw [isEmpty_entries_iff]
  exact forall_congr' fun key => find?_eq_none_iff_not_mem_keys.symm

variable {fallback : Value}

def getD (map : OrderedMap Key Value) (key : Key) (fallback : Value) : Value := (map.find? key).getD fallback

theorem getD_of_some (found : map.find? key = some value) : map.getD key fallback = value := by
  rw [getD, found, Option.getD_some]

theorem getD_of_none (absent : map.find? key = none) : map.getD key fallback = fallback := by
  rw [getD, absent, Option.getD_none]

theorem getD_insert (other : Key) [Decidable (other = key)] :
    (map.insert key value).getD other fallback = if other = key then value else map.getD other fallback := by
  rw [getD, find?_insert]
  split
  next => rfl
  next => rfl

theorem getD_change (change : Value → Value) {after : OrderedMap Key Value} (key other : Key)
    [DecidableEq Key] (new : change fallback = fallback) (absent : map.find? key = none → after = map)
    (present : ∀ value, map.find? key = some value →
      after.getD other fallback = if other = key then change value else map.getD other fallback) :
    after.getD other fallback =
      if key = other then change (map.getD other fallback) else map.getD other fallback := by
  cases found : map.find? key with
  | none =>
    rw [absent found]
    split
    next own => rw [← own, getD_of_none found, new]
    next => rfl
  | some value =>
    rw [present value found]
    by_cases own : other = key
    · rw [if_pos own, if_pos own.symm, own, getD_of_some found]
    · rw [if_neg own, if_neg (Ne.symm own)]

end OrderedMap

/-!
## Orders of iteration
-/

structure IterationOrder (Key : Type) where
  visit : List Key → List Key
  perm : ∀ keys, (visit keys).Perm keys

def IterationOrder.ascending (Key : Type) : IterationOrder Key where
  visit keys := keys
  perm _ := .refl _

def IterationOrder.first {Key : Type} [DecidableEq Key] (key : Key) : IterationOrder Key where
  visit keys := if key ∈ keys then key :: keys.erase key else keys
  perm keys := by
    split
    next member => exact (List.perm_cons_erase member).symm
    next => exact .refl keys

theorem IterationOrder.visit_first {Key : Type} [DecidableEq Key] {key : Key} {keys : List Key} (member : key ∈ keys) :
    ∃ others, (IterationOrder.first key).visit keys = key :: others ∧ others.length + 1 = keys.length :=
  ⟨keys.erase key, if_pos member, List.length_erase_add_one member⟩
