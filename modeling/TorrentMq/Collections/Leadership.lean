import TorrentMq.Collections.OrderedMap

/-!
# Leadership

A map with a flag on its values, of which one is to be set, and a name that says
which one that is.
-/

set_option autoImplicit false

namespace Collections

open OrderedMap Option

variable {Key Value : Type} [LinearOrder Key]

def flagOf (flag : Value → Bool) (map : OrderedMap Key Value) (key : Key) : Option Bool := (map.find? key).map flag

structure Leads (flag : Value → Bool) (map : OrderedMap Key Value) (leader : Key) : Prop where
  named : flagOf flag map leader = some true
  only : ∀ key, flagOf flag map key = some true → key = leader

variable {flag : Value → Bool} {map after : OrderedMap Key Value} {key leader : Key} {value : Value}

theorem isEmpty_iff_flagOf (flag : Value → Bool) : map.entries.isEmpty = true ↔ ∀ key, flagOf flag map key = none := by
  rw [isEmpty_entries_iff_find?]
  simp [flagOf]

theorem isEmpty_eq_false_of_flagOf {set : Bool} (present : flagOf flag map key = some set) :
    map.entries.isEmpty = false := by
  cases none : map.entries.isEmpty with
  | false => rfl
  | true =>
    rw [(isEmpty_iff_flagOf flag).mp none key] at present
    cases present

theorem isEmpty_congr (same : ∀ key, flagOf flag after key = flagOf flag map key) :
    after.entries.isEmpty = map.entries.isEmpty := by
  rw [Bool.eq_iff_iff, isEmpty_iff_flagOf flag, isEmpty_iff_flagOf flag]
  simp only [same]

theorem flagOf_insert (other : Key) [Decidable (other = key)] :
    flagOf flag (map.insert key value) other = if other = key then some (flag value) else flagOf flag map other := by
  rw [flagOf, find?_insert]
  split
  next => rfl
  next => rfl

theorem flagOf_erase (other : Key) [Decidable (other = key)] :
    flagOf flag (map.erase key) other = if other = key then none else flagOf flag map other := by
  rw [flagOf, find?_erase]
  split
  next => rfl
  next => rfl

theorem flagOf_insert_same {old : Value} (found : map.find? key = some old) (kept : flag value = flag old)
    (other : Key) : flagOf flag (map.insert key value) other = flagOf flag map other := by
  classical
  rw [flagOf_insert]
  split
  next same => rw [same, flagOf, found, kept]; rfl
  next => rfl

variable {change : Value → Value}

theorem flagOf_modify (kept : ∀ value, flag (change value) = flag value) (other : Key) :
    flagOf flag (map.modify key change) other = flagOf flag map other := by
  classical
  rw [flagOf, find?_modify, flagOf]
  split
  next same =>
    rw [Option.map_map, same]
    exact congrFun (congrArg Option.map (funext kept)) _
  next => rfl

theorem flagOf_mapValues {change : Key → Value → Value} (kept : ∀ key value, flag (change key value) = flag value)
    (key : Key) : flagOf flag (map.mapValues change) key = flagOf flag map key := by
  rw [flagOf, find?_mapValues, Option.map_map]
  exact congrFun (congrArg Option.map (funext (kept key))) _

theorem flagOf_filter {keep : Key → Bool} (key : Key) :
    flagOf flag (map.filter keep) key = if keep key then flagOf flag map key else none := by
  rw [flagOf, OrderedMap.find?_filter]
  split
  next => rfl
  next => rfl

theorem flagOf_filterValues {keep : Value → Bool} (key : Key) :
    flagOf flag (map.filterValues keep) key = ((map.find? key).filter keep).map flag := by
  rw [flagOf, find?_filterValues]

theorem flagOf_modify_set (set : ∀ value, flag (change value) = true) (other : Key)
    [Decidable (other = key)] :
    flagOf flag (map.modify key change) other =
      if other = key then (flagOf flag map key).map fun _ => true else flagOf flag map other := by
  rw [flagOf, find?_modify, flagOf]
  split
  next =>
    rw [Option.map_map, Option.map_map]
    exact congrFun (congrArg Option.map (funext set)) _
  next => rfl

theorem Leads.congr (leads : Leads flag map leader) (same : ∀ key, flagOf flag after key = flagOf flag map key) :
    Leads flag after leader where
  named := (same leader).trans leads.named
  only key set := leads.only key ((same key).symm.trans set)

theorem leads_congr (same : ∀ key, flagOf flag after key = flagOf flag map key) :
    Leads flag after leader ↔ Leads flag map leader :=
  ⟨fun leads => leads.congr fun key => (same key).symm, fun leads => leads.congr same⟩

theorem Leads.elect (set : ∀ value, flag (change value) = true)
    (present : flagOf flag map key ≠ none) (alone : ∀ other, flagOf flag map other = some true → other = key) :
    Leads flag (map.modify key change) key := by
  classical
  obtain ⟨old, found⟩ := ne_none_iff_exists'.mp present
  refine ⟨?_, ?_⟩
  · rw [flagOf_modify_set set, if_pos rfl, found]
    rfl
  · intro other flagged
    rw [flagOf_modify_set set] at flagged
    split at flagged
    next same => exact same
    next => exact alone other flagged

theorem Leads.insert_iff (leads : Leads flag map leader) (unset : flag value = false) :
    Leads flag (map.insert key value) leader ↔ key ≠ leader := by
  classical
  constructor
  · rintro after rfl
    have named := after.named
    rw [flagOf_insert, if_pos rfl, unset] at named
    cases named
  · intro different
    refine ⟨?_, ?_⟩
    · rw [flagOf_insert, if_neg (Ne.symm different)]
      exact leads.named
    · intro other flagged
      rw [flagOf_insert] at flagged
      split at flagged
      next =>
        rw [unset] at flagged
        cases flagged
      next => exact leads.only other flagged

theorem Leads.restrict_iff (leads : Leads flag map leader)
    (fewer : ∀ key, flagOf flag after key = none ∨ flagOf flag after key = flagOf flag map key) :
    Leads flag after leader ↔ flagOf flag after leader ≠ none := by
  constructor
  · intro after
    rw [after.named]
    exact nofun
  · intro stays
    refine ⟨((fewer leader).resolve_left stays).trans leads.named, ?_⟩
    intro key flagged
    rcases fewer key with gone | same
    · rw [gone] at flagged
      cases flagged
    · exact leads.only key (same.symm.trans flagged)

theorem flagOf_firstKey (order : IterationOrder Key) (default : Key) (some_key : map.entries.isEmpty = false) :
    flagOf flag map ((order.visit map.keys).headD default) ≠ none := by
  have visited := order.perm map.keys
  cases keys : order.visit map.keys with
  | nil =>
    rw [keys] at visited
    have none := List.nil_perm.mp visited
    rw [OrderedMap.keys, List.map_eq_nil_iff] at none
    rw [none] at some_key
    cases some_key
  | cons first rest =>
    rw [keys] at visited
    have member : first ∈ map.keys := visited.mem_iff.mp List.mem_cons_self
    obtain ⟨stored, found⟩ := isSome_iff_exists.mp (mem_keys_iff_isSome.mp member)
    simp [flagOf, found]

theorem Leads.iff (leads : Leads flag map leader) :
    leader ∈ map.keys ∧ ∀ key value, map.find? key = some value → (flag value = true ↔ key = leader) := by
  have named := leads.named
  rw [flagOf, map_eq_some_iff] at named
  obtain ⟨stored, found, set⟩ := named
  refine ⟨mem_keys_iff_isSome.mpr (by rw [found]; rfl), ?_⟩
  intro key value present
  constructor
  · intro flagged
    apply leads.only key
    rw [flagOf, present, ← flagged]
    rfl
  · rintro rfl
    rw [found] at present
    obtain rfl := Option.some.inj present
    exact set

end Collections
