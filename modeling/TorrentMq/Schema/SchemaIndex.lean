import Mathlib.Data.List.Nodup
import TorrentMq.Runs.Basic
import TorrentMq.Schema.SchemaRegistry

/-! When the index by id agrees with the versions of the subjects, over runs with restarts. -/

set_option autoImplicit false

namespace TorrentMq.Schema

open Bytes Runs List OrderedMap Option

variable {library : JsonLibrary} {registry after : SchemaRegistry} {entry : SchemaEntry} {position : Position}
  {subject : Bytes}

namespace SchemaRegistry

/-- Ids are unique, versions ascend, and an entry is read by its id as by its version. -/
structure Consistent (registry : SchemaRegistry) : Prop where
  uniqueIds : ∀ position other entry another, registry.entryAt position = some entry →
    registry.entryAt other = some another → entry.schemaId = another.schemaId → position = other
  ascending : ∀ subject, ((registry.versions subject).map (·.version)).Pairwise (· < ·)
  readsById : ∀ position entry, registry.entryAt position = some entry →
    registry.getSchemaById entry.schemaId = registry.getSchema entry.subject entry.version

/-- An entry that a file is read as goes behind the versions of its subject, with an id that is new. -/
def Fits (registry : SchemaRegistry) (entry : SchemaEntry) : Prop :=
  (∀ other ∈ registry.versions entry.subject, other.version < entry.version) ∧
    ∀ listed ∈ registry.subjects.entries, ∀ other ∈ listed.2, other.schemaId ≠ entry.schemaId

instance (registry : SchemaRegistry) (entry : SchemaEntry) : Decidable (registry.Fits entry) :=
  inferInstanceAs (Decidable (_ ∧ _))

/-- The files that a registry takes all fit, and among themselves they are met in ascending order of the versions of a
subject, with different ids. -/
def InOrder (registry : SchemaRegistry) (files : List SchemaEntry) : Prop :=
  (∀ entry ∈ files.filter registry.accepts, registry.Fits entry) ∧
    (files.filter registry.accepts).Pairwise fun earlier later =>
      (earlier.subject = later.subject → earlier.version < later.version) ∧ earlier.schemaId ≠ later.schemaId

instance (registry : SchemaRegistry) (files : List SchemaEntry) : Decidable (registry.InOrder files) :=
  inferInstanceAs (Decidable (_ ∧ _))

structure Indexed (registry : SchemaRegistry) : Prop where
  owned : ∀ position entry, registry.entryAt position = some entry → entry.subject = position.subject ∧
    entry.schemaId < registry.nextSchemaId ∧ registry.idIndex.find? entry.schemaId = some position
  ascending : ∀ subject, ((registry.versions subject).map (·.version)).Pairwise (· < ·)

theorem Indexed.initial : Indexed {} where
  owned := by
    intro position entry found
    cases found
  ascending := fun _ => .nil

theorem getSchema_of_entryAt (indexed : registry.Indexed) (found : registry.entryAt position = some entry) :
    registry.getSchema entry.subject entry.version = if entry.deleted then none else some entry.schemaText := by
  obtain ⟨own, -, -⟩ := indexed.owned position entry found
  have listed : entry ∈ registry.versions position.subject := mem_of_getElem? found
  have distinct := (indexed.ascending position.subject).imp fun below => below.ne
  have only : ∀ other ∈ registry.versions position.subject, other.version = entry.version → other = entry :=
    fun other member same => inj_on_of_nodup_map distinct member listed same
  unfold getSchema
  rw [own]
  cases read : (registry.versions position.subject).find? fun other =>
      decide (other.version = entry.version) && !other.deleted with
  | none =>
    have deleted := List.find?_eq_none.mp read entry listed
    have gone : entry.deleted = true := by simpa using deleted
    rw [if_pos gone]
    rfl
  | some other =>
    have live := find?_some read
    rw [Bool.and_eq_true, decide_eq_true_eq] at live
    have same := only other (mem_of_find?_eq_some read) live.1
    have kept : entry.deleted = false := by simpa [same] using live.2
    rw [if_neg (by simp [kept]), same]
    rfl

theorem Indexed.consistent (indexed : registry.Indexed) : registry.Consistent where
  uniqueIds := by
    intro position other entry another found present same
    have first := (indexed.owned position entry found).2.2
    have second := (indexed.owned other another present).2.2
    rw [same, second] at first
    exact (Option.some.inj first).symm
  ascending := indexed.ascending
  readsById := by
    intro position entry found
    rw [getSchema_of_entryAt indexed found, getSchemaById, (indexed.owned position entry found).2.2, bind_some,
      found]

theorem versions_insert (versions : List SchemaEntry) (subjects : after.subjects = registry.subjects.insert subject versions)
    (other : Bytes) : after.versions other = if other = subject then versions else registry.versions other := by
  rw [SchemaRegistry.versions, subjects, getD_insert]
  rfl

theorem Indexed.same (indexed : registry.Indexed) (index : after.idIndex = registry.idIndex)
    (next : registry.nextSchemaId ≤ after.nextSchemaId)
    (kept : ∀ position entry, after.entryAt position = some entry → ∃ old, registry.entryAt position = some old ∧
      old.subject = entry.subject ∧ old.schemaId = entry.schemaId)
    (versions : ∀ subject, (after.versions subject).map (·.version) = (registry.versions subject).map (·.version)) :
    after.Indexed where
  owned := by
    intro position entry found
    obtain ⟨old, present, subject, id⟩ := kept position entry found
    obtain ⟨own, below, recorded⟩ := indexed.owned position old present
    rw [subject] at own
    rw [id] at below recorded
    exact ⟨own, Int.lt_of_lt_of_le below next, index ▸ recorded⟩
  ascending := by
    intro subject
    rw [versions]
    exact indexed.ascending subject

theorem Indexed.place (indexed : registry.Indexed)
    (subjects : after.subjects = registry.subjects.insert entry.subject (registry.versions entry.subject ++ [entry]))
    (index : after.idIndex =
      registry.idIndex.insert entry.schemaId ⟨entry.subject, (registry.versions entry.subject).length⟩)
    (next : registry.nextSchemaId ≤ after.nextSchemaId) (below : entry.schemaId < after.nextSchemaId)
    (fresh : ∀ position other, registry.entryAt position = some other → other.schemaId ≠ entry.schemaId)
    (higher : ∀ other ∈ registry.versions entry.subject, other.version < entry.version) : after.Indexed where
  owned := by
    intro position other found
    have versions := versions_insert _ subjects position.subject
    unfold entryAt at found
    rw [versions] at found
    rw [index, find?_insert]
    have old : registry.entryAt position = some other → other.subject = position.subject ∧
        other.schemaId < after.nextSchemaId ∧ (if other.schemaId = entry.schemaId then
          some ⟨entry.subject, (registry.versions entry.subject).length⟩ else registry.idIndex.find? other.schemaId) =
            some position := by
      intro present
      obtain ⟨own, less, recorded⟩ := indexed.owned position other present
      exact ⟨own, Int.lt_of_lt_of_le less next, (if_neg (fresh position other present)).trans recorded⟩
    split at found
    next same =>
      rw [getElem?_append] at found
      split at found
      next inside =>
        apply old
        rw [entryAt, same]
        exact found
      next beyond =>
        obtain ⟨bound, own⟩ := List.getElem?_eq_some_iff.mp found
        rw [length_singleton, Nat.lt_one_iff] at bound
        have last : other = entry := by simpa [bound] using own.symm
        have place : position.index = (registry.versions entry.subject).length := by omega
        rw [last, if_pos rfl]
        refine ⟨same.symm, below, ?_⟩
        rw [← place, ← same]
    next => exact old found
  ascending := by
    intro subject
    rw [versions_insert _ subjects subject]
    split
    next =>
      rw [map_append, pairwise_append]
      refine ⟨indexed.ascending entry.subject, pairwise_singleton _ _, ?_⟩
      intro version listed last same
      obtain ⟨other, member, rfl⟩ := mem_map.mp listed
      rw [mem_singleton.mp same]
      exact higher other member
    next => exact indexed.ascending subject

theorem versions_touch (other : Bytes) :
    SchemaRegistry.versions { registry with subjects := registry.subjects.insert subject (registry.versions subject) }
      other = registry.versions other := by
  rw [versions_insert (registry.versions subject) rfl other]
  split
  next same => rw [same]
  next => rfl

theorem Indexed.touch (indexed : registry.Indexed) :
    Indexed { registry with subjects := registry.subjects.insert subject (registry.versions subject) } := by
  refine indexed.same rfl (Int.le_refl _) ?_ fun other => by rw [versions_touch]
  intro position entry found
  unfold entryAt at found
  rw [versions_touch] at found
  exact ⟨entry, found, rfl, rfl⟩

theorem registerSchema_cases (library : JsonLibrary) (registry : SchemaRegistry)
    (subject schemaText formatText : Bytes) (now : Int) :
    (registry.registerSchema library subject schemaText formatText now).1 = registry ∨
      (registry.registerSchema library subject schemaText formatText now).1 =
        { registry with subjects := registry.subjects.insert subject (registry.versions subject) } ∨
      (registry.registerSchema library subject schemaText formatText now).1 =
        registry.append (registry.newEntry subject schemaText (parseFormat formatText) now) := by
  unfold registerSchema
  dsimp only
  split
  · exact .inl rfl
  · split
    · exact .inl rfl
    · split
      · exact .inr (.inl rfl)
      · split
        · exact .inr (.inl rfl)
        · exact .inr (.inr rfl)

theorem version_lt_newEntry (indexed : registry.Indexed) {schemaText : Bytes} {format : SchemaFormat} {now : Int}
    {other : SchemaEntry} (listed : other ∈ registry.versions subject) :
    other.version < (registry.newEntry subject schemaText format now).version := by
  have ascending := indexed.ascending subject
  unfold newEntry
  dsimp only
  rcases eq_nil_or_concat' (registry.versions subject) with none | ⟨front, last, split⟩
  · rw [none] at listed
    cases listed
  · rw [split] at listed ascending ⊢
    rw [getLast?_concat, map_some, getD_some]
    rcases mem_append.mp listed with earlier | final
    · rw [map_append, pairwise_append] at ascending
      have below := ascending.2.2 other.version (mem_map_of_mem earlier) last.version (by simp)
      omega
    · rw [mem_singleton.mp final]
      omega

theorem Indexed.registerSchema (indexed : registry.Indexed) {schemaText formatText : Bytes} {now : Int} :
    (registry.registerSchema library subject schemaText formatText now).1.Indexed := by
  rcases registerSchema_cases library registry subject schemaText formatText now with same | touched | appended
  · rwa [same]
  · rw [touched]
    exact indexed.touch
  · rw [appended]
    refine indexed.place rfl rfl (Int.le_add_one (Int.le_refl _)) (Int.lt_succ _) ?_ ?_
    · intro position other found
      exact (indexed.owned position other found).2.1.ne
    · intro other listed
      exact version_lt_newEntry indexed listed

theorem Indexed.softDelete (indexed : registry.Indexed) {version : Int} :
    (registry.softDelete subject version).1.Indexed := by
  unfold SchemaRegistry.softDelete
  split
  next => exact indexed
  next index _ =>
    have versions := fun other => @versions_insert registry
      { registry with subjects := registry.subjects.insert subject ((registry.versions subject).modify index
          fun entry => { entry with deleted := true }) } subject _ rfl other
    refine indexed.same rfl (Int.le_refl _) ?_ ?_
    · intro position entry found
      unfold entryAt at found
      rw [versions] at found
      split at found
      next same =>
        rw [getElem?_modify] at found
        obtain ⟨old, present, changed⟩ := map_eq_some_iff.mp found
        refine ⟨old, by rw [entryAt, same, present], ?_⟩
        split at changed <;> cases changed <;> exact ⟨rfl, rfl⟩
      next => exact ⟨entry, found, rfl, rfl⟩
    · intro other
      rw [versions]
      split
      next same =>
        rw [same]
        apply ext_getElem?
        intro place
        rw [getElem?_map, getElem?_map, getElem?_modify]
        cases (registry.versions subject)[place]? with
        | none => rfl
        | some entry =>
          simp only [map_some]
          split <;> rfl
      next => rfl

theorem le_raiseNextId (registry : SchemaRegistry) (entry : SchemaEntry) :
    registry.nextSchemaId ≤ registry.raiseNextId entry := by
  unfold raiseNextId
  split
  next higher => omega
  next => exact Int.le_refl _

theorem lt_raiseNextId (accepted : registry.accepts entry = true) : entry.schemaId < registry.raiseNextId entry := by
  simp only [accepts, Bool.and_eq_true, decide_eq_true_eq, Bool.not_eq_true', isEmpty_eq_false_iff] at accepted
  unfold raiseNextId
  split
  next => exact Int.lt_succ _
  next lower =>
    by_contra reached
    exact lower ⟨accepted.1.1, accepted.1.2, Int.not_lt.mp reached⟩

theorem listed_of_mem_versions (member : entry ∈ registry.versions subject) :
    ∃ listed ∈ registry.subjects.entries, entry ∈ listed.2 := by
  unfold versions OrderedMap.getD at member
  cases found : registry.subjects.find? subject with
  | none =>
    rw [found] at member
    cases member
  | some versions =>
    rw [found] at member
    exact ⟨_, OrderedMap.find?_eq_some_iff.mp found, member⟩

section

variable (indexed : registry.Indexed)
include indexed

theorem sort_of_fits (fits : registry.Fits entry) :
    (registry.versions entry.subject ++ [entry]).insertionSort (fun left right => left.version ≤ right.version) =
      registry.versions entry.subject ++ [entry] := by
  apply List.Pairwise.insertionSort_eq
  rw [pairwise_append]
  refine ⟨?_, pairwise_singleton _ _, ?_⟩
  · exact (pairwise_map.mp (indexed.ascending entry.subject)).imp fun below => Int.le_of_lt below
  · intro other listed last same
    rw [mem_singleton.mp same]
    exact Int.le_of_lt (fits.1 other listed)

theorem subjects_loadEntry (accepted : registry.accepts entry = true)
    (fits : registry.Fits entry) : (registry.loadEntry entry).subjects =
      registry.subjects.insert entry.subject (registry.versions entry.subject ++ [entry]) := by
  rw [loadEntry, if_pos accepted, sort_of_fits indexed fits]

theorem Indexed.loadEntry (fits : registry.accepts entry = true → registry.Fits entry) :
    (registry.loadEntry entry).Indexed := by
  by_cases accepted : registry.accepts entry = true
  · have subjects := subjects_loadEntry indexed accepted (fits accepted)
    have sorted := sort_of_fits indexed (fits accepted)
    refine indexed.place subjects ?_ ?_ ?_ ?_ (fits accepted).1
    · rw [SchemaRegistry.loadEntry, if_pos accepted, sorted]
      simp
    · rw [SchemaRegistry.loadEntry, if_pos accepted]
      exact le_raiseNextId registry entry
    · rw [SchemaRegistry.loadEntry, if_pos accepted]
      exact lt_raiseNextId accepted
    · intro position other found
      obtain ⟨listed, member, among⟩ := listed_of_mem_versions (mem_of_getElem? found)
      exact (fits accepted).2 listed member other among
  · rw [SchemaRegistry.loadEntry, if_neg accepted]
    exact indexed.same rfl (le_raiseNextId registry entry) (fun _ other found => ⟨other, found, rfl, rfl⟩) fun _ => rfl

section

variable (accepted : registry.accepts entry = true) (fits : registry.Fits entry)

include accepted fits

theorem accepts_of_loadEntry {other : SchemaEntry} (later : (registry.loadEntry entry).accepts other = true) :
    registry.accepts other = true := by
  unfold accepts at later ⊢
  rw [versions_insert _ (subjects_loadEntry indexed accepted fits) other.subject] at later
  split at later
  next same =>
    rw [any_append, Bool.not_or, ← same] at later
    simp only [Bool.and_eq_true] at later ⊢
    exact ⟨later.1, later.2.1⟩
  next => exact later

theorem Fits.loadEntry {other : SchemaEntry} (also : registry.Fits other)
    (apart : (entry.subject = other.subject → entry.version < other.version) ∧ entry.schemaId ≠ other.schemaId) :
    (registry.loadEntry entry).Fits other := by
  have subjects := subjects_loadEntry indexed accepted fits
  constructor
  · intro earlier listed
    rw [versions_insert _ subjects other.subject] at listed
    split at listed
    next same =>
      rcases mem_append.mp listed with old | new
      · exact also.1 earlier (same ▸ old)
      · rw [mem_singleton.mp new]
        exact apart.1 same.symm
    next => exact also.1 earlier listed
  · intro listed member earlier among
    rw [subjects] at member
    rcases mem_insert.mp member with rfl | ⟨old, -⟩
    · rcases mem_append.mp among with old | new
      · obtain ⟨listed, stored, inside⟩ := listed_of_mem_versions old
        exact also.2 listed stored earlier inside
      · rw [mem_singleton.mp new]
        exact apart.2
    · exact also.2 listed old earlier among

end

end

theorem InOrder.tail {files : List SchemaEntry} (indexed : registry.Indexed)
    (ordered : registry.InOrder (entry :: files)) : (registry.loadEntry entry).InOrder files := by
  obtain ⟨fitting, apart⟩ := ordered
  by_cases accepted : registry.accepts entry = true
  · rw [filter_cons, if_pos accepted] at fitting apart
    have fits := fitting entry mem_cons_self
    have fewer : files.filter (registry.loadEntry entry).accepts |>.Sublist (files.filter registry.accepts) :=
      monotone_filter_right files fun other later => accepts_of_loadEntry indexed accepted fits later
    obtain ⟨first, rest⟩ := pairwise_cons.mp apart
    refine ⟨?_, rest.sublist fewer⟩
    intro other listed
    have taken := fewer.subset listed
    exact Fits.loadEntry indexed accepted fits (fitting other (mem_cons_of_mem entry taken)) (first other taken)
  · rw [filter_cons, if_neg accepted] at fitting apart
    rw [SchemaRegistry.loadEntry, if_neg accepted]
    exact ⟨fitting, apart⟩

theorem Indexed.loadFromDisk {files : List SchemaEntry} (indexed : registry.Indexed)
    (ordered : registry.InOrder files) : (registry.loadFromDisk files).Indexed := by
  induction files generalizing registry with
  | nil => exact indexed
  | cons entry files ih =>
    refine ih (indexed.loadEntry ?_) (ordered.tail indexed)
    intro accepted
    exact ordered.1 entry (List.mem_filter.mpr ⟨mem_cons_self, accepted⟩)

end SchemaRegistry

namespace System

def LoadsInOrder (system : System) : Call × Surroundings → Prop
  | (.enablePersistence, surroundings) =>
    SchemaRegistry.InOrder { system.registry with persistenceEnabled := true } (system.filesMet surroundings)
  | _ => True

instance (system : System) : (event : Call × Surroundings) → Decidable (system.LoadsInOrder event)
  | (.enablePersistence, surroundings) =>
    inferInstanceAs (Decidable (SchemaRegistry.InOrder { system.registry with persistenceEnabled := true }
      (system.filesMet surroundings)))
  | (.registerSchema _ _ _, _) | (.softDelete _ _, _) | (.restart, _) => .isTrue trivial

@[simp] theorem registry_persistSome (surroundings : Surroundings) (system : System) (entry : Option SchemaEntry) :
    (system.persistSome surroundings entry).registry = system.registry := by
  cases entry with
  | none => rfl
  | some entry =>
    change (system.persistEntry surroundings entry).registry = system.registry
    unfold persistEntry
    split <;> rfl

theorem indexed_step {system : System} {event : Call × Surroundings} (ordered : system.LoadsInOrder event)
    (indexed : system.registry.Indexed) : (system.step library event).registry.Indexed := by
  obtain ⟨call, surroundings⟩ := event
  cases call with
  | registerSchema subject schemaText format =>
    simp only [step, registry_persistSome]
    exact indexed.registerSchema
  | softDelete subject version =>
    simp only [step, registry_persistSome]
    exact indexed.softDelete
  | enablePersistence =>
    have enabled : SchemaRegistry.Indexed { system.registry with persistenceEnabled := true } :=
      ⟨indexed.owned, indexed.ascending⟩
    exact enabled.loadFromDisk ordered
  | restart => exact .initial

/-- Where all files are met in order, the index agrees with the versions all through a run. -/
theorem consistent_of_loadsInOrder (library : JsonLibrary) {events : List (Call × Surroundings)}
    (ordered : Meets (step library) LoadsInOrder {} events) (reached : List (Call × Surroundings))
    (before : reached <+: events) : (run (step library) {} reached).registry.Consistent := by
  have sooner := ordered.of_prefix before
  have indexed := sooner.preserves (fun system => system.registry.Indexed)
    (fun _ _ met indexed => indexed_step met indexed) SchemaRegistry.Indexed.initial
  exact indexed.consistent

def plainLibrary : JsonLibrary where
  Number := Empty
  sameNumber := nofun
  parse _ := none

def restartEvents (order : IterationOrder SchemaEntry) : List (Call × Surroundings) :=
  [(.enablePersistence, {}), (.registerSchema (text "orders") (text "message Order") (text "PROTOBUF"), {}),
    (.registerSchema (text "orders") (text "message Order with id") (text "PROTOBUF"), {}), (.restart, {}),
    (.enablePersistence, { order := order })]

def oldestFirst : IterationOrder SchemaEntry where
  visit := List.reverse
  perm := reverse_perm

theorem restartEvents_consistent : (run (step plainLibrary) {} (restartEvents oldestFirst)).registry.Consistent :=
  consistent_of_loadsInOrder plainLibrary (by decide +kernel) _ (prefix_refl _)

/-- With the newest file first, the id of the first version is that of the second one. -/
theorem restartEvents_not_consistent :
    ¬(run (step plainLibrary) {} (restartEvents (.ascending SchemaEntry))).registry.Consistent := by
  intro consistent
  have reads := consistent.readsById ⟨text "orders", 0⟩
    { schemaId := 1, version := 1, subject := text "orders", schemaText := text "message Order", format := .protobuf }
    (by decide +kernel)
  revert reads
  decide +kernel

end System

end TorrentMq.Schema
