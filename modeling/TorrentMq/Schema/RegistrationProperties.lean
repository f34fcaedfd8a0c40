import TorrentMq.Runs.Basic
import TorrentMq.Schema.SchemaRegistry

/-! When a registration succeeds exactly if the check of compatibility does. -/

set_option autoImplicit false

namespace TorrentMq.Schema

open Bytes Runs List

inductive Request where
  | registerSchema (subject schemaText format : Bytes) (now : Int)
  | softDelete (subject : Bytes) (version : Int)
  deriving DecidableEq

variable {library : JsonLibrary} {registry : SchemaRegistry} {subject schemaText : Bytes} {now : Int}

namespace SchemaRegistry

def serve (library : JsonLibrary) (registry : SchemaRegistry) : Request → SchemaRegistry
  | .registerSchema subject schemaText format now => (registry.registerSchema library subject schemaText format now).1
  | .softDelete subject version => (registry.softDelete subject version).1

/-- A registration of a JSON schema gives an id. -/
def Registers (library : JsonLibrary) (registry : SchemaRegistry) (subject schemaText : Bytes) (now : Int) : Prop :=
  ∃ schemaId, (registry.registerSchema library subject schemaText (text "JSON") now).2.1 = .ok schemaId

/-- Where the last version is deleted, the text may replace the last one that is not. -/
def Follows (library : JsonLibrary) (registry : SchemaRegistry) (subject schemaText : Bytes) : Prop :=
  ∀ latest ∈ (registry.versions subject).getLast?, latest.deleted = true → ∀ live ∈ registry.latestLive subject,
    checkJsonSchemaCompatibility library live.schemaText schemaText gDefaultCompat = true

def Numbered (registry : SchemaRegistry) : Prop := ∀ subject, ∀ entry ∈ registry.versions subject, 0 < entry.version

theorem versions_of_insert (versions : List SchemaEntry) (index : OrderedMap Int Position) (next : Int)
    (other : Bytes) :
    SchemaRegistry.versions
        { registry with
          subjects := registry.subjects.insert subject versions
          idIndex := index
          nextSchemaId := next } other =
      if other = subject then versions else registry.versions other := OrderedMap.getD_insert other

section

variable (numbered : registry.Numbered)

include numbered

theorem Numbered.insert {versions : List SchemaEntry} {index : OrderedMap Int Position}
    {next : Int} (own : ∀ entry ∈ versions, 0 < entry.version) :
    Numbered
      { registry with
        subjects := registry.subjects.insert subject versions
        idIndex := index
        nextSchemaId := next } := by
  intro other entry listed
  rw [versions_of_insert] at listed
  split at listed
  next => exact own entry listed
  next => exact numbered other entry listed

theorem version_newEntry_pos {format : SchemaFormat} :
    0 < (registry.newEntry subject schemaText format now).version := by
  unfold newEntry
  dsimp only
  cases last : (registry.versions subject).getLast? with
  | none => exact Int.zero_lt_one
  | some entry =>
    have positive := numbered subject entry (mem_of_getLast? last)
    rw [Option.map_some, Option.getD_some]
    omega

theorem Numbered.registerSchema {format : Bytes} :
    (registry.registerSchema library subject schemaText format now).1.Numbered := by
  have touched := @Numbered.insert registry subject numbered (registry.versions subject) registry.idIndex
    registry.nextSchemaId (numbered subject)
  unfold SchemaRegistry.registerSchema
  dsimp only
  split
  · exact numbered
  · split
    · exact numbered
    · split
      · exact touched
      · split
        · exact touched
        · apply numbered.insert
          intro entry listed
          rcases mem_append.mp listed with old | new
          · exact numbered subject entry old
          · rw [mem_singleton.mp new]
            exact version_newEntry_pos numbered

theorem Numbered.softDelete {version : Int} :
    (registry.softDelete subject version).1.Numbered := by
  unfold SchemaRegistry.softDelete
  split
  next => exact numbered
  next index _ =>
    apply numbered.insert
    intro entry listed
    obtain ⟨place, found⟩ := getElem?_of_mem listed
    rw [getElem?_modify] at found
    obtain ⟨old, present, changed⟩ := Option.map_eq_some_iff.mp found
    have positive := numbered subject old (mem_of_getElem? present)
    split at changed <;> cases changed <;> exact positive

end

theorem numbered_run (library : JsonLibrary) (requests : List Request) :
    (run (serve library) {} requests).Numbered := by
  have all : Meets (serve library) (fun _ _ => True) {} requests :=
    @meets_of_forall _ _ (serve library) (fun _ => True) requests (fun _ _ => trivial) _
  refine all.preserves Numbered ?_ ?_
  · intro registry request _ numbered
    cases request with
    | registerSchema => exact numbered.registerSchema
    | softDelete => exact numbered.softDelete
  · intro subject entry listed
    cases listed

section Agreement

variable {members : List (Bytes × Json library.Number)}

theorem detectFormat_of_object (valid : library.parse schemaText = some (.object members)) :
    detectFormat library schemaText = .jsonSchema := by
  unfold detectFormat
  rw [valid]
  dsimp only
  split
  next => rfl
  next => decide

theorem registers_iff (numbered : registry.Numbered) (valid : library.parse schemaText = some (.object members))
    (absent : ∀ entry ∈ registry.versions subject, entry.deleted = false → entry.schemaText ≠ schemaText) :
    registry.Registers library subject schemaText now ↔
      ∀ latest ∈ (registry.versions subject).getLast?, latest.deleted = false →
        checkJsonSchemaCompatibility library latest.schemaText schemaText gDefaultCompat = true := by
  have format : parseFormat (text "JSON") = .jsonSchema := by decide
  have accepted : validateSchema library .jsonSchema schemaText = true := by
    rw [validateSchema, validateJsonSchemaSyntax, valid]
    rfl
  have fresh : ((registry.versions subject).find? fun entry => !entry.deleted &&
      decide (entry.schemaText = schemaText) && decide (entry.format = .jsonSchema)) = none := by
    rw [List.find?_eq_none]
    intro entry listed
    cases deleted : entry.deleted with
    | true => simp
    | false => simp [absent entry listed deleted]
  unfold Registers SchemaRegistry.registerSchema
  dsimp only
  rw [format, if_neg (by decide), if_neg (by rw [accepted]; decide), fresh]
  dsimp only
  cases last : (registry.versions subject).getLast? with
  | none => simp
  | some latest =>
    have positive := numbered subject latest (mem_of_getLast? last)
    simp only [Option.map_some, Option.getD_some, Option.any_some, Option.mem_some_iff, forall_eq']
    split
    next refused =>
      have conflict := refused.2
      simp only [Bool.and_eq_true, Bool.not_eq_true'] at conflict
      refine iff_of_false nofun ?_
      intro replaces
      cases (replaces conflict.1).symm.trans conflict.2
    next passed =>
      refine iff_of_true ⟨_, rfl⟩ ?_
      intro kept
      by_contra conflict
      apply passed
      refine ⟨positive, ?_⟩
      rw [kept, isCompatible, Bool.eq_false_iff.mpr conflict]
      rfl

theorem checkCompatibility_iff (valid : library.parse schemaText = some (.object members))
    (json : ∀ entry ∈ registry.versions subject, entry.format = .jsonSchema) :
    registry.checkCompatibility library subject schemaText = true ↔
      ∀ live ∈ registry.latestLive subject,
        checkJsonSchemaCompatibility library live.schemaText schemaText gDefaultCompat = true := by
  unfold checkCompatibility
  cases found : registry.latestLive subject with
  | none => simp
  | some live =>
    have listed : live ∈ registry.versions subject := mem_reverse.mp (mem_of_find?_eq_some found)
    dsimp only
    rw [detectFormat_of_object valid, json live listed, if_neg (not_not.mpr rfl)]
    simp [isCompatible]

theorem latestLive_of_last {latest : SchemaEntry} (last : (registry.versions subject).getLast? = some latest)
    (kept : latest.deleted = false) : registry.latestLive subject = some latest := by
  obtain ⟨front, split⟩ := getLast?_eq_some_iff.mp last
  unfold latestLive
  rw [split, reverse_append]
  simp [kept]

/-- In every state that requests lead to, a registration agrees with the check exactly if the text may follow the last
version that is not deleted, or that is the last one of all. -/
theorem registers_iff_checkCompatibility_iff_follows (requests : List Request)
    (valid : library.parse schemaText = some (.object members))
    (json : ∀ entry ∈ (run (serve library) {} requests).versions subject, entry.format = .jsonSchema)
    (absent : ∀ entry ∈ (run (serve library) {} requests).versions subject, entry.deleted = false →
      entry.schemaText ≠ schemaText) :
    ((run (serve library) {} requests).Registers library subject schemaText now ↔
        (run (serve library) {} requests).checkCompatibility library subject schemaText = true) ↔
      (run (serve library) {} requests).Follows library subject schemaText := by
  rw [registers_iff (numbered_run library requests) valid absent, checkCompatibility_iff valid json]
  unfold Follows
  cases last : ((run (serve library) {} requests).versions subject).getLast? with
  | none =>
    have none_live : (run (serve library) {} requests).latestLive subject = none := by
      rw [latestLive, getLast?_eq_none_iff.mp last]
      rfl
    simp [none_live]
  | some latest =>
    simp only [Option.mem_some_iff, forall_eq']
    cases deleted : latest.deleted with
    | true => simp
    | false =>
      rw [latestLive_of_last last deleted]
      simp

end Agreement

def stringSchema : Bytes := text "\x7b\"type\":\"string\"\x7d"

def namedSchema : Bytes := text "\x7b\"title\":\"name\",\"type\":\"string\"\x7d"

def integerSchema : Bytes := text "\x7b\"type\":\"integer\"\x7d"

def threeSchemas : JsonLibrary where
  Number := Empty
  sameNumber := nofun
  parse schemaText :=
    if schemaText = stringSchema then some (.object [(text "type", .string (text "string"))])
    else if schemaText = namedSchema then
      some (.object [(text "title", .string (text "name")), (text "type", .string (text "string"))])
    else if schemaText = integerSchema then some (.object [(text "type", .string (text "integer"))])
    else none

def twoVersions (deleted : Int) : List Request :=
  [ .registerSchema (text "orders") stringSchema (text "JSON") 0
  , .registerSchema (text "orders") namedSchema (text "JSON") 0
  , .softDelete (text "orders") deleted ]

/-- With the first of two versions deleted, both go by the second. -/
theorem deletedFirst_agrees :
    ((run (serve threeSchemas) {} (twoVersions 1)).Registers threeSchemas (text "orders") integerSchema 0 ↔
        (run (serve threeSchemas) {} (twoVersions 1)).checkCompatibility threeSchemas (text "orders") integerSchema =
          true) ↔
      (run (serve threeSchemas) {} (twoVersions 1)).Follows threeSchemas (text "orders") integerSchema :=
  registers_iff_checkCompatibility_iff_follows (twoVersions 1)
    (show threeSchemas.parse integerSchema = some (.object [(text "type", .string (text "integer"))]) from rfl)
    (by decide +kernel) (by decide +kernel)

/-- A text that may not replace the first version is registered all the same. -/
theorem deletedLatest_not_agrees :
    ¬((run (serve threeSchemas) {} (twoVersions 2)).Registers threeSchemas (text "orders") integerSchema 0 ↔
      (run (serve threeSchemas) {} (twoVersions 2)).checkCompatibility threeSchemas (text "orders") integerSchema =
        true) := by
  intro agrees
  have registered : (run (serve threeSchemas) {} (twoVersions 2)).Registers threeSchemas (text "orders") integerSchema 0 :=
    ⟨3, by decide +kernel⟩
  have checked := agrees.mp registered
  revert checked
  decide +kernel

end SchemaRegistry

end TorrentMq.Schema
