import Mathlib.Data.List.Sort
import TorrentMq.Bytes.Decimal
import TorrentMq.Bytes.Search
import TorrentMq.Collections.OrderedMap
import TorrentMq.Schema.JsonSchema

/-!
# Schema registry

The versions of the schemas of every subject, with an index by id that refers to
positions among the versions, and the files that a registry keeps them in.
-/

set_option autoImplicit false

namespace TorrentMq.Schema

open Bytes

inductive SchemaFormat where
  | avro
  | protobuf
  | jsonSchema
  | unknown
  deriving DecidableEq

def parseFormat (format : Bytes) : SchemaFormat :=
  if format = text "AVRO" ∨ format = text "avro" then .avro
  else if format = text "PROTOBUF" ∨ format = text "protobuf" then .protobuf
  else if format = text "JSON" ∨ format = text "json" ∨ format = text "JSON_SCHEMA" ∨ format = text "json_schema" then
    .jsonSchema
  else .unknown

def formatName : SchemaFormat → Bytes
  | .avro => text "AVRO"
  | .protobuf => text "PROTOBUF"
  | .jsonSchema => text "JSON"
  | .unknown => text "UNKNOWN"

structure SchemaEntry where
  schemaId : Int := -1
  version : Int := -1
  subject : Bytes
  schemaText : Bytes
  format : SchemaFormat := .unknown
  deleted : Bool := false
  createdAtMs : Int := 0
  deriving DecidableEq

inductive RegistryError where
  | invalidRequest
  | schemaIncompatible
  deriving DecidableEq

structure Failure where
  error : RegistryError
  errorMessage : Bytes
  deriving DecidableEq

def unknownFormat (format : Bytes) : Failure where
  error := .invalidRequest
  errorMessage := text "Unknown schema format: " ++ format ++ text ". Supported: AVRO, PROTOBUF, JSON"

def invalidSyntax (format : SchemaFormat) : Failure where
  error := .invalidRequest
  errorMessage := text "Invalid " ++ formatName format ++ text " schema syntax"

def incompatible (latestVersion : Int) (subject : Bytes) : Failure where
  error := .schemaIncompatible
  errorMessage := text "New schema is not compatible with the latest version (" ++ decimalInt latestVersion ++
    text ") for subject \"" ++ subject ++ text "\""

/-- Where an entry is: its subject, and its place in the list of versions. -/
structure Position where
  subject : Bytes
  index : Nat
  deriving DecidableEq

/-!
## Formats
-/

variable (library : JsonLibrary)

def validateJsonSchemaSyntax (schemaText : Bytes) : Bool :=
  match library.parse schemaText with
  | some value => value.isObject
  | none => false

def validateAvroSchema (schemaText : Bytes) : Bool :=
  match library.parse schemaText with
  | some value => value.isObject && value.contains (text "type")
  | none => false

def validateProtobufSchema (schemaText : Bytes) : Bool :=
  (findText (text "message ") schemaText).isSome || (findText (text "syntax ") schemaText).isSome

def validateSchema (format : SchemaFormat) (schemaText : Bytes) : Bool :=
  match format with
  | .jsonSchema => validateJsonSchemaSyntax library schemaText
  | .avro => validateAvroSchema library schemaText
  | .protobuf => validateProtobufSchema schemaText
  | .unknown => false

def isCompatible (format : SchemaFormat) (oldText newText : Bytes) (level : CompatibilityLevel) : Bool :=
  match format with
  | .jsonSchema => checkJsonSchemaCompatibility library oldText newText level
  | .avro => true
  | .protobuf => true
  | .unknown => false

def detectFormat (schemaText : Bytes) : SchemaFormat :=
  match library.parse schemaText with
  | some value =>
    if value.isObject ∧ value.contains (text "type") ∧ value.contains (text "fields") = false then .jsonSchema
    else parseFormat (text "JSON")
  | none => if validateProtobufSchema schemaText then .protobuf else parseFormat (text "JSON")

/-!
## Registry
-/

structure SchemaRegistry where
  subjects : OrderedMap Bytes (List SchemaEntry) := .empty
  idIndex : OrderedMap Int Position := .empty
  nextSchemaId : Int := 1
  persistenceEnabled : Bool := false

namespace SchemaRegistry

variable (registry : SchemaRegistry)

def versions (subject : Bytes) : List SchemaEntry := registry.subjects.getD subject []

def entryAt (position : Position) : Option SchemaEntry := (registry.versions position.subject)[position.index]?

def newEntry (subject schemaText : Bytes) (format : SchemaFormat) (now : Int) : SchemaEntry where
  schemaId := registry.nextSchemaId
  version := ((registry.versions subject).getLast?.map (·.version)).getD 0 + 1
  subject := subject
  schemaText := schemaText
  format := format
  createdAtMs := now

def append (entry : SchemaEntry) : SchemaRegistry :=
  { registry with
    subjects := registry.subjects.insert entry.subject (registry.versions entry.subject ++ [entry])
    idIndex := registry.idIndex.insert entry.schemaId ⟨entry.subject, (registry.versions entry.subject).length⟩
    nextSchemaId := registry.nextSchemaId + 1 }

/-- The new text is compared with the last version, unless that one is deleted. The id is that of the new entry,
which is given along, or of one that has the text. -/
def registerSchema (subject schemaText formatText : Bytes) (now : Int) :
    SchemaRegistry × Except Failure Int × Option SchemaEntry :=
  let format := parseFormat formatText
  if format = .unknown then
    (registry, .error (unknownFormat formatText), none)
  else if validateSchema library format schemaText = false then (registry, .error (invalidSyntax format), none)
  else
    let versions := registry.versions subject
    let touched := { registry with subjects := registry.subjects.insert subject versions }
    match versions.find? fun entry => !entry.deleted && decide (entry.schemaText = schemaText) &&
        decide (entry.format = format) with
    | some entry => (touched, .ok entry.schemaId, none)
    | none =>
      let latestVersion := (versions.getLast?.map (·.version)).getD 0
      if latestVersion > 0 ∧ versions.getLast?.any (fun latest => !latest.deleted &&
          !isCompatible library format latest.schemaText schemaText gDefaultCompat) then
        (touched, .error (incompatible latestVersion subject), none)
      else
        let entry := registry.newEntry subject schemaText format now
        (registry.append entry, .ok entry.schemaId, some entry)

def getSchema (subject : Bytes) (version : Int) : Option Bytes :=
  ((registry.versions subject).find? fun entry => decide (entry.version = version) && !entry.deleted).map (·.schemaText)

def getSchemaById (schemaId : Int) : Option Bytes :=
  match (registry.idIndex.find? schemaId).bind registry.entryAt with
  | none => none
  | some entry => if entry.deleted then none else some entry.schemaText

def latestLive (subject : Bytes) : Option SchemaEntry :=
  (registry.versions subject).reverse.find? fun entry => !entry.deleted

def checkCompatibility (subject newSchemaText : Bytes) : Bool :=
  match registry.latestLive subject with
  | none => true
  | some latest =>
    if detectFormat library newSchemaText ≠ latest.format then false
    else isCompatible library latest.format latest.schemaText newSchemaText gDefaultCompat

def softDelete (subject : Bytes) (version : Int) : SchemaRegistry × Option SchemaEntry :=
  match (registry.versions subject).findIdx? fun entry => decide (entry.version = version) && !entry.deleted with
  | none => (registry, none)
  | some index =>
    let changed := (registry.versions subject).modify index fun entry => { entry with deleted := true }
    ({ registry with subjects := registry.subjects.insert subject changed }, changed[index]?)

end SchemaRegistry

/-!
## Files
-/

abbrev Disk := List SchemaEntry

def Disk.write (disk : Disk) (entry : SchemaEntry) : Disk :=
  entry :: disk.filter fun file => !decide (file.subject = entry.subject ∧ file.version = entry.version)

namespace SchemaRegistry

variable (registry : SchemaRegistry)

def accepts (entry : SchemaEntry) : Bool :=
  decide (0 ≤ entry.schemaId) && !entry.subject.isEmpty &&
    !(registry.versions entry.subject).any fun other => decide (other.version = entry.version)

def raiseNextId (entry : SchemaEntry) : Int :=
  if 0 ≤ entry.schemaId ∧ entry.subject ≠ [] ∧ registry.nextSchemaId ≤ entry.schemaId then entry.schemaId + 1
  else registry.nextSchemaId

def loadEntry (entry : SchemaEntry) : SchemaRegistry :=
  if registry.accepts entry then
    let sorted := (registry.versions entry.subject ++ [entry]).insertionSort fun left right => left.version ≤ right.version
    { registry with
      subjects := registry.subjects.insert entry.subject sorted
      idIndex := registry.idIndex.insert entry.schemaId ⟨entry.subject, sorted.length - 1⟩
      nextSchemaId := registry.raiseNextId entry }
  else { registry with nextSchemaId := registry.raiseNextId entry }

def loadFromDisk (files : List SchemaEntry) : SchemaRegistry := files.foldl loadEntry registry

end SchemaRegistry

/-- A registry and the disk that it writes its entries to. -/
structure System where
  registry : SchemaRegistry := {}
  disk : Disk := []

/-- What a call takes from outside: the time, the files that can be read or written, and the order in which they are
met. -/
structure Surroundings where
  now : Int := 0
  readable : SchemaEntry → Bool := fun _ => true
  writable : SchemaEntry → Bool := fun _ => true
  order : IterationOrder SchemaEntry := .ascending SchemaEntry

inductive Call where
  | registerSchema (subject schemaText format : Bytes)
  | softDelete (subject : Bytes) (version : Int)
  | enablePersistence
  | restart

namespace System

variable (surroundings : Surroundings) (system : System)

def persistEntry (entry : SchemaEntry) : System :=
  if system.registry.persistenceEnabled ∧ surroundings.writable entry = true then
    { system with disk := system.disk.write entry }
  else system

def persistSome : Option SchemaEntry → System
  | none => system
  | some entry => system.persistEntry surroundings entry

def flushToDisk : System :=
  (system.registry.subjects.entries.flatMap Prod.snd).foldl (persistEntry surroundings) system

def filesMet : List SchemaEntry := (surroundings.order.visit system.disk).filter surroundings.readable

def step (system : System) : Call × Surroundings → System
  | (.registerSchema subject schemaText format, surroundings) =>
    let result := system.registry.registerSchema library subject schemaText format surroundings.now
    persistSome surroundings { system with registry := result.1 } result.2.2
  | (.softDelete subject version, surroundings) =>
    let result := system.registry.softDelete subject version
    persistSome surroundings { system with registry := result.1 } result.2
  | (.enablePersistence, surroundings) =>
    let enabled := { system.registry with persistenceEnabled := true }
    { system with registry := enabled.loadFromDisk (system.filesMet surroundings) }
  | (.restart, surroundings) => { (system.flushToDisk surroundings) with registry := {} }

end System

end TorrentMq.Schema
