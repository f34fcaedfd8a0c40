import TorrentMq.Bytes.Text

/-!
# JSON schemas

JSON values as the library gives them, and when one schema may replace another.
Whatever makes the library throw makes two schemas incompatible.
-/

set_option autoImplicit false

namespace TorrentMq.Schema

open Bytes

inductive Json (Number : Type) where
  | null
  | boolean (value : Bool)
  | number (value : Number)
  | string (value : Bytes)
  | array (items : List (Json Number))
  | object (members : List (Bytes × Json Number))

structure JsonLibrary where
  Number : Type
  sameNumber : Number → Number → Bool
  parse : Bytes → Option (Json Number)

variable {Number : Type}

mutual

def Json.equals (sameNumber : Number → Number → Bool) : Json Number → Json Number → Bool
  | .null, .null => true
  | .boolean value, .boolean other => decide (value = other)
  | .number value, .number other => sameNumber value other
  | .string value, .string other => decide (value = other)
  | .array items, .array others => equalItems sameNumber items others
  | .object members, .object others => equalMembers sameNumber members others
  | _, _ => false

def equalItems (sameNumber : Number → Number → Bool) : List (Json Number) → List (Json Number) → Bool
  | [], [] => true
  | item :: items, other :: others => item.equals sameNumber other && equalItems sameNumber items others
  | _, _ => false

def equalMembers (sameNumber : Number → Number → Bool) :
    List (Bytes × Json Number) → List (Bytes × Json Number) → Bool
  | [], [] => true
  | (key, value) :: members, (other, second) :: others =>
    decide (key = other) && value.equals sameNumber second && equalMembers sameNumber members others
  | _, _ => false

end

namespace Json

variable (value : Json Number)

def isObject : Json Number → Bool
  | .object _ => true
  | _ => false

def find? (key : Bytes) : Option (Json Number) :=
  match value with
  | .object members => (members.find? fun member => decide (member.1 = key)).map Prod.snd
  | _ => none

def contains (key : Bytes) : Bool := (value.find? key).isSome

def stringMember (key : Bytes) : Option Bytes :=
  match value with
  | .object _ =>
    match value.find? key with
    | none => some []
    | some (.string found) => some found
    | some _ => none
  | _ => none

def items : List (Json Number) :=
  match value with
  | .null => []
  | .array items => items
  | .object members => members.map Prod.snd
  | .boolean value => [.boolean value]
  | .number value => [.number value]
  | .string value => [.string value]

def keyedItems : Option (List (Bytes × Json Number)) :=
  match value with
  | .null => some []
  | .array [] => some []
  | .object members => some members
  | _ => none

end Json

inductive CompatibilityLevel where
  | none
  | backward
  | forward
  | full
  deriving DecidableEq

def gDefaultCompat : CompatibilityLevel := .backward

def typeCompatible (oldSchema newSchema : Json Number) : Bool :=
  match oldSchema.stringMember (text "type"), newSchema.stringMember (text "type") with
  | some oldType, some newType =>
    oldType.isEmpty || newType.isEmpty || decide (oldType = newType) ||
      (decide (oldType = text "integer") && decide (newType = text "number"))
  | _, _ => false

def requiredCompatible (sameNumber : Number → Number → Bool) (oldSchema newSchema : Json Number) : Bool :=
  match oldSchema.find? (text "required"), newSchema.find? (text "required") with
  | some oldRequired, some newRequired =>
    newRequired.items.all fun field => oldRequired.items.any fun old => field.equals sameNumber old
  | _, _ => true

def propertiesCompatible (oldSchema newSchema : Json Number) : Bool :=
  match oldSchema.find? (text "properties"), newSchema.find? (text "properties") with
  | some oldProperties, some newProperties =>
    match oldProperties.keyedItems with
    | none => false
    | some members =>
      members.all fun member =>
        match newProperties.find? member.1 with
        | none => false
        | some property => typeCompatible member.2 property
  | _, _ => true

def forwardCompatible (sameNumber : Number → Number → Bool) (oldSchema newSchema : Json Number) : Bool :=
  match oldSchema.find? (text "properties"), newSchema.find? (text "properties") with
  | some oldProperties, some newProperties =>
    match newProperties.keyedItems with
    | none => false
    | some members =>
      members.all fun member => oldProperties.contains member.1 ||
        match newSchema.find? (text "required") with
        | none => true
        | some required => required.items.all fun field => !field.equals sameNumber (.string member.1)
  | _, _ => true

def checkJsonSchemaCompatibility (library : JsonLibrary) (oldSchemaText newSchemaText : Bytes)
    (level : CompatibilityLevel) : Bool :=
  if level = .none then true
  else
    match library.parse oldSchemaText, library.parse newSchemaText with
    | some oldSchema, some newSchema =>
      (!(decide (level = .backward) || decide (level = .full)) ||
        (typeCompatible oldSchema newSchema && requiredCompatible library.sameNumber oldSchema newSchema &&
          propertiesCompatible oldSchema newSchema)) &&
        (!(decide (level = .forward) || decide (level = .full)) ||
          forwardCompatible library.sameNumber oldSchema newSchema)
    | _, _ => false

end TorrentMq.Schema
