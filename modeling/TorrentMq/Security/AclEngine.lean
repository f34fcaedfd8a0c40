import Mathlib.Data.List.Sort
import Mathlib.Data.Prod.Lex
import TorrentMq.Bytes.Text
import TorrentMq.Runs.Basic

/-!
# Access rules

Rules with patterns for the principal, the host and the resource of a request.
They are kept sorted, and the first rule that matches a request decides it.
-/

set_option autoImplicit false

namespace TorrentMq.Security

open Bytes

structure AclRule where
  principalPattern : Bytes
  hostPattern : Bytes
  resourcePattern : Bytes
  operation : Bytes
  allow : Bool := false
  deriving DecidableEq

structure AccessRequest where
  principal : Bytes
  host : Bytes
  resource : Bytes
  operation : Bytes
  deriving DecidableEq

def kAnyText : UInt8 := 42

def kAnyByte : UInt8 := 63

def fieldSpec (pattern : Bytes) : Nat := pattern.countP fun byte => decide (byte ≠ kAnyText)

/-- The pattern as the expression it is translated to: `*` stands for any text, `?` for at most
one character, and every other character for itself. -/
def wildcardMatch : Bytes → Bytes → Bool
  | [], value => value.isEmpty
  | byte :: pattern, value =>
    if byte = kAnyText then value.tails.any (wildcardMatch pattern)
    else if byte = kAnyByte then wildcardMatch pattern value || (!value.isEmpty && wildcardMatch pattern value.tail)
    else decide (value.head? = some byte) && wildcardMatch pattern value.tail

def AclRule.specificity (rule : AclRule) : Int :=
  Int.bmod (fieldSpec rule.principalPattern * 1000000 + fieldSpec rule.resourcePattern * 1000 +
    fieldSpec rule.hostPattern) (2 ^ 32)

def AclRule.matches (rule : AclRule) (request : AccessRequest) : Bool :=
  wildcardMatch rule.principalPattern request.principal && wildcardMatch rule.hostPattern request.host &&
    wildcardMatch rule.resourcePattern request.resource &&
    (decide (rule.operation = text "ALL") || decide (rule.operation = request.operation))

def tieBreak (rule : AclRule) : List Nat ×ₗ List Nat ×ₗ List Nat ×ₗ List Nat :=
  toLex (rule.principalPattern.map UInt8.toNat, toLex (rule.resourcePattern.map UInt8.toNat,
    toLex (rule.hostPattern.map UInt8.toNat, rule.operation.map UInt8.toNat)))

def sortsBefore (left right : AclRule) : Bool :=
  if left.specificity ≠ right.specificity then decide (left.specificity > right.specificity)
  else if left.allow ≠ right.allow then left.allow
  else decide (tieBreak left < tieBreak right)

structure AclEngine where
  rules : List AclRule := []
  deriving DecidableEq

namespace AclEngine

def reindex (engine : AclEngine) : AclEngine :=
  { engine with rules := engine.rules.insertionSort fun left right => sortsBefore right left = false }

def checkAccess (engine : AclEngine) (request : AccessRequest) : Bool :=
  match engine.rules.find? fun rule => rule.matches request with
  | some rule => rule.allow
  | none => false

def addRule (engine : AclEngine) (rule : AclRule) : AclEngine :=
  { engine with rules := engine.rules ++ [rule] }.reindex

def removeRule (engine : AclEngine) (principalPattern hostPattern resourcePattern operation : Bytes) :
    AclEngine × Bool :=
  let kept := engine.rules.filter fun rule => !decide (rule.principalPattern = principalPattern ∧
    rule.hostPattern = hostPattern ∧ rule.resourcePattern = resourcePattern ∧ rule.operation = operation)
  if kept.length < engine.rules.length then ({ engine with rules := kept }.reindex, true) else (engine, false)

inductive Call where
  | add (rule : AclRule)
  | remove (principalPattern hostPattern resourcePattern operation : Bytes)
  deriving DecidableEq

def step (engine : AclEngine) : Call → AclEngine
  | .add rule => engine.addRule rule
  | .remove principalPattern hostPattern resourcePattern operation =>
    (engine.removeRule principalPattern hostPattern resourcePattern operation).1

def built (calls : List Call) : AclEngine := Runs.run step {} calls

end AclEngine

end TorrentMq.Security
