import Mathlib.Data.List.Infix
import TorrentMq.Bytes.Text

/-! Where a byte or a text is found. -/

set_option autoImplicit false

namespace Bytes

open List

def findFrom (bytes : Bytes) (byte : UInt8) (start : Nat) : Option Nat :=
  ((bytes.drop start).findIdx? fun other => decide (other = byte)).map (start + ·)

def findText (pattern : Bytes) : Bytes → Option Nat
  | [] => if pattern.isEmpty then some 0 else none
  | byte :: bytes =>
    if pattern.isPrefixOf (byte :: bytes) then some 0 else (findText pattern bytes).map (· + 1)

def findLastText (pattern bytes : Bytes) : Option Nat :=
  ((List.range (bytes.length + 1)).filter fun position => pattern.isPrefixOf (bytes.drop position)).getLast?

variable {byte : UInt8} {front rest : Bytes}

theorem findIdx?_append_cons (absent : byte ∉ front) :
    ((front ++ byte :: rest).findIdx? fun other => decide (other = byte)) = some front.length := by
  induction front with
  | nil => simp [findIdx?_cons]
  | cons first front ih =>
    rw [mem_cons, not_or] at absent
    rw [cons_append, findIdx?_cons, if_neg (by simpa using Ne.symm absent.1), ih absent.2]
    rfl

theorem findFrom_append_cons {skipped : Bytes} (absent : byte ∉ front) :
    findFrom (skipped ++ (front ++ byte :: rest)) byte skipped.length = some (skipped.length + front.length) := by
  rw [findFrom, drop_left, findIdx?_append_cons absent]
  rfl

theorem findText_prefix (pattern : Bytes) : findText pattern (pattern ++ rest) = some 0 := by
  cases pattern with
  | nil => cases rest <;> rfl
  | cons first more =>
    rw [cons_append, findText, if_pos]
    exact isPrefixOf_iff_prefix.mpr (prefix_append (first :: more) rest)

theorem findText_append {first : UInt8} {more : Bytes} (absent : first ∉ front) :
    findText (first :: more) (front ++ rest) = (findText (first :: more) rest).map (front.length + ·) := by
  induction front with
  | nil => simp
  | cons byte front ih =>
    rw [mem_cons, not_or] at absent
    have other : (first :: more).isPrefixOf (byte :: (front ++ rest)) = false := by
      simp [isPrefixOf, absent.1]
    rw [cons_append, findText, if_neg (by simp [other]), ih absent.2, Option.map_map]
    congr 1
    funext position
    simp only [Function.comp_apply, length_cons]
    omega

end Bytes
