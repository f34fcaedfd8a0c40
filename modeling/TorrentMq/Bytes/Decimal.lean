import Mathlib.Data.Nat.Digits.Defs
import TorrentMq.Bytes.Reader

/-! Numbers in decimal digits, and the parts of a file name. -/

set_option autoImplicit false

namespace Bytes

open List

def decimal (value : Nat) : Bytes :=
  if value = 0 then [48] else (Nat.digits 10 value).reverse.map fun digit => UInt8.ofNat (48 + digit)

def decimalInt (value : Int) : Bytes :=
  if value < 0 then 45 :: decimal value.natAbs else decimal value.natAbs

def joinPath (directory name : Bytes) : Bytes :=
  if directory.isEmpty ∨ directory.getLast? = some 47 then directory ++ name else directory ++ 47 :: name

def readDecimal (digits : Bytes) : Nat :=
  digits.foldl (fun value digit => (digit.toNat - 48) + 10 * value) 0

theorem toNat_digit {digit : Nat} (small : digit < 10) : (UInt8.ofNat (48 + digit)).toNat = 48 + digit := by
  rw [UInt8.toNat_ofNat', Nat.mod_eq_of_lt (by omega)]

theorem readDecimal_decimal (value : Nat) : readDecimal (decimal value) = value := by
  unfold decimal
  split
  next zero => rw [zero]; rfl
  next =>
    have same : ∀ digits : List Nat, (∀ digit ∈ digits, digit < 10) →
        readDecimal (digits.reverse.map fun digit => UInt8.ofNat (48 + digit)) = Nat.ofDigits 10 digits := by
      intro digits small
      rw [readDecimal, map_reverse, foldl_reverse]
      induction digits with
      | nil => rfl
      | cons digit digits ih =>
        rw [map_cons, foldr_cons, ih fun other member => small other (mem_cons_of_mem _ member),
          toNat_digit (small digit mem_cons_self), Nat.ofDigits_cons]
        omega
    rw [same _ fun digit member => Nat.digits_lt_base (by decide) member, Nat.ofDigits_digits]

theorem decimal_injective : Function.Injective decimal :=
  Function.LeftInverse.injective readDecimal_decimal

theorem decimal_ne_nil (value : Nat) : decimal value ≠ [] := by
  unfold decimal
  split
  next => exact cons_ne_nil _ _
  next some_digit =>
    intro none
    rw [map_eq_nil_iff, reverse_eq_nil_iff, Nat.digits_eq_nil_iff_eq_zero] at none
    exact some_digit none

theorem mem_decimal {value : Nat} {byte : UInt8} (member : byte ∈ decimal value) :
    48 ≤ byte.toNat ∧ byte.toNat ≤ 57 := by
  unfold decimal at member
  split at member
  · cases mem_singleton.mp member
    decide
  · obtain ⟨digit, inside, rfl⟩ := mem_map.mp member
    have small := Nat.digits_lt_base (by decide) (mem_reverse.mp inside)
    rw [toNat_digit small]
    omega

theorem mem_decimalInt {value : Int} {byte : UInt8} (member : byte ∈ decimalInt value) :
    byte = 45 ∨ 48 ≤ byte.toNat ∧ byte.toNat ≤ 57 := by
  unfold decimalInt at member
  split at member
  · cases member with
    | head => exact .inl rfl
    | tail _ member => exact .inr (mem_decimal member)
  · exact .inr (mem_decimal member)

theorem decimalInt_injective : Function.Injective decimalInt := by
  have signed : ∀ left right : Nat, 45 :: decimal left ≠ decimal right := by
    intro left right same
    have minus : (45 : UInt8) ∈ decimal right := by
      rw [← same]
      exact mem_cons_self
    exact absurd (mem_decimal minus).1 (by decide)
  intro left right same
  unfold decimalInt at same
  split at same <;> split at same
  · have := decimal_injective (cons_injective same)
    omega
  · exact absurd same (signed _ _)
  · exact absurd same.symm (signed _ _)
  · have := decimal_injective same
    omega

theorem append_cons_inj {left right before after : Bytes} {separator : UInt8} (none : separator ∉ before)
    (none_either : separator ∉ after) (same : left ++ separator :: before = right ++ separator :: after) :
    left = right ∧ before = after := by
  induction left generalizing right with
  | nil =>
    cases right with
    | nil => exact ⟨rfl, cons_injective same⟩
    | cons first rest =>
      obtain ⟨-, others⟩ := List.cons.inj same
      exact absurd (by rw [others]; simp) none
  | cons first rest ih =>
    cases right with
    | nil =>
      obtain ⟨-, others⟩ := List.cons.inj same
      exact absurd (by rw [← others]; simp) none_either
    | cons other others =>
      obtain ⟨rfl, tails⟩ := List.cons.inj same
      obtain ⟨rfl, same_rest⟩ := ih tails
      exact ⟨rfl, same_rest⟩

theorem colon_not_mem_decimalInt (value : Int) : (58 : UInt8) ∉ decimalInt value := by
  intro member
  rcases mem_decimalInt member with minus | digit
  · cases minus
  · exact absurd digit.2 (by decide)

theorem append_decimalInt_inj {left right : Bytes} {value other : Int} :
    left ++ 58 :: decimalInt value = right ++ 58 :: decimalInt other ↔ left = right ∧ value = other := by
  constructor
  · intro same
    obtain ⟨texts, numbers⟩ := append_cons_inj (colon_not_mem_decimalInt _) (colon_not_mem_decimalInt _) same
    exact ⟨texts, decimalInt_injective numbers⟩
  · rintro ⟨rfl, rfl⟩
    rfl

theorem joinPath_right_injective (directory : Bytes) : Function.Injective (joinPath directory) := by
  intro left right same
  unfold joinPath at same
  split at same
  · exact append_cancel_left same
  · exact cons_injective (append_cancel_left same)

end Bytes
