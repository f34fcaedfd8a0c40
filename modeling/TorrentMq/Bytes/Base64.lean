import TorrentMq.Bytes.Text

/-!
# Base64

Three bytes are written as four letters, with padding at the end.
-/

set_option autoImplicit false

namespace Bytes.Base64

open List

def alphabet : Bytes := text "ABCDEFGHIJKLMNOPQRSTUVWXYZabcdefghijklmnopqrstuvwxyz0123456789+/"

def padding : UInt8 := 61

def letter (value : Nat) : UInt8 := alphabet.getD value padding

def letterValue? (byte : UInt8) : Option Nat :=
  if alphabet.idxOf byte < 64 then some (alphabet.idxOf byte) else none

def encode : Bytes → Bytes
  | [] => []
  | [first] => [letter (first.toNat / 4), letter (first.toNat % 4 * 16), padding, padding]
  | [first, second] =>
    [letter (first.toNat / 4), letter (first.toNat % 4 * 16 + second.toNat / 16), letter (second.toNat % 16 * 4),
      padding]
  | first :: second :: third :: rest =>
    letter (first.toNat / 4) :: letter (first.toNat % 4 * 16 + second.toNat / 16) ::
      letter (second.toNat % 16 * 4 + third.toNat / 64) :: letter (third.toNat % 64) :: encode rest

def group (first second : Nat) (third fourth : Option Nat) : Bytes :=
  UInt8.ofNat (first * 4 + second / 16) ::
    match third, fourth with
    | some third, some fourth =>
      [UInt8.ofNat (second % 16 * 16 + third / 4), UInt8.ofNat (third % 4 * 64 + fourth)]
    | some third, none => [UInt8.ofNat (second % 16 * 16 + third / 4)]
    | none, _ => []

def decode : Bytes → Option Bytes
  | [] => some []
  | first :: second :: third :: fourth :: rest =>
    match letterValue? first, letterValue? second, letterValue? third, letterValue? fourth with
    | some first, some second, some third, some fourth =>
      (decode rest).map (group first second (some third) (some fourth) ++ ·)
    | some first, some second, some third, none =>
      if fourth = padding ∧ rest = [] then some (group first second (some third) none) else none
    | some first, some second, none, none =>
      if third = padding ∧ fourth = padding ∧ rest = [] then some (group first second none none) else none
    | _, _, _, _ => none
  | _ => none

theorem letterValue?_letter {value : Nat} (small : value < 64) : letterValue? (letter value) = some value := by
  have all : ∀ value < 64, letterValue? (letter value) = some value := by decide
  exact all value small

theorem letterValue?_padding : letterValue? padding = none := by decide

theorem group_full (first second third : UInt8) :
    group (first.toNat / 4) (first.toNat % 4 * 16 + second.toNat / 16)
        (some (second.toNat % 16 * 4 + third.toNat / 64)) (some (third.toNat % 64)) = [first, second, third] := by
  have one := first.toNat_lt
  have two := second.toNat_lt
  have three := third.toNat_lt
  simp only [group]
  rw [show first.toNat / 4 * 4 + (first.toNat % 4 * 16 + second.toNat / 16) / 16 = first.toNat by omega,
    show (first.toNat % 4 * 16 + second.toNat / 16) % 16 * 16 + (second.toNat % 16 * 4 + third.toNat / 64) / 4 =
      second.toNat by omega,
    show (second.toNat % 16 * 4 + third.toNat / 64) % 4 * 64 + third.toNat % 64 = third.toNat by omega]
  simp only [UInt8.ofNat_toNat]

theorem decode_encode (bytes : Bytes) : decode (encode bytes) = some bytes := by
  induction bytes using encode.induct with
  | case1 => rfl
  | case2 first =>
    have one := first.toNat_lt
    rw [encode, decode, letterValue?_letter (by omega), letterValue?_letter (by omega), letterValue?_padding]
    dsimp only
    rw [if_pos ⟨rfl, rfl, rfl⟩]
    simp only [group]
    rw [show first.toNat / 4 * 4 + first.toNat % 4 * 16 / 16 = first.toNat by omega, UInt8.ofNat_toNat]
  | case3 first second =>
    have one := first.toNat_lt
    have two := second.toNat_lt
    rw [encode, decode, letterValue?_letter (by omega), letterValue?_letter (by omega),
      letterValue?_letter (by omega), letterValue?_padding]
    dsimp only
    rw [if_pos ⟨rfl, rfl⟩]
    simp only [group]
    rw [show first.toNat / 4 * 4 + (first.toNat % 4 * 16 + second.toNat / 16) / 16 = first.toNat by omega,
      show (first.toNat % 4 * 16 + second.toNat / 16) % 16 * 16 + second.toNat % 16 * 4 / 4 = second.toNat by omega]
    simp only [UInt8.ofNat_toNat]
  | case4 first second third rest ih =>
    have one := first.toNat_lt
    have two := second.toNat_lt
    have three := third.toNat_lt
    rw [encode, decode, letterValue?_letter (by omega), letterValue?_letter (by omega),
      letterValue?_letter (by omega), letterValue?_letter (by omega)]
    dsimp only
    rw [ih, group_full]
    rfl

theorem mem_encode {byte : UInt8} (bytes : Bytes) (member : byte ∈ encode bytes) :
    byte = padding ∨ byte ∈ alphabet := by
  have letters : ∀ value, letter value = padding ∨ letter value ∈ alphabet := by
    intro value
    by_cases small : value < alphabet.length
    · right
      rw [letter, getD_eq_getElem?_getD, getElem?_eq_getElem small]
      exact getElem_mem small
    · left
      rw [letter, getD_eq_getElem?_getD, getElem?_eq_none (not_lt.mp small)]
      rfl
  induction bytes using encode.induct with
  | case1 => cases member
  | case2 | case3 =>
    simp only [encode, mem_cons, not_mem_nil, or_false] at member
    rcases member with rfl | rfl | rfl | rfl <;> first | exact letters _ | exact .inl rfl
  | case4 first second third rest ih =>
    simp only [encode, mem_cons] at member
    rcases member with rfl | rfl | rfl | rfl | later
    · exact letters _
    · exact letters _
    · exact letters _
    · exact letters _
    · exact ih later

end Bytes.Base64
