import Mathlib.Data.List.Basic

/-!
# Pieces of a list

A list in pieces of one size, of which only the last may be shorter.
-/

set_option autoImplicit false

namespace Collections

open List

variable {Item : Type}

def piece (list : List Item) (size index : Nat) : List Item := (list.drop (index * size)).take size

def pieces (list : List Item) (size : Nat) : Nat := (list.length + size - 1) / size

theorem lt_pieces_iff (list : List Item) {size index : Nat} (positive : 0 < size) :
    index < pieces list size ↔ index * size < list.length := by
  unfold pieces
  rw [← Nat.succ_le_iff, Nat.le_div_iff_mul_le positive, Nat.succ_mul]
  omega

theorem take_succ_mul (list : List Item) (size index : Nat) :
    list.take ((index + 1) * size) = list.take (index * size) ++ piece list size index := by
  rw [Nat.succ_mul, take_add, piece]

theorem length_piece_of_lt {list : List Item} {size index : Nat} (inside : (index + 1) * size < list.length) :
    (piece list size index).length = size := by
  rw [Nat.succ_mul] at inside
  rw [piece, length_take, length_drop]
  omega

theorem take_min_eq_piece (list : List Item) (size index : Nat) :
    (list.drop (index * size)).take (min (list.length - index * size) size) = piece list size index := by
  rw [piece, ← length_drop, Nat.min_comm, ← take_eq_take_min]

theorem mapIdx_if_lt {Answer : Type} (list : List Item) (count : Nat) (answer : Nat → Item → Answer) :
    list.mapIdx (fun index item => if index < count then some (answer index item) else none) =
      ((list.take count).mapIdx answer).map some ++ List.replicate (list.length - count) none := by
  induction list generalizing count answer with
  | nil => simp
  | cons item list ih =>
    cases count with
    | zero => simp [replicate_succ, mapIdx_eq_replicate_iff]
    | succ count =>
      simp only [mapIdx_cons, take_succ_cons, map_cons, length_cons, Nat.add_lt_add_iff_right,
        Nat.add_sub_add_right, cons_append, Nat.zero_lt_succ, if_true]
      rw [ih count fun index => answer (index + 1)]

end Collections
