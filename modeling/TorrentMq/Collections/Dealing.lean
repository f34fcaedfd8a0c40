import Mathlib.Data.Int.CardIntervalMod
import Mathlib.Data.List.GetD
import Mathlib.Data.List.Nodup
import TorrentMq.Collections.OrderedMap

/-!
# Dealing

Items that are given to owners one after the other, and what every owner has in
the end. Two ways to deal evenly: consecutive blocks, and one item at a time.
-/

set_option autoImplicit false

namespace Collections

open List OrderedMap Nat

variable {Owner Item : Type}

section Moves

theorem owner_unique {moves : List (Owner × Item)} (once : (moves.map Prod.snd).Nodup) {owner other : Owner}
    {item : Item} (first : (owner, item) ∈ moves) (second : (other, item) ∈ moves) : owner = other :=
  congrArg Prod.fst (inj_on_of_nodup_map once first second rfl)

variable [DecidableEq Owner]

def dealtTo (moves : List (Owner × Item)) (owner : Owner) : List Item :=
  (moves.filter fun move => move.1 = owner).map Prod.snd

variable {moves : List (Owner × Item)} {owner : Owner} {item : Item}

@[simp] theorem dealtTo_nil : dealtTo ([] : List (Owner × Item)) owner = [] := rfl

theorem dealtTo_append (later : List (Owner × Item)) :
    dealtTo (moves ++ later) owner = dealtTo moves owner ++ dealtTo later owner := by
  simp [dealtTo]

theorem mem_dealtTo : item ∈ dealtTo moves owner ↔ (owner, item) ∈ moves := by
  simp [dealtTo]

theorem dealtTo_block (items : List Item) (other : Owner) :
    dealtTo (items.map fun item => (owner, item)) other = if owner = other then items else [] := by
  unfold dealtTo
  split
  next same => simp [filter_map, Function.comp_def, same]
  next different => simp [filter_map, Function.comp_def, different]

theorem dealtTo_nodup (once : (moves.map Prod.snd).Nodup) : (dealtTo moves owner).Nodup :=
  once.sublist (filter_sublist.map Prod.snd)

end Moves

section Hands

variable [LinearOrder Owner]

def handOf (hands : OrderedMap Owner (List Item)) (owner : Owner) : List Item := (hands.find? owner).getD []

def push (hands : OrderedMap Owner (List Item)) (move : Owner × Item) : OrderedMap Owner (List Item) :=
  hands.insert move.1 (handOf hands move.1 ++ [move.2])

def openHands (owners : List Owner) : OrderedMap Owner (List Item) :=
  owners.foldl (fun hands owner => hands.insert owner []) .empty

variable {hands : OrderedMap Owner (List Item)} {moves : List (Owner × Item)} {owner : Owner}

theorem mem_keys_foldl_push :
    owner ∈ (moves.foldl push hands).keys ↔ owner ∈ hands.keys ∨ owner ∈ moves.map Prod.fst := by
  induction moves generalizing hands with
  | nil => simp
  | cons move moves ih =>
    rw [foldl_cons, ih, push, mem_keys_insert, map_cons, mem_cons, or_assoc]
    exact or_left_comm

theorem mem_keys_openHands {owners : List Owner} :
    owner ∈ (openHands owners : OrderedMap Owner (List Item)).keys ↔ owner ∈ owners := by
  have opened : ∀ (owners : List Owner) (hands : OrderedMap Owner (List Item)),
      owner ∈ (owners.foldl (fun hands owner => hands.insert owner []) hands).keys ↔
        owner ∈ owners ∨ owner ∈ hands.keys := by
    intro owners
    induction owners with
    | nil => simp
    | cons other owners ih =>
      intro hands
      rw [foldl_cons, ih, mem_keys_insert, mem_cons, or_assoc]
      exact or_left_comm
  simp [openHands, opened]

theorem handOf_insert (other : Owner) (items : List Item) [Decidable (other = owner)] :
    handOf (hands.insert owner items) other = if other = owner then items else handOf hands other := by
  unfold handOf
  rw [find?_insert]
  split
  next => rfl
  next => rfl

theorem handOf_push [DecidableEq Owner] (move : Owner × Item) :
    handOf (push hands move) owner = handOf hands owner ++ dealtTo [move] owner := by
  rw [push, handOf_insert]
  split
  next same => simp [dealtTo, same]
  next different => simp [dealtTo, Ne.symm different]

theorem handOf_foldl_push [DecidableEq Owner] :
    handOf (moves.foldl push hands) owner = handOf hands owner ++ dealtTo moves owner := by
  induction moves generalizing hands with
  | nil => rw [foldl_nil, dealtTo_nil, append_nil]
  | cons move moves ih => rw [foldl_cons, ih, handOf_push, append_assoc, ← dealtTo_append]; rfl

theorem handOf_openHands (owners : List Owner) : handOf (openHands owners) owner = ([] : List Item) := by
  have opened : ∀ (owners : List Owner) (hands : OrderedMap Owner (List Item)), handOf hands owner = [] →
      handOf (owners.foldl (fun hands owner => hands.insert owner []) hands) owner = [] := by
    intro owners
    induction owners with
    | nil => exact fun _ empty => empty
    | cons other owners ih =>
      intro hands empty
      refine ih _ ?_
      rw [handOf_insert, empty]
      exact ite_self _
  exact opened owners .empty rfl

end Hands

section Blocks

variable (item : Nat → Item) (size : Nat → Nat)

def blockMoves (place start : Nat) : List Owner → List (Owner × Item)
  | [] => []
  | owner :: owners =>
    ((List.range (size place)).map fun p => item (start + p)).map (fun item => (owner, item)) ++
      blockMoves (place + 1) (start + size place) owners

variable {item size}

theorem map_snd_blockMoves (place start : Nat) (owners : List Owner) :
    (blockMoves item size place start owners).map Prod.snd =
      (List.range' start ((List.range' place owners.length).map size).sum).map item := by
  induction owners generalizing place start with
  | nil => rfl
  | cons owner owners ih =>
    have block : List.range' start (size place) = (List.range (size place)).map (start + ·) :=
      range'_eq_map_range
    rw [blockMoves, map_append, ih, length_cons, range'_succ, map_cons, sum_cons,
      ← range'_append_1, map_append, block]
    simp only [map_map, Function.comp_def]

theorem fst_mem_blockMoves {place start : Nat} {owners : List Owner} {move : Owner × Item}
    (moved : move ∈ blockMoves item size place start owners) : move.1 ∈ owners := by
  induction owners generalizing place start with
  | nil => cases moved
  | cons owner owners ih =>
    rcases mem_append.mp moved with here | later
    · obtain ⟨part, -, rfl⟩ := mem_map.mp here
      exact mem_cons_self
    · exact mem_cons_of_mem owner (ih later)

theorem length_dealtTo_blockMoves [DecidableEq Owner] {owners : List Owner} (distinct : owners.Nodup)
    (start place index : Nat) (within : index < owners.length) :
    (dealtTo (blockMoves item size place start owners) owners[index]).length = size (place + index) := by
  have elsewhere : ∀ {owners : List Owner} {owner : Owner}, owner ∉ owners → ∀ place start,
      dealtTo (blockMoves item size place start owners) owner = [] := by
    intro owners owner absent
    induction owners with
    | nil => exact fun _ _ => rfl
    | cons other owners ih =>
      intro place start
      rw [mem_cons, not_or] at absent
      rw [blockMoves, dealtTo_append, ih absent.2, append_nil, dealtTo_block, if_neg (Ne.symm absent.1)]
  induction owners generalizing start place index with
  | nil => exact absurd within (not_lt_zero _)
  | cons owner owners ih =>
    obtain ⟨fresh, distinct⟩ := nodup_cons.mp distinct
    rw [blockMoves, dealtTo_append, dealtTo_block]
    cases index with
    | zero =>
      rw [getElem_cons_zero, elsewhere fresh, append_nil, if_pos rfl]
      simp
    | succ index =>
      have inner := lt_of_succ_lt_succ within
      have other : owner ≠ owners[index] := fun same => fresh (same ▸ getElem_mem inner)
      rw [getElem_cons_succ, if_neg other, nil_append, ih distinct _ _ _ inner, add_assoc,
        add_comm 1]

def evenSize (items owners place : Nat) : Nat := items / owners + if place < items % owners then 1 else 0

theorem tdiv_add_extra (items owners place : Nat) :
    (items : Int).tdiv owners + (if (place : Int) < (items : Int).tmod owners then 1 else 0) =
      (evenSize items owners place : Nat) := by
  rw [← Int.ofNat_tdiv, ← Int.ofNat_tmod, evenSize]
  split <;> split <;> omega

theorem sum_evenSize {owners : Nat} (some_owner : 0 < owners) (items : Nat) :
    ((List.range' 0 owners).map (evenSize items owners)).sum = items := by
  have partial_sum : ∀ count, ((List.range' 0 count).map (evenSize items owners)).sum =
      count * (items / owners) + min count (items % owners) := by
    intro count
    induction count with
    | zero => simp
    | succ count ih =>
      rw [range'_concat, map_append, sum_append_nat, ih]
      simp only [zero_add, one_mul, map_cons, map_nil, sum_cons, sum_nil, evenSize]
      have more : (count + 1) * (items / owners) = count * (items / owners) + items / owners := succ_mul _ _
      split <;> omega
  have below := mod_lt items some_owner
  rw [partial_sum, min_eq_right below.le]
  exact div_add_mod items owners

theorem evenSize_zero_pos {items owners : Nat} (some_item : 0 < items) (some_owner : 0 < owners) :
    0 < evenSize items owners 0 := by
  unfold evenSize
  split
  next => exact Nat.succ_pos _
  next none =>
    have divides : owners ∣ items := Nat.dvd_of_mod_eq_zero (Nat.eq_zero_of_not_pos none)
    exact Nat.div_pos (Nat.le_of_dvd some_item divides) some_owner

theorem evenSize_le (items owners place other : Nat) :
    evenSize items owners place ≤ evenSize items owners other + 1 := by
  unfold evenSize
  split <;> omega

end Blocks

section Turns

def turnMoves (owners : List Owner) (default : Owner) (items : List Item) (start : Nat) : List (Owner × Item) :=
  (items.zipIdx start).map fun entry => (owners.getD (entry.2 % owners.length) default, entry.1)

variable {owners : List Owner} {default : Owner}

theorem map_snd_turnMoves (items : List Item) (start : Nat) :
    (turnMoves owners default items start).map Prod.snd = items := by
  simp [turnMoves, Function.comp_def]

theorem fst_mem_of_mem_turnMoves (some_owner : owners ≠ []) {items : List Item} {start : Nat} {move : Owner × Item}
    (member : move ∈ turnMoves owners default items start) : move.1 ∈ owners := by
  obtain ⟨entry, -, rfl⟩ := mem_map.mp member
  have below := mod_lt entry.2 (length_pos_iff.mpr some_owner)
  dsimp only
  rw [getD_eq_getElem _ _ below]
  exact getElem_mem below

theorem length_dealtTo_turnMoves [DecidableEq Owner] (distinct : owners.Nodup) (items : List Item) {index : Nat}
    (within : index < owners.length) :
    (dealtTo (turnMoves owners default items 0) owners[index]).length =
      count (fun turn => turn ≡ index [MOD owners.length]) items.length := by
  induction items using List.reverseRecOn with
  | nil => rfl
  | append_singleton items item ih =>
    have last : turnMoves owners default (items ++ [item]) 0 =
        turnMoves owners default items 0 ++ [(owners.getD (items.length % owners.length) default, item)] := by
      simp [turnMoves, zipIdx_append]
    have below := mod_lt items.length (zero_lt_of_lt within)
    rw [last, dealtTo_append, length_append, ih, length_append, length_singleton, count_succ,
      getD_eq_getElem _ _ below]
    congr 1
    have turn : items.length ≡ index [MOD owners.length] ↔ owners[items.length % owners.length] = owners[index] := by
      rw [distinct.getElem_inj_iff, Nat.ModEq, mod_eq_of_lt within]
    by_cases own : owners[items.length % owners.length] = owners[index]
    · rw [if_pos (turn.mpr own)]
      simp [dealtTo, own]
    · rw [if_neg (fun same => own (turn.mp same))]
      simp [dealtTo, own]

theorem length_dealtTo_turnMoves_le [DecidableEq Owner] (distinct : owners.Nodup) (items : List Item)
    {owner other : Owner} (member : owner ∈ owners) (member' : other ∈ owners) :
    (dealtTo (turnMoves owners default items 0) owner).length ≤
      (dealtTo (turnMoves owners default items 0) other).length + 1 := by
  obtain ⟨index, within, rfl⟩ := getElem_of_mem member
  obtain ⟨place, within', rfl⟩ := getElem_of_mem member'
  rw [length_dealtTo_turnMoves distinct items within, length_dealtTo_turnMoves distinct items within',
    count_modEq_card _ (zero_lt_of_lt within), count_modEq_card _ (zero_lt_of_lt within)]
  split <;> omega

end Turns

end Collections
