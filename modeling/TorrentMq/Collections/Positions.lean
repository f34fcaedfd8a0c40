import Mathlib.Data.List.Basic

/-!
# Positions of a list

Values that are selected by their position, and what is left of a list when
indices that were taken down before are deleted one after the other.
-/

set_option autoImplicit false

namespace Positions

open List

variable {Value : Type}

/-- The values at the positions that are kept. -/
def select (keep : Nat → Bool) : List Value → List Value
  | [] => []
  | value :: values =>
    if keep 0 then value :: select (fun i => keep (i + 1)) values else select (fun i => keep (i + 1)) values

/-- Where deletions end up in the list as it was before them: each one moves the rest up by one. -/
def hits (indices : List Nat) : List Nat := indices.mapIdx fun deleted index => index + deleted

theorem select_congr {keep kept : Nat → Bool} {values : List Value} (same : ∀ i < values.length, keep i = kept i) :
    select keep values = select kept values := by
  induction values generalizing keep kept with
  | nil => rfl
  | cons value values ih =>
    rw [select, select, same 0 (by simp), ih fun i inside => same (i + 1) (by simpa using inside)]

theorem select_all {keep : Nat → Bool} {values : List Value} (all : ∀ i < values.length, keep i = true) :
    select keep values = values := by
  induction values generalizing keep with
  | nil => rfl
  | cons value values ih =>
    rw [select, if_pos (all 0 (by simp)), ih fun i inside => all (i + 1) (by simpa using inside)]

theorem select_sublist (keep : Nat → Bool) (values : List Value) : (select keep values).Sublist values := by
  induction values generalizing keep with
  | nil => exact List.Sublist.refl _
  | cons value values ih =>
    rw [select]
    split
    · exact (ih _).cons_cons value
    · exact (ih _).cons value

theorem select_concat (keep : Nat → Bool) (values : List Value) (last : Value) :
    select keep (values ++ [last]) = select keep values ++ if keep values.length then [last] else [] := by
  induction values generalizing keep with
  | nil => rfl
  | cons value values ih =>
    rw [cons_append, select, select, ih, length_cons]
    split <;> rfl

theorem hits_cons (index : Nat) (indices : List Nat) :
    hits (index :: indices) = index :: (hits indices).map (· + 1) := by
  rw [hits, mapIdx_cons, Nat.add_zero]
  congr 1
  apply ext_getElem (by simp [hits])
  intro i _ _
  simp only [hits, getElem_mapIdx, getElem_map]
  omega

theorem hits_map_succ (indices : List Nat) : hits (indices.map (· + 1)) = (hits indices).map (· + 1) := by
  apply ext_getElem (by simp [hits])
  intro i _ _
  simp only [hits, getElem_mapIdx, getElem_map]
  omega

theorem mem_map_succ {position : Nat} {indices : List Nat} : position + 1 ∈ indices.map (· + 1) ↔ position ∈ indices := by
  simp

theorem foldl_eraseIdx_nil (indices : List Nat) : indices.foldl eraseIdx ([] : List Value) = [] := by
  induction indices with
  | nil => rfl
  | cons index indices ih => exact ih

theorem foldl_eraseIdx_cons (indices : List Nat) (value : Value) (values : List Value) :
    (indices.map (· + 1)).foldl eraseIdx (value :: values) = value :: indices.foldl eraseIdx values := by
  induction indices generalizing values with
  | nil => rfl
  | cons index indices ih => exact ih (values.eraseIdx index)

/-- Deletions at ascending indices, each in the list that the ones before have left. -/
theorem foldl_eraseIdx {indices : List Nat} (ascending : indices.Pairwise (· < ·)) (values : List Value) :
    indices.foldl eraseIdx values = select (fun i => decide (i ∉ hits indices)) values := by
  induction values generalizing indices with
  | nil => exact foldl_eraseIdx_nil indices
  | cons value values ih =>
    by_cases first : 0 ∈ indices
    · obtain ⟨rest, rfl⟩ : ∃ rest, indices = 0 :: rest := by
        cases indices with
        | nil => cases first
        | cons index rest =>
          cases first with
          | head => exact ⟨rest, rfl⟩
          | tail _ member => exact absurd ((pairwise_cons.mp ascending).1 0 member) (Nat.not_lt_zero _)
      rw [foldl_cons, eraseIdx_cons_zero, ih (pairwise_cons.mp ascending).2, select, hits_cons,
        if_neg (by simp)]
      refine select_congr fun i _ => decide_eq_decide.mpr (not_congr ?_)
      rw [mem_cons, mem_map_succ, or_iff_right (Nat.succ_ne_zero i)]
    · obtain ⟨earlier, rfl⟩ : ∃ earlier : List Nat, indices = earlier.map (· + 1) := by
        refine ⟨indices.map (· - 1), ?_⟩
        rw [map_map]
        refine (map_id indices).symm.trans (map_congr_left fun index member => ?_)
        have positive : index ≠ 0 := fun zero => first (zero ▸ member)
        simp only [id, Function.comp_apply]
        omega
      have sorted : earlier.Pairwise (· < ·) := (pairwise_map.mp ascending).imp Nat.lt_of_succ_lt_succ
      rw [foldl_eraseIdx_cons, ih sorted, select, hits_map_succ, if_pos (by simp)]
      congr 1
      exact select_congr fun i _ => decide_eq_decide.mpr (not_congr mem_map_succ.symm)

end Positions
