import Mathlib.Data.List.Nodup

/-!
# Recency

The distinct values of a history, the latest first, and what a bounded list of
the most recently used ones holds of them.
-/

set_option autoImplicit false

namespace Recency

open List

variable {Value : Type} [DecidableEq Value]

def distinct : List Value → List Value
  | [] => []
  | value :: older => value :: (distinct older).filter fun other => decide (other ≠ value)

variable {value : Value}

theorem mem_distinct {history : List Value} : value ∈ distinct history ↔ value ∈ history := by
  induction history with
  | nil => exact Iff.rfl
  | cons latest older ih =>
    rw [distinct, mem_cons, mem_cons, List.mem_filter, ih, decide_eq_true_eq]
    by_cases same : value = latest
    · simp [same]
    · simp [same]

theorem nodup_distinct (history : List Value) : (distinct history).Nodup := by
  induction history with
  | nil => exact nodup_nil
  | cons latest older ih =>
    refine nodup_cons.mpr ⟨fun member => ?_, ih.filter _⟩
    exact of_decide_eq_true (List.mem_filter.mp member).2 rfl

theorem take_hit {values : List Value} (unique : values.Nodup) {capacity : Nat}
    (hit : value ∈ values.take (capacity + 1)) :
    (value :: values.filter fun other => decide (other ≠ value)).take (capacity + 1) =
      value :: (values.take (capacity + 1)).filter fun other => decide (other ≠ value) := by
  rw [take_succ_cons]
  refine congrArg (value :: ·) ?_
  induction values generalizing capacity with
  | nil => rw [take_nil] at hit; cases hit
  | cons first rest ih =>
    obtain ⟨absent, unique⟩ := nodup_cons.mp unique
    rw [take_succ_cons] at hit ⊢
    by_cases same : first = value
    · subst same
      have others : ∀ part : List Value, first ∉ part → part.filter (fun other => decide (other ≠ first)) = part := by
        intro part apart
        exact filter_eq_self.mpr fun other member => decide_eq_true fun equal => apart (equal ▸ member)
      rw [filter_cons_of_neg (by simp), filter_cons_of_neg (by simp), others rest absent,
        others (rest.take capacity) fun member => absent (mem_of_mem_take member)]
    · rw [filter_cons_of_pos (by simpa using same), filter_cons_of_pos (by simpa using same)]
      have later : value ∈ rest.take capacity := (mem_cons.mp hit).resolve_left (Ne.symm same)
      cases capacity with
      | zero => cases later
      | succ capacity =>
        rw [take_succ_cons]
        exact congrArg (first :: ·) (ih unique later)

theorem take_miss {values : List Value} {capacity : Nat} (miss : value ∉ values.take (capacity + 1)) :
    (value :: values.filter fun other => decide (other ≠ value)).take (capacity + 1) =
      value :: if capacity + 1 ≤ (values.take (capacity + 1)).length then (values.take (capacity + 1)).dropLast
        else values.take (capacity + 1) := by
  rw [take_succ_cons]
  refine congrArg (value :: ·) ?_
  have kept : ∀ part : List Value, value ∉ part → part.filter (fun other => decide (other ≠ value)) = part := by
    intro part apart
    exact filter_eq_self.mpr fun other member => decide_eq_true fun equal => apart (equal ▸ member)
  have split : values.filter (fun other => decide (other ≠ value)) =
      values.take (capacity + 1) ++ (values.drop (capacity + 1)).filter fun other => decide (other ≠ value) := by
    conv_lhs => rw [← take_append_drop (capacity + 1) values]
    rw [filter_append, kept _ miss]
  rw [split]
  by_cases full : capacity + 1 ≤ values.length
  · have length : (values.take (capacity + 1)).length = capacity + 1 := length_take_of_le full
    rw [if_pos (Nat.le_of_eq length.symm), take_append_of_le_length (by omega), dropLast_eq_take, length]
    rfl
  · have length : values.length ≤ capacity := by omega
    have all : values.take (capacity + 1) = values := take_of_length_le (by omega)
    rw [all, if_neg full, drop_eq_nil_of_le (by omega), filter_nil, append_nil,
      take_of_length_le length]

end Recency
