import Mathlib.Order.Lattice
import TorrentMq.Runs.Basic

/-!
# Fenced registers

A value that is written with epochs. What comes with an epoch below that of the
last write is refused, so that writes may arrive in any order.
-/

set_option autoImplicit false

namespace Runs

structure FencedRegister (Epoch Value : Type) where
  fence : Epoch
  value : Value

namespace FencedRegister

variable {Epoch Value : Type} [LinearOrder Epoch]

def write (register : FencedRegister Epoch Value) (offer : Epoch × Value) : FencedRegister Epoch Value :=
  if offer.1 < register.fence then register else ⟨offer.1, offer.2⟩

variable {register : FencedRegister Epoch Value} {newest offer : Epoch × Value} {offers : List (Epoch × Value)}

/-- Any other write is of an earlier epoch, or writes the same in the same one. -/
def Newest (newest : Epoch × Value) (offers : List (Epoch × Value)) : Prop :=
  ∀ offer ∈ offers, offer.1 < newest.1 ∨ offer = newest

theorem fence_write_le (low : register.fence ≤ newest.1) (older : offer.1 < newest.1 ∨ offer = newest) :
    (register.write offer).fence ≤ newest.1 := by
  unfold write
  split
  next => exact low
  next =>
    rcases older with below | same
    · exact below.le
    · exact (congrArg Prod.fst same).le

theorem write_newest (low : register.fence ≤ newest.1) : register.write newest = ⟨newest.1, newest.2⟩ :=
  if_neg low.not_gt

theorem run_write_of_newest (newer : Newest newest offers) :
    run write ⟨newest.1, newest.2⟩ offers = ⟨newest.1, newest.2⟩ := by
  induction offers with
  | nil => rfl
  | cons offer offers ih =>
    have same : write ⟨newest.1, newest.2⟩ offer = ⟨newest.1, newest.2⟩ := by
      rcases newer offer List.mem_cons_self with below | rfl
      · exact if_pos below
      · exact write_newest (le_refl _)
    rw [run_cons, same]
    exact ih fun other member => newer other (List.mem_cons_of_mem offer member)

theorem run_write (low : register.fence ≤ newest.1) (newer : Newest newest offers) (written : newest ∈ offers) :
    run write register offers = ⟨newest.1, newest.2⟩ := by
  induction offers generalizing register with
  | nil => cases written
  | cons offer offers ih =>
    have rest : Newest newest offers := fun other member => newer other (List.mem_cons_of_mem offer member)
    rw [run_cons]
    rcases List.mem_cons.mp written with rfl | later
    · rw [write_newest low]
      exact run_write_of_newest rest
    · exact ih (fence_write_le low (newer offer List.mem_cons_self)) rest later

end FencedRegister

end Runs
