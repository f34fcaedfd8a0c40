import Mathlib.Data.List.Basic

/-!
# Memory

Bytes by their distance from the start of a buffer, and the stores that have
been made to them.
-/

set_option autoImplicit false

namespace Bytes

open List

structure Memory where
  contents : Nat → UInt8
  stores : List (Nat × List UInt8)

namespace Memory

def untouched (contents : Nat → UInt8) : Memory := { contents, stores := [] }

def store (memory : Memory) (offset : Nat) (bytes : List UInt8) : Memory where
  contents address :=
    if offset ≤ address then bytes[address - offset]?.getD (memory.contents address) else memory.contents address
  stores := (offset, bytes) :: memory.stores

def slice (memory : Memory) (offset length : Nat) : List UInt8 :=
  (List.range length).map fun index => memory.contents (offset + index)

def Within (size : Nat) (memory : Memory) : Prop :=
  ∀ stored ∈ memory.stores, ∀ index < stored.2.length, stored.1 + index < size

instance (size : Nat) (memory : Memory) : Decidable (memory.Within size) :=
  inferInstanceAs (Decidable (∀ stored ∈ memory.stores, ∀ index < stored.2.length, stored.1 + index < size))

variable (memory : Memory)

theorem contents_store_of_ge {offset address : Nat} {bytes : List UInt8} (above : offset + bytes.length ≤ address) :
    (memory.store offset bytes).contents address = memory.contents address := by
  have outside : bytes[address - offset]? = none := getElem?_eq_none (by omega)
  simp [store, outside]

theorem slice_store (offset : Nat) (bytes : List UInt8) :
    (memory.store offset bytes).slice offset bytes.length = bytes := by
  apply ext_getElem
  · simp [slice]
  · intro index _ inside
    simp [slice, store, inside]

theorem within_untouched (size : Nat) (contents : Nat → UInt8) : (untouched contents).Within size :=
  fun _ stored => absurd stored not_mem_nil

theorem within_store {size offset : Nat} {bytes : List UInt8} (inside : offset ≤ size) :
    (memory.store offset bytes).Within size ↔ memory.Within size ∧ offset + bytes.length ≤ size := by
  constructor
  · intro within
    refine ⟨fun stored member => within stored (mem_cons_of_mem _ member), ?_⟩
    have last := within (offset, bytes) List.mem_cons_self (bytes.length - 1)
    dsimp only at last
    omega
  · rintro ⟨within, short⟩ stored member index below
    cases member with
    | head =>
      dsimp only at below
      omega
    | tail _ earlier => exact within stored earlier index below

end Memory

end Bytes
