import Mathlib.Data.List.Lex
import Mathlib.Order.Lattice
import TorrentMq.Bytes.Basic

/-!
# Reading bytes

Machine words as ordered keys and as big-endian codes, and readers that take
values off the front of a byte string.
-/

set_option autoImplicit false

instance byteLinearOrder : LinearOrder UInt8 where
  le_refl := UInt8.le_refl
  le_trans _ _ _ := UInt8.le_trans
  le_antisymm _ _ := UInt8.le_antisymm
  lt_iff_le_not_ge _ _ :=
    ⟨fun below => ⟨UInt8.le_of_lt below, UInt8.not_le.mpr below⟩, fun below => UInt8.not_le.mp below.2⟩
  le_total := UInt8.le_total
  toDecidableLE := inferInstance
  toDecidableEq := inferInstance
  toDecidableLT := inferInstance

instance uint64LinearOrder : LinearOrder UInt64 where
  le_refl := UInt64.le_refl
  le_trans _ _ _ := UInt64.le_trans
  le_antisymm _ _ := UInt64.le_antisymm
  lt_iff_le_not_ge _ _ :=
    ⟨fun below => ⟨UInt64.le_of_lt below, UInt64.not_le.mpr below⟩, fun below => UInt64.not_le.mp below.2⟩
  le_total := UInt64.le_total
  toDecidableLE := inferInstance
  toDecidableEq := inferInstance
  toDecidableLT := inferInstance

instance int32LinearOrder : LinearOrder Int32 where
  le_refl := Int32.le_refl
  le_trans _ _ _ := Int32.le_trans
  le_antisymm _ _ := Int32.le_antisymm
  lt_iff_le_not_ge _ _ :=
    ⟨fun below => ⟨Int32.le_of_lt below, Int32.not_le.mpr below⟩, fun below => Int32.not_le.mp below.2⟩
  le_total := Int32.le_total
  toDecidableLE := inferInstance
  toDecidableEq := inferInstance
  toDecidableLT := inferInstance

instance int64LinearOrder : LinearOrder Int64 where
  le_refl := Int64.le_refl
  le_trans _ _ _ := Int64.le_trans
  le_antisymm _ _ := Int64.le_antisymm
  lt_iff_le_not_ge _ _ :=
    ⟨fun below => ⟨Int64.le_of_lt below, Int64.not_le.mpr below⟩, fun below => Int64.not_le.mp below.2⟩
  le_total := Int64.le_total
  toDecidableLE := inferInstance
  toDecidableEq := inferInstance
  toDecidableLT := inferInstance

namespace Bytes

open List

-- Under names of their own, so that a definition does not hold a proof of them.
instance lawfulByte : LawfulBEq UInt8 := inferInstance

instance lawfulByteString : LawfulBEq Bytes := inferInstance

instance lawfulNumbered : LawfulBEq (Bytes × Int) := inferInstance

def encodeBig (width value : Nat) : Bytes := (encode width value).reverse

def decodeBig (bytes : Bytes) : Nat := decode bytes.reverse

@[simp] theorem length_encodeBig (width value : Nat) : (encodeBig width value).length = width := by
  simp [encodeBig]

theorem decodeBig_encodeBig {width value : Nat} (short : value < 256 ^ width) :
    decodeBig (encodeBig width value) = value := by
  rw [decodeBig, encodeBig, reverse_reverse, decode_encode_of_lt short]

theorem decodeBig_lt (bytes : Bytes) : decodeBig bytes < 256 ^ bytes.length := by
  have below := decode_lt bytes.reverse
  rwa [length_reverse] at below

theorem decodeBig_append (front rest : Bytes) :
    decodeBig (front ++ rest) = decodeBig front * 256 ^ rest.length + decodeBig rest := by
  unfold decodeBig
  rw [reverse_append, decode_append, length_reverse, Nat.add_comm, Nat.mul_comm]

theorem encodeBig_add (high low value : Nat) :
    encodeBig (high + low) value = encodeBig high (value / 256 ^ low) ++ encodeBig low value := by
  unfold encodeBig
  rw [Nat.add_comm, encode_add, reverse_append]

theorem encodeBig_decodeBig (bytes : Bytes) : encodeBig bytes.length (decodeBig bytes) = bytes := by
  have back := encode_decode bytes.reverse
  rw [length_reverse] at back
  rw [encodeBig, decodeBig, back, reverse_reverse]

abbrev Reader (Value : Type) := StateT Bytes Option Value

namespace Reader

variable {Value : Type}

def take (count : Nat) : Reader Bytes := fun bytes =>
  if bytes.length < count then none else some (bytes.take count, bytes.drop count)

def big (width : Nat) : Reader Nat := do
  let bytes ← take width
  return decodeBig bytes

def many (reader : Reader Value) : Nat → Reader (List Value)
  | 0 => pure []
  | count + 1 => do
    let value ← reader
    let values ← many reader count
    return value :: values

def whileLeft (reader : StateM Bytes Value) : Nat → StateM Bytes (List Value)
  | 0 => pure []
  | count + 1 => fun bytes =>
    if bytes.isEmpty then ([], bytes)
    else (do
      let value ← reader
      let values ← whileLeft reader count
      return value :: values).run bytes

section

variable {Source : Type → Type} [Monad Source]

def int (width : Nat) : StateT Bytes Source Int := fun bytes => Pure.pure (readInt width bytes)

def block (count : Nat) : StateT Bytes Source Bytes := fun bytes =>
  Pure.pure (bytes.take count, bytes.drop count)

def needing (count : Nat) (otherwise next : StateT Bytes Source Value) :
    StateT Bytes Source Value := fun bytes =>
  if bytes.length < count then otherwise.run bytes else next.run bytes

end

section

variable {Source : Type → Type} [Monad Source]

/-- A reader takes exactly these bytes off for a value, whatever follows them. -/
def Reads (reader : StateT Bytes Source Value) (bytes : Bytes) (value : Value) : Prop :=
  ∀ rest, reader.run (bytes ++ rest) = Pure.pure (value, rest)

theorem Reads.pure (value : Value) : Reads (Pure.pure value : StateT Bytes Source Value) [] value :=
  fun _ => rfl

variable [LawfulMonad Source] {reader : StateT Bytes Source Value}

theorem Reads.run_bind {Result : Type} {bytes : Bytes} {value : Value} (first : Reads reader bytes value)
    (next : Value → StateT Bytes Source Result) (rest : Bytes) :
    (reader >>= next).run (bytes ++ rest) = (next value).run rest := by
  rw [StateT.run_bind, first, pure_bind]

theorem Reads.bind {Result : Type} {next : Value → StateT Bytes Source Result}
    {bytes more : Bytes} {value : Value} {result : Result} (first : Reads reader bytes value)
    (second : Reads (next value) more result) : Reads (reader >>= next) (bytes ++ more) result := by
  intro rest
  rw [append_assoc, first.run_bind]
  exact second rest

theorem Reads.map {Result : Type} {result : Value → Result} {bytes : Bytes}
    {value : Value} (first : Reads reader bytes value) :
    Reads (reader >>= fun value => Pure.pure (result value)) bytes (result value) := by
  have both : Reads (reader >>= fun value => Pure.pure (result value)) (bytes ++ []) (result value) :=
    first.bind (Reads.pure (result value))
  rwa [append_nil] at both

omit [LawfulMonad Source] in
theorem Reads.needing {count : Nat} (otherwise : StateT Bytes Source Value) {bytes : Bytes}
    {value : Value} (next : Reads reader bytes value) (enough : count ≤ bytes.length) :
    Reads (Reader.needing count otherwise reader) bytes value := by
  intro rest
  change (if (bytes ++ rest).length < count then _ else _) = _
  rw [if_neg (by rw [length_append]; omega)]
  exact next rest

omit [LawfulMonad Source] in
theorem reads_int {width : Nat} {value : Int} (fits : FitsInt width value) :
    Reads (int width : StateT Bytes Source Int) (encodeInt width value) value := by
  intro rest
  exact congrArg Pure.pure (readInt_encodeInt_append fits rest)

omit [LawfulMonad Source] in
theorem reads_block (bytes : Bytes) :
    Reads (block bytes.length : StateT Bytes Source Bytes) bytes bytes := by
  intro rest
  change Pure.pure ((bytes ++ rest).take _, (bytes ++ rest).drop _) = _
  rw [take_left' rfl, drop_left' rfl]

end

theorem run_bind_ok {Error First Result : Type} {reader : StateT Bytes (Except Error) First}
    {next : First → StateT Bytes (Except Error) Result} {bytes : Bytes} {outcome : Result × Bytes}
    (succeeded : (reader >>= next).run bytes = .ok outcome) :
    ∃ value rest, reader.run bytes = .ok (value, rest) ∧ (next value).run rest = .ok outcome := by
  rw [StateT.run_bind] at succeeded
  cases read : reader.run bytes with
  | error error =>
    rw [read] at succeeded
    cases succeeded
  | ok first =>
    rw [read] at succeeded
    exact ⟨first.1, first.2, rfl, succeeded⟩

theorem reads_take (bytes : Bytes) : Reads (take bytes.length) bytes bytes := by
  intro rest
  change (if (bytes ++ rest).length < bytes.length then none else _) = _
  rw [if_neg (by simp), take_left' rfl, drop_left' rfl]
  rfl

theorem reads_big {width value : Nat} (short : value < 256 ^ width) :
    Reads (big width) (encodeBig width value) value := by
  have bytes := reads_take (encodeBig width value)
  rw [length_encodeBig] at bytes
  have decoded := @Reads.map _ _ _ _ _ _ decodeBig _ _ bytes
  rwa [decodeBig_encodeBig short] at decoded

theorem Reads.many {reader : Reader Value} {write : Value → Bytes} {values : List Value}
    (each : ∀ value ∈ values, Reads reader (write value) value) :
    Reads (Reader.many reader values.length) (values.flatMap write) values := by
  induction values with
  | nil => exact Reads.pure []
  | cons value values ih =>
    rw [flatMap_cons]
    exact (each value mem_cons_self).bind (ih fun other member => each other (by simp [member])).map

theorem run_whileLeft_succ (reader : StateM Bytes Value) (count : Nat) {bytes : Bytes}
    (some_byte : bytes ≠ []) :
    (whileLeft reader (count + 1)).run bytes =
      (reader >>= fun value => whileLeft reader count >>= fun values => pure (value :: values)).run bytes :=
  if_neg (by simpa using some_byte)

variable {reader : StateM Bytes Value}

theorem fst_run_whileLeft_succ {count : Nat} {bytes rest : Bytes}
    {value : Value} (some_byte : bytes ≠ []) (read : reader.run bytes = (value, rest)) :
    ((whileLeft reader (count + 1)).run bytes).1 = value :: ((whileLeft reader count).run rest).1 := by
  rw [run_whileLeft_succ reader count some_byte, StateT.run_bind, read]
  rfl

theorem run_whileLeft_nil (reader : StateM Bytes Value) (count : Nat) :
    (whileLeft reader count).run [] = ([], []) := by
  cases count with
  | zero => rfl
  | succ count => rfl

theorem Reads.whileLeft {write : Value → Bytes} {values : List Value}
    (each : ∀ value ∈ values, write value ≠ [] ∧ Reads reader (write value) value) :
    Reads (Reader.whileLeft reader values.length) (values.flatMap write) values := by
  induction values with
  | nil => exact Reads.pure []
  | cons value values ih =>
    obtain ⟨some_byte, own⟩ := each value mem_cons_self
    have others := ih fun other member => each other (mem_cons_of_mem value member)
    intro rest
    rw [flatMap_cons, append_assoc, length_cons,
      run_whileLeft_succ reader values.length (by simp [some_byte]), own.run_bind, others.run_bind]
    rfl

end Reader

end Bytes
