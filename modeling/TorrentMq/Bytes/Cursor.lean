import TorrentMq.Bytes.Reader
import TorrentMq.Bytes.Varint

/-!
# Reading through a pointer

Readers that move a position over bytes that they index, and that fault where
an index is outside. One that follows a reader of byte strings does not fault.
-/

set_option autoImplicit false

namespace Bytes

open List

inductive Fault (Error : Type) where
  | outOfBounds (index : Nat)
  | failed (error : Error)
deriving DecidableEq

abbrev Cursor (Error Value : Type) := ReaderT Bytes (StateT Nat (Except (Fault Error))) Value

def wordSub (left right : Nat) : Nat := (left + 2 ^ 64 - right) % 2 ^ 64

theorem wordSub_of_le {left right : Nat} (le : right ≤ left) (short : left < 2 ^ 64) :
    wordSub left right = left - right := by
  unfold wordSub
  omega

namespace Cursor

variable {Error Value Result : Type}

def byteAt (index : Nat) : Cursor Error UInt8 := fun bytes pos =>
  match bytes[index]? with
  | none => .error (.outOfBounds index)
  | some byte => .ok (byte, pos)

def slice : Nat → Nat → Cursor Error Bytes
  | _, 0 => pure []
  | index, count + 1 => do
    let byte ← byteAt index
    let bytes ← slice (index + 1) count
    return byte :: bytes

def fail (error : Error) : Cursor Error Value := fun _ _ => .error (.failed error)

def len : Cursor Error Nat := fun bytes pos => .ok (bytes.length, pos)

def fetch (count : Nat) : Cursor Error Bytes := do
  let pos ← get
  let bytes ← slice pos count
  set (pos + count)
  return bytes

def leInt (width : Nat) : Cursor Error Int := do
  let bytes ← fetch width
  return decodeInt width bytes

def leNat (width : Nat) : Cursor Error Nat := do
  let bytes ← fetch width
  return decode bytes

def needing (count : Nat) (otherwise next : Cursor Error Value) : Cursor Error Value := do
  let pos ← get
  let len ← len
  if len < pos + count then otherwise else next

/-- The loop over the bytes of a varint behind a pointer of its own, with the number of bytes that it took. -/
def readUvarint (buf bufLen : Nat) : Nat → Nat → UInt64 → Nat → Cursor Error (Option (UInt64 × Nat))
  | 0, _, _, _ => pure none
  | width + 1, i, value, shift =>
    if bufLen ≤ i then pure none
    else do
      let byte ← byteAt (buf + i)
      let value := value ||| ((byte &&& 0x7F).toUInt64 <<< UInt64.ofNat shift)
      if byte &&& 0x80 = 0 then return some (value, i + 1)
      else if 64 ≤ shift + 7 then return none
      else readUvarint buf bufLen width (i + 1) value (shift + 7)

def pastSvarint (error : Error) (pos : Nat) : Option (UInt64 × Nat) → Cursor Error Int64
  | none => fail error
  | some (zigzag, consumed) => do
    set (pos + consumed)
    return unzigzag zigzag

def readSvarint (error : Error) : Cursor Error Int64 := do
  let pos ← get
  let len ← len
  let read ← readUvarint pos (wordSub len pos) 10 0 0 0
  pastSvarint error pos read

theorem run_bind (first : Cursor Error Value) (next : Value → Cursor Error Result) (bytes : Bytes) (pos : Nat) :
    (first >>= next) bytes pos = first bytes pos >>= fun read => next read.1 bytes read.2 := rfl

theorem run_get (bytes : Bytes) (pos : Nat) : (get : Cursor Error Nat) bytes pos = .ok (pos, pos) := rfl

theorem run_len (bytes : Bytes) (pos : Nat) : (len : Cursor Error Nat) bytes pos = .ok (bytes.length, pos) := rfl

theorem run_pastSvarint (error : Error) (start : Nat) (read : UInt64 × Nat) (bytes : Bytes) (pos : Nat) :
    pastSvarint error start (some read) bytes pos = .ok (unzigzag read.1, start + read.2) := rfl

variable {bytes : Bytes} {pos : Nat}

theorem run_bind_ok {first : Cursor Error Value} {after : Nat} {value : Value}
    (read : first bytes pos = .ok (value, after)) (next : Value → Cursor Error Result) :
    (first >>= next) bytes pos = next value bytes after := by
  rw [run_bind, read]
  rfl

theorem byteAt_of_lt {index : Nat} (inside : index < bytes.length) (pos : Nat) :
    (byteAt index : Cursor Error UInt8) bytes pos = .ok (bytes[index], pos) := by
  unfold byteAt
  rw [getElem?_eq_getElem inside]

theorem slice_of_le {index count : Nat} (inside : index + count ≤ bytes.length) (pos : Nat) :
    (slice index count : Cursor Error Bytes) bytes pos = .ok ((bytes.drop index).take count, pos) := by
  induction count generalizing index with
  | zero =>
    rw [take_zero]
    rfl
  | succ count ih =>
    have below : index < bytes.length := by omega
    have first := @byteAt_of_lt Error bytes index below pos
    have rest := @ih (index + 1) (by omega)
    rw [slice, run_bind_ok first, run_bind_ok rest, drop_eq_getElem_cons below, take_succ_cons]
    rfl

theorem fetch_of_le {count : Nat} (inside : pos + count ≤ bytes.length) :
    (fetch count : Cursor Error Bytes) bytes pos = .ok ((bytes.drop pos).take count, pos + count) := by
  have read := @slice_of_le Error bytes pos count inside pos
  change (slice pos count >>= fun taken => do
    set (pos + count)
    return taken : Cursor Error Bytes) bytes pos = _
  rw [run_bind_ok read]
  rfl

variable {width : Nat}

theorem leInt_of_le (inside : pos + width ≤ bytes.length) :
    (leInt width : Cursor Error Int) bytes pos = .ok ((readInt width (bytes.drop pos)).1, pos + width) := by
  rw [leInt, run_bind_ok (fetch_of_le inside)]
  rfl

theorem leNat_of_le (inside : pos + width ≤ bytes.length) :
    (leNat width : Cursor Error Nat) bytes pos = .ok ((readNat width (bytes.drop pos)).1, pos + width) := by
  rw [leNat, run_bind_ok (fetch_of_le inside)]
  rfl

inductive Matches (bytes : Bytes) : Except Error (Value × Bytes) → Except (Fault Error) (Value × Nat) → Prop
  | error (error : Error) : Matches bytes (.error error) (.error (.failed error))
  | ok (value : Value) {next : Nat} (inside : next ≤ bytes.length) :
      Matches bytes (.ok (value, bytes.drop next)) (.ok (value, next))

/-- A cursor does what a reader does of the bytes at its position, if so many of them are left. -/
def Follows (needed : Nat) (cursor : Cursor Error Value) (reader : StateT Bytes (Except Error) Value) : Prop :=
  ∀ bytes pos, bytes.length < 2 ^ 64 → pos + needed ≤ bytes.length →
    Matches bytes (reader.run (bytes.drop pos)) (cursor bytes pos)

section

variable {needed : Nat} {cursor : Cursor Error Value} {reader : StateT Bytes (Except Error) Value}

theorem Follows.weaken (follows : Follows needed cursor reader) {more : Nat} (le : needed ≤ more) :
    Follows more cursor reader :=
  fun bytes pos short inside => follows bytes pos short (by omega)

theorem Follows.pure (value : Value) : Follows 0 (Pure.pure value : Cursor Error Value) (Pure.pure value) :=
  fun _ _ _ inside => .ok value inside

theorem Follows.fail (error : Error) : Follows 0 (Cursor.fail error : Cursor Error Value) (throw error) :=
  fun _ _ _ _ => .error error

variable {next : Value → Cursor Error Result} {rest : Value → StateT Bytes (Except Error) Result}

theorem Follows.bind
    (first : Follows needed cursor reader) (second : ∀ value, Follows 0 (next value) (rest value)) :
    Follows needed (cursor >>= next) (reader >>= rest) := by
  intro bytes pos short inside
  have both := first bytes pos short inside
  rw [StateT.run_bind, run_bind]
  generalize reader.run (bytes.drop pos) = read at both ⊢
  generalize cursor bytes pos = moved at both ⊢
  cases both with
  | error error => exact .error error
  | ok value inside => exact second value bytes _ short inside

theorem Follows.bind_of_run {width : Nat}
    (first : ∀ bytes pos, pos + width ≤ bytes.length → ∃ value,
      reader.run (bytes.drop pos) = .ok (value, bytes.drop (pos + width)) ∧ cursor bytes pos = .ok (value, pos + width))
    (second : ∀ value, Follows needed (next value) (rest value)) :
    Follows (width + needed) (cursor >>= next) (reader >>= rest) := by
  intro bytes pos short inside
  obtain ⟨value, read, moved⟩ := first bytes pos (by omega)
  rw [StateT.run_bind, read, run_bind_ok moved]
  exact second value bytes (pos + width) short (by omega)

theorem Follows.ite {condition : Prop} [Decidable condition] {other : Cursor Error Value}
    {otherReader : StateT Bytes (Except Error) Value} (yes : Follows needed cursor reader)
    (no : Follows needed other otherReader) :
    Follows needed (if condition then cursor else other) (if condition then reader else otherReader) := by
  split
  · exact yes
  · exact no

theorem Follows.needing {count : Nat} {otherwise : Cursor Error Value}
    {otherwiseReader : StateT Bytes (Except Error) Value} (few : Follows 0 otherwise otherwiseReader)
    (enough : Follows count cursor reader) :
    Follows 0 (Cursor.needing count otherwise cursor) (Reader.needing count otherwiseReader reader) := by
  intro bytes pos short inside
  change Matches bytes (if (bytes.drop pos).length < count then _ else _)
    ((if bytes.length < pos + count then otherwise else cursor) bytes pos)
  rw [length_drop]
  by_cases left : bytes.length < pos + count
  · rw [if_pos (by omega), if_pos left]
    exact few bytes pos short inside
  · rw [if_neg (by omega), if_neg left]
    exact enough bytes pos short (by omega)

end

theorem Follows.leInt_bind (needed : Nat) {next : Int → Cursor Error Result}
    {rest : Int → StateT Bytes (Except Error) Result}
    (second : ∀ value, Follows needed (next value) (rest value)) :
    Follows (width + needed) (leInt width >>= next) (Reader.int width >>= rest) := by
  refine Follows.bind_of_run ?_ second
  intro bytes pos inside
  refine ⟨(readInt width (bytes.drop pos)).1, ?_, leInt_of_le inside⟩
  change Except.ok (readInt width (bytes.drop pos)) = _
  rw [readInt, drop_drop]

theorem follows_fetch (count : Nat) :
    Follows count (fetch count : Cursor Error Bytes) (Reader.block count) := by
  intro bytes pos short inside
  rw [fetch_of_le inside]
  have read : (Reader.block count : StateT Bytes (Except Error) Bytes).run (bytes.drop pos) =
      .ok ((bytes.drop pos).take count, bytes.drop (pos + count)) := by
    change Except.ok ((bytes.drop pos).take count, (bytes.drop pos).drop count) = _
    rw [drop_drop]
  rw [read]
  exact .ok _ inside

theorem readUvarint_eq {buf : Nat} (width : Nat) {i : Nat} (inside : buf + i ≤ bytes.length)
    (value : UInt64) (shift pos : Nat) :
    (readUvarint buf (bytes.length - buf) width i value shift : Cursor Error (Option (UInt64 × Nat))) bytes pos =
      .ok ((Bytes.readUvarint width value shift (bytes.drop (buf + i))).map fun read =>
        (read.1, bytes.length - buf - read.2.length), pos) := by
  induction width generalizing i value shift with
  | zero => rfl
  | succ width ih =>
    rw [readUvarint]
    by_cases left : bytes.length - buf ≤ i
    · rw [if_pos left, drop_eq_nil_of_le (by omega)]
      rfl
    · have below : buf + i < bytes.length := by omega
      rw [if_neg left, run_bind_ok (byteAt_of_lt below pos), drop_eq_getElem_cons below, Bytes.readUvarint]
      by_cases last : bytes[buf + i] &&& 0x80 = 0
      · rw [if_pos last, if_pos last]
        dsimp only [Option.map]
        rw [length_drop, show bytes.length - buf - (bytes.length - (buf + i + 1)) = i + 1 by omega]
        rfl
      · rw [if_neg last, if_neg last]
        by_cases long : 64 ≤ shift + 7
        · rw [if_pos long, if_pos long]
          rfl
        · rw [if_neg long, if_neg long]
          exact @ih (i + 1) (by omega) _ _

theorem readUvarint_suffix {value : UInt64} {shift : Nat} {rest : Bytes} {read : UInt64}
    (success : Bytes.readUvarint width value shift bytes = some (read, rest)) :
    rest = bytes.drop (bytes.length - rest.length) ∧ rest.length ≤ bytes.length := by
  induction width generalizing value shift bytes with
  | zero => cases success
  | succ width ih =>
    cases bytes with
    | nil => cases success
    | cons byte bytes =>
      rw [Bytes.readUvarint] at success
      split at success
      · obtain ⟨-, same⟩ := Prod.mk.inj (Option.some.inj success)
        rw [same, length_cons, Nat.add_sub_cancel_left]
        exact ⟨rfl, Nat.le_succ _⟩
      split at success
      · cases success
      · obtain ⟨suffix, shorter⟩ := ih success
        rw [length_cons, Nat.succ_sub shorter, drop_succ_cons]
        exact ⟨suffix, by omega⟩

theorem follows_readSvarint (error : Error) :
    Follows 0 (readSvarint error) (fun bytes =>
      match readSvarint64 bytes with
      | none => .error error
      | some read => .ok read) := by
  intro bytes pos short inside
  have loop := @readUvarint_eq Error bytes pos 10 0 inside 0 0 pos
  rw [Nat.add_zero] at inside loop
  rw [readSvarint, run_bind_ok (run_get bytes pos), run_bind_ok (run_len bytes pos), wordSub_of_le inside short,
    run_bind_ok loop, StateT.run, readSvarint64, readUvarint64]
  cases read : Bytes.readUvarint 10 0 0 (bytes.drop pos) with
  | none => exact .error error
  | some pair =>
    obtain ⟨zigzag, rest⟩ := pair
    obtain ⟨suffix, shorter⟩ := readUvarint_suffix read
    rw [length_drop] at suffix shorter
    have place : bytes.drop (pos + (bytes.length - pos - rest.length)) = rest := by
      rw [← drop_drop, ← suffix]
    have within : pos + (bytes.length - pos - rest.length) ≤ bytes.length := by omega
    rw [Option.map_some, Option.map_some, run_pastSvarint]
    dsimp only
    generalize pos + (bytes.length - pos - rest.length) = next at place within
    rw [← place]
    exact .ok _ within

end Cursor

end Bytes
