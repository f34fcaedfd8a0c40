import Mathlib.Data.List.GetD
import TorrentMq.Bytes.Reader
import TorrentMq.Runs.Basic

/-!
# Buffers of fragments

A buffer is a chain of fragments, each a stretch of a block of memory that other
buffers may share. A block is filled when it is allocated and never again.
-/

set_option autoImplicit false

namespace TorrentMq.Common

open Bytes Runs List

/-- A piece of a block of memory. -/
structure Fragment where
  data : Nat
  offset : Nat
  size : Nat
deriving DecidableEq

def Fragment.read (memory : List Bytes) (fragment : Fragment) (count : Nat) : Bytes :=
  ((memory.getD fragment.data []).drop fragment.offset).take count

structure Iobuf where
  fragments : List Fragment := []
  totalSize : Nat := 0
deriving DecidableEq

namespace Iobuf

variable (buffer : Iobuf) (memory : List Bytes)

def sizeBytes : Nat := buffer.totalSize

def allocated (data : Bytes) : Fragment := ⟨memory.length, 0, data.length⟩

def ofBytes (data : Bytes) : Iobuf := ⟨[allocated memory data], data.length⟩

def append (data : Bytes) : Iobuf :=
  ⟨buffer.fragments ++ [allocated memory data], buffer.totalSize + data.length⟩

def appendBuffer (other : Iobuf) : Iobuf :=
  if other.totalSize = 0 then buffer
  else ⟨buffer.fragments ++ other.fragments, buffer.totalSize + other.totalSize⟩

/-- Whole fragments are dropped while they fit, and the next one is cut. -/
def trimLoop : List Fragment → (remaining : Nat) → List Fragment
  | [], _ => []
  | fragment :: fragments, remaining =>
    if remaining = 0 then fragment :: fragments
    else if fragment.size ≤ remaining then trimLoop fragments (remaining - fragment.size)
    else { fragment with offset := fragment.offset + remaining, size := fragment.size - remaining } :: fragments

def trimFront (n : Nat) : Iobuf :=
  if n = 0 then buffer
  else if buffer.totalSize ≤ n then {}
  else ⟨trimLoop buffer.fragments n, buffer.totalSize - n⟩

/-- The fragments from the one that holds the offset on, and where in it the offset lies. -/
def skipLoop (offset : Nat) : List Fragment → (skipped : Nat) → List Fragment × Nat
  | [], skipped => ([], skipped)
  | fragment :: fragments, skipped =>
    if offset < skipped + fragment.size then (fragment :: fragments, skipped)
    else skipLoop offset fragments (skipped + fragment.size)

def takeLoop : List Fragment → (intraFragOffset bytesNeeded : Nat) → List Fragment
  | [], _, _ => []
  | fragment :: fragments, intraFragOffset, bytesNeeded =>
    if bytesNeeded = 0 then []
    else
      let take := min bytesNeeded (fragment.size - intraFragOffset)
      { fragment with offset := fragment.offset + intraFragOffset, size := take } ::
        takeLoop fragments 0 (bytesNeeded - take)

def share (offset size : Nat) : Iobuf :=
  if buffer.totalSize ≤ offset then {}
  else
    let (fragments, skipped) := skipLoop offset buffer.fragments 0
    let shared := takeLoop fragments (offset - skipped) (min size (buffer.totalSize - offset))
    ⟨shared, (shared.map Fragment.size).sum⟩

def flatten : Bytes :=
  let written := buffer.fragments.flatMap fun fragment => fragment.read memory fragment.size
  if buffer.totalSize = 0 then [] else written ++ List.replicate (buffer.totalSize - written.length) 0

def copyLoop (toCopy : Nat) : List Fragment → (copied : Nat) → Nat × Bytes
  | [], copied => (copied, [])
  | fragment :: fragments, copied =>
    if toCopy ≤ copied then (copied, [])
    else
      let take := min fragment.size (toCopy - copied)
      let rest := copyLoop toCopy fragments (copied + take)
      (rest.1, fragment.read memory take ++ rest.2)

def copyTo (maxSize : Nat) : Nat × Bytes :=
  if maxSize = 0 ∨ buffer.totalSize = 0 then (0, [])
  else copyLoop memory (min maxSize buffer.totalSize) buffer.fragments 0

end Iobuf

/-- All buffers over one memory. Blocks are added and never written again. -/
structure Buffers where
  memory : List Bytes := []
  buffers : List Iobuf := []

inductive Operation where
  | construct (data : Bytes)
  | append (target : Nat) (data : Bytes)
  | appendBuffer (target source : Nat)
  | trimFront (target n : Nat)
  | share (source offset size : Nat)
  | clear (target : Nat)

namespace Buffers

variable (state : Buffers)

def buffer (index : Nat) : Iobuf := state.buffers.getD index {}

def step : Operation → Buffers
  | .construct data =>
    if data = [] then { state with buffers := state.buffers ++ [{}] }
    else ⟨state.memory ++ [data], state.buffers ++ [.ofBytes state.memory data]⟩
  | .append target data =>
    if data = [] then state
    else ⟨state.memory ++ [data], state.buffers.modify target (·.append state.memory data)⟩
  | .appendBuffer target source =>
    { state with buffers := state.buffers.modify target (·.appendBuffer (state.buffer source)) }
  | .trimFront target n => { state with buffers := state.buffers.modify target (·.trimFront n) }
  | .share source offset size =>
    { state with buffers := state.buffers ++ [(state.buffer source).share offset size] }
  | .clear target => { state with buffers := state.buffers.modify target fun _ => {} }

def contents : List Bytes := state.buffers.map (·.flatten state.memory)

end Buffers

/-- The operations on the bytes that the buffers stand for. -/
def Operation.perform (contents : List Bytes) : Operation → List Bytes
  | .construct data => contents ++ [data]
  | .append target data => contents.modify target (· ++ data)
  | .appendBuffer target source => contents.modify target (· ++ contents.getD source [])
  | .trimFront target n => contents.modify target (·.drop n)
  | .share source offset size => contents ++ [((contents.getD source []).drop offset).take size]
  | .clear target => contents.modify target fun _ => []

section Fragments

variable {memory : List Bytes} {fragment : Fragment} {fragments : List Fragment} {count offset skipped : Nat}

def Fragment.Within (memory : List Bytes) (fragment : Fragment) : Prop :=
  fragment.data < memory.length ∧ fragment.offset + fragment.size ≤ (memory.getD fragment.data []).length

def bytesOf (memory : List Bytes) (fragments : List Fragment) : Bytes :=
  fragments.flatMap fun fragment => fragment.read memory fragment.size

theorem bytesOf_cons : bytesOf memory (fragment :: fragments) =
    fragment.read memory fragment.size ++ bytesOf memory fragments := flatMap_cons

theorem bytesOf_append (others : List Fragment) :
    bytesOf memory (fragments ++ others) = bytesOf memory fragments ++ bytesOf memory others := flatMap_append

theorem length_read (within : fragment.Within memory) : (fragment.read memory fragment.size).length = fragment.size := by
  unfold Fragment.read
  rw [length_take, length_drop]
  have inside := within.2
  omega

theorem length_bytesOf (within : ∀ fragment ∈ fragments, fragment.Within memory) :
    (bytesOf memory fragments).length = (fragments.map Fragment.size).sum := by
  induction fragments with
  | nil => rfl
  | cons fragment fragments ih =>
    obtain ⟨first, rest⟩ := forall_mem_cons.mp within
    rw [bytesOf_cons, length_append, length_read first, ih rest, map_cons, sum_cons]

theorem read_part (room : offset + count ≤ fragment.size) :
    ({ fragment with offset := fragment.offset + offset, size := count } : Fragment).read memory count =
      ((fragment.read memory fragment.size).drop offset).take count := by
  unfold Fragment.read
  rw [drop_take, drop_drop, take_take, Nat.min_eq_left (by omega)]

theorem within_part (within : fragment.Within memory) (room : offset + count ≤ fragment.size) :
    ({ fragment with offset := fragment.offset + offset, size := count } : Fragment).Within memory := by
  obtain ⟨known, inside⟩ := within
  exact ⟨known, by dsimp only; omega⟩

variable (data : Bytes)

theorem within_grow (within : fragment.Within memory) : fragment.Within (memory ++ [data]) := by
  obtain ⟨known, inside⟩ := within
  refine ⟨by rw [length_append]; omega, ?_⟩
  rwa [getD_append _ _ _ _ known]

theorem bytesOf_grow (within : ∀ fragment ∈ fragments, fragment.Within memory) :
    bytesOf (memory ++ [data]) fragments = bytesOf memory fragments := by
  refine flatMap_congr fun fragment member => ?_
  unfold Fragment.read
  rw [getD_append _ _ _ _ (within fragment member).1]

theorem bytesOf_allocated : bytesOf (memory ++ [data]) [Iobuf.allocated memory data] = data := by
  simp [bytesOf, Fragment.read, Iobuf.allocated]

theorem within_allocated : (Iobuf.allocated memory data).Within (memory ++ [data]) := by
  simp [Fragment.Within, Iobuf.allocated]

theorem trimLoop_spec (remaining : Nat) (within : ∀ fragment ∈ fragments, fragment.Within memory) :
    bytesOf memory (Iobuf.trimLoop fragments remaining) = (bytesOf memory fragments).drop remaining ∧
      ∀ fragment ∈ Iobuf.trimLoop fragments remaining, fragment.Within memory := by
  induction fragments generalizing remaining with
  | nil => exact ⟨drop_nil.symm, nofun⟩
  | cons fragment fragments ih =>
    obtain ⟨first, rest⟩ := forall_mem_cons.mp within
    have length := length_read first
    rw [Iobuf.trimLoop]
    split
    next none => exact ⟨by rw [none, drop_zero], within⟩
    next =>
      split
      next whole =>
        refine ⟨?_, (ih (remaining - fragment.size) rest).2⟩
        have gone : (fragment.read memory fragment.size).drop remaining = [] := drop_of_length_le (by omega)
        rw [(ih (remaining - fragment.size) rest).1, bytesOf_cons, drop_append, gone, length, nil_append]
      next part =>
        have room : remaining + (fragment.size - remaining) ≤ fragment.size := by omega
        refine ⟨?_, forall_mem_cons.mpr ⟨within_part first room, rest⟩⟩
        rw [bytesOf_cons, bytesOf_cons, read_part room, drop_append_of_le_length (by omega),
          take_of_length_le (by rw [length_drop]; omega)]

theorem skipLoop_spec {rest : List Fragment} {before : Nat} (within : ∀ fragment ∈ fragments, fragment.Within memory)
    (low : skipped ≤ offset) (found : Iobuf.skipLoop offset fragments skipped = (rest, before)) :
    before ≤ offset ∧ (bytesOf memory rest).drop (offset - before) = (bytesOf memory fragments).drop (offset - skipped) ∧
      (∀ fragment ∈ rest, fragment.Within memory) ∧ ∀ fragment ∈ rest.head?, offset - before ≤ fragment.size := by
  induction fragments generalizing skipped with
  | nil =>
    cases found
    exact ⟨low, rfl, nofun, nofun⟩
  | cons fragment fragments ih =>
    obtain ⟨first, behind⟩ := forall_mem_cons.mp within
    rw [Iobuf.skipLoop] at found
    split at found
    next holds =>
      cases found
      refine ⟨low, rfl, within, fun head same => ?_⟩
      cases same
      omega
    next passed =>
      obtain ⟨below, bytes, inside, head⟩ := ih behind (show skipped + fragment.size ≤ offset by omega) found
      refine ⟨below, ?_, inside, head⟩
      have length := length_read first
      have gone : (fragment.read memory fragment.size).drop (offset - skipped) = [] :=
        drop_of_length_le (by omega)
      rw [bytes, bytesOf_cons, drop_append, gone, length, nil_append, Nat.sub_sub]

theorem takeLoop_spec (intraFragOffset bytesNeeded : Nat) (within : ∀ fragment ∈ fragments, fragment.Within memory)
    (inside : ∀ fragment ∈ fragments.head?, intraFragOffset ≤ fragment.size) :
    bytesOf memory (Iobuf.takeLoop fragments intraFragOffset bytesNeeded) =
        ((bytesOf memory fragments).drop intraFragOffset).take bytesNeeded ∧
      ∀ fragment ∈ Iobuf.takeLoop fragments intraFragOffset bytesNeeded, fragment.Within memory := by
  induction fragments generalizing intraFragOffset bytesNeeded with
  | nil => exact ⟨by rw [Iobuf.takeLoop]; simp [bytesOf], nofun⟩
  | cons fragment fragments ih =>
    obtain ⟨first, rest⟩ := forall_mem_cons.mp within
    have low : intraFragOffset ≤ fragment.size := inside fragment rfl
    have length := length_read first
    rw [Iobuf.takeLoop]
    split
    next none => exact ⟨by rw [none, take_zero]; rfl, nofun⟩
    next =>
      have room : intraFragOffset + min bytesNeeded (fragment.size - intraFragOffset) ≤ fragment.size := by omega
      obtain ⟨bytes, parts⟩ := ih 0 (bytesNeeded - min bytesNeeded (fragment.size - intraFragOffset)) rest
        fun _ _ => Nat.zero_le _
      refine ⟨?_, forall_mem_cons.mpr ⟨within_part first room, parts⟩⟩
      have left : ((fragment.read memory fragment.size).drop intraFragOffset).length =
          fragment.size - intraFragOffset := by rw [length_drop, length]
      rw [bytesOf_cons, bytesOf_cons, read_part room, bytes, drop_zero,
        drop_append_of_le_length (by omega), take_append, left]
      congr 1
      · rw [← left, ← take_eq_take_min]
      · congr 1
        omega

theorem copyLoop_spec {toCopy copied : Nat} (within : ∀ fragment ∈ fragments, fragment.Within memory)
    (low : copied ≤ toCopy) :
    Iobuf.copyLoop memory toCopy fragments copied =
      (copied + min (toCopy - copied) (bytesOf memory fragments).length,
        (bytesOf memory fragments).take (toCopy - copied)) := by
  induction fragments generalizing copied with
  | nil =>
    rw [Iobuf.copyLoop]
    simp [bytesOf]
  | cons fragment fragments ih =>
    obtain ⟨first, rest⟩ := forall_mem_cons.mp within
    have length := length_read first
    rw [Iobuf.copyLoop]
    dsimp only
    split
    next full => rw [Nat.sub_eq_zero_of_le full, Nat.zero_min, take_zero, Nat.add_zero]
    next =>
      have part : (fragment.read memory fragment.size).take (toCopy - copied) =
          fragment.read memory (min fragment.size (toCopy - copied)) := by
        unfold Fragment.read
        rw [take_take, Nat.min_comm]
      rw [ih rest (by omega), bytesOf_cons, length_append, take_append, length, part]
      have left : toCopy - (copied + min fragment.size (toCopy - copied)) = toCopy - copied - fragment.size := by omega
      exact Prod.ext (by dsimp only; omega) (by rw [left])

end Fragments

namespace Iobuf

variable {memory : List Bytes} {buffer other : Iobuf}

/-- The fragments lie within their blocks, and the size is that of their bytes. -/
structure Sound (memory : List Bytes) (buffer : Iobuf) : Prop where
  within : ∀ fragment ∈ buffer.fragments, fragment.Within memory
  total : buffer.totalSize = (bytesOf memory buffer.fragments).length

theorem Sound.flatten_eq (sound : buffer.Sound memory) : buffer.flatten memory = bytesOf memory buffer.fragments := by
  have written : (buffer.fragments.flatMap fun fragment => fragment.read memory fragment.size) =
      bytesOf memory buffer.fragments := rfl
  unfold flatten
  dsimp only
  rw [written, sound.total, Nat.sub_self, replicate_zero, append_nil]
  split
  next none => exact (length_eq_zero_iff.mp none).symm
  next => rfl

theorem Sound.empty : Sound memory {} := ⟨nofun, rfl⟩

theorem flatten_empty : flatten {} memory = [] := rfl

theorem Sound.grow (sound : buffer.Sound memory) (data : Bytes) :
    buffer.Sound (memory ++ [data]) ∧ buffer.flatten (memory ++ [data]) = buffer.flatten memory := by
  have same := bytesOf_grow data sound.within
  have grown : buffer.Sound (memory ++ [data]) :=
    ⟨fun fragment member => within_grow data (sound.within fragment member), by rw [same]; exact sound.total⟩
  exact ⟨grown, by rw [grown.flatten_eq, same, sound.flatten_eq]⟩

theorem Sound.append (sound : buffer.Sound memory) (data : Bytes) :
    (buffer.append memory data).Sound (memory ++ [data]) ∧
      (buffer.append memory data).flatten (memory ++ [data]) = buffer.flatten memory ++ data := by
  have bytes : bytesOf (memory ++ [data]) (buffer.append memory data).fragments =
      bytesOf memory buffer.fragments ++ data := by
    unfold Iobuf.append
    rw [bytesOf_append, bytesOf_allocated, bytesOf_grow data sound.within]
  have appended : (buffer.append memory data).Sound (memory ++ [data]) := by
    refine ⟨fun fragment member => ?_, by rw [bytes, length_append, ← sound.total]; rfl⟩
    rcases mem_append.mp member with before | added
    · exact within_grow data (sound.within fragment before)
    · rw [mem_singleton.mp added]
      exact within_allocated data
  exact ⟨appended, by rw [appended.flatten_eq, bytes, sound.flatten_eq]⟩

theorem Sound.ofBytes (memory : List Bytes) (data : Bytes) :
    (Iobuf.ofBytes memory data).Sound (memory ++ [data]) ∧
      (Iobuf.ofBytes memory data).flatten (memory ++ [data]) = data := by
  have made : Iobuf.ofBytes memory data = Iobuf.append {} memory data := by simp [Iobuf.ofBytes, Iobuf.append]
  rw [made]
  exact Sound.empty.append data

section

variable (sound : buffer.Sound memory)

include sound

theorem Sound.appendBuffer (second : other.Sound memory) :
    (buffer.appendBuffer other).Sound memory ∧
      (buffer.appendBuffer other).flatten memory = buffer.flatten memory ++ other.flatten memory := by
  unfold Iobuf.appendBuffer
  split
  next none =>
    have empty : other.flatten memory = [] := by
      rw [second.flatten_eq]
      exact length_eq_zero_iff.mp (second.total ▸ none)
    exact ⟨sound, by rw [empty, append_nil]⟩
  next =>
    have appended : Sound memory ⟨buffer.fragments ++ other.fragments, buffer.totalSize + other.totalSize⟩ :=
      ⟨forall_mem_append.mpr ⟨sound.within, second.within⟩, by
        rw [bytesOf_append, length_append, ← sound.total, ← second.total]⟩
    exact ⟨appended, by rw [appended.flatten_eq, bytesOf_append, sound.flatten_eq, second.flatten_eq]⟩

theorem Sound.trimFront (n : Nat) :
    (buffer.trimFront n).Sound memory ∧ (buffer.trimFront n).flatten memory = (buffer.flatten memory).drop n := by
  unfold Iobuf.trimFront
  split
  next none => exact ⟨sound, by rw [none, drop_zero]⟩
  next =>
    split
    next all =>
      refine ⟨.empty, ?_⟩
      rw [flatten_empty, sound.flatten_eq, drop_of_length_le (sound.total ▸ all)]
    next =>
      obtain ⟨bytes, within⟩ := trimLoop_spec n sound.within
      have trimmed : Sound memory ⟨trimLoop buffer.fragments n, buffer.totalSize - n⟩ :=
        ⟨within, by rw [bytes, length_drop, ← sound.total]⟩
      exact ⟨trimmed, by rw [trimmed.flatten_eq, bytes, sound.flatten_eq]⟩

theorem Sound.share (offset size : Nat) :
    (buffer.share offset size).Sound memory ∧
      (buffer.share offset size).flatten memory = ((buffer.flatten memory).drop offset).take size := by
  have total := sound.total
  unfold Iobuf.share
  split
  next behind =>
    refine ⟨.empty, ?_⟩
    rw [flatten_empty, sound.flatten_eq, drop_of_length_le (total ▸ behind), take_nil]
  next =>
    rcases found : skipLoop offset buffer.fragments 0 with ⟨rest, before⟩
    obtain ⟨-, same, inside, head⟩ := skipLoop_spec sound.within (Nat.zero_le offset) found
    obtain ⟨bytes, within⟩ := takeLoop_spec (offset - before) (min size (buffer.totalSize - offset)) inside head
    dsimp only
    have shared : Sound memory
        ⟨takeLoop rest (offset - before) (min size (buffer.totalSize - offset)), List.sum (List.map Fragment.size _)⟩ :=
      ⟨within, (length_bytesOf within).symm⟩
    refine ⟨shared, ?_⟩
    rw [shared.flatten_eq, bytes, same, sound.flatten_eq, Nat.sub_zero, total, ← length_drop,
      ← take_eq_take_min]

theorem Sound.copyTo (maxSize : Nat) :
    buffer.copyTo memory maxSize = (min maxSize buffer.sizeBytes, (buffer.flatten memory).take maxSize) := by
  unfold Iobuf.copyTo sizeBytes
  rw [sound.flatten_eq]
  have total := sound.total
  split
  next none =>
    rcases none with zero | zero
    · rw [zero, Nat.zero_min, take_zero]
    · have empty := length_eq_zero_iff.mp (total.symm.trans zero)
      rw [zero, Nat.min_zero, empty, take_nil]
  next =>
    rw [copyLoop_spec sound.within (Nat.zero_le _), Nat.sub_zero, Nat.zero_add, ← total,
      Nat.min_assoc, Nat.min_self, total, ← take_eq_take_min]

end

end Iobuf

namespace Buffers

variable {state : Buffers}

def Sound (state : Buffers) : Prop := ∀ buffer ∈ state.buffers, buffer.Sound state.memory

theorem Sound.buffer (sound : state.Sound) (index : Nat) : (state.buffer index).Sound state.memory := by
  unfold Buffers.buffer
  rw [getD_eq_getElem?_getD]
  cases found : state.buffers[index]? with
  | none => exact .empty
  | some buffer => exact sound buffer (mem_of_getElem? found)

theorem flatten_buffer (index : Nat) : (state.buffer index).flatten state.memory = state.contents.getD index [] := by
  unfold Buffers.buffer contents
  rw [getD_eq_getElem?_getD, getD_eq_getElem?_getD, getElem?_map]
  cases state.buffers[index]? with
  | none => rfl
  | some buffer => rfl

theorem modify_spec {memory grown : List Bytes} {change : Iobuf → Iobuf} {perform : Bytes → Bytes}
    {buffers : List Iobuf} (index : Nat)
    (kept : ∀ buffer ∈ buffers, buffer.Sound grown ∧ buffer.flatten grown = buffer.flatten memory)
    (changed : ∀ buffer ∈ buffers,
      (change buffer).Sound grown ∧ (change buffer).flatten grown = perform (buffer.flatten memory)) :
    (∀ buffer ∈ buffers.modify index change, buffer.Sound grown) ∧
      (buffers.modify index change).map (·.flatten grown) =
        (buffers.map (·.flatten memory)).modify index perform := by
  induction buffers generalizing index with
  | nil => exact ⟨by simp, by simp⟩
  | cons buffer buffers ih =>
    obtain ⟨first, rest⟩ := forall_mem_cons.mp kept
    obtain ⟨changedFirst, changedRest⟩ := forall_mem_cons.mp changed
    cases index with
    | zero =>
      refine ⟨forall_mem_cons.mpr ⟨changedFirst.1, fun other member => (rest other member).1⟩, ?_⟩
      rw [modify_zero_cons, map_cons, map_cons, modify_zero_cons, changedFirst.2]
      exact congrArg _ (map_congr_left fun other member => (rest other member).2)
    | succ index =>
      obtain ⟨sound, bytes⟩ := ih index rest changedRest
      refine ⟨forall_mem_cons.mpr ⟨first.1, sound⟩, ?_⟩
      rw [modify_succ_cons, map_cons, map_cons, modify_succ_cons, first.2, bytes]

theorem Sound.step (sound : state.Sound) (operation : Operation) :
    (state.step operation).Sound ∧ (state.step operation).contents = operation.perform state.contents := by
  have kept : ∀ buffer ∈ state.buffers,
      buffer.Sound state.memory ∧ buffer.flatten state.memory = buffer.flatten state.memory :=
    fun buffer member => ⟨sound buffer member, rfl⟩
  have grown : ∀ data, ∀ buffer ∈ state.buffers, buffer.Sound (state.memory ++ [data]) ∧
      buffer.flatten (state.memory ++ [data]) = buffer.flatten state.memory :=
    fun data buffer member => (sound buffer member).grow data
  cases operation with
  | construct data =>
    unfold Buffers.step
    dsimp only
    split
    next none =>
      refine ⟨forall_mem_append.mpr ⟨sound, forall_mem_singleton.mpr .empty⟩, ?_⟩
      rw [none]
      exact map_append
    next =>
      obtain ⟨made, bytes⟩ := Iobuf.Sound.ofBytes state.memory data
      refine ⟨forall_mem_append.mpr
        ⟨fun buffer member => (grown data buffer member).1, forall_mem_singleton.mpr made⟩, ?_⟩
      have others := map_congr_left fun buffer member => (grown data buffer member).2
      unfold contents Operation.perform
      dsimp only
      rw [map_append, others, map_singleton, bytes]
  | append target data =>
    unfold Buffers.step
    dsimp only
    split
    next none =>
      refine ⟨sound, ?_⟩
      have same : (fun bytes : Bytes => bytes ++ data) = id := funext fun bytes => by rw [none, append_nil, id]
      unfold Operation.perform
      dsimp only
      rw [same, modify_id]
    next => exact modify_spec target (grown data) fun buffer member => (sound buffer member).append data
  | appendBuffer target source =>
    refine modify_spec target kept fun buffer member => ?_
    rw [← flatten_buffer]
    exact (sound buffer member).appendBuffer (sound.buffer source)
  | trimFront target n => exact modify_spec target kept fun buffer member => (sound buffer member).trimFront n
  | share source offset size =>
    obtain ⟨shared, bytes⟩ := (sound.buffer source).share offset size
    refine ⟨forall_mem_append.mpr ⟨sound, forall_mem_singleton.mpr shared⟩, ?_⟩
    rw [flatten_buffer] at bytes
    exact map_append.trans (congrArg (fun added => state.contents ++ [added]) bytes)
  | clear target => exact modify_spec target kept fun _ _ => ⟨.empty, rfl⟩

end Buffers

/-- Buffers that share memory behave as lists of bytes that do not: an operation changes the bytes of its own buffer
only, and as the operation on the list does. -/
theorem iobuf_algebra (operations : List Operation) :
    (run Buffers.step {} operations).contents = run Operation.perform [] operations ∧
      ∀ buffer ∈ (run Buffers.step {} operations).buffers,
        buffer.sizeBytes = (buffer.flatten (run Buffers.step {} operations).memory).length ∧
          ∀ maxSize, buffer.copyTo (run Buffers.step {} operations).memory maxSize =
            (min maxSize buffer.sizeBytes, (buffer.flatten (run Buffers.step {} operations).memory).take maxSize) := by
  have reached : ∀ state : Buffers, state.Sound → (run Buffers.step state operations).Sound ∧
      (run Buffers.step state operations).contents = run Operation.perform state.contents operations := by
    induction operations with
    | nil => exact fun state sound => ⟨sound, rfl⟩
    | cons operation operations ih =>
      intro state sound
      obtain ⟨next, bytes⟩ := sound.step operation
      rw [run_cons, run_cons, ← bytes]
      exact ih _ next
  obtain ⟨sound, contents⟩ := reached {} nofun
  refine ⟨contents, fun buffer member => ?_⟩
  have buffer_sound := sound buffer member
  exact ⟨by rw [buffer_sound.flatten_eq]; exact buffer_sound.total, buffer_sound.copyTo⟩

end TorrentMq.Common
