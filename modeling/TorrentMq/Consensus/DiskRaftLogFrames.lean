import TorrentMq.Consensus.DiskRaftLog

/-! What is written as a frame is read back from wherever it is stored. -/

set_option autoImplicit false

namespace TorrentMq.Consensus

open Bytes List

def RaftCommand.InRange : RaftCommand → Prop
  | .configChange command =>
    (∀ member ∈ command.oldMembers, FitsInt 4 member) ∧ ∀ member ∈ command.newMembers, FitsInt 4 member
  | _ => True

instance : (command : RaftCommand) → Decidable command.InRange
  | .configChange _ => inferInstanceAs (Decidable (_ ∧ _))
  | .noOp | .user _ => .isTrue trivial

/-- The numbers of an entry fit into the machine integers of the source. -/
def LogEntry.InRange (entry : LogEntry) : Prop :=
  FitsInt 8 entry.term ∧ FitsInt 8 entry.index ∧ entry.command.InRange

instance (entry : LogEntry) : Decidable entry.InRange := inferInstanceAs (Decidable (_ ∧ _ ∧ _))

theorem readMembers_encodeInt (members : List RaftNodeId)
    (fits : ∀ member ∈ members, FitsInt 4 member) (rest : Bytes) :
    readMembers members.length (members.flatMap (encodeInt 8) ++ rest) = (members, rest) := by
  induction members with
  | nil => rfl
  | cons member members ih =>
    obtain ⟨lower, upper⟩ := fits member (by simp)
    have wide : FitsInt 8 member := ⟨by omega, by omega⟩
    have narrow : member.bmod (256 ^ 4) = member := Int.bmod_eq_of_le (by omega) (by omega)
    rw [flatMap_cons, append_assoc, length_cons, readMembers, readInt_encodeInt_append wide]
    dsimp only
    rw [ih fun other inside => fits other (by simp [inside]), narrow]

theorem readCommand_serialize {command : RaftCommand} (inRange : command.InRange)
    (short : command.serialize.length < 256 ^ 4) (rest : Bytes) :
    readCommand command.tag.toNat command.serialize.length (command.serialize ++ rest) = command := by
  cases command with
  | noOp => rfl
  | user command => simp [readCommand, RaftCommand.tag, RaftCommand.serialize]
  | configChange command =>
    obtain ⟨oldFits, newFits⟩ := inRange
    obtain ⟨newMembers, joint, oldMembers⟩ := command
    simp only [RaftCommand.serialize, length_cons, length_append, length_encode,
      length_flatMap_encodeInt] at short
    have flag : readNat 1 ((if joint then 1 else 0) :: (encode 4 oldMembers.length ++
        (oldMembers.flatMap (encodeInt 8) ++ (encode 4 newMembers.length ++
          (newMembers.flatMap (encodeInt 8) ++ rest))))) =
        (if joint then 1 else 0, encode 4 oldMembers.length ++ (oldMembers.flatMap (encodeInt 8) ++
          (encode 4 newMembers.length ++ (newMembers.flatMap (encodeInt 8) ++ rest)))) := by
      cases joint <;> rfl
    simp only [readCommand, RaftCommand.tag, RaftCommand.serialize, cons_append, append_assoc]
    rw [if_pos (by rfl), flag]
    dsimp only
    rw [readNat_encode_append (by omega)]
    dsimp only
    rw [readMembers_encodeInt oldMembers oldFits]
    dsimp only
    rw [readNat_encode_append (by omega)]
    dsimp only
    rw [readMembers_encodeInt newMembers newFits]
    cases joint <;> rfl

variable (entries : List LogEntry)

theorem readEntries_serializeBatch (inRange : ∀ entry ∈ entries, entry.InRange)
    (short : (serializeBatch entries).length < 256 ^ 4) :
    readEntries entries.length (serializeBatch entries) = entries := by
  induction entries with
  | nil => rfl
  | cons entry entries ih =>
    obtain ⟨term, index, command⟩ := inRange entry (by simp)
    have bytes : serializeBatch (entry :: entries) =
        encodeInt 8 entry.term ++ (encodeInt 8 entry.index ++ ([entry.command.tag] ++
          (encode 4 entry.command.serialize.length ++ (entry.command.serialize ++ serializeBatch entries)))) := by
      simp [serializeBatch, serializeEntry]
    have tag : ∀ rest, readNat 1 ([entry.command.tag] ++ rest) = (entry.command.tag.toNat, rest) := by
      intro rest
      simp [readNat, decode]
    rw [bytes] at short ⊢
    simp only [length_append, length_encodeInt, length_encode] at short
    rw [length_cons, readEntries, if_neg]
    · rw [readInt_encodeInt_append term]
      dsimp only
      rw [readInt_encodeInt_append index]
      dsimp only
      rw [tag]
      dsimp only
      rw [readNat_encode_append (by omega)]
      dsimp only
      rw [readCommand_serialize command (by omega), drop_left' rfl,
        ih (fun other inside => inRange other (by simp [inside])) (by omega)]
    · rw [List.isEmpty_iff]
      intro empty
      have := congrArg List.length empty
      simp [length_encodeInt] at this

theorem length_le_serializeBatch : entries.length ≤ (serializeBatch entries).length := by
  induction entries with
  | nil => exact Nat.le_refl 0
  | cons entry entries ih =>
    have positive : 0 < (serializeEntry entry).length := by
      simp only [serializeEntry, length_append, length_encodeInt]
      omega
    have whole : (serializeBatch (entry :: entries)).length =
        (serializeEntry entry).length + (serializeBatch entries).length := by
      simp [serializeBatch]
    rw [length_cons, whole]
    omega

@[simp] theorem length_frame :
    (frame entries).length = 16 + (serializeBatch entries).length := by
  simp only [frame, length_append, length_encode]
  omega

/-- A batch that can be written: its numbers are in range and it is not too large. -/
structure Writable (entries : List LogEntry) : Prop where
  inRange : ∀ entry ∈ entries, entry.InRange
  fits : (serializeBatch entries).length ≤ kMaxBatchBytes

theorem readBatch_of_stored {data : Bytes} {offset : Nat} {entries : List LogEntry}
    (writable : Writable entries) (stored : frame entries <+: data.drop offset) :
    readBatch data offset = if entries.length ≤ kMaxBatchEntries then entries else [] := by
  have fits := writable.fits
  have count := length_le_serializeBatch entries
  have checksum : (crc32c (serializeBatch entries)).toNat < 256 ^ 4 := UInt32.toNat_lt _
  have header : pread data offset 16 = encode 4 kLogFrameMagic ++
      (encode 4 (crc32c (serializeBatch entries)).toNat ++
        (encode 4 entries.length ++ (encode 4 (serializeBatch entries).length ++ []))) := by
    have front : encode 4 kLogFrameMagic ++ (encode 4 (crc32c (serializeBatch entries)).toNat ++
        (encode 4 entries.length ++ (encode 4 (serializeBatch entries).length ++ []))) <+: frame entries := by
      refine ⟨serializeBatch entries, ?_⟩
      simp [frame]
    have read := pread_of_stored stored front
    simpa [length_encode] using read
  have body : pread data (offset + 16) (serializeBatch entries).length = serializeBatch entries := by
    refine @pread_of_stored data (serializeBatch entries) (offset + 16) ?_ _ (prefix_refl _)
    obtain ⟨rest, split⟩ := stored
    refine ⟨rest, ?_⟩
    rw [← drop_drop, ← split]
    have shape : frame entries ++ rest = (encode 4 kLogFrameMagic ++
        encode 4 (crc32c (serializeBatch entries)).toNat ++ encode 4 entries.length ++
        encode 4 (serializeBatch entries).length) ++ (serializeBatch entries ++ rest) := by
      simp [frame]
    rw [shape, drop_left' (by simp [length_encode])]
  unfold readBatch
  rw [header, if_neg (by simp [length_encode])]
  rw [readNat_encode_append (by decide)]
  dsimp only
  rw [readNat_encode_append checksum]
  dsimp only
  rw [readNat_encode_append (by unfold kMaxBatchBytes at fits; omega)]
  dsimp only
  rw [readNat_encode_append (by unfold kMaxBatchBytes at fits; omega)]
  dsimp only
  rw [if_neg (by simp), body]
  by_cases small : entries.length ≤ kMaxBatchEntries
  · rw [if_neg (by omega), if_neg (by simp), if_neg (by simp), if_pos small,
      readEntries_serializeBatch entries writable.inRange (by unfold kMaxBatchBytes at fits; omega)]
  · rw [if_pos (by omega), if_neg small]

end TorrentMq.Consensus
