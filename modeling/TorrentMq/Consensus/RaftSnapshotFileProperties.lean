import TorrentMq.Consensus.RaftSnapshotFile

/-!
# Round trips of snapshot files

Which snapshots are read back as they were written, given that the reader
takes less into the header checksum than the writer does.
-/

set_option autoImplicit false

namespace TorrentMq.Consensus

open Bytes SnapshotSerializer SnapshotDeserializer List

theorem length_headerFields (lastIncludedIndex lastIncludedTerm : Int) (membership : RaftMembership)
    (createdAtMs : Int) : (headerFields lastIncludedIndex lastIncludedTerm membership createdAtMs).length = 48 := by
  simp [headerFields, kSnapshotMagic]

theorem length_readIds (count : Nat) (p : Bytes) : (readIds count p).1.length = count := by
  induction count generalizing p with
  | zero => rfl
  | succ count ih => simp [readIds, ih]

theorem readIds_encodeInt (ids : List RaftNodeId) (fits : ∀ id ∈ ids, FitsInt 4 id) (rest : Bytes) :
    readIds ids.length (ids.flatMap (encodeInt 4) ++ rest) = (ids, rest) := by
  induction ids with
  | nil => rfl
  | cons id ids ih =>
    have first := fits id mem_cons_self
    rw [flatMap_cons, append_assoc, length_cons, readIds, readInt_encodeInt_append first]
    dsimp only
    rw [ih fun other member => fits other (mem_cons_of_mem _ member)]

variable (result : ParsedSnapshot)

theorem parseBody_body {stateData : Bytes} (short : stateData.length < 256 ^ 8) :
    parseBody result (body stateData) = { result with stateData, valid := true } := by
  have crc : (crc32c stateData).toNat < 256 ^ 4 := (crc32c stateData).toNat_lt
  have long : ¬(body stateData).length < 12 := by
    simp only [body, length_append, length_encode]
    omega
  unfold parseBody
  rw [if_neg long, body, readNat_encode_append short]
  dsimp only
  rw [readNat_encode_append crc]
  dsimp only
  rw [if_neg (Nat.lt_irrefl _), take_length, if_neg (not_not_intro rfl)]

theorem membership_parseBody (p : Bytes) :
    (parseBody result p).membership = result.membership := by
  unfold parseBody
  dsimp only
  split
  · rfl
  · split
    · rfl
    · split <;> rfl

theorem length_parseLists {result : ParsedSnapshot} (fresh : result.valid = false) {memberCount jointMemberCount : Nat}
    {p : Bytes} (valid : (parseLists result memberCount jointMemberCount p).valid = true) :
    (parseLists result memberCount jointMemberCount p).membership.members.length = memberCount ∧
      (parseLists result memberCount jointMemberCount p).membership.jointMembers.length = jointMemberCount := by
  unfold parseLists at valid ⊢
  dsimp only at valid ⊢
  split at valid
  · rw [fresh] at valid
    cases valid
  next enough =>
    rw [if_neg enough, membership_parseBody]
    exact ⟨length_readIds _ _, length_readIds _ _⟩

theorem parseLists_membershipLists {membership : RaftMembership} {stateData : Bytes}
    (membersFit : ∀ id ∈ membership.members, FitsInt 4 id)
    (jointFit : ∀ id ∈ membership.jointMembers, FitsInt 4 id) (short : stateData.length < 256 ^ 8) :
    parseLists result membership.members.length membership.jointMembers.length
        (membershipLists membership ++ body stateData) =
      { result with
        membership := { membership with configIndex := result.lastIncludedIndex }
        stateData
        valid := true } := by
  have long : ¬(membershipLists membership ++ body stateData).length <
      (membership.members.length + membership.jointMembers.length) * 4 := by
    simp only [membershipLists, length_append, length_flatMap_encodeInt]
    omega
  unfold parseLists
  rw [if_neg long, membershipLists, append_assoc, readIds_encodeInt _ membersFit]
  dsimp only
  rw [readIds_encodeInt _ jointFit]
  dsimp only
  rw [parseBody_body _ short]

section

variable {lastIncludedIndex lastIncludedTerm : Int} {membership : RaftMembership} {stateData : Bytes}
  {createdAtMs : Int}

theorem serialize_eq :
    serialize lastIncludedIndex lastIncludedTerm membership stateData createdAtMs =
      headerFields lastIncludedIndex lastIncludedTerm membership createdAtMs ++
        (encode 4 (crc32c (headerFields lastIncludedIndex lastIncludedTerm membership createdAtMs ++
          (encode 4 0 ++ membershipLists membership))).toNat ++ (membershipLists membership ++ body stateData)) := by
  unfold serialize
  dsimp only
  rw [pwrite_append _ _ _ (by rw [length_encode, length_encode]), append_assoc, append_assoc]

/-- The numbers of a snapshot fit into the machine integers of the source. -/
structure SnapshotInRange (lastIncludedIndex lastIncludedTerm : Int) (membership : RaftMembership)
    (stateData : Bytes) (createdAtMs : Int) : Prop where
  lastIncludedIndex : FitsInt 8 lastIncludedIndex
  lastIncludedTerm : FitsInt 8 lastIncludedTerm
  members : ∀ id ∈ membership.members, FitsInt 4 id
  jointMembers : ∀ id ∈ membership.jointMembers, FitsInt 4 id
  stateData : stateData.length < 256 ^ 8
  createdAtMs : FitsInt 8 createdAtMs

/-- The writer and the reader of a header come to the same checksum. -/
def SameHeaderCrc (lastIncludedIndex lastIncludedTerm : Int) (membership : RaftMembership) (createdAtMs : Int) : Prop :=
  crc32c (headerFields lastIncludedIndex lastIncludedTerm membership createdAtMs ++
      ([0, 0, 0, 0] ++ membershipLists membership)) =
    crc32c (headerFields lastIncludedIndex lastIncludedTerm membership createdAtMs)

instance : Decidable (SameHeaderCrc lastIncludedIndex lastIncludedTerm membership createdAtMs) :=
  inferInstanceAs (Decidable (_ = _))

theorem parse_serialize (inRange : SnapshotInRange lastIncludedIndex lastIncludedTerm membership stateData createdAtMs) :
    parse (serialize lastIncludedIndex lastIncludedTerm membership stateData createdAtMs) =
      if SameHeaderCrc lastIncludedIndex lastIncludedTerm membership createdAtMs then
        parseLists { lastIncludedIndex, lastIncludedTerm, createdAtMs } (membership.members.length % 256 ^ 4)
          (membership.jointMembers.length % 256 ^ 4) (membershipLists membership ++ body stateData)
      else { lastIncludedIndex, lastIncludedTerm, createdAtMs } := by
  have header := length_headerFields lastIncludedIndex lastIncludedTerm membership createdAtMs
  have crc : (crc32c (headerFields lastIncludedIndex lastIncludedTerm membership createdAtMs ++
      (encode 4 0 ++ membershipLists membership))).toNat < 256 ^ 4 := UInt32.toNat_lt _
  rw [serialize_eq]
  generalize written : (crc32c (headerFields lastIncludedIndex lastIncludedTerm membership createdAtMs ++
    (encode 4 0 ++ membershipLists membership))).toNat = hdrCrc at crc ⊢
  generalize membershipLists membership ++ body stateData = rest
  have long : ¬(headerFields lastIncludedIndex lastIncludedTerm membership createdAtMs ++
      (encode 4 hdrCrc ++ rest)).length < kSnapshotHeaderFixedSize := by
    simp only [length_append, header, length_encode, kSnapshotHeaderFixedSize]
    omega
  have magic : (headerFields lastIncludedIndex lastIncludedTerm membership createdAtMs ++
      (encode 4 hdrCrc ++ rest)).take 8 = kSnapshotMagic.take 8 := by
    simp only [headerFields, append_assoc]
    rfl
  have fields : (headerFields lastIncludedIndex lastIncludedTerm membership createdAtMs ++
      (encode 4 hdrCrc ++ rest)).drop 8 =
        encode 4 kSnapshotVersion ++ (encode 4 kFlagNone ++ (encodeInt 8 lastIncludedIndex ++
          (encodeInt 8 lastIncludedTerm ++ (encode 4 membership.members.length ++
          (encode 4 membership.jointMembers.length ++ (encodeInt 8 createdAtMs ++
          (encode 4 hdrCrc ++ rest))))))) := by
    simp only [headerFields, append_assoc]
    rfl
  have covered : (headerFields lastIncludedIndex lastIncludedTerm membership createdAtMs ++
      (encode 4 hdrCrc ++ rest)).take ((headerFields lastIncludedIndex lastIncludedTerm membership createdAtMs ++
        (encode 4 hdrCrc ++ rest)).length - rest.length - 4) =
          headerFields lastIncludedIndex lastIncludedTerm membership createdAtMs := by
    refine take_left' ?_
    simp only [length_append, length_encode]
    omega
  unfold parse
  rw [if_neg long, magic, if_neg (not_not_intro rfl), fields, readNat_encode_append (by decide)]
  dsimp only
  rw [if_neg (not_not_intro rfl), readNat_encode_append (by decide)]
  dsimp only
  rw [readInt_encodeInt_append inRange.lastIncludedIndex]
  dsimp only
  rw [readInt_encodeInt_append inRange.lastIncludedTerm]
  dsimp only
  rw [readNat_append (length_encode 4 _), decode_encode]
  dsimp only
  rw [readNat_append (length_encode 4 _), decode_encode]
  dsimp only
  rw [readInt_encodeInt_append inRange.createdAtMs]
  dsimp only
  rw [readNat_encode_append crc]
  dsimp only
  rw [covered]
  have same : SameHeaderCrc lastIncludedIndex lastIncludedTerm membership createdAtMs ↔
      (crc32c (headerFields lastIncludedIndex lastIncludedTerm membership createdAtMs)).toNat = hdrCrc := by
    rw [← written, UInt32.toNat_inj]
    exact eq_comm
  by_cases agree : SameHeaderCrc lastIncludedIndex lastIncludedTerm membership createdAtMs
  · rw [if_pos agree, if_neg (not_not_intro (same.mp agree))]
  · rw [if_neg agree, if_pos fun equal => agree (same.mpr equal)]

/-- A snapshot is valid and as it was written when it is read from its own file. -/
structure RoundTrips (lastIncludedIndex lastIncludedTerm : Int) (membership : RaftMembership)
    (stateData : Bytes) (createdAtMs : Int) (parsed : ParsedSnapshot) : Prop where
  valid : parsed.valid = true
  index : parsed.lastIncludedIndex = lastIncludedIndex
  term : parsed.lastIncludedTerm = lastIncludedTerm
  members : parsed.membership.members = membership.members
  joint : parsed.membership.jointMembers = membership.jointMembers
  state : parsed.stateData = stateData
  created : parsed.createdAtMs = createdAtMs

/-- Exactly where the four zeros and the member lists leave the checksum of the header as it is, and
where the counts of the members fit into 32 bits, a snapshot is read back. -/
theorem parse_serialize_iff
    (inRange : SnapshotInRange lastIncludedIndex lastIncludedTerm membership stateData createdAtMs) :
    RoundTrips lastIncludedIndex lastIncludedTerm membership stateData createdAtMs
        (parse (serialize lastIncludedIndex lastIncludedTerm membership stateData createdAtMs)) ↔
      SameHeaderCrc lastIncludedIndex lastIncludedTerm membership createdAtMs ∧
        membership.members.length < 2 ^ 32 ∧ membership.jointMembers.length < 2 ^ 32 := by
  rw [parse_serialize inRange]
  constructor
  · intro back
    by_cases agree : SameHeaderCrc lastIncludedIndex lastIncludedTerm membership createdAtMs
    · rw [if_pos agree] at back
      obtain ⟨members, joint⟩ := length_parseLists rfl back.valid
      rw [back.members] at members
      rw [back.joint] at joint
      have memberBound := Nat.mod_lt membership.members.length (by decide : 256 ^ 4 > 0)
      have jointBound := Nat.mod_lt membership.jointMembers.length (by decide : 256 ^ 4 > 0)
      exact ⟨agree, by omega, by omega⟩
    · rw [if_neg agree] at back
      cases back.valid
  · rintro ⟨agree, memberBound, jointBound⟩
    have membersFit : membership.members.length < 256 ^ 4 := memberBound
    have jointFit : membership.jointMembers.length < 256 ^ 4 := jointBound
    rw [if_pos agree, Nat.mod_eq_of_lt membersFit, Nat.mod_eq_of_lt jointFit,
      parseLists_membershipLists _ inRange.members inRange.jointMembers inRange.stateData]
    exact ⟨rfl, rfl, rfl, rfl, rfl, rfl, rfl⟩

end

/-- A member id that happens to bring the checksum back to where it was. -/
theorem parse_serialize_luckyMember : RoundTrips 37 34 { members := [8247] } [1, 2, 3] 162
    (parse (serialize 37 34 { members := [8247] } [1, 2, 3] 162)) := by
  refine (parse_serialize_iff ?_).mpr (by decide +kernel)
  constructor <;> decide

/-- A cluster of three members, whose snapshot is refused. -/
theorem parse_serialize_refused : ¬∀ (lastIncludedIndex lastIncludedTerm : Int) (membership : RaftMembership)
    (stateData : Bytes) (createdAtMs : Int),
    SnapshotInRange lastIncludedIndex lastIncludedTerm membership stateData createdAtMs →
      RoundTrips lastIncludedIndex lastIncludedTerm membership stateData createdAtMs
        (parse (serialize lastIncludedIndex lastIncludedTerm membership stateData createdAtMs)) := by
  intro claim
  have back := claim 10 2 { members := [1, 2, 3] } [42] 0 (by constructor <;> decide)
  have refused : (parse (serialize 10 2 { members := [1, 2, 3] } [42] 0)).valid = false := by decide +kernel
  cases refused.symm.trans back.valid

end TorrentMq.Consensus
