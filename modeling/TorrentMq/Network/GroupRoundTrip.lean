import TorrentMq.Network.GroupRequestParser

/-!
# Group requests there and back

What the group handler reads of the requests of group members that the
serializer has written.
-/

set_option autoImplicit false

namespace TorrentMq.Network.Group

open Bytes Reader List Int16 Nat

section Readers

theorem reads_bigOr {width value : Nat} (short : value < 256 ^ width) :
    Reads (readBigOr width) (encodeBig width value) value := by
  intro rest
  have length := length_encodeBig width value
  have enough : ¬(encodeBig width value ++ rest).length < width := by
    rw [length_append, length]
    omega
  change (if (encodeBig width value ++ rest).length < width then _ else _) = _
  rw [if_neg enough, take_left' length, drop_left' length, decodeBig_encodeBig short]
  rfl

theorem reads_readInt16 (value : Int16) : Reads readInt16 (writeInt16Be value) value := by
  have short : value.toUInt16.toNat < 256 ^ 2 := value.toUInt16.toNat_lt
  have read := @Reads.map _ _ _ _ _ _ (fun raw => (UInt16.ofNat raw).toInt16) _ _ (reads_bigOr short)
  rwa [UInt16.ofNat_toNat, toInt16_toUInt16] at read

theorem reads_readInt32 (value : Int32) : Reads readInt32 (writeInt32Be value) value := by
  have short : value.toUInt32.toNat < 256 ^ 4 := value.toUInt32.toNat_lt
  have read := @Reads.map _ _ _ _ _ _ (fun raw => (UInt32.ofNat raw).toInt32) _ _ (reads_bigOr short)
  rwa [UInt32.ofNat_toNat, Int32.toInt32_toUInt32] at read

theorem reads_readBlock (bytes : Bytes) : Reads (readBlock bytes.length) bytes bytes := by
  intro rest
  unfold readBlock
  change (if (bytes.length : Int) ≤ 0 then _ else if (bytes ++ rest).length < (bytes.length : Int).toNat then _ else _) = _
  rw [Int.toNat_natCast, if_neg (by simp : ¬(bytes ++ rest).length < bytes.length)]
  split
  next empty =>
    have none : bytes = [] := eq_nil_of_length_eq_zero (by omega)
    rw [none]
    rfl
  next =>
    rw [take_left' rfl, drop_left' rfl]
    rfl

theorem reads_readString {str : Bytes} (short : str.length < 32768) : Reads readString (writeString str) str := by
  rw [writeString_eq short]
  refine (reads_readInt16 _).bind ?_
  rw [toInt_ofNat_of_lt short]
  exact reads_readBlock str

theorem reads_readNullableString {str : Bytes} (short : str.length < 32768) :
    Reads readNullableString (writeNullableString str) str := by
  unfold writeNullableString
  split
  next empty =>
    rw [isEmpty_iff.mp empty, ← append_nil (writeInt16Be (-1))]
    refine (reads_readInt16 (-1)).bind ?_
    rw [if_pos rfl]
    exact Reads.pure []
  next =>
    rw [writeString_eq short]
    refine (reads_readInt16 _).bind ?_
    rw [if_neg, toInt_ofNat_of_lt short]
    · exact reads_readBlock str
    · intro none
      have length := toInt_ofNat_of_lt short
      rw [none] at length
      exact absurd length (by simp)

theorem reads_readBytes {bytes : Bytes} (short : bytes.length < 2 ^ 31) :
    Reads readBytes (writeBytes bytes) bytes := by
  refine (reads_readInt32 _).bind ?_
  rw [toInt_int32_length short]
  exact reads_readBlock bytes

theorem writeString_ne_nil (str : Bytes) : writeString str ≠ [] := by
  intro none
  have length := congrArg length none
  simp [writeString] at length

theorem writeBytes_ne_nil (bytes : Bytes) : writeBytes bytes ≠ [] := by
  intro none
  have length := congrArg length none
  simp [writeBytes] at length

end Readers

/-- A string whose length is a positive number of 16 bits, and bytes with one of 32 bits. -/
def ShortString (str : Bytes) : Prop := str.length < 32768

def ShortBytes (bytes : Bytes) : Prop := bytes.length < 2 ^ 31

instance (str : Bytes) : Decidable (ShortString str) := inferInstanceAs (Decidable (_ < _))

instance (bytes : Bytes) : Decidable (ShortBytes bytes) := inferInstanceAs (Decidable (_ < _))

def countOf {Item : Type} (items : List Item) : Nat := (Int32.ofNat items.length).toInt.toNat

theorem countOf_le {Item : Type} (items : List Item) : countOf items ≤ items.length := by
  unfold countOf
  rw [Int32.toInt_ofNat', Int.bmod_def, show Int32.size = 2 ^ 32 from rfl]
  split <;> omega

theorem countOf_eq_iff {Item : Type} {items : List Item} : countOf items = items.length ↔ items.length < 2 ^ 31 := by
  constructor
  · intro same
    have upper := (Int32.ofNat items.length).toInt_lt
    unfold countOf at same
    omega
  · intro short
    unfold countOf
    rw [toInt_int32_length short, Int.toNat_natCast]

theorem length_whileLeft_le {Value : Type} (reader : StateM Bytes Value) (count : Nat) (bytes : Bytes) :
    ((whileLeft reader count).run bytes).1.length ≤ count := by
  induction count generalizing bytes with
  | zero => exact le_refl 0
  | succ count ih =>
    cases bytes with
    | nil =>
      rw [run_whileLeft_nil]
      exact zero_le _
    | cons byte bytes =>
      rw [run_whileLeft_succ reader count (cons_ne_nil byte bytes)]
      exact succ_le_succ (ih _)

/-!
## Requests that are read back
-/

section Requests

theorem parseHeartbeatRequest_serialize {req : HeartbeatRequest} (group : ShortString req.groupId)
    (member : ShortString req.memberId) (instance_id : ShortString req.groupInstanceId) :
    parseHeartbeatRequest (serializeHeartbeatRequest req) = req := by
  unfold parseHeartbeatRequest heartbeatRequest serializeHeartbeatRequest
  rw [(reads_readString group).run_bind, (reads_readInt32 _).run_bind, (reads_readString member).run_bind,
    ← append_nil (writeNullableString _), (reads_readNullableString instance_id).run_bind]
  rfl

theorem parseLeaveGroupRequest_serialize {req : LeaveGroupRequest} (group : ShortString req.groupId)
    (member : ShortString req.memberId) :
    parseLeaveGroupRequest (serializeLeaveGroupRequest req) =
      { req with
        members := ((whileLeft readString (countOf req.members)).run (req.members.flatMap writeString)).1 } := by
  unfold parseLeaveGroupRequest leaveGroupRequest serializeLeaveGroupRequest
  rw [(reads_readString group).run_bind, (reads_readString member).run_bind, (reads_readInt32 _).run_bind]
  rfl

theorem parseSyncGroupRequest_serialize {req : SyncGroupRequest} (group : ShortString req.groupId)
    (member : ShortString req.memberId) (instance_id : ShortString req.groupInstanceId)
    (type : ShortString req.protocolType) (name : ShortString req.protocolName) :
    parseSyncGroupRequest (serializeSyncGroupRequest req) =
      { req with
        assignments :=
          ((whileLeft readAssignment (countOf req.assignments)).run (req.assignments.flatMap writeBytes)).1 } := by
  unfold parseSyncGroupRequest syncGroupRequest serializeSyncGroupRequest
  rw [(reads_readString group).run_bind, (reads_readInt32 _).run_bind, (reads_readString member).run_bind,
    (reads_readNullableString instance_id).run_bind, (reads_readString type).run_bind,
    (reads_readString name).run_bind, (reads_readInt32 _).run_bind]
  rfl

def protocolLists (req : JoinGroupRequest) : Bytes :=
  req.protocols.flatMap writeString ++
    (writeInt32Be (Int32.ofNat req.protocolMetadata.length) ++ req.protocolMetadata.flatMap writeBytes)

def protocolsRead (req : JoinGroupRequest) : List (Bytes × Bytes) :=
  ((whileLeft readProtocol (countOf req.protocols)).run (protocolLists req)).1

theorem parseJoinGroupRequest_serialize {req : JoinGroupRequest} (group : ShortString req.groupId)
    (member : ShortString req.memberId) (instance_id : ShortString req.groupInstanceId)
    (type : ShortString req.protocolType) :
    parseJoinGroupRequest (serializeJoinGroupRequest req) =
      { req with
        protocols := (protocolsRead req).map Prod.fst
        protocolMetadata := (protocolsRead req).map Prod.snd } := by
  unfold parseJoinGroupRequest joinGroupRequest serializeJoinGroupRequest
  rw [(reads_readString group).run_bind, (reads_readInt32 _).run_bind, (reads_readInt32 _).run_bind,
    (reads_readString member).run_bind, (reads_readNullableString instance_id).run_bind,
    (reads_readString type).run_bind, (reads_readInt32 _).run_bind]
  rfl

end Requests

/-!
## Requests that are misread
-/

section Misreading

variable {bytes rest : Bytes}

theorem run_readBytes_of_short (few : bytes.length < 4) : readBytes.run bytes = ([], bytes) := by
  have number : readBigOr 4 bytes = (0, bytes) := if_pos few
  change readBlock (UInt32.ofNat (readBigOr 4 bytes).1).toInt32.toInt (readBigOr 4 bytes).2 = _
  rw [number]
  rfl

theorem run_readBytes (enough : 4 ≤ bytes.length) :
    readBytes.run bytes = readBlock (Int32.ofNat (decodeBig (bytes.take 4))).toInt (bytes.drop 4) := by
  have number : readBigOr 4 bytes = (decodeBig (bytes.take 4), bytes.drop 4) := if_neg (by omega)
  change readBlock (UInt32.ofNat (readBigOr 4 bytes).1).toInt32.toInt (readBigOr 4 bytes).2 = _
  rw [number]
  rfl

variable {length : Nat}

theorem decodeBig_writeInt16Be (short : length < 32768) :
    decodeBig (writeInt16Be (ofNat length)) = length := by
  have raw : (ofNat length).toUInt16.toNat = length := by
    change (UInt16.ofNat length).toNat = length
    rw [UInt16.toNat_ofNat', mod_eq_of_lt (by omega)]
  unfold writeInt16Be
  rw [raw, decodeBig_encodeBig (by omega)]

theorem decodeBig_length_and_two (short : length < 32768) (enough : 2 ≤ rest.length) :
    ∃ low < 65536, decodeBig ((writeInt16Be (ofNat length) ++ rest).take 4) = length * 65536 + low := by
  have taken : (writeInt16Be (ofNat length) ++ rest).take 4 = writeInt16Be (ofNat length) ++ rest.take 2 := by
    rw [take_append, length_writeInt16Be]
    congr 1
  refine ⟨decodeBig (rest.take 2), ?_, ?_⟩
  · have bound := decodeBig_lt (rest.take 2)
    rwa [length_take, min_eq_left enough] at bound
  · have square : 256 ^ 2 = 65536 := rfl
    rw [taken, decodeBig_append, decodeBig_writeInt16Be short, length_take, min_eq_left enough, square]

theorem run_readBytes_of_length (positive : 0 < length) (short : length < 32768)
    (enough : 2 ≤ rest.length) :
    65536 ≤ (readBytes.run (writeInt16Be (ofNat length) ++ rest)).1.length ∨
      readBytes.run (writeInt16Be (ofNat length) ++ rest) = ([], []) := by
  obtain ⟨low, below, value⟩ := decodeBig_length_and_two short enough
  rw [run_readBytes (by simp; omega), value, toInt_int32_length (by omega)]
  unfold readBlock
  rw [Int.toNat_natCast, if_neg (by omega)]
  split
  next => exact .inr rfl
  next fits =>
    refine .inl ?_
    rw [length_take]
    omega

end Misreading

/-- The protocols and the metadata that are read are those written. -/
def KeepsProtocols (req : JoinGroupRequest) : Prop :=
  (protocolsRead req).map Prod.fst = req.protocols ∧ (protocolsRead req).map Prod.snd = req.protocolMetadata

/-- The lists are empty, or one protocol comes with the metadata that the count of one begins with. -/
def SameLayout (protocols metadata : List Bytes) : Prop :=
  protocols = [] ∧ metadata = [] ∨ ∃ name, protocols = [name] ∧ metadata = [[0]]

/-- A second protocol has a name, and the first metadata are not as long as its length makes them when misread. -/
def TellsProtocols (protocols metadata : List Bytes) : Prop :=
  ∀ second, protocols[1]? = some second → second ≠ [] ∧ ∀ first, metadata.head? = some first → first.length < 65536

section Protocols

variable {req : JoinGroupRequest}

theorem run_readProtocol {name : Bytes} (short : ShortString name) (rest : Bytes) :
    readProtocol.run (writeString name ++ rest) = ((name, (readBytes.run rest).1), (readBytes.run rest).2) := by
  unfold readProtocol
  rw [(reads_readString short).run_bind]
  rfl

theorem keepsProtocols_of_sameLayout (short : ∀ name ∈ req.protocols, ShortString name)
    (same : SameLayout req.protocols req.protocolMetadata) : KeepsProtocols req := by
  unfold KeepsProtocols protocolsRead protocolLists
  rcases same with ⟨no_protocol, no_metadata⟩ | ⟨name, one, metadata⟩
  · rw [no_protocol, no_metadata]
    exact ⟨rfl, rfl⟩
  · rw [one, metadata]
    have read : readProtocol.run (writeString name ++ (writeInt32Be 1 ++ writeBytes [0])) =
        ((name, [0]), [0, 0, 1, 0]) := by
      rw [run_readProtocol (short name (by simp [one]))]
      rfl
    have once : (whileLeft readProtocol 1).run (writeString name ++ (writeInt32Be 1 ++ writeBytes [0])) =
        ([(name, [0])], [0, 0, 1, 0]) := by
      rw [run_whileLeft_succ readProtocol 0 (by simp [writeString_ne_nil]), StateT.run_bind, read]
      rfl
    have shown : ((whileLeft readProtocol (countOf [name])).run ([name].flatMap writeString ++
        (writeInt32Be (Int32.ofNat [[(0 : UInt8)]].length) ++ [[(0 : UInt8)]].flatMap writeBytes))).1 =
          [(name, [0])] := by
      rw [flatMap_singleton, flatMap_singleton]
      exact congrArg Prod.fst once
    rw [shown]
    exact ⟨rfl, rfl⟩

theorem protocolsRead_cons {first : Bytes} {others : List Bytes} (listed : req.protocols = first :: others)
    (short : ShortString first) (keeps : KeepsProtocols req) :
    ∃ count, ∃ rest : Bytes,
      rest = others.flatMap writeString ++
          (writeInt32Be (Int32.ofNat req.protocolMetadata.length) ++ req.protocolMetadata.flatMap writeBytes) ∧
        ((whileLeft readProtocol count).run (readBytes.run rest).2).1.map Prod.fst = others ∧
        (readBytes.run rest).1 :: ((whileLeft readProtocol count).run (readBytes.run rest).2).1.map Prod.snd =
          req.protocolMetadata := by
  obtain ⟨names, metadata⟩ := keeps
  unfold protocolsRead protocolLists at names metadata
  rw [listed] at names metadata
  cases counted : countOf (first :: others) with
  | zero =>
    rw [counted] at names
    cases names
  | succ count =>
    rw [counted, flatMap_cons, append_assoc,
      run_whileLeft_succ readProtocol count (by simp [writeString_ne_nil]), StateT.run_bind,
      run_readProtocol short] at names metadata
    exact ⟨count, _, rfl, cons_injective names, metadata⟩

theorem metadata_of_single {metadata : List Bytes}
    (single : (readBytes.run (writeInt32Be (Int32.ofNat metadata.length) ++ metadata.flatMap writeBytes)).1 :: [] =
      metadata) : metadata = [[0]] := by
  obtain ⟨only, same⟩ : ∃ only, metadata = [only] := ⟨_, single.symm⟩
  subst same
  have block : readBytes.run (writeInt32Be (Int32.ofNat [only].length) ++ [only].flatMap writeBytes) =
      ((writeBytes only).take 1, (writeBytes only).drop 1) := by
    have enough : ¬(writeBytes only).length < (1 : Int).toNat := by simp [writeBytes]
    rw [flatMap_singleton]
    unfold readBytes
    rw [(reads_readInt32 _).run_bind]
    change readBlock 1 (writeBytes only) = _
    unfold readBlock
    rw [if_neg (by decide), if_neg enough]
    rfl
  have own : (writeBytes only).take 1 = only := by
    rw [block] at single
    exact (cons.inj single).1
  have length : only.length = 1 := by
    rw [← own, length_take]
    simp only [writeBytes, length_append, length_writeInt32Be]
    omega
  have written : (writeBytes only).take 1 = [0] := by
    unfold writeBytes
    rw [length]
    rfl
  rw [← own, written]

theorem sameLayout_of_keepsProtocols (short : ∀ name ∈ req.protocols, ShortString name)
    (tells : TellsProtocols req.protocols req.protocolMetadata) (keeps : KeepsProtocols req) :
    SameLayout req.protocols req.protocolMetadata := by
  cases listed : req.protocols with
  | nil =>
    have none : protocolsRead req = [] := map_eq_nil_iff.mp (keeps.1.trans listed)
    exact .inl ⟨rfl, keeps.2.symm.trans (by rw [none]; rfl)⟩
  | cons first others =>
    rw [listed] at short tells
    obtain ⟨count, rest, same, names, metadata⟩ := protocolsRead_cons listed (short first mem_cons_self) keeps
    cases others with
    | nil =>
      rw [map_eq_nil_iff.mp names, map_nil, same] at metadata
      exact .inr ⟨first, rfl, metadata_of_single metadata⟩
    | cons second others =>
      obtain ⟨some_name, fits⟩ := tells second rfl
      have positive : 0 < second.length := length_pos_iff.mpr some_name
      rw [flatMap_cons, writeString_eq (short second (by simp)), append_assoc, append_assoc] at same
      rw [same] at names metadata
      have enough : 2 ≤ (second ++ (others.flatMap writeString ++
          (writeInt32Be (Int32.ofNat req.protocolMetadata.length) ++
            req.protocolMetadata.flatMap writeBytes))).length := by
        simp only [length_append, length_writeInt32Be]
        omega
      rcases run_readBytes_of_length positive (short second (by simp)) enough with long | nothing
      · have head := congrArg head? metadata
        exact absurd (fits _ head.symm) (not_lt.mpr long)
      · rw [nothing, run_whileLeft_nil] at names
        cases names

end Protocols

def assignmentsRead (count : Nat) (assignments : List Bytes) : List Bytes :=
  ((whileLeft readAssignment count).run (assignments.flatMap writeBytes)).1

section Assignments

variable {assignment second third : Bytes} {others expected : List Bytes} {count : Nat}

theorem writeBytes_eq {bytes : Bytes} (short : ShortString bytes) :
    writeBytes bytes = writeString [] ++ (writeInt16Be (ofNat bytes.length) ++ bytes) := by
  have fits : bytes.length < 2 ^ 16 := lt_trans short (by decide)
  have raw : (Int32.ofNat bytes.length).toUInt32.toNat = bytes.length := by
    change (UInt32.ofNat bytes.length).toNat = bytes.length
    rw [UInt32.toNat_ofNat', mod_eq_of_lt (by omega)]
  have raw' : (ofNat bytes.length).toUInt16.toNat = bytes.length := by
    change (UInt16.ofNat bytes.length).toNat = bytes.length
    rw [UInt16.toNat_ofNat', mod_eq_of_lt (by omega)]
  have upper : bytes.length / 256 ^ 2 = 0 := div_eq_of_lt (by omega)
  have halves := encodeBig_add 2 2 bytes.length
  rw [upper] at halves
  unfold writeBytes writeInt32Be writeInt16Be
  rw [raw, raw', ← append_assoc]
  exact congrArg (· ++ bytes) halves

theorem run_readAssignment (short : ShortString assignment) (rest : Bytes) :
    readAssignment.run (writeBytes assignment ++ rest) =
      readBytes.run (writeInt16Be (ofNat assignment.length) ++ (assignment ++ rest)) := by
  unfold readAssignment
  rw [writeBytes_eq short, append_assoc, append_assoc, (reads_readString (by decide)).run_bind]

theorem run_readAssignment_string (short : ShortString assignment) (rest : Bytes) :
    readAssignment.run (writeString assignment ++ rest) = readBytes.run rest := by
  unfold readAssignment
  rw [(reads_readString short).run_bind]

theorem run_readAssignment_empty (short : ShortString second) (rest : Bytes) :
    readAssignment.run (writeBytes [] ++ (writeBytes second ++ rest)) = ([], writeString second ++ rest) := by
  have regrouped : writeInt16Be (ofNat ([] : Bytes).length) ++ ([] ++ (writeBytes second ++ rest)) =
      writeBytes [] ++ (writeString second ++ rest) := by
    rw [writeBytes_eq short, writeString_eq short, append_assoc, append_assoc]
    rfl
  have short_empty : ShortString [] := Nat.zero_lt_succ _
  rw [run_readAssignment short_empty, regrouped]
  have read : Reads readBytes (writeBytes []) [] := reads_readBytes (Nat.two_pow_pos 31)
  exact read _

theorem assignmentsRead_three (short : ShortString second) (fits : ShortBytes third) :
    assignmentsRead (count + 2) ([] :: second :: third :: others) = [] :: third :: assignmentsRead count others := by
  have first := run_readAssignment_empty short (writeBytes third ++ others.flatMap writeBytes)
  have next : readAssignment.run (writeString second ++ (writeBytes third ++ others.flatMap writeBytes)) =
      (third, others.flatMap writeBytes) :=
    (run_readAssignment_string short _).trans (reads_readBytes fits _)
  unfold assignmentsRead
  rw [flatMap_cons, flatMap_cons, flatMap_cons,
    fst_run_whileLeft_succ (by simp [writeBytes_ne_nil]) first,
    fst_run_whileLeft_succ (by simp [writeString_ne_nil]) next]

theorem run_readAssignment_last (short : ShortString assignment) :
    readAssignment.run (writeString assignment) = ([], []) := by
  rw [← append_nil (writeString assignment), run_readAssignment_string short]
  exact run_readBytes_of_short (by decide)

theorem assignmentsRead_two (short : ShortString second) : assignmentsRead (count + 2) [[], second] = [[], []] := by
  have first := run_readAssignment_empty short []
  rw [append_nil, append_nil] at first
  unfold assignmentsRead
  rw [flatMap_cons, flatMap_singleton, fst_run_whileLeft_succ (by simp [writeBytes_ne_nil]) first,
    fst_run_whileLeft_succ (writeString_ne_nil second) (run_readAssignment_last short), run_whileLeft_nil]

theorem assignmentsRead_one : assignmentsRead (count + 2) [[]] = [[], []] := by
  have first : readAssignment.run (writeBytes []) = ([], writeString []) := by rfl
  unfold assignmentsRead
  rw [flatMap_singleton, fst_run_whileLeft_succ (writeBytes_ne_nil []) first,
    fst_run_whileLeft_succ (writeString_ne_nil []) (run_readAssignment_last (by decide)), run_whileLeft_nil]

theorem assignmentsRead_of_ne_nil (some_byte : assignment ≠ []) (short : ShortString assignment) :
    ∃ read more, assignmentsRead (count + 1) (assignment :: others) = read :: more ∧
      (65536 ≤ read.length ∨ read = [] ∧ (more = [] ∨ others = [] ∧ more = [[]])) := by
  have positive : 0 < assignment.length := length_pos_iff.mpr some_byte
  have first := run_readAssignment short (others.flatMap writeBytes)
  have written : writeBytes assignment ++ others.flatMap writeBytes ≠ [] := by simp [writeBytes_ne_nil]
  unfold assignmentsRead
  rw [flatMap_cons]
  by_cases enough : 2 ≤ (assignment ++ others.flatMap writeBytes).length
  · have outcome := run_readBytes_of_length positive short enough
    cases result : readBytes.run (writeInt16Be (ofNat assignment.length) ++
        (assignment ++ others.flatMap writeBytes)) with
    | mk read rest =>
      rw [result] at first outcome
      rw [fst_run_whileLeft_succ written first]
      refine ⟨read, _, rfl, outcome.imp id fun nothing => ?_⟩
      obtain ⟨rfl, rfl⟩ := Prod.mk.inj nothing
      rw [run_whileLeft_nil]
      exact ⟨rfl, .inl rfl⟩
  · rw [length_append] at enough
    have last : others = [] := by
      cases others with
      | nil => rfl
      | cons other others =>
        have longer := length_pos_iff.mpr (writeBytes_ne_nil other)
        rw [flatMap_cons, length_append] at enough
        omega
    subst last
    have few : (writeInt16Be (ofNat assignment.length) ++ assignment).length < 4 := by
      rw [length_append, length_writeInt16Be]
      rw [flatMap_nil, length_nil] at enough
      omega
    rw [flatMap_nil, append_nil] at first written ⊢
    rw [append_nil, run_readBytes_of_short few, ← writeString_eq short] at first
    rw [fst_run_whileLeft_succ written first]
    refine ⟨_, _, rfl, .inr ⟨rfl, ?_⟩⟩
    cases count with
    | zero => exact .inl rfl
    | succ count =>
      rw [fst_run_whileLeft_succ (writeString_ne_nil assignment) (run_readAssignment_last short), run_whileLeft_nil]
      exact .inr ⟨rfl, rfl⟩

theorem ShortString.shortBytes {bytes : Bytes} (short : ShortString bytes) : ShortBytes bytes :=
  lt_trans short (by decide)

theorem assignmentsRead_ne : ∀ (others expected : List Bytes) (many : Nat),
    (∀ other ∈ expected ++ others, ShortString other) → 2 ≤ expected.length →
      many = others.length + expected.length → assignmentsRead many others ≠ expected ++ others
  | [], expected, many, _, two, _ => by
    intro same
    unfold assignmentsRead at same
    rw [flatMap_nil, run_whileLeft_nil, append_nil] at same
    rw [← same] at two
    exact absurd two (by decide)
  | [[]], expected, many, _, two, counted => by
    intro same
    obtain ⟨more, rfl⟩ : ∃ more, many = more + 2 := Nat.exists_eq_add_of_le' (by omega)
    have lengths := congrArg length (assignmentsRead_one.symm.trans same)
    rw [length_append] at lengths
    simp only [length_cons, length_nil] at lengths
    omega
  | [[], second], expected, many, short, two, counted => by
    intro same
    obtain ⟨more, rfl⟩ : ∃ more, many = more + 2 := Nat.exists_eq_add_of_le' (by omega)
    have lengths := congrArg length ((assignmentsRead_two (short second (by simp))).symm.trans same)
    rw [length_append] at lengths
    simp only [length_cons, length_nil] at lengths
    omega
  | [] :: second :: third :: others, expected, many, short, two, counted => by
    intro same
    obtain ⟨more, rfl⟩ : ∃ more, many = more + 2 := Nat.exists_eq_add_of_le' (by omega)
    rw [assignmentsRead_three (short second (by simp)) (short third (by simp)).shortBytes] at same
    match expected, two with
    | first_expected :: second_expected :: expected, _ =>
      obtain ⟨-, rest⟩ := cons.inj same
      obtain ⟨-, rest⟩ := cons.inj rest
      have regrouped : expected ++ [] :: second :: third :: others = (expected ++ [[], second, third]) ++ others := by
        simp
      refine assignmentsRead_ne others (expected ++ [[], second, third]) more ?_ (by simp) ?_ (rest.trans regrouped)
      · intro other member
        rw [← regrouped] at member
        exact short other (mem_cons_of_mem first_expected (mem_cons_of_mem second_expected member))
      · simp only [length_cons, length_append, length_nil] at counted ⊢
        omega
  | (byte :: bytes) :: others, expected, many, short, two, counted => by
    intro same
    obtain ⟨more, rfl⟩ : ∃ more, many = more + 1 := Nat.exists_eq_add_of_le' (by omega)
    obtain ⟨read, behind, result, outcome⟩ :=
      @assignmentsRead_of_ne_nil (byte :: bytes) others more (cons_ne_nil byte bytes) (short _ (by simp))
    rw [result] at same
    match expected, two with
    | first_expected :: second_expected :: expected, _ =>
      obtain ⟨rfl, rest⟩ := cons.inj same
      rcases outcome with long | ⟨-, rfl | ⟨rfl, rfl⟩⟩
      · exact absurd (short read (by simp)) (Nat.not_lt.mpr (Nat.le_trans (by decide) long))
      · cases rest
      · have lengths := congrArg length rest
        simp at lengths

theorem eq_of_assignmentsRead_behind (short : ∀ other ∈ third :: others, ShortString other)
    (same : assignmentsRead (others.length + 1) others = third :: others) : third = [] ∧ others = [[]] := by
  revert short same
  match others with
  | [] =>
    intro _ same
    cases same
  | [[]] =>
    intro short same
    have read : assignmentsRead (0 + 2) [[]] = [[], []] := assignmentsRead_one
    obtain ⟨rfl, -⟩ := cons.inj (read.symm.trans same)
    exact ⟨rfl, rfl⟩
  | [[], second] =>
    intro short same
    have read : assignmentsRead (1 + 2) [[], second] = [[], []] := assignmentsRead_two (short second (by simp))
    cases read.symm.trans same
  | [] :: second :: fourth :: others =>
    intro short same
    have read : assignmentsRead (others.length + 2 + 2) ([] :: second :: fourth :: others) =
        [] :: fourth :: assignmentsRead (others.length + 2) others :=
      assignmentsRead_three (short second (by simp)) (short fourth (by simp)).shortBytes
    obtain ⟨-, rest⟩ := cons.inj (read.symm.trans same)
    obtain ⟨-, rest⟩ := cons.inj rest
    have small : ∀ other ∈ [second, fourth] ++ others, ShortString other :=
      fun other member => short other (mem_cons_of_mem third (mem_cons_of_mem [] member))
    exact absurd rest (assignmentsRead_ne others [second, fourth] (others.length + 2) small (le_refl 2) rfl)
  | (byte :: bytes) :: others =>
    intro short same
    obtain ⟨read, behind, result, outcome⟩ :=
      @assignmentsRead_of_ne_nil (byte :: bytes) others (others.length + 1) (cons_ne_nil byte bytes)
        (short _ (by simp))
    obtain ⟨rfl, rest⟩ := cons.inj (result.symm.trans same)
    rcases outcome with long | ⟨-, rfl | ⟨rfl, rfl⟩⟩
    · exact absurd (short read (by simp)) (not_lt.mpr (le_trans (by decide) long))
    · cases rest
    · cases rest

theorem assignmentsRead_eq_iff {assignments : List Bytes} (short : ∀ other ∈ assignments, ShortString other) :
    assignmentsRead assignments.length assignments = assignments ↔
      ∃ length ∈ [0, 1, 2, 4], assignments = replicate length [] := by
  constructor
  · intro same
    cases assignments with
    | nil => exact ⟨0, by simp, rfl⟩
    | cons first others =>
      by_cases some_byte : first = []
      · subst some_byte
        cases others with
        | nil => exact ⟨1, by simp, rfl⟩
        | cons second others =>
          cases others with
          | nil =>
            rw [show [[], second].length = 0 + 2 from rfl, assignmentsRead_two (short second (by simp))] at same
            obtain rfl : [] = second := by simpa using same
            exact ⟨2, by simp, rfl⟩
          | cons third others =>
            rw [show ([] :: second :: third :: others).length = others.length + 1 + 2 from rfl,
              assignmentsRead_three (short second (by simp)) (short third (by simp)).shortBytes] at same
            obtain ⟨rfl, rest⟩ : third = second ∧ assignmentsRead (others.length + 1) others = third :: others := by
              simpa using same
            obtain ⟨rfl, rfl⟩ := eq_of_assignmentsRead_behind (fun other member => short other (by simp [member])) rest
            exact ⟨4, by simp, rfl⟩
      · obtain ⟨read, more, result, outcome⟩ :=
          @assignmentsRead_of_ne_nil first others others.length some_byte (short first mem_cons_self)
        rw [length_cons, result] at same
        obtain ⟨rfl, -⟩ := cons.inj same
        rcases outcome with long | ⟨none, -⟩
        · exact absurd (short read mem_cons_self) (not_lt.mpr (le_trans (by decide) long))
        · exact absurd none some_byte
  · rintro ⟨length, listed, rfl⟩
    simp only [mem_cons, not_mem_nil, or_false] at listed
    rcases listed with rfl | rfl | rfl | rfl <;> rfl

end Assignments

/-!
## Round trips
-/

inductive GroupRequest where
  | join (req : JoinGroupRequest)
  | heartbeat (req : HeartbeatRequest)
  | leave (req : LeaveGroupRequest)
  | sync (req : SyncGroupRequest)

namespace GroupRequest

def Sized : GroupRequest → Prop
  | join req =>
    (∀ str ∈ [req.groupId, req.memberId, req.groupInstanceId, req.protocolType] ++ req.protocols, ShortString str) ∧
      ∀ bytes ∈ req.protocolMetadata, ShortBytes bytes
  | heartbeat req => ∀ str ∈ [req.groupId, req.memberId, req.groupInstanceId], ShortString str
  | leave req => ∀ str ∈ [req.groupId, req.memberId] ++ req.members, ShortString str
  | sync req =>
    (∀ str ∈ [req.groupId, req.memberId, req.groupInstanceId, req.protocolType, req.protocolName], ShortString str) ∧
      ∀ bytes ∈ req.assignments, ShortBytes bytes

def RoundTrips : GroupRequest → Prop
  | join req => parseJoinGroupRequest (serializeJoinGroupRequest req) = req
  | heartbeat req => parseHeartbeatRequest (serializeHeartbeatRequest req) = req
  | leave req => parseLeaveGroupRequest (serializeLeaveGroupRequest req) = req
  | sync req => parseSyncGroupRequest (serializeSyncGroupRequest req) = req

def Agrees : GroupRequest → Prop
  | join req => SameLayout req.protocols req.protocolMetadata
  | heartbeat _ => True
  | leave req => req.members.length < 2 ^ 31
  | sync req => ∃ length ∈ [0, 1, 2, 4], req.assignments = replicate length []

def Telling : GroupRequest → Prop
  | join req => TellsProtocols req.protocols req.protocolMetadata
  | sync req => ∀ assignment ∈ req.assignments, ShortString assignment
  | _ => True

end GroupRequest

theorem members_read_iff {members : List Bytes} (short : ∀ member ∈ members, ShortString member) :
    ((whileLeft readString (countOf members)).run (members.flatMap writeString)).1 = members ↔
      members.length < 2 ^ 31 := by
  rw [← countOf_eq_iff]
  constructor
  · intro same
    refine le_antisymm (countOf_le members) ?_
    have read := length_whileLeft_le readString (countOf members) (members.flatMap writeString)
    rwa [same] at read
  · intro all
    have read : Reads (whileLeft readString members.length) (members.flatMap writeString) members :=
      Reads.whileLeft fun member listed => ⟨writeString_ne_nil member, reads_readString (short member listed)⟩
    rw [all, ← append_nil (members.flatMap writeString), read]
    rfl

theorem assignmentsRead_countOf_iff {assignments : List Bytes}
    (short : ∀ other ∈ assignments, ShortString other) :
    assignmentsRead (countOf assignments) assignments = assignments ↔
      ∃ length ∈ [0, 1, 2, 4], assignments = replicate length [] := by
  rw [← assignmentsRead_eq_iff short]
  constructor
  · intro same
    have read := length_whileLeft_le readAssignment (countOf assignments) (assignments.flatMap writeBytes)
    change (assignmentsRead (countOf assignments) assignments).length ≤ _ at read
    rw [same] at read
    have all := le_antisymm (countOf_le assignments) read
    rwa [all] at same
  · intro same
    obtain ⟨length, listed, few⟩ := (assignmentsRead_eq_iff short).mp same
    have counted : countOf assignments = assignments.length := by
      rw [countOf_eq_iff, few, length_replicate]
      simp only [mem_cons, not_mem_nil, or_false] at listed
      omega
    rw [counted]
    exact same

/-- A request that agrees with its layout comes back, and one that tells its layout comes back only then. -/
theorem roundTrips_of_agrees (request : GroupRequest) (sized : request.Sized) :
    (request.Agrees → request.RoundTrips) ∧ (request.Telling → (request.RoundTrips ↔ request.Agrees)) := by
  cases request with
  | join req =>
    have parsed := parseJoinGroupRequest_serialize (sized.1 req.groupId (by simp)) (sized.1 req.memberId (by simp))
      (sized.1 req.groupInstanceId (by simp)) (sized.1 req.protocolType (by simp))
    have keeps : (GroupRequest.join req).RoundTrips ↔ KeepsProtocols req := by
      change parseJoinGroupRequest (serializeJoinGroupRequest req) = req ↔ _
      rw [parsed, JoinGroupRequest.ext_iff]
      simp [KeepsProtocols]
    have names : ∀ name ∈ req.protocols, ShortString name := fun name member => sized.1 name (by simp [member])
    rw [keeps]
    exact ⟨keepsProtocols_of_sameLayout names,
      fun tells => ⟨sameLayout_of_keepsProtocols names tells, keepsProtocols_of_sameLayout names⟩⟩
  | heartbeat req =>
    have parsed : (GroupRequest.heartbeat req).RoundTrips :=
      parseHeartbeatRequest_serialize (sized req.groupId (by simp)) (sized req.memberId (by simp))
        (sized req.groupInstanceId (by simp))
    exact ⟨fun _ => parsed, fun _ => iff_of_true parsed trivial⟩
  | leave req =>
    have parsed := parseLeaveGroupRequest_serialize (sized req.groupId (by simp)) (sized req.memberId (by simp))
    have keeps : (GroupRequest.leave req).RoundTrips ↔ (GroupRequest.leave req).Agrees := by
      change parseLeaveGroupRequest (serializeLeaveGroupRequest req) = req ↔ _
      rw [parsed, LeaveGroupRequest.ext_iff]
      have members := members_read_iff fun member listed => sized member (mem_append_right _ listed)
      exact ⟨fun same => members.mp same.2.2, fun few => ⟨rfl, rfl, members.mpr few⟩⟩
    exact ⟨keeps.mpr, fun _ => keeps⟩
  | sync req =>
    have parsed := parseSyncGroupRequest_serialize (sized.1 req.groupId (by simp)) (sized.1 req.memberId (by simp))
      (sized.1 req.groupInstanceId (by simp)) (sized.1 req.protocolType (by simp))
      (sized.1 req.protocolName (by simp))
    have keeps : (GroupRequest.sync req).RoundTrips ↔
        assignmentsRead (countOf req.assignments) req.assignments = req.assignments := by
      change parseSyncGroupRequest (serializeSyncGroupRequest req) = req ↔ _
      rw [parsed, SyncGroupRequest.ext_iff]
      simp [assignmentsRead]
    rw [keeps]
    refine ⟨fun agrees => ?_, fun tells => assignmentsRead_countOf_iff tells⟩
    refine (assignmentsRead_countOf_iff fun other member => ?_).mpr agrees
    obtain ⟨length, -, same⟩ := agrees
    rw [same] at member
    rw [eq_of_mem_replicate member]
    exact zero_lt_succ _

def fourEmptyAssignments : SyncGroupRequest :=
  { groupId := [103], generationId := 1, memberId := [109], assignments := [[], [], [], []] }

theorem fourEmptyAssignments_roundTrips : (GroupRequest.sync fourEmptyAssignments).RoundTrips :=
  (roundTrips_of_agrees (.sync fourEmptyAssignments) ⟨by decide, by decide⟩).1 ⟨4, by decide, rfl⟩

def oneProtocol : JoinGroupRequest :=
  { groupId := [103]
    sessionTimeoutMs := 10
    rebalanceTimeoutMs := 10
    protocols := [[114]]
    protocolMetadata := [[1, 2, 3]] }

theorem oneProtocol_not_roundTrips : ¬∀ request : GroupRequest, request.Sized → request.RoundTrips := by
  intro all
  have trips : parseJoinGroupRequest (serializeJoinGroupRequest oneProtocol) = oneProtocol :=
    all (.join oneProtocol) ⟨by decide, by decide⟩
  exact absurd trips (by decide)

end TorrentMq.Network.Group
